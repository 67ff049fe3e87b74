import ContestGrading.Text.Utf8
/-!
# Texts of characters

What a text has as a list of characters and as bytes, character by
character. Both are needed to compute with long literals.

Results:
* `ofString_ofList`: the units of a list of characters.
* `encode_eq`: the bytes of a text.
-/
namespace ContestGrading.Text

theorem ofString_ofList (cs : List Char) : ofString (String.ofList cs) = cs.flatMap unitsOf := by
  rw [ofString, String.toList_ofList]

/-- The bytes that are still to be listed stand behind those that are. -/
theorem toList_loop_eq (bs : ByteArray) (i : Nat) (done : List UInt8) :
    ByteArray.toList.loop bs i done = done.reverse ++ bs.data.toList.drop i := by
  fun_induction ByteArray.toList.loop bs i done with
  | case1 i done h ih =>
    have hi : i < bs.data.toList.length := h
    have hget : bs.get! i = bs.data.toList[i] := getElem!_pos bs.data i h
    rw [ih, List.reverse_cons, List.append_assoc, List.singleton_append, hget,
      List.getElem_cons_drop]
  | case2 i done h =>
    have hi : bs.data.toList.length ≤ i := Nat.le_of_not_lt h
    rw [List.drop_of_length_le hi, List.append_nil]

theorem encode_eq (t : Text) : encode t = t.toChars.flatMap String.utf8EncodeChar := by
  rw [encode, ByteArray.toList, toList_loop_eq]
  exact List.toList_data_toByteArray

end ContestGrading.Text
