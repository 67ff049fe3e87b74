import ContestGrading.Text.Basic
/-!
# Blank characters

The white space and line ends that reading a numeral skips and that the
class `\s` of a pattern holds: the Unicode space separators, the control
characters tab to carriage return, the two line separators and the byte
order mark.

Results:
* `isBlank_of_isLineEnd`: line ends are blank.
* `trim_trimStart`: trimming on the left first changes nothing.
-/
namespace ContestGrading.Text

def isLineEnd (u : UInt16) : Bool := u = 10 || u = 13 || u = 0x2028 || u = 0x2029

def isBlank (u : UInt16) : Bool :=
  (9 ≤ u && u ≤ 13) || u = 0x20 || u = 0xA0 || u = 0x1680 || (0x2000 ≤ u && u ≤ 0x200A) ||
    u = 0x2028 || u = 0x2029 || u = 0x202F || u = 0x205F || u = 0x3000 || u = 0xFEFF

def trimStart (t : Text) : Text := t.dropWhile isBlank

def trim (t : Text) : Text := (t.trimStart.reverse.dropWhile isBlank).reverse

theorem isBlank_of_isLineEnd {u : UInt16} (h : isLineEnd u = true) : isBlank u = true := by
  simp only [isLineEnd, Bool.or_eq_true, decide_eq_true_eq] at h
  rcases h with ((h | h) | h) | h <;> subst h <;> decide

theorem trim_trimStart (t : Text) : trim (trimStart t) = trim t := by
  unfold trim trimStart
  congr 3
  induction t with
  | nil => rfl
  | cons u us ih =>
    by_cases h : isBlank u = true
    · simpa [List.dropWhile_cons, h] using ih
    · simp [h]

end ContestGrading.Text
