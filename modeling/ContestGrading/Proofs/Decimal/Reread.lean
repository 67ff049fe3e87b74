import ContestGrading.Proofs.Decimal.General
import ContestGrading.Proofs.Decimal.ReadBack
import Mathlib.Tactic.FinCases
/-!
# The general notation read as a number

A text that is a numeral from its first unit to its last is read as the double
nearest to what it denotes: there are no blanks to skip, it does not announce
another base, and it is not an infinity. So the general notation of a number is
read as the number rounded to significant digits. The double that is read has
the same digits, and numbers with the same digits have the same notation.

Results:
* `ofText_of_ofText?`: a numeral is read as the double nearest to it.
* `ofText_generalText`: what the general notation is read as.
* `toSignificant_of_read`: up to fifteen digits are found in the double.
* `generalText_congr`: the notation depends on the significant digits alone.
-/
namespace ContestGrading.Decimal

/-! ## What is read of a text -/

/-- What a text has in front of `rest` is without blanks. -/
def ReadsTo (t rest : Text) : Prop :=
  ∃ front, t = front ++ rest ∧ ∀ u ∈ front, Text.isBlank u = false

namespace ReadsTo

variable {s t rest : Text}

theorem refl (t : Text) : ReadsTo t t := ⟨[], rfl, nofun⟩

theorem cons {u : UInt16} (hu : Text.isBlank u = false) (h : ReadsTo t rest) :
    ReadsTo (u :: t) rest := by
  obtain ⟨front, rfl, hfront⟩ := h
  exact ⟨u :: front, rfl, List.forall_mem_cons.mpr ⟨hu, hfront⟩⟩

theorem trans (hs : ReadsTo s t) (ht : ReadsTo t rest) : ReadsTo s rest := by
  obtain ⟨front, rfl, hfront⟩ := hs
  obtain ⟨next, rfl, hnext⟩ := ht
  exact ⟨front ++ next, (List.append_assoc ..).symm, List.forall_mem_append.mpr ⟨hfront, hnext⟩⟩

end ReadsTo

theorem isBlank_of_isDigit {u : UInt16} (h : Text.isDigit u = true) : Text.isBlank u = false := by
  simp only [Text.isDigit, Bool.and_eq_true, decide_eq_true_eq, UInt16.le_iff_toNat_le] at h
  simp only [Text.isBlank, Bool.or_eq_false_iff, Bool.and_eq_false_iff, decide_eq_false_iff_not,
    UInt16.le_iff_toNat_le, ← UInt16.toNat_inj]
  simp at h ⊢
  omega

theorem readsTo_spanDigits (t : Text) : ReadsTo t (spanDigits t).2 := by
  refine ⟨t.takeWhile Text.isDigit, ?_, fun u hu => isBlank_of_isDigit (List.mem_takeWhile_imp hu)⟩
  rw [spanDigits, List.span_eq_takeWhile_dropWhile]
  exact List.takeWhile_append_dropWhile.symm

theorem readsTo_readSign (t : Text) : ReadsTo t (readSign t).2 := by
  unfold readSign
  split
  · exact (ReadsTo.refl _).cons (by decide)
  · exact (ReadsTo.refl _).cons (by decide)
  · exact .refl _

theorem readsTo_readExponent (t : Text) : ReadsTo t (readExponent t).2 := by
  unfold readExponent
  split
  next => exact .refl _
  next e after =>
    split
    next he =>
      have hmark : Text.isBlank e = false := by
        rcases he with rfl | rfl <;> decide
      split
      next negative unsigned hsign =>
        have hsign : ReadsTo after unsigned := by
          split at hsign <;> obtain ⟨-, rfl⟩ := Prod.mk.inj hsign
          · exact (ReadsTo.refl _).cons (by decide)
          · exact (ReadsTo.refl _).cons (by decide)
          · exact .refl _
        split
        next => exact .refl _
        next ds rest _ hdigits =>
          have hspan := readsTo_spanDigits unsigned
          rw [hdigits] at hspan
          exact (hsign.trans hspan).cons hmark
    next => exact .refl _

/-- Nothing but its digits, point and exponent is read of a numeral. -/
theorem readsTo_readUnsigned? {negative : Bool} {t rest : Text} {d : Decimal}
    (h : readUnsigned? negative t = some (d, rest)) : ReadsTo t rest := by
  have hwhole := readsTo_spanDigits t
  unfold readUnsigned? at h
  dsimp only at h
  split at h
  next after hafter =>
    rw [hafter] at hwhole
    obtain ⟨-, h⟩ := (Option.ite_none_left_eq_some).mp h
    obtain ⟨-, rfl⟩ := Prod.mk.inj (Option.some.inj h)
    have hfraction := (readsTo_spanDigits after).cons (by decide : Text.isBlank 46 = false)
    exact (hwhole.trans hfraction).trans (readsTo_readExponent _)
  next =>
    obtain ⟨-, h⟩ := (Option.ite_none_left_eq_some).mp h
    obtain ⟨-, rfl⟩ := Prod.mk.inj (Option.some.inj h)
    exact hwhole.trans (readsTo_readExponent _)

theorem ofText?_eq_some_iff {t : Text} {d : Decimal} :
    ofText? t = some d ↔ readUnsigned? (readSign t).1 (readSign t).2 = some (d, []) := by
  unfold ofText?
  split
  next h => simp [h]
  next hnone => exact iff_of_false nofun fun h => hnone d h

/-- A numeral is without blanks. -/
theorem isBlank_of_ofText? {t : Text} {d : Decimal} (h : ofText? t = some d) :
    ∀ u ∈ t, Text.isBlank u = false := by
  obtain ⟨front, rfl, hfront⟩ :=
    (readsTo_readSign t).trans (readsTo_readUnsigned? (ofText?_eq_some_iff.mp h))
  rwa [List.append_nil]

/-! ## Numerals as doubles -/

theorem dropWhile_isBlank {t : Text} (h : ∀ u ∈ t, Text.isBlank u = false) :
    t.dropWhile Text.isBlank = t :=
  List.dropWhile_eq_self_iff.mpr fun hlt => by simp [h _ (List.getElem_mem hlt)]

theorem trim_eq_self {t : Text} (h : ∀ u ∈ t, Text.isBlank u = false) : t.trim = t := by
  have hreverse : ∀ u ∈ t.reverse, Text.isBlank u = false :=
    fun u hu => h u (List.mem_reverse.mp hu)
  rw [Text.trim, Text.trimStart, dropWhile_isBlank h, dropWhile_isBlank hreverse,
    List.reverse_reverse]

theorem ofText?_prefixed {mark : UInt16} (h : mark ∈ [120, 88, 111, 79, 98, 66]) (ds : Text) :
    ofText? (48 :: mark :: ds) = none := by
  fin_cases h <;> rfl

/-- A decimal numeral does not announce another base. -/
theorem readPrefixed?_of_ofText? {t : Text} {d : Decimal} (h : ofText? t = some d) :
    Binary64.readPrefixed? t = none := by
  unfold Binary64.readPrefixed?
  split
  next mark ds =>
    have hmark : mark ∉ [120, 88, 111, 79, 98, 66] := by
      intro hmark
      rw [ofText?_prefixed hmark] at h
      cases h
    simp only [List.mem_cons, not_or] at hmark
    simp [hmark]
  next => rfl

theorem readUnsigned?_infinity (negative : Bool) (t : Text) :
    readUnsigned? negative (Binary64.infinityText ++ t) = none := rfl

/-- A numeral is not an infinity, and nothing follows it. -/
theorem readLeading?_of_ofText? {t : Text} {d : Decimal} (h : ofText? t = some d) :
    Binary64.readLeading? t = some (d.toBinary64, []) := by
  have hread := ofText?_eq_some_iff.mp h
  unfold Binary64.readLeading?
  dsimp only
  split
  next hinfinity =>
    obtain ⟨rest, hrest⟩ := List.isPrefixOf_iff_prefix.mp hinfinity
    rw [← hrest, readUnsigned?_infinity] at hread
    cases hread
  next => rw [hread, Option.map_some]

/-- A text that is a numeral is read as the double nearest to it. -/
theorem ofText_of_ofText? {t : Text} {d : Decimal} (h : ofText? t = some d) :
    Binary64.ofText t = d.toBinary64 := by
  have hne : t ≠ [] := by
    rintro rfl
    cases h
  unfold Binary64.ofText
  rw [trim_eq_self (isBlank_of_ofText? h)]
  split
  next => exact absurd rfl hne
  next => rw [readPrefixed?_of_ofText? h, readLeading?_of_ofText? h]

/-! ## The general notation -/

variable {x y : Binary64} {d e : Decimal} {p : Nat}

/-- The general notation is read as the double nearest to the number rounded
to significant digits. -/
theorem ofText_generalText (hx : 0 < x.units) (hp : p ≤ 20) :
    Binary64.ofText (x.generalText (p + 1)) = (x.toSignificant (p + 1)).toBinary64 := by
  obtain ⟨d, hd, hsign, hsize⟩ := ofText?_generalText hx hp
  rw [ofText_of_ofText? hd]
  exact toBinary64_congr (hsign.trans (toSignificant_negative hx p).symm) hsize

/-- While it is positional, the notation is laid out from the significant digits. -/
theorem generalText_eq_fixedNotation (hx : 0 < x.units) (hp : p ≤ 20)
    (hlow : -4 ≤ x.generalExponent (p + 1)) (hhigh : x.generalExponent (p + 1) ≤ p) :
    x.generalText (p + 1) = dropTrailingZeros ((x.toSignificant (p + 1)).fixedNotation
      ((p + 1 : Nat) - 1 - x.generalExponent (p + 1)).toNat) := by
  have hfixed := exceedsFixed_of_generalExponent hx hp hhigh
  rw [generalText_eq_positional hx hlow hhigh, Binary64.generalPositional, Binary64.fixedText,
    if_neg (by simp [hfixed]), toSignificant_eq_toFixed hx (exponent_toSignificant_eq hhigh)]

/-- The notation shows nothing of a number but its significant digits. -/
theorem generalText_congr (hx : 0 < x.units) (hy : 0 < y.units) (hp : p ≤ 20)
    (h : x.toSignificant (p + 1) = y.toSignificant (p + 1)) :
    x.generalText (p + 1) = y.generalText (p + 1) := by
  have hexponent : x.generalExponent (p + 1) = y.generalExponent (p + 1) := by
    rw [Binary64.generalExponent, Binary64.generalExponent, h]
  by_cases hrange : x.generalExponent (p + 1) < -4 ∨ p < x.generalExponent (p + 1)
  · rw [generalText_exponential hx hrange, generalText_exponential hy (hexponent ▸ hrange),
      Binary64.generalExponential, Binary64.generalExponential, h, hexponent]
  · rw [generalText_eq_fixedNotation hx hp (by omega) (by omega),
      generalText_eq_fixedNotation hy hp (by omega) (by omega), h, hexponent]

/-! ## Digits that are found again -/

/-- Of as many digits, a lesser magnitude does not end at a greater place. -/
theorem exponent_le_of_size_le (hd : 10 ^ p ≤ d.coefficient) (he : e.coefficient < 10 ^ (p + 1))
    (h : d.size ≤ e.size) : d.exponent ≤ e.exponent := by
  have hd : (10 : ℚ) ^ p ≤ d.coefficient := by exact_mod_cast hd
  have he : (e.coefficient : ℚ) < 10 ^ (p + 1) := by exact_mod_cast he
  have hpow : (10 : ℚ) ^ ((p : ℤ) + d.exponent) < 10 ^ ((p + 1 : Nat) + e.exponent) := by
    rw [zpow_add₀ (by norm_num), zpow_add₀ (by norm_num), zpow_natCast, zpow_natCast]
    calc (10 : ℚ) ^ p * 10 ^ d.exponent ≤ d.size := by unfold size; gcongr
      _ ≤ e.size := h
      _ < 10 ^ (p + 1) * 10 ^ e.exponent := by unfold size; gcongr
  have := (zpow_lt_zpow_iff_right₀ (by norm_num : (1 : ℚ) < 10)).mp hpow
  omega

/-- Of as many digits, the same magnitude has the same ones. -/
theorem eq_of_size_eq (hd : 10 ^ p ≤ d.coefficient ∧ d.coefficient < 10 ^ (p + 1))
    (he : 10 ^ p ≤ e.coefficient ∧ e.coefficient < 10 ^ (p + 1)) (hsign : d.negative = e.negative)
    (hsize : d.size = e.size) : d = e := by
  have hexponent : d.exponent = e.exponent :=
    le_antisymm (exponent_le_of_size_le hd.1 he.2 hsize.le)
      (exponent_le_of_size_le he.1 hd.2 hsize.ge)
  rw [size, size, hexponent] at hsize
  have hpos : (0 : ℚ) < 10 ^ e.exponent := by positivity
  have hcoefficient : d.coefficient = e.coefficient := by
    exact_mod_cast mul_right_cancel₀ hpos.ne' hsize
  obtain ⟨s, c, k⟩ := d
  obtain ⟨t, b, l⟩ := e
  obtain rfl : s = t := hsign
  obtain rfl : c = b := hcoefficient
  obtain rfl : k = l := hexponent
  rfl

/-- Up to fifteen digits are found again in the double that they are read as. -/
theorem toSignificant_of_read (hx : 2 ^ 53 ≤ x.units) (hd : d.toBinary64 = x) (hp : p ≤ 14)
    (hc : 10 ^ p ≤ d.coefficient ∧ d.coefficient < 10 ^ (p + 1)) :
    x.toSignificant (p + 1) = d := by
  have hpos : 0 < x.units := by omega
  obtain ⟨n, hn⟩ := exists_multiple_of_le (lastExponent_le_of_digits hx hd hp hc.2)
  refine eq_of_size_eq (toSignificant_bounds hpos p) hc ?_ (size_toSignificant_of_read hx hd hp hn)
  rw [toSignificant_negative hpos, ← hd, negative_toBinary64]

end ContestGrading.Decimal
