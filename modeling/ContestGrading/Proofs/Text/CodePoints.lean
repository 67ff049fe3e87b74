import ContestGrading.Text.Basic
/-!
# Code units and code points

Texts are ordered by their code units, characters by their code points. A
character of two units begins with a surrogate, and the characters from
U+E000 on lie above the surrogates though their code points are less. Texts
without lone surrogates are in the same order both ways unless such a pair
is what they differ in first.

Results:
* `ble_flatMap_iff`: how characters decide the order of their units.
* `pointsBefore_iff`: when the order by units is the order by code points.
-/
namespace ContestGrading.Text

/-! ## Characters -/

/-- One of the characters has two units, and the other lies between the
surrogates and those. -/
def clashAt (c d : Char) : Bool :=
  (0x10000 ≤ c.toNat && (0xE000 ≤ d.toNat && d.toNat < 0x10000)) ||
    (0x10000 ≤ d.toNat && (0xE000 ≤ c.toNat && c.toNat < 0x10000))

theorem toNat_valid (c : Char) : c.toNat < 0xD800 ∨ 0xDFFF < c.toNat ∧ c.toNat < 0x110000 := c.valid

theorem toNat_ofNat_of_lt {n : Nat} (h : n < 0x10000) : (UInt16.ofNat n).toNat = n := by
  rw [UInt16.toNat_ofNat', Nat.mod_eq_of_lt h]

theorem ble_append_left (common s t : Text) : ble (common ++ s) (common ++ t) = ble s t := by
  induction common with
  | nil => rfl
  | cons u us ih => rw [List.cons_append, List.cons_append, ble, if_pos rfl, ih]

/-- The first units that differ decide. -/
theorem ble_cons_cons {u v : UInt16} (s t : Text) :
    ble (u :: s) (v :: t) = true ↔ u.toNat < v.toNat ∨ u.toNat = v.toNat ∧ ble s t = true := by
  rw [ble]
  split
  next h => subst h; simp
  next h =>
    have hne : u.toNat ≠ v.toNat := fun e => h (UInt16.toNat_inj.mp e)
    simp [hne, UInt16.lt_iff_toNat_lt]

theorem clashAt_eq_false_iff {c d : Char} : clashAt c d = false ↔
    ¬(0x10000 ≤ c.toNat ∧ 0xE000 ≤ d.toNat ∧ d.toNat < 0x10000 ∨
      0x10000 ≤ d.toNat ∧ 0xE000 ≤ c.toNat ∧ c.toNat < 0x10000) := by
  rw [← Bool.not_eq_true]
  simp [clashAt]

theorem ble_unitsOf_iff {c d : Char} (hne : c ≠ d) (s t : Text) :
    ble (unitsOf c ++ s) (unitsOf d ++ t) = true ↔ (c < d ↔ clashAt c d = false) := by
  have hlt : c < d ↔ c.toNat < d.toNat := Iff.rfl
  have hne : c.toNat ≠ d.toNat := fun e => hne (Char.toNat_inj.mp e)
  rw [hlt, clashAt_eq_false_iff]
  have hc := toNat_valid c
  have hd := toNat_valid d
  unfold unitsOf
  generalize c.toNat = m at *
  generalize d.toNat = n at *
  split <;> split <;> simp only [List.cons_append, List.nil_append, ble_cons_cons]
  · rw [toNat_ofNat_of_lt (by omega), toNat_ofNat_of_lt (by omega)]
    omega
  · rw [toNat_ofNat_of_lt (by omega), toNat_ofNat_of_lt (by omega)]
    omega
  · rw [toNat_ofNat_of_lt (by omega), toNat_ofNat_of_lt (by omega)]
    omega
  · rw [toNat_ofNat_of_lt (by omega), toNat_ofNat_of_lt (by omega), toNat_ofNat_of_lt (by omega),
      toNat_ofNat_of_lt (by omega)]
    omega

/-! ## Texts -/

/-- The characters in which two texts first differ clash. -/
def clash : List Char → List Char → Bool
  | c :: cs, d :: ds => if c = d then clash cs ds else clashAt c d
  | _, _ => false

theorem unitsOf_ne_nil (c : Char) : unitsOf c ≠ [] := by
  unfold unitsOf
  split <;> exact List.cons_ne_nil _ _

theorem ble_nil_right {t : Text} (h : t ≠ []) : ble t [] = false := by
  cases t with
  | nil => exact absurd rfl h
  | cons u us => rfl

theorem ble_flatMap_iff {cs ds : List Char} (hne : cs ≠ ds) :
    ble (cs.flatMap unitsOf) (ds.flatMap unitsOf) = true ↔ (cs < ds ↔ clash cs ds = false) := by
  induction cs generalizing ds with
  | nil =>
    cases ds with
    | nil => exact absurd rfl hne
    | cons d ds => simp [ble, clash]
  | cons c cs ih =>
    cases ds with
    | nil =>
      have hunits : (c :: cs).flatMap unitsOf ≠ [] := by simp [unitsOf_ne_nil]
      rw [List.flatMap_nil, ble_nil_right hunits]
      simp [clash]
    | cons d ds =>
      rw [List.flatMap_cons, List.flatMap_cons, List.cons_lt_cons_iff]
      by_cases hcd : c = d
      · subst hcd
        have hrest : cs ≠ ds := fun e => hne (e ▸ rfl)
        simpa [ble_append_left, clash] using ih hrest
      · simpa [hcd, clash] using ble_unitsOf_iff hcd _ _

theorem clash_self (cs : List Char) : clash cs cs = false := by
  induction cs with
  | nil => rfl
  | cons c cs ih => rw [clash, if_pos rfl, ih]

theorem clash_comm (cs ds : List Char) : clash cs ds = clash ds cs := by
  induction cs generalizing ds with
  | nil => cases ds <;> rfl
  | cons c cs ih =>
    cases ds with
    | nil => rfl
    | cons d ds =>
      rw [clash, clash]
      by_cases hcd : c = d
      · rw [if_pos hcd, if_pos hcd.symm, ih]
      · rw [if_neg hcd, if_neg (Ne.symm hcd), clashAt, clashAt, Bool.or_comm]

/-- No surrogate is alone. -/
def IsWhole (t : Text) : Prop := t.wellFormed = t

instance (t : Text) : Decidable t.IsWhole := inferInstanceAs (Decidable (_ = _))

/-- The order by code points. -/
def PointsBefore (s t : Text) : Prop := s.toChars < t.toChars

instance (s t : Text) : Decidable (PointsBefore s t) := inferInstanceAs (Decidable (_ < _))

/-- The order by units is that by code points unless the texts clash. -/
theorem pointsBefore_iff {s t : Text} (hs : s.IsWhole) (ht : t.IsWhole) (hne : s ≠ t)
    (hle : ble s t = true) : PointsBefore s t ↔ clash s.toChars t.toChars = false := by
  have hchars : s.toChars ≠ t.toChars := fun e => hne (by rw [← hs, ← ht, wellFormed, e]; rfl)
  have hle : ble (s.toChars.flatMap unitsOf) (t.toChars.flatMap unitsOf) = true := by
    rwa [← wellFormed, ← wellFormed, hs, ht]
  exact (ble_flatMap_iff hchars).mp hle

end ContestGrading.Text
