import ContestGrading.Binary64.Arithmetic
import ContestGrading.Proofs.Binary64.Rounding
/-!
# The order of doubles through their magnitudes

A double that is a number has a place in the order: its signed magnitude in
units, the infinities at the overflow limit. On the numbers that are not
negative, `-0` among them, the order is that of the magnitudes.

Results:
* `le_iff_rank`: the order is the order of the places.
* `nonneg_iff`, `le_iff_magnitude`: the same for numbers that are not negative.
* `minimum_le`, `minimum_mem`: the least of a list is one of its elements
  and below all of them, unless there is a NaN (`minimum_eq_nan_iff`).
-/
namespace ContestGrading.Binary64

/-- The magnitude in units; an infinity stands at the overflow limit. -/
def magnitude : Binary64 → Nat
  | .nan => 0
  | .infinite _ => overflowLimit
  | .finite _ u _ => u

/-- The place in the order, in units. -/
def rank (x : Binary64) : Int := if x.negative then -(x.magnitude : Int) else x.magnitude

@[simp] theorem magnitude_infinite (s : Bool) : magnitude (.infinite s) = overflowLimit := rfl

@[simp] theorem magnitude_finite (s : Bool) (u : Nat) (h : Representable u) :
    magnitude (.finite s u h) = u := rfl

@[simp] theorem magnitude_zero : magnitude zero = 0 := rfl

@[simp] theorem magnitude_one : magnitude one = unitsPerOne := rfl

@[simp] theorem rank_zero : rank zero = 0 := rfl

theorem rank_finite (s : Bool) (u : Nat) (h : Representable u) :
    rank (.finite s u h) = scaled (.finite s u h) := by cases s <;> rfl

theorem rank_infinite (s : Bool) :
    rank (.infinite s) = if s then -(overflowLimit : Int) else overflowLimit := rfl

theorem magnitude_le (x : Binary64) : x.magnitude ≤ overflowLimit := by
  cases x with
  | nan => exact Nat.zero_le _
  | infinite s => exact Nat.le_refl _
  | finite s u h => exact Nat.le_of_lt h.1

/-- The magnitude of a double is one of the format, or the overflow limit. -/
theorem magnitude_cases (x : Binary64) :
    Representable x.magnitude ∨ x.magnitude = overflowLimit := by
  cases x with
  | nan => exact .inl representable_zero
  | infinite s => exact .inr rfl
  | finite s u h => exact .inl h

theorem scaled_bounds (s : Bool) {u : Nat} (h : Representable u) :
    -(overflowLimit : Int) < scaled (.finite s u h) ∧
      scaled (.finite s u h) < overflowLimit := by
  have := h.1
  cases s <;> simp only [scaled] <;> omega

/-- The order is the order of the places. -/
theorem le_iff_rank {x y : Binary64} (hx : x ≠ .nan) (hy : y ≠ .nan) :
    x ≤ y ↔ x.rank ≤ y.rank := by
  have hpos := overflowLimit_pos
  show ble x y = true ↔ _
  cases x with
  | nan => exact absurd rfl hx
  | infinite s =>
    cases y with
    | nan => exact absurd rfl hy
    | infinite t =>
      rw [rank_infinite, rank_infinite]
      cases s <;> cases t <;> simp [ble]
      omega
    | finite t v hv =>
      have := scaled_bounds t hv
      rw [rank_infinite, rank_finite]
      cases s <;> simp [ble] <;> omega
  | finite s u hu =>
    cases y with
    | nan => exact absurd rfl hy
    | infinite t =>
      have := scaled_bounds s hu
      rw [rank_infinite, rank_finite]
      cases t <;> simp [ble] <;> omega
    | finite t v hv =>
      rw [rank_finite, rank_finite]
      exact decide_eq_true_iff

theorem ne_nan_of_le {x y : Binary64} (h : x ≤ y) : x ≠ .nan ∧ y ≠ .nan := by
  constructor
  · intro e
    exact nan_not_le y (e ▸ h)
  · intro e
    subst e
    cases x <;> exact absurd h (by simp [LE.le, ble])

theorem le_trans {x y z : Binary64} (h : x ≤ y) (h' : y ≤ z) : x ≤ z := by
  obtain ⟨hx, hy⟩ := ne_nan_of_le h
  have hz := (ne_nan_of_le h').2
  rw [le_iff_rank hx hy] at h
  rw [le_iff_rank hy hz] at h'
  rw [le_iff_rank hx hz]
  exact Int.le_trans h h'

theorem le_total {x y : Binary64} (hx : x ≠ .nan) (hy : y ≠ .nan) : x ≤ y ∨ y ≤ x := by
  rw [le_iff_rank hx hy, le_iff_rank hy hx]
  exact Int.le_total _ _

/-! ## Numbers that are not negative -/

theorem zero_ne_nan : zero ≠ .nan := by simp [zero]

/-- Not negative: no sign, or a zero. -/
theorem nonneg_iff {x : Binary64} :
    zero ≤ x ↔ x ≠ .nan ∧ (x.negative = true → x.magnitude = 0) := by
  constructor
  · intro h
    have hx := (ne_nan_of_le h).2
    refine ⟨hx, ?_⟩
    intro hn
    rw [le_iff_rank zero_ne_nan hx, rank_zero] at h
    simp only [rank, hn, if_true] at h
    omega
  · rintro ⟨hx, hs⟩
    rw [le_iff_rank zero_ne_nan hx, rank_zero, rank]
    split
    next hn => simp [hs hn]
    next => exact Int.natCast_nonneg _

theorem rank_of_nonneg {x : Binary64} (h : zero ≤ x) : x.rank = x.magnitude := by
  have hs := (nonneg_iff.mp h).2
  cases hn : x.negative
  · simp [rank, hn]
  · simp [rank, hs hn]

/-- On numbers that are not negative the order is that of the magnitudes. -/
theorem le_iff_magnitude {x y : Binary64} (hx : zero ≤ x) (hy : zero ≤ y) :
    x ≤ y ↔ x.magnitude ≤ y.magnitude := by
  rw [le_iff_rank (nonneg_iff.mp hx).1 (nonneg_iff.mp hy).1, rank_of_nonneg hx, rank_of_nonneg hy]
  exact Int.ofNat_le

theorem negative_eq_false {x : Binary64} (hx : zero ≤ x) (h0 : 0 < x.magnitude) :
    x.negative = false := by
  cases hn : x.negative with
  | false => rfl
  | true => exact absurd ((nonneg_iff.mp hx).2 hn) (Nat.ne_of_gt h0)

theorem exists_of_isFinite {x : Binary64} (fx : x.isFinite = true) :
    ∃ s u h, x = .finite s u h := by
  cases x with
  | nan => cases fx
  | infinite s => cases fx
  | finite s u h => exact ⟨s, u, h, rfl⟩

theorem eq_infinity {x : Binary64} (hx : zero ≤ x) (fx : x.isFinite = false) :
    x = .infinite false := by
  cases x with
  | nan => exact absurd rfl (nonneg_iff.mp hx).1
  | infinite s =>
    cases s with
    | false => rfl
    | true => exact absurd hx (by decide)
  | finite s u h => cases fx

theorem zero_le_zero : zero ≤ zero := by decide

theorem zero_le_one : zero ≤ one := by decide +kernel

theorem not_one_le_zero : ¬ one ≤ zero := by decide +kernel

/-! ## The least of a list -/

/-- `x` comes first of the two: it is not above `y`, and of two zeros it is
the negative one if there is one. -/
def Precedes (x y : Binary64) : Prop := x ≤ y ∧ (y ≤ x → y.negative = true → x.negative = true)

theorem Precedes.refl {x : Binary64} (h : x ≠ .nan) : x.Precedes x :=
  ⟨le_refl_of_not_nan h, fun _ hn => hn⟩

theorem Precedes.trans {x y z : Binary64} (h : x.Precedes y) (h' : y.Precedes z) :
    x.Precedes z := by
  refine ⟨le_trans h.1 h'.1, ?_⟩
  intro hzx hn
  exact h.2 (le_trans h'.1 hzx) (h'.2 (le_trans hzx h.1) hn)

theorem min_cases {x y : Binary64} (hx : x ≠ .nan) (hy : y ≠ .nan) :
    (min x y = x ∧ x.Precedes y) ∨ (min x y = y ∧ y.Precedes x) := by
  have hnx : x.isNaN = false := by cases x <;> simp_all [isNaN]
  have hny : y.isNaN = false := by cases y <;> simp_all [isNaN]
  have htot := le_total hx hy
  simp only [min, hnx, hny, Bool.or_self, Bool.false_eq_true, if_false]
  split
  next h => exact .inl ⟨rfl, h.1, fun hyx => absurd hyx h.2⟩
  next h =>
    split
    next h' => exact .inr ⟨rfl, h'.1, fun hxy => absurd hxy h'.2⟩
    next h' =>
      have hxy : x ≤ y := Classical.byContradiction fun hn => h' ⟨htot.resolve_left hn, hn⟩
      have hyx : y ≤ x := Classical.byContradiction fun hn => h ⟨hxy, hn⟩
      split
      next hs => exact .inl ⟨rfl, hxy, fun _ _ => hs⟩
      next hs => exact .inr ⟨rfl, hyx, fun _ hn => absurd hn hs⟩

theorem min_nan_left (y : Binary64) : min .nan y = .nan := rfl

theorem min_nan_right (x : Binary64) : min x .nan = .nan := by cases x <;> rfl

theorem min_eq_nan_iff {x y : Binary64} : min x y = .nan ↔ x = .nan ∨ y = .nan := by
  constructor
  · intro h
    apply Classical.byContradiction
    intro hn
    obtain ⟨hx, hy⟩ := not_or.mp hn
    rcases min_cases hx hy with ⟨e, -⟩ | ⟨e, -⟩
    · exact hx (e ▸ h)
    · exact hy (e ▸ h)
  · rintro (rfl | rfl)
    · exact min_nan_left y
    · exact min_nan_right x

theorem minimum_eq_nan_iff {xs : List Binary64} : minimum xs = .nan ↔ .nan ∈ xs := by
  induction xs with
  | nil => simp
  | cons x xs ih => rw [minimum_cons, min_eq_nan_iff, ih, List.mem_cons, eq_comm]

/-- Nothing in the list comes before its least element. -/
theorem minimum_precedes {xs : List Binary64} (hn : .nan ∉ xs) :
    ∀ x ∈ xs, (minimum xs).Precedes x := by
  induction xs with
  | nil => simp
  | cons y ys ih =>
    obtain ⟨hy, hys⟩ : Binary64.nan ≠ y ∧ .nan ∉ ys := by simpa [not_or] using hn
    have hm : minimum ys ≠ .nan := fun e => hys (minimum_eq_nan_iff.mp e)
    intro x hx
    rw [minimum_cons]
    rcases List.mem_cons.mp hx with rfl | hx
    · rcases min_cases hy.symm hm with ⟨e, -⟩ | ⟨e, hp⟩
      · rw [e]; exact .refl hy.symm
      · rw [e]; exact hp
    · rcases min_cases hy.symm hm with ⟨e, hp⟩ | ⟨e, -⟩
      · rw [e]; exact hp.trans (ih hys x hx)
      · rw [e]; exact ih hys x hx

theorem minimum_le {xs : List Binary64} (hn : .nan ∉ xs) {x : Binary64} (hx : x ∈ xs) :
    minimum xs ≤ x := (minimum_precedes hn x hx).1

/-- The least of a list is one of its elements. -/
theorem minimum_mem {xs : List Binary64} (hn : .nan ∉ xs) (hne : xs ≠ []) : minimum xs ∈ xs := by
  induction xs with
  | nil => exact absurd rfl hne
  | cons y ys ih =>
    obtain ⟨hy, hys⟩ : Binary64.nan ≠ y ∧ .nan ∉ ys := by simpa [not_or] using hn
    have hm : minimum ys ≠ .nan := fun e => hys (minimum_eq_nan_iff.mp e)
    rw [minimum_cons]
    rcases min_cases hy.symm hm with ⟨e, -⟩ | ⟨e, hle⟩
    · rw [e]; exact List.mem_cons_self ..
    · by_cases hnil : ys = []
      · -- a single element is kept, `Infinity` itself included
        subst hnil
        cases y with
        | nan => exact absurd rfl hy
        | infinite s => cases s <;> simp [minimum, min, isNaN, LT.lt, LE.le, ble]
        | finite s u h => simp [minimum, min, isNaN, LT.lt, LE.le, ble]
      · rw [e]; exact List.mem_cons_of_mem _ (ih hys hnil)

theorem le_minimum {xs : List Binary64} (hn : .nan ∉ xs) (hne : xs ≠ []) {y : Binary64}
    (h : ∀ x ∈ xs, y ≤ x) : y ≤ minimum xs := h _ (minimum_mem hn hne)

end ContestGrading.Binary64
