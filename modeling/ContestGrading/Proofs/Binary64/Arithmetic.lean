import ContestGrading.Proofs.Binary64.Order
/-!
# Arithmetic on doubles that are not negative

On numbers that are not negative an operation is the exact result on the
magnitudes, rounded once; an infinity takes part as the overflow limit, so
that overflow needs no case of its own. The order of the results then comes
from the order of the quotients that are rounded.

Results:
* `magnitude_ofNat_of_le`: natural numbers up to `2 ^ 53` are doubles.
* `magnitude_add`, `magnitude_mul`, `magnitude_div`: the operations.
* `add_le_add`, `mul_le_mul`, `div_le_div`: they keep the order.
* `min_magnitude_add_multiple`: how far sums are exact.
* `one_mul`, `div_self`: results that are exact.
* `sum_map_le`, `sum_sublist_le`: sums of a list, term by term and of a part.
-/
namespace ContestGrading.Binary64

/-! ## Doubles of a magnitude -/

theorem negative_ofUnits (s : Bool) (u : Nat) : (ofUnits s u).negative = s := by
  unfold ofUnits; split <;> rfl

theorem ofUnits_ne_nan (s : Bool) (u : Nat) : ofUnits s u ≠ .nan := by
  unfold ofUnits; split <;> simp

theorem magnitude_ofUnits (s : Bool) {u : Nat} (h : Representable u ∨ u = overflowLimit) :
    (ofUnits s u).magnitude = u := by
  unfold ofUnits
  split
  next => rfl
  next hn => exact (h.resolve_left hn).symm

theorem magnitude_ofRatio (s : Bool) {num den : Nat} (hd : 0 < den) :
    (ofRatio s num den).magnitude = rounded num den := by
  rw [ofRatio_eq, magnitude_ofUnits s (rounded_cases hd)]

/-- A quotient is not negative unless it has a sign and does not round to zero. -/
theorem zero_le_ofRatio {s : Bool} {num den : Nat} (hd : 0 < den)
    (h : s = true → rounded num den = 0) : zero ≤ ofRatio s num den := by
  rw [nonneg_iff, magnitude_ofRatio s hd, ofRatio_eq, negative_ofUnits]
  exact ⟨ofUnits_ne_nan _ _, h⟩

theorem rounded_zero {den : Nat} (hd : 0 < den) : rounded 0 den = 0 := by
  have := rounded_mul_self hd (.inl representable_zero)
  rwa [Nat.zero_mul] at this

theorem rounded_of_overflow {num den : Nat} (hd : 0 < den) (h : overflowLimit * den ≤ num) :
    rounded num den = overflowLimit :=
  Nat.le_antisymm (rounded_le_overflowLimit _ _) (le_rounded hd (.inr rfl) h)

/-! ## Natural numbers -/

theorem zero_le_ofNat (n : Nat) : zero ≤ ofNat n := zero_le_ofRatio Nat.one_pos (by simp)

theorem magnitude_ofNat (n : Nat) : (ofNat n).magnitude = rounded (n * unitsPerOne) 1 :=
  magnitude_ofRatio _ Nat.one_pos

/-- Natural numbers up to `2 ^ 53` are doubles. -/
theorem magnitude_ofNat_of_le {n : Nat} (h : n ≤ 2 ^ 53) :
    (ofNat n).magnitude = n * unitsPerOne := by
  rw [magnitude_ofNat, rounded_one (.inl (representable_mul_unitsPerOne h))]

theorem isFinite_ofNat {n : Nat} (h : n ≤ 2 ^ 53) : (ofNat n).isFinite = true := by
  rw [ofNat, ofRatio_representable (representable_mul_unitsPerOne h)]
  rfl

theorem le_magnitude_ofNat {m n : Nat} (hm : m ≤ 2 ^ 53) (h : m ≤ n) :
    m * unitsPerOne ≤ (ofNat n).magnitude := by
  rw [magnitude_ofNat]
  refine le_rounded Nat.one_pos (.inl (representable_mul_unitsPerOne hm)) ?_
  rw [Nat.mul_one]
  exact Nat.mul_le_mul_right _ h

/-! ## Sums -/

theorem scaled_of_nonneg {s : Bool} {u : Nat} {h : Representable u} (hx : zero ≤ finite s u h) :
    scaled (.finite s u h) = u := by
  have := rank_of_nonneg hx
  rwa [rank_finite] at this

theorem infinity_add {y : Binary64} (hy : zero ≤ y) : .infinite false + y = .infinite false := by
  cases fy : y.isFinite with
  | false => rw [eq_infinity hy fy]; rfl
  | true =>
    obtain ⟨t, v, hv, rfl⟩ := exists_of_isFinite fy
    rfl

/-- The sum: exact, and rounded once. -/
theorem magnitude_add {x y : Binary64} (hx : zero ≤ x) (hy : zero ≤ y) :
    zero ≤ x + y ∧ (x + y).magnitude = rounded (x.magnitude + y.magnitude) 1 := by
  cases fx : x.isFinite with
  | false =>
    obtain rfl := eq_infinity hx fx
    rw [infinity_add hy, rounded_of_overflow Nat.one_pos (by simp)]
    exact ⟨rfl, rfl⟩
  | true =>
    cases fy : y.isFinite with
    | false =>
      obtain rfl := eq_infinity hy fy
      rw [add_comm, infinity_add hx, rounded_of_overflow Nat.one_pos (by simp)]
      exact ⟨rfl, rfl⟩
    | true =>
      obtain ⟨s, u, hu, rfl⟩ := exists_of_isFinite fx
      obtain ⟨t, v, hv, rfl⟩ := exists_of_isFinite fy
      have hsum : scaled (.finite s u hu) + scaled (.finite t v hv) = ((u + v : Nat) : Int) := by
        rw [scaled_of_nonneg hx, scaled_of_nonneg hy]; rfl
      show zero ≤ add _ _ ∧ (add _ _).magnitude = _
      simp only [add, hsum, magnitude_finite]
      split
      next h0 =>
        have h0 : u + v = 0 := by omega
        refine ⟨nonneg_iff.mpr ⟨by simp, fun _ => rfl⟩, ?_⟩
        rw [h0, rounded_zero Nat.one_pos]; rfl
      next h0 =>
        have hneg : decide (((u + v : Nat) : Int) < 0) = false :=
          decide_eq_false (Int.not_lt.mpr (Int.natCast_nonneg _))
        rw [hneg, Int.natAbs_natCast]
        exact ⟨zero_le_ofRatio Nat.one_pos (by simp), magnitude_ofRatio _ Nat.one_pos⟩

theorem add_nonneg {x y : Binary64} (hx : zero ≤ x) (hy : zero ≤ y) : zero ≤ x + y :=
  (magnitude_add hx hy).1

theorem add_le_add {x x' y y' : Binary64} (hx : zero ≤ x) (hy : zero ≤ y) (hxx : x ≤ x')
    (hyy : y ≤ y') : x + y ≤ x' + y' := by
  have hx' := le_trans hx hxx
  have hy' := le_trans hy hyy
  obtain ⟨h, e⟩ := magnitude_add hx hy
  obtain ⟨h', e'⟩ := magnitude_add hx' hy'
  rw [le_iff_magnitude h h', e, e']
  rw [le_iff_magnitude hx hx'] at hxx
  rw [le_iff_magnitude hy hy'] at hyy
  exact rounded_mono Nat.one_pos Nat.one_pos (by omega)

theorem le_add_of_nonneg {x y : Binary64} (hx : zero ≤ x) (hy : zero ≤ y) : x ≤ x + y := by
  obtain ⟨h, e⟩ := magnitude_add hx hy
  rw [le_iff_magnitude hx h, e]
  exact le_rounded Nat.one_pos (magnitude_cases x) (by omega)

/-- Multiples add up exactly as long as `2 ^ 53` of them are not reached, and
from there on the sum stays there. -/
theorem min_magnitude_add_multiple {g m n : Nat} (hg : 0 < g)
    (hrep : ∀ k ≤ 2 ^ 53, Representable (k * g)) {x y : Binary64} (hx : zero ≤ x)
    (hm : Min.min x.magnitude (2 ^ 53 * g) = Min.min (m * g) (2 ^ 53 * g)) (hy : zero ≤ y)
    (hn : y.magnitude = n * g) :
    Min.min (x + y).magnitude (2 ^ 53 * g) = Min.min ((m + n) * g) (2 ^ 53 * g) := by
  rw [(magnitude_add hx hy).2, hn, Nat.add_mul]
  rcases Nat.lt_or_ge (m + n) (2 ^ 53) with hlt | hge
  · have hlimit : (m + n) * g < 2 ^ 53 * g := Nat.mul_lt_mul_of_pos_right hlt hg
    rw [Nat.add_mul] at hlimit
    have hexact : x.magnitude = m * g := by omega
    rw [hexact, ← Nat.add_mul, rounded_one (.inl (hrep _ (Nat.le_of_lt hlt)))]
  · have hlimit : 2 ^ 53 * g ≤ (m + n) * g := Nat.mul_le_mul_right _ hge
    rw [Nat.add_mul] at hlimit
    have hle : 2 ^ 53 * g ≤ rounded (x.magnitude + n * g) 1 :=
      le_rounded Nat.one_pos (.inl (hrep _ (Nat.le_refl _))) (by omega)
    rw [Nat.min_eq_right hle, Nat.min_eq_right hlimit]

/-! ## Products -/

/-- The product of two finite numbers: exact, and rounded once. -/
theorem magnitude_mul {x y : Binary64} (hx : zero ≤ x) (hy : zero ≤ y) (fx : x.isFinite = true)
    (fy : y.isFinite = true) :
    zero ≤ x * y ∧ (x * y).magnitude = rounded (x.magnitude * y.magnitude) unitsPerOne := by
  obtain ⟨s, u, hu, rfl⟩ := exists_of_isFinite fx
  obtain ⟨t, v, hv, rfl⟩ := exists_of_isFinite fy
  show zero ≤ mul _ _ ∧ (mul _ _).magnitude = _
  simp only [mul, magnitude_finite]
  refine ⟨zero_le_ofRatio unitsPerOne_pos ?_, magnitude_ofRatio _ unitsPerOne_pos⟩
  intro hst
  have hu0 := (nonneg_iff.mp hx).2
  have hv0 := (nonneg_iff.mp hy).2
  have h0 : u * v = 0 := by
    cases s with
    | false =>
      cases t with
      | false => simp at hst
      | true => rw [show v = 0 from hv0 rfl, Nat.mul_zero]
    | true => rw [show u = 0 from hu0 rfl, Nat.zero_mul]
  rw [h0, rounded_zero unitsPerOne_pos]

theorem isFinite_of_le {x y : Binary64} (hx : zero ≤ x) (h : x ≤ y) (fy : y.isFinite = true) :
    x.isFinite = true := by
  cases fx : x.isFinite with
  | true => rfl
  | false =>
    obtain rfl := eq_infinity hx fx
    obtain ⟨t, v, hv, rfl⟩ := exists_of_isFinite fy
    exact absurd h (by simp [LE.le, ble])

theorem mul_le_mul {x x' y : Binary64} (hx : zero ≤ x) (hy : zero ≤ y) (h : x ≤ x')
    (fx : x'.isFinite = true) (fy : y.isFinite = true) : x * y ≤ x' * y := by
  have hx' := le_trans hx h
  obtain ⟨hp, e⟩ := magnitude_mul hx hy (isFinite_of_le hx h fx) fy
  obtain ⟨hp', e'⟩ := magnitude_mul hx' hy fx fy
  rw [le_iff_magnitude hp hp', e, e']
  rw [le_iff_magnitude hx hx'] at h
  exact rounded_mono unitsPerOne_pos unitsPerOne_pos
    (Nat.mul_le_mul_right _ (Nat.mul_le_mul_right _ h))

/-- One times a finite number is that number, its sign included. -/
theorem one_mul {x : Binary64} (fx : x.isFinite = true) : one * x = x := by
  obtain ⟨t, v, hv, rfl⟩ := exists_of_isFinite fx
  show ofRatio (false != t) (unitsPerOne * v) unitsPerOne = _
  rw [ofRatio_eq, Nat.mul_comm, rounded_mul_self unitsPerOne_pos (.inl hv), ofUnits_units hv]
  cases t <;> rfl

/-! ## Quotients -/

/-- The quotient of two finite numbers: exact, and rounded once. -/
theorem magnitude_div {x y : Binary64} (hx : zero ≤ x) (hy : zero ≤ y) (fx : x.isFinite = true)
    (fy : y.isFinite = true) (h0 : 0 < y.magnitude) :
    zero ≤ x / y ∧ (x / y).magnitude = rounded (x.magnitude * unitsPerOne) y.magnitude := by
  obtain ⟨s, u, hu, rfl⟩ := exists_of_isFinite fx
  obtain ⟨t, v, hv, rfl⟩ := exists_of_isFinite fy
  show zero ≤ div _ _ ∧ (div _ _).magnitude = _
  rw [magnitude_finite] at h0
  simp only [div, if_neg (Nat.ne_of_gt h0), magnitude_finite]
  refine ⟨zero_le_ofRatio h0 ?_, magnitude_ofRatio _ h0⟩
  intro hst
  have ht : t = false := by
    cases t with
    | false => rfl
    | true => exact absurd ((nonneg_iff.mp hy).2 rfl) (Nat.ne_of_gt h0)
  have hs : s = true := by rw [ht] at hst; simpa using hst
  have hu0 : u = 0 := (nonneg_iff.mp hx).2 hs
  rw [hu0, Nat.zero_mul, rounded_zero h0]

/-- A finite number divided by `Infinity` is zero. -/
theorem div_infinity {x : Binary64} (hx : zero ≤ x) (fx : x.isFinite = true) :
    zero ≤ x / .infinite false ∧ (x / .infinite false).magnitude = 0 := by
  obtain ⟨s, u, hu, rfl⟩ := exists_of_isFinite fx
  show zero ≤ div _ _ ∧ (div _ _).magnitude = 0
  exact ⟨nonneg_iff.mpr ⟨by simp [div], fun _ => rfl⟩, rfl⟩

theorem div_le_div {x x' y : Binary64} (hx : zero ≤ x) (hy : zero ≤ y) (h0 : 0 < y.magnitude)
    (h : x ≤ x') (fx : x'.isFinite = true) : zero ≤ x / y ∧ x / y ≤ x' / y := by
  have hx' := le_trans hx h
  have fx' := isFinite_of_le hx h fx
  cases fy : y.isFinite with
  | false =>
    rw [eq_infinity hy fy]
    obtain ⟨hp, e⟩ := div_infinity hx fx'
    obtain ⟨hp', e'⟩ := div_infinity hx' fx
    exact ⟨hp, (le_iff_magnitude hp hp').mpr (Nat.le_of_eq (e.trans e'.symm))⟩
  | true =>
    obtain ⟨hp, e⟩ := magnitude_div hx hy fx' fy h0
    obtain ⟨hp', e'⟩ := magnitude_div hx' hy fx fy h0
    refine ⟨hp, ?_⟩
    rw [le_iff_magnitude hp hp', e, e']
    rw [le_iff_magnitude hx hx'] at h
    exact rounded_mono h0 h0 (Nat.mul_le_mul_right _ (Nat.mul_le_mul_right _ h))

theorem div_self {x : Binary64} (hx : zero ≤ x) (fx : x.isFinite = true) (h0 : 0 < x.magnitude) :
    x / x = one := by
  obtain ⟨t, v, hv, rfl⟩ := exists_of_isFinite fx
  rw [magnitude_finite] at h0
  show (if v = 0 then _ else ofRatio (t != t) (v * unitsPerOne) v) = _
  rw [if_neg (Nat.ne_of_gt h0), ofRatio_eq, Nat.mul_comm,
    rounded_mul_self h0 (.inl representable_one), ofUnits_units representable_one]
  cases t <;> rfl

theorem div_le_one {x y : Binary64} (hx : zero ≤ x) (h0 : 0 < y.magnitude) (h : x ≤ y)
    (fx : x.isFinite = true) : x / y ≤ one := by
  have hy := le_trans hx h
  cases fy : y.isFinite with
  | false =>
    rw [eq_infinity hy fy]
    obtain ⟨hp, e⟩ := div_infinity hx fx
    rw [le_iff_magnitude hp zero_le_one, e]
    exact Nat.zero_le _
  | true =>
    have := (div_le_div hx hy h0 h fy).2
    rwa [div_self hy fy h0] at this

/-! ## Sums of a list -/

variable {α : Type}

theorem foldl_add_le {f g : α → Binary64} (l : List α) (h : ∀ a ∈ l, zero ≤ f a ∧ f a ≤ g a)
    {x y : Binary64} (hx : zero ≤ x) (hxy : x ≤ y) :
    zero ≤ (l.map f).foldl (· + ·) x ∧ (l.map f).foldl (· + ·) x ≤ (l.map g).foldl (· + ·) y := by
  induction l generalizing x y with
  | nil => exact ⟨hx, hxy⟩
  | cons a l ih =>
    obtain ⟨hf, hfg⟩ := h a (List.mem_cons_self ..)
    exact ih (fun b hb => h b (List.mem_cons_of_mem _ hb)) (add_nonneg hx hf)
      (add_le_add hx hf hxy hfg)

/-- Term by term no greater, in sum no greater. -/
theorem sum_map_le {f g : α → Binary64} {l : List α} (h : ∀ a ∈ l, zero ≤ f a ∧ f a ≤ g a) :
    zero ≤ sum (l.map f) ∧ sum (l.map f) ≤ sum (l.map g) :=
  foldl_add_le l h zero_le_zero zero_le_zero

theorem foldl_add_sublist {xs ys : List Binary64} (h : xs.Sublist ys) (hy : ∀ y ∈ ys, zero ≤ y)
    {a b : Binary64} (ha : zero ≤ a) (hab : a ≤ b) :
    xs.foldl (· + ·) a ≤ ys.foldl (· + ·) b := by
  induction h generalizing a b with
  | slnil => exact hab
  | cons y _ ih =>
    obtain ⟨hy0, hys⟩ := List.forall_mem_cons.mp hy
    exact ih hys ha (le_trans hab (le_add_of_nonneg (le_trans ha hab) hy0))
  | cons_cons y _ ih =>
    obtain ⟨hy0, hys⟩ := List.forall_mem_cons.mp hy
    exact ih hys (add_nonneg ha hy0)
      (add_le_add ha hy0 hab (le_refl_of_not_nan (nonneg_iff.mp hy0).1))

/-- A part of a list sums up to no more than the list. -/
theorem sum_sublist_le {xs ys : List Binary64} (h : xs.Sublist ys) (hy : ∀ y ∈ ys, zero ≤ y) :
    sum xs ≤ sum ys := foldl_add_sublist h hy zero_le_zero zero_le_zero

end ContestGrading.Binary64
