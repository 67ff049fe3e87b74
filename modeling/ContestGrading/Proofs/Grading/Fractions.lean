import ContestGrading.Grading.Policy
import ContestGrading.Proofs.Binary64.Arithmetic
/-!
# Policies on fractions

What the policies make of outcomes between zero and one: such a fraction
again, no greater one for outcomes that are no greater, and one for full
outcomes. A sum of fractions that is rounded at every step stays below the
number of its terms, and at most at `2 ^ 53`, where adding one more is lost;
so a mean is at most one for any number of outcomes.

Results:
* `magnitude_sum_le`: the sum of a list of fractions.
* `isFraction_reduce`, `reduce_mono`, `reduce_ones`: the three policies.
-/
namespace ContestGrading.Binary64

/-- A number between zero and one. -/
def IsFraction (x : Binary64) : Prop := zero ≤ x ∧ x ≤ one

instance (x : Binary64) : Decidable (IsFraction x) := inferInstanceAs (Decidable (_ ∧ _))

theorem isFraction_one : IsFraction one := ⟨zero_le_one, le_refl_of_not_nan (by simp [one])⟩

namespace IsFraction

variable {x y : Binary64}

theorem ne_nan (h : IsFraction x) : x ≠ .nan := (nonneg_iff.mp h.1).1

theorem isFinite (h : IsFraction x) : x.isFinite = true := isFinite_of_le h.1 h.2 rfl

theorem magnitude_le (h : IsFraction x) : x.magnitude ≤ unitsPerOne :=
  (le_iff_magnitude h.1 zero_le_one).mp h.2

end IsFraction

/-- Two numbers above zero are the same if they have the same magnitude. -/
theorem eq_of_magnitude {x y : Binary64} (hx : zero ≤ x) (hy : zero ≤ y)
    (h : x.magnitude = y.magnitude) (h0 : 0 < x.magnitude) : x = y := by
  have hsx := negative_eq_false hx h0
  have hsy := negative_eq_false hy (h ▸ h0)
  cases fx : x.isFinite with
  | false =>
    obtain rfl := eq_infinity hx fx
    cases fy : y.isFinite with
    | false => exact (eq_infinity hy fy).symm
    | true =>
      obtain ⟨t, v, hv, rfl⟩ := exists_of_isFinite fy
      exact absurd h.symm (Nat.ne_of_lt hv.1)
  | true =>
    obtain ⟨s, u, hu, rfl⟩ := exists_of_isFinite fx
    cases fy : y.isFinite with
    | false =>
      obtain rfl := eq_infinity hy fy
      exact absurd h (Nat.ne_of_lt hu.1)
    | true =>
      obtain ⟨t, v, hv, rfl⟩ := exists_of_isFinite fy
      simp only [negative] at hsx hsy
      simp only [magnitude_finite] at h
      subst hsx hsy h
      rfl

/-! ## Sums of fractions -/

/-- One more than `2 ^ 53` is a tie, and `2 ^ 53` the even of the two. -/
theorem rounded_tie : rounded ((2 ^ 53 + 1) * unitsPerOne) 1 = 2 ^ 53 * unitsPerOne := by
  decide +kernel

/-- A sum of at most `m` with one fraction more is at most `m + 1`, unless it
is stuck at `2 ^ 53`. -/
theorem magnitude_add_le {x y : Binary64} {m : Nat} (hx : zero ≤ x) (hy : IsFraction y)
    (hm : m ≤ 2 ^ 53) (h : x.magnitude ≤ m * unitsPerOne) :
    ∃ n, n ≤ 2 ^ 53 ∧ n ≤ m + 1 ∧ (x + y).magnitude ≤ n * unitsPerOne := by
  have hsum : x.magnitude + y.magnitude ≤ (m + 1) * unitsPerOne := by
    rw [Nat.add_mul, Nat.one_mul]
    exact Nat.add_le_add h hy.magnitude_le
  rw [(magnitude_add hx hy.1).2]
  rcases Nat.lt_or_eq_of_le hm with hlt | rfl
  · refine ⟨m + 1, hlt, Nat.le_refl _, ?_⟩
    exact rounded_le Nat.one_pos (.inl (representable_mul_unitsPerOne hlt))
      (by rwa [Nat.mul_one])
  · refine ⟨2 ^ 53, Nat.le_refl _, Nat.le_succ _, ?_⟩
    rw [← rounded_tie]
    exact rounded_mono Nat.one_pos Nat.one_pos (Nat.mul_le_mul_right _ hsum)

theorem magnitude_foldl_add_le {xs : List Binary64} (h : ∀ x ∈ xs, IsFraction x) {a : Binary64}
    {m : Nat} (ha : zero ≤ a) (hm : m ≤ 2 ^ 53) (hle : a.magnitude ≤ m * unitsPerOne) :
    zero ≤ xs.foldl (· + ·) a ∧ ∃ n, n ≤ 2 ^ 53 ∧ n ≤ m + xs.length ∧
      (xs.foldl (· + ·) a).magnitude ≤ n * unitsPerOne := by
  induction xs generalizing a m with
  | nil => exact ⟨ha, m, hm, Nat.le_refl _, hle⟩
  | cons x xs ih =>
    obtain ⟨hx, hxs⟩ := List.forall_mem_cons.mp h
    obtain ⟨n, hn, hnm, hadd⟩ := magnitude_add_le ha hx hm hle
    obtain ⟨h0, k, hk, hkn, hsum⟩ := ih hxs (add_nonneg ha hx.1) hn hadd
    refine ⟨h0, k, hk, ?_, hsum⟩
    rw [List.length_cons]
    omega

/-- A sum of fractions is at most their number, and at most `2 ^ 53`. -/
theorem magnitude_sum_le {xs : List Binary64} (h : ∀ x ∈ xs, IsFraction x) :
    zero ≤ sum xs ∧
      ∃ n, n ≤ 2 ^ 53 ∧ n ≤ xs.length ∧ (sum xs).magnitude ≤ n * unitsPerOne := by
  have := magnitude_foldl_add_le h zero_le_zero (Nat.zero_le _)
    (by rw [magnitude_zero]; exact Nat.zero_le _)
  rwa [Nat.zero_add] at this

theorem sum_le_ofNat {xs : List Binary64} (h : ∀ x ∈ xs, IsFraction x) :
    sum xs ≤ ofNat xs.length := by
  obtain ⟨h0, n, hn, hlen, hle⟩ := magnitude_sum_le h
  rw [le_iff_magnitude h0 (zero_le_ofNat _)]
  exact Nat.le_trans hle (le_magnitude_ofNat hn hlen)

theorem isFinite_sum {xs : List Binary64} (h : ∀ x ∈ xs, IsFraction x) :
    (sum xs).isFinite = true := by
  obtain ⟨h0, n, hn, -, hle⟩ := magnitude_sum_le h
  have hbound : sum xs ≤ ofNat n := by
    rwa [le_iff_magnitude h0 (zero_le_ofNat _), magnitude_ofNat_of_le hn]
  exact isFinite_of_le h0 hbound (isFinite_ofNat hn)

/-- The count of at least one thing is above zero. -/
theorem magnitude_ofNat_pos {n : Nat} (h : 0 < n) : 0 < (ofNat n).magnitude := by
  have := @le_magnitude_ofNat 1 n (by decide) h
  have := unitsPerOne_pos
  omega

theorem magnitude_foldl_ones {xs : List Binary64} (h : ∀ x ∈ xs, x = one) {a : Binary64} {m : Nat}
    (ha : zero ≤ a) (hm : a.magnitude = m * unitsPerOne) (hlen : m + xs.length ≤ 2 ^ 53) :
    zero ≤ xs.foldl (· + ·) a ∧
      (xs.foldl (· + ·) a).magnitude = (m + xs.length) * unitsPerOne := by
  induction xs generalizing a m with
  | nil => exact ⟨ha, hm⟩
  | cons x xs ih =>
    obtain ⟨rfl, hxs⟩ := List.forall_mem_cons.mp h
    rw [List.length_cons] at hlen
    obtain ⟨h0, hadd⟩ := magnitude_add ha zero_le_one
    have hrep : Representable ((m + 1) * unitsPerOne) :=
      representable_mul_unitsPerOne (by omega)
    rw [hm, magnitude_one, ← Nat.succ_mul, rounded_one (.inl hrep)] at hadd
    have := ih hxs h0 hadd (by omega)
    rwa [Nat.add_assoc, Nat.add_comm 1] at this

/-- The sum of up to `2 ^ 53` ones is their number. -/
theorem sum_ones {xs : List Binary64} (h : ∀ x ∈ xs, x = one) (hne : xs ≠ [])
    (hlen : xs.length ≤ 2 ^ 53) : sum xs = ofNat xs.length := by
  have hm : zero.magnitude = 0 * unitsPerOne := by simp
  obtain ⟨h0, hsum⟩ := magnitude_foldl_ones h zero_le_zero hm (by omega)
  rw [Nat.zero_add] at hsum
  have he : (sum xs).magnitude = (ofNat xs.length).magnitude := by
    rw [magnitude_ofNat_of_le hlen]; exact hsum
  exact eq_of_magnitude h0 (zero_le_ofNat _) he
    (he ▸ magnitude_ofNat_pos (List.length_pos_iff.mpr hne))

/-! ## Products of fractions -/

theorem isFraction_mul {x y : Binary64} (hx : IsFraction x) (hy : IsFraction y) :
    IsFraction (x * y) := by
  refine ⟨(magnitude_mul hx.1 hy.1 hx.isFinite hy.isFinite).1, ?_⟩
  have := mul_le_mul hx.1 hy.1 hx.2 rfl hy.isFinite
  rw [one_mul hy.isFinite] at this
  exact le_trans this hy.2

theorem mul_le_mul_both {x x' y y' : Binary64} (hx : IsFraction x) (hx' : IsFraction x')
    (hy : IsFraction y) (hy' : IsFraction y') (hxx : x ≤ x') (hyy : y ≤ y') :
    x * y ≤ x' * y' := by
  have h1 := mul_le_mul hx.1 hy.1 hxx hx'.isFinite hy.isFinite
  have h2 := mul_le_mul hy.1 hx'.1 hyy hy'.isFinite hx'.isFinite
  rw [mul_comm y, mul_comm y'] at h2
  exact le_trans h1 h2

theorem isFraction_foldl_mul {xs : List Binary64} (h : ∀ x ∈ xs, IsFraction x) {a : Binary64}
    (ha : IsFraction a) : IsFraction (xs.foldl (· * ·) a) := by
  induction xs generalizing a with
  | nil => exact ha
  | cons x xs ih =>
    obtain ⟨hx, hxs⟩ := List.forall_mem_cons.mp h
    exact ih hxs (isFraction_mul ha hx)

variable {α : Type}

theorem foldl_mul_le {f g : α → Binary64} {l : List α}
    (h : ∀ a ∈ l, IsFraction (f a) ∧ IsFraction (g a) ∧ f a ≤ g a) {x y : Binary64}
    (hx : IsFraction x) (hy : IsFraction y) (hxy : x ≤ y) :
    (l.map f).foldl (· * ·) x ≤ (l.map g).foldl (· * ·) y := by
  induction l generalizing x y with
  | nil => exact hxy
  | cons a l ih =>
    obtain ⟨⟨hf, hg, hle⟩, hrest⟩ := List.forall_mem_cons.mp h
    exact ih hrest (isFraction_mul hx hf) (isFraction_mul hy hg)
      (mul_le_mul_both hx hy hf hg hxy hle)

theorem product_ones {xs : List Binary64} (h : ∀ x ∈ xs, x = one) : product xs = one := by
  induction xs with
  | nil => rfl
  | cons x xs ih =>
    obtain ⟨rfl, hxs⟩ := List.forall_mem_cons.mp h
    have := ih hxs
    rw [product] at this ⊢
    rwa [List.foldl_cons, one_mul rfl]

end ContestGrading.Binary64

/-! ## The policies -/

namespace ContestGrading.Policy

open Binary64

theorem nan_not_mem {xs : List Binary64} (h : ∀ x ∈ xs, IsFraction x) : .nan ∉ xs :=
  fun hn => (h _ hn).ne_nan rfl

/-- What a policy makes of fractions is a fraction. -/
theorem isFraction_reduce (p : Policy) {xs : List Binary64} (hne : xs ≠ [])
    (h : ∀ x ∈ xs, IsFraction x) : IsFraction (p.reduce xs) := by
  cases p with
  | minimum => exact h _ (minimum_mem (nan_not_mem h) hne)
  | product => exact isFraction_foldl_mul h isFraction_one
  | mean =>
    have h0 := (magnitude_sum_le h).1
    have hpos := magnitude_ofNat_pos (List.length_pos_iff.mpr hne)
    have hself := le_refl_of_not_nan (nonneg_iff.mp h0).1
    exact ⟨(div_le_div h0 (zero_le_ofNat _) hpos hself (isFinite_sum h)).1,
      div_le_one h0 hpos (sum_le_ofNat h) (isFinite_sum h)⟩

/-- No outcome being greater, the fraction is no greater. -/
theorem reduce_mono (p : Policy) {α : Type} {f g : α → Binary64} {l : List α} (hne : l ≠ [])
    (h : ∀ a ∈ l, IsFraction (f a) ∧ IsFraction (g a) ∧ f a ≤ g a) :
    p.reduce (l.map f) ≤ p.reduce (l.map g) := by
  have hf : ∀ x ∈ l.map f, IsFraction x := by
    intro x hx
    obtain ⟨a, ha, rfl⟩ := List.mem_map.mp hx
    exact (h a ha).1
  have hg : ∀ x ∈ l.map g, IsFraction x := by
    intro x hx
    obtain ⟨a, ha, rfl⟩ := List.mem_map.mp hx
    exact (h a ha).2.1
  have hne' : l.map g ≠ [] := by simpa using hne
  cases p with
  | minimum =>
    apply le_minimum (nan_not_mem hg) hne'
    intro x hx
    obtain ⟨a, ha, rfl⟩ := List.mem_map.mp hx
    exact le_trans (minimum_le (nan_not_mem hf) (List.mem_map_of_mem ha)) (h a ha).2.2
  | product => exact foldl_mul_le h isFraction_one isFraction_one isFraction_one.2
  | mean =>
    obtain ⟨h0, hle⟩ := sum_map_le fun a ha => ⟨(h a ha).1.1, (h a ha).2.2⟩
    have hpos : 0 < (Binary64.ofNat (l.map f).length).magnitude :=
      magnitude_ofNat_pos (List.length_pos_iff.mpr (by simpa using hne))
    have hlen : (l.map g).length = (l.map f).length := by simp
    rw [reduce, reduce, hlen]
    exact (div_le_div h0 (zero_le_ofNat _) hpos hle (isFinite_sum hg)).2

/-- Full outcomes make the full fraction. -/
theorem reduce_ones (p : Policy) {xs : List Binary64} (hne : xs ≠ [])
    (hlen : p = .mean → xs.length ≤ 2 ^ 53) (h : ∀ x ∈ xs, x = one) : p.reduce xs = one := by
  have hfraction : ∀ x ∈ xs, IsFraction x := fun x hx => h x hx ▸ isFraction_one
  cases p with
  | minimum => exact h _ (minimum_mem (nan_not_mem hfraction) hne)
  | product => exact product_ones h
  | mean =>
    have hfinite := isFinite_sum hfraction
    have hsum := sum_ones h hne (hlen rfl)
    rw [hsum] at hfinite
    rw [reduce, hsum]
    exact div_self (zero_le_ofNat _) hfinite (magnitude_ofNat_pos (List.length_pos_iff.mpr hne))

end ContestGrading.Policy
