import ContestGrading.Proofs.Grading.Construction
import ContestGrading.Proofs.Grading.Fractions
import Mathlib.Algebra.GroupWithZero.Nat
/-!
# Subtasks that count their testcases

Counts are added up as doubles, but below `2 ^ 53` no rounding takes place,
and a sum that was rounded stays at `2 ^ 53` or above. So a total of less is
the exact one, and counts that are accepted cut the sorted codenames into
parts without a rest.

Results:
* `sameValue_sum_iff`: a total below `2 ^ 53` is the exact one.
* `map_length_split`: the parts have the lengths asked for.
* `resolve_counts_eq_ok_iff`: which counts are accepted.
* `resolve_counts_partition`: every testcase is in exactly one subtask.
-/
namespace ContestGrading

namespace Binary64

/-! ## Natural numbers as doubles -/

/-- The double is the natural number `n`. -/
def IsNatural (x : Binary64) (n : Nat) : Prop :=
  x.isFinite = true ∧ x.scaled = (n * unitsPerOne : Nat)

/-- From here on doubles do not tell natural numbers apart. -/
def naturalLimit : Nat := 2 ^ 53 * unitsPerOne

variable {x y : Binary64} {m n : Nat}

theorem IsNatural.nonneg (h : IsNatural x n) : zero ≤ x ∧ x.magnitude = n * unitsPerOne := by
  obtain ⟨hfinite, hscaled⟩ := h
  obtain ⟨s, u, hu, rfl⟩ := exists_of_isFinite hfinite
  cases s with
  | false => exact ⟨decide_eq_true (Int.natCast_nonneg u), Int.ofNat_inj.mp hscaled⟩
  | true =>
    have hscaled : -(u : Int) = (n * unitsPerOne : Nat) := hscaled
    obtain rfl : u = 0 := by omega
    exact ⟨nonneg_iff.mpr ⟨nofun, fun _ => rfl⟩, by rw [magnitude_finite]; omega⟩

/-- A double counts testcases exactly when it is a natural number. -/
theorem isNatural_iff :
    IsNatural x n ↔ Targets.isCount x = true ∧ x.truncate.toNat = n := by
  have hpos := unitsPerOne_pos
  constructor
  · intro h
    obtain ⟨h0, hm⟩ := h.nonneg
    obtain ⟨s, u, hu, rfl⟩ := exists_of_isFinite h.1
    rw [magnitude_finite] at hm
    subst hm
    refine ⟨by simp [Targets.isCount, isInteger, h0], ?_⟩
    simp only [truncate, units, Nat.mul_div_cancel _ hpos, negative]
    split
    next hs =>
      have hz : n * unitsPerOne = 0 := (nonneg_iff.mp h0).2 hs
      have : n = 0 := (Nat.mul_eq_zero.mp hz).resolve_right (Nat.ne_of_gt hpos)
      omega
    next => exact Int.toNat_natCast n
  · rintro ⟨hc, rfl⟩
    obtain ⟨hint, h0⟩ := Bool.and_eq_true_iff.mp hc
    have h0 : zero ≤ x := of_decide_eq_true h0
    cases x with
    | nan => cases hint
    | infinite s => cases hint
    | finite s u hu =>
      have hdvd : unitsPerOne ∣ u := Nat.dvd_of_mod_eq_zero (beq_iff_eq.mp hint)
      refine ⟨rfl, ?_⟩
      rw [scaled_of_nonneg h0]
      congr 1
      cases s with
      | true =>
        obtain rfl : u = 0 := (nonneg_iff.mp h0).2 rfl
        simp [truncate, units, negative]
      | false =>
        show u = ((u / unitsPerOne : Nat) : Int).toNat * unitsPerOne
        rw [Int.toNat_natCast, Nat.div_mul_cancel hdvd]

/-- The natural numbers of a list of counts are read off it. -/
theorem forall₂_isNatural_iff {xs : List Binary64} {ns : List Nat} :
    List.Forall₂ IsNatural xs ns ↔
      xs.all Targets.isCount = true ∧ xs.map (fun x => x.truncate.toNat) = ns := by
  induction xs generalizing ns with
  | nil => cases ns <;> simp
  | cons x xs ih =>
    cases ns with
    | nil => simp
    | cons n ns =>
      rw [List.forall₂_cons, isNatural_iff, ih, List.all_cons, Bool.and_eq_true, List.map_cons,
        List.cons.injEq]
      exact and_and_and_comm

/-- Below the limit a sum with a natural number is exact, and from it on it stays there. -/
theorem min_magnitude_add (hx : zero ≤ x)
    (hm : Min.min x.magnitude naturalLimit = Min.min (m * unitsPerOne) naturalLimit)
    (hy : IsNatural y n) :
    Min.min (x + y).magnitude naturalLimit =
      Min.min ((m + n) * unitsPerOne) naturalLimit := by
  obtain ⟨hy0, hyn⟩ := hy.nonneg
  exact min_magnitude_add_multiple unitsPerOne_pos (fun _ hk => representable_mul_unitsPerOne hk)
    hx hm hy0 hyn

theorem min_magnitude_foldl_add {xs : List Binary64} {ns : List Nat}
    (h : List.Forall₂ IsNatural xs ns) (hx : zero ≤ x)
    (hm : Min.min x.magnitude naturalLimit = Min.min (m * unitsPerOne) naturalLimit) :
    zero ≤ xs.foldl (· + ·) x ∧ Min.min (xs.foldl (· + ·) x).magnitude naturalLimit =
      Min.min ((m + ns.sum) * unitsPerOne) naturalLimit := by
  induction h generalizing x m with
  | nil => exact ⟨hx, hm⟩
  | cons hy _ ih =>
    have := ih (add_nonneg hx hy.nonneg.1) (min_magnitude_add hx hm hy)
    rwa [Nat.add_assoc, ← List.sum_cons] at this

/-- A total below `2 ^ 53` is the exact one. -/
theorem sameValue_sum_iff {xs : List Binary64} {ns : List Nat}
    (h : List.Forall₂ IsNatural xs ns) (hn : n < 2 ^ 53) :
    (sum xs).sameValue (ofNat n) = true ↔ ns.sum = n := by
  obtain ⟨h0, hsum⟩ := min_magnitude_foldl_add h zero_le_zero (m := 0) (by rw [Nat.zero_mul]; rfl)
  have hpos := unitsPerOne_pos
  have hlimit : n * unitsPerOne < naturalLimit := Nat.mul_lt_mul_of_pos_right hn hpos
  have hof := magnitude_ofNat_of_le (Nat.le_of_lt hn)
  rw [Nat.zero_add] at hsum
  rw [sameValue, Bool.and_eq_true, decide_eq_true_iff, decide_eq_true_iff, sum,
    le_iff_magnitude h0 (zero_le_ofNat n), le_iff_magnitude (zero_le_ofNat n) h0, hof]
  constructor
  · rintro ⟨hle, hge⟩
    have : ns.sum * unitsPerOne = n * unitsPerOne := by omega
    exact Nat.eq_of_mul_eq_mul_right hpos this
  · rintro rfl
    omega

end Binary64

namespace Targets

open Binary64 (IsNatural)

/-! ## Cutting a list -/

/-- The parts have the lengths asked for, if there is enough to cut. -/
theorem map_length_split {α : Type} {ns : List Nat} {xs : List α} (h : ns.sum ≤ xs.length) :
    (split ns xs).map List.length = ns := by
  induction ns generalizing xs with
  | nil => rfl
  | cons n ns ih =>
    rw [List.sum_cons] at h
    rw [split, List.map_cons, List.length_take, Nat.min_eq_left (by omega),
      ih (by rw [List.length_drop]; omega)]

/-- Parts as long as the list together leave nothing out. -/
theorem flatten_split_eq_self {α : Type} {ns : List Nat} {xs : List α} (h : ns.sum = xs.length) :
    (split ns xs).flatten = xs := by
  rw [flatten_split, ← List.sum_eq_foldr, h, List.take_length]

/-- An element of lists without repetition is in one of them only. -/
theorem existsUnique_of_mem_flatten {α : Type} {lists : List (List α)} {a : α}
    (hn : lists.flatten.Nodup) (ha : a ∈ lists.flatten) :
    ∃! i : Nat, ∃ l : List α, lists[i]? = some l ∧ a ∈ l := by
  obtain ⟨l, hl, hal⟩ := List.mem_flatten.mp ha
  obtain ⟨i, hi⟩ := List.mem_iff_getElem?.mp hl
  refine ⟨i, ⟨l, hi, hal⟩, ?_⟩
  rintro j ⟨l', hj, hal'⟩
  have hdisjoint := (List.nodup_flatten.mp hn).2
  obtain ⟨hi', rfl⟩ := List.getElem?_eq_some_iff.mp hi
  obtain ⟨hj', rfl⟩ := List.getElem?_eq_some_iff.mp hj
  rcases Nat.lt_trichotomy i j with hlt | heq | hlt
  · exact absurd hal' (List.pairwise_iff_getElem.mp hdisjoint i j hi' hj' hlt hal)
  · exact heq.symm
  · exact absurd hal (List.pairwise_iff_getElem.mp hdisjoint j i hj' hi' hlt hal')

/-! ## Subtasks by counts -/

variable {counts : List Binary64} {codenames : List Text} {lists : List (List Text)}

theorem counts?_map_count (counts : List Binary64) :
    counts? (counts.map .count) = some counts := by
  induction counts with
  | nil => rfl
  | cons x counts ih =>
    rw [counts?] at ih
    rw [List.map_cons, counts?, List.mapM_cons, ih]
    rfl

theorem byCounts_eq_ok_iff {sorted : List Text} (hlen : sorted.length < 2 ^ 53) :
    byCounts counts sorted = .ok lists ↔
      ∃ ns, List.Forall₂ IsNatural counts ns ∧ ns.sum = sorted.length ∧
        split ns sorted = lists := by
  unfold byCounts
  constructor
  · intro h
    split at h
    next => cases h
    next hall =>
      dsimp only at h
      split at h
      next htotal =>
        cases h
        have hns := Binary64.forall₂_isNatural_iff.mpr ⟨by simpa using hall, rfl⟩
        exact ⟨_, hns, (Binary64.sameValue_sum_iff hns hlen).mp htotal, rfl⟩
      next => cases h
  · rintro ⟨ns, hns, hsum, rfl⟩
    obtain ⟨hall, rfl⟩ := Binary64.forall₂_isNatural_iff.mp hns
    dsimp only
    rw [hall, if_neg (by decide), if_pos ((Binary64.sameValue_sum_iff hns hlen).mpr hsum)]

theorem requireTestcases_eq_ok_iff {found : List (List Text)} :
    requireTestcases lists = .ok found ↔ lists = found ∧ ∀ l ∈ lists, l ≠ [] := by
  constructor
  · intro h
    obtain ⟨rfl, hne⟩ := requireTestcases_ok h
    exact ⟨rfl, hne⟩
  · rintro ⟨rfl, hne⟩
    have hnone : lists.findIdx? (·.isEmpty) = none :=
      List.findIdx?_eq_none_iff.mpr fun l hl => by simpa using hne l hl
    rw [requireTestcases, hnone]

/-- Counts are accepted if they are positive natural numbers that add up to
the number of codenames, and then cut the sorted codenames into parts. -/
theorem resolve_counts_eq_ok_iff (hlen : codenames.length < 2 ^ 53) :
    resolve (counts.map .count) codenames = .ok lists ↔
      ∃ ns, List.Forall₂ IsNatural counts ns ∧ (∀ n ∈ ns, 0 < n) ∧
        ns.sum = codenames.length ∧ split ns (sort codenames) = lists := by
  have hpositive {ns : List Nat} (hsum : ns.sum = codenames.length) :
      (∀ l ∈ split ns (sort codenames), l ≠ []) ↔ ∀ n ∈ ns, 0 < n := by
    have hcut : (split ns (sort codenames)).map List.length = ns :=
      map_length_split (Nat.le_of_eq (by rw [length_sort, hsum]))
    conv_rhs => rw [← hcut]
    simp [List.length_pos_iff]
  simp only [resolve, counts?_map_count]
  rw [bind_eq_ok_iff]
  simp only [byCounts_eq_ok_iff (length_sort codenames ▸ hlen), requireTestcases_eq_ok_iff,
    length_sort]
  constructor
  · rintro ⟨found, ⟨ns, hns, hsum, rfl⟩, rfl, hne⟩
    exact ⟨ns, hns, (hpositive hsum).mp hne, hsum, rfl⟩
  · rintro ⟨ns, hns, hpos, hsum, rfl⟩
    exact ⟨_, ⟨ns, hns, hsum, rfl⟩, rfl, (hpositive hsum).mpr hpos⟩

/-- **Subtasks by counts.** If the targets are accepted, then the subtasks
one after the other are the codenames in ascending order, each subtask has
as many as its count says, and every codename is in exactly one. They are
accepted exactly when the counts are positive natural numbers that add up
to the number of codenames.

The total is compared with the number of codenames as a double, which is
that number below `2 ^ 53`: far more than a list in memory can have. -/
theorem resolve_counts_partition {parameters : List Parameter} {counts : List Binary64}
    {codenames : List Text} (hcounts : parameters.map (·.target) = counts.map .count)
    (hdistinct : codenames.Nodup) (hlen : codenames.length < 2 ^ 53) :
    (∀ lists, resolve (parameters.map (·.target)) codenames = .ok lists →
        lists.flatten.Perm codenames ∧
        lists.flatten.Pairwise (fun s t => Text.ble s t = true ∧ s ≠ t) ∧
        List.Forall₂ (fun x l => 0 < l.length ∧ IsNatural x l.length) counts lists ∧
        ∀ codename ∈ codenames, ∃! i : Nat, ∃ l : List Text, lists[i]? = some l ∧ codename ∈ l) ∧
      ((∃ lists, resolve (parameters.map (·.target)) codenames = .ok lists) ↔
        ∃ ns, List.Forall₂ IsNatural counts ns ∧ (∀ n ∈ ns, 0 < n) ∧
          ns.sum = codenames.length) := by
  rw [hcounts]
  simp only [resolve_counts_eq_ok_iff hlen]
  refine ⟨?_, ⟨?_, ?_⟩⟩
  · rintro lists ⟨ns, hns, hpos, hsum, rfl⟩
    have hsum : ns.sum = (sort codenames).length := by rw [length_sort, hsum]
    have hperm := perm_sort codenames
    have hnodup : (sort codenames).Nodup := hperm.nodup_iff.mpr hdistinct
    have hlengths := map_length_split (Nat.le_of_eq hsum)
    have hflat := flatten_split_eq_self hsum
    rw [hflat]
    refine ⟨hperm, (pairwise_sort codenames).and hnodup, ?_, fun codename hc => ?_⟩
    · have hboth := ((List.forall₂_and_left ns counts).mpr ⟨hpos, hns.flip⟩).flip
      rw [← hlengths, List.forall₂_map_right_iff] at hboth
      exact hboth
    · exact existsUnique_of_mem_flatten (hflat.symm ▸ hnodup)
        (hflat.symm ▸ hperm.mem_iff.mpr hc)
  · rintro ⟨lists, ns, hns, hpos, hsum, rfl⟩
    exact ⟨ns, hns, hpos, hsum⟩
  · rintro ⟨ns, hns, hpos, hsum⟩
    exact ⟨_, ns, hns, hpos, hsum, rfl⟩

/-- Three testcases and one, of four that are not in order. -/
theorem resolve_counts_partition_threeAndOne :
    ∃ lists, resolve ((ScoreType.twoSubtasks .minimum).parameters.map (·.target))
        [[98], [97], [100], [99]] = .ok lists ∧
      lists.flatten.Perm [[98], [97], [100], [99]] ∧
      List.Forall₂ (fun x l => 0 < l.length ∧ IsNatural x l.length) [.ofNat 3, .ofNat 1] lists := by
  have htargets : (ScoreType.twoSubtasks .minimum).parameters.map (·.target) =
      [Binary64.ofNat 3, .ofNat 1].map .count := rfl
  have hdistinct : ([[98], [97], [100], [99]] : List Text).Nodup := by decide
  have hpartition := resolve_counts_partition htargets hdistinct (by decide)
  have hthree : IsNatural (.ofNat 3) 3 := ⟨by decide +kernel, by decide +kernel⟩
  have hone : IsNatural (.ofNat 1) 1 := ⟨by decide +kernel, by decide +kernel⟩
  obtain ⟨lists, hlists⟩ := hpartition.2.mpr
    ⟨[3, 1], .cons hthree (.cons hone .nil), by decide, rfl⟩
  obtain ⟨hperm, -, hlengths, -⟩ := hpartition.1 lists hlists
  exact ⟨lists, hlists, hperm, hlengths⟩

end Targets

end ContestGrading
