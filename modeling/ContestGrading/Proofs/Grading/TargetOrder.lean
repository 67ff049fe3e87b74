import ContestGrading.Proofs.Grading.Anchoring
import ContestGrading.Proofs.Grading.Counts
import ContestGrading.Proofs.Text.CodePoints
import Mathlib.Data.List.Pairwise
/-!
# The order of the testcases

Codenames are sorted by their code units and then given out, so that is the
order in every subtask and, where testcases are counted, from one subtask to
the next. It is the order by code points as well unless two of the codenames
that are so compared clash: they first differ in a character of two units
and one from U+E000 on that has only one.

Results:
* `resolve_inOrder_iff`: the order by units, and when it is by code points.
* `pair_before_fullwidth`: two testcases that are not in order.
-/
namespace ContestGrading

namespace Targets

open Text (PointsBefore clash ble)

variable {targets : List Target} {codenames : List Text} {lists : List (List Text)}

/-- The subtasks count their testcases. -/
def CountsOnly (targets : List Target) : Prop := ∀ target ∈ targets, ∃ x, target = .count x

/-- The testcases of each subtask are in order and, where they are counted,
so are those of different subtasks. -/
def InOrder (before : Text → Text → Prop) (targets : List Target) (lists : List (List Text)) :
    Prop :=
  (∀ l ∈ lists, l.Pairwise before) ∧
    (CountsOnly targets →
      lists.Pairwise fun earlier later => ∀ s ∈ earlier, ∀ t ∈ later, before s t)

/-- Of a part of the sorted codenames. -/
theorem inOrder_of_sublist {before : Text → Text → Prop}
    (hsort : (sort codenames).Pairwise before) (hlists : ∀ l ∈ lists, l.Sublist (sort codenames))
    (hcounts : CountsOnly targets → lists.flatten.Sublist (sort codenames)) :
    InOrder before targets lists :=
  ⟨fun l hl => hsort.sublist (hlists l hl),
    fun h => (List.pairwise_flatten.mp (hsort.sublist (hcounts h))).2⟩

/-! ## What the subtasks take of the sorted codenames -/

theorem counts?_of_countsOnly (h : CountsOnly targets) :
    ∃ counts, counts? targets = some counts := by
  have hmap : ∃ counts : List Binary64, counts.map .count = targets := by
    induction targets with
    | nil => exact ⟨[], rfl⟩
    | cons target rest ih =>
      obtain ⟨x, rfl⟩ := h target (List.mem_cons_self ..)
      obtain ⟨counts, rfl⟩ := ih fun t ht => h t (List.mem_cons_of_mem _ ht)
      exact ⟨x :: counts, rfl⟩
  obtain ⟨counts, rfl⟩ := hmap
  exact ⟨counts, counts?_map_count counts⟩

theorem sublist_byCounts {counts : List Binary64} {sorted : List Text}
    (h : byCounts counts sorted = .ok lists) : lists.flatten.Sublist sorted := by
  unfold byCounts at h
  split at h
  · cases h
  · dsimp only at h
    split at h
    · cases h
      rw [flatten_split]
      exact List.take_sublist _ _
    · cases h

theorem sublist_byPatterns {patterns sorted : List Text}
    (h : byPatterns sorted patterns = .ok lists) : ∀ l ∈ lists, l.Sublist sorted := by
  induction patterns generalizing lists with
  | nil =>
    cases h
    exact fun _ hl => absurd hl List.not_mem_nil
  | cons target rest ih =>
    unfold byPatterns at h
    split at h
    · cases h
    · obtain ⟨found, hfound, rfl⟩ := map_eq_ok_iff.mp h
      intro l hl
      rcases List.mem_cons.mp hl with rfl | hl
      · exact List.filter_sublist
      · exact ih hfound l hl

/-- Each subtask takes some of the sorted codenames, and counted testcases
are some of them even one subtask after the other. -/
theorem sublist_of_resolve (h : resolve targets codenames = .ok lists) :
    (∀ l ∈ lists, l.Sublist (sort codenames)) ∧
      (CountsOnly targets → lists.flatten.Sublist (sort codenames)) := by
  unfold resolve at h
  dsimp only at h
  split at h
  next counts hc =>
    obtain ⟨found, hfound, hr⟩ := bind_eq_ok_iff.mp h
    obtain ⟨rfl, -⟩ := requireTestcases_ok hr
    have hflat := sublist_byCounts hfound
    exact ⟨fun l hl => (List.sublist_flatten_of_mem hl).trans hflat, fun _ => hflat⟩
  next hnone =>
    split at h
    next patterns hp =>
      obtain ⟨found, hfound, hr⟩ := bind_eq_ok_iff.mp h
      obtain ⟨rfl, -⟩ := requireTestcases_ok hr
      refine ⟨sublist_byPatterns hfound, fun hcounts => ?_⟩
      obtain ⟨counts, hsome⟩ := counts?_of_countsOnly hcounts
      rw [hnone] at hsome
      cases hsome
    next => cases h

/-! ## Units and points -/

theorem pairwise_sort_distinct (hdistinct : codenames.Nodup) :
    (sort codenames).Pairwise fun s t => ble s t = true ∧ s ≠ t :=
  (pairwise_sort codenames).and ((perm_sort codenames).nodup_iff.mpr hdistinct)

/-- A part of the sorted codenames is in the order of code points unless
two of it clash. -/
theorem pairwise_pointsBefore_iff (hdistinct : codenames.Nodup)
    (hwhole : ∀ c ∈ codenames, c.IsWhole) {l : List Text} (hl : l.Sublist (sort codenames)) :
    l.Pairwise PointsBefore ↔ ∀ s ∈ l, ∀ t ∈ l, clash s.toChars t.toChars = false := by
  have hsorted := (pairwise_sort_distinct hdistinct).sublist hl
  have hmem : ∀ {s}, s ∈ l → s.IsWhole := fun hs =>
    hwhole _ ((perm_sort codenames).mem_iff.mp (hl.subset hs))
  have hpoints : ∀ {s t}, s ∈ l → t ∈ l → ble s t = true ∧ s ≠ t →
      (PointsBefore s t ↔ clash s.toChars t.toChars = false) := fun hs ht h =>
    Text.pointsBefore_iff (hmem hs) (hmem ht) h.2 h.1
  constructor
  · intro hordered
    have hnone : l.Pairwise fun s t => clash s.toChars t.toChars = false :=
      (hsorted.and hordered).imp_of_mem fun hs ht h => (hpoints hs ht h.1).mp h.2
    have hsymm : Std.Symm fun s t : Text => clash s.toChars t.toChars = false :=
      ⟨fun s t h => by rwa [Text.clash_comm]⟩
    exact fun s hs t ht => hnone.forall_of_forall (fun _ _ => Text.clash_self _) hs ht
  · intro hnone
    exact hsorted.imp_of_mem fun hs ht h => (hpoints hs ht h).mpr (hnone _ hs _ ht)

/-! ## Two testcases -/

/-- U+1F600, a character of two units. -/
def pairName : Text := [0xD83D, 0xDE00]

/-- U+FF5E, a character of one unit that is above the surrogates. -/
def fullwidthName : Text := [0xFF5E]

/-- One subtask that takes both of two testcases. -/
theorem resolve_two {s t : Text} (h : ble s t = true) :
    resolve [.count (.ofNat 2)] [s, t] = .ok [[s, t]] := by
  have hsort : sort [s, t] = [s, t] := List.mergeSort_of_pairwise (List.pairwise_pair.mpr h)
  obtain ⟨hcount, htotal, hcut⟩ : [Binary64.ofNat 2].all isCount = true ∧
      (Binary64.sum [.ofNat 2]).sameValue (.ofNat 2) = true ∧
      [Binary64.ofNat 2].map (fun x => x.truncate.toNat) = [2] := by
    decide +kernel
  have hcounts : byCounts [.ofNat 2] [s, t] = .ok [[s, t]] := by
    have hlen : [s, t].length = 2 := rfl
    simp only [byCounts, hcount, Bool.not_true, Bool.false_eq_true, if_false, hcut, hlen]
    rw [if_pos htotal]
    rfl
  have htargets : counts? [.count (.ofNat 2)] = some [.ofNat 2] := counts?_map_count [.ofNat 2]
  rw [resolve, hsort, htargets]
  dsimp only
  rw [hcounts]
  rfl

/-! ## In which order they are -/

/-- **The order of the testcases.** The testcases of accepted subtasks are
in the order of their units. They are in the order of code points iff no two
clash that are in one subtask or, where they are counted, in any. -/
theorem resolve_inOrder_iff (hdistinct : codenames.Nodup) (hwhole : ∀ c ∈ codenames, c.IsWhole)
    (h : resolve targets codenames = .ok lists) :
    InOrder (fun s t => ble s t = true ∧ s ≠ t) targets lists ∧
      (InOrder PointsBefore targets lists ↔
        ∀ l ∈ lists, ∀ l' ∈ lists, (l = l' ∨ CountsOnly targets) →
          ∀ s ∈ l, ∀ t ∈ l', clash s.toChars t.toChars = false) := by
  obtain ⟨hlists, hcounts⟩ := sublist_of_resolve h
  refine ⟨inOrder_of_sublist (pairwise_sort_distinct hdistinct) hlists hcounts, ?_⟩
  constructor
  · rintro ⟨heach, hacross⟩ l hl l' hl' (rfl | hcount) s hs t ht
    · exact (pairwise_pointsBefore_iff hdistinct hwhole (hlists l hl)).mp (heach l hl) s hs t ht
    · have hflat := List.pairwise_flatten.mpr ⟨heach, hacross hcount⟩
      exact (pairwise_pointsBefore_iff hdistinct hwhole (hcounts hcount)).mp hflat s
        (List.mem_flatten.mpr ⟨l, hl, hs⟩) t (List.mem_flatten.mpr ⟨l', hl', ht⟩)
  · intro hnone
    refine ⟨fun l hl => ?_, fun hcount => ?_⟩
    · exact (pairwise_pointsBefore_iff hdistinct hwhole (hlists l hl)).mpr
        (hnone l hl l hl (.inl rfl))
    · refine (List.pairwise_flatten.mp
        ((pairwise_pointsBefore_iff hdistinct hwhole (hcounts hcount)).mpr ?_)).2
      intro s hs t ht
      obtain ⟨l, hl, hs⟩ := List.mem_flatten.mp hs
      obtain ⟨l', hl', ht⟩ := List.mem_flatten.mp ht
      exact hnone l hl l' hl' (.inr hcount) s hs t ht

/-- The law for two testcases that do not clash. -/
theorem resolve_inOrder_iff_pairName :
    ([[97], pairName] : List Text).Nodup ∧ (∀ c ∈ ([[97], pairName] : List Text), c.IsWhole) ∧
      resolve [.count (.ofNat 2)] [[97], pairName] = .ok [[[97], pairName]] ∧
      InOrder PointsBefore [.count (.ofNat 2)] [[[97], pairName]] := by
  have hdistinct : ([[97], pairName] : List Text).Nodup := by decide
  have hwhole : ∀ c ∈ ([[97], pairName] : List Text), c.IsWhole := by decide
  have hresolve : resolve [.count (.ofNat 2)] [[97], pairName] = .ok [[[97], pairName]] :=
    resolve_two (by decide)
  refine ⟨hdistinct, hwhole, hresolve,
    (resolve_inOrder_iff hdistinct hwhole hresolve).2.mpr fun l hl l' hl' _ => ?_⟩
  rw [List.mem_singleton.mp hl, List.mem_singleton.mp hl']
  decide

/-- A surrogate is less than the unit of the other character, which has the
lower code point. -/
theorem pair_before_fullwidth :
    ([pairName, fullwidthName] : List Text).Nodup ∧
      (∀ c ∈ [pairName, fullwidthName], c.IsWhole) ∧
      resolve [.count (.ofNat 2)] [pairName, fullwidthName] =
        .ok [[pairName, fullwidthName]] ∧
      ¬InOrder PointsBefore [.count (.ofNat 2)] [[pairName, fullwidthName]] := by
  refine ⟨by decide, by decide, resolve_two (by decide), fun h => ?_⟩
  have hpair := h.1 _ (List.mem_singleton_self _)
  exact absurd (List.pairwise_pair.mp hpair) (by decide)

end Targets

end ContestGrading
