import ContestGrading.Pattern.Parser
import Mathlib.Data.List.TakeDrop
import Mathlib.Data.List.TakeWhile
/-!
# The groups a reader passes

The groups of a whole pattern are counted before it is read, unit by unit.
The reader passes the same groups: what it reads as one piece opens no group,
unless it opens one itself. `Passed` says so for a text alone and for the
text with a closing parenthesis behind it, for which the reading of both is
compared later.

Results:
* `scanGroups_congr`: the bound on the steps does not matter.
* `groupsFrom_plain` to `groupsFrom_named`: the groups from a place on, by
  what stands there.
* `Passed.trans`, `Passed.plains`, `Passed.named`: passing a part of a text.
-/
namespace ContestGrading.Pattern

/-! ## The groups from a place on -/

/-- Any number of steps above the length finds all groups. -/
theorem scanGroups_congr {f g : Nat} {inClass : Bool} {t : Text} (hf : t.length < f)
    (hg : t.length < g) : scanGroups f inClass t = scanGroups g inClass t := by
  induction f generalizing g inClass t with
  | zero => omega
  | succ f ih =>
    cases g with
    | zero => omega
    | succ g =>
      have ih {inClass : Bool} {t : Text} (hf : t.length < f) (hg : t.length < g) :
        scanGroups f inClass t = scanGroups g inClass t := ih hf hg
      unfold scanGroups
      split
      · rfl
      · simp only [List.length_cons] at hf hg
        exact ih (by omega) (by omega)
      · simp only [List.length_cons] at hf hg
        split
        · exact ih (by omega) (by omega)
        · split
          · exact ih (by omega) (by omega)
          · split
            · split
              · simp only [List.length_cons] at hf hg
                rw [ih (by simp only [List.length_cons]; omega) (by simp only [List.length_cons]; omega)]
              · simp only [List.length_cons] at hf hg
                exact ih (by omega) (by omega)
              · rw [ih (by omega) (by omega)]
            · exact ih (by omega) (by omega)

/-- The groups of a text whose front has been passed, inside a class or not. -/
def groupsFrom (inClass : Bool) (t : Text) : List (Option (List Nat)) :=
  scanGroups (t.length + 1) inClass t

@[simp] theorem groupsFrom_nil (inClass : Bool) : groupsFrom inClass [] = [] := rfl

theorem groupsFrom_escape (inClass : Bool) (u : UInt16) (rest : Text) :
    groupsFrom inClass (92 :: u :: rest) = groupsFrom inClass rest := by
  show scanGroups (rest.length + 2) inClass rest = _
  exact scanGroups_congr (by omega) (by omega)

theorem groupsFrom_class {u : UInt16} (hu : u ≠ 92) (rest : Text) :
    groupsFrom true (u :: rest) = groupsFrom (u != 93) rest := by
  show scanGroups (rest.length + 2) true (u :: rest) = _
  unfold scanGroups
  split
  next h => cases h
  next h => exact absurd (List.cons.inj h).1 hu
  next h =>
    obtain ⟨rfl, rfl⟩ := List.cons.inj h
    rfl

theorem groupsFrom_plain {u : UInt16} (hu : u ≠ 92 ∧ u ≠ 91 ∧ u ≠ 40) (rest : Text) :
    groupsFrom false (u :: rest) = groupsFrom false rest := by
  show scanGroups (rest.length + 2) false (u :: rest) = _
  unfold scanGroups
  split
  next h => cases h
  next h => exact absurd (List.cons.inj h).1 hu.1
  next h =>
    obtain ⟨rfl, rfl⟩ := List.cons.inj h
    simp only [hu.2, Bool.false_eq_true, if_false]
    rfl

theorem groupsFrom_bracket (rest : Text) :
    groupsFrom false (91 :: rest) = groupsFrom true rest := rfl

theorem groupsFrom_capture {rest : Text} (h : rest.head? ≠ some 63) :
    groupsFrom false (40 :: rest) = none :: groupsFrom false rest := by
  show scanGroups (rest.length + 2) false (40 :: rest) = _
  unfold scanGroups
  split
  next he => cases he
  next he => exact absurd (List.cons.inj he).1 (by decide)
  next he =>
    obtain ⟨rfl, rfl⟩ := List.cons.inj he
    rw [if_neg (by decide), if_neg (by decide), if_pos rfl]
    split
    next => exact absurd List.head?_cons h
    next => exact absurd List.head?_cons h
    next => rfl

theorem groupsFrom_special {rest : Text} (h : rest.head? ≠ some 60) :
    groupsFrom false (40 :: 63 :: rest) = groupsFrom false rest := by
  show scanGroups (rest.length + 3) false (40 :: 63 :: rest) = _
  unfold scanGroups
  split
  next he => cases he
  next he => exact absurd (List.cons.inj he).1 (by decide)
  next he =>
    obtain ⟨rfl, rfl⟩ := List.cons.inj he
    rw [if_neg (by decide), if_neg (by decide), if_pos rfl]
    split
    next he => cases he; exact absurd rfl h
    next he => cases he; exact scanGroups_congr (by simp) (by simp)
    next he => exact absurd rfl (he _)

theorem groupsFrom_behind {mark : UInt16} (hm : mark = 61 ∨ mark = 33) (rest : Text) :
    groupsFrom false (40 :: 63 :: 60 :: mark :: rest) = groupsFrom false (mark :: rest) := by
  show (if mark = 61 ∨ mark = 33 then scanGroups (rest.length + 4) false (mark :: rest) else _) = _
  rw [if_pos hm]
  exact scanGroups_congr (by simp) (by simp)

theorem groupsFrom_named {mark : UInt16} (hm : ¬ (mark = 61 ∨ mark = 33)) (rest : Text) :
    groupsFrom false (40 :: 63 :: 60 :: mark :: rest) =
      some ((readName? (mark :: rest)).elim [] (·.1)) :: groupsFrom false (mark :: rest) := by
  show (if mark = 61 ∨ mark = 33 then _ else
    some ((readName? (mark :: rest)).elim [] (·.1)) ::
      scanGroups (rest.length + 4) false (mark :: rest)) = _
  rw [if_neg hm]
  congr 1
  exact scanGroups_congr (by simp) (by simp)

/-- A unit that opens and closes nothing, in a class or not. -/
def IsPlain (u : UInt16) : Prop := u ≠ 92 ∧ u ≠ 91 ∧ u ≠ 40 ∧ u ≠ 93

instance (u : UInt16) : Decidable (IsPlain u) := inferInstanceAs (Decidable (_ ∧ _))

theorem groupsFrom_isPlain (c : Bool) {u : UInt16} (hu : IsPlain u) (rest : Text) :
    groupsFrom c (u :: rest) = groupsFrom c rest := by
  cases c with
  | false => exact groupsFrom_plain ⟨hu.1, hu.2.1, hu.2.2.1⟩ rest
  | true => rw [groupsFrom_class hu.1, bne_iff_ne.mpr hu.2.2.2]

/-! ## Passing a part of a text -/

/-- A closing parenthesis behind a text begins it only if nothing else does. -/
theorem head?_closing {u : UInt16} (hu : u ≠ 41) {t : Text} (h : t.head? ≠ some u) :
    (t ++ [41]).head? ≠ some u := by
  cases t with
  | nil => simpa using hu.symm
  | cons v t => exact h

/-- From `t` on to `rest` the same groups are met, whether or not the text
goes on with a closing parenthesis; `inClass` and `inClass'` tell whether the
two places are inside a class. -/
structure Passed (inClass : Bool) (t : Text) (inClass' : Bool) (rest : Text) : Prop where
  length_le : rest.length ≤ t.length
  groups : ∃ gs, groupsFrom inClass t = gs ++ groupsFrom inClass' rest ∧
    groupsFrom inClass (t ++ [41]) = gs ++ groupsFrom inClass' (rest ++ [41])

namespace Passed

variable {a b c : Bool} {t rest after : Text} {u : UInt16}

theorem refl (c : Bool) (t : Text) : Passed c t c t := ⟨Nat.le_refl _, [], rfl, rfl⟩

theorem trans (h : Passed a t b rest) (h' : Passed b rest c after) : Passed a t c after := by
  obtain ⟨hle, gs, hg, hg'⟩ := h
  obtain ⟨hle', gs', hs, hs'⟩ := h'
  exact ⟨Nat.le_trans hle' hle, gs ++ gs', by rw [hg, hs, List.append_assoc],
    by rw [hg', hs', List.append_assoc]⟩

/-- A step over one unit. -/
theorem step (h : ∀ rest, groupsFrom a (u :: rest) = groupsFrom b rest) (rest : Text) :
    Passed a (u :: rest) b rest := by
  refine ⟨Nat.le_succ _, [], h rest, ?_⟩
  rw [List.cons_append, h, List.nil_append]

theorem escape (c : Bool) (u : UInt16) (rest : Text) : Passed c (92 :: u :: rest) c rest :=
  ⟨by simp only [List.length_cons]; omega, [], groupsFrom_escape c u rest, by
    rw [List.cons_append, List.cons_append, groupsFrom_escape, List.nil_append]⟩

theorem unit (hu : u ≠ 92 ∧ u ≠ 91 ∧ u ≠ 40) (rest : Text) : Passed false (u :: rest) false rest :=
  step (groupsFrom_plain hu) rest

theorem classUnit (hu : u ≠ 92) (rest : Text) : Passed true (u :: rest) (u != 93) rest :=
  step (groupsFrom_class hu) rest

theorem plain (c : Bool) (hu : IsPlain u) (rest : Text) : Passed c (u :: rest) c rest :=
  step (groupsFrom_isPlain c hu) rest

/-- A backslash may be read alone where what it escapes is plain. -/
theorem backslash (c : Bool) (hu : IsPlain u) (rest : Text) :
    Passed c (92 :: u :: rest) c (u :: rest) := by
  refine ⟨Nat.le_succ _, [], ?_, ?_⟩
  · rw [groupsFrom_escape, groupsFrom_isPlain c hu, List.nil_append]
  · rw [List.cons_append, List.cons_append, groupsFrom_escape, groupsFrom_isPlain c hu,
      List.nil_append]

theorem bracket (rest : Text) : Passed false (91 :: rest) true rest :=
  step groupsFrom_bracket rest

theorem capture {rest : Text} (h : rest.head? ≠ some 63) :
    Passed false (40 :: rest) false rest := by
  refine ⟨Nat.le_succ _, [none], groupsFrom_capture h, ?_⟩
  rw [List.cons_append, groupsFrom_capture (head?_closing (by decide) h), List.singleton_append]

theorem special {mark : UInt16} (h : mark ≠ 60) (hm : IsPlain mark) (rest : Text) :
    Passed false (40 :: 63 :: mark :: rest) false rest := by
  have hskip (rest : Text) : groupsFrom false (40 :: 63 :: mark :: rest) =
      groupsFrom false rest := by
    rw [groupsFrom_special (by simpa using h), groupsFrom_isPlain false hm]
  refine ⟨by simp only [List.length_cons]; omega, [], hskip rest, ?_⟩
  rw [List.cons_append, List.cons_append, List.cons_append, hskip, List.nil_append]

theorem behind {mark : UInt16} (hm : mark = 61 ∨ mark = 33) (rest : Text) :
    Passed false (40 :: 63 :: 60 :: mark :: rest) false rest := by
  have hplain : IsPlain mark := by rcases hm with rfl | rfl <;> decide
  have hskip (rest : Text) : groupsFrom false (40 :: 63 :: 60 :: mark :: rest) =
      groupsFrom false rest := by
    rw [groupsFrom_behind hm, groupsFrom_isPlain false hplain]
  refine ⟨by simp only [List.length_cons]; omega, [], hskip rest, ?_⟩
  rw [List.cons_append, List.cons_append, List.cons_append, List.cons_append, hskip,
    List.nil_append]

/-- A named group counts under the name that is read, the same both times. -/
theorem named {rest after : Text} {name : List Nat} (h61 : rest.head? ≠ some 61)
    (h33 : rest.head? ≠ some 33) (hn : readName? rest = some (name, after))
    (hn' : readName? (rest ++ [41]) = some (name, after ++ [41]))
    (h : Passed false rest false after) : Passed false (40 :: 63 :: 60 :: rest) false after := by
  cases rest with
  | nil => cases hn
  | cons mark rest =>
    have hmark : ¬ (mark = 61 ∨ mark = 33) := by
      rintro (rfl | rfl)
      · exact h61 rfl
      · exact h33 rfl
    obtain ⟨hle, gs, hg, hg'⟩ := h
    refine ⟨by simp only [List.length_cons] at hle ⊢; omega, some name :: gs, ?_, ?_⟩
    · rw [groupsFrom_named hmark, hn, hg]
      rfl
    · rw [List.cons_append, List.cons_append, List.cons_append, List.cons_append,
        groupsFrom_named hmark, ← List.cons_append, hn', hg']
      rfl

theorem plains (c : Bool) {w : Text} (hw : ∀ u ∈ w, IsPlain u) (rest : Text) :
    Passed c (w ++ rest) c rest := by
  induction w with
  | nil => exact refl c _
  | cons u w ih =>
    obtain ⟨hu, hw⟩ := List.forall_mem_cons.mp hw
    exact (plain c hu _).trans (ih hw)

theorem dropWhile {p : UInt16 → Bool} (hp : ∀ u, p u = true → IsPlain u) (c : Bool) (t : Text) :
    Passed c t c (t.dropWhile p) := by
  have hplain : ∀ u ∈ t.takeWhile p, IsPlain u := fun u hu => hp u (List.mem_takeWhile_imp hu)
  have h := plains c hplain (t.dropWhile p)
  rwa [List.takeWhile_append_dropWhile] at h

end Passed

end ContestGrading.Pattern
