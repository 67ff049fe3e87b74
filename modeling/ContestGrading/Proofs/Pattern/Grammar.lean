import ContestGrading.Proofs.Pattern.Pieces
/-!
# The grammar before a closing parenthesis

Alternatives, terms and groups read the same before a closing parenthesis, by
induction on the number of steps: one lemma for each of the four readers says
what one step more preserves. The bounds on the steps are those of the
length, so that the two readings may have different numbers of them.

Results:
* `FramedBy.alternatives_succ`, `FramedBy.terms_succ`, `FramedBy.term_succ`,
  `FramedBy.group_succ`: one step.
* `framedBy`: any number of steps.
-/
namespace ContestGrading.Pattern

/-! ## Terms by what they begin with -/

/-- A unit that begins no other term than itself. -/
def StandsAlone (u : UInt16) : Prop :=
  u ≠ 94 ∧ u ≠ 36 ∧ u ≠ 46 ∧ u ≠ 92 ∧ u ≠ 91 ∧ u ≠ 40

section Equations

variable (outline : Outline) (fuel : Nat) (progress : Progress)

theorem readTerm_unit {u : UInt16} (hu : StandsAlone u) (rest : Text) :
    readTerm outline (fuel + 1) progress (u :: rest) =
      if u = 42 ∨ u = 43 ∨ u = 63 ∨ (readBraces? (u :: rest)).isSome then none
      else some ((.unit u, true), progress, rest) := by
  obtain ⟨h94, h36, h46, h92, h91, h40⟩ := hu
  rw [readTerm]
  all_goals simp [h94, h36, h46, h92, h91, h40]

theorem readTerm_class {rest : Text} (h : rest.head? ≠ some 94) :
    readTerm outline (fuel + 1) progress (91 :: rest) =
      (readClassItems outline (rest.length + 1) [] rest).map fun p =>
        ((.oneOf false p.1, true), progress, p.2) := by
  rw [readTerm]
  rintro _ rfl
  exact h rfl

theorem readTerm_capture {rest : Text} (h : rest.head? ≠ some 63) :
    readTerm outline (fuel + 1) progress (40 :: rest) =
      progress.open?.bind fun progress =>
        readGroup outline fuel (.capture progress.opened) true progress rest := by
  rw [readTerm]
  · cases progress.open? <;> rfl
  all_goals
    rintro _ rfl
    exact h rfl

theorem readTerm_named {rest : Text} (h61 : rest.head? ≠ some 61) (h33 : rest.head? ≠ some 33) :
    readTerm outline (fuel + 1) progress (40 :: 63 :: 60 :: rest) =
      (readName? rest).bind fun p =>
        if progress.names.contains p.1 then none
        else progress.open?.bind fun progress =>
          readGroup outline fuel (.capture progress.opened) true
            { progress with names := p.1 :: progress.names } p.2 := by
  rw [readTerm]
  · cases readName? rest with
    | none => rfl
    | some p => cases progress.open? <;> rfl
  · rintro _ rfl
    exact h61 rfl
  · rintro _ rfl
    exact h33 rfl

theorem readTerm_unknown {rest : Text} (h58 : rest.head? ≠ some 58) (h61 : rest.head? ≠ some 61)
    (h33 : rest.head? ≠ some 33) (h60 : rest.head? ≠ some 60) :
    readTerm outline (fuel + 1) progress (40 :: 63 :: rest) = none := by
  rw [readTerm]
  · rintro _ rfl
    exact h58 rfl
  · rintro _ rfl
    exact h61 rfl
  · rintro _ rfl
    exact h33 rfl
  all_goals
    rintro _ rfl
    exact h60 rfl

theorem readTerms_term {t : Text} (hnil : t ≠ []) (h124 : t.head? ≠ some 124)
    (h41 : t.head? ≠ some 41) :
    readTerms outline (fuel + 1) progress t =
      (readTerm outline fuel progress t).bind fun (found, progress, rest) =>
        (if found.2 then readRepeated? found.1 rest else some (found.1, rest)).bind
          fun (node, rest) =>
            (readTerms outline fuel progress rest).map fun (others, progress, rest) =>
              (.sequence node others, progress, rest) := by
  rw [readTerms]
  · cases readTerm outline fuel progress t with
    | none => rfl
    | some p =>
      obtain ⟨⟨node, repeatable⟩, progress, rest⟩ := p
      simp only [Option.bind_some]
      cases (if repeatable = true then readRepeated? node rest else some (node, rest)) with
      | none => rfl
      | some p =>
        simp only [Option.bind_some]
        cases readTerms outline fuel progress p.2 <;> rfl
  · exact hnil
  · rintro _ rfl
    exact h124 rfl
  · rintro _ rfl
    exact h41 rfl

end Equations

/-- What a reader of the grammar makes of a text, and of the text with a
closing parenthesis behind it. -/
inductive Framed {α : Type} (left : Text → Prop) :
    Option (α × Progress × Text) → Option (α × Progress × Text) → Prop where
  | read {x : α} {progress : Progress} {rest : Text} (h : left rest) :
    Framed left (some (x, progress, rest)) (some (x, progress, rest ++ [41]))
  | refused : Framed left none none
  | closed (x : α) (progress : Progress) : Framed left none (some (x, progress, []))

theorem Framed.imp {α : Type} {left left' : Text → Prop} {a b : Option (α × Progress × Text)}
    (h : Framed left a b) (hl : ∀ rest, left rest → left' rest) : Framed left' a b := by
  cases h with
  | read h => exact .read (hl _ h)
  | refused => exact .refused
  | closed x progress => exact .closed x progress

theorem Enclosed.framed {α β : Type} {left : α → Text → Prop} {left' : Text → Prop}
    {mayClose : Prop} {a b : Option (α × Text)} (h : Enclosed left mayClose a b) (f : α → β)
    (progress : Progress) (hl : ∀ x rest, left x rest → left' rest) :
    Framed left' (a.map fun p => (f p.1, progress, p.2)) (b.map fun p => (f p.1, progress, p.2)) := by
  cases h with
  | read h => exact .read (hl _ _ h)
  | refused => exact .refused
  | closed _ x => exact .closed (f x) progress

/-- The readers of the grammar, with `fuel` steps, read the same before a
closing parenthesis. -/
structure FramedBy (outline : Outline) (fuel : Nat) : Prop where
  alternatives {fuel' : Nat} {progress : Progress} {t : Text} (hf : 4 * t.length + 2 ≤ fuel)
    (hg : 4 * t.length + 6 ≤ fuel') :
    Framed (Passed false t false) (readAlternatives outline fuel progress t)
      (readAlternatives outline fuel' progress (t ++ [41]))
  terms {fuel' : Nat} {progress : Progress} {t : Text} (hf : 4 * t.length + 1 ≤ fuel)
    (hg : 4 * t.length + 5 ≤ fuel') :
    Framed (Passed false t false) (readTerms outline fuel progress t)
      (readTerms outline fuel' progress (t ++ [41]))
  term {fuel' : Nat} {progress : Progress} {t : Text} (ht : t ≠ []) (hf : 4 * t.length ≤ fuel)
    (hg : 4 * t.length + 4 ≤ fuel') :
    Framed (Advanced false t) (readTerm outline fuel progress t)
      (readTerm outline fuel' progress (t ++ [41]))
  group {fuel' : Nat} {wrap : Node → Node} {repeatable : Bool} {progress : Progress} {t : Text}
    (hf : 4 * t.length + 3 ≤ fuel) (hg : 4 * t.length + 7 ≤ fuel') :
    Framed (Passed false t false) (readGroup outline fuel wrap repeatable progress t)
      (readGroup outline fuel' wrap repeatable progress (t ++ [41]))

namespace FramedBy

variable {outline : Outline} {fuel fuel' : Nat} {progress : Progress} {t : Text}

theorem alternatives_succ (h : FramedBy outline fuel) (hf : 4 * t.length + 2 ≤ fuel + 1)
    (hg : 4 * t.length + 6 ≤ fuel' + 1) :
    Framed (Passed false t false) (readAlternatives outline (fuel + 1) progress t)
      (readAlternatives outline (fuel' + 1) progress (t ++ [41])) := by
  have hterms : Framed (Passed false t false) (readTerms outline fuel progress t)
      (readTerms outline fuel' progress (t ++ [41])) := h.terms (by omega) (by omega)
  unfold readAlternatives
  generalize readTerms outline fuel progress t = x,
    readTerms outline fuel' progress (t ++ [41]) = y at hterms
  cases hterms with
  | refused => exact .refused
  | closed first progress => exact .closed first progress
  | @read first progress rest hrest =>
    by_cases hbar : rest.head? = some 124
    · obtain ⟨after, rfl⟩ := List.head?_eq_some_iff.mp hbar
      have hafter : Passed false t false after := hrest.trans (Passed.plain false (by decide) after)
      have hlt : after.length < t.length := hrest.length_le
      have hothers : Framed (Passed false after false)
          (readAlternatives outline fuel progress after)
          (readAlternatives outline fuel' progress (after ++ [41])) :=
        h.alternatives (by omega) (by omega)
      simp only [List.cons_append]
      generalize readAlternatives outline fuel progress after = x,
        readAlternatives outline fuel' progress (after ++ [41]) = y at hothers
      cases hothers with
      | refused => exact .refused
      | closed second progress => exact .closed (Node.either first second) progress
      | read hlast => exact .read (hafter.trans hlast)
    · dsimp only
      split
      next => exact absurd rfl hbar
      next =>
        split
        next he => exact absurd (congrArg List.head? he) (head?_closing (by decide) hbar)
        next => exact .read hrest

theorem readTerms_nil (h : 0 < fuel) :
    readTerms outline fuel progress [] = some (.empty, progress, []) := by
  obtain ⟨fuel, rfl⟩ := Nat.exists_eq_add_of_lt h
  rw [Nat.zero_add]
  rfl

theorem terms_succ (h : FramedBy outline fuel) (hf : 4 * t.length + 1 ≤ fuel + 1)
    (hg : 4 * t.length + 5 ≤ fuel' + 1) :
    Framed (Passed false t false) (readTerms outline (fuel + 1) progress t)
      (readTerms outline (fuel' + 1) progress (t ++ [41])) := by
  by_cases hnil : t = []
  · subst hnil
    exact .read (Passed.refl false [])
  by_cases h124 : t.head? = some 124
  · obtain ⟨rest, rfl⟩ := List.head?_eq_some_iff.mp h124
    exact .read (Passed.refl false (124 :: rest))
  by_cases h41 : t.head? = some 41
  · obtain ⟨rest, rfl⟩ := List.head?_eq_some_iff.mp h41
    exact .read (Passed.refl false (41 :: rest))
  have hclosing : (t ++ [41]).head? = t.head? := by
    cases t with
    | nil => exact absurd rfl hnil
    | cons u t => rfl
  rw [readTerms_term outline fuel progress hnil h124 h41,
    readTerms_term outline fuel' progress (by simp) (hclosing ▸ h124) (hclosing ▸ h41)]
  have hterm : Framed (Advanced false t) (readTerm outline fuel progress t)
      (readTerm outline fuel' progress (t ++ [41])) := h.term hnil (by omega) (by omega)
  generalize readTerm outline fuel progress t = x,
    readTerm outline fuel' progress (t ++ [41]) = y at hterm
  cases hterm with
  | refused => exact .refused
  | closed found progress =>
    obtain ⟨node, repeatable⟩ := found
    have hfuel : 0 < fuel' := by omega
    cases repeatable with
    | false =>
      simp only [Option.bind_some, Bool.false_eq_true, if_false, readTerms_nil hfuel]
      exact .closed _ progress
    | true =>
      have hnone : readRepeated? node [] = some (node, []) := rfl
      simp only [Option.bind_some, if_true, hnone, readTerms_nil hfuel]
      exact .closed _ progress
  | @read found progress rest hrest =>
    have hrepeated : Enclosed (fun _ after => Passed false rest false after) False
        (if found.2 then readRepeated? found.1 rest else some (found.1, rest))
        (if found.2 then readRepeated? found.1 (rest ++ [41]) else some (found.1, rest ++ [41])) := by
      split
      next => exact enclosed_readRepeated? found.1 rest
      next => exact .read (Passed.refl false rest)
    simp only [Option.bind_some]
    generalize (if found.2 = true then readRepeated? found.1 rest else some (found.1, rest)) = x,
      (if found.2 = true then readRepeated? found.1 (rest ++ [41])
        else some (found.1, rest ++ [41])) = y at hrepeated
    cases hrepeated with
    | refused => exact .refused
    | closed h => exact h.elim
    | @read node after hafter =>
      have hlt : after.length < t.length := Nat.lt_of_le_of_lt hafter.length_le hrest.2
      have hothers : Framed (Passed false after false) (readTerms outline fuel progress after)
          (readTerms outline fuel' progress (after ++ [41])) := h.terms (by omega) (by omega)
      simp only [Option.bind_some]
      generalize readTerms outline fuel progress after = x,
        readTerms outline fuel' progress (after ++ [41]) = y at hothers
      cases hothers with
      | refused => exact .refused
      | closed others progress => exact .closed (Node.sequence node others) progress
      | read hlast => exact .read (hrest.1.trans (hafter.trans hlast))

theorem group_succ {wrap : Node → Node} {repeatable : Bool} (h : FramedBy outline fuel)
    (hf : 4 * t.length + 3 ≤ fuel + 1) (hg : 4 * t.length + 7 ≤ fuel' + 1) :
    Framed (Passed false t false) (readGroup outline (fuel + 1) wrap repeatable progress t)
      (readGroup outline (fuel' + 1) wrap repeatable progress (t ++ [41])) := by
  have hbody : Framed (Passed false t false) (readAlternatives outline fuel progress t)
      (readAlternatives outline fuel' progress (t ++ [41])) := h.alternatives (by omega) (by omega)
  unfold readGroup
  generalize readAlternatives outline fuel progress t = x,
    readAlternatives outline fuel' progress (t ++ [41]) = y at hbody
  cases hbody with
  | refused => exact .refused
  | closed body progress => exact .refused
  | @read body progress rest hrest =>
    cases rest with
    | nil => exact .closed (wrap body, repeatable) progress
    | cons u rest =>
      by_cases hu : u = 41
      · subst hu
        exact .read (hrest.trans (Passed.plain false (by decide) rest))
      · rw [List.cons_append]
        split
        next he => cases he; exact absurd rfl hu
        next =>
          split
          next he => cases he; exact absurd rfl hu
          next => exact .refused

/-! ### One term -/

theorem framed_group {wrap : Node → Node} {repeatable : Bool} {rest : Text}
    (h : FramedBy outline fuel) (ht : Passed false t false rest) (hlt : rest.length < t.length)
    (hf : 4 * t.length ≤ fuel + 1) (hg : 4 * t.length + 4 ≤ fuel' + 1) :
    Framed (Advanced false t) (readGroup outline fuel wrap repeatable progress rest)
      (readGroup outline fuel' wrap repeatable progress (rest ++ [41])) :=
  (h.group (by omega) (by omega)).imp
    fun _ hafter => ⟨ht.trans hafter, Nat.lt_of_le_of_lt hafter.length_le hlt⟩

theorem framed_class (outline : Outline) (progress : Progress) (rest : Text) :
    Framed (Advanced false (91 :: rest)) (readTerm outline (fuel + 1) progress (91 :: rest))
      (readTerm outline (fuel' + 1) progress (91 :: rest ++ [41])) := by
  have hitems (rest : Text) : Enclosed (fun _ => Finished rest) False
      (readClassItems outline (rest.length + 1) [] rest)
      (readClassItems outline ((rest ++ [41]).length + 1) [] (rest ++ [41])) :=
    enclosed_readClassItems outline (Nat.lt_succ_self _) (by simp only [List.length_append]; omega)
  by_cases hnegated : rest.head? = some 94
  · obtain ⟨rest, rfl⟩ := List.head?_eq_some_iff.mp hnegated
    refine (hitems rest).framed (fun items => (Node.oneOf true items, true)) progress ?_
    intro _ after h
    exact ⟨(Passed.bracket _).trans ((Passed.classUnit (by decide) rest).trans h.1),
      Nat.lt_succ_of_lt (Nat.lt_succ_of_lt h.2)⟩
  · rw [List.cons_append, readTerm_class outline fuel progress hnegated,
      readTerm_class outline fuel' progress (head?_closing (by decide) hnegated)]
    refine (hitems rest).framed (fun items => (Node.oneOf false items, true)) progress ?_
    intro _ after h
    exact ⟨(Passed.bracket rest).trans h.1, Nat.lt_succ_of_lt h.2⟩

theorem framed_named (h : FramedBy outline fuel) {rest : Text} (h61 : rest.head? ≠ some 61)
    (h33 : rest.head? ≠ some 33) (hf : 4 * (rest.length + 3) ≤ fuel + 1)
    (hg : 4 * (rest.length + 3) + 4 ≤ fuel' + 1) :
    Framed (Advanced false (40 :: 63 :: 60 :: rest))
      (readTerm outline (fuel + 1) progress (40 :: 63 :: 60 :: rest))
      (readTerm outline (fuel' + 1) progress (40 :: 63 :: 60 :: rest ++ [41])) := by
  rw [List.cons_append, List.cons_append, List.cons_append,
    readTerm_named outline fuel progress h61 h33, readTerm_named outline fuel' progress
      (head?_closing (by decide) h61) (head?_closing (by decide) h33)]
  have hname := enclosed_readName? rest
  generalize hx : readName? rest = x, hy : readName? (rest ++ [41]) = y at hname
  cases hname with
  | refused => exact .refused
  | closed h => exact h.elim
  | @read name after hafter =>
    simp only [Option.bind_some]
    split
    next => exact .refused
    next =>
      cases progress.open? with
      | none => exact .refused
      | some opened =>
        have hlt := hafter.2
        exact h.framed_group (Passed.named h61 h33 hx hy hafter.1)
          (by simp only [List.length_cons]; omega) hf hg

theorem framed_parenthesis (h : FramedBy outline fuel) {rest : Text}
    (hf : 4 * (rest.length + 1) ≤ fuel + 1) (hg : 4 * (rest.length + 1) + 4 ≤ fuel' + 1) :
    Framed (Advanced false (40 :: rest)) (readTerm outline (fuel + 1) progress (40 :: rest))
      (readTerm outline (fuel' + 1) progress (40 :: rest ++ [41])) := by
  by_cases h63 : rest.head? = some 63
  · obtain ⟨rest, rfl⟩ := List.head?_eq_some_iff.mp h63
    by_cases h58 : rest.head? = some 58
    · obtain ⟨rest, rfl⟩ := List.head?_eq_some_iff.mp h58
      exact h.framed_group (Passed.special (by decide) (by decide) rest)
        (by simp only [List.length_cons]; omega) hf hg
    by_cases h61 : rest.head? = some 61
    · obtain ⟨rest, rfl⟩ := List.head?_eq_some_iff.mp h61
      exact h.framed_group (Passed.special (by decide) (by decide) rest)
        (by simp only [List.length_cons]; omega) hf hg
    by_cases h33 : rest.head? = some 33
    · obtain ⟨rest, rfl⟩ := List.head?_eq_some_iff.mp h33
      exact h.framed_group (Passed.special (by decide) (by decide) rest)
        (by simp only [List.length_cons]; omega) hf hg
    by_cases h60 : rest.head? = some 60
    · obtain ⟨rest, rfl⟩ := List.head?_eq_some_iff.mp h60
      by_cases h61 : rest.head? = some 61
      · obtain ⟨rest, rfl⟩ := List.head?_eq_some_iff.mp h61
        exact h.framed_group (Passed.behind (.inl rfl) rest)
          (by simp only [List.length_cons]; omega) hf hg
      by_cases h33 : rest.head? = some 33
      · obtain ⟨rest, rfl⟩ := List.head?_eq_some_iff.mp h33
        exact h.framed_group (Passed.behind (.inr rfl) rest)
          (by simp only [List.length_cons]; omega) hf hg
      exact h.framed_named h61 h33 hf hg
    rw [List.cons_append, List.cons_append,
      readTerm_unknown outline fuel progress h58 h61 h33 h60,
      readTerm_unknown outline fuel' progress (head?_closing (by decide) h58)
        (head?_closing (by decide) h61) (head?_closing (by decide) h33)
        (head?_closing (by decide) h60)]
    exact .refused
  · rw [List.cons_append, readTerm_capture outline fuel progress h63,
      readTerm_capture outline fuel' progress (head?_closing (by decide) h63)]
    cases progress.open? with
    | none => exact .refused
    | some opened => exact h.framed_group (Passed.capture h63) (Nat.lt_succ_self _) hf hg

theorem term_succ (h : FramedBy outline fuel) (ht : t ≠ []) (hf : 4 * t.length ≤ fuel + 1)
    (hg : 4 * t.length + 4 ≤ fuel' + 1) :
    Framed (Advanced false t) (readTerm outline (fuel + 1) progress t)
      (readTerm outline (fuel' + 1) progress (t ++ [41])) := by
  obtain ⟨u, rest, rfl⟩ := List.exists_cons_of_ne_nil ht
  have hunit (hu : u ≠ 92 ∧ u ≠ 91 ∧ u ≠ 40) : Advanced false (u :: rest) rest :=
    ⟨Passed.unit hu rest, Nat.lt_succ_self _⟩
  by_cases h94 : u = 94
  · subst h94
    exact .read (hunit (by decide))
  by_cases h36 : u = 36
  · subst h36
    exact .read (hunit (by decide))
  by_cases h46 : u = 46
  · subst h46
    exact .read (hunit (by decide))
  by_cases h92 : u = 92
  · subst h92
    exact (enclosed_readEscape? outline rest).framed id progress fun _ _ h => h
  by_cases h91 : u = 91
  · exact h91 ▸ framed_class outline progress rest
  by_cases h40 : u = 40
  · exact h40 ▸ h.framed_parenthesis hf hg
  have halone : StandsAlone u := ⟨h94, h36, h46, h92, h91, h40⟩
  rw [List.cons_append, readTerm_unit outline fuel progress halone,
    readTerm_unit outline fuel' progress halone]
  have hbraces := enclosed_readBraces? (u :: rest)
  rw [List.cons_append] at hbraces
  generalize readBraces? (u :: rest) = x, readBraces? (u :: (rest ++ [41])) = y at hbraces
  cases hbraces with
  | closed h => exact h.elim
  | refused =>
    simp only [Option.isSome_none]
    split
    next => exact .refused
    next => exact .read (hunit ⟨h92, h91, h40⟩)
  | read =>
    simp only [Option.isSome_some, or_true, if_true]
    exact .refused

end FramedBy

/-- However many steps are allowed, if they are enough. -/
theorem framedBy (outline : Outline) (fuel : Nat) : FramedBy outline fuel := by
  induction fuel with
  | zero =>
    refine ⟨fun hf => by omega, fun hf => by omega, fun ht hf => ?_, fun hf => by omega⟩
    have := List.length_pos_iff.mpr ht
    omega
  | succ fuel ih =>
    refine ⟨?_, ?_, ?_, ?_⟩
    all_goals
      intro fuel'
      cases fuel' with
      | zero => intros; omega
      | succ fuel' => ?_
    · exact ih.alternatives_succ
    · exact ih.terms_succ
    · exact ih.term_succ
    · exact ih.group_succ

end ContestGrading.Pattern
