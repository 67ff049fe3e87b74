import ContestGrading.Pattern.Matcher
import ContestGrading.Proofs.Pattern.Grammar
/-!
# Patterns set behind the start of a text

To match a pattern at the start only, its text is set between `^(?:` and `)`
and read as a whole. Where the closing parenthesis is the one of the group,
that is the pattern behind the start of the text, and the text was a pattern
itself; where the text closes the group before, it is something else.

Results:
* `parse?_paste_eq_anchored_iff`: what a pattern becomes.
* `foundIn_anchored`: it is found exactly where the pattern matches from the
  start on.
-/
namespace ContestGrading.Pattern

/-! ## Reading -/

/-- A pattern set between `^(?:` and `)`, as it is read. -/
def anchored (node : Node) : Node := .sequence .textStart (.sequence node .empty)

theorem parse?_eq_some_iff {t : Text} {node : Node} :
    parse? t = some node ↔ ∃ progress,
      readAlternatives ⟨groupsFrom false t⟩ (4 * t.length + 4) ⟨0, []⟩ t =
        some (node, progress, []) := by
  unfold parse?
  dsimp only
  constructor
  · intro h
    split at h
    next found progress heq =>
      cases h
      exact ⟨progress, heq⟩
    next => cases h
  · rintro ⟨progress, h⟩
    have h : readAlternatives ⟨scanGroups (t.length + 1) false t⟩ (4 * t.length + 4) ⟨0, []⟩ t =
      some (node, progress, []) := h
    rw [h]

theorem groupsFrom_paste (t : Text) :
    groupsFrom false (94 :: 40 :: 63 :: 58 :: t) = groupsFrom false t := by
  rw [groupsFrom_plain (by decide), groupsFrom_special (by simp), groupsFrom_plain (by decide)]

/-- An end that is reached passes the groups of the whole text. -/
theorem groupsFrom_of_passed {t : Text} (h : Passed false t false []) :
    groupsFrom false (t ++ [41]) = groupsFrom false t := by
  obtain ⟨-, gs, hg, hg'⟩ := h
  rw [hg, hg']
  rfl

/-- Without a term nothing is passed. -/
theorem rest_of_readTerms_empty {outline : Outline} {fuel : Nat} {progress progress' : Progress}
    {t rest : Text} (h : readTerms outline fuel progress t = some (.empty, progress', rest)) :
    rest = t := by
  cases fuel with
  | zero => cases h
  | succ fuel =>
    by_cases hnil : t = []
    · subst hnil; cases h; rfl
    by_cases h124 : t.head? = some 124
    · obtain ⟨after, rfl⟩ := List.head?_eq_some_iff.mp h124
      cases h; rfl
    by_cases h41 : t.head? = some 41
    · obtain ⟨after, rfl⟩ := List.head?_eq_some_iff.mp h41
      cases h; rfl
    -- a term that is read makes a sequence
    rw [readTerms_term outline fuel progress hnil h124 h41] at h
    simp [Option.bind_eq_some_iff] at h

/-- A sequence is read where no bar follows. -/
theorem readAlternatives_eq_sequence {outline : Outline} {fuel : Nat}
    {progress progress' : Progress} {t rest : Text} {first second : Node} :
    readAlternatives outline (fuel + 1) progress t =
        some (.sequence first second, progress', rest) ↔
      readTerms outline fuel progress t = some (.sequence first second, progress', rest) ∧
        rest.head? ≠ some 124 := by
  rw [readAlternatives]
  cases readTerms outline fuel progress t with
  | none => simp
  | some p =>
    obtain ⟨node, progress, after⟩ := p
    dsimp only
    split
    next after =>
      cases readAlternatives outline fuel progress after with
      | none =>
        simp only [reduceCtorEq, false_iff, not_and]
        intro h
        cases h
        simp
      | some p =>
        simp only [Option.some.injEq, Prod.mk.injEq, reduceCtorEq, false_and, false_iff, not_and]
        rintro ⟨-, -, rfl⟩
        simp
    next hbar =>
      refine ⟨fun h => ⟨h, fun hhead => ?_⟩, And.left⟩
      cases h
      obtain ⟨after, rfl⟩ := List.head?_eq_some_iff.mp hhead
      exact hbar after rfl

/-- Reading the group that is set behind the start, and what follows it. -/
theorem readTerms_paste (outline : Outline) (fuel : Nat) (progress : Progress) (w : Text) :
    readTerms outline (fuel + 4) progress (94 :: 40 :: 63 :: 58 :: w) =
      (readGroup outline (fuel + 1) (·) true progress w).bind fun (found, progress, rest) =>
        (if found.2 then readRepeated? found.1 rest else some (found.1, rest)).bind
          fun (node, rest) =>
            (readTerms outline (fuel + 2) progress rest).map fun (others, progress, rest) =>
              (.sequence .textStart (.sequence node others), progress, rest) := by
  have hstart : readTerm outline (fuel + 3) progress (94 :: 40 :: 63 :: 58 :: w) =
      some ((.textStart, false), progress, 40 :: 63 :: 58 :: w) := rfl
  have hgroup : readTerm outline (fuel + 2) progress (40 :: 63 :: 58 :: w) =
      readGroup outline (fuel + 1) (·) true progress w := rfl
  rw [readTerms_term outline (fuel + 3) progress (by simp) (by simp) (by simp), hstart]
  simp only [Option.bind_some, Bool.false_eq_true, if_false]
  rw [readTerms_term outline (fuel + 2) progress (by simp) (by simp) (by simp), hgroup]
  simp only [Option.map_bind, Option.map_map, Function.comp_def]

/-- Behind a group that something follows, the text does not end without a term. -/
theorem not_ends_behind {outline : Outline} {fuel : Nat} {progress progress' : Progress}
    {body node : Node} {rest : Text} :
    ((readRepeated? body (rest ++ [41])).bind fun (node, rest) =>
        (readTerms outline fuel progress rest).map fun (others, progress, rest) =>
          (Node.sequence .textStart (.sequence node others), progress, rest)) ≠
      some (.sequence .textStart (.sequence node .empty), progress', []) := by
  intro h
  have hrepeated := enclosed_readRepeated? body rest
  generalize readRepeated? body rest = x, readRepeated? body (rest ++ [41]) = y at hrepeated h
  cases hrepeated with
  | refused => cases h
  | closed hfalse => exact hfalse.elim
  | read _ =>
    rw [Option.bind_some, Option.map_eq_some_iff] at h
    obtain ⟨⟨others, progress, after⟩, hterms, heq⟩ := h
    cases heq
    have := rest_of_readTerms_empty hterms
    simp at this

/-- **What a pattern becomes.** A text is a pattern exactly when, set between
`^(?:` and `)`, it is read as the same pattern behind the start of the text;
otherwise the closing parenthesis behind it is not the one of its group. -/
theorem parse?_paste_eq_anchored_iff {t : Text} {node : Node} :
    parse? (94 :: 40 :: 63 :: 58 :: (t ++ [41])) = some (anchored node) ↔ parse? t = some node := by
  have hlength : 4 * (94 :: 40 :: 63 :: 58 :: (t ++ [41])).length + 4 =
      4 * t.length + 19 + 4 + 1 := by
    simp only [List.length_cons, List.length_append, List.length_nil]
    omega
  rw [parse?_eq_some_iff, parse?_eq_some_iff, hlength, groupsFrom_paste, anchored]
  simp only [readAlternatives_eq_sequence, readTerms_paste]
  constructor
  · rintro ⟨progress, h, -⟩
    have hframed : Framed (Passed false t false)
        (readAlternatives ⟨groupsFrom false (t ++ [41])⟩ (4 * t.length + 4) ⟨0, []⟩ t)
        (readAlternatives ⟨groupsFrom false (t ++ [41])⟩ (4 * t.length + 19) ⟨0, []⟩ (t ++ [41])) :=
      (framedBy _ _).alternatives (by omega) (by omega)
    rw [readGroup] at h
    generalize hx : readAlternatives ⟨groupsFrom false (t ++ [41])⟩ (4 * t.length + 4) ⟨0, []⟩ t = x,
      readAlternatives ⟨groupsFrom false (t ++ [41])⟩ (4 * t.length + 19) ⟨0, []⟩ (t ++ [41]) = y
      at hframed h
    cases hframed with
    | refused => cases h
    | closed body progress => cases h
    | @read body progress rest hpassed =>
      cases rest with
      | nil =>
        cases h
        rw [groupsFrom_of_passed hpassed] at hx
        exact ⟨progress, hx⟩
      | cons u rest =>
        by_cases hu : u = 41
        · subst hu
          exact absurd h not_ends_behind
        · rw [List.cons_append] at h
          split at h
          next he => cases he; exact absurd rfl hu
          next => cases h
  · rintro ⟨progress, h⟩
    have hframed : Framed (Passed false t false)
        (readAlternatives ⟨groupsFrom false t⟩ (4 * t.length + 4) ⟨0, []⟩ t)
        (readAlternatives ⟨groupsFrom false t⟩ (4 * t.length + 19) ⟨0, []⟩ (t ++ [41])) :=
      (framedBy _ _).alternatives (by omega) (by omega)
    rw [h] at hframed
    generalize hy : readAlternatives ⟨groupsFrom false t⟩ (4 * t.length + 19) ⟨0, []⟩ (t ++ [41]) =
      y at hframed
    cases hframed with
    | read hpassed =>
      refine ⟨progress, ?_, by simp⟩
      rw [groupsFrom_of_passed hpassed, readGroup, hy]
      rfl

/-! ## Matching -/

/-- An anchored pattern matches where the pattern does, at the start only. -/
theorem matchesAt_anchored (node : Node) (p : Position) :
    (anchored node).matchesAt p = (p.before.isEmpty && node.matchesAt p) := by
  have hreferred : (anchored node).referred = node.referred := by
    simp [anchored, Node.referred]
  rw [Node.matchesAt, Node.matchesAt, hreferred, anchored, Node.run_sequence, distinct,
    Trail.isEmpty_distinct]
  cases hstart : p.before.isEmpty with
  | false => simp [Node.run, hstart]
  | true =>
    simp only [Node.run, hstart, if_true, List.flatMap_cons, List.flatMap_nil, List.append_nil,
      Bool.true_and]
    simp only [distinct, Bool.false_eq_true, if_false, Trail.isEmpty_distinct]
    simp

theorem before_of_step? {p q : Position} {u : UInt16} (h : p.step? false = some (u, q)) :
    q.before.isEmpty = false := by
  obtain ⟨before, after, passed, left, captures⟩ := p
  cases after with
  | nil => cases h
  | cons v after => cases h; rfl

theorem matchesFrom_anchored (node : Node) {p : Position} (h : p.before.isEmpty = false)
    (t : Text) : (anchored node).matchesFrom p t = false := by
  induction t generalizing p with
  | nil => rw [Node.matchesFrom, matchesAt_anchored, h, Bool.false_and]
  | cons u t ih =>
    rw [Node.matchesFrom, matchesAt_anchored, h, Bool.false_and, Bool.false_or]
    cases hstep : p.step? false with
    | none => rfl
    | some found => exact ih (before_of_step? hstep)

/-- **Anchoring.** An anchored pattern is found in a text exactly where the
pattern matches from the start on. -/
theorem foundIn_anchored (node : Node) (t : Text) :
    (anchored node).foundIn t = node.matchesStart t := by
  have hstart : (anchored node).matchesAt (.start t) = node.matchesStart t := by
    rw [matchesAt_anchored]
    rfl
  cases t with
  | nil => exact hstart
  | cons u t =>
    have hlater : (((Position.start (u :: t)).step? false).any fun found =>
        (anchored node).matchesFrom found.2 t) = false := matchesFrom_anchored node rfl t
    rw [Node.foundIn, Node.matchesFrom, hstart, hlater, Bool.or_false]

end ContestGrading.Pattern
