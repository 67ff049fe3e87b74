import ContestGrading.Proofs.Grading.Construction
import ContestGrading.Proofs.Pattern.Anchored
/-!
# Subtasks by patterns

A target is compiled by its text being set between `^(?:` and `)`. A target
that is a pattern then selects what it matches from the first unit on. Some
texts that are no patterns pass as well, those that close the group
themselves; they select what the whole finds, wherever it starts.

Results:
* `compile?_eq_anchored_iff`: which targets are compiled to themselves.
* `resolve_patterns_anchored`: what accepted targets select, and which
  target is refused.
* `closingTarget_isAccepted`: a target that is no pattern and accepted.
-/
namespace ContestGrading.Targets

open Pattern (parse? anchored)

/-- What a target is set in: the start of the text, and a group around it. -/
theorem compile?_eq (target : Text) :
    compile? target = parse? (94 :: 40 :: 63 :: 58 :: (target ++ [41])) := by
  have hbefore : ("^(?:" : Text) = [94, 40, 63, 58] := by decide
  have hafter : (")" : Text) = [41] := by decide
  rw [compile?, hbefore, hafter, List.append_assoc]
  rfl

/-- A target that is a pattern is compiled to that pattern at the start. -/
theorem compile?_eq_anchored_iff {target : Text} {node : Pattern.Node} :
    compile? target = some (anchored node) ↔ parse? target = some node := by
  rw [compile?_eq, Pattern.parse?_paste_eq_anchored_iff]

theorem parse?_eq_none_of_compile? {target : Text} (h : compile? target = none) :
    parse? target = none := by
  cases hp : parse? target with
  | none => rfl
  | some node =>
    rw [compile?_eq_anchored_iff.mpr hp] at h
    cases h

theorem counts?_map_pattern {target : Text} {patterns : List Text} :
    counts? ((target :: patterns).map .pattern) = none := by
  rw [counts?, List.map_cons, List.mapM_cons]
  rfl

theorem patterns?_map_pattern (patterns : List Text) :
    patterns? (patterns.map .pattern) = some patterns := by
  induction patterns with
  | nil => rfl
  | cons target patterns ih =>
    rw [patterns?] at ih
    rw [List.map_cons, patterns?, List.mapM_cons, ih]
    rfl

theorem resolve_patterns_cons (target : Text) (patterns codenames : List Text) :
    resolve ((target :: patterns).map .pattern) codenames =
      byPatterns (sort codenames) (target :: patterns) >>= requireTestcases := by
  rw [resolve, counts?_map_pattern, patterns?_map_pattern]

/-- The target is compiled, and finds those codenames, in order. -/
def Finds (codenames : List Text) (target : Text) (found : List Text) : Prop :=
  ∃ paste, compile? target = some paste ∧ (sort codenames).filter paste.foundIn = found

theorem byPatterns_eq_ok {codenames patterns : List Text} {lists : List (List Text)}
    (h : byPatterns (sort codenames) patterns = .ok lists) :
    List.Forall₂ (Finds codenames) patterns lists := by
  induction patterns generalizing lists with
  | nil => cases h; exact .nil
  | cons target patterns ih =>
    unfold byPatterns at h
    split at h
    next => cases h
    next paste hpaste =>
      obtain ⟨found, hfound, rfl⟩ := map_eq_ok_iff.mp h
      exact .cons ⟨paste, hpaste, rfl⟩ (ih hfound)

/-- The first target that does not compile is named. -/
theorem byPatterns_eq_error {sorted patterns : List Text} {e : ConfigurationError}
    (h : byPatterns sorted patterns = .error e) :
    ∃ front target rest, patterns = front ++ target :: rest ∧
      (∀ t ∈ front, (compile? t).isSome = true) ∧ compile? target = none ∧
        e = .badPattern target := by
  induction patterns with
  | nil => cases h
  | cons target patterns ih =>
    unfold byPatterns at h
    split at h
    next hnone =>
      cases h
      exact ⟨[], target, patterns, rfl, nofun, hnone, rfl⟩
    next paste hpaste =>
      obtain ⟨front, bad, rest, rfl, hfront, hbad, rfl⟩ := ih (map_eq_error_iff.mp h)
      refine ⟨target :: front, bad, rest, rfl, ?_, hbad, rfl⟩
      exact List.forall_mem_cons.mpr ⟨hpaste ▸ rfl, hfront⟩

theorem requireTestcases_ne_badPattern {lists : List (List Text)} {target : Text} :
    requireTestcases lists ≠ .error (.badPattern target) := by
  unfold requireTestcases
  split <;> nofun

theorem byCounts_ne_badPattern {counts : List Binary64} {sorted : List Text} {target : Text} :
    byCounts counts sorted ≠ .error (.badPattern target) := by
  unfold byCounts
  dsimp only
  split
  next => nofun
  next => split <;> nofun

theorem resolve_patterns_eq_ok {patterns codenames : List Text} {lists : List (List Text)}
    (h : resolve (patterns.map .pattern) codenames = .ok lists) :
    List.Forall₂ (Finds codenames) patterns lists := by
  cases patterns with
  | nil =>
    have hlen := (resolve_ok h).1
    obtain rfl := List.length_eq_zero_iff.mp hlen
    exact .nil
  | cons target patterns =>
    rw [resolve_patterns_cons] at h
    obtain ⟨found, hfound, hr⟩ := bind_eq_ok_iff.mp h
    obtain ⟨rfl, -⟩ := requireTestcases_ok hr
    exact byPatterns_eq_ok hfound

theorem resolve_patterns_eq_badPattern {patterns codenames : List Text} {target : Text}
    (h : resolve (patterns.map .pattern) codenames = .error (.badPattern target)) :
    ∃ front rest, patterns = front ++ target :: rest ∧
      (∀ t ∈ front, (compile? t).isSome = true) ∧ compile? target = none := by
  cases patterns with
  | nil =>
    have h : byCounts [] (sort codenames) >>= requireTestcases = .error (.badPattern target) := h
    rcases bind_eq_error_iff.mp h with hbad | ⟨found, -, hr⟩
    · exact absurd hbad byCounts_ne_badPattern
    · exact absurd hr requireTestcases_ne_badPattern
  | cons first patterns =>
    rw [resolve_patterns_cons] at h
    rcases bind_eq_error_iff.mp h with hbad | ⟨found, -, hr⟩
    · obtain ⟨front, bad, rest, heq, hfront, hbad, he⟩ := byPatterns_eq_error hbad
      cases he
      exact ⟨front, rest, heq, hfront, hbad⟩
    · exact absurd hr requireTestcases_ne_badPattern

/-- One target and codenames in order. -/
theorem resolve_one {target : Text} (node : Pattern.Node) {codenames found : List Text}
    (hnode : compile? target = some node)
    (hsorted : codenames.Pairwise fun s t => Text.ble s t = true)
    (hfound : codenames.filter node.foundIn = found) (hne : found ≠ []) :
    resolve [.pattern target] codenames = .ok [found] := by
  have hsort : sort codenames = codenames := List.mergeSort_of_pairwise hsorted
  have hrequire : requireTestcases [found] = .ok [found] := by
    cases found with
    | nil => exact absurd rfl hne
    | cons codename found => rfl
  show resolve ([target].map .pattern) codenames = _
  rw [resolve_patterns_cons, hsort, byPatterns, hnode]
  show requireTestcases [codenames.filter node.foundIn] = _
  rw [hfound, hrequire]

/-- **Anchoring.** An accepted target selects the codenames in which the
pattern is found that it makes between `^(?:` and `)`. If the target is a
pattern itself, those are the codenames that it matches from the first unit
on; it is one exactly when what it makes is that pattern behind the start of
the text. The first target that makes no pattern is refused, and is none. -/
theorem resolve_patterns_anchored (patterns codenames : List Text) :
    (∀ lists, resolve (patterns.map .pattern) codenames = .ok lists →
      List.Forall₂ (fun target list => ∃ paste, compile? target = some paste ∧
        (∀ codename, codename ∈ list ↔ codename ∈ codenames ∧ paste.foundIn codename = true) ∧
        (∀ node, parse? target = some node ↔ paste = anchored node) ∧
        ∀ node, parse? target = some node → ∀ codename,
          codename ∈ list ↔ codename ∈ codenames ∧ node.matchesStart codename = true)
        patterns lists) ∧
    ∀ target, resolve (patterns.map .pattern) codenames = .error (.badPattern target) →
      ∃ front rest, patterns = front ++ target :: rest ∧
        (∀ t ∈ front, (compile? t).isSome = true) ∧ compile? target = none ∧
          parse? target = none := by
  constructor
  · intro lists h
    refine (resolve_patterns_eq_ok h).imp ?_
    rintro target list ⟨paste, hpaste, rfl⟩
    have hmem (codename : Text) : codename ∈ (sort codenames).filter paste.foundIn ↔
        codename ∈ codenames ∧ paste.foundIn codename = true := by
      rw [List.mem_filter, (perm_sort codenames).mem_iff]
    have hvalid (node : Pattern.Node) : parse? target = some node ↔ paste = anchored node := by
      rw [← compile?_eq_anchored_iff, hpaste, Option.some.injEq]
    refine ⟨paste, hpaste, hmem, hvalid, fun node hnode codename => ?_⟩
    rw [hmem, (hvalid node).mp hnode, Pattern.foundIn_anchored]
  · intro target h
    obtain ⟨front, rest, heq, hfront, hbad⟩ := resolve_patterns_eq_badPattern h
    exact ⟨front, rest, heq, hfront, hbad, parse?_eq_none_of_compile? hbad⟩

/-- `a|b` selects what starts with either, and not what has one of them later. -/
theorem resolve_patterns_anchored_alternatives :
    ∃ node, parse? [97, 124, 98] = some node ∧ ∀ codename : Text,
      codename ∈ ([[97, 120], [98]] : List Text) ↔
        codename ∈ ([[97, 120], [98], [120, 97]] : List Text) ∧
          node.matchesStart codename = true := by
  have hresolve : resolve ([[97, 124, 98]].map .pattern) [[97, 120], [98], [120, 97]] =
      .ok [[[97, 120], [98]]] :=
    resolve_one (anchored (.either (.sequence (.unit 97) .empty) (.sequence (.unit 98) .empty)))
      (by decide +kernel) (by decide) (by decide +kernel) (by decide)
  cases (resolve_patterns_anchored _ _).1 _ hresolve with
  | cons hselects _ =>
    obtain ⟨-, -, -, -, hstart⟩ := hselects
    exact ⟨_, by decide +kernel, hstart (.either (.sequence (.unit 97) .empty)
      (.sequence (.unit 98) .empty)) (by decide +kernel)⟩

/-- `b)|(?:a` closes the group around it: it is no pattern, yet it is
accepted, and selects `xa` by a match that starts later. -/
theorem closingTarget_isAccepted :
    parse? [98, 41, 124, 40, 63, 58, 97] = none ∧
      resolve [.pattern [98, 41, 124, 40, 63, 58, 97]] [[120, 97]] = .ok [[[120, 97]]] := by
  refine ⟨by decide +kernel, ?_⟩
  exact resolve_one (.either
      (.sequence .textStart (.sequence (.sequence (.unit 98) .empty) .empty))
      (.sequence (.sequence (.unit 97) .empty) .empty))
    (by decide +kernel) (by decide) (by decide +kernel) (by decide)

end ContestGrading.Targets
