import ContestGrading.Grading.Parameter
import ContestGrading.Pattern.Parser
import ContestGrading.Pattern.Matcher
/-!
# Testcases of the subtasks

The codenames, in the order of their code units, are given out to the
subtasks: by counts, one after the other, or by patterns, each of which is
set between `^(?:` and `)` and then sought in the codename. Counts and
patterns do not mix, and every subtask has to get a testcase.

Results:
* `pairwise_sort`, `sort_eq_of_perm`: the order depends on the codenames only.
* `length_split`: one part per count.
* `flatten_split`: the parts together are as many elements as the counts add up to.
* `requireTestcases_ok`: no accepted subtask is empty.
-/
namespace ContestGrading.Targets

/-- The list cut into parts of the given lengths, from the front. -/
def split {α : Type} : List Nat → List α → List (List α)
  | [], _ => []
  | n :: counts, xs => xs.take n :: split counts (xs.drop n)

/-- The pattern by which a target chooses testcases. -/
def compile? (target : Text) : Option Pattern.Node :=
  Pattern.parse? (("^(?:" : Text) ++ target ++ (")" : Text))

/-- Whether a number counts testcases. -/
def isCount (x : Binary64) : Bool := x.isInteger && Binary64.zero ≤ x

/-- The testcases of subtasks with counts, which have to cover them all. -/
def byCounts (counts : List Binary64) (sorted : List Text) :
    Except ConfigurationError (List (List Text)) :=
  if !counts.all isCount then .error .badCounts
  else
    let total := Binary64.sum counts
    if total.sameValue (.ofNat sorted.length) then
      .ok (split (counts.map fun x => x.truncate.toNat) sorted)
    else .error (.wrongTotal total sorted.length)

/-- The testcases of subtasks with patterns. -/
def byPatterns (sorted : List Text) : List Text → Except ConfigurationError (List (List Text))
  | [] => .ok []
  | target :: rest =>
    match compile? target with
    | none => .error (.badPattern target)
    | some node => (byPatterns sorted rest).map (sorted.filter node.foundIn :: ·)

/-- The counts, if all targets are counts. -/
def counts? (targets : List Target) : Option (List Binary64) :=
  targets.mapM fun
    | .count x => some x
    | .pattern _ => none

/-- The patterns, if all targets are patterns. -/
def patterns? (targets : List Target) : Option (List Text) :=
  targets.mapM fun
    | .pattern t => some t
    | .count _ => none

/-- The codenames in the order of their code units. -/
def sort (codenames : List Text) : List Text := codenames.mergeSort Text.ble

/-- The lists, if none is empty; the first that is gets named. -/
def requireTestcases (lists : List (List Text)) : Except ConfigurationError (List (List Text)) :=
  match lists.findIdx? (·.isEmpty) with
  | some i => .error (.noTestcases (i + 1))
  | none => .ok lists

/-- The testcases of each subtask. -/
def resolve (targets : List Target) (codenames : List Text) :
    Except ConfigurationError (List (List Text)) := do
  let sorted := sort codenames
  let lists ←
    match counts? targets with
    | some counts => byCounts counts sorted
    | none =>
      match patterns? targets with
      | some patterns => byPatterns sorted patterns
      | none => .error .mixedTargets
  requireTestcases lists

theorem pairwise_sort (codenames : List Text) :
    (sort codenames).Pairwise fun s t => Text.ble s t = true :=
  @List.pairwise_mergeSort _ Text.ble (fun _ _ _ => Text.ble_trans) Text.ble_total codenames

theorem sort_eq_of_perm {codenames others : List Text} (h : codenames.Perm others) :
    sort codenames = sort others := by
  refine List.Perm.eq_of_pairwise (fun _ _ _ _ => Text.ble_antisymm) (pairwise_sort codenames)
    (pairwise_sort others) ?_
  calc (sort codenames).Perm codenames := List.mergeSort_perm _ _
    _ |>.Perm others := h
    _ |>.Perm (sort others) := (List.mergeSort_perm _ _).symm

theorem length_split {α : Type} (counts : List Nat) (xs : List α) :
    (split counts xs).length = counts.length := by
  induction counts generalizing xs with
  | nil => rfl
  | cons n counts ih => simp [split, ih]

theorem flatten_split {α : Type} (counts : List Nat) (xs : List α) :
    (split counts xs).flatten = xs.take (counts.foldr (· + ·) 0) := by
  induction counts generalizing xs with
  | nil => simp [split]
  | cons n counts ih => simp [split, ih, List.take_add]

theorem requireTestcases_ok {lists found : List (List Text)}
    (h : requireTestcases lists = .ok found) : found = lists ∧ ∀ l ∈ found, l ≠ [] := by
  unfold requireTestcases at h
  split at h
  next => cases h
  next hn =>
    cases h
    refine ⟨rfl, fun l hl e => ?_⟩
    have := List.findIdx?_eq_none_iff.mp hn l hl
    simp [e] at this

end ContestGrading.Targets
