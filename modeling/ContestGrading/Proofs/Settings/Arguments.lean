import ContestGrading.Settings.Arguments
/-!
# Command lines that name each option once

An option that has its value is not set again, and that is the only way for
a command line to be refused. So one that names no option twice is
understood.

Results:
* `take_of_ready`: one argument is taken, and so can the others be.
* `parse_of_nodup`: no option is named twice.
-/
namespace ContestGrading.Arguments

/-- The option that a word names. -/
def Word.option? : Word → Option OptionName
  | .option found => found
  | .setting found _ => found
  | .value => none

/-- The options that single arguments name, in order. -/
def namedBy (words : List Text) : List OptionName :=
  words.filterMap fun word => (classify word).option?

/-- The options that a command line names, in order. -/
def named (argv : List Text) : List OptionName := namedBy (argv.flatMap separate)

variable {args : Arguments} {o : OptionName}

theorem set_some (h : args.value? o = none) (value : Text) :
    args.set o (some value) = .ok ⟨(o, value) :: args.values⟩ := by
  simp [set, h]

theorem set_none (h : args.value? o = none) : args.set o none = .ok args := by
  simp [set, h]

theorem value?_cons_of_ne {other : OptionName} (h : other ≠ o) (value : Text) :
    value? ⟨(o, value) :: args.values⟩ other = args.value? other := by
  rw [value?, value?, List.find?_cons_of_neg (by simpa using h.symm)]

/-- The words to come can be taken: none names an option that has its value
or waits for it, nor one that another names. -/
structure Ready (args : Arguments) (waiting : Option OptionName) (words : List Text) : Prop where
  nodup : (namedBy words).Nodup
  unset : ∀ o ∈ namedBy words, args.value? o = none
  waits : ∀ o, waiting = some o → args.value? o = none ∧ o ∉ namedBy words

namespace Ready

variable {waiting : Option OptionName} {word : Text} {words : List Text}

theorem forget (h : Ready args waiting words) : Ready args none words :=
  ⟨h.nodup, h.unset, nofun⟩

/-- An option is set that the words to come do not name. -/
theorem set (h : Ready args none words) (ho : o ∉ namedBy words) (value : Text) :
    Ready ⟨(o, value) :: args.values⟩ none words := by
  refine ⟨h.nodup, fun other hother => ?_, nofun⟩
  have hne : other ≠ o := by
    rintro rfl
    exact ho hother
  rw [value?_cons_of_ne hne, h.unset other hother]

/-- Behind a word that names no option. -/
theorem of_unnamed (h : Ready args waiting (word :: words))
    (hword : (classify word).option? = none) : Ready args waiting words := by
  have hsame : namedBy (word :: words) = namedBy words := List.filterMap_cons_none hword
  exact ⟨hsame ▸ h.nodup, hsame ▸ h.unset, hsame ▸ h.waits⟩

/-- Behind a word that names an option, the option is unset and not named again. -/
theorem of_named (h : Ready args waiting (word :: words))
    (hword : (classify word).option? = some o) :
    args.value? o = none ∧ o ∉ namedBy words ∧ Ready args none words := by
  have hnamed : namedBy (word :: words) = o :: namedBy words := List.filterMap_cons_some hword
  obtain ⟨hn, hu, -⟩ := h
  rw [hnamed] at hn hu
  obtain ⟨hunset, hothers⟩ := List.forall_mem_cons.mp hu
  obtain ⟨hunnamed, hrest⟩ := List.nodup_cons.mp hn
  exact ⟨hunset, hunnamed, hrest, hothers, nofun⟩

end Ready

/-- A word is taken, and then so can the others be. -/
theorem take_of_ready {waiting : Option OptionName} {word : Text} {words : List Text}
    (h : Ready args waiting (word :: words)) :
    ∃ args' waiting', take args waiting word = .ok (args', waiting') ∧ Ready args' waiting' words := by
  unfold take
  cases hc : classify word with
  | option found =>
    have hword : (classify word).option? = found := by rw [hc]; rfl
    cases found with
    | none => exact ⟨args, none, rfl, (h.of_unnamed hword).forget⟩
    | some o =>
      obtain ⟨hunset, hunnamed, hrest⟩ := h.of_named hword
      dsimp only
      split
      next =>
        rw [set_some hunset]
        exact ⟨_, _, rfl, hrest.set hunnamed flagText⟩
      next =>
        rw [set_none hunset]
        refine ⟨args, some o, rfl, hrest.nodup, hrest.unset, ?_⟩
        rintro _ ⟨⟩
        exact ⟨hunset, hunnamed⟩
  | setting found value =>
    have hword : (classify word).option? = found := by rw [hc]; rfl
    cases found with
    | none => exact ⟨args, none, rfl, (h.of_unnamed hword).forget⟩
    | some o =>
      obtain ⟨hunset, hunnamed, hrest⟩ := h.of_named hword
      dsimp only
      rw [set_some hunset]
      exact ⟨_, _, rfl, hrest.set hunnamed _⟩
  | value =>
    have hrest := h.of_unnamed (by rw [hc]; rfl)
    cases waiting with
    | none => exact ⟨args, none, rfl, hrest⟩
    | some o =>
      obtain ⟨hunset, hunnamed⟩ := hrest.waits o rfl
      dsimp only
      rw [set_some hunset]
      exact ⟨_, _, rfl, hrest.forget.set hunnamed word⟩

theorem takeAll_of_ready {waiting : Option OptionName} {words : List Text}
    (h : Ready args waiting words) : ∃ args', takeAll args waiting words = .ok args' := by
  induction words generalizing args waiting with
  | nil => exact ⟨args, rfl⟩
  | cons word words ih =>
    obtain ⟨args', waiting', htake, hrest⟩ := take_of_ready h
    obtain ⟨last, hlast⟩ := ih hrest
    exact ⟨last, by rw [takeAll, htake]; exact hlast⟩

/-- A command line that names no option twice is understood. -/
theorem parse_of_nodup {argv : List Text} (h : (named argv).Nodup) :
    ∃ args, parse argv = .ok args :=
  takeAll_of_ready ⟨h, fun _ _ => rfl, nofun⟩

end ContestGrading.Arguments
