import ContestGrading.Grading.StatusText
import ContestGrading.Proofs.Template.Counting
import ContestGrading.Proofs.Template.Places
/-!
# The count of arguments and the arguments that are read

A status is filled only if it has as many arguments as placeholders are
counted in its template. The count and the reading of templates do not agree
on all of them: they do where the counted placeholders are as many as the
arguments that are read, so that every template whose placeholders take the
arguments in turn is safe, unless a line end is the filling of one. Positions
are not counted: a template that takes its arguments in another order is
refused with all of them and filled without any.

Results:
* `passes_iff`: the count decides which numbers of arguments pass.
* `countsReads_iff`, `readsExactly_counted_iff_of_next`: for which templates
  the arguments that pass are those that are looked at.
* `passes_iff_reads`: the count and the reading.
* `reordered_is_refused`: a template on which they disagree.
-/
namespace ContestGrading

/-- The argument as it is written in a status. -/
def Argument.toJson : Argument → Json
  | .number x => .number x
  | .text t => .string t

namespace Status

open Template

variable {t : Text} {pieces : List Piece}

/-- As many arguments are given as are counted. -/
def Passes (template : Text) (args : List Json) : Prop :=
  ∀ expected got, fillTemplate template args ≠ .error (.argumentCount expected got)

theorem arguments_error {args : List Json} {e : StatusError} (h : arguments args = .error e) :
    ∃ kind, e = .badArgument kind := by
  induction args with
  | nil => cases h
  | cons arg rest ih =>
    rw [arguments] at h
    cases ha : argument arg with
    | error e' =>
      rw [ha] at h
      cases h
      cases arg <;> cases ha <;> exact ⟨_, rfl⟩
    | ok a =>
      rw [ha] at h
      cases hr : arguments rest with
      | error e' =>
        rw [hr] at h
        cases h
        exact ih hr
      | ok as =>
        rw [hr] at h
        cases h

theorem passes_iff {template : Text} {args : List Json} :
    Passes template args ↔ args.length = countPlaceholders template := by
  unfold Passes fillTemplate
  dsimp only
  constructor
  · intro h
    by_contra hne
    exact h _ _ (if_pos (Ne.symm hne))
  · intro h expected got
    rw [if_neg (by simp [h])]
    intro herror
    cases ha : arguments args with
    | error e =>
      obtain ⟨kind, rfl⟩ := arguments_error ha
      rw [ha] at herror
      cases herror
    | ok as =>
      rw [ha] at herror
      change (format template as).mapError _ = _ at herror
      cases hf : format template as <;> rw [hf] at herror <;> cases herror

theorem countP_eq_countP_iff {α : Type} {p q : α → Bool} {as : List α}
    (h : ∀ a ∈ as, p a = true → q a = true) :
    as.countP p = as.countP q ↔ ∀ a ∈ as, q a = true → p a = true := by
  constructor
  · intro heq a ha hq
    by_contra hp
    obtain ⟨as₁, as₂, rfl⟩ := List.append_of_mem ha
    have h₁ := List.countP_mono_left fun b hb => h b (List.mem_append_left _ hb)
    have h₂ := List.countP_mono_left fun b hb =>
      h b (List.mem_append_right _ (List.mem_cons_of_mem _ hb))
    rw [List.countP_append, List.countP_append, List.countP_cons_of_neg hp,
      List.countP_cons_of_pos hq] at heq
    omega
  · intro hall
    exact List.countP_congr fun a ha => ⟨h a ha, hall a ha⟩

/-- What is filled for a template of a status and its arguments: the
guidance, which takes none, or the template itself. -/
def filling (tr : Translation) (template : Text) (args : List Json) : Text × List Json :=
  match guidance? template with
  | some advice => (tr.gettext advice, [])
  | none => (tr.gettext template, args)

theorem text_eq_fillTemplate (tr : Translation) (template : Text) (args : List Json) :
    text tr (.list (.string template :: args)) =
      fillTemplate (filling tr template args).1 (filling tr template args).2 := by
  rw [text, filling]
  cases guidance? template <;> rfl

/-- Whatever is shown without a failure has passed the count. -/
theorem passes_of_failure_eq_none {tr : Translation} {template : Text} {args : List Json}
    (h : (statusLine tr (.list (.string template :: args))).failure = none) :
    Passes (filling tr template args).1 (filling tr template args).2 := by
  intro expected got herror
  rw [statusLine, text_eq_fillTemplate, herror] at h
  cases h

/-! ## The count against the reading -/

/-- The count passes the arguments of a template exactly if these are the
arguments that filling its pieces looks at. -/
def CountsReads (t : Text) (pieces : List Piece) : Prop :=
  ∀ args : List Argument, Passes t (args.map Argument.toJson) ↔ ReadsExactly pieces args.length

theorem passes_map_iff (h : parse t = .ok pieces) (hn : ∀ piece ∈ pieces, piece.isNamed = false)
    (args : List Argument) :
    Passes t (args.map Argument.toJson) ↔ args.length = pieces.countP (·.isCounted) := by
  rw [passes_iff, List.length_map, countPlaceholders_eq h hn]

/-- One number of arguments decides, the one that is counted. -/
theorem countsReads_iff (h : parse t = .ok pieces) (hn : ∀ piece ∈ pieces, piece.isNamed = false) :
    CountsReads t pieces ↔ ReadsExactly pieces (pieces.countP (·.isCounted)) := by
  constructor
  · intro hagree
    have hcount := hagree (List.replicate (pieces.countP (·.isCounted)) (.text []))
    rw [passes_map_iff h hn, List.length_replicate] at hcount
    exact hcount.mp rfl
  · intro hreads args
    rw [passes_map_iff h hn]
    exact ⟨fun hlength => hlength ▸ hreads, fun hargs => hargs.unique hreads⟩

theorem readsExactly_of_next (hnext : ∀ p, .placeholder p ∈ pieces → p.source = .next) :
    ReadsExactly pieces (pieces.countP (·.isPlaceholder)) := by
  intro i
  rw [places, mem_placesFrom_of_next hnext, Nat.zero_add]
  exact Iff.rfl

theorem isCounted_of_next {p : Placeholder} (hp : p.source = .next) :
    p.isCounted = !Text.isLineEnd p.fill := by
  rw [Placeholder.isCounted, hp]

/-- Where arguments are only taken in turn, line ends as fillings are all
that the count misses. -/
theorem readsExactly_counted_iff_of_next
    (hnext : ∀ p, .placeholder p ∈ pieces → p.source = .next) :
    ReadsExactly pieces (pieces.countP (·.isCounted)) ↔
      ∀ p, .placeholder p ∈ pieces → Text.isLineEnd p.fill = false := by
  have hall := readsExactly_of_next hnext
  have hsame : ReadsExactly pieces (pieces.countP (·.isCounted)) ↔
      pieces.countP (·.isCounted) = pieces.countP (·.isPlaceholder) :=
    ⟨fun hcounted => hcounted.unique hall, fun heq => heq ▸ hall⟩
  have hcounted : ∀ piece ∈ pieces, piece.isCounted = true → piece.isPlaceholder = true := by
    rintro (literal | p) - hp
    · exact hp
    · rfl
  rw [hsame, countP_eq_countP_iff hcounted]
  constructor
  · intro hfill p hp
    have hp' := hfill _ hp rfl
    rw [Piece.isCounted, isCounted_of_next (hnext p hp)] at hp'
    simpa using hp'
  · rintro hfill (literal | p) hp hplaceholder
    · exact hplaceholder
    · rw [Piece.isCounted, isCounted_of_next (hnext p hp), hfill p hp]
      rfl

/-- **The count and the reading.** For a template that can be read and names
no argument:

* as many arguments pass as the count recognises placeholders, and these are
  the arguments that are looked at, for any arguments, iff they are for that
  many;
* if all placeholders take their arguments in turn, that is so unless a line
  end is the filling of one;
* a status that is shown without a failure looks at all its arguments and at
  no other iff this is so; what stands at other places does not matter. -/
theorem passes_iff_reads (h : parse t = .ok pieces)
    (hn : ∀ piece ∈ pieces, piece.isNamed = false) :
    (∀ args : List Argument,
      Passes t (args.map Argument.toJson) ↔ args.length = pieces.countP (·.isCounted)) ∧
    (CountsReads t pieces ↔ ReadsExactly pieces (pieces.countP (·.isCounted))) ∧
    ((∀ p, .placeholder p ∈ pieces → p.source = .next) →
      (CountsReads t pieces ↔ ∀ p, .placeholder p ∈ pieces → Text.isLineEnd p.fill = false)) ∧
    (∀ tr template args, (filling tr template args).1 = t →
      (statusLine tr (.list (.string template :: args))).failure = none →
      (ReadsExactly pieces (filling tr template args).2.length ↔ CountsReads t pieces)) ∧
    (∀ args args' : List Argument, (∀ i ∈ places pieces, args[i - 1]? = args'[i - 1]?) →
      format t args = format t args') := by
  refine ⟨passes_map_iff h hn, countsReads_iff h hn, fun hnext => ?_, ?_, ?_⟩
  · rw [countsReads_iff h hn, readsExactly_counted_iff_of_next hnext]
  · intro tr template args htemplate hshown
    have hpasses := passes_of_failure_eq_none hshown
    rw [htemplate, passes_iff, countPlaceholders_eq h hn] at hpasses
    rw [hpasses, countsReads_iff h hn]
  · intro args args' hsame
    rw [format, format, h]
    exact fill_congr hsame

/-- Two texts, the second first. -/
def reordered : Text := "%2$s: %1$s"

/-- The text at a position, as it is. -/
def textAt (index : Nat) : Placeholder := ⟨.position index, false, 32, false, none, none, .text⟩

def reorderedPieces : List Piece :=
  [.placeholder (textAt 2), .literal ": ", .placeholder (textAt 1)]

theorem parse_reordered : parse reordered = .ok reorderedPieces := by decide

theorem isNamed_reorderedPieces : ∀ piece ∈ reorderedPieces, piece.isNamed = false := by decide

theorem readsExactly_reorderedPieces : ReadsExactly reorderedPieces 2 := by
  intro i
  have hplaces : places reorderedPieces = [2, 1] := rfl
  simp only [hplaces, List.mem_cons, List.not_mem_nil, or_false]
  omega

/-- Positions are not counted, so only a status without arguments passes. -/
theorem passes_iff_reads_reordered :
    parse reordered = .ok reorderedPieces ∧
      (∀ piece ∈ reorderedPieces, piece.isNamed = false) ∧
      (∀ args : List Argument, Passes reordered (args.map Argument.toJson) ↔ args.length = 0) ∧
      ¬ CountsReads reordered reorderedPieces := by
  obtain ⟨hpasses, hagree, -, -, -⟩ := passes_iff_reads parse_reordered isNamed_reorderedPieces
  refine ⟨parse_reordered, isNamed_reorderedPieces, hpasses, fun hall => ?_⟩
  exact absurd ((hagree.mp hall).unique readsExactly_reorderedPieces) (by decide)

/-- The count and the reading disagree: with both arguments the template is
filled and the status refused, and without any the status is shown, with
nothing to fill it from. -/
theorem reordered_is_refused :
    (¬ ∀ t pieces, parse t = .ok pieces → (∀ piece ∈ pieces, piece.isNamed = false) →
      ∀ args : List Argument,
        Passes t (args.map Argument.toJson) ↔ ReadsExactly pieces args.length) ∧
    format reordered [.text "a", .text "b"] = .ok "b: a" ∧
    statusLine .default (.list [.string reordered, .string "a", .string "b"]) =
      ⟨"N/A", some (.argumentCount 0 2)⟩ ∧
    statusLine .default (.list [.string reordered]) = ⟨"undefined: undefined", none⟩ := by
  refine ⟨fun hall => ?_, by decide, rfl, rfl⟩
  have hpasses := (hall _ _ parse_reordered isNamed_reorderedPieces
    [.text "a", .text "b"]).mpr readsExactly_reorderedPieces
  exact absurd (passes_iff.mp hpasses) (by decide)

end Status

end ContestGrading
