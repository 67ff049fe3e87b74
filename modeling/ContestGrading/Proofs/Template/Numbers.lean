import ContestGrading.Proofs.Template.Fill
import ContestGrading.Proofs.Template.Places
/-!
# Templates that any number fills

Filling a template with one number cannot fail if every placeholder looks at
that number, none has a width, and each conversion admits its precision.
Without a width no placeholder is too wide either.

Results:
* `fillPlaceholder_number_ok`: one placeholder with a number.
* `format_number_ok`: a whole template with a number.
-/
namespace ContestGrading

/-- Any number can be filled in, and nothing is padded. -/
def Placeholder.fitsNumbers (p : Placeholder) : Bool :=
  p.width.isNone &&
    match p.conversion with
    | .exponential | .fixed => p.precision.all (· ≤ Template.digitLimit)
    | .significant => p.precision.all fun count => count ≠ 0 && count ≤ Template.digitLimit
    | .value => p.precision.isNone
    | _ => true

/-- The piece is literal, or a placeholder without a name that any number fits. -/
def Piece.fitsNumbers : Piece → Bool
  | .literal _ => true
  | .placeholder p => !(p.source matches .path _) && p.fitsNumbers

namespace Template

/-- Every placeholder looks at the first argument, and any number fits. -/
def FitsNumbers (pieces : List Piece) : Prop :=
  (∀ i ∈ places pieces, i = 1) ∧ ∀ piece ∈ pieces, piece.fitsNumbers = true

instance (pieces : List Piece) : Decidable (FitsNumbers pieces) :=
  inferInstanceAs (Decidable (_ ∧ _))

/-- The template can be read, and any number fits its pieces. -/
def isFilledByNumbers (t : Text) : Bool :=
  match parse t with
  | .ok pieces => FitsNumbers pieces
  | .error _ => false

variable {p : Placeholder} {precision : Option Nat} (x : Binary64)

/-! ## Conversions with a precision -/

theorem exponentialOf_ok (h : precision.all (· ≤ digitLimit) = true) :
    ∃ t, exponentialOf precision x = .ok t := by
  unfold exponentialOf
  split
  next => exact ⟨_, rfl⟩
  next places =>
    have hplaces : ¬ digitLimit < places := Nat.not_lt.mpr (by simpa using h)
    rw [if_neg hplaces]
    split <;> exact ⟨_, rfl⟩

theorem fixedOf_ok (h : precision.all (· ≤ digitLimit) = true) :
    ∃ t, fixedOf precision x = .ok t := by
  unfold fixedOf
  split
  next => exact ⟨_, rfl⟩
  next places =>
    have hplaces : ¬ digitLimit < places := Nat.not_lt.mpr (by simpa using h)
    rw [if_neg hplaces]
    exact ⟨_, rfl⟩

theorem significantOf_ok
    (h : (precision.all fun count => count ≠ 0 && count ≤ digitLimit) = true) :
    ∃ t, significantOf precision (some (.number x)) = .ok t := by
  cases precision with
  | none => exact ⟨_, rfl⟩
  | some count =>
    have hcount : ¬ (count = 0 ∨ digitLimit < count) := by
      simp only [Option.all_some, Bool.and_eq_true, decide_eq_true_eq] at h
      omega
    rw [significantOf, if_neg hcount]
    split <;> exact ⟨_, rfl⟩

theorem valueOf_ok (h : precision.isNone = true) :
    ∃ t, valueOf precision (some (.number x)) = .ok t := by
  obtain rfl := Option.isNone_iff_eq_none.mp h
  exact ⟨_, rfl⟩

/-! ## Placeholders and whole templates -/

theorem convert_number_ok (h : p.fitsNumbers = true) :
    ∃ t, convert p (some (.number x)) = .ok t := by
  obtain ⟨-, hprecision⟩ := Bool.and_eq_true_iff.mp h
  unfold convert
  cases hc : p.conversion <;> rw [hc] at hprecision
  case exponential => exact exponentialOf_ok x hprecision
  case fixed => exact fixedOf_ok x hprecision
  case significant => exact significantOf_ok x hprecision
  case value => exact valueOf_ok x hprecision
  all_goals exact ⟨_, rfl⟩

theorem fillPlaceholder_number_ok (h : p.fitsNumbers = true) :
    ∃ filled, fillPlaceholder p (some (.number x)) = .ok filled := by
  obtain ⟨t, ht⟩ := convert_number_ok x h
  obtain ⟨hwidth, -⟩ := Bool.and_eq_true_iff.mp h
  have hfill : fillPlaceholder p (some (.number x)) =
      if p.conversion = .json then .ok t
      else .ok (pad p (splitSign p (some (.number x)) t).1 (splitSign p (some (.number x)) t).2) := by
    simp [fillPlaceholder, ht, Option.isNone_iff_eq_none.mp hwidth, bind, Except.bind, pure,
      Except.pure]
  rw [hfill]
  split <;> exact ⟨_, rfl⟩

theorem resolve_number {turn : Nat} {source : Source} (hs : (source matches .path _) = false)
    (hplace : source.place turn = 1) :
    resolve [.number x] turn source = .ok (some (.number x), source.turnAfter turn) := by
  cases source with
  | next =>
    obtain rfl : turn = 0 := Nat.succ.inj hplace
    rfl
  | position index =>
    obtain rfl : index = 1 := hplace
    rfl
  | path keys => cases hs

theorem fillPiece_number_ok {p : Placeholder} {turn : Nat}
    (h : (Piece.placeholder p).fitsNumbers = true) (hplace : p.source.place turn = 1) :
    ∃ filled,
      fillPiece [.number x] turn (.placeholder p) = .ok (filled, p.source.turnAfter turn) := by
  obtain ⟨hs, hfits⟩ := Bool.and_eq_true_iff.mp h
  obtain ⟨filled, hfilled⟩ := fillPlaceholder_number_ok x hfits
  refine ⟨filled, ?_⟩
  rw [fillPiece, resolve_number x (by simpa using hs) hplace]
  show (fillPlaceholder p (some (.number x)) >>= fun filled => pure (filled, _)) = _
  rw [hfilled]
  rfl

/-- The pieces to come are filled with a number. -/
theorem fillFrom_number_ok {pieces : List Piece} {turn : Nat}
    (hplaces : ∀ i ∈ placesFrom turn pieces, i = 1)
    (hfits : ∀ piece ∈ pieces, piece.fitsNumbers = true) :
    ∃ text, fillFrom [.number x] turn pieces = .ok text := by
  induction pieces generalizing turn with
  | nil => exact ⟨[], rfl⟩
  | cons piece rest ih =>
    obtain ⟨hpiece, hrest⟩ := List.forall_mem_cons.mp hfits
    have hone : ∃ filled next, fillPiece [.number x] turn piece = .ok (filled, next) ∧
        ∀ i ∈ placesFrom next rest, i = 1 := by
      cases piece with
      | literal t => exact ⟨_, _, rfl, hplaces⟩
      | placeholder p =>
        obtain ⟨hplace, hplaces⟩ := List.forall_mem_cons.mp hplaces
        obtain ⟨filled, hfilled⟩ := fillPiece_number_ok x hpiece hplace
        exact ⟨filled, _, hfilled, hplaces⟩
    obtain ⟨filled, next, hfilled, hplaces⟩ := hone
    obtain ⟨others, hothers⟩ := ih hplaces hrest
    refine ⟨filled ++ others, ?_⟩
    rw [fillFrom_cons hfilled, hothers]
    rfl

/-- A template that any number fits is filled with any number. -/
theorem format_number_ok {t : Text} (h : isFilledByNumbers t = true) :
    ∃ text, format t [.number x] = .ok text := by
  unfold isFilledByNumbers at h
  split at h
  next pieces hparse =>
    obtain ⟨hplaces, hfits⟩ := of_decide_eq_true h
    obtain ⟨text, htext⟩ := @fillFrom_number_ok x pieces 0 hplaces hfits
    exact ⟨text, (format_of_parse hparse _).trans htext⟩
  next => cases h

end Template

end ContestGrading
