import ContestGrading.Proofs.Outcome
import ContestGrading.Template.Fill
/-!
# Which arguments a template looks at

Filling a template looks at its arguments by their places: the next one in
turn, the one at a written position, or the first for a name. What stands at
any other place has no part in the text.

Results:
* `fillFrom_congr`, `fill_congr`: only the arguments at these places matter.
* `mem_placesFrom_of_next`: in turn, the arguments are taken one by one.
-/
namespace ContestGrading

namespace Source

/-- The place of the argument that is looked at, counted from one, when
`turn` arguments have been taken in turn. -/
def place (turn : Nat) : Source → Nat
  | .next => turn + 1
  | .position index => index
  | .path _ => 1

/-- How many arguments have been taken in turn then. -/
def turnAfter (turn : Nat) : Source → Nat
  | .next => turn + 1
  | .position _ | .path _ => turn

end Source

def Piece.isPlaceholder : Piece → Bool
  | .placeholder _ => true
  | .literal _ => false

namespace Template

/-- The places that filling these pieces looks at, piece by piece. -/
def placesFrom (turn : Nat) : List Piece → List Nat
  | [] => []
  | .literal _ :: rest => placesFrom turn rest
  | .placeholder p :: rest => p.source.place turn :: placesFrom (p.source.turnAfter turn) rest

def places (pieces : List Piece) : List Nat := placesFrom 0 pieces

/-- Filling the pieces looks at the first `n` arguments, all of them, and at
no other. -/
def ReadsExactly (pieces : List Piece) (n : Nat) : Prop := ∀ i, i ∈ places pieces ↔ 1 ≤ i ∧ i ≤ n

/-- At most one number of arguments is read exactly. -/
theorem ReadsExactly.unique {pieces : List Piece} {m n : Nat} (hm : ReadsExactly pieces m)
    (hn : ReadsExactly pieces n) : m = n := by
  have h : ∀ i, 1 ≤ i ∧ i ≤ m ↔ 1 ≤ i ∧ i ≤ n := fun i => (hm i).symm.trans (hn i)
  have hmn := h m
  have hnm := h n
  omega

/-! ## What filling depends on -/

variable {args args' : List Argument}

theorem resolve_congr {turn : Nat} {source : Source}
    (h : args[source.place turn - 1]? = args'[source.place turn - 1]?) :
    resolve args turn source = resolve args' turn source := by
  cases source with
  | next => rw [resolve, resolve, show args[turn]? = args'[turn]? from h]
  | position index => rw [resolve, resolve, show args[index - 1]? = args'[index - 1]? from h]
  | path keys =>
    have hhead : args.head? = args'.head? := by
      rw [List.head?_eq_getElem?, List.head?_eq_getElem?]
      exact h
    rw [resolve, resolve, hhead]

theorem turnAfter_of_resolve {turn next : Nat} {source : Source} {arg : Option Argument}
    (h : resolve args turn source = .ok (arg, next)) : next = source.turnAfter turn := by
  cases source with
  | next => cases h; rfl
  | position index => cases h; rfl
  | path keys =>
    rw [resolve] at h
    cases hf : follow args.head? none keys <;> rw [hf] at h <;> cases h
    rfl

theorem turnAfter_of_fillPiece {turn next : Nat} {p : Placeholder} {filled : Text}
    (h : fillPiece args turn (.placeholder p) = .ok (filled, next)) :
    next = p.source.turnAfter turn := by
  obtain ⟨⟨arg, next'⟩, hresolve, h⟩ := bind_eq_ok_iff.mp h
  obtain ⟨filled', -, h⟩ := bind_eq_ok_iff.mp h
  cases h
  exact turnAfter_of_resolve hresolve

/-- Pieces are filled alike where the arguments they look at are the same. -/
theorem fillFrom_congr {turn : Nat} {pieces : List Piece}
    (h : ∀ i ∈ placesFrom turn pieces, args[i - 1]? = args'[i - 1]?) :
    fillFrom args turn pieces = fillFrom args' turn pieces := by
  induction pieces generalizing turn with
  | nil => rfl
  | cons piece rest ih =>
    cases piece with
    | literal t =>
      rw [fillFrom, fillFrom, fillPiece, fillPiece]
      simp only [bind, Except.bind, ih h]
    | placeholder p =>
      obtain ⟨hp, hrest⟩ := List.forall_mem_cons.mp h
      have hpiece : fillPiece args turn (.placeholder p) = fillPiece args' turn (.placeholder p) := by
        rw [fillPiece, fillPiece, resolve_congr hp]
      rw [fillFrom, fillFrom, hpiece]
      cases hf : fillPiece args' turn (.placeholder p) with
      | error e => rfl
      | ok found =>
        obtain ⟨filled, next⟩ := found
        obtain rfl := turnAfter_of_fillPiece hf
        simp only [bind, Except.bind, ih hrest]

theorem fill_congr {pieces : List Piece}
    (h : ∀ i ∈ places pieces, args[i - 1]? = args'[i - 1]?) : fill pieces args = fill pieces args' := by
  rw [fill, fill, fillFrom_congr h]

/-! ## Arguments in turn -/

theorem mem_placesFrom_of_next {turn : Nat} {pieces : List Piece}
    (h : ∀ p, .placeholder p ∈ pieces → p.source = .next) {i : Nat} :
    i ∈ placesFrom turn pieces ↔ turn < i ∧ i ≤ turn + pieces.countP (·.isPlaceholder) := by
  induction pieces generalizing turn with
  | nil =>
    simp only [placesFrom, List.not_mem_nil, List.countP_nil, false_iff]
    omega
  | cons piece rest ih =>
    have hrest := fun turn => @ih turn fun p hp => h p (List.mem_cons_of_mem _ hp)
    cases piece with
    | literal t =>
      rw [placesFrom, hrest, List.countP_cons_of_neg (by simp [Piece.isPlaceholder])]
    | placeholder p =>
      rw [placesFrom, h p (List.mem_cons_self ..), List.mem_cons, List.countP_cons_of_pos rfl]
      simp only [Source.place, Source.turnAfter, hrest]
      omega

end Template

end ContestGrading
