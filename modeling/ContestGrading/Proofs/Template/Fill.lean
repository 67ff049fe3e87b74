import ContestGrading.Proofs.Decimal.Whole
import ContestGrading.Template.Fill
/-!
# Filling in whole numbers

A whole number below `2 ^ 53` is filled in as its digits, with its sign set
apart. So a template for a mantissa and an exponent writes the exponent with
its sign and at least two digits, and filling it never fails.

Results:
* `fillPlaceholder_ofInt`: a whole number in its width.
* `format_exponentialTemplate`: a mantissa and an exponent.
-/
namespace ContestGrading.Template

open Decimal (signText natText digits digitText exponentText)

/-! ## One placeholder -/

theorem textOf_number (x : Binary64) : textOf (some (.number x)) = x.toText := rfl

theorem integerOf_ofInt {n : Int} (h : n.natAbs < 2 ^ 53) :
    integerOf (some (.number (.ofInt n))) = .ofInt n := by
  rw [integerOf, textOf_number, Binary64.toText_ofInt h, Binary64.leadingInteger_numeral]

theorem dropSign_digitText {ds : List Nat} (h : Decimal.AreDigits ds) :
    dropSign (digitText ds) = digitText ds := by
  cases ds with
  | nil => rfl
  | cons d ds =>
    obtain ⟨-, -, hplus, hminus, -⟩ := Decimal.digitUnit_facts d (h d (List.mem_cons_self ..))
    show dropSign (Decimal.digitUnit d :: digitText ds) = _
    unfold dropSign
    split
    next heq => exact absurd (List.cons.inj heq).1 hplus
    next heq => exact absurd (List.cons.inj heq).1 hminus
    next => rfl

/-- What is filled in for a number is its converted text, its sign set apart. -/
theorem fillPlaceholder_number {p : Placeholder} (hp : p.conversion = .integer)
    (hw : p.width.getD 0 ≤ widthLimit) (x : Binary64) :
    fillPlaceholder p (some (.number x)) =
      .ok (pad p (splitSign p (some (.number x)) (integerOf (some (.number x))).toText).1
        (splitSign p (some (.number x)) (integerOf (some (.number x))).toText).2) := by
  simp [fillPlaceholder, convert, hp, Nat.not_lt.mpr hw, bind, Except.bind, pure, Except.pure]

/-- The sign that a whole number is filled in with. -/
def wholeSign (p : Placeholder) (n : Int) : Text :=
  if n < 0 then [45] else if p.plus then [43] else []

theorem splitSign_whole {p : Placeholder} (hp : p.conversion = .integer) {x : Binary64} {n : Int}
    (hx : Binary64.zero ≤ x ↔ 0 ≤ n) :
    splitSign p (some (.number x)) (signText (n < 0) ++ natText n.natAbs) =
      (wholeSign p n, natText n.natAbs) := by
  have hdigits : dropSign (natText n.natAbs) = natText n.natAbs :=
    dropSign_digitText fun d hd => Decimal.digit_lt hd
  simp only [splitSign, Option.elim_some, Argument.asNumber, hp, Conversion.isSigned, hx, wholeSign]
  by_cases hn : n < 0
  · have hle : ¬ 0 ≤ n := by omega
    simp only [hn, hle, decide_true, decide_false, Bool.not_false, Bool.true_or, Bool.true_and,
      if_true, if_false, Bool.false_eq_true]
    rfl
  · have hle : 0 ≤ n := by omega
    cases p.plus <;> simp [hn, hle, signText, hdigits]

/-- A whole number is filled in as a sign and its digits. -/
theorem fillPlaceholder_ofInt {p : Placeholder} (hp : p.conversion = .integer)
    (hw : p.width.getD 0 ≤ widthLimit) {n : Int} (h : n.natAbs < 2 ^ 53) :
    fillPlaceholder p (some (.number (.ofInt n))) =
      .ok (pad p (wholeSign p n) (natText n.natAbs)) := by
  rw [fillPlaceholder_number hp hw, integerOf_ofInt h, Binary64.toText_ofInt h,
    splitSign_whole hp (Binary64.zero_le_ofInt_iff h)]

/-! ## A mantissa and an exponent -/

/-- A text and the exponent of ten behind it. -/
def exponentialTemplate : Text := "%se%+03d"

def mantissaPlaceholder : Placeholder := ⟨.next, false, 32, false, none, none, .text⟩

def exponentPlaceholder : Placeholder := ⟨.next, true, 48, false, some 3, none, .integer⟩

theorem parse_exponentialTemplate :
    parse exponentialTemplate =
      .ok [.placeholder mantissaPlaceholder, .literal [101], .placeholder exponentPlaceholder] := by
  decide

theorem fillPlaceholder_mantissa (m : Text) :
    fillPlaceholder mantissaPlaceholder (some (.text m)) = .ok m :=
  congrArg Except.ok (pad_of_le (Nat.zero_le _))

/-- The exponent with its sign and at least two digits. -/
theorem pad_exponentPlaceholder (exponent : Int) :
    101 :: pad exponentPlaceholder (wholeSign exponentPlaceholder exponent)
      (natText exponent.natAbs) = exponentText 2 exponent := by
  have hsign : wholeSign exponentPlaceholder exponent = [if exponent < 0 then 45 else 43] := by
    rw [wholeSign]
    split <;> rfl
  rw [hsign]
  show 101 :: ([_] ++ List.replicate (3 - (1 + (natText exponent.natAbs).length)) 48 ++ _) = _
  rw [exponentText, Decimal.padZeros, Decimal.zeros,
    show 3 - (1 + (natText exponent.natAbs).length) = 2 - (natText exponent.natAbs).length by omega]
  rfl

/-- One piece after another. -/
theorem fillFrom_cons {args : List Argument} {turn next : Nat} {piece : Piece} {filled : Text}
    (hp : fillPiece args turn piece = .ok (filled, next)) (rest : List Piece) :
    fillFrom args turn (piece :: rest) = (fillFrom args next rest).map (filled ++ ·) := by
  rw [fillFrom, hp]
  rfl

theorem fillPiece_next {args : List Argument} {turn : Nat} {p : Placeholder} (hp : p.source = .next)
    {filled : Text} (hf : fillPlaceholder p args[turn]? = .ok filled) :
    fillPiece args turn (.placeholder p) = .ok (filled, turn + 1) := by
  rw [fillPiece, hp]
  show (fillPlaceholder p args[turn]? >>= fun filled => pure (filled, turn + 1)) = _
  rw [hf]
  rfl

/-- A template that can be read is filled piece by piece. -/
theorem format_of_parse {t : Text} {pieces : List Piece} (h : parse t = .ok pieces)
    (args : List Argument) : format t args = fill pieces args := by
  unfold format
  rw [h]
  rfl

/-- Filling in a mantissa and an exponent never fails. -/
theorem format_exponentialTemplate (m : Text) {exponent : Int} (h : exponent.natAbs < 2 ^ 53) :
    format exponentialTemplate [.text m, .number (.ofInt exponent)] =
      .ok (m ++ exponentText 2 exponent) := by
  generalize hargs : [Argument.text m, .number (.ofInt exponent)] = args
  have hmantissa : fillPiece args 0 (.placeholder mantissaPlaceholder) = .ok (m, 1) := by
    refine fillPiece_next rfl ?_
    rw [← hargs]
    exact fillPlaceholder_mantissa m
  have hexponent : fillPiece args 1 (.placeholder exponentPlaceholder) =
      .ok (pad exponentPlaceholder (wholeSign exponentPlaceholder exponent)
        (natText exponent.natAbs), 2) := by
    refine fillPiece_next rfl ?_
    rw [← hargs]
    exact fillPlaceholder_ofInt rfl (by decide) h
  rw [format_of_parse parse_exponentialTemplate, fill, fillFrom_cons hmantissa, fillFrom_cons rfl,
    fillFrom_cons hexponent, ← pad_exponentPlaceholder]
  show Except.ok (m ++ ([101] ++ (_ ++ []))) = _
  rw [List.append_nil, List.singleton_append]

end ContestGrading.Template
