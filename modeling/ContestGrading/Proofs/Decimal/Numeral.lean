import ContestGrading.Decimal.General
import ContestGrading.Decimal.Numeral
import ContestGrading.Proofs.Decimal.Digits
import Mathlib.Data.List.DropRight
import Mathlib.Data.List.TakeDrop
/-!
# Numerals read back

The notations of a number are a sign, digits with a point among them and an
exponent. Reading such a text gives the digits, the place of the point and
the exponent back; dropping zeros at the end takes digits off the end of the
fraction and nothing else.

Results:
* `readUnsigned?_numeral`: digits, point and exponent are read back.
* `ofText?_numeral`: so is a whole text, with its sign.
* `dropTrailingZeros_numeral`: what is left of a fraction.
-/
namespace ContestGrading.Decimal

/-- The decimal that a whole text is the numeral of. -/
def ofText? (t : Text) : Option Decimal :=
  match readUnsigned? (readSign t).1 (readSign t).2 with
  | some (d, []) => some d
  | _ => none

/-- The digits of a numeral. -/
def AreDigits (ds : List Nat) : Prop := ∀ d ∈ ds, d < 10

/-- The point and the digits after it, if there are any. -/
def pointed : List Nat → Text
  | [] => []
  | d :: ds => 46 :: digitText (d :: ds)

theorem pointed_of_ne_nil {ds : List Nat} (h : ds ≠ []) : pointed ds = 46 :: digitText ds := by
  cases ds with
  | nil => exact absurd rfl h
  | cons d ds => rfl

/-! ## Single units -/

def digitUnit (d : Nat) : UInt16 := UInt16.ofNat (48 + d)

theorem digitUnit_facts : ∀ d < 10, Text.isDigit (digitUnit d) = true ∧
    (digitUnit d).toNat - 48 = d ∧ digitUnit d ≠ 43 ∧ digitUnit d ≠ 45 ∧ digitUnit d ≠ 46 ∧
    ((digitUnit d == 48) = (d == 0)) := by decide

theorem digitText_cons (d : Nat) (ds : List Nat) :
    digitText (d :: ds) = digitUnit d :: digitText ds := rfl

theorem digitText_append (ds es : List Nat) :
    digitText (ds ++ es) = digitText ds ++ digitText es := List.map_append

theorem digitText_reverse (ds : List Nat) : (digitText ds).reverse = digitText ds.reverse :=
  List.map_reverse.symm

theorem length_digitText (ds : List Nat) : (digitText ds).length = ds.length := List.length_map _

theorem not_mem_digitText {u : UInt16} (hu : ∀ d < 10, digitUnit d ≠ u) {ds : List Nat}
    (h : AreDigits ds) : u ∉ digitText ds := by
  intro hmem
  obtain ⟨d, hd, he⟩ := List.mem_map.mp hmem
  exact hu d (h d hd) he

theorem point_not_mem_digitText {ds : List Nat} (h : AreDigits ds) : 46 ∉ digitText ds :=
  not_mem_digitText (by decide) h

/-! ## Reading digits -/

/-- The text does not go on with a digit. -/
def NoDigitHead (t : Text) : Prop := ∀ u rest, t = u :: rest → Text.isDigit u = false

theorem noDigitHead_nil : NoDigitHead [] := nofun

theorem noDigitHead_cons {u : UInt16} {t : Text} (h : Text.isDigit u = false) :
    NoDigitHead (u :: t) := by
  intro v rest e
  cases e
  exact h

theorem span_digitText {ds : List Nat} (h : AreDigits ds) {rest : Text} (hr : NoDigitHead rest) :
    (digitText ds ++ rest).span Text.isDigit = (digitText ds, rest) := by
  rw [List.span_eq_takeWhile_dropWhile]
  induction ds with
  | nil =>
    cases rest with
    | nil => rfl
    | cons u rest =>
      have hu := hr u rest rfl
      show ((u :: rest).takeWhile _, (u :: rest).dropWhile _) = _
      rw [List.takeWhile_cons_of_neg (by simp [hu]), List.dropWhile_cons_of_neg (by simp [hu])]
      rfl
  | cons d ds ih =>
    obtain ⟨hd, hds⟩ := List.forall_mem_cons.mp h
    have hdigit := (digitUnit_facts d hd).1
    obtain ⟨h1, h2⟩ := Prod.mk.inj (ih hds)
    rw [digitText_cons, List.cons_append, List.takeWhile_cons_of_pos hdigit,
      List.dropWhile_cons_of_pos hdigit, h1, h2]

/-- Digits are read back up to where they end. -/
theorem spanDigits_digitText {ds : List Nat} (h : AreDigits ds) {rest : Text}
    (hr : NoDigitHead rest) : spanDigits (digitText ds ++ rest) = (ds, rest) := by
  have hvalues : (digitText ds).map (fun u => u.toNat - 48) = ds := by
    rw [digitText, List.map_map]
    exact (List.map_congr_left fun d hd => (digitUnit_facts d (h d hd)).2.1).trans (List.map_id _)
  rw [spanDigits, span_digitText h hr]
  exact Prod.ext hvalues rfl

/-! ## Reading a numeral -/

/-- The text goes on with neither a digit nor a point. -/
def Ends (t : Text) : Prop := NoDigitHead t ∧ ∀ rest, t ≠ 46 :: rest

/-- Digits, a point and an exponent are read back. -/
theorem readUnsigned?_numeral (negative : Bool) {whole fraction : List Nat} (hw : AreDigits whole)
    (hf : AreDigits fraction) (hne : whole ≠ []) {rest : Text} (hr : Ends rest) :
    readUnsigned? negative (digitText whole ++ (pointed fraction ++ rest)) =
      some (⟨negative, ofDigits (whole ++ fraction), (readExponent rest).1 - fraction.length⟩,
        (readExponent rest).2) := by
  have hwhole : spanDigits (digitText whole ++ (pointed fraction ++ rest)) =
      (whole, pointed fraction ++ rest) := by
    refine spanDigits_digitText hw ?_
    cases fraction with
    | nil => exact hr.1
    | cons d ds => exact noDigitHead_cons (by decide)
  have hempty : whole.isEmpty = false := by simpa using hne
  unfold readUnsigned?
  rw [hwhole]
  dsimp only
  cases fraction with
  | nil =>
    cases rest with
    | nil => simp [pointed, hempty]
    | cons u rest =>
      have hu : u ≠ 46 := fun h => hr.2 rest (by rw [h])
      simp [pointed, hempty, hu]
  | cons d ds =>
    have hfraction : spanDigits (digitText (d :: ds) ++ rest) = (d :: ds, rest) :=
      spanDigits_digitText hf hr.1
    simp only [pointed, List.cons_append, hfraction, hempty, Bool.false_and, Bool.false_eq_true,
      if_false]

theorem readSign_signText (negative : Bool) {ds : List Nat} (h : AreDigits ds) (hne : ds ≠ [])
    (rest : Text) :
    readSign (signText negative ++ (digitText ds ++ rest)) = (negative, digitText ds ++ rest) := by
  cases negative with
  | true => rfl
  | false =>
    obtain ⟨d, ds, rfl⟩ := List.exists_cons_of_ne_nil hne
    obtain ⟨-, -, hplus, hminus, -⟩ := digitUnit_facts d (h d (List.mem_cons_self ..))
    show readSign (digitUnit d :: (digitText ds ++ rest)) = _
    unfold readSign
    split
    next heq => exact absurd (List.cons.inj heq).1 hplus
    next heq => exact absurd (List.cons.inj heq).1 hminus
    next => rfl

theorem isBlank_digitUnit : ∀ d < 10, Text.isBlank (digitUnit d) = false := by decide

/-- A numeral does not start with a blank. -/
theorem trimStart_numeral (negative : Bool) {ds : List Nat} (h : AreDigits ds) (hne : ds ≠ [])
    (rest : Text) :
    (signText negative ++ (digitText ds ++ rest)).trimStart =
      signText negative ++ (digitText ds ++ rest) := by
  cases negative with
  | true => exact List.dropWhile_cons_of_neg (by decide)
  | false =>
    obtain ⟨d, ds, rfl⟩ := List.exists_cons_of_ne_nil hne
    have hblank := isBlank_digitUnit d (h d (List.mem_cons_self ..))
    exact List.dropWhile_cons_of_neg (ne_true_of_eq_false hblank)

/-- A whole text is read back, with its sign. -/
theorem ofText?_numeral (negative : Bool) {whole fraction : List Nat} (hw : AreDigits whole)
    (hf : AreDigits fraction) (hne : whole ≠ []) {rest : Text} (hr : Ends rest)
    (hread : (readExponent rest).2 = []) :
    ofText? (signText negative ++ (digitText whole ++ (pointed fraction ++ rest))) =
      some ⟨negative, ofDigits (whole ++ fraction), (readExponent rest).1 - fraction.length⟩ := by
  rw [ofText?, readSign_signText negative hw hne]
  dsimp only
  rw [readUnsigned?_numeral negative hw hf hne hr, hread]

/-! ## Padded digits and exponents -/

/-- The digits of `n`, with zeros in front up to `width`. -/
def paddedDigits (width n : Nat) : List Nat :=
  List.replicate (width - digitCount n) 0 ++ digits n

theorem padZeros_natText (width n : Nat) :
    padZeros width (natText n) = digitText (paddedDigits width n) := by
  have hzeros : ∀ k, zeros k = digitText (List.replicate k 0) := by
    intro k
    rw [digitText, List.map_replicate]
    rfl
  rw [padZeros, natText, length_digitText, hzeros, paddedDigits, digitText_append]
  rfl

theorem areDigits_paddedDigits (width n : Nat) : AreDigits (paddedDigits width n) := by
  intro d hd
  rcases List.mem_append.mp hd with hd | hd
  · rw [(List.mem_replicate.mp hd).2]
    decide
  · exact digit_lt hd

theorem ofDigits_paddedDigits (width n : Nat) : ofDigits (paddedDigits width n) = n := by
  rw [paddedDigits, ofDigits_append, ofDigits_replicate, ofDigits_digits, Nat.zero_mul,
    Nat.zero_add]

theorem length_paddedDigits (width n : Nat) :
    (paddedDigits width n).length = max width (digitCount n) := by
  rw [paddedDigits, List.length_append, List.length_replicate, ← digitCount]
  omega

theorem paddedDigits_ne_nil (width n : Nat) : paddedDigits width n ≠ [] :=
  List.append_ne_nil_of_right_ne_nil _ (digits_ne_nil n)

theorem readExponent_exponentText (width : Nat) (exponent : Int) :
    readExponent (exponentText width exponent) = (exponent, []) := by
  have hspan : spanDigits (padZeros width (natText exponent.natAbs)) =
      (paddedDigits width exponent.natAbs, []) := by
    have := spanDigits_digitText (areDigits_paddedDigits width exponent.natAbs) noDigitHead_nil
    rwa [List.append_nil, ← padZeros_natText] at this
  obtain ⟨d, ds, hds⟩ := List.exists_cons_of_ne_nil (paddedDigits_ne_nil width exponent.natAbs)
  have hvalue : ofDigits (d :: ds) = exponent.natAbs := by rw [← hds, ofDigits_paddedDigits]
  rw [hds] at hspan
  have hsigned : (if exponent < 0 then -(exponent.natAbs : Int) else exponent.natAbs) =
      exponent := by
    split <;> omega
  by_cases h : exponent < 0
  · rw [if_pos h] at hsigned
    simp only [exponentText, h, if_true, readExponent, List.cons_append, List.nil_append, hspan,
      hvalue, hsigned, true_or]
  · rw [if_neg h] at hsigned
    simp only [exponentText, h, if_false, readExponent, List.cons_append, List.nil_append, hspan,
      hvalue, hsigned, true_or, Bool.false_eq_true, if_true]

theorem ends_exponentText (width : Nat) (exponent : Int) : Ends (exponentText width exponent) :=
  ⟨noDigitHead_cons (by decide), fun _ h => by cases h⟩

theorem ends_nil : Ends [] := ⟨noDigitHead_nil, nofun⟩

/-! ## Zeros at the end -/

/-- The digits without the zeros at their end. -/
def stripped (ds : List Nat) : List Nat := ds.rdropWhile (· == 0)

theorem stripped_append (ds : List Nat) : ∃ k, stripped ds ++ List.replicate k 0 = ds := by
  have hzeros : ds.rtakeWhile (· == 0) = List.replicate (ds.rtakeWhile (· == 0)).length 0 := by
    rw [List.eq_replicate_iff]
    exact ⟨rfl, fun d hd => by simpa using List.mem_rtakeWhile_imp hd⟩
  exact ⟨_, by rw [stripped, ← hzeros, List.rdropWhile_append_rtakeWhile]⟩

/-- Each zero at the end is a factor of ten. -/
theorem ofDigits_append_stripped (ds es : List Nat) :
    ∃ k, es.length = (stripped es).length + k ∧
      ofDigits (ds ++ es) = ofDigits (ds ++ stripped es) * 10 ^ k := by
  obtain ⟨k, hk⟩ := stripped_append es
  refine ⟨k, ?_, ?_⟩
  · conv_lhs => rw [← hk]
    rw [List.length_append, List.length_replicate]
  · conv_lhs => rw [← hk]
    rw [← List.append_assoc, ofDigits_append, ofDigits_replicate, List.length_replicate,
      Nat.add_zero]

theorem areDigits_stripped {ds : List Nat} (h : AreDigits ds) : AreDigits (stripped ds) :=
  fun d hd => h d ((List.rdropWhile_prefix _ _).subset hd)

theorem dropWhile_digitText {ds : List Nat} (h : AreDigits ds) (rest : Text) :
    (digitText ds ++ 46 :: rest).dropWhile (· == 48) =
      digitText (ds.dropWhile (· == 0)) ++ 46 :: rest := by
  induction ds with
  | nil => rfl
  | cons d ds ih =>
    obtain ⟨hd, hds⟩ := List.forall_mem_cons.mp h
    have hzero := (digitUnit_facts d hd).2.2.2.2.2
    rw [digitText_cons, List.cons_append, List.dropWhile_cons, List.dropWhile_cons, hzero, ih hds]
    split <;> rfl

/-- Dropped from behind, the zeros end at a digit or the point. -/
theorem dropWhile_reverse_numeral (front : Text) {fraction : List Nat} (hf : AreDigits fraction) :
    (front ++ 46 :: digitText fraction).reverse.dropWhile (· == 48) =
      digitText (stripped fraction).reverse ++ 46 :: front.reverse := by
  have hdigits : AreDigits fraction.reverse := fun d hd => hf d (List.mem_reverse.mp hd)
  have := dropWhile_digitText hdigits front.reverse
  rw [stripped, List.rdropWhile, List.reverse_reverse, ← this]
  simp [digitText_reverse]

/-- Dropping zeros shortens the fraction, and drops the point with its last digit. -/
theorem dropTrailingZeros_numeral {front : Text} (hfront : 46 ∉ front) {fraction : List Nat}
    (hf : AreDigits fraction) :
    dropTrailingZeros (front ++ pointed fraction) = front ++ pointed (stripped fraction) := by
  by_cases hne : fraction = []
  · subst hne
    apply dropTrailingZeros_of_no_point
    simpa [pointed] using hfront
  · have hcontains : (front ++ 46 :: digitText fraction).contains 46 = true := by simp
    rw [pointed_of_ne_nil hne, dropTrailingZeros, if_pos hcontains,
      dropWhile_reverse_numeral front hf]
    dsimp only
    split
    next hlen =>
      -- nothing was dropped
      have hself : stripped fraction = fraction := by
        apply (List.rdropWhile_prefix _ _).eq_of_length
        simp only [List.length_append, List.length_cons, List.length_reverse,
          length_digitText] at hlen
        rw [← stripped]
        omega
      rw [hself, pointed_of_ne_nil hne]
    next =>
      cases hs : (stripped fraction).reverse with
      | nil =>
        have hnil : stripped fraction = [] := List.reverse_eq_nil_iff.mp hs
        rw [hnil]
        show front.reverse.reverse = front ++ []
        rw [List.reverse_reverse, List.append_nil]
      | cons d ds =>
        have hd : d < 10 :=
          areDigits_stripped hf d (List.mem_reverse.mp (hs ▸ List.mem_cons_self ..))
        have hpoint := (digitUnit_facts d hd).2.2.2.2.1
        have hback : stripped fraction = (d :: ds).reverse := by
          rw [← hs, List.reverse_reverse]
        rw [hback, pointed_of_ne_nil (by simp), digitText_cons]
        split
        next heq => exact absurd (List.cons.inj heq).1 hpoint
        next =>
          rw [← digitText_cons, List.reverse_append, digitText_reverse]
          simp

/-! ## Layouts -/

/-- Before the point there is a zero only if there is nothing else. -/
theorem head?_take_paddedDigits (places n : Nat) :
    ((paddedDigits (places + 1) n).take
        ((paddedDigits (places + 1) n).length - places)).head? = some 0 →
      ((paddedDigits (places + 1) n).take
        ((paddedDigits (places + 1) n).length - places)).length = 1 := by
  intro h
  rw [List.length_take]
  rw [List.head?_take, length_paddedDigits, if_neg (by omega), paddedDigits] at h
  rw [length_paddedDigits]
  rcases Nat.lt_or_ge (places + 1) (digitCount n) with hlt | hle
  · -- nothing is padded, and the first digit counts
    have hn : 0 < n := by
      by_contra hn
      rw [Nat.eq_zero_of_not_pos hn, digitCount_of_lt (by decide)] at hlt
      omega
    rw [Nat.sub_eq_zero_of_le hlt.le, List.replicate_zero, List.nil_append] at h
    exact absurd h (head?_digits_ne_zero hn)
  · omega

/-- The digits of a coefficient, cut where the point stands. -/
theorem fixedNotation_eq (d : Decimal) (places : Nat) :
    ∃ whole fraction, AreDigits whole ∧ AreDigits fraction ∧ whole ≠ [] ∧
      (whole.head? = some 0 → whole.length = 1) ∧ fraction.length = places ∧
      ofDigits (whole ++ fraction) = d.coefficient ∧
      d.fixedNotation places = signText d.negative ++ (digitText whole ++ pointed fraction) := by
  have hdigits := areDigits_paddedDigits (places + 1) d.coefficient
  have hvalue := ofDigits_paddedDigits (places + 1) d.coefficient
  have hlen := length_paddedDigits (places + 1) d.coefficient
  have htext := padZeros_natText (places + 1) d.coefficient
  have hhead := head?_take_paddedDigits places d.coefficient
  generalize paddedDigits (places + 1) d.coefficient = ds at hdigits hvalue hlen htext hhead
  refine ⟨ds.take (ds.length - places), ds.drop (ds.length - places), ?_, ?_, ?_, hhead, ?_, ?_, ?_⟩
  · intro e he
    exact hdigits e (List.mem_of_mem_take he)
  · intro e he
    exact hdigits e (List.mem_of_mem_drop he)
  · intro h
    have := congrArg List.length h
    rw [List.length_take, List.length_nil] at this
    omega
  · rw [List.length_drop]
    omega
  · rw [List.take_append_drop, hvalue]
  · rw [fixedNotation, htext]
    congr 1
    split
    next h => simp [h, pointed]
    next h =>
      have hdrop : ds.drop (ds.length - places) ≠ [] := by
        intro hnil
        have := congrArg List.length hnil
        rw [List.length_drop, List.length_nil] at this
        omega
      rw [length_digitText, pointed_of_ne_nil hdrop, digitText, digitText, digitText,
        List.map_take, List.map_drop]

theorem pointAfterFirst_digitText (d : Nat) (ds : List Nat) :
    pointAfterFirst (digitText (d :: ds)) = digitText [d] ++ pointed ds := by
  cases ds <;> rfl

end ContestGrading.Decimal
