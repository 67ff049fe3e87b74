import ContestGrading.Proofs.Pattern.Outline
/-!
# Units and names before a closing parenthesis

A reader that looks at a text from its front reads the same if a closing
parenthesis follows, unless it comes to the end too early: then it finds
nothing in the text alone, and may take the parenthesis in otherwise. That is
`Enclosed`; here it is shown of the readers of single units and of names,
together with what they leave over.

Results:
* `span_closing`: a run of units that are no parenthesis.
* `enclosed_readHexUnit?`, `enclosed_readUnitEscape?`: units.
* `enclosed_readName?`: the names of groups.
-/
namespace ContestGrading.Pattern

/-- What a reader makes of a text, and of the text with a closing parenthesis
behind it: the same with the parenthesis left over, or nothing; or it takes
the parenthesis in where the text alone ends too early. -/
inductive Enclosed {α : Type} (left : α → Text → Prop) (mayClose : Prop) :
    Option (α × Text) → Option (α × Text) → Prop where
  | read {x : α} {rest : Text} (h : left x rest) :
    Enclosed left mayClose (some (x, rest)) (some (x, rest ++ [41]))
  | refused : Enclosed left mayClose none none
  | closed (h : mayClose) (x : α) : Enclosed left mayClose none (some (x, []))

namespace Enclosed

variable {α β : Type} {left : α → Text → Prop} {mayClose : Prop} {a b : Option (α × Text)}

theorem imp {left' : α → Text → Prop} {mayClose' : Prop} (h : Enclosed left mayClose a b)
    (hl : ∀ x rest, left x rest → left' x rest) (hm : mayClose → mayClose') :
    Enclosed left' mayClose' a b := by
  cases h with
  | read h => exact .read (hl _ _ h)
  | refused => exact .refused
  | closed h x => exact .closed (hm h) x

/-- What is read may be taken for something else. -/
theorem map {left' : β → Text → Prop} (h : Enclosed left mayClose a b) (f : α → β)
    (hl : ∀ x rest, left x rest → left' (f x) rest) :
    Enclosed left' mayClose (a.map fun p => (f p.1, p.2)) (b.map fun p => (f p.1, p.2)) := by
  cases h with
  | read h => exact .read (hl _ _ h)
  | refused => exact .refused
  | closed h x => exact .closed h (f x)

end Enclosed

/-- What is left of `t` is shorter, and the part read opens no group. -/
def Advanced (c : Bool) (t rest : Text) : Prop := Passed c t c rest ∧ rest.length < t.length

/-- Once advanced, what is passed may be nothing. -/
theorem Advanced.trans {c : Bool} {t rest after : Text} (h : Advanced c t rest)
    (h' : Passed c rest c after) : Advanced c t after :=
  ⟨h.1.trans h', Nat.lt_of_le_of_lt h'.length_le h.2⟩

theorem advanced_plain (c : Bool) {u : UInt16} (hu : IsPlain u) (rest : Text) :
    Advanced c (u :: rest) rest := ⟨Passed.plain c hu rest, Nat.lt_succ_self _⟩

theorem advanced_escape (c : Bool) (u : UInt16) (rest : Text) :
    Advanced c (92 :: u :: rest) rest :=
  ⟨Passed.escape c u rest, by simp only [List.length_cons]; omega⟩

/-! ## A closing parenthesis behind a text -/

theorem dropWhile_closing {p : UInt16 → Bool} (hp : p 41 = false) (t : Text) :
    (t ++ [41]).dropWhile p = t.dropWhile p ++ [41] := by
  induction t with
  | nil => simp [hp]
  | cons u t ih =>
    rw [List.cons_append, List.dropWhile_cons, List.dropWhile_cons, ih]
    split
    next => rfl
    next => rw [List.cons_append]

theorem takeWhile_closing {p : UInt16 → Bool} (hp : p 41 = false) (t : Text) :
    (t ++ [41]).takeWhile p = t.takeWhile p := by
  induction t with
  | nil => simp [hp]
  | cons u t ih => rw [List.cons_append, List.takeWhile_cons, List.takeWhile_cons, ih]

/-- A run of units that are no parenthesis ends where it ended. -/
theorem span_closing {p : UInt16 → Bool} (hp : p 41 = false) (t : Text) :
    (t ++ [41]).span p = (t.takeWhile p, t.dropWhile p ++ [41]) := by
  rw [List.span_eq_takeWhile_dropWhile, takeWhile_closing hp, dropWhile_closing hp]

/-! ## Hexadecimal digits -/

theorem isPlain_of_isDigit {u : UInt16} (h : Text.isDigit u = true) : IsPlain u := by
  refine ⟨?_, ?_, ?_, ?_⟩ <;> (rintro rfl; cases h)

theorem isPlain_of_hexValue? {u : UInt16} (h : (Text.hexValue? u).isSome = true) :
    IsPlain u := by
  refine ⟨?_, ?_, ?_, ?_⟩ <;> (rintro rfl; cases h)

theorem hexValue?_closing : Text.hexValue? 41 = none := rfl

theorem isPlain_of_mapM_hexValue? {w : Text} {ds : List Nat}
    (h : w.mapM Text.hexValue? = some ds) : ∀ u ∈ w, IsPlain u := by
  induction w generalizing ds with
  | nil => simp
  | cons u w ih =>
    simp only [List.mapM_cons, Option.bind_eq_bind, Option.bind_eq_some_iff] at h
    obtain ⟨d, hd, ds, hds, -⟩ := h
    exact List.forall_mem_cons.mpr ⟨isPlain_of_hexValue? (hd ▸ rfl), ih hds⟩

theorem enclosed_readHexUnit? (c : Bool) (t : Text) :
    Enclosed (fun _ => Advanced c t) False (readHexUnit? t) (readHexUnit? (t ++ [41])) := by
  match t with
  | [] => exact .refused
  | [x] => exact .refused
  | [x, y] => exact .refused
  | [x, y, z] =>
    have hnone : readHexUnit? ([x, y, z] ++ [41]) = none := by
      simp [readHexUnit?, hexValue?_closing]
    rw [hnone]
    exact .refused
  | x :: y :: z :: w :: rest =>
    simp only [List.cons_append, readHexUnit?]
    cases h : [x, y, z, w].mapM Text.hexValue? with
    | none => exact .refused
    | some ds =>
      exact .read ⟨Passed.plains c (isPlain_of_mapM_hexValue? h) rest,
        by simp only [List.length_cons]; omega⟩

theorem readLowEscape?_eq_none {t : Text} (h : ∀ rest, t ≠ 92 :: 117 :: rest) :
    readLowEscape? t = none := by
  unfold readLowEscape?
  split
  next => exact absurd rfl (h _)
  next => rfl

theorem enclosed_readLowEscape? (c : Bool) (t : Text) :
    Enclosed (fun _ => Advanced c t) False (readLowEscape? t) (readLowEscape? (t ++ [41])) := by
  by_cases ht : ∃ rest, t = 92 :: 117 :: rest
  · obtain ⟨rest, rfl⟩ := ht
    simp only [List.cons_append, readLowEscape?]
    have h := enclosed_readHexUnit? c rest
    generalize readHexUnit? rest = x, readHexUnit? (rest ++ [41]) = y at h
    cases h with
    | read h =>
      simp only [Option.filter]
      split
      next => exact .read ((advanced_escape c 117 rest).trans h.1)
      next => exact .refused
    | refused => exact .refused
    | closed h => exact h.elim
  · rw [readLowEscape?_eq_none fun rest he => ht ⟨rest, he⟩, readLowEscape?_eq_none]
    · exact .refused
    · intro rest he
      match t with
      | [] => cases he
      | [u] => cases he
      | u :: v :: t => cases he; exact ht ⟨t, rfl⟩

/-! ## Names -/

theorem readNamePoint?_refused {rest : Text} (h : rest.head? ≠ some 117) :
    readNamePoint? (92 :: rest) = none := by
  unfold readNamePoint?
  split
  next he => cases he; exact absurd rfl h
  next he => cases he; exact absurd rfl h
  next => rfl
  next hu he => exact absurd (List.cons.inj he).1.symm hu
  next hu he => exact absurd (List.cons.inj he).1.symm hu
  next he => cases he

theorem readNamePoint?_escape {rest : Text} (h : rest.head? ≠ some 123) :
    readNamePoint? (92 :: 117 :: rest) = (readHexUnit? rest).bind fun found =>
      match readLowEscape? found.2 with
      | some (v, after) =>
        if Text.isHighSurrogate found.1 then some (pairPoint found.1 v, after)
        else some (found.1.toNat, found.2)
      | none => some (found.1.toNat, found.2) := by
  unfold readNamePoint?
  split
  next he => cases he; exact absurd rfl h
  next he => cases he; rfl
  next hu he => exact (hu _ (List.cons.inj he).2.symm).elim
  next hu he => exact absurd (List.cons.inj he).1.symm hu
  next hu he => exact absurd (List.cons.inj he).1.symm hu
  next he => cases he

theorem readNamePoint?_unit {u : UInt16} (hu : u ≠ 92) (rest : Text) :
    readNamePoint? (u :: rest) =
      match rest with
      | v :: after =>
        if Text.isHighSurrogate u && Text.isLowSurrogate v then some (pairPoint u v, after)
        else some (u.toNat, rest)
      | [] => some (u.toNat, []) := by
  unfold readNamePoint?
  split
  next he => exact absurd (List.cons.inj he).1 hu
  next he => exact absurd (List.cons.inj he).1 hu
  next he => exact absurd (List.cons.inj he).1 hu
  next he => cases he; rfl
  next he => cases he; rfl
  next he => cases he

theorem passed_hexDigits (c : Bool) (rest : Text) :
    Passed c rest c (rest.dropWhile fun u => (Text.hexValue? u).isSome) :=
  Passed.dropWhile (fun _ => isPlain_of_hexValue?) c rest

theorem enclosed_bracedPoint (c : Bool) (rest : Text) :
    Enclosed (fun _ => Advanced c (92 :: 117 :: 123 :: rest)) False
      (readNamePoint? (92 :: 117 :: 123 :: rest))
      (readNamePoint? (92 :: 117 :: 123 :: (rest ++ [41]))) := by
  have hpassed := passed_hexDigits c rest
  simp only [readNamePoint?, span_closing (p := fun u => (Text.hexValue? u).isSome) rfl,
    List.span_eq_takeWhile_dropWhile]
  generalize rest.takeWhile (fun u => (Text.hexValue? u).isSome) = ds,
    rest.dropWhile (fun u => (Text.hexValue? u).isSome) = after at hpassed ⊢
  cases ds with
  | nil => exact .refused
  | cons d ds =>
    cases after with
    | nil => exact .refused
    | cons v after =>
      by_cases hv : v = 125
      · subst hv
        exact .read ((advanced_escape c 117 _).trans ((Passed.plain c (by decide) rest).trans
          (hpassed.trans (Passed.plain c (by decide) after))))
      · simp only [List.cons_append]
        split
        next he => cases he
        next he _ => exact absurd (List.cons.inj he).1 hv
        next =>
          split
          next he => cases he
          next he _ => exact absurd (List.cons.inj he).1 hv
          next => exact .refused

theorem enclosed_escapedPoint (c : Bool) {rest : Text} (h : rest.head? ≠ some 123) :
    Enclosed (fun _ => Advanced c (92 :: 117 :: rest)) False
      (readNamePoint? (92 :: 117 :: rest)) (readNamePoint? (92 :: 117 :: (rest ++ [41]))) := by
  rw [readNamePoint?_escape h, readNamePoint?_escape (head?_closing (by decide) h)]
  have hhigh := enclosed_readHexUnit? c rest
  generalize readHexUnit? rest = x, readHexUnit? (rest ++ [41]) = y at hhigh
  cases hhigh with
  | refused => exact .refused
  | closed h => exact h.elim
  | @read u after hhigh =>
    have hwhole : Advanced c (92 :: 117 :: rest) after :=
      (advanced_escape c 117 rest).trans hhigh.1
    have hlow := enclosed_readLowEscape? c after
    simp only [Option.bind_some]
    generalize readLowEscape? after = x, readLowEscape? (after ++ [41]) = y at hlow
    cases hlow with
    | refused => exact .read hwhole
    | closed h => exact h.elim
    | @read v last hlow =>
      dsimp only
      split
      next => exact .read (hwhole.trans hlow.1)
      next => exact .read hwhole

theorem isPlain_of_surrogates {u v : UInt16}
    (h : (Text.isHighSurrogate u && Text.isLowSurrogate v) = true) : IsPlain u ∧ IsPlain v := by
  obtain ⟨hu, hv⟩ := Bool.and_eq_true_iff.mp h
  refine ⟨⟨?_, ?_, ?_, ?_⟩, ?_, ?_, ?_, ?_⟩ <;> rintro rfl
  all_goals first | cases hu | cases hv

/-- A code point is read the same before a closing parenthesis; no group is
opened unless it is a bracket or a parenthesis itself. -/
theorem enclosed_readNamePoint? {t : Text} (ht : t ≠ []) :
    Enclosed (fun n rest => (n ≠ 40 ∧ n ≠ 91 → Passed false t false rest) ∧
      rest.length < t.length) False (readNamePoint? t) (readNamePoint? (t ++ [41])) := by
  obtain ⟨u, t, rfl⟩ := List.exists_cons_of_ne_nil ht
  by_cases hu : u = 92
  · subst hu
    rw [List.cons_append]
    by_cases hv : t.head? = some 117
    · obtain ⟨rest, rfl⟩ := List.head?_eq_some_iff.mp hv
      by_cases hw : rest.head? = some 123
      · obtain ⟨rest, rfl⟩ := List.head?_eq_some_iff.mp hw
        exact (enclosed_bracedPoint false rest).imp (fun _ _ h => ⟨fun _ => h.1, h.2⟩) id
      · exact (enclosed_escapedPoint false hw).imp (fun _ _ h => ⟨fun _ => h.1, h.2⟩) id
    · rw [readNamePoint?_refused hv, readNamePoint?_refused (head?_closing (by decide) hv)]
      exact .refused
  · have hunit : u.toNat ≠ 40 ∧ u.toNat ≠ 91 → Passed false (u :: t) false t := by
      rintro ⟨h40, h91⟩
      exact Passed.unit ⟨hu, fun e => h91 (e ▸ rfl), fun e => h40 (e ▸ rfl)⟩ t
    rw [List.cons_append, readNamePoint?_unit hu, readNamePoint?_unit hu]
    cases t with
    | nil =>
      have hlow : Text.isLowSurrogate 41 = false := rfl
      simp only [List.nil_append, hlow, Bool.and_false, Bool.false_eq_true, if_false]
      exact .read ⟨hunit, Nat.lt_succ_self _⟩
    | cons v t =>
      simp only [List.cons_append]
      split
      next hpair =>
        obtain ⟨hu, hv⟩ := isPlain_of_surrogates hpair
        refine .read ⟨fun _ => (Passed.plain false hu _).trans (Passed.plain false hv t), ?_⟩
        simp only [List.length_cons]
        omega
      next => exact .read ⟨hunit, Nat.lt_succ_self _⟩

theorem isIdentifierStart_closing : Text.isIdentifierStart 41 = false := by decide +kernel

theorem isIdentifierPart_closing : Text.isIdentifierPart 41 = false := by decide +kernel

/-- No identifier holds a bracket or a parenthesis. -/
theorem ne_of_isIdentifierPart {n : Nat} (h : Text.isIdentifierPart n = true) :
    n ≠ 40 ∧ n ≠ 91 := by
  have h40 : Text.isIdentifierPart 40 = false := by decide +kernel
  have h91 : Text.isIdentifierPart 91 = false := by decide +kernel
  constructor <;> rintro rfl
  · rw [h40] at h; cases h
  · rw [h91] at h; cases h

theorem readNameRest_closing (fuel : Nat) (done : List Nat) :
    readNameRest fuel done [41] = none := by
  cases fuel with
  | zero => rfl
  | succ fuel =>
    have hpoint : readNamePoint? [41] = some (41, []) := rfl
    simp [readNameRest, hpoint, isIdentifierStart_closing, isIdentifierPart_closing]

theorem enclosed_readNameRest {f g : Nat} {done : List Nat} {t : Text} (hf : t.length < f)
    (hg : t.length < g) :
    Enclosed (fun _ => Advanced false t) False (readNameRest f done t)
      (readNameRest g done (t ++ [41])) := by
  induction f generalizing g done t with
  | zero => omega
  | succ f ih =>
    cases g with
    | zero => omega
    | succ g =>
      by_cases ht : t = []
      · subst ht
        rw [List.nil_append, readNameRest_closing]
        exact .refused
      have hpoint := enclosed_readNamePoint? ht
      unfold readNameRest
      generalize readNamePoint? t = x, readNamePoint? (t ++ [41]) = y at hpoint
      cases hpoint with
      | refused => exact .refused
      | closed h => exact h.elim
      | @read n rest hrest =>
        obtain ⟨hpassed, hlt⟩ := hrest
        have hgoOn (hn : n ≠ 40 ∧ n ≠ 91) (done : List Nat) :
            Enclosed (fun _ => Advanced false t) False (readNameRest f done rest)
              (readNameRest g done (rest ++ [41])) :=
          (ih (by omega) (by omega)).imp
            (fun _ _ h => Advanced.trans ⟨hpassed hn, hlt⟩ h.1) id
        dsimp only
        split
        next =>
          split
          next hs =>
            have hpart := Text.isIdentifierPart_of_isIdentifierStart hs
            exact hgoOn (ne_of_isIdentifierPart hpart) _
          next => exact .refused
        next =>
          split
          next h62 => exact .read ⟨hpassed (by omega), hlt⟩
          next =>
            split
            next hs => exact hgoOn (ne_of_isIdentifierPart hs) _
            next => exact .refused

theorem enclosed_readName? (t : Text) :
    Enclosed (fun _ => Advanced false t) False (readName? t) (readName? (t ++ [41])) :=
  enclosed_readNameRest (Nat.lt_succ_self _) (by simp only [List.length_append]; omega)

/-! ## Escapes -/

theorem isPlain_of_octal {u : UInt16} (h : (48 ≤ u && u ≤ 55) = true) : IsPlain u := by
  refine ⟨?_, ?_, ?_, ?_⟩ <;> (rintro rfl; cases h)

theorem octal_closing : ((48 : UInt16) ≤ 41 && (41 : UInt16) ≤ 55) = false := rfl

theorem enclosed_readOctal (c : Bool) (u : UInt16) (rest : Text) :
    Enclosed (fun _ => Advanced c (92 :: u :: rest)) False (some (readOctal (u :: rest)))
      (some (readOctal (u :: (rest ++ [41])))) := by
  have hone (rest : Text) : Advanced c (92 :: u :: rest) rest := advanced_escape c u rest
  have htwo {v : UInt16} (hv : (48 ≤ v && v ≤ 55) = true) (rest : Text) :
      Advanced c (92 :: u :: v :: rest) rest :=
    (hone _).trans (Passed.plain c (isPlain_of_octal hv) rest)
  match rest with
  | [] => exact .read (hone [])
  | [v] =>
    simp only [readOctal, List.cons_append, List.nil_append, octal_closing, Bool.false_and,
      Bool.false_eq_true, if_false]
    split
    next hv => exact .read (htwo hv [])
    next => exact .read (hone [v])
  | v :: w :: rest =>
    simp only [readOctal, List.cons_append]
    split
    next hv =>
      split
      next hw =>
        have hw := isPlain_of_octal (Bool.and_eq_true_iff.mp hw).1
        exact .read ((htwo hv _).trans (Passed.plain c hw rest))
      next => exact .read (htwo hv (w :: rest))
    next => exact .read (hone _)

theorem isPlain_of_control {u : UInt16} {inClass : Bool}
    (h : (Text.isLetter u || (inClass && (Text.isDigit u || u = 95))) = true) : IsPlain u := by
  refine ⟨?_, ?_, ?_, ?_⟩ <;> (rintro rfl; cases inClass <;> cases h)

/-- The escape of a control letter, or a backslash that is none. -/
theorem enclosed_controlEscape (outline : Outline) (inClass c : Bool) (rest : Text) :
    Enclosed (fun _ => Advanced c (92 :: 99 :: rest)) False
      (readUnitEscape? outline inClass (99 :: rest))
      (readUnitEscape? outline inClass (99 :: (rest ++ [41]))) := by
  have hback : Advanced c (92 :: 99 :: rest) (99 :: rest) :=
    ⟨Passed.backslash c (by decide) rest, Nat.lt_succ_self _⟩
  cases rest with
  | nil => cases inClass <;> exact .read hback
  | cons letter after =>
    show Enclosed _ _ (if _ then _ else _) (if _ then _ else _)
    split
    next hl =>
      exact .read ((advanced_escape c 99 _).trans (Passed.plain c (isPlain_of_control hl) after))
    next => exact .read hback

/-- The escape of two hexadecimal digits, or a letter that is none. -/
theorem enclosed_byteEscape (outline : Outline) (inClass c : Bool) (rest : Text) :
    Enclosed (fun _ => Advanced c (92 :: 120 :: rest)) False
      (readUnitEscape? outline inClass (120 :: rest))
      (readUnitEscape? outline inClass (120 :: (rest ++ [41]))) := by
  have hplain := advanced_escape c 120 rest
  have hbyte (a b : UInt16) (after : Text) :
      readUnitEscape? outline inClass (120 :: a :: b :: after) =
        some (((Text.hexValue? a).bind fun m => (Text.hexValue? b).map fun n =>
        (UInt16.ofNat (m * 16 + n), after)).getD (120, a :: b :: after)) := by
    cases ha : Text.hexValue? a <;> cases hb : Text.hexValue? b <;> simp [readUnitEscape?, ha, hb]
  rcases rest with _ | ⟨a, _ | ⟨b, after⟩⟩
  · exact .read hplain
  · rw [List.cons_append, List.nil_append, hbyte, hexValue?_closing]
    cases Text.hexValue? a <;> exact .read hplain
  · rw [List.cons_append, List.cons_append, hbyte, hbyte]
    cases ha : Text.hexValue? a with
    | none => exact .read hplain
    | some m =>
      cases hb : Text.hexValue? b with
      | none => exact .read hplain
      | some n =>
        exact .read (hplain.trans ((Passed.plain c (isPlain_of_hexValue? (ha ▸ rfl)) _).trans
          (Passed.plain c (isPlain_of_hexValue? (hb ▸ rfl)) after)))

theorem enclosed_hexEscape (c : Bool) (rest : Text) :
    Enclosed (fun _ => Advanced c (92 :: 117 :: rest)) False
      (some ((readHexUnit? rest).getD (117, rest)))
      (some ((readHexUnit? (rest ++ [41])).getD (117, rest ++ [41]))) := by
  have hplain := advanced_escape c 117 rest
  have hhex := enclosed_readHexUnit? c rest
  generalize readHexUnit? rest = x, readHexUnit? (rest ++ [41]) = y at hhex
  cases hhex with
  | refused => exact .read hplain
  | closed h => exact h.elim
  | read h => exact .read (hplain.trans h.1)

theorem enclosed_readUnitEscape? (outline : Outline) (inClass c : Bool) (t : Text) :
    Enclosed (fun _ => Advanced c (92 :: t)) (t = []) (readUnitEscape? outline inClass t)
      (readUnitEscape? outline inClass (t ++ [41])) := by
  cases t with
  | nil => exact .closed rfl 41
  | cons u rest =>
    have hplain := advanced_escape c u rest
    by_cases h99 : u = 99
    · exact h99 ▸ (enclosed_controlEscape outline inClass c rest).imp (fun _ _ h => h) False.elim
    by_cases h120 : u = 120
    · exact h120 ▸ (enclosed_byteEscape outline inClass c rest).imp (fun _ _ h => h) False.elim
    by_cases h117 : u = 117
    · subst h117
      have heq (rest : Text) : readUnitEscape? outline inClass (117 :: rest) =
          some ((readHexUnit? rest).getD (117, rest)) := by
        cases hread : readHexUnit? rest <;> simp [readUnitEscape?, hread]
      rw [List.cons_append, heq, heq]
      exact (enclosed_hexEscape c rest).imp (fun _ _ h => h) False.elim
    unfold readUnitEscape?
    simp only [List.cons_append, if_neg h99, if_neg h120, if_neg h117]
    split
    · exact .read hplain
    split
    · exact .read hplain
    split
    · exact .read hplain
    split
    · exact .read hplain
    split
    · exact .read hplain
    split
    · exact (enclosed_readOctal c u rest).imp (fun _ _ h => h) False.elim
    split
    · exact .refused
    · exact .read hplain

end ContestGrading.Pattern
