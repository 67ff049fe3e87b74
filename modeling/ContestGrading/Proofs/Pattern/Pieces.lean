import ContestGrading.Proofs.Pattern.Enclosed
/-!
# Classes, counts and escapes before a closing parenthesis

The readers of the pieces of a term read the same before a closing
parenthesis. Equations by the unit that comes first take the place of their
patterns, so that both readings go through the same cases.

Results:
* `enclosed_readClassItems`: the items of a class, up to its bracket.
* `enclosed_readRepeated?`: repetition marks, which take no parenthesis in.
* `enclosed_readEscape?`: escapes and references.
-/
namespace ContestGrading.Pattern

/-! ## Classes -/

theorem readClassAtom?_escape (outline : Outline) {u : UInt16} (hu : u ≠ 98) (after : Text) :
    readClassAtom? outline (92 :: u :: after) =
      match namedClass? u with
      | some item => some (.inr item, after)
      | none => (readUnitEscape? outline true (u :: after)).map fun p => (.inl p.1, p.2) := by
  unfold readClassAtom?
  split
  next he => cases he
  next he =>
    cases he
    split
    next he => cases he
    next he => exact absurd (List.cons.inj he).1 hu
    next he => cases he; rfl
  next h he => exact absurd (List.cons.inj he).1.symm h

theorem readClassAtom?_unit (outline : Outline) {u : UInt16} (hu : u ≠ 92) (rest : Text) :
    readClassAtom? outline (u :: rest) = some (.inl u, rest) := by
  unfold readClassAtom?
  split
  next he => cases he
  next he => exact absurd (List.cons.inj he).1 hu
  next he => cases he; rfl

theorem enclosed_readClassAtom? (outline : Outline) {t : Text} (ht : t.head? ≠ some 93) :
    Enclosed (fun _ => Advanced true t) True (readClassAtom? outline t)
      (readClassAtom? outline (t ++ [41])) := by
  cases t with
  | nil => exact .closed trivial (Sum.inl 41)
  | cons u rest =>
    by_cases hu : u = 92
    · subst hu
      cases rest with
      | nil =>
        rw [List.cons_append, List.nil_append, readClassAtom?_escape outline (by decide)]
        exact .closed trivial (Sum.inl 41)
      | cons v after =>
        by_cases hv : v = 98
        · subst hv
          exact .read (advanced_escape true 98 after)
        · rw [List.cons_append, List.cons_append, readClassAtom?_escape outline hv,
            readClassAtom?_escape outline hv]
          cases namedClass? v with
          | some item => exact .read (advanced_escape true v after)
          | none =>
            exact ((enclosed_readUnitEscape? outline true true (v :: after)).map Sum.inl
              fun _ _ h => h).imp (fun _ _ h => h) fun _ => trivial
    · have hne : (u != 93) = true := bne_iff_ne.mpr fun h => ht (h ▸ rfl)
      rw [List.cons_append, readClassAtom?_unit outline hu, readClassAtom?_unit outline hu]
      exact .read ⟨hne ▸ Passed.classUnit hu rest, Nat.lt_succ_self _⟩

theorem readClassItems_nil (outline : Outline) (fuel : Nat) (done : List ClassItem) :
    readClassItems outline fuel done [] = none := by
  cases fuel <;> rfl

/-- Inside a class, and behind its bracket when it ends. -/
def Finished (t rest : Text) : Prop := Passed true t false rest ∧ rest.length < t.length

theorem Finished.behind {t after rest : Text} (h : Finished after rest)
    (ht : Passed true t true after) : Finished t rest :=
  ⟨ht.trans h.1, Nat.lt_of_lt_of_le h.2 ht.length_le⟩

/-- The items of a class behind an atom that has been read. -/
def readClassRest (outline : Outline) (fuel : Nat) (done : List ClassItem)
    (first : UInt16 ⊕ ClassItem) : Text → Option (List ClassItem × Text)
  | 45 :: 93 :: after => some ((.single 45 :: atomItem first :: done).reverse, after)
  | 45 :: after =>
    match readClassAtom? outline after with
    | none => none
    | some (second, rest) =>
      match first, second with
      | .inl low, .inl high =>
        if low ≤ high then readClassItems outline fuel (.range low high :: done) rest else none
      | first, second =>
        readClassItems outline fuel (atomItem second :: .single 45 :: atomItem first :: done) rest
  | rest => readClassItems outline fuel (atomItem first :: done) rest

theorem readClassItems_succ (outline : Outline) (fuel : Nat) (done : List ClassItem) {t : Text}
    (ht : t.head? ≠ some 93) :
    readClassItems outline (fuel + 1) done t =
      (readClassAtom? outline t).bind fun p => readClassRest outline fuel done p.1 p.2 := by
  cases t with
  | nil => rfl
  | cons u t =>
    rw [readClassItems]
    · cases readClassAtom? outline (u :: t) <;> rfl
    · nofun
    · rintro rest he
      exact ht (he ▸ rfl)

theorem readClassRest_range (outline : Outline) (fuel : Nat) (done : List ClassItem)
    (first : UInt16 ⊕ ClassItem) {after : Text} (h : after.head? ≠ some 93) :
    readClassRest outline fuel done first (45 :: after) =
      (readClassAtom? outline after).bind fun p =>
        match first, p.1 with
        | .inl low, .inl high =>
          if low ≤ high then readClassItems outline fuel (.range low high :: done) p.2 else none
        | first, second =>
          readClassItems outline fuel (atomItem second :: .single 45 :: atomItem first :: done)
            p.2 := by
  unfold readClassRest
  split
  next he => cases he; exact absurd rfl h
  next he => cases he; cases readClassAtom? outline after <;> rfl
  next h => exact (h after rfl).elim

theorem readClassRest_next (outline : Outline) (fuel : Nat) (done : List ClassItem)
    (first : UInt16 ⊕ ClassItem) {rest : Text} (h : rest.head? ≠ some 45) :
    readClassRest outline fuel done first rest =
      readClassItems outline fuel (atomItem first :: done) rest := by
  unfold readClassRest
  split
  next => exact absurd rfl h
  next => exact absurd rfl h
  next => rfl

theorem readClassRest_nil (outline : Outline) (fuel : Nat) (done : List ClassItem)
    (first : UInt16 ⊕ ClassItem) : readClassRest outline fuel done first [] = none :=
  readClassItems_nil outline fuel _

theorem enclosed_readClassItems (outline : Outline) {f g : Nat} {done : List ClassItem} {t : Text}
    (hf : t.length < f) (hg : t.length < g) :
    Enclosed (fun _ => Finished t) False (readClassItems outline f done t)
      (readClassItems outline g done (t ++ [41])) := by
  induction f generalizing g done t with
  | zero => omega
  | succ f ih =>
    cases g with
    | zero => omega
    | succ g =>
      have hgoOn {after : Text} (h : Advanced true t after) (done : List ClassItem) :
          Enclosed (fun _ => Finished t) False (readClassItems outline f done after)
            (readClassItems outline g done (after ++ [41])) :=
        (ih (by have := h.2; omega) (by have := h.2; omega)).imp
          (fun _ _ hrest => hrest.behind h.1) id
      by_cases hend : t.head? = some 93
      · obtain ⟨rest, rfl⟩ := List.head?_eq_some_iff.mp hend
        exact .read ⟨Passed.classUnit (by decide) rest, Nat.lt_succ_self _⟩
      rw [readClassItems_succ outline f done hend,
        readClassItems_succ outline g done (head?_closing (by decide) hend)]
      have hatom := enclosed_readClassAtom? outline hend
      generalize readClassAtom? outline t = x, readClassAtom? outline (t ++ [41]) = y at hatom
      cases hatom with
      | refused => exact .refused
      | closed _ first =>
        simp only [Option.bind_some, readClassRest_nil]
        exact .refused
      | @read first rest hrest =>
        simp only [Option.bind_some]
        by_cases hrange : rest.head? = some 45
        · obtain ⟨after, rfl⟩ := List.head?_eq_some_iff.mp hrange
          have hafter : Advanced true t after := hrest.trans (Passed.plain true (by decide) after)
          by_cases hlast : after.head? = some 93
          · obtain ⟨last, rfl⟩ := List.head?_eq_some_iff.mp hlast
            exact .read ⟨hafter.1.trans (Passed.classUnit (by decide) last),
              Nat.lt_of_succ_lt hafter.2⟩
          rw [List.cons_append, readClassRest_range outline f done first hlast,
            readClassRest_range outline g done first (head?_closing (by decide) hlast)]
          have hatom := enclosed_readClassAtom? outline hlast
          generalize readClassAtom? outline after = x,
            readClassAtom? outline (after ++ [41]) = y at hatom
          cases hatom with
          | refused => exact .refused
          | closed _ second =>
            simp only [Option.bind_some, readClassItems_nil, ite_self]
            split <;> exact .refused
          | @read second last hlast =>
            have hlast : Advanced true t last := hafter.trans hlast.1
            simp only [Option.bind_some]
            split
            · split
              · exact hgoOn hlast _
              · exact .refused
            · exact hgoOn hlast _
        · rw [readClassRest_next outline f done first hrange,
            readClassRest_next outline g done first (head?_closing (by decide) hrange)]
          exact hgoOn hrest _

/-! ## Counts -/

theorem isDigit_closing : Text.isDigit 41 = false := rfl

theorem passed_digits (c : Bool) (t : Text) : Passed c t c (t.dropWhile Text.isDigit) :=
  Passed.dropWhile (fun _ => isPlain_of_isDigit) c t

/-- The end of a count between braces, behind the digits of its least one. -/
def readMost? (least : Text) : Text → Option ((Nat × Nat) × Text)
  | 125 :: rest => some ((countOf least, countOf least), rest)
  | 44 :: 125 :: rest => some ((countOf least, countLimit), rest)
  | 44 :: rest =>
    let most := rest.takeWhile Text.isDigit
    match most, rest.dropWhile Text.isDigit with
    | _ :: _, 125 :: after => some ((countOf least, countOf most), after)
    | _, _ => none
  | _ => none

theorem readBraces?_open (rest : Text) :
    readBraces? (123 :: rest) =
      if (rest.takeWhile Text.isDigit).isEmpty then none
      else readMost? (rest.takeWhile Text.isDigit) (rest.dropWhile Text.isDigit) := by
  simp only [readBraces?, List.span_eq_takeWhile_dropWhile]
  rfl

theorem readBraces?_eq_none {t : Text} (h : t.head? ≠ some 123) : readBraces? t = none := by
  unfold readBraces?
  split
  next => exact absurd rfl h
  next => rfl

theorem readMost?_eq_none (least : Text) {t : Text} (h : t.head? ≠ some 125)
    (h' : t.head? ≠ some 44) : readMost? least t = none := by
  unfold readMost?
  split
  next => exact absurd rfl h
  next => exact absurd rfl h'
  next => exact absurd rfl h'
  next => rfl

theorem readMost?_comma (least : Text) {rest : Text} (h : rest.head? ≠ some 125) :
    readMost? least (44 :: rest) =
      match rest.takeWhile Text.isDigit, rest.dropWhile Text.isDigit with
      | _ :: _, 125 :: after =>
        some ((countOf least, countOf (rest.takeWhile Text.isDigit)), after)
      | _, _ => none := by
  unfold readMost?
  split
  next he => cases he
  next he => cases he; exact absurd rfl h
  next he => cases he; rfl
  next h => exact (h rest rfl).elim

theorem enclosed_readMost? (least t : Text) :
    Enclosed (fun _ rest => Passed false t false rest) False (readMost? least t)
      (readMost? least (t ++ [41])) := by
  by_cases hend : t.head? = some 125
  · obtain ⟨rest, rfl⟩ := List.head?_eq_some_iff.mp hend
    exact .read (Passed.plain false (by decide) rest)
  by_cases hcomma : t.head? = some 44
  · obtain ⟨rest, rfl⟩ := List.head?_eq_some_iff.mp hcomma
    have hrest : Passed false (44 :: rest) false rest := Passed.plain false (by decide) rest
    by_cases hopen : rest.head? = some 125
    · obtain ⟨rest, rfl⟩ := List.head?_eq_some_iff.mp hopen
      exact .read (hrest.trans (Passed.plain false (by decide) rest))
    rw [List.cons_append, readMost?_comma least hopen,
      readMost?_comma least (head?_closing (by decide) hopen), takeWhile_closing isDigit_closing,
      dropWhile_closing isDigit_closing]
    have hdigits := passed_digits false rest
    generalize rest.takeWhile Text.isDigit = ds, rest.dropWhile Text.isDigit = after at hdigits ⊢
    cases ds with
    | nil => exact .refused
    | cons d ds =>
      by_cases hafter : after.head? = some 125
      · obtain ⟨after, rfl⟩ := List.head?_eq_some_iff.mp hafter
        exact .read (hrest.trans (hdigits.trans (Passed.plain false (by decide) after)))
      · split
        next => exact absurd rfl hafter
        next =>
          split
          next _ he => exact absurd (congrArg List.head? he) (head?_closing (by decide) hafter)
          next => exact .refused
  · rw [readMost?_eq_none least hend hcomma, readMost?_eq_none least
      (head?_closing (by decide) hend) (head?_closing (by decide) hcomma)]
    exact .refused

theorem enclosed_readBraces? (t : Text) :
    Enclosed (fun _ => Advanced false t) False (readBraces? t) (readBraces? (t ++ [41])) := by
  by_cases hopen : t.head? = some 123
  · obtain ⟨rest, rfl⟩ := List.head?_eq_some_iff.mp hopen
    rw [List.cons_append, readBraces?_open, readBraces?_open, takeWhile_closing isDigit_closing,
      dropWhile_closing isDigit_closing]
    split
    next => exact .refused
    next =>
      have hdigits : Advanced false (123 :: rest) _ :=
        (advanced_plain false (by decide) rest).trans (passed_digits false rest)
      exact (enclosed_readMost? _ _).imp (fun _ after h => hdigits.trans h) id
  · rw [readBraces?_eq_none hopen, readBraces?_eq_none (head?_closing (by decide) hopen)]
    exact .refused

theorem readRepetition?_braces {t : Text} (h42 : t.head? ≠ some 42) (h43 : t.head? ≠ some 43)
    (h63 : t.head? ≠ some 63) : readRepetition? t = readBraces? t := by
  unfold readRepetition?
  split
  next => exact absurd rfl h42
  next => exact absurd rfl h43
  next => exact absurd rfl h63
  next => rfl

theorem enclosed_readRepetition? (t : Text) :
    Enclosed (fun _ => Advanced false t) False (readRepetition? t)
      (readRepetition? (t ++ [41])) := by
  by_cases h42 : t.head? = some 42
  · obtain ⟨rest, rfl⟩ := List.head?_eq_some_iff.mp h42
    exact .read (advanced_plain false (by decide) rest)
  by_cases h43 : t.head? = some 43
  · obtain ⟨rest, rfl⟩ := List.head?_eq_some_iff.mp h43
    exact .read (advanced_plain false (by decide) rest)
  by_cases h63 : t.head? = some 63
  · obtain ⟨rest, rfl⟩ := List.head?_eq_some_iff.mp h63
    exact .read (advanced_plain false (by decide) rest)
  rw [readRepetition?_braces h42 h43 h63, readRepetition?_braces (head?_closing (by decide) h42)
    (head?_closing (by decide) h43) (head?_closing (by decide) h63)]
  exact enclosed_readBraces? t

theorem enclosed_readRepeated? (node : Node) (t : Text) :
    Enclosed (fun _ rest => Passed false t false rest) False (readRepeated? node t)
      (readRepeated? node (t ++ [41])) := by
  have hcount := enclosed_readRepetition? t
  unfold readRepeated?
  generalize readRepetition? t = x, readRepetition? (t ++ [41]) = y at hcount
  cases hcount with
  | refused => exact .read (Passed.refl false t)
  | closed h => exact h.elim
  | @read counts rest hrest =>
    dsimp only
    split
    next => exact .refused
    next =>
      generalize (if counts.2 = countLimit then none else some counts.2) = most
      by_cases hlazy : rest.head? = some 63
      · obtain ⟨rest, rfl⟩ := List.head?_eq_some_iff.mp hlazy
        exact .read (hrest.1.trans (Passed.plain false (by decide) rest))
      · split
        next => exact absurd rfl hlazy
        next =>
          split
          next he => exact absurd (congrArg List.head? he) (head?_closing (by decide) hlazy)
          next => exact .read hrest.1

/-! ## References -/

theorem enclosed_readReference? (outline : Outline) (c : Bool) (t : Text) :
    Enclosed (fun _ rest => Passed c t c rest) False (readReference? outline t)
      (readReference? outline (t ++ [41])) := by
  simp only [readReference?, span_closing isDigit_closing, List.span_eq_takeWhile_dropWhile]
  split
  next => exact .read (passed_digits c t)
  next => exact .refused

/-! ## Escapes outside a class -/

theorem enclosed_plainEscape (outline : Outline) (t : Text) :
    Enclosed (fun _ => Advanced false (92 :: t)) (t = [])
      ((readUnitEscape? outline false t).map fun p => ((Node.unit p.1, true), p.2))
      ((readUnitEscape? outline false (t ++ [41])).map fun p => ((Node.unit p.1, true), p.2)) :=
  (enclosed_readUnitEscape? outline false false t).map (fun u => (Node.unit u, true))
    fun _ _ h => h

/-- A reference to a group by its name, behind `k`. -/
theorem enclosed_namedReference (outline : Outline) (rest : Text) :
    Enclosed (fun _ => Advanced false (92 :: 107 :: rest)) False
      (match rest with
        | 60 :: after => do
          let (name, after) ← readName? after
          let index ← outline.indexOf? name
          return ((Node.backreference index, true), after)
        | _ => none)
      (match rest ++ [41] with
        | 60 :: after => do
          let (name, after) ← readName? after
          let index ← outline.indexOf? name
          return ((Node.backreference index, true), after)
        | _ => none) := by
  by_cases hopen : rest.head? = some 60
  · obtain ⟨after, rfl⟩ := List.head?_eq_some_iff.mp hopen
    have hname := enclosed_readName? after
    simp only [List.cons_append]
    generalize readName? after = x, readName? (after ++ [41]) = y at hname
    cases hname with
    | refused => exact .refused
    | closed h => exact h.elim
    | @read name last hlast =>
      have hpassed : Advanced false (92 :: 107 :: 60 :: after) last :=
        (advanced_escape false 107 _).trans ((Passed.plain false (by decide) after).trans hlast.1)
      simp only [Option.bind_eq_bind, Option.bind_some]
      cases outline.indexOf? name with
      | none => exact .refused
      | some index => exact .read hpassed
  · split
    next => exact absurd rfl hopen
    next =>
      split
      next he => exact absurd (congrArg List.head? he) (head?_closing (by decide) hopen)
      next => exact .refused

theorem isPlain_of_positiveDigit {u : UInt16} (h : 49 ≤ u ∧ u ≤ 57) : IsPlain u := by
  refine ⟨?_, ?_, ?_, ?_⟩ <;> (rintro rfl; revert h; decide)

theorem enclosed_readEscape? (outline : Outline) (t : Text) :
    Enclosed (fun _ => Advanced false (92 :: t)) (t = []) (readEscape? outline t)
      (readEscape? outline (t ++ [41])) := by
  have hplain := enclosed_plainEscape outline t
  cases t with
  | nil => exact .closed rfl (Node.unit 41, true)
  | cons u rest =>
    have hunit := advanced_escape false u rest
    unfold readEscape?
    simp only [List.cons_append]
    split
    · exact .read hunit
    split
    · exact .read hunit
    split
    · exact .read hunit
    split
    next hdigit =>
      have href := enclosed_readReference? outline false (u :: rest)
      rw [List.cons_append] at href
      generalize readReference? outline (u :: rest) = x,
        readReference? outline (u :: (rest ++ [41])) = y at href
      cases href with
      | refused => exact hplain
      | closed h => exact h.elim
      | read h =>
        have hu := Passed.backslash false (isPlain_of_positiveDigit hdigit) rest
        exact .read ⟨hu.trans h, Nat.lt_succ_of_le h.length_le⟩
    split
    next hname =>
      obtain rfl : u = 107 := by simpa using (Bool.and_eq_true_iff.mp hname).1
      exact (enclosed_namedReference outline rest).imp (fun _ _ h => h) False.elim
    next => exact hplain

end ContestGrading.Pattern
