import ContestGrading.Proofs.Template.Counting
import ContestGrading.Proofs.Template.Numbers
/-!
# Literal text and texts filled in

A literal text is written into a template with its percent signs doubled, so
that none of them starts a placeholder, whatever stands beside it. Between
literals `%s` stands for a text. Such a template is counted and read as it is
written, and filled with the texts as they are.

Results:
* `parse_textTemplate`: how the template is read.
* `countPlaceholders_textTemplate`: it asks for one argument between each two
  literals.
* `format_textTemplate`: what it is filled to.
-/
namespace ContestGrading.Template

/-- A literal text as it is written into a template. -/
def escape (t : Text) : Text := t.flatMap fun u => if u = 37 then [37, 37] else [u]

/-- The template of the literal texts with a placeholder between each two. -/
def textTemplate (first : Text) : List Text → Text
  | [] => escape first
  | next :: rest => escape first ++ 37 :: 115 :: textTemplate next rest

/-- The literal texts with one of the others between each two. -/
def interleave (first : Text) (between rest : List Text) : Text :=
  first ++ (between.zip rest).flatMap fun p => p.1 ++ p.2

/-- The placeholder for a text: it takes the next argument as it is. -/
def textPlaceholder : Placeholder := ⟨.next, false, 32, false, none, none, .text⟩

/-- Pieces that write the first text, then a placeholder and the next text,
and so on. A text may be written in several pieces. -/
inductive Writes : Text → List Text → List Piece → Prop where
  | nil : Writes [] [] []
  | literal (t : Text) {first : Text} {rest : List Text} {pieces : List Piece}
    (h : Writes first rest pieces) : Writes (t ++ first) rest (.literal t :: pieces)
  | placeholder {next : Text} {rest : List Text} {pieces : List Piece}
    (h : Writes next rest pieces) :
    Writes [] (next :: rest) (.placeholder textPlaceholder :: pieces)

variable {first : Text} {rest : List Text} {pieces : List Piece}

/-! ## What is read -/

theorem escape_append (s t : Text) : escape (s ++ t) = escape s ++ escape t :=
  List.flatMap_append

/-- A text without percent signs is written as it is. -/
theorem escape_of_plain {t : Text} (h : ∀ u ∈ t, u ≠ 37) : escape t = t := by
  induction t with
  | nil => rfl
  | cons u t ih =>
    obtain ⟨hu, ht⟩ := List.forall_mem_cons.mp h
    rw [escape, List.flatMap_cons, if_neg hu, ← escape, ih ht]
    rfl

theorem textTemplate_percent (first : Text) (rest : List Text) :
    textTemplate (37 :: first) rest = 37 :: 37 :: textTemplate first rest := by
  cases rest <;> rfl

theorem textTemplate_plain {t : Text} (h : ∀ u ∈ t, u ≠ 37) (first : Text) (rest : List Text) :
    textTemplate (t ++ first) rest = t ++ textTemplate first rest := by
  have happend : escape (t ++ first) = t ++ escape first := by
    rw [escape_append, escape_of_plain h]
  cases rest with
  | nil => exact happend
  | cons next rest =>
    show escape (t ++ first) ++ _ = t ++ (escape first ++ _)
    rw [happend, List.append_assoc]

/-- Behind the units that are no percent sign the template ends or a percent
sign stands. -/
theorem head?_textTemplate {first : Text} (h : ∀ u ∈ first.head?, u = 37) (rest : List Text) :
    ∀ u ∈ (textTemplate first rest).head?, u = 37 := by
  cases first with
  | nil => cases rest <;> simp [textTemplate, escape]
  | cons v first =>
    obtain rfl : v = 37 := h v rfl
    simp [textTemplate_percent]

/-- A text up to its first percent sign. -/
theorem exists_plain_append (s : Text) :
    ∃ t r, s = t ++ r ∧ (∀ u ∈ t, u ≠ 37) ∧ ∀ u ∈ r.head?, u = 37 := by
  induction s with
  | nil => exact ⟨[], [], rfl, nofun, nofun⟩
  | cons u s ih =>
    by_cases hu : u = 37
    · refine ⟨[], u :: s, rfl, nofun, ?_⟩
      rintro v ⟨⟩
      exact hu
    · obtain ⟨t, r, rfl, ht, hr⟩ := ih
      exact ⟨u :: t, r, rfl, List.forall_mem_cons.mpr ⟨hu, ht⟩, hr⟩

theorem span_plain {t s : Text} (ht : ∀ u ∈ t, u ≠ 37) (hs : ∀ u ∈ s.head?, u = 37) :
    (t ++ s).span (· != 37) = (t, s) := by
  have hall : ∀ u ∈ t, (u != 37) = true := fun u hu => by simpa using ht u hu
  have hstop : s.takeWhile (· != 37) = [] ∧ s.dropWhile (· != 37) = s := by
    cases s with
    | nil => exact ⟨rfl, rfl⟩
    | cons u s =>
      obtain rfl : u = 37 := hs u rfl
      exact ⟨rfl, rfl⟩
  rw [List.span_eq_takeWhile_dropWhile, List.takeWhile_append_of_pos hall,
    List.dropWhile_append_of_pos hall, hstop.1, hstop.2, List.append_nil]

/-- The text up to the next percent sign is one piece. -/
theorem parseFrom_plain {t s : Text} (ht : ∀ u ∈ t, u ≠ 37) (hne : t ≠ [])
    (hs : ∀ u ∈ s.head?, u = 37) (fuel : Nat) (met : Met) :
    parseFrom (fuel + 1) met (t ++ s) = (parseFrom fuel met s).map (.literal t :: ·) := by
  cases t with
  | nil => exact absurd rfl hne
  | cons u t =>
    have hu : u ≠ 37 := ht u (List.mem_cons_self ..)
    rw [List.cons_append, parseFrom, ← List.cons_append, span_plain ht hs]
    · rfl
    · exact fun h => List.cons_ne_nil _ _ h
    · exact fun r h => hu (List.cons.inj h).1
    · exact fun r h => hu (List.cons.inj h).1

theorem parseFrom_text {met : Met} (hmet : met.named = false) (fuel : Nat) (t : Text) :
    parseFrom (fuel + 1) met (37 :: 115 :: t) =
      (parseFrom fuel { met with unnamed := true } t).map
        (.placeholder textPlaceholder :: ·) := by
  have hread : readPlaceholder? (115 :: t) =
      some (.next, fun source => { textPlaceholder with source }, t) := rfl
  have hsettle : settleSource met .next = .ok (.next, { met with unnamed := true }) := by
    rw [settleSource, hmet]
    rfl
  rw [parseFrom, hread]
  · dsimp only
    rw [hsettle]
    rfl
  · exact fun r h => absurd (List.cons.inj h).1 (by decide)

theorem eq_nil_of_textTemplate_eq_nil (h : textTemplate first rest = []) :
    first = [] ∧ rest = [] := by
  cases rest with
  | cons next rest => simp [textTemplate] at h
  | nil =>
    cases first with
    | nil => exact ⟨rfl, rfl⟩
    | cons u first =>
      rw [textTemplate, escape, List.flatMap_cons] at h
      split at h <;> cases h

theorem parseFrom_textTemplate {fuel : Nat} {met : Met} (hmet : met.named = false)
    (hf : (textTemplate first rest).length ≤ fuel) :
    ∃ pieces, parseFrom fuel met (textTemplate first rest) = .ok pieces ∧
      Writes first rest pieces := by
  induction fuel generalizing met first rest with
  | zero =>
    obtain ⟨rfl, rfl⟩ :=
      eq_nil_of_textTemplate_eq_nil (List.eq_nil_of_length_eq_zero (Nat.le_zero.mp hf))
    exact ⟨[], rfl, .nil⟩
  | succ fuel ih =>
    obtain ⟨t, r, rfl, ht, hr⟩ := exists_plain_append first
    rcases eq_or_ne t [] with rfl | hne
    · rw [List.nil_append] at hf ⊢
      cases r with
      | cons u r =>
        obtain rfl : u = 37 := hr u rfl
        rw [textTemplate_percent] at hf ⊢
        simp only [List.length_cons] at hf
        obtain ⟨pieces, hpieces, hwrites⟩ := @ih r rest met hmet (by omega)
        refine ⟨.literal [37] :: pieces, ?_, .literal [37] hwrites⟩
        rw [parseFrom, hpieces]
        rfl
      | nil =>
        cases rest with
        | nil => exact ⟨[], rfl, .nil⟩
        | cons next rest =>
          change (37 :: 115 :: textTemplate next rest).length ≤ fuel + 1 at hf
          simp only [List.length_cons] at hf
          obtain ⟨pieces, hpieces, hwrites⟩ :=
            @ih next rest { met with unnamed := true } hmet (by omega)
          refine ⟨.placeholder textPlaceholder :: pieces, ?_, .placeholder hwrites⟩
          show parseFrom (fuel + 1) met (37 :: 115 :: textTemplate next rest) = _
          rw [parseFrom_text hmet, hpieces]
          rfl
    · have hlength := List.length_pos_iff.mpr hne
      rw [textTemplate_plain ht] at hf ⊢
      rw [List.length_append] at hf
      obtain ⟨pieces, hpieces, hwrites⟩ := @ih r rest met hmet (by omega)
      refine ⟨.literal t :: pieces, ?_, .literal t hwrites⟩
      rw [parseFrom_plain ht hne (head?_textTemplate hr rest), hpieces]
      rfl

/-- The template is read as it was written. -/
theorem parse_textTemplate (first : Text) (rest : List Text) :
    ∃ pieces, parse (textTemplate first rest) = .ok pieces ∧ Writes first rest pieces :=
  parseFrom_textTemplate rfl (Nat.le_refl _)

/-! ## What is counted -/

theorem Writes.isNamed (h : Writes first rest pieces) :
    ∀ piece ∈ pieces, piece.isNamed = false := by
  induction h with
  | nil => exact nofun
  | literal t _ ih => exact List.forall_mem_cons.mpr ⟨rfl, ih⟩
  | placeholder _ ih => exact List.forall_mem_cons.mpr ⟨rfl, ih⟩

theorem Writes.countP_isCounted (h : Writes first rest pieces) :
    pieces.countP (·.isCounted) = rest.length := by
  induction h with
  | nil => rfl
  | literal t _ ih => rw [List.countP_cons_of_neg Bool.false_ne_true, ih]
  | placeholder _ ih => rw [List.countP_cons_of_pos rfl, ih, List.length_cons]

theorem countPlaceholders_textTemplate (first : Text) (rest : List Text) :
    countPlaceholders (textTemplate first rest) = rest.length := by
  obtain ⟨pieces, hparse, hwrites⟩ := parse_textTemplate first rest
  rw [countPlaceholders_eq hparse hwrites.isNamed, hwrites.countP_isCounted]

/-! ## What is filled in -/

theorem interleave_append (t first : Text) (between rest : List Text) :
    interleave (t ++ first) between rest = t ++ interleave first between rest :=
  List.append_assoc ..

theorem interleave_cons (t next : Text) (between rest : List Text) :
    interleave [] (t :: between) (next :: rest) = t ++ interleave next between rest :=
  List.append_assoc ..

theorem fillPiece_text {texts : List Text} {turn : Nat} (h : turn < texts.length) :
    fillPiece (texts.map .text) turn (.placeholder textPlaceholder) =
      .ok (texts[turn], turn + 1) := by
  have harg : (texts.map Argument.text)[turn]? = some (.text texts[turn]) := by simp [h]
  refine fillPiece_next rfl ?_
  rw [harg]
  exact fillPlaceholder_mantissa texts[turn]

/-- From some argument on, the pieces are filled with the texts to come. -/
theorem Writes.fillFrom (h : Writes first rest pieces) {texts : List Text} {turn : Nat}
    (htexts : texts.length = turn + rest.length) :
    fillFrom (texts.map .text) turn pieces =
      .ok (interleave first (texts.drop turn) rest) := by
  induction h generalizing turn with
  | nil => simp [Template.fillFrom, interleave]
  | @literal t first rest pieces _ ih =>
    rw [fillFrom_cons rfl, ih htexts, interleave_append]
    rfl
  | @placeholder next rest pieces _ ih =>
    rw [List.length_cons] at htexts
    have hturn : turn < texts.length := by omega
    rw [fillFrom_cons (fillPiece_text hturn), ih (by omega), List.drop_eq_getElem_cons hturn,
      interleave_cons]
    rfl

/-- The template is filled with the texts as they are, each in its place. -/
theorem format_textTemplate (first : Text) {texts rest : List Text}
    (h : texts.length = rest.length) :
    format (textTemplate first rest) (texts.map .text) = .ok (interleave first texts rest) := by
  obtain ⟨pieces, hparse, hwrites⟩ := parse_textTemplate first rest
  rw [format_of_parse hparse]
  exact hwrites.fillFrom (by rw [h, Nat.zero_add])

end ContestGrading.Template
