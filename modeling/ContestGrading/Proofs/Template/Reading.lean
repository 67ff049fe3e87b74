import ContestGrading.Proofs.Outcome
import ContestGrading.Template.Count
import Mathlib.Data.List.TakeDrop
import Mathlib.Data.List.TakeWhile
/-!
# What a template reads as

The pieces of a template stand in it one behind the other: literal texts,
doubled percent signs, and placeholders, each a percent sign with what the
reading of a placeholder goes through. Whatever is proved of a template that
can be read is proved along its pieces.

Results:
* `skipEnd?_breaksOff`: which units no placeholder goes on with.
* `readPlaceholder?_eq_some`: what the reading of a placeholder goes through.
* `parsed_of_parse`: the pieces of a template, one behind the other.
-/
namespace ContestGrading.Template

/-! ## The end of a placeholder -/

/-- What follows a width, a precision and a conversion. -/
def skipEnd? (t : Text) : Option Text :=
  match (readPrecision (readWidth t).2).2 with
  | [] => none
  | u :: rest => if (Conversion.ofUnit? u).isSome then some rest else none

/-- The same behind a hyphen, if there is one. -/
def skipBody? (t : Text) : Option Text := skipEnd? (readFlag 45 t).2

theorem readWidth_snd (t : Text) : (readWidth t).2 = t.dropWhile Text.isDigit := by
  have hcat := List.takeWhile_append_dropWhile (p := Text.isDigit) (l := t)
  rw [readWidth, List.span_eq_takeWhile_dropWhile]
  cases hw : t.takeWhile Text.isDigit with
  | nil =>
    rw [hw] at hcat
    exact hcat.symm
  | cons d ds => rfl

theorem readPrecision_of_no_point {u : UInt16} (hu : u ≠ 46) (t : Text) :
    readPrecision (u :: t) = (none, u :: t) := by
  unfold readPrecision
  split
  next heq => exact absurd (List.cons.inj heq).1 hu
  next => rfl

theorem readFlag_of_ne {u v : UInt16} (h : v ≠ u) (t : Text) :
    readFlag u (v :: t) = (false, v :: t) := if_neg h

/-- Neither a width nor a precision nor a conversion begins like this. -/
def BreaksOff (u : UInt16) : Prop :=
  Text.isDigit u = false ∧ u ≠ 46 ∧ Conversion.ofUnit? u = none

instance (u : UInt16) : Decidable (BreaksOff u) := inferInstanceAs (Decidable (_ ∧ _ ∧ _))

theorem skipEnd?_breaksOff {u : UInt16} (hu : BreaksOff u) (t : Text) :
    skipEnd? (u :: t) = none := by
  obtain ⟨hd, hp, hc⟩ := hu
  rw [skipEnd?, readWidth_snd, List.dropWhile_cons_of_neg (by simp [hd]),
    readPrecision_of_no_point hp]
  simp [hc]

theorem skipBody?_breaksOff {u : UInt16} (hu : BreaksOff u) (hm : u ≠ 45) (t : Text) :
    skipBody? (u :: t) = none := by
  rw [skipBody?, readFlag_of_ne hm, skipEnd?_breaksOff hu]

theorem skipEnd?_digit {d : UInt16} (hd : Text.isDigit d = true) (t : Text) :
    skipEnd? (d :: t) = skipEnd? t := by
  rw [skipEnd?, skipEnd?, readWidth_snd, readWidth_snd, List.dropWhile_cons_of_pos hd]

theorem skipEnd?_digits {ds : Text} (hds : ∀ v ∈ ds, Text.isDigit v = true) (t : Text) :
    skipEnd? (ds ++ t) = skipEnd? t := by
  induction ds with
  | nil => rfl
  | cons d ds ih =>
    obtain ⟨hd, hds⟩ := List.forall_mem_cons.mp hds
    rw [List.cons_append, skipEnd?_digit hd, ih hds]

/-! ## Texts without percent signs in front -/

/-- `rest` stands in a text behind units none of which is a percent sign. -/
def PlainTo (t rest : Text) : Prop := ∃ w, t = w ++ rest ∧ ∀ u ∈ w, u ≠ 37

namespace PlainTo

theorem refl (t : Text) : PlainTo t t := ⟨[], rfl, nofun⟩

theorem trans {t s r : Text} (h : PlainTo t s) (h' : PlainTo s r) : PlainTo t r := by
  obtain ⟨v, rfl, hv⟩ := h
  obtain ⟨w, rfl, hw⟩ := h'
  refine ⟨v ++ w, (List.append_assoc ..).symm, fun u hu => ?_⟩
  rcases List.mem_append.mp hu with hu | hu
  · exact hv u hu
  · exact hw u hu

theorem cons {u : UInt16} (hu : u ≠ 37) (t : Text) : PlainTo (u :: t) t :=
  ⟨[u], rfl, by simpa using hu⟩

theorem length_le {t rest : Text} (h : PlainTo t rest) : rest.length ≤ t.length := by
  obtain ⟨w, rfl, -⟩ := h
  simp

/-- Units that are no percent sign are passed. -/
theorem dropWhile {p : UInt16 → Bool} (hp : p 37 = false) (t : Text) :
    PlainTo t (t.dropWhile p) := by
  induction t with
  | nil => exact refl []
  | cons u t ih =>
    cases hu : p u with
    | false => rw [List.dropWhile_cons_of_neg (by simp [hu])]; exact refl _
    | true =>
      rw [List.dropWhile_cons_of_pos hu]
      refine (cons ?_ t).trans ih
      rintro rfl
      rw [hp] at hu
      cases hu

theorem digits {ds : Text} (hds : ∀ v ∈ ds, Text.isDigit v = true) (t : Text) :
    PlainTo (ds ++ t) t := by
  refine ⟨ds, rfl, ?_⟩
  rintro u hu rfl
  exact absurd (hds 37 hu) Bool.false_ne_true

theorem readFlag {u : UInt16} (hu : u ≠ 37) (t : Text) : PlainTo t (readFlag u t).2 := by
  unfold Template.readFlag
  split
  next v rest =>
    split
    next h => exact cons (h ▸ hu) rest
    next => exact refl _
  next => exact refl _

theorem readWidth (t : Text) : PlainTo t (readWidth t).2 := by
  rw [readWidth_snd]
  exact dropWhile rfl t

theorem readPrecision (t : Text) : PlainTo t (readPrecision t).2 := by
  unfold Template.readPrecision
  split
  next rest =>
    rw [List.span_eq_takeWhile_dropWhile]
    cases rest.takeWhile Text.isDigit with
    | nil => exact refl _
    | cons d ds => exact (cons (by decide) rest).trans (dropWhile rfl rest)
  next => exact refl _

theorem skipEnd? {t rest : Text} (h : skipEnd? t = some rest) : PlainTo t rest := by
  have hend := (readWidth t).trans (readPrecision (Template.readWidth t).2)
  unfold Template.skipEnd? at h
  split at h
  next => cases h
  next u _ heq =>
    rw [heq] at hend
    split at h
    next hu =>
      cases h
      refine hend.trans (cons ?_ _)
      rintro rfl
      exact absurd hu (by decide)
    next => cases h

theorem skipBody? {t rest : Text} (h : skipBody? t = some rest) : PlainTo t rest :=
  (readFlag (by decide) t).trans (skipEnd? h)

end PlainTo

/-! ## The parts of a placeholder -/

theorem readFlag_cases (u : UInt16) (t : Text) :
    (∃ r, t = u :: r ∧ readFlag u t = (true, r)) ∨ readFlag u t = (false, t) := by
  fun_cases readFlag u t with
  | case1 r => exact .inl ⟨r, rfl, rfl⟩
  | case2 v r hv => exact .inr rfl
  | case3 => exact .inr rfl

theorem readFill_cases (t : Text) :
    (∃ r, t = 48 :: r ∧ readFill t = (48, r)) ∨
      (∃ u r, t = 39 :: u :: r ∧ u ≠ 36 ∧ readFill t = (u, r)) ∨ readFill t = (32, t) := by
  fun_cases readFill t with
  | case1 r => exact .inl ⟨r, rfl, rfl⟩
  | case2 r => exact .inr (.inr rfl)
  | case3 u r hu => exact .inr (.inl ⟨u, r, rfl, hu, rfl⟩)
  | case4 => exact .inr (.inr rfl)

theorem readSource_cases (t : Text) :
    (∃ name s, t = 40 :: name ++ 41 :: s ∧ readSource t = (.name name, s)) ∨
      (∃ u ds s, t = u :: ds ++ 36 :: s ∧ 49 ≤ u ∧ (∀ v ∈ u :: ds, Text.isDigit v = true) ∧
        readSource t = (.position (numberOf (u :: ds)), s)) ∨
      readSource t = (.next, t) := by
  unfold readSource
  split
  next rest =>
    split
    next u name s hspan =>
      rw [List.span_eq_takeWhile_dropWhile, Prod.mk.injEq] at hspan
      refine .inl ⟨u :: name, s, ?_, rfl⟩
      rw [← hspan.1, ← hspan.2, List.cons_append, List.takeWhile_append_dropWhile]
    next => exact .inr (.inr rfl)
  next u r _ =>
    split
    next hu =>
      split
      next ds rest hspan =>
        have hdigit : Text.isDigit u = true := by
          simpa [Text.isDigit] using ⟨UInt16.le_trans (by decide) hu.1, hu.2⟩
        rw [List.span_eq_takeWhile_dropWhile, List.takeWhile_cons_of_pos hdigit,
          List.dropWhile_cons_of_pos hdigit, Prod.mk.injEq] at hspan
        obtain ⟨rfl, hrest⟩ := hspan
        refine .inr (.inl ⟨u, r.takeWhile Text.isDigit, rest, ?_, hu.1, ?_, rfl⟩)
        · rw [← hrest, List.cons_append, List.takeWhile_append_dropWhile]
        · intro v hv
          rcases List.mem_cons.mp hv with rfl | hv
          · exact hdigit
          · exact List.mem_takeWhile_imp hv
      next => exact .inr (.inr rfl)
    next => exact .inr (.inr rfl)
  next => exact .inr (.inr rfl)

theorem readSource_eq_next {t : Text} (h : (readSource t).1 = .next) : readSource t = (.next, t) := by
  rcases readSource_cases t with ⟨_, _, -, hr⟩ | ⟨_, _, _, -, -, -, hr⟩ | hr
  · rw [hr] at h
    cases h
  · rw [hr] at h
    cases h
  · exact hr

/-- A position is written in digits, the first of them no zero. -/
theorem readSource_eq_position {t : Text} {index : Nat} (h : (readSource t).1 = .position index) :
    ∃ u ds s, t = u :: ds ++ 36 :: s ∧ 49 ≤ u ∧ (∀ v ∈ u :: ds, Text.isDigit v = true) ∧
      readSource t = (.position index, s) := by
  rcases readSource_cases t with ⟨_, _, -, hr⟩ | ⟨u, ds, s, ht, hu, hds, hr⟩ | hr
  · rw [hr] at h
    cases h
  · refine ⟨u, ds, s, ht, hu, hds, ?_⟩
    rw [hr] at h ⊢
    rw [← h]
  · rw [hr] at h
    cases h

/-- What the reading of a placeholder goes through. -/
theorem readPlaceholder?_eq_some {t rest : Text} {written : WrittenSource}
    {p : Source → Placeholder} (h : readPlaceholder? t = some (written, p, rest)) :
    (readSource t).1 = written ∧
      skipBody? (readFill (readFlag 43 (readSource t).2).2).2 = some rest ∧
      ∀ source, (p source).source = source ∧
        (p source).fill = (readFill (readFlag 43 (readSource t).2).2).1 := by
  unfold readPlaceholder? at h
  dsimp only at h
  split at h
  next => cases h
  next u r heq =>
    cases hc : Conversion.ofUnit? u with
    | none =>
      rw [hc] at h
      cases h
    | some c =>
      rw [hc] at h
      cases h
      refine ⟨rfl, ?_, fun source => ⟨rfl, rfl⟩⟩
      rw [skipBody?, skipEnd?, heq]
      simp [hc]

theorem readFill_length_le (t : Text) : (readFill t).2.length ≤ t.length := by
  rcases readFill_cases t with ⟨r, rfl, hr⟩ | ⟨u, r, rfl, -, hr⟩ | hr <;> rw [hr] <;> simp
  omega

theorem readSource_length_le (t : Text) : (readSource t).2.length ≤ t.length := by
  rcases readSource_cases t with ⟨name, s, rfl, hr⟩ | ⟨u, ds, s, rfl, -, -, hr⟩ | hr <;>
    rw [hr] <;> simp <;> omega

theorem readPlaceholder?_length_le {t rest : Text} {written : WrittenSource}
    {p : Source → Placeholder} (h : readPlaceholder? t = some (written, p, rest)) :
    rest.length ≤ t.length := by
  obtain ⟨-, hbody, -⟩ := readPlaceholder?_eq_some h
  calc rest.length
      ≤ (readFill (readFlag 43 (readSource t).2).2).2.length := (PlainTo.skipBody? hbody).length_le
    _ ≤ (readFlag 43 (readSource t).2).2.length := readFill_length_le _
    _ ≤ (readSource t).2.length := (PlainTo.readFlag (by decide) _).length_le
    _ ≤ t.length := readSource_length_le t

/-! ## The pieces of a template -/

/-- The source that is settled for what is written. -/
inductive Settled : WrittenSource → Source → Prop where
  | next : Settled .next .next
  | position (index : Nat) : Settled (.position index) (.position index)
  | name (name : Text) (keys : List Text) : Settled (.name name) (.path keys)

theorem settled_of_settleSource {met met' : Met} {written : WrittenSource} {source : Source}
    (h : settleSource met written = .ok (source, met')) : Settled written source := by
  unfold settleSource at h
  split at h
  next name =>
    split at h
    next => cases h
    next keys _ =>
      split at h
      next => cases h
      next =>
        cases h
        exact .name name keys
  next =>
    split at h
    next => cases h
    next =>
      cases h
      exact .next
  next index =>
    split at h
    next => cases h
    next =>
      cases h
      exact .position index

/-- A text and the pieces that stand in it, one behind the other. -/
inductive Parsed : Text → List Piece → Prop where
  | nil : Parsed [] []
  | percent {rest : Text} {pieces : List Piece} (h : Parsed rest pieces) :
    Parsed (37 :: 37 :: rest) (.literal [37] :: pieces)
  | placeholder {t rest : Text} {written : WrittenSource} {p : Source → Placeholder}
    {source : Source} {pieces : List Piece}
    (hp : readPlaceholder? t = some (written, p, rest)) (hs : Settled written source)
    (h : Parsed rest pieces) : Parsed (37 :: t) (.placeholder (p source) :: pieces)
  | literal {t rest : Text} {pieces : List Piece} (ht : ∀ u ∈ t, u ≠ 37)
    (h : Parsed rest pieces) : Parsed (t ++ rest) (.literal t :: pieces)

theorem parsed_of_parseFrom {fuel : Nat} {met : Met} {t : Text} {pieces : List Piece}
    (h : parseFrom fuel met t = .ok pieces) (hf : t.length ≤ fuel) : Parsed t pieces := by
  fun_induction parseFrom fuel met t generalizing pieces with
  | case1 =>
    cases h
    exact .nil
  | case2 met t ht =>
    cases t with
    | nil => exact absurd rfl ht
    | cons u t => exact absurd hf (Nat.not_succ_le_zero _)
  | case3 fuel met rest ih =>
    obtain ⟨pieces, hrest, h⟩ := bind_eq_ok_iff.mp h
    cases h
    simp only [List.length_cons] at hf
    exact .percent (ih hrest (by omega))
  | case4 => cases h
  | case5 fuel met rest hne written p rest' hp ih =>
    obtain ⟨⟨source, met'⟩, hs, h⟩ := bind_eq_ok_iff.mp h
    obtain ⟨pieces, hrest, h⟩ := bind_eq_ok_iff.mp h
    cases h
    have hle := readPlaceholder?_length_le hp
    simp only [List.length_cons] at hf
    exact .placeholder hp (settled_of_settleSource hs) (ih met' hrest (by omega))
  | case6 fuel met t h1 h2 h3 literal rest hspan ih =>
    obtain ⟨pieces, hrest, h⟩ := bind_eq_ok_iff.mp h
    cases h
    rw [List.span_eq_takeWhile_dropWhile, Prod.mk.injEq] at hspan
    obtain ⟨rfl, rfl⟩ := hspan
    have hplain : ∀ u ∈ t.takeWhile (· != 37), u ≠ 37 := fun u hu => by
      simpa using List.mem_takeWhile_imp hu
    have hlength : (t.dropWhile (· != 37)).length < t.length := by
      cases t with
      | nil => exact absurd rfl h1
      | cons u t =>
        have hu : u ≠ 37 := fun hu => h3 t (hu ▸ rfl)
        rw [List.dropWhile_cons_of_pos (by simpa using hu)]
        exact Nat.lt_succ_of_le (List.dropWhile_suffix _).length_le
    have hparsed := Parsed.literal hplain (ih hrest (by omega))
    rwa [List.takeWhile_append_dropWhile] at hparsed

theorem parsed_of_parse {t : Text} {pieces : List Piece} (h : parse t = .ok pieces) :
    Parsed t pieces := parsed_of_parseFrom h (Nat.le_refl _)

end ContestGrading.Template
