import ContestGrading.Journal
import ContestGrading.Proofs.Outcome
import Mathlib.Data.List.Forall2
/-!
# What a journal went through

Results:
* `andThen_of_ok`, `andThen_of_error`: a sequence whose first step is known.
* `outcome_andThen_ok`: a sequence that succeeds, step by step.
* `notes_andThen_of_quiet`: a step that notes nothing.
* `seen_andThen_of_quiet`, `seen_convert`: the notes that are looked for.
* `forEach_map`, `forEach_attempt`, `forEach_eq_ok_iff`: one journal for each
  element of a list.
-/
namespace ContestGrading

namespace Journal

variable {ν ε α β γ : Type}

theorem andThen_of_ok {j : Journal ν ε α} {a : α} (h : j.outcome = .ok a)
    (f : α → Journal ν ε β) : j.andThen f = ⟨j.notes ++ (f a).notes, (f a).outcome⟩ := by
  unfold andThen
  rw [h]

theorem andThen_of_error {j : Journal ν ε α} {e : ε} (h : j.outcome = .error e)
    (f : α → Journal ν ε β) : j.andThen f = ⟨j.notes, .error e⟩ := by
  unfold andThen
  rw [h]

theorem outcome_andThen {j : Journal ν ε α} {a : α} (h : j.outcome = .ok a)
    (f : α → Journal ν ε β) : (j.andThen f).outcome = (f a).outcome := by
  rw [andThen, h]

theorem outcome_andThen_error {j : Journal ν ε α} {e : ε} (h : j.outcome = .error e)
    (f : α → Journal ν ε β) : (j.andThen f).outcome = .error e := by
  rw [andThen, h]

theorem outcome_andThen_ok {j : Journal ν ε α} {f : α → Journal ν ε β} {b : β}
    (h : (j.andThen f).outcome = .ok b) : ∃ a, j.outcome = .ok a ∧ (f a).outcome = .ok b := by
  cases ho : j.outcome with
  | error e => simp [andThen, ho] at h
  | ok a => exact ⟨a, rfl, by simpa [andThen, ho] using h⟩

theorem outcome_convert_ok {μ δ : Type} {note : ν → μ} {error : ε → δ} {j : Journal ν ε α} {a : α} :
    (j.convert note error).outcome = .ok a ↔ j.outcome = .ok a := mapError_eq_ok_iff

theorem outcome_convert_error {μ δ : Type} {note : ν → μ} {error : ε → δ} {j : Journal ν ε α}
    {e : ε} (h : j.outcome = .error e) : (j.convert note error).outcome = .error (error e) := by
  rw [convert, h]
  rfl

theorem andThen_congr {j : Journal ν ε α} {f g : α → Journal ν ε β}
    (h : ∀ a, j.outcome = .ok a → f a = g a) : j.andThen f = j.andThen g := by
  cases ho : j.outcome with
  | error e => rw [andThen_of_error ho, andThen_of_error ho]
  | ok a => rw [andThen_of_ok ho, andThen_of_ok ho, h a ho]

/-- A note is that of one of the steps. -/
theorem mem_notes_andThen {j : Journal ν ε α} {f : α → Journal ν ε β} {n : ν}
    (h : n ∈ (j.andThen f).notes) : n ∈ j.notes ∨ ∃ a, j.outcome = .ok a ∧ n ∈ (f a).notes := by
  cases ho : j.outcome with
  | error e => exact .inl (notes_andThen_error ho f ▸ h)
  | ok a =>
    rw [notes_andThen_ok ho, List.mem_append] at h
    exact h.imp_right fun h => ⟨a, rfl, h⟩

/-- A step that nothing follows leaves the notes as they are. -/
theorem notes_andThen_of_quiet (j : Journal ν ε α) {f : α → Journal ν ε β}
    (hf : ∀ a, (f a).notes = []) : (j.andThen f).notes = j.notes := by
  cases ho : j.outcome with
  | error e => exact notes_andThen_error ho f
  | ok a => rw [notes_andThen_ok ho, hf, List.append_nil]

/-- What the notes tell of what is looked for, in order. -/
def seen {μ : Type} (p : ν → Option μ) (j : Journal ν ε α) : List μ := j.notes.filterMap p

section Seen

variable {μ : Type} {p : ν → Option μ}

theorem seen_andThen_ok {j : Journal ν ε α} {a : α} (h : j.outcome = .ok a)
    (f : α → Journal ν ε β) : (j.andThen f).seen p = j.seen p ++ (f a).seen p := by
  rw [seen, notes_andThen_ok h, List.filterMap_append, ← seen, ← seen]

theorem seen_andThen_error {j : Journal ν ε α} {e : ε} (h : j.outcome = .error e)
    (f : α → Journal ν ε β) : (j.andThen f).seen p = j.seen p := by
  rw [seen, notes_andThen_error h, ← seen]

/-- Nothing more is seen after a step that nothing follows. -/
theorem seen_andThen_of_quiet (j : Journal ν ε α) {f : α → Journal ν ε β}
    (hf : ∀ a, (f a).seen p = []) : (j.andThen f).seen p = j.seen p := by
  cases ho : j.outcome with
  | error e => exact seen_andThen_error ho f
  | ok a => rw [seen_andThen_ok ho, hf, List.append_nil]

theorem seen_thenAlways (j : Journal ν ε α) (last : List ν) :
    (j.thenAlways last).seen p = j.seen p ++ last.filterMap p := List.filterMap_append

theorem seen_convert {ν' δ : Type} (note : ν' → ν) (error : δ → ε) (j : Journal ν' δ α) :
    (j.convert note error).seen p = j.seen (p ∘ note) := List.filterMap_map

theorem seen_none (j : Journal ν ε α) : j.seen (fun _ => (none : Option μ)) = [] :=
  List.filterMap_eq_nil_iff.mpr fun _ _ => rfl

end Seen

theorem forEach_map (f : β → Journal ν ε γ) (g : α → β) (as : List α) :
    forEach f (as.map g) = forEach (fun a => f (g a)) as := by
  induction as with
  | nil => rfl
  | cons a as ih => rw [List.map_cons, forEach, forEach, ih]

/-- The same journal with its outcome as its value. -/
def attempt (j : Journal ν ε α) : Journal ν ε (Except ε α) := ⟨j.notes, .ok j.outcome⟩

/-- Of attempts, every one leaves its notes and its outcome. -/
theorem forEach_attempt (f : α → Journal ν ε β) (as : List α) :
    forEach (fun a => (f a).attempt) as =
      ⟨as.flatMap fun a => (f a).notes, .ok (as.map fun a => (f a).outcome)⟩ := by
  induction as with
  | nil => rfl
  | cons a as ih =>
    unfold forEach
    rw [ih]
    simp [bind, andThen, attempt, pure, done]

/-- A value for each element, in their order. -/
theorem forEach_eq_ok_iff {f : α → Journal ν ε β} {as : List α} {bs : List β} :
    (forEach f as).outcome = .ok bs ↔
      List.Forall₂ (fun a b => (f a).outcome = .ok b) as bs := by
  induction as generalizing bs with
  | nil =>
    rw [List.forall₂_nil_left_iff]
    constructor
    · intro h
      cases h
      rfl
    · rintro rfl
      rfl
  | cons a as ih =>
    rw [List.forall₂_cons_left_iff]
    constructor
    · intro h
      obtain ⟨b, hb, h⟩ := outcome_andThen_ok h
      obtain ⟨rest, hrest, h⟩ := outcome_andThen_ok h
      cases h
      exact ⟨b, rest, hb, ih.mp hrest, rfl⟩
    · rintro ⟨b, rest, hb, hrest, rfl⟩
      rw [forEach, bind_eq, outcome_andThen hb, bind_eq, outcome_andThen (ih.mpr hrest)]
      rfl

/-- What each value tells of its element, the list of values tells of the list. -/
theorem map_of_forEach_ok {f : α → Journal ν ε β} {p : β → γ} {q : α → γ}
    (hf : ∀ a b, (f a).outcome = .ok b → p b = q a) {as : List α} {bs : List β}
    (h : (forEach f as).outcome = .ok bs) : bs.map p = as.map q := by
  have hvalues := forEach_eq_ok_iff.mp h
  clear h
  induction hvalues with
  | nil => rfl
  | cons hb _ ih => rw [List.map_cons, List.map_cons, hf _ _ hb, ih]

end Journal

end ContestGrading
