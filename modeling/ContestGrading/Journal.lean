/-!
# Journals

A journal is a computation that writes notes as it goes and ends in a value
or an error; what was noted before an error stays noted.

Results:
* `done_andThen`, `andThen_done`, `andThen_assoc`: journals form a monad.
* `notes_andThen_ok`, `notes_andThen_error`: the notes of a sequence.
-/
namespace ContestGrading

structure Journal (ν ε α : Type) where
  notes : List ν
  outcome : Except ε α

namespace Journal

variable {ν ε α β : Type}

/-- A value, without notes. -/
def done (value : α) : Journal ν ε α := ⟨[], .ok value⟩

/-- An error, without notes. -/
def fail (error : ε) : Journal ν ε α := ⟨[], .error error⟩

/-- One note. -/
def note (n : ν) : Journal ν ε Unit := ⟨[n], .ok ()⟩

/-- Several notes, in order. -/
def noteAll (ns : List ν) : Journal ν ε Unit := ⟨ns, .ok ()⟩

/-- An outcome, without notes. -/
def ofExcept (outcome : Except ε α) : Journal ν ε α := ⟨[], outcome⟩

/-- Goes on with the value; an error ends the journal. -/
def andThen (j : Journal ν ε α) (f : α → Journal ν ε β) : Journal ν ε β :=
  match j.outcome with
  | .ok value => ⟨j.notes ++ (f value).notes, (f value).outcome⟩
  | .error error => ⟨j.notes, .error error⟩

instance : Monad (Journal ν ε) where
  pure := done
  bind := andThen

/-- The same journal with notes and errors of other types. -/
def convert {μ δ : Type} (note : ν → μ) (error : ε → δ) (j : Journal ν ε α) : Journal μ δ α :=
  ⟨j.notes.map note, j.outcome.mapError error⟩

/-- The same journal with more notes at the end, however it ended. -/
def thenAlways (j : Journal ν ε α) (last : List ν) : Journal ν ε α := ⟨j.notes ++ last, j.outcome⟩

/-- One journal after the other, for each element of a list. -/
def forEach (f : α → Journal ν ε β) : List α → Journal ν ε (List β)
  | [] => done []
  | a :: rest => do
    let b ← f a
    let bs ← forEach f rest
    return b :: bs

theorem bind_eq (j : Journal ν ε α) (f : α → Journal ν ε β) : j >>= f = j.andThen f := rfl

@[simp] theorem done_andThen (value : α) (f : α → Journal ν ε β) :
    (done value).andThen f = f value := by
  simp [andThen, done]

@[simp] theorem andThen_done (j : Journal ν ε α) : j.andThen done = j := by
  rcases j with ⟨notes, outcome⟩
  cases outcome <;> simp [andThen, done]

theorem andThen_assoc {γ : Type} (j : Journal ν ε α) (f : α → Journal ν ε β)
    (g : β → Journal ν ε γ) : (j.andThen f).andThen g = j.andThen fun a => (f a).andThen g := by
  rcases j with ⟨notes, outcome⟩
  cases outcome with
  | error e => rfl
  | ok a =>
    simp only [andThen]
    cases (f a).outcome <;> simp

theorem notes_andThen_ok {j : Journal ν ε α} {a : α} (h : j.outcome = .ok a)
    (f : α → Journal ν ε β) : (j.andThen f).notes = j.notes ++ (f a).notes := by
  simp [andThen, h]

theorem notes_andThen_error {j : Journal ν ε α} {e : ε} (h : j.outcome = .error e)
    (f : α → Journal ν ε β) : (j.andThen f).notes = j.notes := by
  simp [andThen, h]

end Journal

end ContestGrading
