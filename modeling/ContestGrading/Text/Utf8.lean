import ContestGrading.Text.Basic
/-!
# Texts from UTF-8

`decode` reads bytes as UTF-8. Each longest start of a sequence that cannot
go on becomes one U+FFFD, and reading resumes at the byte that broke it; a
byte order mark is a character like any other. `encode` writes a text as
UTF-8.

Results:
* `decode_nil`: no bytes, no text.
* `stepByte_ascii`: a byte below 128 stands for itself.
-/
namespace ContestGrading.Text

/-- A sequence under way: the bits read, how many bytes are missing, and the
bounds of the next one. -/
structure Utf8Pending where
  bits : Nat
  missing : Nat
  low : UInt8
  high : UInt8

def replacement : Text := [0xFFFD]

def ofCodePoint (n : Nat) : Text := unitsOf (Char.ofNat n)

/-- What a byte outside a sequence gives: text, and the sequence it opens. -/
def openByte (b : UInt8) : Text × Option Utf8Pending :=
  if b < 0x80 then (ofCodePoint b.toNat, none)
  else if 0xC2 ≤ b ∧ b ≤ 0xDF then ([], some ⟨b.toNat - 0xC0, 1, 0x80, 0xBF⟩)
  else if 0xE0 ≤ b ∧ b ≤ 0xEF then
    ([], some ⟨b.toNat - 0xE0, 2, if b = 0xE0 then 0xA0 else 0x80, if b = 0xED then 0x9F else 0xBF⟩)
  else if 0xF0 ≤ b ∧ b ≤ 0xF4 then
    ([], some ⟨b.toNat - 0xF0, 3, if b = 0xF0 then 0x90 else 0x80, if b = 0xF4 then 0x8F else 0xBF⟩)
  else (replacement, none)

/-- What a byte gives, inside or outside a sequence. -/
def stepByte (pending : Option Utf8Pending) (b : UInt8) : Text × Option Utf8Pending :=
  match pending with
  | none => openByte b
  | some p =>
    if p.low ≤ b ∧ b ≤ p.high then
      let bits := p.bits * 64 + (b.toNat - 0x80)
      if p.missing ≤ 1 then (ofCodePoint bits, none)
      else ([], some ⟨bits, p.missing - 1, 0x80, 0xBF⟩)
    else
      let (text, next) := openByte b
      (replacement ++ text, next)

/-- The text of the bytes to come, in the given state, behind `done` (the
units so far, the last first). -/
def decodeFrom (done : Text) (pending : Option Utf8Pending) : List UInt8 → Text
  | [] => (if pending.isSome then 0xFFFD :: done else done).reverse
  | b :: rest =>
    let (text, next) := stepByte pending b
    decodeFrom (text.reverse ++ done) next rest

/-- The text that the bytes hold. -/
def decode (bytes : List UInt8) : Text := decodeFrom [] none bytes

def encode (t : Text) : List UInt8 := t.toString.toUTF8.toList

theorem decode_nil : decode [] = [] := rfl

theorem stepByte_ascii {b : UInt8} (h : b < 0x80) :
    stepByte none b = (ofCodePoint b.toNat, none) := by
  simp [stepByte, openByte, h]

end ContestGrading.Text
