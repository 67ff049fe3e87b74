/-!
# Texts as sequences of UTF-16 code units

Lengths, cuts, order and patterns all count code units, and a cut may leave
a surrogate alone, so a text is its list of units. `toString` shows it, with
U+FFFD for every surrogate that has no partner.

Results:
* `ofString_append`: units are taken character by character.
* `ble_refl`, `ble_trans`, `ble_antisymm`, `ble_total`: the order by units is
  a total order.
-/
namespace ContestGrading

/-- A text: its UTF-16 code units in order. -/
abbrev Text := List UInt16

namespace Text

/-! ## Characters and units -/

/-- The one or two units of a character. -/
def unitsOf (c : Char) : Text :=
  if c.toNat < 0x10000 then [UInt16.ofNat c.toNat]
  else
    let offset := c.toNat - 0x10000
    [UInt16.ofNat (0xD800 + offset / 0x400), UInt16.ofNat (0xDC00 + offset % 0x400)]

def ofString (s : String) : Text := s.toList.flatMap unitsOf

instance : Coe String Text := ⟨ofString⟩

theorem ofString_append (s t : String) : ofString (s ++ t) = ofString s ++ ofString t := by
  simp [ofString, String.toList_append, List.flatMap_append]

def isHighSurrogate (u : UInt16) : Bool := 0xD800 ≤ u && u ≤ 0xDBFF

def isLowSurrogate (u : UInt16) : Bool := 0xDC00 ≤ u && u ≤ 0xDFFF

/-- The character of a surrogate pair. -/
def pairChar (high low : UInt16) : Char :=
  Char.ofNat (0x10000 + (high.toNat - 0xD800) * 0x400 + (low.toNat - 0xDC00))

/-- The character of a single unit; a lone surrogate shows as U+FFFD. -/
def unitChar (u : UInt16) : Char :=
  if isHighSurrogate u || isLowSurrogate u then '\ufffd' else Char.ofNat u.toNat

def toChars : Text → List Char
  | [] => []
  | [u] => [unitChar u]
  | u :: v :: rest =>
    if isHighSurrogate u && isLowSurrogate v then pairChar u v :: toChars rest
    else unitChar u :: toChars (v :: rest)

/-- The text as a character string, lone surrogates replaced by U+FFFD. -/
def toString (t : Text) : String := String.ofList t.toChars

/-- Lone surrogates replaced by U+FFFD. -/
def wellFormed (t : Text) : Text := t.toChars.flatMap unitsOf

/-! ## Order -/

/-- The lexicographic order by code units. -/
def ble : Text → Text → Bool
  | [], _ => true
  | _ :: _, [] => false
  | u :: us, v :: vs => if u = v then ble us vs else u < v

theorem ble_refl (t : Text) : ble t t = true := by
  induction t with
  | nil => rfl
  | cons u us ih => simp [ble, ih]

theorem ble_total (s t : Text) : ble s t || ble t s := by
  induction s generalizing t with
  | nil => simp [ble]
  | cons u us ih =>
    cases t with
    | nil => simp [ble]
    | cons v vs =>
      by_cases h : u = v
      · subst h; simpa [ble] using ih vs
      · have hv : v ≠ u := fun e => h e.symm
        simp only [ble, if_neg h, if_neg hv, Bool.or_eq_true, decide_eq_true_eq]
        exact UInt16.lt_or_lt_of_ne h

theorem ble_antisymm {s t : Text} (h : ble s t = true) (h' : ble t s = true) : s = t := by
  induction s generalizing t with
  | nil =>
    cases t with
    | nil => rfl
    | cons v vs => cases h'
  | cons u us ih =>
    cases t with
    | nil => cases h
    | cons v vs =>
      by_cases e : u = v
      · subst e
        simp only [ble, if_true] at h h'
        rw [ih h h']
      · have e' : v ≠ u := fun e' => e e'.symm
        simp only [ble, if_neg e, if_neg e', decide_eq_true_eq] at h h'
        exact absurd h' (UInt16.lt_asymm h)

theorem ble_trans {s t r : Text} (h : ble s t = true) (h' : ble t r = true) :
    ble s r = true := by
  induction s generalizing t r with
  | nil => rfl
  | cons u us ih =>
    cases t with
    | nil => cases h
    | cons v vs =>
      cases r with
      | nil => cases h'
      | cons w ws =>
        by_cases e : u = v
        · subst e
          by_cases e' : u = w
          · subst e'
            simp only [ble, if_true] at h h' ⊢
            exact ih h h'
          · simp only [ble, if_neg e', decide_eq_true_eq] at h' ⊢
            exact h'
        · simp only [ble, if_neg e, decide_eq_true_eq] at h
          -- the first unit that differs is less, whatever follows
          have hlt : u < w := by
            by_cases e' : v = w
            · rwa [← e']
            · simp only [ble, if_neg e', decide_eq_true_eq] at h'
              exact UInt16.lt_trans h h'
          have hne : u ≠ w := fun e' => UInt16.lt_irrefl w (e' ▸ hlt)
          simp only [ble, if_neg hne, decide_eq_true_eq]
          exact hlt

/-! ## Character classes of ASCII -/

def isDigit (u : UInt16) : Bool := 48 ≤ u && u ≤ 57

def isLetter (u : UInt16) : Bool := (65 ≤ u && u ≤ 90) || (97 ≤ u && u ≤ 122)

/-- The value of a hexadecimal digit of either case. -/
def hexValue? (u : UInt16) : Option Nat :=
  if isDigit u then some (u.toNat - 48)
  else if 65 ≤ u && u ≤ 70 then some (u.toNat - 55)
  else if 97 ≤ u && u ≤ 102 then some (u.toNat - 87)
  else none

/-- A letter of ASCII in lower case; every other unit as it is. -/
def lowerUnit (u : UInt16) : UInt16 := if 65 ≤ u && u ≤ 90 then u + 32 else u

end Text

end ContestGrading
