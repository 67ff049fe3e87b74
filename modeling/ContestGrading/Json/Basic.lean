import ContestGrading.Binary64.Arithmetic
import ContestGrading.Decimal.Digits
/-!
# JSON values

Members of an object are kept in the order in which they are listed and
written: keys that are array indices first, in ascending order, and then the
others as they first came. A repeated key keeps its place and takes the last
value.

Results:
* `get?_put_self`, `get?_put_of_ne`: a member put is the one found, and no
  other changes.
-/
namespace ContestGrading

inductive Json where
  | null
  | bool (value : Bool)
  | number (value : Binary64)
  | string (value : Text)
  | list (items : List Json)
  | object (members : List (Text × Json))
  deriving Inhabited

namespace Json

/-- What kind of value it is, in the words of a message. -/
def kind : Json → Text
  | .null => "object"
  | .bool _ => "boolean"
  | .number _ => "number"
  | .string _ => "string"
  | .list _ => "object"
  | .object _ => "object"

def ofNat (n : Nat) : Json := .number (.ofNat n)

end Json

/-- Members of an object, in order. -/
abbrev Members (α : Type) := List (Text × α)

namespace Members

variable {α : Type}

/-- The value under a key. -/
def get? (members : Members α) (key : Text) : Option α :=
  (members.find? fun m => m.1 == key).map (·.2)

/-- Puts a value under a key: in its place if the key is there, last if not. -/
def put (key : Text) (value : α) : Members α → Members α
  | [] => [(key, value)]
  | m :: rest => if m.1 == key then (key, value) :: rest else m :: put key value rest

/-- The number that a key writes, if it is an array index in its only
spelling. -/
def arrayIndex? (key : Text) : Option Nat :=
  let n := Decimal.ofDigits (key.map fun u => u.toNat - 48)
  if key.all Text.isDigit && Decimal.natText n == key && n < 4294967295 then some n else none

/-- Array indices first, in ascending order, then the others as they are. -/
def arrange (members : Members α) : Members α :=
  let indexed := members.filterMap fun m => (arrayIndex? m.1).map (·, m)
  (indexed.mergeSort fun a b => a.1 ≤ b.1).map (·.2) ++
    members.filter fun m => (arrayIndex? m.1).isNone

/-- The members of an object that lists these, one after the other. -/
def ofList (entries : List (Text × α)) : Members α :=
  arrange (entries.foldl (fun members e => put e.1 e.2 members) [])

theorem get?_put_self (key : Text) (value : α) (members : Members α) :
    get? (put key value members) key = some value := by
  induction members with
  | nil => simp [put, get?]
  | cons m rest ih =>
    by_cases h : m.1 == key
    · simp [put, h, get?]
    · simpa [put, h, get?] using ih

theorem get?_put_of_ne {key other : Text} (h : other ≠ key) (value : α) (members : Members α) :
    get? (put key value members) other = get? members other := by
  have hk : (key == other) = false := beq_false_of_ne h.symm
  induction members with
  | nil => simp [put, get?, hk]
  | cons m rest ih =>
    by_cases hm : m.1 == key
    · have hm' : (m.1 == other) = false := by rw [eq_of_beq hm]; exact hk
      simp [put, hm, get?, hk, hm']
    · by_cases ho : m.1 == other
      · simp [put, hm, get?, ho]
      · simpa [put, hm, get?, List.find?_cons, ho] using ih

end Members

end ContestGrading
