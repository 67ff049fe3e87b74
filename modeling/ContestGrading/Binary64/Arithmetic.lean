import ContestGrading.Binary64.Rounding
/-!
# Arithmetic on doubles

Each operation is the exact result rounded once. A sum that cancels is
`+0` unless both terms are negative; a product or quotient takes the sign
that the two signs give, zeros included.

Results:
* `add_comm`, `mul_comm`: the operations are symmetric.
* `minimum_nil`, `minimum_cons`: the least of a list, one element at a time.
-/
namespace ContestGrading.Binary64

/-- The sum. -/
def add : Binary64 → Binary64 → Binary64
  | .nan, _ => .nan
  | _, .nan => .nan
  | .infinite s, .infinite t => if s = t then .infinite s else .nan
  | .infinite s, .finite .. => .infinite s
  | .finite .., .infinite t => .infinite t
  | .finite s u hu, .finite t v hv =>
    let sum := scaled (.finite s u hu) + scaled (.finite t v hv)
    if sum = 0 then .finite (s && t) 0 representable_zero
    else ofRatio (sum < 0) sum.natAbs 1

/-- The product. -/
def mul : Binary64 → Binary64 → Binary64
  | .nan, _ => .nan
  | _, .nan => .nan
  | .infinite s, .infinite t => .infinite (s != t)
  | .infinite s, .finite t v _ => if v = 0 then .nan else .infinite (s != t)
  | .finite s u _, .infinite t => if u = 0 then .nan else .infinite (s != t)
  | .finite s u _, .finite t v _ => ofRatio (s != t) (u * v) unitsPerOne

/-- The quotient. -/
def div : Binary64 → Binary64 → Binary64
  | .nan, _ => .nan
  | _, .nan => .nan
  | .infinite _, .infinite _ => .nan
  | .infinite s, .finite t _ _ => .infinite (s != t)
  | .finite s _ _, .infinite t => .finite (s != t) 0 representable_zero
  | .finite s u _, .finite t v _ =>
    if v = 0 then (if u = 0 then .nan else .infinite (s != t))
    else ofRatio (s != t) (u * unitsPerOne) v

/-- The difference: the sum with the negated second number. -/
def sub (x y : Binary64) : Binary64 := add x (-y)

instance : Add Binary64 := ⟨add⟩
instance : Sub Binary64 := ⟨sub⟩
instance : Mul Binary64 := ⟨mul⟩
instance : Div Binary64 := ⟨div⟩

theorem add_comm (x y : Binary64) : x + y = y + x := by
  show add x y = add y x
  match x, y with
  | .nan, .nan => rfl
  | .nan, .infinite _ => rfl
  | .nan, .finite .. => rfl
  | .infinite _, .nan => rfl
  | .finite .., .nan => rfl
  | .infinite s, .infinite t => cases s <;> cases t <;> rfl
  | .infinite _, .finite .. => rfl
  | .finite .., .infinite _ => rfl
  | .finite s u hu, .finite t v hv =>
    simp only [add, Int.add_comm (scaled (.finite s u hu)), Bool.and_comm s]

theorem mul_comm (x y : Binary64) : x * y = y * x := by
  show mul x y = mul y x
  match x, y with
  | .nan, .nan => rfl
  | .nan, .infinite _ => rfl
  | .nan, .finite .. => rfl
  | .infinite _, .nan => rfl
  | .finite .., .nan => rfl
  | .infinite s, .infinite t => simp only [mul, bne_comm]
  | .infinite s, .finite t v _ => simp only [mul, bne_comm]
  | .finite s u _, .infinite t => simp only [mul, bne_comm]
  | .finite s u _, .finite t v _ => simp only [mul, bne_comm, Nat.mul_comm u]

/-! ## Folds over lists -/

/-- The lesser of two; NaN wins, and `-0` is below `+0`. -/
def min (x y : Binary64) : Binary64 :=
  if x.isNaN || y.isNaN then .nan
  else if x < y then x
  else if y < x then y
  else if x.negative then x else y

/-- The least of a list; `Infinity` for none. -/
def minimum (xs : List Binary64) : Binary64 := xs.foldr min (.infinite false)

@[simp] theorem minimum_nil : minimum [] = .infinite false := rfl

@[simp] theorem minimum_cons (x : Binary64) (xs : List Binary64) :
    minimum (x :: xs) = min x (minimum xs) := rfl

/-- The sum of a list, from zero and from left to right. -/
def sum (xs : List Binary64) : Binary64 := xs.foldl (· + ·) zero

/-- The product of a list, from one and from left to right. -/
def product (xs : List Binary64) : Binary64 := xs.foldl (· * ·) one

end ContestGrading.Binary64
