import Std.Data.TreeSet
/-!
# Trails

A trail holds what was met on a way, each thing once, in the order in which
it was first met. Whether a thing was met before is looked up by an order.

Results:
* `toList_insert_of_contains`: what was met before changes nothing.
* `toList_insert`: what is new comes last.
* `isEmpty_distinct`: a list and its distinct members are empty together.
-/
namespace ContestGrading.Pattern

/-- What was met, the latest first, and the same as a set. -/
structure Trail (α : Type) (order : α → α → Ordering) where
  latestFirst : List α
  members : Std.TreeSet α order

namespace Trail

variable {α : Type} {order : α → α → Ordering}

def empty : Trail α order := ⟨[], ∅⟩

def contains (trail : Trail α order) (x : α) : Bool := trail.members.contains x

/-- Adds what was not met before. -/
def insert (trail : Trail α order) (x : α) : Trail α order :=
  if trail.contains x then trail else ⟨x :: trail.latestFirst, trail.members.insert x⟩

def toList (trail : Trail α order) : List α := trail.latestFirst.reverse

/-- The members of a list, each where it first occurs. -/
def distinct (order : α → α → Ordering) : List α → List α
  | [] => []
  | [x] => [x]
  | x :: rest => (rest.foldl insert ((empty : Trail α order).insert x)).toList

theorem toList_insert_of_contains {trail : Trail α order} {x : α} (h : trail.contains x = true) :
    (trail.insert x).toList = trail.toList := by
  simp [insert, h]

theorem toList_insert {trail : Trail α order} {x : α} (h : trail.contains x = false) :
    (trail.insert x).toList = trail.toList ++ [x] := by
  simp [insert, h, toList]

theorem latestFirst_foldl_ne_nil {trail : Trail α order} (h : trail.latestFirst ≠ [])
    (xs : List α) : (xs.foldl insert trail).latestFirst ≠ [] := by
  induction xs generalizing trail with
  | nil => exact h
  | cons x rest ih =>
    refine ih ?_
    unfold insert
    split
    · exact h
    · exact List.cons_ne_nil _ _

theorem isEmpty_distinct (xs : List α) : (distinct order xs).isEmpty = xs.isEmpty := by
  match xs with
  | [] => rfl
  | [x] => rfl
  | x :: y :: rest =>
    have new : ((empty : Trail α order).insert x).latestFirst ≠ [] := by
      simp [insert, contains, empty]
    have kept := latestFirst_foldl_ne_nil new (y :: rest)
    simpa [distinct, toList] using kept

end Trail

end ContestGrading.Pattern
