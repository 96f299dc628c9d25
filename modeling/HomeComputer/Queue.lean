/-
Queues.

A queue hands its items over in the order in which they came.  Items that come are kept
apart, newest first, and turned round when those before them are used up, so coming and
going cost the same however many wait; their number is kept as well.  `toList` is what
waits, oldest first.  Queues in which the same items wait may be laid out differently,
so what a queue does is stated of its `toList`.
-/

namespace HomeComputer

/-- Items waiting, first come first served. -/
structure Queue (α : Type) where
  /-- The items next to go, oldest first. -/
  front : List α := []
  /-- The items that came after those, newest first. -/
  back : List α := []
  size : Nat := 0
  /-- As long as anything waits there is a next to go. -/
  front_ne_nil : back ≠ [] → front ≠ [] := by simp
  /-- Every item that waits is counted. -/
  size_eq : size = front.length + back.length := by simp
  deriving DecidableEq

namespace Queue

variable {α : Type}

/-- Nothing waits. -/
def empty : Queue α where
  front_ne_nil h := absurd rfl h
  size_eq := rfl

def toList (q : Queue α) : List α := q.front ++ q.back.reverse

def isEmpty (q : Queue α) : Bool := q.front.isEmpty

def head? (q : Queue α) : Option α := q.front.head?

def push (q : Queue α) (a : α) : Queue α :=
  if h : q.front = [] then { front := [a], size := 1 }
  else {
    front := q.front
    back := a :: q.back
    size := q.size + 1
    front_ne_nil := fun _ => h
    size_eq := by simp only [q.size_eq, List.length_cons]; omega }

/-- The queue after items came one after the other. -/
def pushAll (q : Queue α) (items : List α) : Queue α := items.foldl push q

def tail (q : Queue α) : Queue α :=
  match h : q.front with
  | [] => empty
  | [_] => {
      front := q.back.reverse
      size := q.size - 1
      front_ne_nil := fun hb => absurd rfl hb
      size_eq := by simp [q.size_eq, h] }
  | _ :: a :: rest => {
      front := a :: rest
      back := q.back
      size := q.size - 1
      front_ne_nil := fun _ => List.cons_ne_nil a rest
      size_eq := by simp [q.size_eq, h] }

/-- The item that is next to go, if any waits, and the queue without it. -/
def pop (q : Queue α) : Option α × Queue α := (q.head?, q.tail)

/-! ### What waits afterwards -/

theorem back_eq_nil {q : Queue α} (h : q.front = []) : q.back = [] :=
  Classical.byContradiction fun hb => q.front_ne_nil hb h

@[simp] theorem toList_empty : (empty : Queue α).toList = [] := rfl

@[simp] theorem toList_push (q : Queue α) (a : α) : (q.push a).toList = q.toList ++ [a] := by
  by_cases h : q.front = []
  · simp [push, toList, h, back_eq_nil h]
  · simp [push, toList, h]

@[simp] theorem toList_pushAll (q : Queue α) (items : List α) :
    (q.pushAll items).toList = q.toList ++ items := by
  induction items generalizing q with
  | nil => simp [pushAll]
  | cons a items ih =>
      rw [pushAll, List.foldl_cons, ← pushAll, ih, toList_push]
      simp

@[simp] theorem toList_tail (q : Queue α) : q.tail.toList = q.toList.tail := by
  simp only [tail]
  split
  · next h => simp [toList, h, back_eq_nil h, empty]
  · next h => simp [toList, h]
  · next h => simp [toList, h]

@[simp] theorem head?_toList (q : Queue α) : q.toList.head? = q.head? := by
  by_cases h : q.front = []
  · simp [toList, head?, h, back_eq_nil h]
  · obtain ⟨a, rest, h⟩ := List.exists_cons_of_ne_nil h
    simp [toList, head?, h]

@[simp] theorem length_toList (q : Queue α) : q.toList.length = q.size := by
  simp [toList, q.size_eq]

@[simp] theorem isEmpty_toList (q : Queue α) : q.toList.isEmpty = q.isEmpty := by
  by_cases h : q.front = []
  · simp [toList, isEmpty, h, back_eq_nil h]
  · obtain ⟨a, rest, h⟩ := List.exists_cons_of_ne_nil h
    simp [toList, isEmpty, h]

end Queue

end HomeComputer
