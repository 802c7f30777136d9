/-
# Bounded queues and what they conserve

A bounded queue is a list that never grows beyond its capacity; a push onto a full queue is
refused.  The history of a queue is the list of its pushes, each with the answer whether it
was accepted, and of its pops.  Whatever the order of the operations, the accepted values
are the popped ones followed by the waiting ones: this is the conservation law that every
argument about loss, duplication and order in a queue rests on.
-/
import Mathlib.Data.List.Basic
import Mathlib.Tactic.Common

/-- A queue of at most `capacity` values, the oldest one first. -/
structure BoundedFifo (α : Type) where
  capacity : ℕ
  items : List α
  length_le : items.length ≤ capacity

/-- An operation on a bounded queue, as seen from outside. -/
inductive FifoEvent (α : Type)
  /-- A value was given to the queue; the flag says whether the queue took it. -/
  | push (value : α) (accepted : Bool)
  /-- A value was taken from the queue. -/
  | pop (value : α)
deriving DecidableEq, Repr

namespace BoundedFifo

variable {α : Type}

/-- The empty queue. -/
def empty (capacity : ℕ) : BoundedFifo α := ⟨capacity, [], by simp⟩

/-- Append a value, unless the queue is full. -/
def push (q : BoundedFifo α) (v : α) : BoundedFifo α :=
  if h : q.items.length < q.capacity then
    ⟨q.capacity, q.items ++ [v], by
      simp only [List.length_append, List.length_singleton]
      omega⟩
  else q

/-- Take the oldest value, if there is one. -/
def pop (q : BoundedFifo α) : Option α × BoundedFifo α :=
  (q.items.head?, ⟨q.capacity, q.items.tail, by
    have := q.length_le
    simp only [List.length_tail]
    omega⟩)

@[ext] lemma ext_items {q q' : BoundedFifo α} (hc : q.capacity = q'.capacity)
    (hi : q.items = q'.items) : q = q' := by
  cases q; cases q'
  simp only at hc hi
  subst hc; subst hi
  rfl

@[simp] lemma items_empty (capacity : ℕ) : (empty capacity : BoundedFifo α).items = [] := rfl

lemma items_push_room {q : BoundedFifo α} (h : q.items.length < q.capacity) (v : α) :
    (q.push v).items = q.items ++ [v] := by
  rw [push, dif_pos h]

lemma push_full {q : BoundedFifo α} (h : ¬ q.items.length < q.capacity) (v : α) :
    q.push v = q := by
  rw [push, dif_neg h]

lemma mem_of_mem_push {q : BoundedFifo α} {v x : α} (h : x ∈ (q.push v).items) :
    x ∈ q.items ∨ x = v := by
  by_cases hroom : q.items.length < q.capacity
  · rw [items_push_room hroom] at h
    simpa using h
  · rw [push_full hroom] at h
    exact Or.inl h

@[simp] lemma capacity_push (q : BoundedFifo α) (v : α) : (q.push v).capacity = q.capacity := by
  rw [push]; split <;> rfl

@[simp] lemma fst_pop (q : BoundedFifo α) : q.pop.1 = q.items.head? := rfl

@[simp] lemma items_pop (q : BoundedFifo α) : q.pop.2.items = q.items.tail := rfl

@[simp] lemma capacity_pop (q : BoundedFifo α) : q.pop.2.capacity = q.capacity := rfl

/-! ## The history of a queue -/

/-- The values the queue took, in order. -/
def accepted (tr : List (FifoEvent α)) : List α :=
  tr.filterMap fun
    | .push v true => some v
    | _ => none

/-- Every value the queue was given, in order. -/
def given (tr : List (FifoEvent α)) : List α :=
  tr.filterMap fun
    | .push v _ => some v
    | _ => none

/-- The values taken from the queue, in order. -/
def popped (tr : List (FifoEvent α)) : List α :=
  tr.filterMap fun
    | .pop v => some v
    | _ => none

section History

variable (tr tr' : List (FifoEvent α)) (v : α) (b : Bool)

@[simp] lemma accepted_nil : accepted ([] : List (FifoEvent α)) = [] := rfl

@[simp] lemma popped_nil : popped ([] : List (FifoEvent α)) = [] := rfl

@[simp] lemma accepted_append : accepted (tr ++ tr') = accepted tr ++ accepted tr' :=
  List.filterMap_append ..

@[simp] lemma popped_append : popped (tr ++ tr') = popped tr ++ popped tr' :=
  List.filterMap_append ..

@[simp] lemma given_append : given (tr ++ tr') = given tr ++ given tr' :=
  List.filterMap_append ..

@[simp] lemma accepted_push : accepted [.push v b] = if b then [v] else [] := by
  cases b <;> rfl

@[simp] lemma popped_push : popped [.push v b] = [] := rfl

@[simp] lemma accepted_pop : accepted [FifoEvent.pop v] = [] := rfl

@[simp] lemma popped_pop : popped [FifoEvent.pop v] = [v] := rfl

end History

lemma accepted_sublist_given {tr : List (FifoEvent α)} : (accepted tr).Sublist (given tr) := by
  induction tr with
  | nil => exact List.Sublist.slnil
  | cons e tr ih =>
    rcases e with ⟨v, _ | _⟩ | v
    · exact ih.cons v
    · exact ih.cons_cons v
    · exact ih

/-- The conservation law: what the queue took is what was taken from it, followed by what
is still waiting. -/
def Conserved (tr : List (FifoEvent α)) (q : BoundedFifo α) : Prop :=
  accepted tr = popped tr ++ q.items

lemma conserved_empty (capacity : ℕ) : Conserved [] (empty capacity : BoundedFifo α) := by
  simp [Conserved]

/-- A push keeps the law. -/
lemma Conserved.push {tr : List (FifoEvent α)} {q : BoundedFifo α} (h : Conserved tr q) (v : α) :
    Conserved (tr ++ [.push v (decide (q.items.length < q.capacity))]) (q.push v) := by
  rw [Conserved] at *
  by_cases hroom : q.items.length < q.capacity
  · simp [hroom, items_push_room hroom, h]
  · simp [hroom, push_full hroom, h]

/-- A pop that finds a value keeps the law. -/
lemma Conserved.pop {tr : List (FifoEvent α)} {q : BoundedFifo α} (h : Conserved tr q) {v : α}
    (hv : q.pop.1 = some v) : Conserved (tr ++ [.pop v]) q.pop.2 := by
  rw [Conserved] at *
  obtain ⟨vs, hvs⟩ : ∃ vs, q.items = v :: vs := List.head?_eq_some_iff.mp hv
  simp [h, hvs]

/-- A pop that finds nothing leaves the queue as it is. -/
lemma pop_eq_self {q : BoundedFifo α} (h : q.pop.1 = none) : q.pop.2 = q := by
  have hnil : q.items = [] := List.head?_eq_none_iff.mp h
  exact ext_items rfl (by simp [hnil])

/-- What a step of a larger system may do to a queue: nothing, one push or one pop. -/
inductive Moves : BoundedFifo α → List (FifoEvent α) → BoundedFifo α → Prop
  | none (q : BoundedFifo α) : Moves q [] q
  | push (q : BoundedFifo α) (v : α) :
      Moves q [.push v (decide (q.items.length < q.capacity))] (q.push v)
  | pop {q : BoundedFifo α} {v : α} : q.pop.1 = some v → Moves q [.pop v] q.pop.2

lemma Moves.capacity_eq {q q' : BoundedFifo α} {es : List (FifoEvent α)} (h : Moves q es q') :
    q'.capacity = q.capacity := by
  cases h with
  | none => rfl
  | push v => exact capacity_push q v
  | pop _ => exact capacity_pop q

/-- A step that moves a queue keeps the conservation law. -/
lemma Conserved.moves {tr es : List (FifoEvent α)} {q q' : BoundedFifo α} (h : Conserved tr q)
    (hm : Moves q es q') : Conserved (tr ++ es) q' := by
  cases hm with
  | none => simpa using h
  | push v => exact h.push v
  | pop hv => exact h.pop hv

end BoundedFifo
