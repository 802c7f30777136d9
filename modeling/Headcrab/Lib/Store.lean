/-
# Stores of cells

The memory of a C program, as far as it holds objects of one type: every `malloc` opens a
new block that holds one object, a pointer is a block with an offset, and a pointer that may
be `NULL` is an `Option`.  An access through a pointer that no object is behind is a fault,
not a value.
-/
import Mathlib.Data.List.Basic
import Mathlib.Tactic.Common

/-- What the execution of a C program can run into. -/
inductive Fault
  | nullDeref
  | outOfBounds
  | useAfterFree
  | badFree
  /-- A null function pointer is called. -/
  | nullCall
  /-- A loop does not end. -/
  | diverges
deriving DecidableEq, Repr

/-- Steps that go well in turn. -/
lemma exists_of_bind_ok {ε α β : Type} {x : Except ε α} {f : α → Except ε β} {b : β}
    (h : x >>= f = .ok b) : ∃ a, x = .ok a ∧ f a = .ok b := by
  rcases x with e | a
  · exact absurd h (by simp [bind, Except.bind])
  · exact ⟨a, rfl, h⟩

/-- A pointer that is not `NULL`; `p++` moves it to the next offset of its block. -/
structure Ptr where
  block : ℕ
  offset : ℕ
deriving DecidableEq, Repr

namespace Ptr

/-- The pointer that `malloc` returned for a block. -/
def ofBlock (b : ℕ) : Option Ptr := some ⟨b, 0⟩

/-- `p++`. -/
def succ (p : Ptr) : Ptr := ⟨p.block, p.offset + 1⟩

@[simp] lemma ofBlock_ne_none (b : ℕ) : ofBlock b ≠ none := by
  simp [ofBlock]

end Ptr

/-- The blocks opened so far; `none` is a block that has been freed. -/
structure Store (α : Type) where
  cells : List (Option α)
deriving DecidableEq, Repr

namespace Store

variable {α : Type}

/-- The store in which nothing has been allocated. -/
def empty : Store α := ⟨[]⟩

/-- `*p`. -/
def load (s : Store α) : Option Ptr → Except Fault α
  | none => .error .nullDeref
  | some ⟨_, _ + 1⟩ => .error .outOfBounds
  | some ⟨b, 0⟩ =>
    match s.cells[b]? with
    | some (some a) => .ok a
    | some none => .error .useAfterFree
    | none => .error .outOfBounds

/-- `*p = f(*p)`. -/
def modify (s : Store α) (p : Option Ptr) (f : α → α) : Except Fault (Store α) :=
  match p with
  | none => .error .nullDeref
  | some q => (s.load (some q)).map fun a => ⟨s.cells.set q.block (some (f a))⟩

/-- `malloc`, with the first assignment to the new object. -/
def malloc (s : Store α) (a : α) : Option Ptr × Store α :=
  (Ptr.ofBlock s.cells.length, ⟨s.cells ++ [some a]⟩)

/-- `free`. -/
def free (s : Store α) : Option Ptr → Except Fault (Store α)
  | none => .ok s
  | some ⟨_, _ + 1⟩ => .error .badFree
  | some ⟨b, 0⟩ =>
    match s.cells[b]? with
    | some (some _) => .ok ⟨s.cells.set b none⟩
    | _ => .error .badFree

/-- The object `a` is in the block `b`. -/
def Live (s : Store α) (b : ℕ) (a : α) : Prop := s.cells[b]? = some (some a)

/-- The store with another object in a block. -/
def put (s : Store α) (b : ℕ) (a : α) : Store α := ⟨s.cells.set b (some a)⟩

/-- The store with a block freed. -/
def freed (s : Store α) (b : ℕ) : Store α := ⟨s.cells.set b none⟩

variable {s : Store α} {b b' : ℕ} {a a' : α}

lemma Live.lt_length (h : s.Live b a) : b < s.cells.length :=
  (List.getElem?_eq_some_iff.mp h).1

lemma Live.load (h : s.Live b a) : s.load (Ptr.ofBlock b) = .ok a := by
  rw [Live] at h
  simp [Store.load, Ptr.ofBlock, h]

lemma Live.inj (h : s.Live b a) (h' : s.Live b a') : a = a' := by
  rw [Live] at h h'
  exact Option.some.inj (Option.some.inj (h.symm.trans h'))

lemma live_of_load (h : s.load (Ptr.ofBlock b) = .ok a) : s.Live b a := by
  simp only [Store.load, Ptr.ofBlock] at h
  split at h
  · rename_i c hc
    rw [Live, hc, Except.ok.inj h]
  · exact absurd h (by simp)
  · exact absurd h (by simp)

lemma Live.modify (h : s.Live b a) (f : α → α) :
    s.modify (Ptr.ofBlock b) f = .ok (s.put b (f a)) := by
  have hload := h.load
  rw [Ptr.ofBlock] at hload
  simp [Store.modify, Ptr.ofBlock, hload, Except.map, put]

lemma live_malloc_self (a : α) : (s.malloc a).2.Live s.cells.length a := by
  simp [Live, malloc]

lemma Live.malloc (h : s.Live b a) (c : α) : (s.malloc c).2.Live b a := by
  rw [Live, Store.malloc, List.getElem?_append_left h.lt_length]
  exact h

lemma Live.put_self (h : s.Live b a) (c : α) : (s.put b c).Live b c := by
  simp [Live, put, h.lt_length]

lemma Live.put_of_ne (h : s.Live b a) (hne : b' ≠ b) (c : α) : (s.put b' c).Live b a := by
  rw [Live, put, List.getElem?_set_ne hne]
  exact h

lemma Live.free (h : s.Live b a) : s.free (Ptr.ofBlock b) = .ok (s.freed b) := by
  rw [Live] at h
  simp [Store.free, Ptr.ofBlock, h, freed]

lemma Live.freed_of_ne (h : s.Live b a) (hne : b' ≠ b) : (s.freed b').Live b a := by
  rw [Live, freed, List.getElem?_set_ne hne]
  exact h

lemma Live.load_freed (h : s.Live b a) :
    (s.freed b).load (Ptr.ofBlock b) = .error .useAfterFree := by
  simp [Store.load, freed, Ptr.ofBlock, h.lt_length]

end Store
