/-
# The message queue: `queue.h`

A `queue_t` is a ring buffer of `void *` with three `int` counters.  This file has its three
functions as they are computed, every access to the buffer and every step of a counter
checked, and the invariant under which no check ever fails.  Under the invariant a queue is
a list, and the functions are the operations of a bounded queue on that list.

Each function holds the mutex of the queue from its first line to its last, so that it is a
single step here; the two condition variables of the C structure are never used by it.
-/
import Headcrab.Lib.Window
import Mathlib.Data.Int.ModEq

namespace Headcrab

/-- The largest value of a C `int`. -/
def INT_MAX : ℤ := 2147483647

/-- What can go wrong inside a queue function. -/
inductive QueueFault
  | outOfBounds
  | intOverflow
deriving DecidableEq, Repr

/-- `queue_t`.  The values are `void *`, with `none` for `NULL`; the C field `in` is `in_`. -/
structure Queue (V : Type) where
  buffer : List (Option V)
  capacity : ℤ
  size : ℤ
  in_ : ℤ
  out : ℤ
deriving DecidableEq, Repr

variable {V : Type}

/-- `QUEUE_INITIALIZER` on a static array of `n` cells, which C fills with `NULL`. -/
def queueInitializer (V : Type) (n : ℕ) : Queue V :=
  ⟨List.replicate n none, n, 0, 0, 0⟩

/-- Read a cell of the buffer. -/
def readCell (buffer : List (Option V)) (i : ℤ) : Except QueueFault (Option V) :=
  if 0 ≤ i then
    match buffer[i.toNat]? with
    | some v => .ok v
    | none => .error .outOfBounds
  else .error .outOfBounds

/-- Write a cell of the buffer. -/
def writeCell (buffer : List (Option V)) (i : ℤ) (value : Option V) :
    Except QueueFault (List (Option V)) :=
  if 0 ≤ i ∧ i < buffer.length then .ok (buffer.set i.toNat value) else .error .outOfBounds

/-- The C expression `++ x`. -/
def increment (x : ℤ) : Except QueueFault ℤ :=
  if x < INT_MAX then .ok (x + 1) else .error .intOverflow

/-- The C expression `-- x`. -/
def decrement (x : ℤ) : Except QueueFault ℤ :=
  if -INT_MAX - 1 < x then .ok (x - 1) else .error .intOverflow

/-- `queue_enqueue`. -/
def queueEnqueue (queue : Queue V) (value : Option V) : Except QueueFault (Queue V) := do
  -- a full queue drops the value, and the caller is not told
  if queue.size = queue.capacity then
    return queue
  let buffer ← writeCell queue.buffer queue.in_ value
  let size ← increment queue.size
  let in_ ← increment queue.in_
  return { queue with buffer := buffer, size := size, in_ := in_.tmod queue.capacity }

/-- `queue_dequeue`. -/
def queueDequeue (queue : Queue V) : Except QueueFault (Option V × Queue V) := do
  if queue.size = 0 then
    return (none, queue)
  let value ← readCell queue.buffer queue.out
  let size ← decrement queue.size
  let out ← increment queue.out
  return (value, { queue with size := size, out := out.tmod queue.capacity })

/-- `queue_size`. -/
def queueSize (queue : Queue V) : ℤ := queue.size

/-! ## The invariant -/

namespace Queue

/-- The representation invariant of a `queue_t`. -/
structure WF (q : Queue V) : Prop where
  capacity_pos : 1 ≤ q.capacity
  capacity_le : q.capacity ≤ INT_MAX
  length_buffer : (q.buffer.length : ℤ) = q.capacity
  size_nonneg : 0 ≤ q.size
  size_le : q.size ≤ q.capacity
  in_nonneg : 0 ≤ q.in_
  in_lt : q.in_ < q.capacity
  out_nonneg : 0 ≤ q.out
  out_lt : q.out < q.capacity
  in_eq : q.in_ = (q.out + q.size) % q.capacity

/-- The values waiting in a queue, the oldest one first. -/
def contents (q : Queue V) : List (Option V) :=
  Window.window q.buffer q.out.toNat q.size.toNat

@[simp] lemma contents_queueInitializer (n : ℕ) : (queueInitializer V n).contents = [] := by
  simp [contents, queueInitializer]

lemma wf_queueInitializer {n : ℕ} (hn : 1 ≤ n) (hmax : (n : ℤ) ≤ INT_MAX) :
    (queueInitializer V n).WF := by
  constructor <;> simp [queueInitializer] <;> omega

lemma WF.length_contents {q : Queue V} (h : q.WF) : (q.contents.length : ℤ) = q.size := by
  have h₁ := h.length_buffer
  have h₂ := h.size_le
  have h₃ := h.size_nonneg
  rw [contents, Window.length_window (by omega)]
  omega

/-- Stepping a counter around a ring of `c` cells. -/
lemma tmod_succ {x c : ℤ} (h₀ : 0 ≤ x) (h₁ : x < c) :
    (x + 1).tmod c = (x + 1) % c ∧ 0 ≤ (x + 1).tmod c ∧ (x + 1).tmod c < c := by
  have h : (x + 1).tmod c = (x + 1) % c := Int.tmod_eq_emod_of_nonneg (by omega)
  exact ⟨h, h ▸ Int.emod_nonneg _ (by omega), h ▸ Int.emod_lt_of_pos _ (by omega)⟩

lemma toNat_emod_succ {x c : ℤ} {n : ℕ} (h₀ : 0 ≤ x) (hn : (n : ℤ) = c) :
    ((x + 1) % c).toNat = (x.toNat + 1) % n := by
  subst hn
  lift x to ℕ using h₀
  simp only [Int.toNat_natCast]
  exact_mod_cast Int.toNat_natCast ((x + 1) % n)

lemma WF.in_toNat {q : Queue V} (h : q.WF) :
    q.in_.toNat = (q.out.toNat + q.size.toNat) % q.buffer.length := by
  have h₁ := h.in_eq
  have h₂ := h.length_buffer
  have h₃ := h.out_nonneg
  have h₄ := h.size_nonneg
  rw [h₁, ← h₂]
  obtain ⟨o, ho⟩ := Int.eq_ofNat_of_zero_le h₃
  obtain ⟨s, hs⟩ := Int.eq_ofNat_of_zero_le h₄
  rw [ho, hs]
  exact_mod_cast Int.toNat_natCast ((o + s) % q.buffer.length)

/-! ## The three functions under the invariant -/

/-- A full queue is left as it is. -/
lemma enqueue_full {q : Queue V} (hfull : q.size = q.capacity) (value : Option V) :
    queueEnqueue q value = .ok q := by
  simp [queueEnqueue, hfull]
  rfl

/-- A queue with room gets the value at its end. -/
lemma WF.enqueue_room {q : Queue V} (h : q.WF) (hroom : q.size ≠ q.capacity) (value : Option V) :
    ∃ q', queueEnqueue q value = .ok q' ∧ q'.WF ∧ q'.capacity = q.capacity ∧
      q'.contents = q.contents ++ [value] := by
  obtain ⟨hc, hmax, hlen, hs₀, hs₁, hi₀, hi₁, ho₀, ho₁, hin⟩ := h
  obtain ⟨hmod, hm₀, hm₁⟩ := tmod_succ hi₀ hi₁
  refine ⟨⟨q.buffer.set q.in_.toNat value, q.capacity, q.size + 1, (q.in_ + 1).tmod q.capacity,
    q.out⟩, ?_, ?_, rfl, ?_⟩
  · have hw : writeCell q.buffer q.in_ value = .ok (q.buffer.set q.in_.toNat value) := by
      rw [writeCell, if_pos ⟨hi₀, by omega⟩]
    have hsz : increment q.size = .ok (q.size + 1) := by rw [increment, if_pos (by omega)]
    have hin' : increment q.in_ = .ok (q.in_ + 1) := by rw [increment, if_pos (by omega)]
    rw [queueEnqueue, if_neg hroom, hw, hsz, hin']
    rfl
  · refine ⟨hc, hmax, by simpa using hlen, by simp; omega, by simp; omega, hm₀, hm₁, ho₀, ho₁, ?_⟩
    simp only
    rw [hmod, hin, Int.emod_add_emod, Int.add_assoc]
  · have hwf : q.WF := ⟨hc, hmax, hlen, hs₀, hs₁, hi₀, hi₁, ho₀, ho₁, hin⟩
    have hsize : (q.size + 1).toNat = q.size.toNat + 1 := by omega
    simp only [contents, hsize, hwf.in_toNat]
    exact Window.window_push (by omega) value

lemma dequeue_empty {q : Queue V} (hempty : q.size = 0) : queueDequeue q = .ok (none, q) := by
  simp [queueDequeue, hempty]
  rfl

/-- A queue that is not empty gives its oldest value. -/
lemma WF.dequeue_nonempty {q : Queue V} (h : q.WF) (hne : q.size ≠ 0) :
    ∃ value q', queueDequeue q = .ok (value, q') ∧ q'.WF ∧ q'.capacity = q.capacity ∧
      q.contents = value :: q'.contents := by
  obtain ⟨hc, hmax, hlen, hs₀, hs₁, hi₀, hi₁, ho₀, ho₁, hin⟩ := h
  obtain ⟨hmod, hm₀, hm₁⟩ := tmod_succ ho₀ ho₁
  have hout : q.out.toNat < q.buffer.length := by omega
  refine ⟨q.buffer[q.out.toNat], ⟨q.buffer, q.capacity, q.size - 1, q.in_,
    (q.out + 1).tmod q.capacity⟩, ?_, ?_, rfl, ?_⟩
  · have hr : readCell q.buffer q.out = .ok q.buffer[q.out.toNat] := by
      rw [readCell, if_pos ho₀, List.getElem?_eq_getElem hout]
    have hsz : decrement q.size = .ok (q.size - 1) := by
      rw [decrement, if_pos (by simp only [INT_MAX]; omega)]
    have hout' : increment q.out = .ok (q.out + 1) := by rw [increment, if_pos (by omega)]
    rw [queueDequeue, if_neg hne, hr, hsz, hout']
    rfl
  · refine ⟨hc, hmax, hlen, by simp; omega, by simp; omega, hi₀, hi₁, hm₀, hm₁, ?_⟩
    simp only
    rw [hmod, hin, Int.emod_add_emod]
    congr 1
    omega
  · have hsize : q.size.toNat = (q.size - 1).toNat + 1 := by omega
    simp only [contents, hmod, toNat_emod_succ ho₀ hlen]
    rw [hsize]
    exact Window.window_pop (by omega) hout

end Queue

end Headcrab
