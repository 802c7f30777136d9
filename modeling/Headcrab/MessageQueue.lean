/-
# The two message queues: `headcrab_mqueue.c`

The host program and the service thread exchange messages through two static queues.
Every operation takes the mutex of one queue and is a single step, so an interleaving of
any number of threads is a list of operations, each with the thread that makes it.  The
main result, `mq_refines`, says that along every such list the two ring buffers behave as
two bounded lists that do not affect each other, and that no access and no counter ever
leaves its range.
-/
import Headcrab.Queue
import Headcrab.Lib.BoundedFifo

namespace Headcrab

/-- `enum MQ`. -/
inductive MQ
  | MQ_IN
  | MQ_OUT
deriving DecidableEq, Repr

/-- `MQ_LEN`. -/
def MQ_LEN : ℕ := 100

/-- The static queues `in` and `out`. -/
structure MQueues (V : Type) where
  in_ : Queue V
  out : Queue V
deriving DecidableEq, Repr

variable {V : Type}

namespace MQueues

/-- The two queues as they are statically initialized, over arrays of `n` cells. -/
def init (V : Type) (n : ℕ) : MQueues V := ⟨queueInitializer V n, queueInitializer V n⟩

/-- The queue that an `MQ` names. -/
def get (mq : MQueues V) : MQ → Queue V
  | .MQ_IN => mq.in_
  | .MQ_OUT => mq.out

/-- Replace the queue that an `MQ` names. -/
def set (mq : MQueues V) : MQ → Queue V → MQueues V
  | .MQ_IN, q => { mq with in_ := q }
  | .MQ_OUT, q => { mq with out := q }

@[simp] lemma get_set_self (mq : MQueues V) (k : MQ) (q : Queue V) : (mq.set k q).get k = q := by
  cases k <;> rfl

@[simp] lemma get_set_ne (mq : MQueues V) {k k' : MQ} (h : k' ≠ k) (q : Queue V) :
    (mq.set k q).get k' = mq.get k' := by
  cases k <;> cases k' <;> first | rfl | exact absurd rfl h

@[simp] lemma get_init (n : ℕ) (k : MQ) : (init V n).get k = queueInitializer V n := by
  cases k <;> rfl

end MQueues

/-- `mq_push`.  The last branch of the C function, for a number that is no `MQ`, has no
value of the enumeration to run on. -/
def mqPush (mq : MQueues V) (queue : MQ) (value : Option V) : Except QueueFault (MQueues V) := do
  let q ← queueEnqueue (mq.get queue) value
  return mq.set queue q

/-- `mq_pop`. -/
def mqPop (mq : MQueues V) (queue : MQ) : Except QueueFault (Option V × MQueues V) := do
  let (value, q) ← queueDequeue (mq.get queue)
  return (value, mq.set queue q)

/-! ## Operations and their interleavings -/

/-- The operations a thread can make on the queues. -/
inductive MQOp (V : Type)
  | push (queue : MQ) (value : Option V)
  | pop (queue : MQ)
  | size (queue : MQ)
deriving DecidableEq, Repr

/-- The queue an operation works on. -/
def MQOp.queue : MQOp V → MQ
  | .push k _ => k
  | .pop k => k
  | .size k => k

/-- What an operation returns. -/
inductive MQResult (V : Type)
  | done
  | value (value : Option V)
  | size (n : ℤ)
deriving DecidableEq, Repr

/-- One operation on the queues. -/
def mqStep (mq : MQueues V) : MQOp V → Except QueueFault (MQueues V × MQResult V)
  | .push k v => do
    let mq' ← mqPush mq k v
    return (mq', .done)
  | .pop k => do
    let (v, mq') ← mqPop mq k
    return (mq', .value v)
  | .size k => return (mq, .size (queueSize (mq.get k)))

/-- An interleaving of operations, each made by some thread. -/
def mqRun : MQueues V → List (ℕ × MQOp V) → Except QueueFault (MQueues V × List (MQResult V))
  | mq, [] => .ok (mq, [])
  | mq, (_, op) :: ops => do
    let (mq₁, r) ← mqStep mq op
    let (mq₂, rs) ← mqRun mq₁ ops
    return (mq₂, r :: rs)

/-! ## What the queues are for -/

/-- The purpose of the two queues: a bounded list for each of them. -/
abbrev Fifos (V : Type) : Type := MQ → BoundedFifo (Option V)

/-- One operation on two independent bounded lists. -/
def fifoStep (f : Fifos V) : MQOp V → Fifos V × MQResult V
  | .push k v => (fun k' => if k' = k then (f k).push v else f k', .done)
  | .pop k => (fun k' => if k' = k then (f k).pop.2 else f k', .value (f k).pop.1.join)
  | .size k => (f, .size (f k).items.length)

/-- A list of operations on two independent bounded lists. -/
def fifoRun : Fifos V → List (ℕ × MQOp V) → Fifos V × List (MQResult V)
  | f, [] => (f, [])
  | f, (_, op) :: ops =>
    let (f₁, r) := fifoStep f op
    let (f₂, rs) := fifoRun f₁ ops
    (f₂, r :: rs)

/-- A ring buffer stands for a bounded list. -/
structure Represents (q : Queue V) (f : BoundedFifo (Option V)) : Prop where
  wf : q.WF
  capacity_eq : q.capacity = f.capacity
  contents_eq : q.contents = f.items

namespace Represents

variable {q : Queue V} {f : BoundedFifo (Option V)}

lemma size_eq (h : Represents q f) : q.size = f.items.length := by
  rw [← h.contents_eq, h.wf.length_contents]

lemma size_eq_zero_iff (h : Represents q f) : q.size = 0 ↔ f.items = [] := by
  rw [h.size_eq, ← List.length_eq_zero_iff]
  omega

lemma size_eq_capacity_iff (h : Represents q f) :
    q.size = q.capacity ↔ ¬ f.items.length < f.capacity := by
  have := f.length_le
  rw [h.size_eq, h.capacity_eq]
  omega

lemma init {n : ℕ} (hn : 1 ≤ n) (hmax : (n : ℤ) ≤ INT_MAX) :
    Represents (queueInitializer V n) (BoundedFifo.empty n) :=
  ⟨Queue.wf_queueInitializer hn hmax, rfl, Queue.contents_queueInitializer n⟩

/-- `queue_enqueue` is the push of the list. -/
lemma enqueue (h : Represents q f) (value : Option V) :
    ∃ q', queueEnqueue q value = .ok q' ∧ Represents q' (f.push value) := by
  by_cases hfull : q.size = q.capacity
  · refine ⟨q, Queue.enqueue_full hfull value, ?_⟩
    rwa [BoundedFifo.push_full (h.size_eq_capacity_iff.mp hfull)]
  · have hroom : f.items.length < f.capacity := by
      rw [h.size_eq_capacity_iff] at hfull
      omega
    obtain ⟨q', hq', hwf, hcap, hcont⟩ := h.wf.enqueue_room hfull value
    refine ⟨q', hq', hwf, by simp [hcap, h.capacity_eq], ?_⟩
    rw [hcont, h.contents_eq, BoundedFifo.items_push_room hroom]

/-- `queue_dequeue` is the pop of the list. -/
lemma dequeue (h : Represents q f) :
    ∃ q', queueDequeue q = .ok (f.pop.1.join, q') ∧ Represents q' f.pop.2 := by
  by_cases hempty : q.size = 0
  · have hnil : f.items = [] := h.size_eq_zero_iff.mp hempty
    have hpop : f.pop.1 = none := by simp [hnil]
    refine ⟨q, by rw [Queue.dequeue_empty hempty, hpop]; rfl, ?_⟩
    rwa [BoundedFifo.pop_eq_self hpop]
  · obtain ⟨value, q', hq', hwf, hcap, hcont⟩ := h.wf.dequeue_nonempty hempty
    rw [h.contents_eq] at hcont
    refine ⟨q', by simp [hq', hcont], hwf, by simp [hcap, h.capacity_eq], by simp [hcont]⟩

end Represents

/-- Both ring buffers stand for their lists. -/
def MQueues.Represents (mq : MQueues V) (f : Fifos V) : Prop :=
  ∀ k, Headcrab.Represents (mq.get k) (f k)

/-- One queue is replaced by one that stands for another list. -/
lemma MQueues.Represents.set {mq : MQueues V} {f : Fifos V} (h : mq.Represents f) {k : MQ}
    {q : Queue V} {g : BoundedFifo (Option V)} (hq : Headcrab.Represents q g) :
    (mq.set k q).Represents fun k' => if k' = k then g else f k' := by
  intro k'
  by_cases hk' : k' = k
  · subst hk'
    simpa using hq
  · simpa [hk'] using h k'

/-- One operation on the ring buffers is the operation on the lists. -/
lemma mqStep_refines {mq : MQueues V} {f : Fifos V} (h : mq.Represents f) (op : MQOp V) :
    ∃ mq', mqStep mq op = .ok (mq', (fifoStep f op).2) ∧ mq'.Represents (fifoStep f op).1 ∧
      ∀ k ≠ op.queue, mq'.get k = mq.get k := by
  cases op with
  | push k v =>
    obtain ⟨q', hq', hrep⟩ := (h k).enqueue v
    refine ⟨mq.set k q', ?_, h.set hrep, fun k' hk' => MQueues.get_set_ne mq hk' q'⟩
    rw [mqStep, mqPush, hq']
    rfl
  | pop k =>
    obtain ⟨q', hq', hrep⟩ := (h k).dequeue
    refine ⟨mq.set k q', ?_, h.set hrep, fun k' hk' => MQueues.get_set_ne mq hk' q'⟩
    rw [mqStep, mqPop, hq']
    rfl
  | size k =>
    refine ⟨mq, ?_, h, fun _ _ => rfl⟩
    rw [mqStep, queueSize, (h k).size_eq]
    rfl

/-- A list of operations on the ring buffers is the same list on the lists. -/
lemma mqRun_refines {mq : MQueues V} {f : Fifos V} (h : mq.Represents f)
    (ops : List (ℕ × MQOp V)) :
    ∃ mq', mqRun mq ops = .ok (mq', (fifoRun f ops).2) ∧ mq'.Represents (fifoRun f ops).1 := by
  induction ops generalizing mq f with
  | nil => exact ⟨mq, rfl, h⟩
  | cons o ops ih =>
    obtain ⟨t, op⟩ := o
    obtain ⟨mq₁, h₁, hrep₁, -⟩ := mqStep_refines h op
    obtain ⟨mq₂, h₂, hrep₂⟩ := ih hrep₁
    refine ⟨mq₂, ?_, hrep₂⟩
    -- neither the step nor the rest of the run faults
    rw [mqRun, h₁]
    simp only [bind, Except.bind, h₂]
    rfl

lemma capacity_fifoStep (f : Fifos V) (op : MQOp V) (k : MQ) :
    ((fifoStep f op).1 k).capacity = (f k).capacity := by
  cases op <;> simp only [fifoStep]
  all_goals split_ifs with hk
  all_goals first | rfl | simp [hk]

lemma capacity_fifoRun (f : Fifos V) (ops : List (ℕ × MQOp V)) (k : MQ) :
    ((fifoRun f ops).1 k).capacity = (f k).capacity := by
  induction ops generalizing f with
  | nil => rfl
  | cons o ops ih => exact (ih _).trans (capacity_fifoStep f o.2 k)

/-- **The message queue is two independent bounded lists.**  For every capacity that a C
`int` can hold and every interleaving of pushes, pops and size queries, the ring buffers
return what two bounded lists return and stand for these lists afterwards; an operation on
one queue leaves the other one as it is, and no access and no counter leaves its range. -/
theorem mq_refines {c : ℕ} (hc : 1 ≤ c) (hmax : (c : ℤ) ≤ INT_MAX) (ops : List (ℕ × MQOp V)) :
    ∃ mq f rs, mqRun (MQueues.init V c) ops = .ok (mq, rs) ∧
      fifoRun (fun _ => BoundedFifo.empty c) ops = (f, rs) ∧
      (∀ k, (mq.get k).contents = (f k).items ∧ (f k).items.length ≤ c) ∧
      (∀ k, 0 ≤ (mq.get k).size ∧ (mq.get k).size ≤ c ∧ 0 ≤ (mq.get k).in_ ∧
        (mq.get k).in_ < c ∧ 0 ≤ (mq.get k).out ∧ (mq.get k).out < c ∧
        (mq.get k).in_ = ((mq.get k).out + (mq.get k).size) % c) ∧
      ∀ op, ∃ mq' r, mqStep mq op = .ok (mq', r) ∧ ∀ k ≠ op.queue, mq'.get k = mq.get k := by
  have hinit : (MQueues.init V c).Represents fun _ => BoundedFifo.empty c := fun k => by
    rw [MQueues.get_init]
    exact Represents.init hc hmax
  obtain ⟨mq, hrun, hrep⟩ := mqRun_refines hinit ops
  have hcap : ∀ k, ((fifoRun (fun _ => BoundedFifo.empty c) ops).1 k).capacity = c := fun k =>
    capacity_fifoRun _ ops k
  refine ⟨mq, _, _, hrun, rfl, fun k => ⟨(hrep k).contents_eq, ?_⟩, fun k => ?_, fun op => ?_⟩
  · exact (BoundedFifo.length_le _).trans (hcap k).le
  · have hk : (mq.get k).capacity = c := by rw [(hrep k).capacity_eq, hcap k]
    obtain ⟨-, -, -, hs₀, hs₁, hi₀, hi₁, ho₀, ho₁, hin⟩ := (hrep k).wf
    rw [hk] at hs₁ hi₁ ho₁ hin
    exact ⟨hs₀, hs₁, hi₀, hi₁, ho₀, ho₁, hin⟩
  · obtain ⟨mq', hstep, -, hother⟩ := mqStep_refines hrep op
    exact ⟨mq', _, hstep, hother⟩

/-- The law at the capacity of the library, for a push by one thread and a pop by another. -/
theorem mq_refines_two_threads :
    ∃ mq f rs, mqRun (MQueues.init ℕ MQ_LEN) [(0, .push .MQ_IN (some 7)), (1, .pop .MQ_IN)]
        = .ok (mq, rs) ∧
      fifoRun (fun _ => BoundedFifo.empty MQ_LEN) [(0, .push .MQ_IN (some 7)), (1, .pop .MQ_IN)]
        = (f, rs) ∧
      (∀ k, (mq.get k).contents = (f k).items ∧ (f k).items.length ≤ MQ_LEN) ∧
      (∀ k, 0 ≤ (mq.get k).size ∧ (mq.get k).size ≤ MQ_LEN ∧ 0 ≤ (mq.get k).in_ ∧
        (mq.get k).in_ < MQ_LEN ∧ 0 ≤ (mq.get k).out ∧ (mq.get k).out < MQ_LEN ∧
        (mq.get k).in_ = ((mq.get k).out + (mq.get k).size) % MQ_LEN) ∧
      ∀ op, ∃ mq' r, mqStep mq op = .ok (mq', r) ∧ ∀ k ≠ op.queue, mq'.get k = mq.get k :=
  mq_refines (by decide) (by decide) _

/-! ## Queues that carry their invariant -/

/-- A queue together with its invariant; its operations cannot fail. -/
def Ring (V : Type) : Type := { q : Queue V // q.WF }

namespace Ring

/-- The statically initialized queue over `MQ_LEN` cells. -/
def init (V : Type) : Ring V :=
  ⟨queueInitializer V MQ_LEN, Queue.wf_queueInitializer (by decide) (by decide)⟩

/-- The bounded list that a queue stands for. -/
def fifo (r : Ring V) : BoundedFifo (Option V) :=
  ⟨r.1.capacity.toNat, r.1.contents, by
    have h₁ := r.2.length_contents
    have h₂ := r.2.size_le
    omega⟩

lemma represents (r : Ring V) : Represents r.1 r.fifo := by
  refine ⟨r.2, ?_, rfl⟩
  have := r.2.capacity_pos
  simp only [fifo]
  omega

lemma fifo_eq {r : Ring V} {f : BoundedFifo (Option V)}
    (h : Represents r.1 f) : r.fifo = f := by
  refine BoundedFifo.ext_items ?_ h.contents_eq
  have := h.capacity_eq
  simp only [fifo]
  omega

/-- `queue_enqueue` on a queue that satisfies the invariant. -/
def enqueue (r : Ring V) (value : Option V) : Ring V :=
  match h : queueEnqueue r.1 value with
  | .ok q => ⟨q, by
      obtain ⟨q', hq', hrep⟩ := r.represents.enqueue value
      rw [hq', Except.ok.injEq] at h
      exact h ▸ hrep.wf⟩
  | .error _ => r

/-- `queue_dequeue` on a queue that satisfies the invariant. -/
def dequeue (r : Ring V) : Option V × Ring V :=
  match h : queueDequeue r.1 with
  | .ok (value, q) => (value, ⟨q, by
      obtain ⟨q', hq', hrep⟩ := r.represents.dequeue
      rw [hq', Except.ok.injEq, Prod.mk.injEq] at h
      exact h.2 ▸ hrep.wf⟩)
  | .error _ => (none, r)

@[simp] lemma fifo_init : (init V).fifo = BoundedFifo.empty MQ_LEN :=
  fifo_eq (Represents.init (by decide) (by decide))

lemma enqueue_eq (r : Ring V) (value : Option V) :
    queueEnqueue r.1 value = .ok (r.enqueue value).1 := by
  obtain ⟨q, hq, -⟩ := r.represents.enqueue value
  rw [enqueue]
  split
  · assumption
  · rename_i h
    rw [hq] at h
    exact absurd h (by simp)

lemma dequeue_eq (r : Ring V) : queueDequeue r.1 = .ok (r.dequeue.1, r.dequeue.2.1) := by
  obtain ⟨q, hq, -⟩ := r.represents.dequeue
  rw [dequeue]
  split
  · assumption
  · rename_i h
    rw [hq] at h
    exact absurd h (by simp)

@[simp] lemma fifo_enqueue (r : Ring V) (value : Option V) :
    (r.enqueue value).fifo = r.fifo.push value := by
  obtain ⟨q, hq, hrep⟩ := r.represents.enqueue value
  rw [enqueue_eq, Except.ok.injEq] at hq
  exact fifo_eq (hq ▸ hrep)

lemma dequeue_spec (r : Ring V) :
    r.dequeue.1 = r.fifo.pop.1.join ∧ r.dequeue.2.fifo = r.fifo.pop.2 := by
  obtain ⟨q, hq, hrep⟩ := r.represents.dequeue
  rw [dequeue_eq, Except.ok.injEq, Prod.mk.injEq] at hq
  exact ⟨hq.1, fifo_eq (hq.2 ▸ hrep)⟩

@[simp] lemma fifo_dequeue (r : Ring V) : r.dequeue.2.fifo = r.fifo.pop.2 := r.dequeue_spec.2

/-- The test that `queue_enqueue` makes: whether the queue takes another value. -/
def hasRoom (r : Ring V) : Bool := decide (r.1.size ≠ r.1.capacity)

lemma hasRoom_eq (r : Ring V) :
    r.hasRoom = decide (r.fifo.items.length < r.fifo.capacity) := by
  have := r.represents.size_eq_capacity_iff
  simp only [hasRoom, decide_eq_decide]
  tauto

lemma items_enqueue (r : Ring V) (value : Option V) :
    (r.enqueue value).fifo.items = r.fifo.items ++ if r.hasRoom then [value] else [] := by
  rw [fifo_enqueue, hasRoom_eq]
  by_cases hroom : r.fifo.items.length < r.fifo.capacity
  · rw [BoundedFifo.items_push_room hroom, decide_eq_true hroom, if_pos rfl]
  · rw [BoundedFifo.push_full hroom, decide_eq_false hroom, if_neg (by simp), List.append_nil]

/-- The test that `queue_dequeue` makes: whether the queue has a value to give. -/
def isEmpty (r : Ring V) : Bool := decide (r.1.size = 0)

lemma isEmpty_iff (r : Ring V) : r.isEmpty = true ↔ r.fifo.items = [] := by
  simpa [isEmpty] using r.represents.size_eq_zero_iff

end Ring

/-- The two queues of the library, with their invariants. -/
abbrev Rings (V : Type) : Type := MQ → Ring V

namespace Rings

/-- The queues without the invariants. -/
def toMQueues (m : Rings V) : MQueues V := ⟨(m .MQ_IN).1, (m .MQ_OUT).1⟩

/-- `mq_push`. -/
def push (m : Rings V) (k : MQ) (value : Option V) : Rings V :=
  Function.update m k ((m k).enqueue value)

/-- `mq_pop`. -/
def pop (m : Rings V) (k : MQ) : Option V × Rings V :=
  ((m k).dequeue.1, Function.update m k (m k).dequeue.2)

@[simp] lemma fifo_push_self (m : Rings V) (k : MQ) (value : Option V) :
    (m.push k value k).fifo = (m k).fifo.push value := by
  simp [push]

lemma push_of_ne (m : Rings V) {k k' : MQ} (h : k' ≠ k) (value : Option V) :
    m.push k value k' = m k' :=
  Function.update_of_ne h _ _

@[simp] lemma fifo_pop_self (m : Rings V) (k : MQ) : ((m.pop k).2 k).fifo = (m k).fifo.pop.2 := by
  simp [pop]

lemma pop_of_ne (m : Rings V) {k k' : MQ} (h : k' ≠ k) : (m.pop k).2 k' = m k' :=
  Function.update_of_ne h _ _

/-- A pop from a queue that is not empty returns its oldest value. -/
lemma fst_pop_eq (m : Rings V) {k : MQ} (h : (m k).isEmpty = false) :
    (m k).fifo.pop.1 = some (m.pop k).1 := by
  have hne : (m k).fifo.items ≠ [] := fun hnil => by
    rw [← Ring.isEmpty_iff, h] at hnil
    exact absurd hnil (by simp)
  obtain ⟨v, vs, hvs⟩ := List.exists_cons_of_ne_nil hne
  simp [pop, (m k).dequeue_spec.1, hvs]

lemma pop_of_items {m : Rings V} {k : MQ} {v : Option V} {vs : List (Option V)}
    (h : (m k).fifo.items = v :: vs) :
    (m.pop k).1 = v ∧ ((m.pop k).2 k).fifo.items = vs := by
  have hempty : (m k).isEmpty = false := by
    rw [Bool.eq_false_iff, Ne, Ring.isEmpty_iff, h]
    exact List.cons_ne_nil v vs
  have hhead := m.fst_pop_eq hempty
  rw [BoundedFifo.fst_pop, h] at hhead
  refine ⟨(Option.some.inj hhead).symm, ?_⟩
  rw [fifo_pop_self, BoundedFifo.items_pop, h]
  rfl

/-- A pop from an empty queue returns `NULL` and leaves the queue as it is. -/
lemma pop_of_isEmpty (m : Rings V) {k : MQ} (h : (m k).isEmpty = true) :
    (m.pop k).1 = none ∧ ((m.pop k).2 k).fifo = (m k).fifo := by
  have hnil : (m k).fifo.pop.1 = none := by
    rw [BoundedFifo.fst_pop, (Ring.isEmpty_iff _).mp h]
    rfl
  refine ⟨?_, by rw [fifo_pop_self, BoundedFifo.pop_eq_self hnil]⟩
  rw [pop, (m k).dequeue_spec.1, hnil]
  rfl

/-- A queue that gives a message was not empty. -/
lemma isEmpty_of_pop {m : Rings V} {k : MQ} {v : V} (h : (m.pop k).1 = some v) :
    (m k).isEmpty = false := by
  rw [Bool.eq_false_iff]
  intro hempty
  rw [(m.pop_of_isEmpty hempty).1] at h
  exact absurd h (by simp)

/-- What waits after a push waited before, or it is what was pushed. -/
lemma mem_of_mem_push {m : Rings V} {k k' : MQ} {value v : Option V}
    (h : v ∈ (m.push k value k').fifo.items) : v ∈ (m k').fifo.items ∨ k' = k ∧ v = value := by
  by_cases hk : k' = k
  · subst hk
    rw [fifo_push_self] at h
    exact (BoundedFifo.mem_of_mem_push h).imp_right fun hv => ⟨rfl, hv⟩
  · rw [push_of_ne _ hk] at h
    exact Or.inl h

/-- What waits after a pop waited before. -/
lemma mem_of_mem_pop {m : Rings V} {k k' : MQ} {v : Option V}
    (h : v ∈ ((m.pop k).2 k').fifo.items) : v ∈ (m k').fifo.items := by
  by_cases hk : k' = k
  · subst hk
    rw [fifo_pop_self, BoundedFifo.items_pop] at h
    exact List.mem_of_mem_tail h
  · rwa [pop_of_ne _ hk] at h

/-- A message that a pop returns waited in the queue. -/
lemma mem_of_pop {m : Rings V} {k : MQ} {v : V} (h : (m.pop k).1 = some v) :
    some v ∈ (m k).fifo.items := by
  have hhead := m.fst_pop_eq (isEmpty_of_pop h)
  rw [h, BoundedFifo.fst_pop] at hhead
  exact List.mem_of_mem_head? hhead

lemma mqPush_eq (m : Rings V) (k : MQ) (value : Option V) :
    mqPush m.toMQueues k value = .ok (m.push k value).toMQueues := by
  cases k <;> simp [mqPush, toMQueues, MQueues.get, MQueues.set, push, Ring.enqueue_eq]

lemma mqPop_eq (m : Rings V) (k : MQ) :
    mqPop m.toMQueues k = .ok ((m.pop k).1, (m.pop k).2.toMQueues) := by
  cases k <;> simp [mqPop, toMQueues, MQueues.get, MQueues.set, pop, Ring.dequeue_eq]

end Rings

end Headcrab
