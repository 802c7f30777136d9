/-
# What a run of the server can do

A step of the server does one of five things to what the two threads share: nothing, a push,
a pop that hands no message to a callback, a pop that does, and a write.  `step_effect` says
so once, with everything the invariants of a run need to know about the step; the results of
this file are invariants over whole runs that follow from it.

* `queues_conserved`: what a queue took is what was popped from it, followed by what waits;
* `takes_eq`: a callback writes a message only after it has popped it, at most once, and to
  its own connection;
* `frame_eq`: what is written is the text that `json_dumps` made of the message.
-/
import Headcrab.Server

namespace Headcrab

namespace Server

variable {W V P F : Type}

/-- The message that a thread has popped and not yet written, with its connection. -/
def inFlight (s : Server W V) : Thread → List (W × V)
  | .app =>
    match s.app with
    | .callback (.popped w m) _ => [(w, m)]
    | _ => []
  | .service =>
    match s.service with
    | some (.popped w m) => [(w, m)]
    | _ => []

/-- The thread whose callback calls `mq_pop` in a step, if the step is such a call. -/
def popping (s : Server W V) : Action W V P → Option Thread
  | .appStep _ =>
    match s.app with
    | .callback (.entered _) _ => some .app
    | _ => none
  | .serviceStep _ =>
    match s.service with
    | some (.entered _) => some .service
    | _ => none
  | _ => none

/-- What a step does to the queues and to the messages in flight. -/
inductive Effect (J : Codec P V F) (s : Server W V) (a : Action W V P) :
    Server W V → List (Event W V F) → Prop
  | quiet {s' : Server W V} : s'.queues = s.queues → s'.inFlight = s.inFlight →
      Effect J s a s' []
  | receive {s' : Server W V} (w : W) (p : P) : a = .receive w p →
      s'.queues = s.queues.push .MQ_IN (J.loads p) → s'.inFlight = s.inFlight →
      Effect J s a s' [.push .MQ_IN (J.loads p) (s.queues .MQ_IN).hasRoom]
  | post {s' : Server W V} (m : Option V) : a = .post m →
      s'.queues = s.queues.push .MQ_OUT m → s'.inFlight = s.inFlight →
      Effect J s a s' [.push .MQ_OUT m (s.queues .MQ_OUT).hasRoom]
  | pop {s' : Server W V} (k : MQ) : (k = .MQ_OUT → (s.queues.pop k).1 = none) →
      s'.queues = (s.queues.pop k).2 → s'.inFlight = s.inFlight →
      Effect J s a s' (if (s.queues k).isEmpty then [] else [.pop k (s.queues.pop k).1])
  | take {s' : Server W V} (t : Thread) (w : W) (m : V) : s.popping a = some t →
      (s.queues.pop .MQ_OUT).1 = some m → s'.queues = (s.queues.pop .MQ_OUT).2 →
      s.inFlight t = [] → s'.inFlight = Function.update s.inFlight t [(w, m)] →
      Effect J s a s' [.pop .MQ_OUT (some m), .take t w m]
  | write {s' : Server W V} (t : Thread) (w : W) (m : V) (frame : F) : J.dumps m = some frame →
      s'.queues = s.queues → s.inFlight t = [(w, m)] →
      s'.inFlight = Function.update s.inFlight t [] → Effect J s a s' [.write t w m frame]

/-- The messages that a call holds. -/
def held : Option (Sending W V) → List (W × V)
  | some (.popped w m) => [(w, m)]
  | _ => []

/-- Where the thread of the host program stands after a step of a call made by a broadcast. -/
def resume (rest : List W) : Option (Sending W V) → AppAt W V
  | some call => .callback call rest
  | none => .broadcast rest

variable [DecidableEq W]

/-- The effect of a step of a sending callback, whatever its thread.  `g` puts the call back
to where its thread stands. -/
lemma send_effect {J : Codec P V F} {s : Server W V} {a : Action W V P} {t : Thread}
    {b : Bool} {c : Sending W V} {g : Server W V → Option (Sending W V) → Server W V}
    (hqueues : ∀ s' c', (g s' c').queues = s'.queues)
    (hflight : ∀ q wr h c', (g ⟨q, s.established, wr, s.app, s.service, h⟩ c').inFlight
      = Function.update s.inFlight t (held c'))
    (hcall : s.inFlight t = held (some c))
    (hpop : ∀ w, c = .entered w → s.popping a = some t) :
    Effect J s a (g (s.send J t b c).1 (s.send J t b c).2.1) (s.send J t b c).2.2 := by
  have hself : Function.update s.inFlight t (held (some c)) = s.inFlight := by
    rw [← hcall, Function.update_eq_self]
  cases c with
  | entered w =>
    rcases hm : (s.queues.pop .MQ_OUT).1 with _ | m
    · have hsend : s.send (F := F) J t b (.entered w)
          = ((s.pop (F := F) .MQ_OUT).2.1, none, (s.pop .MQ_OUT).2.2) := by
        simp only [send, pop, hm]
      rw [hsend]
      exact .pop .MQ_OUT (fun _ => hm) (hqueues _ _) ((hflight _ _ _ _).trans hself)
    · have hsend : s.send (F := F) J t b (.entered w)
          = ((s.pop (F := F) .MQ_OUT).2.1, some (.popped w m),
            [.pop .MQ_OUT (some m), .take t w m]) := by
        simp only [send, pop, hm, Rings.isEmpty_of_pop hm]
        rfl
      rw [hsend]
      exact .take t w m (hpop w rfl) hm (hqueues _ _) hcall (hflight _ _ _ _)
  | popped w m =>
    rcases hd : J.dumps m with _ | frame
    · have hsend : s.send (F := F) J t b (.popped w m)
          = ({ s with halted := true }, some (.popped w m), []) := by simp only [send, hd]
      rw [hsend]
      exact .quiet (hqueues _ _) ((hflight _ _ _ _).trans hself)
    · cases b with
      | true =>
        have hsend : s.send J t true (.popped w m)
            = (s, some (.written w), [.write t w m frame]) := by simp [send, hd]
        rw [hsend]
        exact .write t w m frame hd (hqueues _ _) hcall (hflight _ _ _ _)
      | false =>
        have hsend : s.send (F := F) J t false (.popped w m)
            = ({ s with halted := true }, some (.popped w m), []) := by simp [send, hd]
        rw [hsend]
        exact .quiet (hqueues _ _) ((hflight _ _ _ _).trans hself)
  | written w =>
    by_cases hw : w ∈ s.established
    · simp only [send, if_pos hw]
      exact .quiet (hqueues _ _) ((hflight _ _ _ _).trans hself)
    · simp only [send, if_neg hw]
      exact .quiet (hqueues _ _) ((hflight _ _ _ _).trans hself)

/-- A step of the server is the step of its action, in a process that has not ended. -/
lemma step_eq_some {J : Codec P V F} {s s' : Server W V} {a : Action W V P}
    {es : List (Event W V F)} (h : step J s a = some (s', es)) :
    s.halted = false ∧ act J s a = some (s', es) := by
  unfold step at h
  cases hh : s.halted with
  | true => simp [hh] at h
  | false => exact ⟨rfl, by simpa [hh] using h⟩

/-- **Every step of the server has one of these effects.** -/
theorem step_effect {J : Codec P V F} {s s' : Server W V} {a : Action W V P}
    {es : List (Event W V F)} (h : step J s a = some (s', es)) : Effect J s a s' es := by
  obtain ⟨-, h⟩ := step_eq_some h
  cases a with
  | establish w | close w | writeable w =>
    simp only [act, Option.ite_none_right_eq_some, Option.some.injEq, Prod.mk.injEq] at h
    obtain ⟨⟨hserv, -⟩, rfl, rfl⟩ := h
    refine .quiet rfl (funext fun t => ?_)
    -- the service thread is in no callback, before as after
    have hnone := Option.isNone_iff_eq_none.mp hserv
    cases t
    · rfl
    · simp [inFlight, hnone]
  | receive w p =>
    simp only [act, Option.ite_none_right_eq_some, Option.some.injEq] at h
    obtain ⟨-, h⟩ := h
    obtain ⟨rfl, rfl⟩ := Prod.mk.inj h
    exact .receive w p rfl rfl rfl
  | handle =>
    simp only [act] at h
    split at h
    · obtain ⟨rfl, rfl⟩ := Prod.mk.inj (Option.some.inj h)
      exact .pop .MQ_IN (by simp) rfl rfl
    · exact absurd h (by simp)
  | post m =>
    simp only [act] at h
    split at h
    · rename_i happ
      obtain ⟨rfl, rfl⟩ := Prod.mk.inj (Option.some.inj h)
      refine .post m rfl rfl (funext fun t => ?_)
      cases t
      · simp [inFlight, happ]
      · rfl
    · exact absurd h (by simp)
  | notify order =>
    simp only [act] at h
    split at h
    · rename_i happ
      simp only [Option.ite_none_right_eq_some, Option.some.injEq, Prod.mk.injEq] at h
      obtain ⟨-, rfl, rfl⟩ := h
      refine .quiet rfl (funext fun t => ?_)
      cases t
      · simp [inFlight, happ]
      · rfl
    · exact absurd h (by simp)
  | broadcast =>
    simp only [act] at h
    split at h
    · rename_i happ
      obtain ⟨rfl, rfl⟩ := Prod.mk.inj (Option.some.inj h)
      refine .quiet rfl (funext fun t => ?_)
      cases t
      · simp [inFlight, happ]
      · rfl
    · rename_i happ
      split at h <;>
      · obtain ⟨rfl, rfl⟩ := Prod.mk.inj (Option.some.inj h)
        refine .quiet rfl (funext fun t => ?_)
        cases t
        · simp [inFlight, happ]
        · rfl
    · exact absurd h (by simp)
  | serviceStep sent =>
    simp only [act] at h
    split at h
    · rename_i call hcall
      obtain ⟨rfl, rfl⟩ := Prod.mk.inj (Option.some.inj h)
      refine send_effect (t := .service) (g := fun s' c' => { s' with service := c' })
        (fun _ _ => rfl) (fun q wr hb c => funext fun t => ?_) ?_ ?_
      · cases t <;> rcases c with _ | _ | _ | _ <;> simp [inFlight, held]
      · cases call <;> simp [inFlight, held, hcall]
      · rintro w rfl
        simp [popping, hcall]
    · exact absurd h (by simp)
  | appStep sent =>
    simp only [act] at h
    split at h
    · rename_i call rest hcall
      have key := send_effect (J := J) (s := s) (a := .appStep sent) (t := .app) (b := sent)
        (c := call) (g := fun s' c' => { s' with app := resume rest c' }) (fun _ _ => rfl)
        (fun q wr hb c => funext fun t => ?_) ?_ ?_
      · split at h <;>
        · rename_i hsend
          obtain ⟨rfl, rfl⟩ := Prod.mk.inj (Option.some.inj h)
          simpa only [hsend, resume] using key
      · cases t <;> rcases c with _ | _ | _ | _ <;> simp [inFlight, held, resume]
      · cases call <;> simp [inFlight, held, hcall]
      · rintro w rfl
        simp [popping, hcall]
    · exact absurd h (by simp)

omit [DecidableEq W]

/-- What a step writes is the text of a message that the thread held. -/
lemma Effect.write_inv {J : Codec P V F} {s s' : Server W V} {a : Action W V P}
    {es : List (Event W V F)} (h : Effect J s a s' es) {t : Thread} {w : W} {m : V} {frame : F}
    (hm : Event.write t w m frame ∈ es) : (w, m) ∈ s.inFlight t ∧ J.dumps m = some frame := by
  cases h with
  | quiet _ _ => simp at hm
  | receive _ _ _ _ _ | post _ _ _ _ => simp at hm
  | pop k _ _ _ => split at hm <;> simp at hm
  | take _ _ _ _ _ _ _ _ => simp at hm
  | write t' w' m' frame' hd _ hheld _ =>
    simp only [List.mem_singleton, Event.write.injEq] at hm
    obtain ⟨rfl, rfl, rfl, rfl⟩ := hm
    exact ⟨by simp [hheld], hd⟩

/-! ## What a history shows -/

/-- What a history shows of one queue. -/
def fifoEvents (k : MQ) (tr : List (Event W V F)) : List (FifoEvent (Option V)) :=
  tr.filterMap fun
    | .push k' v b => if k' = k then some (.push v b) else none
    | .pop k' v => if k' = k then some (.pop v) else none
    | _ => none

/-- The messages popped by the callbacks of a thread, with their connections, in order. -/
def takes (t : Thread) (tr : List (Event W V F)) : List (W × V) :=
  tr.filterMap fun
    | .take t' w m => if t' = t then some (w, m) else none
    | _ => none

/-- The messages written by the callbacks of a thread, with their connections, in order. -/
def writes (t : Thread) (tr : List (Event W V F)) : List (W × V) :=
  tr.filterMap fun
    | .write t' w m _ => if t' = t then some (w, m) else none
    | _ => none

/-- The messages popped by callbacks, in order. -/
def allTakes (tr : List (Event W V F)) : List (W × V) :=
  tr.filterMap fun
    | .take _ w m => some (w, m)
    | _ => none

/-- The messages written by callbacks, in order. -/
def allWrites (tr : List (Event W V F)) : List (W × V) :=
  tr.filterMap fun
    | .write _ w m _ => some (w, m)
    | _ => none

section Histories

variable (k : MQ) (t : Thread) (tr tr' : List (Event W V F))

@[simp] lemma fifoEvents_append : fifoEvents k (tr ++ tr') = fifoEvents k tr ++ fifoEvents k tr' :=
  List.filterMap_append ..

@[simp] lemma takes_append : takes t (tr ++ tr') = takes t tr ++ takes t tr' :=
  List.filterMap_append ..

@[simp] lemma writes_append : writes t (tr ++ tr') = writes t tr ++ writes t tr' :=
  List.filterMap_append ..

@[simp] lemma allTakes_append : allTakes (tr ++ tr') = allTakes tr ++ allTakes tr' :=
  List.filterMap_append ..

@[simp] lemma allWrites_append : allWrites (tr ++ tr') = allWrites tr ++ allWrites tr' :=
  List.filterMap_append ..

end Histories

/-! ## The queues along a run -/

/-- A step does to each queue what it shows of the queue. -/
lemma Effect.moves {J : Codec P V F} {s s' : Server W V} {a : Action W V P}
    {es : List (Event W V F)} (h : Effect J s a s' es) (k : MQ) :
    BoundedFifo.Moves (s.queues k).fifo (fifoEvents k es) (s'.queues k).fifo := by
  have hpush : ∀ (k₀ : MQ) (v : Option V), BoundedFifo.Moves (s.queues k).fifo
      (fifoEvents k [(.push k₀ v (s.queues k₀).hasRoom : Event W V F)])
      (s.queues.push k₀ v k).fifo := by
    intro k₀ v
    by_cases hk : k = k₀
    · subst hk
      rw [Rings.fifo_push_self, Ring.hasRoom_eq]
      simpa [fifoEvents] using .push _ v
    · rw [Rings.push_of_ne _ hk]
      simpa [fifoEvents, Ne.symm hk] using .none _
  have hpop : ∀ (k₀ : MQ), (s.queues k₀).isEmpty = false → BoundedFifo.Moves (s.queues k).fifo
      (fifoEvents k [(.pop k₀ (s.queues.pop k₀).1 : Event W V F)])
      ((s.queues.pop k₀).2 k).fifo := by
    intro k₀ hne
    by_cases hk : k = k₀
    · subst hk
      rw [Rings.fifo_pop_self]
      simpa [fifoEvents] using .pop (s.queues.fst_pop_eq hne)
    · rw [Rings.pop_of_ne _ hk]
      simpa [fifoEvents, Ne.symm hk] using .none _
  cases h with
  | quiet hq _ => rw [hq]; exact .none _
  | receive w p _ hq _ => rw [hq]; exact hpush _ _
  | post m _ hq _ => rw [hq]; exact hpush _ _
  | pop k₀ _ hq _ =>
    rw [hq]
    cases hempty : (s.queues k₀).isEmpty with
    | false => simpa [hempty] using hpop k₀ hempty
    | true =>
      have hsame : ((s.queues.pop k₀).2 k).fifo = (s.queues k).fifo := by
        by_cases hk : k = k₀
        · subst hk
          exact (s.queues.pop_of_isEmpty hempty).2
        · rw [Rings.pop_of_ne _ hk]
      rw [hsame]
      exact .none _
  | take t w m _ hm hq _ _ =>
    have hev : fifoEvents k [.pop .MQ_OUT (some m), (.take t w m : Event W V F)]
        = fifoEvents k [(.pop .MQ_OUT (some m) : Event W V F)] := by cases k <;> rfl
    rw [hq, hev, ← hm]
    exact hpop .MQ_OUT (Rings.isEmpty_of_pop hm)
  | write t w m frame _ hq _ _ => rw [hq]; exact .none _

variable [DecidableEq W] {J : Codec P V F} {C : Server W V → Action W V P → Prop}
  {tr : List (Event W V F)} {s : Server W V}

/-- **Conservation.**  At every point of every run, what a queue took is what was popped
from it, followed by what is waiting in it; and its capacity is that of the library. -/
theorem queues_conserved (hr : (machine W J).Run C tr s) (k : MQ) :
    BoundedFifo.Conserved (fifoEvents k tr) (s.queues k).fifo ∧
      (s.queues k).fifo.capacity = MQ_LEN := by
  refine hr.invariant (I := fun tr s => BoundedFifo.Conserved (fifoEvents k tr)
    (s.queues k).fifo ∧ (s.queues k).fifo.capacity = MQ_LEN) ?_ ?_
  · simpa [machine, init, fifoEvents, BoundedFifo.empty] using
      BoundedFifo.conserved_empty (α := Option V) MQ_LEN
  · rintro tr s a s' es ⟨hcons, hcap⟩ - hstep
    have hm := (step_effect hstep).moves k
    rw [fifoEvents_append]
    exact ⟨hcons.moves hm, hm.capacity_eq.trans hcap⟩

/-! ## The callbacks along a run -/

/-- A callback pops a message before it writes it, and holds it in between. -/
theorem takes_eq (hr : (machine W J).Run C tr s) (t : Thread) :
    takes t tr = writes t tr ++ s.inFlight t := by
  refine hr.invariant (I := fun tr s => takes t tr = writes t tr ++ s.inFlight t) ?_ ?_
  · cases t <;> rfl
  · intro tr s a s' es ih _ hstep
    rw [takes_append, writes_append, ih]
    cases step_effect hstep with
    | quiet _ hf => simp [hf, takes, writes]
    | receive _ _ _ _ hf | post _ _ _ hf => simp [hf, takes, writes]
    | pop k _ _ hf => split <;> simp [hf, takes, writes]
    | take t' w m _ _ _ hnone hf =>
      by_cases ht : t' = t
      · subst ht
        simp [hf, hnone, takes, writes]
      · simp [hf, takes, writes, ht, Function.update_of_ne (Ne.symm ht)]
    | write t' w m frame _ _ hheld hf =>
      by_cases ht : t' = t
      · subst ht
        simp [hf, hheld, takes, writes]
      · simp [hf, takes, writes, ht, Function.update_of_ne (Ne.symm ht)]

/-- What callbacks popped, in pop order, is what the out-queue gave, `NULL` left out. -/
theorem allTakes_eq (hr : (machine W J).Run C tr s) :
    (allTakes tr).map Prod.snd
      = (BoundedFifo.popped (fifoEvents .MQ_OUT tr)).filterMap id := by
  refine hr.invariant (I := fun tr _ => (allTakes tr).map Prod.snd
    = (BoundedFifo.popped (fifoEvents .MQ_OUT tr)).filterMap id) rfl ?_
  intro tr s a s' es ih _ hstep
  rw [allTakes_append, fifoEvents_append, BoundedFifo.popped_append, List.map_append,
    List.filterMap_append, ih]
  congr 1
  cases step_effect hstep with
  | quiet _ _ => rfl
  | receive _ _ _ _ _ | post _ _ _ _ => simp [allTakes, fifoEvents, BoundedFifo.popped]
  | pop k hnull _ _ =>
    split
    · rfl
    · cases k with
      | MQ_IN => simp [allTakes, fifoEvents, BoundedFifo.popped]
      | MQ_OUT => simp [allTakes, fifoEvents, BoundedFifo.popped, hnull rfl]
  | take t w m _ _ _ _ _ => simp [allTakes, fifoEvents, BoundedFifo.popped]
  | write t w m frame _ _ _ _ => simp [allTakes, fifoEvents, BoundedFifo.popped]

/-- What is written is the text of the message. -/
theorem frame_eq (hr : (machine W J).Run C tr s) {t : Thread} {w : W} {m : V} {frame : F}
    (h : Event.write t w m frame ∈ tr) : J.dumps m = some frame := by
  refine hr.invariant (I := fun tr _ => ∀ t w m frame, Event.write t w m frame ∈ tr →
    J.dumps m = some frame) (by simp) ?_ t w m frame h
  intro tr s a s' es ih _ hstep t w m frame hmem
  rcases List.mem_append.mp hmem with hmem | hmem
  · exact ih t w m frame hmem
  · exact ((step_effect hstep).write_inv hmem).2

/-! ## What the messages carry -/

omit [DecidableEq W]

/-- Every message that waits in a queue has the property that belongs to the queue, and a
message that a callback has popped and not yet written still has that of the out-queue. -/
structure Carries (P : MQ → V → Prop) (s : Server W V) : Prop where
  queued : ∀ k m, some m ∈ (s.queues k).fifo.items → P k m
  flying : ∀ t w m, (w, m) ∈ s.inFlight t → P .MQ_OUT m

variable {Q : MQ → V → Prop}

lemma carries_init : Carries Q (init W V) := by
  constructor
  · intro k m hm
    simp [init] at hm
  · intro t w m hm
    cases t <;> simp [init, inFlight] at hm

/-- What the messages carry is kept by a step, if what is received and what is posted has it. -/
lemma Effect.carries {J : Codec P V F} {s s' : Server W V} {a : Action W V P}
    {es : List (Event W V F)} (h : Effect J s a s' es) (hs : Carries Q s)
    (hin : ∀ w p m, a = .receive w p → J.loads p = some m → Q .MQ_IN m)
    (hout : ∀ m, a = .post (some m) → Q .MQ_OUT m) : Carries Q s' := by
  have hpop : ∀ k, s'.queues = (s.queues.pop k).2 →
      ∀ k' m, some m ∈ (s'.queues k').fifo.items → Q k' m := by
    intro k hq k' m hm
    rw [hq] at hm
    exact hs.queued k' m (Rings.mem_of_mem_pop hm)
  cases h with
  | quiet hq hf =>
    constructor
    · rw [hq]
      exact hs.queued
    · rw [hf]
      exact hs.flying
  | receive w p ha hq hf =>
    constructor
    · intro k m hm
      rw [hq] at hm
      rcases Rings.mem_of_mem_push hm with hm | ⟨rfl, hloads⟩
      · exact hs.queued k m hm
      · exact hin w p m ha hloads.symm
    · rw [hf]
      exact hs.flying
  | post m₀ ha hq hf =>
    constructor
    · intro k m hm
      rw [hq] at hm
      rcases Rings.mem_of_mem_push hm with hm | ⟨rfl, rfl⟩
      · exact hs.queued k m hm
      · exact hout m ha
    · rw [hf]
      exact hs.flying
  | pop k _ hq hf =>
    constructor
    · exact hpop k hq
    · rw [hf]
      exact hs.flying
  | take t w m _ hm hq _ hf =>
    constructor
    · exact hpop .MQ_OUT hq
    · intro t' w' m' hm'
      rw [hf] at hm'
      by_cases ht : t' = t
      · subst ht
        obtain ⟨rfl, rfl⟩ : w' = w ∧ m' = m := by simpa using hm'
        exact hs.queued .MQ_OUT m' (Rings.mem_of_pop hm)
      · rw [Function.update_of_ne ht] at hm'
        exact hs.flying t' w' m' hm'
  | write t w m frame _ hq _ hf =>
    constructor
    · rw [hq]
      exact hs.queued
    · intro t' w' m' hm'
      rw [hf] at hm'
      by_cases ht : t' = t
      · subst ht
        simp at hm'
      · rw [Function.update_of_ne ht] at hm'
        exact hs.flying t' w' m' hm'

end Server

end Headcrab
