/-
# The out-queue and the requests for writable callbacks

Nobody looks at the out-queue by itself: a message leaves it only when `callback_command` is
called for some connection, by a broadcast or for a writable callback that was asked for.
Each call that writes a message asks for the next one, so a backlog is worked off as long as
some call is due.  This file asks whether a call is always due while messages wait and
somebody is connected (`Awake`).

It is not: a client that connects to a backlog asks for nothing, a client that closes takes
its request with it, and a `NULL` in the queue ends a call early.  These are the only ways
(`awake_of_keepsDue`): as long as no step does one of them while no other call is due, some
connection has a call due all the time.
-/
import Headcrab.Delivery

namespace Headcrab

/-- The connection that a call of `callback_command` is made for. -/
def Sending.wsi {W V : Type} : Sending W V → W
  | .entered w => w
  | .popped w _ => w
  | .written w => w

/-- The connections that a broadcast still goes to. -/
def AppAt.rest {W V : Type} : AppAt W V → List W
  | .broadcast rest => rest
  | .callback _ rest => rest
  | _ => []

namespace Server

variable {W V P F : Type}

/-- The values that wait in the out-queue. -/
def backlog (s : Server W V) : List (Option V) := (s.queues .MQ_OUT).1.contents

/-- **No lost wake-up.**  While no call of `callback_command` or `headcrab_post_message` is in
progress, values wait in the out-queue and a client is connected, a writable callback has
been asked for some connected client and not yet been made. -/
def Awake (s : Server W V) : Prop :=
  s.app = .idle → s.service = none → s.backlog ≠ [] → s.established ≠ [] →
    ∃ w ∈ s.established, w ∈ s.writable

/-! ## The calls that are due -/

/-- The connections that a call was asked for or will be broadcast to. -/
def announced (s : Server W V) : List W := s.writable ++ s.app.rest

/-- The connection that a thread is in a call for. -/
def calling (s : Server W V) : Thread → List W
  | .app =>
    match s.app with
    | .callback call _ => [call.wsi]
    | _ => []
  | .service => (s.service.map Sending.wsi).toList

/-- The connections that have a call due, other than the one that a thread is in. -/
def dueBeside (s : Server W V) (t : Thread) : List W := s.announced ++ s.calling t.other

/-- The connections that have a call due. -/
def due (s : Server W V) : List W := s.announced ++ s.calling .app ++ s.calling .service

/-- No call is needed, or a broadcast to everybody is about to start. -/
def NoneNeeded (s : Server W V) : Prop :=
  s.backlog = [] ∨ s.established = [] ∨ s.app = .notify

/-- If a call is needed, some connected client has one due. -/
def SomeoneDue (s : Server W V) : Prop := s.NoneNeeded ∨ ∃ w ∈ s.established, w ∈ s.due

/-- A `NULL` is the oldest value, and other values are behind it. -/
def nullInFront : List (Option V) → Bool
  | none :: _ :: _ => true
  | _ => false

/-- The step does not leave a backlog to nobody: no client becomes the only one while values
wait, and neither a client that closes nor a call that a `NULL` ends was the last one due. -/
def KeepsDue (s : Server W V) : Action W V P → Prop
  | .establish _ => s.established = [] → s.backlog = [] ∨ s.app = .notify
  | .close w =>
    s.NoneNeeded ∨ (∀ w' ∈ s.established, w' = w) ∨ ∃ w' ∈ s.established, w' ≠ w ∧ w' ∈ s.due
  | a => ∀ t, s.popping a = some t → nullInFront s.backlog = true →
      s.NoneNeeded ∨ ∃ w ∈ s.established, w ∈ s.dueBeside t

lemma someoneDue_init : SomeoneDue (init W V) := Or.inl (Or.inr (Or.inl rfl))

/-- While no call is in progress, the calls that are due are those that were asked for. -/
lemma SomeoneDue.awake {s : Server W V} (h : s.SomeoneDue) : s.Awake := by
  intro happ hservice hbacklog hestablished
  rcases h with (hnil | hnil | hnotify) | ⟨w, hw, hdue⟩
  · exact absurd hnil hbacklog
  · exact absurd hnil hestablished
  · rw [happ] at hnotify
    exact absurd hnotify (by simp)
  · refine ⟨w, hw, ?_⟩
    simpa [due, announced, calling, AppAt.rest, happ, hservice] using hdue

lemma mem_due_iff {s : Server W V} {w : W} (t : Thread) :
    w ∈ s.due ↔ w ∈ s.calling t ∨ w ∈ s.dueBeside t := by
  cases t <;> simp only [due, dueBeside, Thread.other, List.mem_append] <;> tauto

/-! ## One step of a call -/

lemma backlog_pop (s : Server W V) : { s with queues := (s.queues.pop .MQ_OUT).2 }.backlog
    = s.backlog.tail := by
  have h := congrArg BoundedFifo.items (Rings.fifo_pop_self s.queues .MQ_OUT)
  rwa [BoundedFifo.items_pop] at h

lemma backlog_pop_in (s : Server W V) : { s with queues := (s.queues.pop .MQ_IN).2 }.backlog
    = s.backlog := by
  have hsame : (s.queues.pop .MQ_IN).2 .MQ_OUT = s.queues .MQ_OUT := s.queues.pop_of_ne (by decide)
  exact congrArg (fun r : Ring V => r.1.contents) hsame

lemma backlog_push_in (s : Server W V) (v : Option V) :
    { s with queues := s.queues.push .MQ_IN v }.backlog = s.backlog := by
  have hsame : s.queues.push .MQ_IN v .MQ_OUT = s.queues .MQ_OUT :=
    s.queues.push_of_ne (by decide) v
  exact congrArg (fun r : Ring V => r.1.contents) hsame

/-- A pop that gives no message leaves nothing behind, unless it took a `NULL` off. -/
lemma tail_backlog_of_pop {s : Server W V} (h : (s.queues.pop .MQ_OUT).1 = none) :
    s.backlog.tail = [] ∨ nullInFront s.backlog = true := by
  have hjoin : s.backlog.head?.join = none := by
    rw [← h]
    exact ((s.queues .MQ_OUT).dequeue_spec.1).symm
  rcases hb : s.backlog with _ | ⟨v, _ | ⟨v', vs⟩⟩
  · exact Or.inl rfl
  · exact Or.inl rfl
  · rw [hb] at hjoin
    obtain rfl : v = none := hjoin
    exact Or.inr rfl

/-- What a step of a call leaves as it is. -/
structure SendFrame (s s' : Server W V) : Prop where
  established : s'.established = s.established
  app : s'.app = s.app
  service : s'.service = s.service
  writable : s.writable ⊆ s'.writable
  backlog : s.backlog = [] → s'.backlog = []

section Steps

variable [DecidableEq W]

lemma send_frame (J : Codec P V F) (t : Thread) (sent : Bool) (s : Server W V)
    (call : Sending W V) : SendFrame s (s.send J t sent call).1 := by
  have hrefl : SendFrame s s := ⟨rfl, rfl, rfl, fun _ h => h, fun h => h⟩
  have hhalt : SendFrame s { s with halted := true } := ⟨rfl, rfl, rfl, fun _ h => h, fun h => h⟩
  cases call with
  | entered w =>
    have hpop : SendFrame s { s with queues := (s.queues.pop .MQ_OUT).2 } := by
      refine ⟨rfl, rfl, rfl, fun _ h => h, fun h => ?_⟩
      rw [backlog_pop, h]
      rfl
    rcases hm : (s.queues.pop .MQ_OUT).1 with _ | m <;> simpa only [send, pop, hm] using hpop
  | popped w m =>
    rcases hd : J.dumps m with _ | frame
    · simpa only [send, hd] using hhalt
    · cases sent
      · simpa [send, hd] using hhalt
      · simpa [send, hd] using hrefl
  | written w =>
    by_cases hw : w ∈ s.established
    · simp only [send, if_pos hw]
      exact ⟨rfl, rfl, rfl, fun _ h => List.mem_cons_of_mem _ h, fun h => h⟩
    · simpa only [send, if_neg hw] using hrefl

/-- Where a call stands after a step: it goes on for the same connection, or it has asked to
be called again, or its pop gave it no message. -/
lemma send_call (J : Codec P V F) (t : Thread) (sent : Bool) (s : Server W V)
    (call : Sending W V) :
    (∃ call', (s.send J t sent call).2.1 = some call' ∧ call'.wsi = call.wsi) ∨
      (s.send J t sent call).2.1 = none ∧
        ((call.wsi ∈ s.established → call.wsi ∈ (s.send J t sent call).1.writable) ∨
          (∃ w, call = .entered w) ∧
            ((s.send J t sent call).1.backlog = [] ∨ nullInFront s.backlog = true)) := by
  cases call with
  | entered w =>
    rcases hm : (s.queues.pop .MQ_OUT).1 with _ | m
    · refine Or.inr ⟨by simp only [send, pop, hm], Or.inr ⟨⟨w, rfl⟩, ?_⟩⟩
      simp only [send, pop, hm]
      rw [backlog_pop]
      exact tail_backlog_of_pop hm
    · exact Or.inl ⟨.popped w m, by simp only [send, pop, hm], rfl⟩
  | popped w m =>
    rcases hd : J.dumps m with _ | frame
    · exact Or.inl ⟨.popped w m, by simp only [send, hd], rfl⟩
    · cases sent
      · exact Or.inl ⟨.popped w m, by simp [send, hd], rfl⟩
      · exact Or.inl ⟨.written w, by simp [send, hd], rfl⟩
  | written w =>
    refine Or.inr ⟨rfl, Or.inl fun hw => ?_⟩
    have hw : w ∈ s.established := hw
    simp [send, hw, Sending.wsi]

/-! ## One step of the server -/

omit [DecidableEq W] in
/-- A step of a call keeps someone due.  `s'` is the server after it, with the call back where
its thread stands. -/
lemma someoneDue_send {s s' s₁ : Server W V} {t : Thread} {call : Sending W V}
    {call' : Option (Sending W V)} (hs : s.SomeoneDue) (hcall : s.calling t = [call.wsi])
    (hframe : SendFrame s s₁) (hqueues : s'.queues = s₁.queues)
    (hestablished : s'.established = s.established)
    (hnotify : s.app = .notify → s'.app = .notify)
    (hcalling : s'.calling t = (call'.map Sending.wsi).toList)
    (hbeside : ∀ w ∈ s.dueBeside t, w ∈ s'.dueBeside t)
    (hwritable : ∀ w ∈ s₁.writable, w ∈ s'.dueBeside t)
    (hnext : (∃ c, call' = some c ∧ c.wsi = call.wsi) ∨
      call' = none ∧ ((call.wsi ∈ s.established → call.wsi ∈ s₁.writable) ∨
        (∃ w, call = .entered w) ∧ (s₁.backlog = [] ∨ nullInFront s.backlog = true)))
    (hnull : (∃ w, call = .entered w) → nullInFront s.backlog = true →
      s.NoneNeeded ∨ ∃ w ∈ s.established, w ∈ s.dueBeside t) : s'.SomeoneDue := by
  have hbacklog : s'.backlog = s₁.backlog := by rw [backlog, hqueues]; rfl
  have hneeded : s.NoneNeeded → s'.NoneNeeded := by
    rintro (h | h | h)
    · exact Or.inl (hbacklog.trans (hframe.backlog h))
    · exact Or.inr (Or.inl (hestablished.trans h))
    · exact Or.inr (Or.inr (hnotify h))
  have hdue : (∃ w ∈ s.established, w ∈ s.dueBeside t) → s'.SomeoneDue := by
    rintro ⟨w, hw, hmem⟩
    exact Or.inr ⟨w, hestablished ▸ hw, (mem_due_iff t).mpr (Or.inr (hbeside w hmem))⟩
  rcases hs with hs | ⟨w, hw, hmem⟩
  · exact Or.inl (hneeded hs)
  rcases (mem_due_iff t).mp hmem with hmem | hmem
  · -- the call that makes the step is the one that is due
    obtain rfl : w = call.wsi := by simpa [hcall] using hmem
    rcases hnext with ⟨c, rfl, hc⟩ | ⟨-, hasked | ⟨hentered, hnil | hfront⟩⟩
    · refine Or.inr ⟨call.wsi, hestablished ▸ hw, (mem_due_iff t).mpr (Or.inl ?_)⟩
      simp [hcalling, hc]
    · exact Or.inr ⟨call.wsi, hestablished ▸ hw,
        (mem_due_iff t).mpr (Or.inr (hwritable _ (hasked hw)))⟩
    · exact Or.inl (Or.inl (hbacklog.trans hnil))
    · exact (hnull hentered hfront).elim (fun h => Or.inl (hneeded h)) hdue
  · exact hdue ⟨w, hw, hmem⟩

omit [DecidableEq W] in
/-- Only the backlog matters of the queues. -/
lemma SomeoneDue.with_queues {s : Server W V} {queues : Rings V} (hs : s.SomeoneDue)
    (hbacklog : { s with queues }.backlog = s.backlog) : SomeoneDue { s with queues } := by
  rcases hs with (hnil | hrest) | hdue
  · exact Or.inl (Or.inl (hbacklog.trans hnil))
  · exact Or.inl (Or.inr hrest)
  · exact Or.inr hdue

omit [DecidableEq W] in
/-- A client that connects is one more; only the first one may find a backlog. -/
lemma SomeoneDue.establish {s : Server W V} {w : W} (hs : s.SomeoneDue)
    (hC : s.established = [] → s.backlog = [] ∨ s.app = .notify) :
    SomeoneDue { s with established := s.established ++ [w] } := by
  have hquiet : s.backlog = [] ∨ s.app = .notify →
      SomeoneDue { s with established := s.established ++ [w] } := by
    rintro (h | h)
    · exact Or.inl (Or.inl h)
    · exact Or.inl (Or.inr (Or.inr h))
  rcases hs with (hnil | hnone | hnotify) | ⟨w', hw', hdue⟩
  · exact hquiet (Or.inl hnil)
  · exact hquiet (hC hnone)
  · exact hquiet (Or.inr hnotify)
  · exact Or.inr ⟨w', List.mem_append_left _ hw', hdue⟩

/-- A client that closes takes its request with it. -/
lemma SomeoneDue.close {s : Server W V} {w : W}
    (hC : s.NoneNeeded ∨ (∀ w' ∈ s.established, w' = w) ∨
      ∃ w' ∈ s.established, w' ≠ w ∧ w' ∈ s.due) :
    SomeoneDue { s with
      established := s.established.filter (· ≠ w)
      writable := s.writable.filter (· ≠ w) } := by
  rcases hC with (hnil | hnone | hnotify) | hlast | ⟨w', hw', hne, hdue⟩
  · exact Or.inl (Or.inl hnil)
  · exact Or.inl (Or.inr (Or.inl (by simp [hnone])))
  · exact Or.inl (Or.inr (Or.inr hnotify))
  · exact Or.inl (Or.inr (Or.inl (by simpa using hlast)))
  · refine Or.inr ⟨w', by simp [hw', hne], ?_⟩
    simp only [due, announced, calling, List.mem_append, List.mem_filter] at hdue ⊢
    simpa [hne] using hdue

omit [DecidableEq W] in
/-- A broadcast that starts goes to everybody. -/
lemma someoneDue_notify {s : Server W V} {order : List W} (hperm : order.Perm s.established) :
    SomeoneDue { s with app := .broadcast order } := by
  by_cases hnone : s.established = []
  · exact Or.inl (Or.inr (Or.inl hnone))
  · obtain ⟨w, hw⟩ := List.exists_mem_of_ne_nil _ hnone
    refine Or.inr ⟨w, hw, ?_⟩
    simp [due, announced, AppAt.rest, hperm.mem_iff.mpr hw]

omit [DecidableEq W] in
/-- A broadcast that goes on keeps someone due, if everybody it was still to go to has a call
due afterwards. -/
lemma SomeoneDue.broadcast {s : Server W V} {rest : List W} {app : AppAt W V}
    (hs : s.SomeoneDue) (happ : s.app = .broadcast rest)
    (hrest : ∀ w ∈ s.established, w ∈ rest → w ∈ due { s with app }) :
    SomeoneDue { s with app } := by
  rcases hs with (hnil | hnone | hnotify) | ⟨w, hw, hdue⟩
  · exact Or.inl (Or.inl hnil)
  · exact Or.inl (Or.inr (Or.inl hnone))
  · exact absurd (happ.symm.trans hnotify) (by simp)
  · refine Or.inr ⟨w, hw, ?_⟩
    by_cases hmem : w ∈ rest
    · exact hrest w hw hmem
    · -- the call that is due is none of the broadcast
      simp only [due, announced, calling, AppAt.rest, happ, List.mem_append] at hdue ⊢
      simp only [hmem, or_false, List.not_mem_nil] at hdue
      tauto

/-- A step of a call that the service thread is in. -/
lemma SomeoneDue.service_send {s : Server W V} {call : Sending W V} (J : Codec P V F) (sent : Bool)
    (hs : s.SomeoneDue) (hcall : s.service = some call)
    (hnull : (∃ w, call = .entered w) → nullInFront s.backlog = true →
      s.NoneNeeded ∨ ∃ w ∈ s.established, w ∈ s.dueBeside .service) :
    SomeoneDue { (s.send J .service sent call).1 with
      service := (s.send J .service sent call).2.1 } := by
  have hframe := send_frame J .service sent s call
  refine someoneDue_send hs (t := .service) (by simp [calling, hcall]) hframe rfl
    hframe.established (fun h => hframe.app.trans h) rfl ?_ ?_
    (send_call J .service sent s call) hnull
  · intro w hw
    simp only [dueBeside, announced, calling, Thread.other, hframe.app, List.mem_append]
      at hw ⊢
    rcases hw with (hw | hw) | hw
    · exact Or.inl (Or.inl (hframe.writable hw))
    · exact Or.inl (Or.inr hw)
    · exact Or.inr hw
  · intro w hw
    simp [dueBeside, announced, hw]

/-- A step of a call that a broadcast is in. -/
lemma SomeoneDue.app_send {s : Server W V} {call : Sending W V} {rest : List W}
    (J : Codec P V F) (sent : Bool) (hs : s.SomeoneDue) (hcall : s.app = .callback call rest)
    (hnull : (∃ w, call = .entered w) → nullInFront s.backlog = true →
      s.NoneNeeded ∨ ∃ w ∈ s.established, w ∈ s.dueBeside .app) :
    SomeoneDue { (s.send J .app sent call).1 with
      app := resume rest (s.send J .app sent call).2.1 } := by
  have hframe := send_frame J .app sent s call
  have hrest : ∀ c, (resume (V := V) rest c).rest = rest := fun c => by cases c <;> rfl
  refine someoneDue_send hs (t := .app) (by simp [calling, hcall]) hframe rfl
    hframe.established (fun h => absurd (hcall.symm.trans h) (by simp)) ?_ ?_ ?_
    (send_call J .app sent s call) hnull
  · rcases hc : (s.send J .app sent call).2.1 <;> rfl
  · intro w hw
    simp only [dueBeside, announced, calling, Thread.other, hframe.service, hcall, hrest,
      List.mem_append] at hw ⊢
    rcases hw with (hw | hw) | hw
    · exact Or.inl (Or.inl (hframe.writable hw))
    · exact Or.inl (Or.inr hw)
    · exact Or.inr hw
  · intro w hw
    simp [dueBeside, announced, hw]

/-- A step that meets the condition keeps someone due. -/
theorem SomeoneDue.step {J : Codec P V F} {s s' : Server W V} {a : Action W V P}
    {es : List (Event W V F)} (hs : s.SomeoneDue) (hC : s.KeepsDue a)
    (h : Server.step J s a = some (s', es)) : s'.SomeoneDue := by
  obtain ⟨-, h⟩ := step_eq_some h
  cases a with
  | establish w =>
    simp only [act, Option.ite_none_right_eq_some, Option.some.injEq, Prod.mk.injEq] at h
    obtain ⟨-, rfl, -⟩ := h
    exact hs.establish hC
  | close w =>
    simp only [act, Option.ite_none_right_eq_some, Option.some.injEq, Prod.mk.injEq] at h
    obtain ⟨-, rfl, -⟩ := h
    exact SomeoneDue.close hC
  | receive w p =>
    simp only [act, Option.ite_none_right_eq_some, Option.some.injEq] at h
    obtain ⟨-, h⟩ := h
    obtain ⟨rfl, -⟩ := Prod.mk.inj h
    exact hs.with_queues (backlog_push_in s _)
  | writeable w =>
    simp only [act, Option.ite_none_right_eq_some, Option.some.injEq, Prod.mk.injEq] at h
    obtain ⟨⟨hserv, hw⟩, rfl, -⟩ := h
    -- the call that was due is made
    exact Or.inr ⟨w, hw, (mem_due_iff .service).mpr (Or.inl (by simp [calling, Sending.wsi]))⟩
  | handle =>
    simp only [act] at h
    split at h
    · obtain ⟨rfl, -⟩ := Prod.mk.inj (Option.some.inj h)
      exact hs.with_queues (backlog_pop_in s)
    · exact absurd h (by simp)
  | post m =>
    simp only [act] at h
    split at h
    · obtain ⟨rfl, -⟩ := Prod.mk.inj (Option.some.inj h)
      exact Or.inl (Or.inr (Or.inr rfl))
    · exact absurd h (by simp)
  | notify order =>
    simp only [act] at h
    split at h
    · simp only [Option.ite_none_right_eq_some, Option.some.injEq, Prod.mk.injEq] at h
      obtain ⟨hperm, rfl, -⟩ := h
      exact someoneDue_notify hperm
    · exact absurd h (by simp)
  | broadcast =>
    simp only [act] at h
    split at h
    · rename_i happ
      obtain ⟨rfl, -⟩ := Prod.mk.inj (Option.some.inj h)
      exact hs.broadcast happ fun w _ hw => absurd hw (by simp)
    · rename_i w rest happ
      split at h
      · obtain ⟨rfl, -⟩ := Prod.mk.inj (Option.some.inj h)
        refine hs.broadcast happ fun w' _ hw' => ?_
        rcases List.mem_cons.mp hw' with rfl | hw'
        · simp [due, calling, Sending.wsi]
        · simp [due, announced, AppAt.rest, hw']
      · rename_i hclosed
        obtain ⟨rfl, -⟩ := Prod.mk.inj (Option.some.inj h)
        refine hs.broadcast happ fun w' hw'' hw' => ?_
        rcases List.mem_cons.mp hw' with rfl | hw'
        · exact absurd hw'' hclosed
        · simp [due, announced, AppAt.rest, hw']
    · exact absurd h (by simp)
  | serviceStep sent =>
    simp only [act] at h
    split at h
    · rename_i call hcall
      obtain ⟨rfl, -⟩ := Prod.mk.inj (Option.some.inj h)
      refine hs.service_send J sent hcall ?_
      rintro ⟨w, rfl⟩
      exact hC .service (by simp [popping, hcall])
    · exact absurd h (by simp)
  | appStep sent =>
    simp only [act] at h
    split at h
    · rename_i call rest hcall
      have hs' : s' = { (s.send J .app sent call).1 with
          app := resume rest (s.send J .app sent call).2.1 } := by
        split at h <;>
        · rename_i hsend
          obtain ⟨rfl, -⟩ := Prod.mk.inj (Option.some.inj h)
          rw [hsend]
          rfl
      subst hs'
      refine hs.app_send J sent hcall ?_
      rintro ⟨w, rfl⟩
      exact hC .app (by simp [popping, hcall])
    · exact absurd h (by simp)

/-- **When the out-queue is never forgotten.**  In every run whose steps leave no backlog to
nobody, no wake-up is lost. -/
theorem awake_of_keepsDue {J : Codec P V F} {tr : List (Event W V F)} {s : Server W V}
    (hr : (machine W J).Run KeepsDue tr s) : s.Awake := by
  refine SomeoneDue.awake ?_
  exact hr.invariant (I := fun _ s => s.SomeoneDue) someoneDue_init
    fun _ _ _ _ _ hs hC hstep => hs.step hC hstep

instance [DecidableEq V] (s : Server W V) : Decidable s.NoneNeeded :=
  inferInstanceAs (Decidable (_ ∨ _ ∨ _))

instance [DecidableEq V] (s : Server W V) : (a : Action W V P) → Decidable (s.KeepsDue a)
  | .establish _ => inferInstanceAs (Decidable (_ → _))
  | .close _ => inferInstanceAs (Decidable (_ ∨ _ ∨ _))
  | .receive .. | .writeable _ | .serviceStep _ | .handle | .post _ | .notify _ | .broadcast
  | .appStep _ => inferInstanceAs (Decidable (∀ t, _ = some t → _ → _))

instance [DecidableEq V] (s : Server W V) : Decidable s.Awake :=
  inferInstanceAs (Decidable (_ → _ → _ → _ → _))

/-- Two messages are posted while nobody is connected, and a client connects before the
broadcast of the third. -/
def backlogInTime : List (Action Unit ℕ ℕ) :=
  [.post (some 0), .notify [], .broadcast, .post (some 1), .notify [], .broadcast,
    .post (some 2), .establish (), .notify [()], .broadcast, .appStep true, .appStep true,
    .appStep true, .broadcast]

theorem awake_backlogInTime : ∃ tr s, (machine Unit natCodec).Run KeepsDue tr s ∧
    (s.backlog = [some 1, some 2] ∧ s.established = [()]) ∧ s.Awake := by
  obtain ⟨tr, s, hr, hend⟩ := Runs.Machine.run_of_exec_any (M := machine Unit natCodec)
    (C := KeepsDue) (P := fun _ s => s.backlog = [some 1, some 2] ∧ s.established = [()])
    backlogInTime (by decide +kernel)
  exact ⟨tr, s, hr, hend, awake_of_keepsDue hr⟩

/-- A client that connects after the broadcast is never called. -/
theorem late_client_not_awake : ∃ tr s, (machine Unit natCodec).Reach tr s ∧ ¬ s.Awake :=
  Runs.Machine.run_of_exec_any [.post (some 0), .notify [], .broadcast, .establish ()]
    (by decide +kernel)

end Steps

end Server

end Headcrab
