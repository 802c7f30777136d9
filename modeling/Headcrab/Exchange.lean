/-
# The two threads and the out-queue

The host program posts objects.  Either thread takes a message off the out-queue, makes a text
of it, gives the message back, and writes the text to a connection: these are four steps, and
the other thread may do anything in between, also take a message itself (`Exchange`).

`Carries` is the invariant of such runs: what waits in the queue, and what the two threads have
taken off it, stands for what was posted, and nothing else that is held leads to it.
-/
import Headcrab.Posting

namespace Headcrab

namespace JsonHeap

open RefCount (Apart Counted Kept Reachable Separate exclusive_of_refs reachable_append_iff)

variable {j j' : JsonHeap} {R : List ℕ} {b : ℕ}

/-! ## Runs -/

/-- Where a thread stands in a call of `callback_command` that sends. -/
inductive SendingAt
  /-- It is in no such call, or `mq_pop` is next. -/
  | outside
  /-- `json_dumps` is next. -/
  | popped (message : JsonPtr)
  /-- `json_decref` is next. -/
  | dumped (message : JsonPtr) (text : List UInt8)
  /-- `libwebsocket_write` is next. -/
  | released (text : List UInt8)

/-- The reference that the call holds. -/
def SendingAt.refs : SendingAt → List ℕ
  | .popped message | .dumped message _ => message.refs
  | .outside | .released _ => []

/-- How many messages the call has. -/
def SendingAt.count : SendingAt → ℕ
  | .outside => 0
  | .popped _ | .dumped _ _ | .released _ => 1

/-- What the two threads share, and where they stand. -/
structure Traffic where
  queues : Rings JsonPtr
  heap : JsonHeap
  tables : Tables
  call : Thread → SendingAt

namespace Traffic

/-- The references that the out-queue holds. -/
def queueRefs (s : Traffic) : List ℕ := (s.queues .MQ_OUT).fifo.items.flatMap refsOf

/-- The references that the out-queue and the two threads hold. -/
def refs (s : Traffic) : List ℕ := s.queueRefs ++ ((s.call .app).refs ++ (s.call .service).refs)

/-- No thread is in a call that has a message. -/
def Alone (s : Traffic) (_ : Thread) : Prop := ∀ t, s.call t = .outside

end Traffic

section

variable (snprintf_17g : UInt64 → List UInt8) (C : Traffic → Thread → Prop)

/-- The runs of the two threads, as far as the out-queue is concerned, with the references that
they hold otherwise, what was posted while the queue had room, and what was written.  A thread
takes a message only where `C` allows it. -/
inductive Exchange : Traffic → List ℕ → List Json → List (List UInt8) → Prop
  | start {s : Traffic} {R : List ℕ} : (s.queues .MQ_OUT).fifo.items = [] →
      (∀ t, s.call t = .outside) → Counted s.heap R → TablesStand s.tables s.heap →
      Exchange s R [] []
  /-- Anything else happens; what is on its way is left alone, and nothing comes to refer to it. -/
  | other {s : Traffic} {m : Rings JsonPtr} {j : JsonHeap} {tables : Tables} {R R' : List ℕ}
      {posted : List Json} {written : List (List UInt8)} : Exchange s R posted written →
      m .MQ_OUT = s.queues .MQ_OUT → Counted j (s.refs ++ R') → TablesStand tables j →
      Kept s.refs s.heap j → Apart j s.refs R' →
      Exchange { s with queues := m, heap := j, tables := tables } R' posted written
  /-- An object is posted; nobody else has a reference to it, or to what is in it. -/
  | headcrab_post_message {s : Traffic} {m : Rings JsonPtr} {j : JsonHeap} {b : ℕ} {R : List ℕ}
      {o : ObjectTable JsonPtr} {values : List JsonPtr} {posted : List Json}
      {written : List (List UInt8)} {fields : List (String × Json)} {n : ℤ} :
      Exchange s (b :: R) posted written → RefCount.refs s.heap b = 1 → Separate s.heap [b] R →
      Denotes s.heap (.cell b) (.object fields) → Readable (.object fields) →
      fields.length < 1610612741 → LLONG_MIN ≤ n → n ≤ LLONG_MAX →
      JsonHeap.headcrab_post_message n (some (.cell b)) (s.queues, s.heap) = .ok (m, j) →
      (s.tables b).json_object_set_new_nocheck "seqID" (.cell s.heap.cells.length)
        = ⟨values, .ok o⟩ →
      Exchange ⟨m, j, Function.update s.tables b o, s.call⟩
        (if (s.queues .MQ_OUT).hasRoom then R else b :: R)
        (posted ++ if (s.queues .MQ_OUT).hasRoom then
          [.object (Json.setField "seqID" (.integer n) fields)] else []) written
  /-- A thread takes a message off the queue. -/
  | mq_pop {s : Traffic} {m : Rings JsonPtr} {t : Thread} {message : JsonPtr} {R : List ℕ}
      {posted : List Json} {written : List (List UInt8)} : Exchange s R posted written →
      s.call t = .outside → C s t → s.queues.pop .MQ_OUT = (some message, m) →
      Exchange { s with queues := m, call := Function.update s.call t (.popped message) } R
        posted written
  /-- A thread finds the queue empty. -/
  | mq_pop_empty {s : Traffic} {m : Rings JsonPtr} {R : List ℕ} {posted : List Json}
      {written : List (List UInt8)} : Exchange s R posted written →
      s.queues.pop .MQ_OUT = (none, m) → Exchange { s with queues := m } R posted written
  /-- It makes the text; meanwhile others may have marked cells of what they hold. -/
  | json_dumps {s : Traffic} {t : Thread} {message : JsonPtr} {text : List UInt8}
      {visited : Visited} {R : List ℕ} {posted : List Json} {written : List (List UInt8)} :
      Exchange s R posted written → s.call t = .popped message →
      (∀ x ∈ visited, Reachable s.heap ((s.call t.other).refs ++ R) x) →
      json_dump_callback snprintf_17g s.tables s.heap JSON_COMPACT message visited
        = ⟨text, .ok (.ok (), visited)⟩ →
      Exchange { s with call := Function.update s.call t (.dumped message text) } R posted written
  /-- It gives the message back. -/
  | json_decref {s : Traffic} {j : JsonHeap} {t : Thread} {message : JsonPtr} {text : List UInt8}
      {R : List ℕ} {posted : List Json} {written : List (List UInt8)} :
      Exchange s R posted written → s.call t = .dumped message text →
      s.heap.json_decref (some message) = .ok j →
      Exchange { s with heap := j, call := Function.update s.call t (.released text) } R
        posted written
  /-- It writes the text to a connection. -/
  | libwebsocket_write {s : Traffic} {t : Thread} {text : List UInt8} {R : List ℕ}
      {posted : List Json} {written : List (List UInt8)} : Exchange s R posted written →
      s.call t = .released text →
      Exchange { s with call := Function.update s.call t .outside } R posted (written ++ [text])

end

/-! ## What is on its way -/

/-- The text is read back as a value that is equal to the one that was posted. -/
def ReadsAs (strtod : List UInt8 → UInt64 × Bool) (text : List UInt8) (v : Json) : Prop :=
  ∀ lflags, ∃ w, json_loads (jsonp_strtod strtod) text lflags = .ok w ∧ Json.Equal v w

/-- The cell stands for a value that can be written and read. -/
structure Message (j : JsonHeap) (b : ℕ) (v : Json) : Prop where
  denotes : Denotes j (.cell b) v
  readable : Readable v
  container : isContainer v = true

/-- What a call has, with the message that it stands for. -/
inductive Carrying (strtod : List UInt8 → UInt64 × Bool) (j : JsonHeap) :
    SendingAt → List Json → Prop
  | outside : Carrying strtod j .outside []
  | popped {b : ℕ} {v : Json} : Message j b v → Carrying strtod j (.popped (.cell b)) [v]
  | dumped {b : ℕ} {text : List UInt8} {v : Json} : ReadsAs strtod text v →
      Carrying strtod j (.dumped (.cell b) text) [v]
  | released {text : List UInt8} {v : Json} : ReadsAs strtod text v →
      Carrying strtod j (.released text) [v]

/-- What waits in the out-queue, each cell with the value that it stands for, and what the two
threads have; `R` are the other references that are held. -/
structure Carries (strtod : List UInt8 → UInt64 × Bool) (s : Traffic)
    (flying : Thread → List Json) (waiting : List (ℕ × Json)) (R : List ℕ) : Prop where
  items : (s.queues .MQ_OUT).fifo.items = waiting.map fun x => some (.cell x.1)
  messages : ∀ x ∈ waiting, Message s.heap x.1 x.2
  calls : ∀ t, Carrying strtod s.heap (s.call t) (flying t)
  counted : Counted s.heap (s.refs ++ R)
  tables : TablesStand s.tables s.heap
  apart : Apart s.heap s.refs R

section

variable {strtod : List UInt8 → UInt64 × Bool} {s : Traffic} {flying : Thread → List Json}
  {waiting : List (ℕ × Json)} {m : Rings JsonPtr} {tables : Tables} {t : Thread} {v : Json}
  {text : List UInt8} {snprintf_17g : UInt64 → List UInt8}

lemma Message.kept (h : Message j b v) (hkept : Kept [b] j j') : Message j' b v :=
  ⟨h.denotes.kept hkept, h.readable, h.container⟩

lemma Carrying.kept {c : SendingAt} {vs : List Json} (h : Carrying strtod j c vs)
    (hkept : Kept c.refs j j') : Carrying strtod j' c vs := by
  cases h with
  | outside => exact .outside
  | popped hv => exact .popped (hv.kept hkept)
  | dumped htext => exact .dumped htext
  | released htext => exact .released htext

lemma Carrying.length_eq {c : SendingAt} {vs : List Json} (h : Carrying strtod j c vs) :
    vs.length = c.count := by
  cases h <;> rfl

lemma Carrying.of_outside {vs : List Json} (h : Carrying strtod j .outside vs) : vs = [] := by
  cases h
  rfl

lemma Carries.queueRefs_eq (h : Carries strtod s flying waiting R) :
    s.queueRefs = waiting.map Prod.fst := by
  rw [Traffic.queueRefs, h.items, List.flatMap_map, List.map_eq_flatMap]
  rfl

lemma refs_call_subset (s : Traffic) (t : Thread) : ∀ b ∈ (s.call t).refs, b ∈ s.refs := by
  intro b hb
  cases t
  · exact List.mem_append_right _ (List.mem_append_left _ hb)
  · exact List.mem_append_right _ (List.mem_append_right _ hb)

/-- A thread that is in no call has no message. -/
lemma Carries.flying_eq_nil (h : Carries strtod s flying waiting R) (ht : s.call t = .outside) :
    flying t = [] := by
  have hcall := h.calls t
  rw [ht] at hcall
  exact hcall.of_outside

/-- The messages are what they were after a change that leaves them alone. -/
lemma Carries.kept (h : Carries strtod s flying waiting R) (hkept : Kept s.refs s.heap j') :
    (∀ x ∈ waiting, Message j' x.1 x.2) ∧ ∀ t, Carrying strtod j' (s.call t) (flying t) := by
  refine ⟨fun x hx => (h.messages x hx).kept (hkept.mono fun b hb => ?_),
    fun t => (h.calls t).kept (hkept.mono (refs_call_subset s t))⟩
  rw [List.mem_singleton.mp hb]
  exact List.mem_append_left _ (h.queueRefs_eq ▸ List.mem_map_of_mem hx)

/-- The references of a thread and those of the other one. -/
lemma perm_refs (s : Traffic) (t : Thread) :
    s.refs.Perm ((s.call t).refs ++ (s.queueRefs ++ (s.call t.other).refs)) := by
  rw [Traffic.refs, ← List.append_assoc]
  cases t
  · exact List.perm_append_comm.append_right _ |>.trans (by rw [List.append_assoc]; rfl)
  · exact List.perm_append_comm

/-- The same once a thread has gone on. -/
lemma perm_refs_update (m : Rings JsonPtr) (j : JsonHeap) (tables : Tables)
    (call : Thread → SendingAt) (t : Thread) (c : SendingAt) :
    (Traffic.refs ⟨m, j, tables, Function.update call t c⟩).Perm
      (c.refs ++ ((m .MQ_OUT).fifo.items.flatMap refsOf ++ (call t.other).refs)) := by
  have hperm := perm_refs ⟨m, j, tables, Function.update call t c⟩ t
  simp only [Function.update_self, Function.update_of_ne t.other_ne] at hperm
  exact hperm

lemma Carries.of_refs {s' : Traffic} {flying' : Thread → List Json}
    {waiting' : List (ℕ × Json)} (h : Carries strtod s flying waiting R)
    (hheap : s'.heap = s.heap) (htables : s'.tables = s.tables) (hrefs : s'.refs.Perm s.refs)
    (hitems : (s'.queues .MQ_OUT).fifo.items = waiting'.map fun x => some (.cell x.1))
    (hmessages : ∀ x ∈ waiting', Message s.heap x.1 x.2)
    (hcalls : ∀ t, Carrying strtod s.heap (s'.call t) (flying' t)) :
    Carries strtod s' flying' waiting' R := by
  refine ⟨hitems, ?_, ?_, ?_, ?_, ?_⟩
  · rwa [hheap]
  · rwa [hheap]
  · rw [hheap]
    refine h.counted.congr fun x => ?_
    rw [List.count_append, List.count_append, hrefs.count_eq]
  · rw [htables, hheap]
    exact h.tables
  · rw [hheap]
    exact h.apart.perm hrefs.symm

lemma carrying_update {call : Thread → SendingAt} {c : SendingAt} {vs : List Json}
    (h : ∀ t' ≠ t, Carrying strtod j (call t') (flying t')) (hc : Carrying strtod j c vs)
    (t' : Thread) :
    Carrying strtod j (Function.update call t c t') (Function.update flying t vs t') := by
  by_cases ht : t' = t
  · subst ht
    rw [Function.update_self, Function.update_self]
    exact hc
  · rw [Function.update_of_ne ht, Function.update_of_ne ht]
    exact h t' ht

/-- Anything else happens. -/
lemma Carries.other {R' : List ℕ} (h : Carries strtod s flying waiting R)
    (hm : m .MQ_OUT = s.queues .MQ_OUT) (hcounted : Counted j' (s.refs ++ R'))
    (htables : TablesStand tables j') (hkept : Kept s.refs s.heap j')
    (hapart : Apart j' s.refs R') :
    Carries strtod { s with queues := m, heap := j', tables := tables } flying waiting R' := by
  obtain ⟨hmessages, hcalls⟩ := h.kept hkept
  have hrefs : Traffic.refs { s with queues := m, heap := j', tables := tables } = s.refs := by
    simp only [Traffic.refs, Traffic.queueRefs, hm]
  refine ⟨?_, hmessages, hcalls, hrefs ▸ hcounted, htables, hrefs ▸ hapart⟩
  show (m .MQ_OUT).fifo.items = _
  rw [hm]
  exact h.items

/-- A message is taken off the queue. -/
lemma Carries.pop {message : JsonPtr} (h : Carries strtod s flying waiting R)
    (ht : s.call t = .outside) (hpop : s.queues.pop .MQ_OUT = (some message, m)) :
    ∃ b v rest, message = .cell b ∧ waiting = (b, v) :: rest ∧ flying t = [] ∧
      Carries strtod { s with queues := m, call := Function.update s.call t (.popped message) }
        (Function.update flying t [v]) rest R := by
  rcases waiting with _ | ⟨⟨b, v⟩, rest⟩
  · have hempty := Rings.isEmpty_of_pop (congrArg Prod.fst hpop)
    rw [Bool.eq_false_iff, Ne, Ring.isEmpty_iff] at hempty
    exact absurd h.items hempty
  · have hhead := Rings.pop_of_items h.items
    rw [hpop] at hhead
    obtain ⟨hmessage', hitems⟩ := hhead
    obtain rfl := Option.some.inj hmessage'
    obtain ⟨hmessage, hmessages⟩ := List.forall_mem_cons.mp h.messages
    refine ⟨b, v, rest, rfl, rfl, h.flying_eq_nil ht, h.of_refs rfl rfl ?_ hitems hmessages
      (carrying_update (fun t' _ => h.calls t') (.popped hmessage))⟩
    refine (perm_refs_update _ _ _ _ _ _).trans ?_
    refine List.Perm.trans ?_ (perm_refs s t).symm
    rw [ht, h.queueRefs_eq, hitems, List.flatMap_map]
    show ([b] ++ _).Perm ([] ++ ((b :: rest.map Prod.fst) ++ _))
    rw [List.map_eq_flatMap]
    exact List.Perm.refl _

lemma Carries.pop_empty (h : Carries strtod s flying waiting R)
    (hpop : s.queues.pop .MQ_OUT = (none, m)) :
    Carries strtod { s with queues := m } flying waiting R := by
  have hempty : (s.queues .MQ_OUT).isEmpty = true := by
    rw [Ring.isEmpty_iff]
    rcases waiting with _ | ⟨x, rest⟩
    · exact h.items
    · have hhead := (Rings.pop_of_items h.items).1
      rw [hpop] at hhead
      exact absurd hhead (by simp)
  have hitems : (m .MQ_OUT).fifo.items = (s.queues .MQ_OUT).fifo.items := by
    have hfifo := (s.queues.pop_of_isEmpty hempty).2
    rw [hpop] at hfifo
    rw [hfifo]
  refine h.of_refs rfl rfl ?_ (hitems.trans h.items) h.messages h.calls
  simp only [Traffic.refs, Traffic.queueRefs, hitems]
  exact List.Perm.refl _

lemma Denotes.exists_pairs {fields : List (String × Json)}
    (h : Denotes j (.cell b) (.object fields)) :
    ∃ k pairs, j.Live b ⟨k, .object pairs⟩ ∧ pairs.length = fields.length := by
  cases h with
  | object hb hkeys _ => exact ⟨_, _, hb, by simpa using congrArg List.length hkeys⟩

/-- An object is posted. -/
lemma Carries.post {fields : List (String × Json)} {n : ℤ} {o : ObjectTable JsonPtr}
    {values : List JsonPtr} (h : Carries strtod s flying waiting (b :: R))
    (hone : RefCount.refs s.heap b = 1) (hseparate : Separate s.heap [b] R)
    (hfields : Denotes s.heap (.cell b) (.object fields)) (hread : Readable (.object fields))
    (hlength : fields.length < 1610612741) (hmin : LLONG_MIN ≤ n) (hmax : n ≤ LLONG_MAX)
    (hpost : headcrab_post_message n (some (.cell b)) (s.queues, s.heap) = .ok (m, j'))
    (ho : (s.tables b).json_object_set_new_nocheck "seqID" (.cell s.heap.cells.length)
      = ⟨values, .ok o⟩) :
    Carries strtod ⟨m, j', Function.update s.tables b o, s.call⟩ flying
      (waiting ++ if (s.queues .MQ_OUT).hasRoom then
        [(b, .object (Json.setField "seqID" (.integer n) fields))] else [])
      (if (s.queues .MQ_OUT).hasRoom then R else b :: R) := by
  obtain ⟨k, pairs, hb, hpairs⟩ := hfields.exists_pairs
  have hcounted : Counted s.heap (b :: (s.refs ++ R)) :=
    h.counted.congr fun x => List.perm_middle.count_eq x
  obtain ⟨j'', hpost', hcounted', hnumbered⟩ := headcrab_post_message_cells hcounted hb n s.queues
  obtain ⟨rfl, rfl⟩ := Prod.mk.inj (Except.ok.inj (hpost'.symm.trans hpost))
  have hexclusive := exclusive_of_refs hcounted hone
  obtain ⟨hmessages, hcalls⟩ := h.kept
    ((hnumbered.kept hcounted' hexclusive).mono fun x => List.mem_append_left R)
  have hmessage : Message j'' b (.object (Json.setField "seqID" (.integer n) fields)) := by
    refine ⟨hnumbered.denotes hcounted' hexclusive.2 hb hfields, ?_, rfl⟩
    exact hread.setField (by simp [ZeroFree]) ⟨⟨hmin, hmax⟩, by simp [Json.reals]⟩
  have htables := hnumbered.tablesStand h.tables hb (hpairs ▸ hlength) ho
  obtain ⟨hpushed, hrefused⟩ :=
    hnumbered.apart hcounted hcounted' hexclusive hb h.apart hseparate
  have hitems := (s.queues .MQ_OUT).items_enqueue (some (JsonPtr.cell b))
  have hout : (s.queues.push .MQ_OUT (some (.cell b))) .MQ_OUT
      = (s.queues .MQ_OUT).enqueue (some (.cell b)) := Function.update_self _ _ _
  rw [← hout, h.items] at hitems
  by_cases hroom : (s.queues .MQ_OUT).hasRoom
  · -- the queue holds the reference
    rw [if_pos hroom] at hitems
    rw [if_pos hroom, if_pos hroom]
    have hrefs : (b :: s.refs).Perm (Traffic.refs ⟨s.queues.push .MQ_OUT (some (.cell b)), j'',
        Function.update s.tables b o, s.call⟩) := by
      simp only [Traffic.refs, Traffic.queueRefs, hitems, h.items, List.flatMap_append,
        List.append_assoc]
      exact List.perm_middle.symm
    refine ⟨?_, ?_, hcalls, ?_, htables, hpushed.perm hrefs⟩
    · rw [hitems, List.map_append]
      rfl
    · exact List.forall_mem_append.mpr ⟨hmessages, List.forall_mem_singleton.mpr hmessage⟩
    · exact hcounted'.congr fun x => (hrefs.append_right R).count_eq x
  · -- nobody takes it, and the host program still has it
    rw [if_neg hroom, List.append_nil] at hitems
    rw [if_neg hroom, if_neg hroom, List.append_nil]
    have hrefs : Traffic.refs ⟨s.queues.push .MQ_OUT (some (.cell b)), j'',
        Function.update s.tables b o, s.call⟩ = s.refs := by
      simp only [Traffic.refs, Traffic.queueRefs, hitems, h.items]
    refine ⟨hitems, hmessages, hcalls, ?_, htables, ?_⟩
    · rw [hrefs]
      exact hcounted'.congr fun x => List.perm_middle.symm.count_eq x
    · rwa [hrefs]

lemma carrying_stay {call : Thread → SendingAt} {c : SendingAt}
    (h : ∀ t' ≠ t, Carrying strtod j (call t') (flying t'))
    (hc : Carrying strtod j c (flying t)) (t' : Thread) :
    Carrying strtod j (Function.update call t c t') (flying t') := by
  have hupdate : Carrying strtod j (Function.update call t c t')
      (Function.update flying t (flying t) t') := carrying_update h hc t'
  rwa [Function.update_eq_self] at hupdate

/-- The text of a message that a thread has; the marks of others do not matter. -/
lemma Carries.exists_text (hreals : RealsReadBack snprintf_17g strtod)
    (h : Carries strtod s flying waiting R) {message : JsonPtr} (ht : s.call t = .popped message)
    {visited : Visited}
    (hvisited : ∀ x ∈ visited, Reachable s.heap ((s.call t.other).refs ++ R) x) :
    ∃ v text, Denotes s.heap message v ∧ flying t = [v] ∧ ReadsAs strtod text v ∧
      json_dump_callback snprintf_17g s.tables s.heap JSON_COMPACT message visited
        = ⟨text, .ok (.ok (), visited)⟩ := by
  obtain ⟨b, v, rfl, hv, hmessage⟩ : ∃ b v, message = .cell b ∧ flying t = [v] ∧
      Message s.heap b v := by
    have hcall := h.calls t
    rw [ht] at hcall
    generalize flying t = vs at hcall
    cases hcall with
    | popped hmessage => exact ⟨_, _, rfl, rfl, hmessage⟩
  have hseparate : Separate s.heap [b] ((s.call t.other).refs ++ R) := by
    have hapart := h.apart.perm (perm_refs s t)
    rw [ht] at hapart
    intro x hxb hx
    rcases reachable_append_iff.mp hx with hx | hx
    · exact hapart.head x hxb (hx.mono fun y => List.mem_append_right s.queueRefs)
    · exact hapart.rest b List.mem_cons_self x hxb hx
  have hmarks : ∀ x ∈ visited, x < s.heap.cells.length ∧ ¬ Reachable s.heap [b] x := by
    intro x hx
    have hheld : ∀ y ∈ (s.call t.other).refs ++ R, y ∈ s.refs ++ R := by
      intro y hy
      rcases List.mem_append.mp hy with hy | hy
      · exact List.mem_append_left R (refs_call_subset s t.other y hy)
      · exact List.mem_append_right s.refs hy
    obtain ⟨c, hc⟩ := h.counted.exists_live hheld (hvisited x hx)
    exact ⟨hc.lt_length, fun hxb => hseparate x hxb (hvisited x hx)⟩
  have htext := JsonHeap.exists_text hreals h.tables hmessage.denotes hmessage.readable
    hmessage.container hmarks JSON_COMPACT
  obtain ⟨text, -, heq, -⟩ := htext 0
  refine ⟨v, text, hmessage.denotes, hv, fun lflags => ?_, heq⟩
  obtain ⟨text', w, heq', hloads⟩ := htext lflags
  obtain rfl : text' = text := congrArg Traced.trace (heq'.symm.trans heq)
  exact ⟨w, hloads⟩

/-- The text of a message is there. -/
lemma Carries.dump (h : Carries strtod s flying waiting R) {message : JsonPtr}
    (ht : s.call t = .popped message) (hv : flying t = [v]) (htext : ReadsAs strtod text v) :
    Carries strtod { s with call := Function.update s.call t (.dumped message text) } flying
      waiting R := by
  have hb : ∃ b, message = .cell b := by
    have hcall := h.calls t
    rw [ht, hv] at hcall
    cases hcall with
    | popped _ => exact ⟨_, rfl⟩
  obtain ⟨b, rfl⟩ := hb
  refine h.of_refs rfl rfl ?_ h.items h.messages
    (carrying_stay (fun t' _ => h.calls t') (hv ▸ .dumped htext))
  refine (perm_refs_update _ _ _ _ _ _).trans (List.Perm.trans ?_ (perm_refs s t).symm)
  rw [ht]
  exact List.Perm.refl _

/-- The message is given back. -/
lemma Carries.release {message : JsonPtr} (h : Carries strtod s flying waiting R)
    (ht : s.call t = .dumped message text) :
    ∃ j', s.heap.json_decref (some message) = .ok j' ∧
      Carries strtod { s with heap := j', call := Function.update s.call t (.released text) }
        flying waiting R := by
  obtain ⟨b, v, rfl, hv, htext⟩ : ∃ b v, message = .cell b ∧ flying t = [v] ∧
      ReadsAs strtod text v := by
    have hcall := h.calls t
    rw [ht] at hcall
    generalize flying t = vs at hcall
    cases hcall with
    | dumped htext => exact ⟨_, _, rfl, rfl, htext⟩
  let rest := s.queueRefs ++ (s.call t.other).refs
  have hperm : s.refs.Perm (b :: rest) := by
    have hperm := perm_refs s t
    rw [ht] at hperm
    exact hperm
  have hcounted : Counted s.heap (refsOf (some (.cell b)) ++ (rest ++ R)) :=
    h.counted.congr fun x => (hperm.append_right R).count_eq x
  obtain ⟨j', hdec, hcounted', hshrinks⟩ := json_decref_spec hcounted
  refine ⟨j', hdec, ?_⟩
  have hkept : Kept rest s.heap j' :=
    Kept.of_shrinks hshrinks hcounted' fun x => List.mem_append_left R
  have hperm' : rest.Perm (Traffic.refs
      { s with heap := j', call := Function.update s.call t (.released text) }) :=
    (perm_refs_update s.queues j' s.tables s.call t (.released text)).symm
  have hcalls : ∀ t', Carrying strtod j' (Function.update s.call t (.released text) t')
      (flying t') := by
    refine carrying_stay (fun t' ht' => (h.calls t').kept (hkept.mono fun x hx => ?_))
      (hv ▸ .released htext)
    obtain rfl := Thread.eq_other ht'
    exact List.mem_append_right _ hx
  refine ⟨h.items, fun x hx => (h.messages x hx).kept (hkept.mono ?_), hcalls, ?_, ?_, ?_⟩
  · intro y hy
    rw [List.mem_singleton.mp hy]
    exact List.mem_append_left _ (h.queueRefs_eq ▸ List.mem_map_of_mem hx)
  · exact hcounted'.congr fun x => (hperm'.append_right R).count_eq x
  · exact h.tables.of_shrinks hshrinks
  · exact ((h.apart.perm hperm).tail.imp (fun a _ x => hshrinks.reachable)
      fun x => hshrinks.reachable).perm hperm'

/-- The text is written. -/
lemma Carries.write (h : Carries strtod s flying waiting R) (ht : s.call t = .released text) :
    ∃ v, flying t = [v] ∧ ReadsAs strtod text v ∧
      Carries strtod { s with call := Function.update s.call t .outside }
        (Function.update flying t []) waiting R := by
  obtain ⟨v, hv, htext⟩ : ∃ v, flying t = [v] ∧ ReadsAs strtod text v := by
    have hcall := h.calls t
    rw [ht] at hcall
    generalize flying t = vs at hcall
    cases hcall with
    | released htext => exact ⟨_, rfl, htext⟩
  refine ⟨v, hv, htext, h.of_refs rfl rfl ?_ h.items h.messages
    (carrying_update (fun t' _ => h.calls t') .outside)⟩
  refine (perm_refs_update _ _ _ _ _ _).trans (List.Perm.trans ?_ (perm_refs s t).symm)
  rw [ht]
  exact List.Perm.refl _

end

end JsonHeap

end Headcrab
