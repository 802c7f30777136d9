/-
# What arrives of what was posted

`posted_arrives` is about every run of the two threads: what was written, read again, is what
was posted, each object with its number and none of them twice, and what is missing is on its
way.  No thread meets a message that it cannot write.  A message may overtake another one; if
none is taken while a thread has one, they arrive in the order in which they were posted
(`posted_arrives_in_order`).

Where nothing interrupts it, a call of `callback_command` is such a run of its own
(`Exchange.callback_command`).
-/
import Headcrab.Exchange

namespace Headcrab

namespace JsonHeap

open RefCount (Counted Reachable Separate not_reachable)

variable {j : JsonHeap} {R : List ℕ}

/-! ## What a run has written -/

/-- What the two threads have. -/
def inFlight (flying : Thread → List Json) : List Json := flying .app ++ flying .service

lemma inFlight_perm (flying : Thread → List Json) (t : Thread) :
    (inFlight flying).Perm (flying t ++ flying t.other) := by
  cases t
  · exact List.Perm.refl _
  · exact List.perm_append_comm

lemma inFlight_update_perm (flying : Thread → List Json) (t : Thread) (vs : List Json) :
    (inFlight (Function.update flying t vs)).Perm (vs ++ flying t.other) := by
  have hperm := inFlight_perm (Function.update flying t vs) t
  rwa [Function.update_self, Function.update_of_ne t.other_ne] at hperm

lemma inFlight_of_other {flying : Thread → List Json} {t : Thread} (h : flying t.other = []) :
    inFlight flying = flying t := by
  cases t
  · rw [inFlight, show flying .service = [] from h, List.append_nil]
  · rw [inFlight, show flying .app = [] from h, List.nil_append]

lemma inFlight_pop {flying : Thread → List Json} {t : Thread} (h : flying t = []) (v : Json) :
    (v :: inFlight flying).Perm (inFlight (Function.update flying t [v])) := by
  have hperm := inFlight_perm flying t
  rw [h] at hperm
  exact (hperm.cons v).trans (inFlight_update_perm flying t [v]).symm

lemma inFlight_write {flying : Thread → List Json} {t : Thread} {v : Json} (h : flying t = [v]) :
    (inFlight flying).Perm (v :: inFlight (Function.update flying t [])) := by
  have hperm := inFlight_perm flying t
  rw [h] at hperm
  exact hperm.trans ((inFlight_update_perm flying t []).symm.cons v)

/-- What was posted is written, or a thread has it, or it waits. -/
structure Accounts (strtod : List UInt8 → UInt64 × Bool) (s : Traffic) (R : List ℕ)
    (posted : List Json) (written : List (List UInt8)) (sent : List Json)
    (flying : Thread → List Json) (waiting : List (ℕ × Json)) : Prop where
  carries : Carries strtod s flying waiting R
  written : List.Forall₂ (ReadsAs strtod) written sent
  posted : posted.Perm (sent ++ (inFlight flying ++ waiting.map Prod.snd))

/-- It is so in the order in which it was posted, and a thread has nothing. -/
structure InOrder (s : Traffic) (posted sent : List Json) (flying : Thread → List Json)
    (waiting : List (ℕ × Json)) : Prop where
  alone : ∃ t, s.call t = .outside
  posted : posted = sent ++ (inFlight flying ++ waiting.map Prod.snd)

section

variable {snprintf_17g : UInt64 → List UInt8} {strtod : List UInt8 → UInt64 × Bool}
  {C : Traffic → Thread → Prop} {s : Traffic} {posted sent : List Json}
  {written : List (List UInt8)} {flying : Thread → List Json} {waiting : List (ℕ × Json)}
  {t : Thread}

/-- A thread that has a message goes on with it. -/
lemma InOrder.goesOn {s' : Traffic} {c : SendingAt} (h : InOrder s posted sent flying waiting)
    (ht : s.call t ≠ .outside) (hcall : s'.call = Function.update s.call t c) :
    InOrder s' posted sent flying waiting := by
  obtain ⟨⟨t', ht'⟩, hposted⟩ := h
  refine ⟨⟨t', ?_⟩, hposted⟩
  rw [hcall, Function.update_of_ne]
  · exact ht'
  · rintro rfl
    exact ht ht'

/-- While no thread has one, a thread takes the next message. -/
lemma InOrder.pop {s' : Traffic} {c : SendingAt} {x : ℕ × Json}
    (h : InOrder s posted sent flying (x :: waiting)) (hcalls : ∀ t, s.call t = .outside)
    (hflying : ∀ t, flying t = []) (hcall : s'.call = Function.update s.call t c) :
    InOrder s' posted sent (Function.update flying t [x.2]) waiting := by
  refine ⟨⟨t.other, ?_⟩, ?_⟩
  · rw [hcall, Function.update_of_ne t.other_ne]
    exact hcalls t.other
  · rw [h.posted, inFlight_of_other (hflying t.other), hflying t, inFlight_of_other (t := t),
      Function.update_self]
    · rfl
    · rw [Function.update_of_ne t.other_ne]
      exact hflying t.other

/-- The only message that a thread has is written. -/
lemma InOrder.write {s' : Traffic} {v : Json} (h : InOrder s posted sent flying waiting)
    (hcarries : Carries strtod s flying waiting R) (ht : s.call t ≠ .outside)
    (hv : flying t = [v]) (hcall : s'.call = Function.update s.call t .outside) :
    InOrder s' posted (sent ++ [v]) (Function.update flying t []) waiting := by
  obtain ⟨⟨t', ht'⟩, hposted⟩ := h
  obtain rfl : t' = t.other := Thread.eq_other fun heq => ht (heq ▸ ht')
  have hnone := hcarries.flying_eq_nil ht'
  refine ⟨⟨t, by rw [hcall, Function.update_self]⟩, ?_⟩
  rw [hposted, inFlight_of_other hnone, hv, inFlight_of_other (t := t), Function.update_self,
    List.append_assoc, List.nil_append]
  rw [Function.update_of_ne t.other_ne]
  exact hnone

/-- **What a run leaves of the messages**, by induction on its steps. -/
lemma Exchange.accounts (hreals : RealsReadBack snprintf_17g strtod)
    (h : Exchange snprintf_17g C s R posted written) :
    ∃ sent flying waiting, Accounts strtod s R posted written sent flying waiting ∧
      ((∀ s t, C s t → s.Alone t) → InOrder s posted sent flying waiting) := by
  induction h with
  | @start s R hitems hcalls hcounted htables =>
    have hrefs : s.refs = [] := by
      simp [Traffic.refs, Traffic.queueRefs, hitems, hcalls, SendingAt.refs]
    refine ⟨[], fun _ => [], [], ⟨⟨hitems, by simp, fun t => ?_, ?_, htables, ?_⟩, .nil, .refl _⟩,
      fun _ => ⟨⟨.app, hcalls .app⟩, rfl⟩⟩
    · rw [hcalls t]
      exact .outside
    · rwa [hrefs]
    · rw [hrefs]
      exact ⟨.nil, by simp⟩
  | other _ hm hcounted htables hkept hapart ih =>
    obtain ⟨sent, flying, waiting, ⟨hcarries, hwritten, hposted⟩, horder⟩ := ih
    refine ⟨sent, flying, waiting, ⟨hcarries.other hm hcounted htables hkept hapart, hwritten,
      hposted⟩, fun halone => ?_⟩
    obtain ⟨hcall, heq⟩ := horder halone
    exact ⟨hcall, heq⟩
  | headcrab_post_message _ hone hseparate hfields hread hlength hmin hmax hpost ho ih =>
    obtain ⟨sent, flying, waiting, ⟨hcarries, hwritten, hposted⟩, horder⟩ := ih
    have hcarries' := hcarries.post hone hseparate hfields hread hlength hmin hmax hpost ho
    refine ⟨sent, flying, _, ⟨hcarries', hwritten, ?_⟩, fun halone => ?_⟩
    · rw [List.map_append, ← List.append_assoc, ← List.append_assoc, List.append_assoc sent,
        apply_ite (List.map Prod.snd)]
      exact hposted.append_right _
    · obtain ⟨hcall, heq⟩ := horder halone
      refine ⟨hcall, ?_⟩
      rw [heq, List.map_append, apply_ite (List.map Prod.snd)]
      simp only [List.append_assoc, List.map_cons, List.map_nil]
  | @mq_pop s m t message R posted written _ ht hC hpop ih =>
    obtain ⟨sent, flying, waiting, ⟨hcarries, hwritten, hposted⟩, horder⟩ := ih
    obtain ⟨b, v, rest, rfl, rfl, hnone, hcarries'⟩ := hcarries.pop ht hpop
    refine ⟨sent, _, rest, ⟨hcarries', hwritten, ?_⟩, fun halone => ?_⟩
    · refine hposted.trans (List.Perm.append_left sent (List.perm_middle.trans ?_))
      exact (inFlight_pop hnone v).append_right _
    · have hcalls := halone s t hC
      exact (horder halone).pop hcalls (fun t => hcarries.flying_eq_nil (hcalls t)) rfl
  | mq_pop_empty _ hpop ih =>
    obtain ⟨sent, flying, waiting, ⟨hcarries, hwritten, hposted⟩, horder⟩ := ih
    refine ⟨sent, flying, waiting, ⟨hcarries.pop_empty hpop, hwritten, hposted⟩, fun halone => ?_⟩
    obtain ⟨hcall, heq⟩ := horder halone
    exact ⟨hcall, heq⟩
  | json_dumps _ ht hvisited hdump ih =>
    obtain ⟨sent, flying, waiting, ⟨hcarries, hwritten, hposted⟩, horder⟩ := ih
    obtain ⟨v, text', -, hv, htext, hdump'⟩ := hcarries.exists_text hreals ht hvisited
    obtain rfl := congrArg Traced.trace (hdump'.symm.trans hdump)
    exact ⟨sent, flying, waiting, ⟨hcarries.dump ht hv htext, hwritten, hposted⟩,
      fun halone => (horder halone).goesOn (by simp [ht]) rfl⟩
  | json_decref _ ht hdec ih =>
    obtain ⟨sent, flying, waiting, ⟨hcarries, hwritten, hposted⟩, horder⟩ := ih
    obtain ⟨j', hdec', hcarries'⟩ := hcarries.release ht
    obtain rfl := Except.ok.inj (hdec'.symm.trans hdec)
    exact ⟨sent, flying, waiting, ⟨hcarries', hwritten, hposted⟩,
      fun halone => (horder halone).goesOn (by simp [ht]) rfl⟩
  | libwebsocket_write _ ht ih =>
    obtain ⟨sent, flying, waiting, ⟨hcarries, hwritten, hposted⟩, horder⟩ := ih
    obtain ⟨v, hv, htext, hcarries'⟩ := hcarries.write ht
    refine ⟨sent ++ [v], _, waiting, ⟨hcarries', ?_, ?_⟩,
      fun halone => (horder halone).write hcarries (by simp [ht]) hv rfl⟩
    · exact List.rel_append hwritten (.cons htext .nil)
    · rw [List.append_assoc]
      exact hposted.trans (List.Perm.append_left sent ((inFlight_write hv).append_right _))

/-- If a message waits, it can be taken. -/
lemma Carries.exists_pop {flying : Thread → List Json} {waiting : List (ℕ × Json)}
    (h : Carries strtod s flying waiting R) (hne : (s.queues .MQ_OUT).fifo.items ≠ []) :
    ∃ message, (s.queues.pop .MQ_OUT).1 = some message ∧
      ∀ b ∈ message.refs, ∃ c, s.heap.Live b c := by
  rcases waiting with _ | ⟨⟨b, v⟩, rest⟩
  · exact absurd h.items hne
  · refine ⟨.cell b, (Rings.pop_of_items h.items).1, fun x hx => ?_⟩
    rw [List.mem_singleton.mp hx]
    exact (h.messages (b, v) List.mem_cons_self).denotes.live

/-- A thread finishes what it has begun. -/
lemma Exchange.finish {message : JsonPtr} (hreals : RealsReadBack snprintf_17g strtod)
    (h : Exchange snprintf_17g C s R posted written) (ht : s.call t = .popped message) :
    ∃ v text j, Denotes s.heap message v ∧ ReadsAs strtod text v ∧
      json_dump_callback snprintf_17g s.tables s.heap JSON_COMPACT message ∅
        = ⟨text, .ok (.ok (), ∅)⟩ ∧ s.heap.json_decref (some message) = .ok j ∧
      Exchange snprintf_17g C { s with heap := j, call := Function.update s.call t .outside } R
        posted (written ++ [text]) := by
  obtain ⟨sent, flying, waiting, ⟨hcarries, -, -⟩, -⟩ := h.accounts hreals
  obtain ⟨v, text, hv, -, hback, htext⟩ := hcarries.exists_text hreals ht fun x hx =>
    absurd hx (Finset.notMem_empty x)
  have hdumped := h.json_dumps ht (by simp) htext
  obtain ⟨sent, flying, waiting, ⟨hcarries, -, -⟩, -⟩ := hdumped.accounts hreals
  obtain ⟨j, hdec, -⟩ := hcarries.release (Function.update_self _ _ _)
  have hwritten := (hdumped.json_decref (Function.update_self _ _ _) hdec).libwebsocket_write
    (Function.update_self _ _ _)
  simp only [Function.update_idem] at hwritten
  exact ⟨v, text, j, hv, hback, htext, hdec, hwritten⟩

end

/-! ## A call that nothing interrupts -/

section

variable (snprintf_17g : UInt64 → List UInt8)

/-- The text that `json_dumps` has for a value, if it has one. -/
def textOf (tables : Tables) (j : JsonHeap) (json : JsonPtr) : Option (List UInt8) :=
  match json_dump_callback snprintf_17g tables j JSON_COMPACT json ∅ with
  | ⟨text, .ok (.ok (), _)⟩ => some text
  | _ => none

variable {snprintf_17g} {strtod : List UInt8 → UInt64 × Bool} {C : Traffic → Thread → Prop}
  {s : Traffic} {R : List ℕ} {posted : List Json} {written : List (List UInt8)} {t : Thread}
  {W : Type} {n : ℤ}

lemma json_dumps_textOf {tables : Tables} {j : JsonHeap} {message : JsonPtr} {text : List UInt8}
    (hlive : ∀ b ∈ message.refs, ∃ c, j.Live b c)
    (htext : json_dump_callback snprintf_17g tables j JSON_COMPACT message ∅
      = ⟨text, .ok (.ok (), ∅)⟩) :
    JsonHeap.json_dumps (textOf snprintf_17g tables) j message = .ok (some text) := by
  obtain ⟨a, o, ha, ho, -⟩ := exists_kind tables JSON_COMPACT hlive
  have hsome : textOf snprintf_17g tables j message = some text := by
    rw [textOf, htext]
  have hkind : (a || o) = true := by
    by_contra hneither
    have hrefused : (!hasFlag JSON_COMPACT JSON_ENCODE_ANY && !(a || o)) = true := by
      rw [Bool.eq_false_iff.mpr hneither]
      rfl
    rw [json_dump_callback_eq ha ho, if_pos hrefused] at htext
    exact absurd (congrArg Traced.result htext) (by simp)
  rw [json_dumps_eq hlive, hsome, ha, ho, if_pos (by simpa using hkind)]

/-- A call of `callback_command` that nothing interrupts is the four steps, one after the
other. -/
lemma Exchange.callback_command (hreals : RealsReadBack snprintf_17g strtod)
    (h : Exchange snprintf_17g C s R posted written) (ht : s.call t = .outside) (hC : C s t)
    (hne : (s.queues .MQ_OUT).fifo.items ≠ []) (wsi : W) (hn : ¬ n < 0) :
    ∃ text j, JsonHeap.callback_command (textOf snprintf_17g s.tables) wsi n (s.queues, s.heap)
        = ⟨[.libwebsocket_write wsi text, .libwebsocket_callback_on_writable wsi],
          .ok ((s.queues.pop .MQ_OUT).2, j)⟩ ∧
      Exchange snprintf_17g C { s with queues := (s.queues.pop .MQ_OUT).2, heap := j } R posted
        (written ++ [text]) := by
  obtain ⟨sent, flying, waiting, ⟨hcarries, -, -⟩, -⟩ := h.accounts hreals
  obtain ⟨message, hpop, hlive⟩ := hcarries.exists_pop hne
  have hpopped := h.mq_pop ht hC (Prod.ext hpop rfl)
  obtain ⟨-, text, j, -, -, htext, hdec, hwritten⟩ :=
    hpopped.finish hreals (Function.update_self _ _ _)
  rw [Function.update_idem, ← ht, Function.update_eq_self] at hwritten
  refine ⟨text, j, ?_, hwritten⟩
  rw [callback_command_eq wsi n hpop hdec (json_dumps_textOf hlive htext)]
  exact if_neg hn

end

/-! ## Two messages -/

/-- Two objects, the one with a number in it. -/
def twoObjects : JsonHeap :=
  ⟨[some ⟨1, .object [("newval", .cell 1)]⟩, some ⟨1, .integer 7⟩,
    some ⟨1, .object [("newval", .the_true)]⟩]⟩

/-- The first one has been posted. -/
def oneNumbered : JsonHeap :=
  ⟨[some ⟨1, .object [("newval", .cell 1), ("seqID", .cell 3)]⟩, some ⟨1, .integer 7⟩,
    some ⟨1, .object [("newval", .the_true)]⟩, some ⟨1, .integer 0⟩]⟩

/-- What was posted. -/
def twoPosted : List Json :=
  [.object [("newval", .integer 7), ("seqID", .integer 0)],
    .object [("newval", .true), ("seqID", .integer 1)]]

lemma exists_tables_twoObjects : ∃ tables, TablesStand tables twoObjects := by
  obtain ⟨o, ho⟩ : ∃ o, Stands o [("newval", JsonPtr.cell 1)] := exists_stands (by simp) (by simp)
  obtain ⟨o', ho'⟩ : ∃ o, Stands o [("newval", JsonPtr.the_true)] :=
    exists_stands (by simp) (by simp)
  refine ⟨fun b => if b = 0 then o else o', fun b n pairs hb => ?_⟩
  rcases b with _ | _ | _ | b
  · obtain ⟨-, ⟨⟩⟩ := RcCell.mk.inj (Option.some.inj (Option.some.inj hb))
    exact ho
  · exact absurd hb (by simp [Store.Live, twoObjects])
  · obtain ⟨-, ⟨⟩⟩ := RcCell.mk.inj (Option.some.inj (Option.some.inj hb))
    exact ho'
  · exact absurd hb (by simp [Store.Live, twoObjects])

lemma readable_newval {v : Json} (h : Readable v) : Readable (.object [("newval", v)]) :=
  readable_object_iff.mpr ⟨by simp, List.forall_mem_singleton.mpr ⟨by simp [ZeroFree], h⟩⟩

lemma exists_twoPosted (C : Traffic → Thread → Prop) :
    ∃ s, Exchange printBits C s [] twoPosted [] ∧ (∀ t, s.call t = .outside) ∧
      Denotes s.heap (.cell 2) (.object [("newval", .true), ("seqID", .integer 1)]) ∧
      (s.queues .MQ_OUT).fifo.items = [some (.cell 0), some (.cell 2)] := by
  obtain ⟨tables, htables⟩ := exists_tables_twoObjects
  have hcounted : Counted twoObjects [0, 2] := RefCount.counted_of_forall (by decide) (by decide)
  have hstart : Exchange printBits C
      ⟨fun _ => Ring.init JsonPtr, twoObjects, tables, fun _ => .outside⟩ [0, 2] [] [] :=
    .start rfl (fun _ => rfl) hcounted htables
  -- the first object
  have hseparate : Separate twoObjects [0] [2] := by
    intro x hx hx'
    have hreach : ∀ {y}, Reachable twoObjects [2] y → y = 2 := by
      intro y hy
      induction hy with
      | root hmem => exact List.mem_singleton.mp hmem
      | child _ hlive hmem ih =>
        subst ih
        obtain rfl := Option.some.inj (Option.some.inj hlive)
        exact absurd hmem List.not_mem_nil
    obtain rfl := hreach hx'
    exact not_reachable (by decide) (by decide) hx
  obtain ⟨o, ho, -⟩ := (htables 0 1 [("newval", .cell 1)] rfl).set (by simp) "seqID" (.cell 3)
  have hfirst : Denotes twoObjects (.cell 0) (.object [("newval", .integer 7)]) :=
    .object rfl rfl (.cons (.integer rfl) .nil)
  have hposted : Exchange printBits C
      ⟨onlyPosted (some (.cell 0)), oneNumbered, Function.update tables 0 o, fun _ => .outside⟩ [2]
      [.object [("newval", .integer 7), ("seqID", .integer 0)]] [] :=
    hstart.headcrab_post_message rfl hseparate hfirst
      (readable_newval ⟨by simp [Json.Valid, LLONG_MIN, LLONG_MAX], by simp [Json.reals]⟩)
      (by simp) (by decide) (by decide) rfl ho
  -- the second object
  obtain ⟨sent, flying, waiting, ⟨hcarries, -, -⟩, -⟩ := hposted.accounts realsReadBack_bits
  obtain ⟨o', ho', -⟩ := (hcarries.tables 2 1 [("newval", .the_true)] rfl).set (by simp) "seqID"
    (.cell 4)
  have hsecond : Denotes oneNumbered (.cell 2) (.object [("newval", .true)]) :=
    .object rfl rfl (.cons .the_true .nil)
  have hnothing : Separate oneNumbered [2] [] := by
    intro x _ hx
    obtain ⟨a, ha, -⟩ := hx.exists_root
    exact absurd ha List.not_mem_nil
  have hposted' := hposted.headcrab_post_message (n := 1) rfl hnothing hsecond
    (readable_newval ⟨trivial, by simp [Json.reals]⟩) (by simp) (by decide) (by decide) rfl ho'
  exact ⟨_, hposted', fun _ => rfl,
    .object rfl rfl (.cons .the_true (.cons (.integer rfl) .nil)), rfl⟩

/-! ## What arrives -/

section

variable {snprintf_17g : UInt64 → List UInt8} {strtod : List UInt8 → UInt64 × Bool}
  {C : Traffic → Thread → Prop} {s : Traffic} {R : List ℕ} {posted : List Json}
  {written : List (List UInt8)}

/-- **What was posted arrives.**  Whatever the two threads do in between, in whatever order: each
text that was written is read back as a message that was posted, with its number, each message
is written at most once, and those that are missing wait in the queue, or a thread has them.
And no thread gets stuck with a message: it has a text, whatever others have marked of what they
hold, and it can be given back. -/
theorem posted_arrives (hreals : RealsReadBack snprintf_17g strtod)
    (h : Exchange snprintf_17g C s R posted written) :
    (∃ sent onTheWay, List.Forall₂ (ReadsAs strtod) written sent ∧
      posted.Perm (sent ++ onTheWay) ∧
      onTheWay.length = (s.queues .MQ_OUT).fifo.items.length
        + ((s.call .app).count + (s.call .service).count)) ∧
    ∀ t, (∀ message, s.call t = .popped message → ∀ visited : Visited,
        (∀ x ∈ visited, Reachable s.heap ((s.call t.other).refs ++ R) x) →
        ∃ text, json_dump_callback snprintf_17g s.tables s.heap JSON_COMPACT message visited
          = ⟨text, .ok (.ok (), visited)⟩) ∧
      ∀ message text, s.call t = .dumped message text →
        ∃ j, s.heap.json_decref (some message) = .ok j := by
  obtain ⟨sent, flying, waiting, ⟨hcarries, hwritten, hposted⟩, -⟩ := h.accounts hreals
  refine ⟨⟨sent, _, hwritten, hposted, ?_⟩, fun t => ⟨fun message ht visited hvisited => ?_,
    fun message text ht => ?_⟩⟩
  · rw [List.length_append, inFlight, List.length_append, (hcarries.calls .app).length_eq,
      (hcarries.calls .service).length_eq, hcarries.items, List.length_map, List.length_map,
      Nat.add_comm]
  · obtain ⟨v, text, -, -, -, htext⟩ := hcarries.exists_text hreals ht hvisited
    exact ⟨text, htext⟩
  · obtain ⟨j', hdec, -⟩ := hcarries.release ht
    exact ⟨j', hdec⟩

/-- The two threads take a message each, and the second one is written first. -/
theorem posted_arrives_twoPosted : ∃ s text text',
    Exchange printBits (fun _ _ => True) s [] twoPosted [text, text'] ∧
    ReadsAs readBits text (.object [("newval", .true), ("seqID", .integer 1)]) ∧
    ∃ sent onTheWay, List.Forall₂ (ReadsAs readBits) [text, text'] sent ∧
      twoPosted.Perm (sent ++ onTheWay) ∧
      onTheWay.length = (s.queues .MQ_OUT).fifo.items.length
        + ((s.call .app).count + (s.call .service).count) := by
  obtain ⟨s, h, hcalls, hsecond, hitems⟩ := exists_twoPosted fun _ _ => True
  obtain ⟨hpop, hitems'⟩ := Rings.pop_of_items hitems
  obtain ⟨hpop', -⟩ := Rings.pop_of_items hitems'
  have h₁ := h.mq_pop (hcalls .app) trivial (Prod.ext hpop rfl)
  have h₂ := h₁.mq_pop (t := .service) (hcalls .service) trivial (Prod.ext hpop' rfl)
  obtain ⟨v, text, j, hv, htext, -, -, h₃⟩ := h₂.finish realsReadBack_bits (t := .service) rfl
  obtain ⟨-, text', j', -, -, -, -, h₄⟩ := h₃.finish realsReadBack_bits (t := .app) rfl
  obtain rfl := hv.unique hsecond
  exact ⟨_, text, text', h₄, htext, (posted_arrives realsReadBack_bits h₄).1⟩

/-- **In order.**  If a thread takes a message only when no thread has one, then what is read
back is what was posted first, in the same order and without a gap. -/
theorem posted_arrives_in_order (hreals : RealsReadBack snprintf_17g strtod)
    (h : Exchange snprintf_17g Traffic.Alone s R posted written) :
    List.Forall₂ (ReadsAs strtod) written (posted.take written.length) := by
  obtain ⟨sent, flying, waiting, ⟨-, hwritten, -⟩, horder⟩ := h.accounts hreals
  obtain ⟨-, heq⟩ := horder fun _ _ h => h
  rw [heq, hwritten.length_eq, List.take_left]
  exact hwritten

theorem posted_arrives_in_order_twoPosted : ∃ s written,
    Exchange printBits Traffic.Alone s [] twoPosted written ∧ written.length = 2 ∧
    List.Forall₂ (ReadsAs readBits) written (twoPosted.take written.length) := by
  obtain ⟨s, h, hcalls, -, hitems⟩ := exists_twoPosted Traffic.Alone
  have hitems' := (Rings.pop_of_items hitems).2
  obtain ⟨text, j, -, h₁⟩ := h.callback_command realsReadBack_bits (hcalls .app) hcalls
    (hitems ▸ List.cons_ne_nil _ _) () (n := 0) (by decide)
  obtain ⟨text', j', -, h₂⟩ := h₁.callback_command realsReadBack_bits (hcalls .service) hcalls
    (hitems' ▸ List.cons_ne_nil _ _) () (n := 0) (by decide)
  exact ⟨_, _, h₂, rfl, posted_arrives_in_order realsReadBack_bits h₂⟩

end

end JsonHeap

end Headcrab
