/-
# Handling commands: `dispatch` and `headcrab_handle_commands`

A message from a client is a command if it is an object whose type is the string `command`,
with strings for its target and its command and an integer for its number.  The number is
put among the arguments, and the dispatch table runs the handlers.

`headcrab_handle_commands` takes messages off the in-queue until `mq_pop` returns `NULL`,
which it does when the queue is empty, and also when the message it takes off is one that
`json_loads` could not parse.
-/
import Headcrab.Load
import Headcrab.MessageQueue
import Headcrab.Bindings

namespace Headcrab

open Json

variable {ω : Type}

/-- What is seen of the handling of commands. -/
inductive CommandEvent
  /-- `dispatch` is called on a message. -/
  | dispatch (message : Json)
  /-- A call of the host program, or its return. -/
  | hook (e : HookEvent (Option Json))

/-- `dispatch`.  The references that it takes and gives back are not modelled. -/
def dispatch (hooks : Hooks (Option Json) (Heap × ω)) (fuel : ℕ) (message : Json)
    (s : Heap × ω) : Traced (HookEvent (Option Json)) Fault (Heap × ω) :=
  if !json_is_object (some message) then pure s
  else
    let type := json_object_get (some message) "type"
    if !json_is_string type || json_string_value type != some "command" then pure s
    else
      let target := json_object_get (some message) "target"
      if !json_is_string target then pure s
      else
        let command := json_object_get (some message) "command"
        if !json_is_string command then pure s
        else
          let args := json_object_get (some message) "args"
          let seqID := json_object_get (some message) "seqID"
          if !json_is_integer seqID then pure s
          else
            -- arguments that are not an object stay without the number
            let args := json_object_set args "seqID" seqID
            dispatch_table_execute hooks fuel (json_string_value target)
              (json_string_value command) args s

/-- What `headcrab_post_message` pushes onto the out-queue. -/
def headcrab_post_message (seqID : ℤ) (message : Option Json) : Option Json :=
  json_object_set message "seqID" (some (.integer seqID))

/-- The loop of `headcrab_handle_commands`. -/
def handleFrom (hooks : Hooks (Option Json) (Heap × ω)) (fuel : ℕ) :
    ℕ → Rings Json × (Heap × ω) → Traced CommandEvent Fault (Rings Json × (Heap × ω))
  | 0, _ => .ofExcept (.error .diverges)
  | n + 1, (m, s) =>
    match m.pop .MQ_IN with
    -- the queue is empty, or a payload in it was no JSON
    | (none, m) => pure (m, s)
    | (some command, m) => do
      .emit (.dispatch command)
      let s ← (dispatch hooks fuel command s).mapTrace .hook
      handleFrom hooks fuel n (m, s)

/-- `headcrab_handle_commands`, for hooks that leave the in-queue alone: every turn of the
loop takes a value off the queue, so there is at most one turn more than there are values. -/
def headcrab_handle_commands (hooks : Hooks (Option Json) (Heap × ω)) (fuel : ℕ)
    (m : Rings Json) (s : Heap × ω) : Traced CommandEvent Fault (Rings Json × (Heap × ω)) :=
  handleFrom hooks fuel ((m .MQ_IN).1.contents.length + 1) (m, s)

/-- What `LWS_CALLBACK_RECEIVE` does with payloads, one after the other: the result of
`json_loads` is pushed, also if it is `NULL`. -/
def receiveAll {P : Type} (json_loads : P → Option Json) (m : Rings Json) (ps : List P) :
    Rings Json :=
  ps.foldl (fun m p => m.push .MQ_IN (json_loads p)) m

/-- The messages that `dispatch` was called on, in order. -/
def dispatched (tr : List CommandEvent) : List Json :=
  tr.filterMap fun
    | .dispatch m => some m
    | .hook _ => none

/-! ## The arguments of a mutator -/

section Args

variable {A : Type}

/-- A call of a mutator in a trace is made with the given arguments. -/
def OpArgs (args : A) (e : HookEvent A) : Prop := ∀ f o a, e = .op f o a → a = args

lemma runHandler_args (hooks : Hooks A (Heap × ω)) (node handler : Option Ptr) (args : A)
    (s : Heap × ω) : (runHandler hooks node handler args s).Shows (OpArgs args) := by
  have hset : ∀ (event : Fn → VoidPtr → HookEvent A) run (f : Option Fn) (a : VoidPtr)
      (s : Heap × ω), (∀ f a, OpArgs args (event f a)) →
      (callIfSet event run f a s).Shows (OpArgs args) := by
    intro event run f a s hevent
    rcases f with _ | f
    · exact Traced.Shows.pure s
    · refine (Traced.Shows.emit (hevent f a)).bind fun _ => ?_
      refine (Traced.Shows.ofExcept _).bind ?_
      rintro ⟨r, s'⟩
      refine (Traced.Shows.emit ?_).bind fun _ => Traced.Shows.pure s'
      rintro f o a ⟨⟩
  have hop : ∀ (f : Option Fn) (o : VoidPtr) (s : Heap × ω),
      (hooks.callOp f o args s).Shows (OpArgs args) := by
    intro f o s
    rcases f with _ | f
    · exact Traced.Shows.ofExcept _
    · refine (Traced.Shows.emit ?_).bind fun _ => Traced.Shows.ofExcept _
      rintro f' o' a ⟨⟩
      rfl
  refine (Traced.Shows.ofExcept _).bind fun c => ?_
  refine (hset _ _ _ _ _ (by rintro f a f' o' a' ⟨⟩)).bind fun s₁ => ?_
  refine (Traced.Shows.ofExcept _).bind fun c₁ => (Traced.Shows.ofExcept _).bind fun n => ?_
  refine (hop _ _ _).bind fun s₂ => (Traced.Shows.ofExcept _).bind fun c₂ => ?_
  exact hset _ _ _ _ _ (by rintro f a f' o' a' ⟨⟩)

/-- Every mutator that a dispatch calls gets the arguments of the dispatch. -/
lemma dispatch_table_execute_args (hooks : Hooks A (Heap × ω)) (fuel : ℕ) (t v : Option String)
    (args : A) (s : Heap × ω) :
    (dispatch_table_execute hooks fuel t v args s).Shows (OpArgs args) := by
  have hfrom : ∀ (fuel : ℕ) (node p : Option Ptr) (s : Heap × ω),
      (executeFrom hooks node v args fuel p s).Shows (OpArgs args) := by
    intro fuel
    induction fuel with
    | zero => exact fun _ _ _ => Traced.Shows.ofExcept _
    | succ fuel ih =>
      intro node p s
      rcases p with _ | p
      · exact Traced.Shows.pure s
      · rw [executeFrom]
        refine (Traced.Shows.ofExcept _).bind fun c => (Traced.Shows.ofExcept _).bind fun eq => ?_
        split
        · refine (runHandler_args hooks node (some p) args s).bind fun s₁ => ?_
          exact (Traced.Shows.ofExcept _).bind fun c₁ => ih _ _ _
        · exact ih _ _ _
  refine (Traced.Shows.ofExcept _).bind fun node => ?_
  split
  · exact Traced.Shows.pure s
  · exact (Traced.Shows.ofExcept _).bind fun n => hfrom _ _ _ _

end Args

/-- The number that a mutator finds in its arguments is that of the command. -/
lemma dispatch_seqID (hooks : Hooks (Option Json) (Heap × ω)) (fuel : ℕ) (message : Json)
    (s : Heap × ω) {x : OpCall (Option Json)}
    (hx : x ∈ opCalls (dispatch hooks fuel message s).trace) {n : ℤ}
    (hn : json_object_get x.args "seqID" = some (.integer n)) :
    json_object_get (some message) "seqID" = some (.integer n) := by
  have hnone : x ∉ opCalls (Pure.pure s : Traced (HookEvent (Option Json)) Fault _).trace := by
    simp [opCalls]
  rw [dispatch] at hx
  split at hx
  · exact absurd hx hnone
  simp only at hx
  split at hx
  · exact absurd hx hnone
  split at hx
  · exact absurd hx hnone
  split at hx
  · exact absurd hx hnone
  split at hx
  · exact absurd hx hnone
  rename_i hint
  obtain ⟨m, hm⟩ := exists_of_json_is_integer (by simpa using hint)
  obtain ⟨e, he, hex⟩ := List.mem_filterMap.mp hx
  have hargs := dispatch_table_execute_args hooks fuel _ _ _ s e he
  have hx' : x.args = json_object_set (json_object_get (some message) "args") "seqID"
      (json_object_get (some message) "seqID") := by
    cases e with
    | op f o a =>
      obtain rfl := Option.some.inj hex
      exact hargs f o a rfl
    | pre _ _ | post _ _ | returned _ => exact absurd hex (by simp)
  rw [hx', hm] at hn
  rw [hm, eq_of_json_object_get_set hn]

/-! ## Handling everything that was received -/

variable (hooks : Hooks (Option Json) (Heap × ω))

/-- Several messages, one after the other. -/
def dispatchAll (fuel : ℕ) : List Json → Heap × ω →
    Traced (HookEvent (Option Json)) Fault (Heap × ω)
  | [], s => pure s
  | message :: messages, s => do
    let s ← dispatch hooks fuel message s
    dispatchAll fuel messages s

@[simp] lemma dispatched_append (tr tr' : List CommandEvent) :
    dispatched (tr ++ tr') = dispatched tr ++ dispatched tr' :=
  List.filterMap_append ..

@[simp] lemma dispatched_hooks (tr : List (HookEvent (Option Json))) :
    dispatched (tr.map .hook) = [] := by
  simp [dispatched, List.filterMap_map]

/-- The values that wait in the in-queue. -/
def waiting (m : Rings Json) : List (Option Json) := (m .MQ_IN).fifo.items

/-- A turn of the loop takes off the oldest value. -/
lemma pop_of_waiting {m : Rings Json} {v : Option Json} {vs : List (Option Json)}
    (h : waiting m = v :: vs) : (m.pop .MQ_IN).1 = v ∧ waiting (m.pop .MQ_IN).2 = vs := by
  rw [waiting] at h
  constructor
  · show (m .MQ_IN).dequeue.1 = v
    rw [(m .MQ_IN).dequeue_spec.1, BoundedFifo.fst_pop, h]
    rfl
  · rw [waiting, Rings.fifo_pop_self, BoundedFifo.items_pop, h]
    rfl

/-- A turn of the loop on an empty queue gets `NULL`. -/
lemma pop_of_waiting_nil {m : Rings Json} (h : waiting m = []) :
    (m.pop .MQ_IN).1 = none ∧ waiting (m.pop .MQ_IN).2 = [] := by
  have hempty : (m .MQ_IN).isEmpty = Bool.true := (Ring.isEmpty_iff _).mpr h
  obtain ⟨hnone, hsame⟩ := m.pop_of_isEmpty hempty
  exact ⟨hnone, by rw [waiting, hsame]; exact h⟩

/-- What was received waits, if there was room for it. -/
lemma waiting_receiveAll {P : Type} (json_loads : P → Option Json) (ps : List P) (m : Rings Json)
    (hroom : (waiting m).length + ps.length ≤ (m .MQ_IN).fifo.capacity) :
    waiting (receiveAll json_loads m ps) = waiting m ++ ps.map json_loads := by
  induction ps generalizing m with
  | nil => simp [receiveAll]
  | cons p ps ih =>
    rw [List.length_cons] at hroom
    have hlt : (m .MQ_IN).fifo.items.length < (m .MQ_IN).fifo.capacity := by
      rw [waiting] at hroom
      omega
    have hpush : waiting (m.push .MQ_IN (json_loads p)) = waiting m ++ [json_loads p] := by
      rw [waiting, Rings.fifo_push_self, BoundedFifo.items_push_room hlt]
      rfl
    rw [receiveAll, List.foldl_cons]
    have hstep := ih (m.push .MQ_IN (json_loads p)) (by
      rw [hpush, Rings.fifo_push_self, BoundedFifo.capacity_push, List.length_append,
        List.length_singleton]
      omega)
    rw [receiveAll] at hstep
    rw [hstep, hpush, List.append_assoc]
    rfl

/-- The loop dispatches the messages in front of the first `NULL`, takes that `NULL` off, and
ends; if a message does not return, it does not either.  The induction is on these messages. -/
lemma handleFrom_spec (fuel : ℕ) {rest : List (Option Json)}
    (hrest : rest = [] ∨ ∃ r, rest = none :: r) (messages : List Json) :
    ∀ (n : ℕ) (m : Rings Json) (s : Heap × ω), waiting m = messages.map some ++ rest →
      messages.length < n →
      (∀ s', (dispatchAll hooks fuel messages s).result = .ok s' →
        ∃ m', (handleFrom hooks fuel n (m, s)).result = .ok (m', s') ∧
          waiting m' = rest.tail ∧
          dispatched (handleFrom hooks fuel n (m, s)).trace = messages) ∧
      ∀ e, (dispatchAll hooks fuel messages s).result = .error e →
        (handleFrom hooks fuel n (m, s)).result = .error e := by
  induction messages with
  | nil =>
    intro n m s hm hn
    obtain ⟨n, rfl⟩ := Nat.exists_eq_add_of_lt hn
    -- what ends the loop is taken off, if it is a `NULL` in the queue
    have hpop : (m.pop .MQ_IN).1 = none ∧ waiting (m.pop .MQ_IN).2 = rest.tail := by
      rcases hrest with rfl | ⟨r, rfl⟩
      · exact pop_of_waiting_nil hm
      · exact pop_of_waiting hm
    have hstep : handleFrom hooks fuel (0 + n + 1) (m, s) = pure ((m.pop .MQ_IN).2, s) := by
      rw [handleFrom]
      split
      · rename_i m' hpop'
        rw [hpop']
      · rename_i command m' hpop'
        rw [hpop'] at hpop
        exact absurd hpop.1 (by simp)
    rw [List.length_nil, hstep]
    refine ⟨?_, fun e he => absurd he (by simp [dispatchAll])⟩
    intro s' hs'
    obtain rfl := Except.ok.inj hs'
    exact ⟨_, rfl, hpop.2, rfl⟩
  | cons message messages ih =>
    intro n m s hm hn
    obtain ⟨n, rfl⟩ : ∃ k, n = k + 1 := ⟨n - 1, by omega⟩
    obtain ⟨hpop, hwait⟩ := pop_of_waiting (v := some message) hm
    have hstep : handleFrom hooks fuel (n + 1) (m, s)
        = (do
          .emit (.dispatch message)
          let s ← (dispatch hooks fuel message s).mapTrace .hook
          handleFrom hooks fuel n ((m.pop .MQ_IN).2, s)) := by
      rw [handleFrom]
      split
      · rename_i m' hpop'
        rw [hpop'] at hpop
        exact absurd hpop (by simp)
      · rename_i command m' hpop'
        rw [hpop'] at hpop ⊢
        obtain rfl := Option.some.inj hpop
        rfl
    rw [hstep, dispatchAll, Traced.emit_bind]
    rcases hd : (dispatch hooks fuel message s).result with e | s₁
    · have hmap : ((dispatch hooks fuel message s).mapTrace CommandEvent.hook).result
          = .error e := hd
      rw [Traced.bind_error hd, Traced.bind_error hmap]
      refine ⟨fun s' hs' => absurd hs' (by simp), 
        fun e' he' => congrArg Except.error (Except.error.inj he')⟩
    · have hmap : ((dispatch hooks fuel message s).mapTrace CommandEvent.hook).result
          = .ok s₁ := hd
      obtain ⟨hok, herror⟩ := ih n (m.pop .MQ_IN).2 s₁ hwait (by simpa using hn)
      rw [Traced.bind_ok hd, Traced.bind_ok hmap]
      refine ⟨?_, herror⟩
      intro s' hs'
      obtain ⟨m', hres, hm', htrace⟩ := hok s' hs'
      refine ⟨m', hres, hm', ?_⟩
      show dispatched ([.dispatch message] ++ (_ ++ _)) = _
      rw [dispatched_append, dispatched_append, htrace]
      show [message] ++ (dispatched (List.map _ _) ++ messages) = _
      rw [dispatched_hooks]
      rfl

section Handling

variable {P : Type} (json_loads : P → Option Json)

/-- One call of `headcrab_handle_commands` after the payloads `ps` were received ends with an
empty in-queue, and has called `dispatch` on each message among them, once and in order. -/
def HandlesEverything (m : Rings Json) (ps : List P) (s : Heap × ω) : Prop :=
  ∃ fuel m' s',
    (headcrab_handle_commands hooks fuel (receiveAll json_loads m ps) s).result = .ok (m', s') ∧
      waiting m' = [] ∧
      dispatched (headcrab_handle_commands hooks fuel (receiveAll json_loads m ps) s).trace
        = ps.filterMap json_loads

/-- No payload but perhaps the last is one that `json_loads` rejects. -/
def OnlyLastRejected (ps : List P) : Prop := ∀ p ∈ ps.dropLast, json_loads p ≠ none

/-- The messages can be dispatched one after the other: no mutator is `NULL`, and the hooks
return. -/
def DispatchesReturn (messages : List Json) (s : Heap × ω) : Prop :=
  ∃ fuel s', (dispatchAll hooks fuel messages s).result = .ok s'

/-- Values up to the first `NULL`. -/
lemma exists_split_none (vs : List (Option Json)) :
    ∃ (messages : List Json) (rest : List (Option Json)),
      vs = messages.map some ++ rest ∧ (rest = [] ∨ ∃ r, rest = none :: r) := by
  induction vs with
  | nil => exact ⟨[], [], rfl, Or.inl rfl⟩
  | cons v vs ih =>
    rcases v with _ | message
    · exact ⟨[], none :: vs, rfl, Or.inr ⟨vs, rfl⟩⟩
    · obtain ⟨messages, rest, rfl, hrest⟩ := ih
      exact ⟨message :: messages, rest, rfl, hrest⟩

/-- Nothing waits behind the first `NULL` exactly if only the last payload is rejected. -/
lemma onlyLastRejected_iff {ps : List P} {messages : List Json} {rest : List (Option Json)}
    (hps : ps.map json_loads = messages.map some ++ rest)
    (hrest : rest = [] ∨ ∃ r, rest = none :: r) :
    OnlyLastRejected json_loads ps ↔ rest.tail = [] := by
  have hdrop : OnlyLastRejected json_loads ps ↔
      ∀ v ∈ (messages.map some ++ rest).dropLast, v ≠ none := by
    rw [← hps, ← List.map_dropLast, OnlyLastRejected]
    exact (List.forall_mem_map (P := fun v => v ≠ none)).symm
  rw [hdrop]
  rcases hrest with rfl | ⟨r, rfl⟩
  · simp only [List.append_nil, List.tail_nil, iff_true]
    intro v hv
    obtain ⟨message, -, rfl⟩ := List.mem_map.mp (List.mem_of_mem_dropLast hv)
    simp
  · rw [List.dropLast_append_of_ne_nil (by simp), List.tail_cons]
    constructor
    · intro hall
      by_contra hr
      have hmem : none ∈ (none :: r).dropLast := by
        rw [List.dropLast_cons_of_ne_nil hr]
        simp
      exact hall none (List.mem_append_right _ hmem) rfl
    · rintro rfl
      simp

/-- If nothing is behind the first `NULL`, what is in front of it is every message. -/
lemma filterMap_eq_of_split {ps : List P} {messages : List Json} {rest : List (Option Json)}
    (hps : ps.map json_loads = messages.map some ++ rest)
    (hrest : rest = [] ∨ ∃ r, rest = none :: r) (htail : rest.tail = []) :
    ps.filterMap json_loads = messages := by
  have hmap : ps.filterMap json_loads = (ps.map json_loads).filterMap id := by
    rw [List.filterMap_map]
    rfl
  rw [hmap, hps, List.filterMap_append, List.filterMap_map]
  rcases hrest with rfl | ⟨r, rfl⟩
  · simp
  · rw [List.tail_cons] at htail
    subst htail
    simp

/-- What the loop leaves in the queue is what is behind the first `NULL`. -/
lemma waiting_of_handle {m : Rings Json} {messages : List Json} {rest : List (Option Json)}
    (hm : waiting m = messages.map some ++ rest) (hrest : rest = [] ∨ ∃ r, rest = none :: r)
    {fuel : ℕ} {s s' : Heap × ω} {m' : Rings Json}
    (hres : (headcrab_handle_commands hooks fuel m s).result = .ok (m', s')) :
    waiting m' = rest.tail ∧ (dispatchAll hooks fuel messages s).result = .ok s' := by
  have hlen : messages.length < (m .MQ_IN).1.contents.length + 1 := by
    have hlength : (waiting m).length = messages.length + rest.length := by
      rw [hm, List.length_append, List.length_map]
    have hle : messages.length ≤ (waiting m).length := by omega
    exact Nat.lt_succ_of_le hle
  obtain ⟨hok, herror⟩ := handleFrom_spec hooks fuel hrest messages _ m s hm hlen
  rcases hd : (dispatchAll hooks fuel messages s).result with e | s''
  · rw [headcrab_handle_commands, herror e hd] at hres
    exact absurd hres (by simp)
  · obtain ⟨m'', hres', hm'', -⟩ := hok s'' hd
    rw [headcrab_handle_commands, hres'] at hres
    obtain ⟨rfl, rfl⟩ := Prod.mk.inj (Except.ok.inj hres)
    exact ⟨hm'', rfl⟩

/-- Only if no payload but the last is rejected. -/
lemma onlyLastRejected_of_handlesEverything {m : Rings Json} (hempty : waiting m = [])
    {ps : List P} (hroom : ps.length ≤ (m .MQ_IN).fifo.capacity) {s : Heap × ω}
    (h : HandlesEverything hooks json_loads m ps s) :
    OnlyLastRejected json_loads ps ∧ DispatchesReturn hooks (ps.filterMap json_loads) s := by
  have hwait := waiting_receiveAll json_loads ps m (by rw [hempty]; simpa using hroom)
  rw [hempty, List.nil_append] at hwait
  obtain ⟨messages, rest, hsplit, hrest⟩ := exists_split_none (ps.map json_loads)
  rw [hsplit] at hwait
  obtain ⟨fuel, m', s', hres, hm', -⟩ := h
  obtain ⟨htail, hd⟩ := waiting_of_handle hooks hwait hrest hres
  rw [hm'] at htail
  refine ⟨(onlyLastRejected_iff json_loads hsplit hrest).mpr htail.symm, fuel, s', ?_⟩
  rw [filterMap_eq_of_split json_loads hsplit hrest htail.symm]
  exact hd

/-- **When everything that was received is handled.**  After payloads for which the in-queue
had room, exactly when `json_loads` rejects none of them but perhaps the last, and the
messages can be dispatched. -/
theorem handles_everything_iff {m : Rings Json} (hempty : waiting m = []) {ps : List P}
    (hroom : ps.length ≤ (m .MQ_IN).fifo.capacity) (s : Heap × ω) :
    HandlesEverything hooks json_loads m ps s ↔
      OnlyLastRejected json_loads ps ∧ DispatchesReturn hooks (ps.filterMap json_loads) s := by
  refine ⟨onlyLastRejected_of_handlesEverything hooks json_loads hempty hroom, ?_⟩
  rintro ⟨honly, fuel, s', hd⟩
  have hwait := waiting_receiveAll json_loads ps m (by rw [hempty]; simpa using hroom)
  rw [hempty, List.nil_append] at hwait
  obtain ⟨messages, rest, hsplit, hrest⟩ := exists_split_none (ps.map json_loads)
  rw [hsplit] at hwait
  have htail := (onlyLastRejected_iff json_loads hsplit hrest).mp honly
  have hmessages := filterMap_eq_of_split json_loads hsplit hrest htail
  rw [hmessages] at hd
  have hlen : messages.length < ((receiveAll json_loads m ps) .MQ_IN).1.contents.length + 1 := by
    have hlength : (waiting (receiveAll json_loads m ps)).length
        = messages.length + rest.length := by
      rw [hwait, List.length_append, List.length_map]
    have hle : messages.length ≤ (waiting (receiveAll json_loads m ps)).length := by omega
    exact Nat.lt_succ_of_le hle
  obtain ⟨hok, -⟩ := handleFrom_spec hooks fuel hrest messages _ _ s hwait hlen
  obtain ⟨m', hres, hm', htrace⟩ := hok s' hd
  exact ⟨fuel, m', s', hres, by rw [hm', htail], by rw [hmessages]; exact htrace⟩

end Handling

lemma dispatchesReturn_of_isSome (fuel : ℕ) {messages : List Json} {s : Heap × ω}
    (h : (dispatchAll hooks fuel messages s).result.toOption.isSome = Bool.true) :
    DispatchesReturn hooks messages s := by
  rcases hres : (dispatchAll hooks fuel messages s).result with e | s'
  · rw [hres] at h
    exact absurd h (by simp [Except.toOption])
  · exact ⟨fuel, s', hres⟩

/-- `json_loads`, which takes the length of a payload for its flags. -/
def loads (payload : List UInt8) : Option Json :=
  (json_loads noReals payload payload.length).toOption

/-- A command, which calls a mutator, and a payload that is rejected. -/
theorem handles_everything_last_rejected : ∃ h, Heap.booted.bindAll [bindBall "move"] = .ok h ∧
    (loads moveText).map (fun message =>
      (opCalls (dispatch BindingHooks.idle.onHeap 2 message (h, ())).trace).length) = some 1 ∧
    loads (ascii "[") = none ∧
    HandlesEverything BindingHooks.idle.onHeap loads (fun _ => Ring.init Json)
      [moveText, ascii "["] (h, ()) := by
  refine ⟨_, rfl, by decide +kernel, Option.isNone_iff_eq_none.mp (by decide +kernel),
    (handles_everything_iff BindingHooks.idle.onHeap loads (by rfl) (by decide) _).mpr ⟨?_, ?_⟩⟩
  · have hloads : (loads moveText).isSome = Bool.true := by decide +kernel
    exact List.forall_mem_singleton.mpr (Option.isSome_iff_ne_none.mp hloads)
  · exact dispatchesReturn_of_isSome _ 2 (by decide +kernel)

/-- A payload that `json_loads` rejects hides the command behind it. -/
theorem rejected_payload_hides_command : ∃ h, Heap.booted.bindAll [bindBall "move"] = .ok h ∧
    loads moveText ≠ none ∧
    ¬ HandlesEverything BindingHooks.idle.onHeap loads (fun _ => Ring.init Json)
      [ascii "[", moveText] (h, ()) := by
  have hloads : (loads moveText).isSome = Bool.true := by decide +kernel
  refine ⟨_, rfl, Option.isSome_iff_ne_none.mp hloads, fun h => ?_⟩
  have honly := (onlyLastRejected_of_handlesEverything BindingHooks.idle.onHeap loads (by rfl)
    (by decide) h).1
  exact honly (ascii "[") (by simp) (Option.isNone_iff_eq_none.mp (by decide +kernel))

end Headcrab
