/-
# What can go wrong when a value is sent

`headcrab_post_message` puts a number into a value and pushes it onto the out-queue, with the
reference that its caller had to it.  A call of `callback_command` for
`LWS_CALLBACK_BROADCAST` or `LWS_CALLBACK_SERVER_WRITEABLE` pops it, takes its text, gives the
reference back, and writes the text to a connection.

Three things can go wrong on the way: the value may be `NULL`, it may have no text, and the
connection may not take the text.  The call is ready for the first one only: without a text it
logs an error and then reads the text that is not there, and if the text is not taken it ends
the process (`sends_safely_iff`).
-/
import Headcrab.References
import Headcrab.Server

namespace Headcrab

open RefCount (Counted)

namespace JsonHeap

/-! ## Posting a value -/

/-- The reference to the new cell is the caller's. -/
def json_integer (j : JsonHeap) (value : ℤ) : Option JsonPtr × JsonHeap :=
  (some (.cell j.cells.length), (j.malloc ⟨1, .integer value⟩).2)

/-- `headcrab_post_message`, up to `websocket_notify`. -/
def headcrab_post_message (_seqID : ℤ) (_message : Option JsonPtr) (s : Rings JsonPtr × JsonHeap) :
    Except Fault (Rings JsonPtr × JsonHeap) := do
  let (seqID, j) := json_integer s.2 _seqID
  let j ← j.json_object_set_new _message "seqID" seqID
  return (s.1.push .MQ_OUT _message, j)

/-! ## Sending it -/

/-- What ends a call that does not return. -/
inductive Ending
  | fault (f : Fault)
  | exit (status : ℕ)
deriving DecidableEq, Repr

/-- What a call does to the connections. -/
inductive SendEvent (W T : Type)
  | libwebsocket_write (wsi : W) (text : T)
  | libwebsocket_callback_on_writable (wsi : W)
deriving DecidableEq, Repr

/-- A part of a call that may fault. -/
def faulting {W T α : Type} (x : Except Fault α) : Traced (SendEvent W T) Ending α :=
  .ofExcept (x.mapError .fault)

/-- The text that a pointer points to. -/
def textAt {T : Type} : Option T → Except Fault T
  | none => .error .nullDeref
  | some text => .ok text

def json_is_array (j : JsonHeap) (json : Option JsonPtr) : Except Fault Bool := do
  match ← j.read json with
  | some (.array _) => return true
  | _ => return false

section

variable {W T : Type} (do_dump : JsonHeap → JsonPtr → Option T)

/-- `json_dumps` with the flag `JSON_COMPACT`: only an array or an object has a text, and
`do_dump` makes it, if it can. -/
def json_dumps (j : JsonHeap) (json : JsonPtr) : Except Fault (Option T) := do
  if !(← j.json_is_array (some json)) && !(← j.json_is_object (some json)) then return none
  else return do_dump j json

/-- The call of `callback_command` that may write to a connection; `written` is what
`libwebsocket_write` returns. -/
def callback_command (wsi : W) (written : ℤ) (s : Rings JsonPtr × JsonHeap) :
    Traced (SendEvent W T) Ending (Rings JsonPtr × JsonHeap) := do
  let (message, m) := s.1.pop .MQ_OUT
  match message with
  | none => return (m, s.2)
  | some message =>
    let json_message ← faulting (json_dumps do_dump s.2 message)
    let j ← faulting (s.2.json_decref (some message))
    -- a text that is `NULL` is logged as an error, and goes to `strlen` all the same
    let text ← faulting (textAt json_message)
    .emit (.libwebsocket_write wsi text)
    if written < 0 then
      .ofExcept (.error (.exit 1))
    else
      .emit (.libwebsocket_callback_on_writable wsi)
      return (m, j)

/-- The texts that a call writes. -/
def texts (tr : List (SendEvent W T)) : List T :=
  tr.filterMap fun
    | .libwebsocket_write _ text => some text
    | .libwebsocket_callback_on_writable _ => none

end

/-! ## The references -/

variable {j : JsonHeap} {p : Option JsonPtr} {R : List ℕ}

/-- **A value is posted with its reference.**  Whatever it is, it is pushed, and its caller's
reference to it is the queue's now. -/
theorem headcrab_post_message_spec (h : Counted j (refsOf p ++ R)) (n : ℤ) (m : Rings JsonPtr) :
    ∃ j', headcrab_post_message n p (m, j) = .ok (m.push .MQ_OUT p, j') ∧
      Counted j' (refsOf p ++ R) := by
  have hnew : Counted (json_integer j n).2 (j.cells.length :: (refsOf p ++ R)) :=
    Counted.malloc (v := JsonValue.integer n) h
  have hp : ∀ b ∈ refsOf p, ∃ c, (json_integer j n).2.Live b c :=
    fun b hb => hnew.live (by simp [hb])
  obtain ⟨j', hset, hcounted, -⟩ := json_object_set_new_spec hnew hp "seqID"
  refine ⟨j', ?_, hcounted⟩
  have hpost : headcrab_post_message n p (m, j) = ((json_integer j n).2.json_object_set_new p
    "seqID" (some (.cell j.cells.length))).map fun j' => (m.push .MQ_OUT p, j') := rfl
  rw [hpost, hset]
  rfl

/-! ## When a value is sent safely -/

section

variable {W T : Type} {do_dump : JsonHeap → JsonPtr → Option T} {wsi : W} {written : ℤ}
  {m : Rings JsonPtr}

@[simp] lemma faulting_ok_bind {α β : Type} (a : α) (f : α → Traced (SendEvent W T) Ending β) :
    (faulting (.ok a) : Traced (SendEvent W T) Ending α) >>= f = f a :=
  Traced.ofExcept_ok_bind a f

lemma json_is_object_of_live {b : ℕ} {c : RcCell JsonValue} (h : j.Live b c) :
    j.json_is_object (some (.cell b))
      = .ok (match c.value with | .object _ => true | _ => false) := by
  rw [json_is_object, read_of_live h]
  rcases c with ⟨n, _ | _ | _ | _ | _⟩ <;> rfl

lemma json_is_array_of_live {b : ℕ} {c : RcCell JsonValue} (h : j.Live b c) :
    j.json_is_array (some (.cell b))
      = .ok (match c.value with | .array _ => true | _ => false) := by
  rw [json_is_array, read_of_live h]
  rcases c with ⟨n, _ | _ | _ | _ | _⟩ <;> rfl

/-- A value that is there is looked at without a fault. -/
lemma json_dumps_eq {q : JsonPtr} (hq : ∀ b ∈ q.refs, ∃ c, j.Live b c) :
    json_dumps do_dump j q = .ok (if j.json_is_array (some q) = .ok true ∨
      j.json_is_object (some q) = .ok true then do_dump j q else none) := by
  cases q with
  | the_true | the_false | the_null => rfl
  | cell b =>
    obtain ⟨c, hb⟩ := hq b (List.mem_singleton_self b)
    rw [json_dumps, json_is_array_of_live hb, json_is_object_of_live hb]
    rcases c with ⟨n, _ | _ | _ | _ | _⟩ <;> rfl

/-- The call returns: it has written the text of the value or nothing, the value is off the
queue, and of the references that were held to it and to others, `R` are left. -/
def SendsSafely (do_dump : JsonHeap → JsonPtr → Option T) (wsi : W) (written : ℤ)
    (s : Rings JsonPtr × JsonHeap) (R : List ℕ) : Prop :=
  ∃ j', (callback_command do_dump wsi written s).result = .ok ((s.1.pop .MQ_OUT).2, j') ∧
    Counted j' R ∧
    (texts (callback_command do_dump wsi written s).trace = [] ∨
      ∃ message text, (s.1.pop .MQ_OUT).1 = some message ∧
        json_dumps do_dump s.2 message = .ok (some text) ∧
        texts (callback_command do_dump wsi written s).trace = [text])

/-- A value can be sent: it is `NULL`, or an array or object that has a text, and the
connection takes the text. -/
def Sendable (do_dump : JsonHeap → JsonPtr → Option T) (written : ℤ) (j : JsonHeap) :
    Option JsonPtr → Prop
  | none => True
  | some message => (j.json_is_array (some message) = .ok true ∨
      j.json_is_object (some message) = .ok true) ∧ do_dump j message ≠ none ∧ 0 ≤ written

/-- A value that is there has a text, or has none, without a fault. -/
lemma exists_json_dumps (do_dump : JsonHeap → JsonPtr → Option T) {message : JsonPtr}
    (h : Counted j (message.refs ++ R)) :
    ∃ x, json_dumps do_dump j message = .ok x ∧ (x ≠ none ↔
      (j.json_is_array (some message) = .ok true ∨ j.json_is_object (some message) = .ok true) ∧
        do_dump j message ≠ none) := by
  refine ⟨_, json_dumps_eq fun b hb => h.live (by simp [hb]), ?_⟩
  split
  · rename_i hkind
    simp [hkind]
  · rename_i hkind
    simp [hkind]

/-- What the call does with a value that it pops, with a text or without one. -/
lemma callback_command_eq (wsi : W) (written : ℤ) {message : JsonPtr} {j' : JsonHeap}
    (hpop : (m.pop .MQ_OUT).1 = some message) (hdec : j.json_decref (some message) = .ok j')
    {x : Option T} : json_dumps do_dump j message = .ok x →
    callback_command do_dump wsi written (m, j)
      = match x with
        | none => ⟨[], .error (.fault .nullDeref)⟩
        | some text =>
          if written < 0 then ⟨[.libwebsocket_write wsi text], .error (.exit 1)⟩
          else ⟨[.libwebsocket_write wsi text, .libwebsocket_callback_on_writable wsi],
            .ok ((m.pop .MQ_OUT).2, j')⟩ := by
  intro hx
  rw [callback_command]
  rcases hm : m.pop .MQ_OUT with ⟨q, m'⟩
  rw [hm] at hpop
  subst hpop
  simp only [hx, hdec, faulting_ok_bind]
  rcases x with _ | text
  · rfl
  · simp only [textAt, faulting_ok_bind, Traced.emit_bind]
    split <;> rfl

/-- What the call does with a value that it pops: its reference is given back in any case. -/
lemma callback_command_some (wsi : W) (written : ℤ) {message : JsonPtr}
    (hpop : (m.pop .MQ_OUT).1 = some message)
    (h : Counted j (message.refs ++ R)) {x : Option T} (hx : json_dumps do_dump j message = .ok x) :
    ∃ j', Counted j' R ∧ callback_command do_dump wsi written (m, j)
      = match x with
        | none => ⟨[], .error (.fault .nullDeref)⟩
        | some text =>
          if written < 0 then ⟨[.libwebsocket_write wsi text], .error (.exit 1)⟩
          else ⟨[.libwebsocket_write wsi text, .libwebsocket_callback_on_writable wsi],
            .ok ((m.pop .MQ_OUT).2, j')⟩ := by
  obtain ⟨j', hdec, hcounted, -⟩ := json_decref_spec (p := some message) h
  exact ⟨j', hcounted, callback_command_eq wsi written hpop hdec hx⟩

/-- **When a value is sent safely.**  Whatever else is in memory and in the queue, and for every
connection, exactly if the value is `NULL`, or if it is an array or an object that has a text
and the connection takes the text. -/
theorem sends_safely_iff (hpop : (m.pop .MQ_OUT).1 = p) (h : Counted j (refsOf p ++ R)) :
    SendsSafely do_dump wsi written (m, j) R ↔ Sendable do_dump written j p := by
  rcases p with _ | message
  · -- nothing is popped, and nothing is written
    have hcall : callback_command do_dump wsi written (m, j) = pure ((m.pop .MQ_OUT).2, j) := by
      rw [callback_command]
      rcases hm : m.pop .MQ_OUT with ⟨q, m'⟩
      rw [hm] at hpop
      subst hpop
      rfl
    refine ⟨fun _ => trivial, fun _ => ⟨j, ?_, h, Or.inl ?_⟩⟩
    · rw [hcall]
      rfl
    · rw [hcall]
      rfl
  · obtain ⟨x, hx, hsome⟩ := exists_json_dumps do_dump h
    obtain ⟨j', hcounted, hcall⟩ := callback_command_some wsi written hpop h hx
    rw [SendsSafely, hcall, Sendable, ← and_assoc, ← hsome]
    rcases x with _ | text
    · -- the text is `NULL`
      refine ⟨?_, fun hne => absurd rfl hne.1⟩
      rintro ⟨j'', hres, -⟩
      exact absurd hres (by simp)
    · by_cases hwritten : written < 0
      · -- the process ends
        simp only [if_pos hwritten]
        refine ⟨?_, fun hle => absurd hle.2 (by omega)⟩
        rintro ⟨j'', hres, -⟩
        exact absurd hres (by simp)
      · simp only [if_neg hwritten]
        refine ⟨fun _ => ⟨by simp, by omega⟩, fun _ => ⟨j', rfl, hcounted, Or.inr ?_⟩⟩
        exact ⟨message, text, hpop, hx, rfl⟩

end

/-- The queues with one value to be sent. -/
def onlyPosted (p : Option JsonPtr) : Rings JsonPtr :=
  Rings.push (fun _ => Ring.init JsonPtr) .MQ_OUT p

/-- An object with a number, as `headcrab_post_message` leaves it. -/
def numberedObject : JsonHeap :=
  ⟨[some ⟨1, .object [("newval", .cell 1), ("seqID", .cell 2)]⟩, some ⟨1, .integer 7⟩,
    some ⟨1, .integer 0⟩]⟩

theorem numbered_object_sent_safely :
    SendsSafely (fun _ _ => some "\x7b\"newval\":7,\"seqID\":0\x7d") () 22
      (onlyPosted (some (.cell 0)), numberedObject) [] := by
  have hcounted : Counted numberedObject (refsOf (some (.cell 0)) ++ []) :=
    RefCount.counted_of_forall (by decide) (by decide)
  exact (sends_safely_iff rfl hcounted).mpr ⟨Or.inr rfl, by simp, by decide⟩

/-- A string is a value without a text, and `strlen` reads through `NULL`. -/
theorem string_not_sent_safely : ¬ SendsSafely (fun _ _ => some "\x7b\x7d") () 2
    (onlyPosted (some (.cell 0)), ⟨[some ⟨1, .string "hello"⟩]⟩) [] := by
  rintro ⟨j', hres, -⟩
  have hfault : (callback_command (fun _ _ => some "\x7b\x7d") () 2
      (onlyPosted (some (.cell 0)), ⟨[some ⟨1, .string "hello"⟩]⟩)).result
        = .error (.fault .nullDeref) := rfl
  rw [hfault] at hres
  exact absurd hres (by simp)

/-! ## The same call among the steps of the server -/

section

variable {W T : Type} [DecidableEq W] {do_dump : JsonHeap → JsonPtr → Option T} {wsi : W}
  {written : ℤ} {m : Rings JsonPtr} {j : JsonHeap} {R : List ℕ}

/-- What the steps of the server do with a value that was popped is what the call does on
cells: they write the same texts, and the process is there afterwards exactly if the call
returns. -/
theorem send_popped {P : Type} (J : Codec P JsonPtr T) (t : Thread) (s : Server W JsonPtr)
    (hs : s.halted = false) {message : JsonPtr} (hpop : (m.pop .MQ_OUT).1 = some message)
    (h : Counted j (message.refs ++ R))
    (hJ : json_dumps do_dump j message = .ok (J.dumps message)) :
    ((s.send J t (0 ≤ written) (.popped wsi message)).1.halted = false ↔
      (callback_command do_dump wsi written (m, j)).failure = none) ∧
    (written < 0 ∨ (s.send J t (0 ≤ written) (.popped wsi message)).2.2
      = (texts (callback_command do_dump wsi written (m, j)).trace).map
        (.write t wsi message)) := by
  obtain ⟨j', -, hcall⟩ := callback_command_some wsi written hpop h hJ
  rw [hcall, Server.send]
  rcases J.dumps message with _ | text
  · exact ⟨by simp [Traced.failure], Or.inr rfl⟩
  · by_cases hwritten : written < 0
    · have hnot : ¬ 0 ≤ written := by omega
      simp [hwritten, hnot, Traced.failure]
    · have hle : 0 ≤ written := by omega
      simp [hwritten, hle, hs, Traced.failure, texts]

end

end JsonHeap

end Headcrab
