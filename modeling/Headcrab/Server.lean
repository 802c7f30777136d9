/-
# The server: `headcrab_server.c` between two threads

The thread of the host program and the service thread of libwebsockets share the two message
queues and the list of connections.  The host program takes commands off the in-queue, and
posts messages: a post pushes the message and then broadcasts, which calls
`callback_command` once for each established connection in the thread of the host program.
The service thread runs `callback_command` when a connection is established, when text has
been received and when a connection may be written to.  A callback that sends pops a
message, writes it, and asks to be called again: these are three steps, and only the pop
holds a lock.

This file is the step function of that system.  A step emits what an observer of the queues
and of the connections sees.
-/
import Headcrab.MessageQueue
import Headcrab.Lib.Runs

namespace Headcrab

/-- The two threads that run `callback_command`. -/
inductive Thread
  | app
  | service
deriving DecidableEq, Repr

def Thread.other : Thread → Thread
  | .app => .service
  | .service => .app

lemma Thread.other_ne (t : Thread) : t.other ≠ t := by
  cases t <;> simp [Thread.other]

lemma Thread.eq_other {t t' : Thread} (h : t' ≠ t) : t' = t.other := by
  cases t <;> cases t' <;> simp_all [Thread.other]

/-- A call of `callback_command` for `LWS_CALLBACK_BROADCAST` or
`LWS_CALLBACK_SERVER_WRITEABLE`, between two of its steps. -/
inductive Sending (W V : Type)
  /-- `mq_pop` is next. -/
  | entered (wsi : W)
  /-- `json_dumps` and `libwebsocket_write` are next. -/
  | popped (wsi : W) (message : V)
  /-- `libwebsocket_callback_on_writable` is next. -/
  | written (wsi : W)
deriving DecidableEq, Repr

/-- Where the thread of the host program stands in the server functions it calls. -/
inductive AppAt (W V : Type)
  | idle
  /-- In `headcrab_post_message`, before `websocket_notify`. -/
  | notify
  /-- In `libwebsockets_broadcast`, with the connections that are still to be called. -/
  | broadcast (rest : List W)
  /-- In a call made by `libwebsockets_broadcast`. -/
  | callback (call : Sending W V) (rest : List W)
deriving DecidableEq, Repr

/-- The functions of jansson that the server calls: `json_loads` on a received payload and
`json_dumps` with `JSON_COMPACT`, each of which may return `NULL`. -/
structure Codec (P V F : Type) where
  loads : P → Option V
  dumps : V → Option F

/-- The state of the server. -/
structure Server (W V : Type) where
  queues : Rings V
  /-- The connections in the established state. -/
  established : List W
  /-- The connections for which a writable callback has been asked and not yet made. -/
  writable : List W
  app : AppAt W V
  /-- The call that the service thread is in, if any. -/
  service : Option (Sending W V)
  /-- The process has ended. -/
  halted : Bool

/-- What an observer of the queues and of the connections sees. -/
inductive Event (W V F : Type)
  /-- A value was given to `mq_push`; the flag says whether the queue had room. -/
  | push (queue : MQ) (value : Option V) (accepted : Bool)
  /-- A value was taken from a queue that was not empty. -/
  | pop (queue : MQ) (value : Option V)
  /-- A callback for a connection got a message from its `mq_pop`. -/
  | take (thread : Thread) (wsi : W) (message : V)
  /-- A callback for a connection wrote the text of its message to it. -/
  | write (thread : Thread) (wsi : W) (message : V) (frame : F)
deriving DecidableEq, Repr

/-- What moves the server. -/
inductive Action (W V P : Type)
  /-- `LWS_CALLBACK_ESTABLISHED`. -/
  | establish (wsi : W)
  /-- A connection closes. -/
  | close (wsi : W)
  /-- `LWS_CALLBACK_RECEIVE`. -/
  | receive (wsi : W) (payload : P)
  /-- `LWS_CALLBACK_SERVER_WRITEABLE` is called. -/
  | writeable (wsi : W)
  /-- The next step of the call the service thread is in; `sent` says whether
  `libwebsocket_write`, if that is the step, returns a number that is not negative. -/
  | serviceStep (sent : Bool)
  /-- `headcrab_handle_commands` calls `mq_pop`. -/
  | handle
  /-- `headcrab_post_message` calls `mq_push`. -/
  | post (message : Option V)
  /-- `websocket_notify` starts the broadcast, in some order. -/
  | notify (order : List W)
  /-- `libwebsockets_broadcast` goes on to the next connection. -/
  | broadcast
  /-- The next step of the call that the broadcast is in. -/
  | appStep (sent : Bool)
deriving DecidableEq, Repr

namespace Server

variable {W V P F : Type}

/-- The server before any connection. -/
def init (W V : Type) : Server W V :=
  ⟨fun _ => Ring.init V, [], [], .idle, none, false⟩

/-- `mq_push`, with what it shows. -/
def push (s : Server W V) (k : MQ) (value : Option V) : Server W V × List (Event W V F) :=
  ({ s with queues := s.queues.push k value }, [.push k value (s.queues k).hasRoom])

/-- `mq_pop`, with what it shows. -/
def pop (s : Server W V) (k : MQ) : Option V × Server W V × List (Event W V F) :=
  ((s.queues.pop k).1, { s with queues := (s.queues.pop k).2 },
    if (s.queues k).isEmpty then [] else [.pop k (s.queues.pop k).1])

variable [DecidableEq W]

/-- A step of a sending call of `callback_command`: the new state, where the call stands
afterwards (`none` when it has returned), and what is shown.  Without a text, `strlen` gets
`NULL`; when the write fails, the callback calls `exit`. -/
def send (J : Codec P V F) (t : Thread) (sent : Bool) (s : Server W V) :
    Sending W V → Server W V × Option (Sending W V) × List (Event W V F)
  | .entered w =>
    match s.pop .MQ_OUT with
    | (none, s', es) => (s', none, es)
    | (some m, s', es) => (s', some (.popped w m), es ++ [.take t w m])
  | .popped w m =>
    match J.dumps m with
    | none => ({ s with halted := true }, some (.popped w m), [])
    | some frame =>
      if sent then (s, some (.written w), [.write t w m frame])
      else ({ s with halted := true }, some (.popped w m), [])
  | .written w =>
    -- a connection that has closed in the meantime is not called again
    (if w ∈ s.established then { s with writable := w :: s.writable } else s, none, [])

/-- The step of an action. -/
def act (J : Codec P V F) (s : Server W V) :
    Action W V P → Option (Server W V × List (Event W V F))
  -- the service thread runs its callbacks one after the other
  | .establish w =>
    if s.service.isNone ∧ w ∉ s.established then
      some ({ s with established := s.established ++ [w] }, [])
    else none
  | .close w =>
    if s.service.isNone ∧ w ∈ s.established then
      some ({ s with
        established := s.established.filter (· ≠ w)
        writable := s.writable.filter (· ≠ w) }, [])
    else none
  | .receive w payload =>
    if s.service.isNone ∧ w ∈ s.established then
      some (s.push .MQ_IN (J.loads payload))
    else none
  | .writeable w =>
    if s.service.isNone ∧ w ∈ s.established then
      some ({ s with
        writable := s.writable.filter (· ≠ w)
        service := some (.entered w) }, [])
    else none
  | .serviceStep sent =>
    match s.service with
    | some call =>
      match s.send J .service sent call with
      | (s', call', es) => some ({ s' with service := call' }, es)
    | none => none
  | .handle =>
    match s.app with
    | .idle => some (s.pop .MQ_IN).2
    | _ => none
  | .post message =>
    match s.app with
    | .idle =>
      match s.push .MQ_OUT message with
      | (s', es) => some ({ s' with app := .notify }, es)
    | _ => none
  | .notify order =>
    match s.app with
    | .notify =>
      -- the library goes through all connections, in an order of its own
      if order.Perm s.established then some ({ s with app := .broadcast order }, []) else none
    | _ => none
  | .broadcast =>
    match s.app with
    | .broadcast [] => some ({ s with app := .idle }, [])
    | .broadcast (w :: rest) =>
      -- a connection that has closed in the meantime is not called
      if w ∈ s.established then some ({ s with app := .callback (.entered w) rest }, [])
      else some ({ s with app := .broadcast rest }, [])
    | _ => none
  | .appStep sent =>
    match s.app with
    | .callback call rest =>
      match s.send J .app sent call with
      | (s', some call', es) => some ({ s' with app := .callback call' rest }, es)
      | (s', none, es) => some ({ s' with app := .broadcast rest }, es)
    | _ => none

/-- A step of the server; a process that has ended makes none. -/
def step (J : Codec P V F) (s : Server W V) (a : Action W V P) :
    Option (Server W V × List (Event W V F)) :=
  if s.halted then none else act J s a

/-- The server as a system. -/
def machine (W : Type) {V P F : Type} [DecidableEq W] (J : Codec P V F) :
    Runs.Machine (Server W V) (Action W V P) (Event W V F) where
  init := init W V
  step := step J

end Server

end Headcrab
