/-
# The dispatch table: `headcrab_dispatch.c`

The table is a linked list of object nodes, each with a linked list of handlers, and the
static variable `dispatch_table` points to its first node.  The functions are those of the
source, on a heap with one store for each type of object; `malloc` is taken to succeed.  The
functions of `headcrab.c` that bind, clear and rebind are at the end.

A string that a caller passes is an `Option String`, with `none` for `NULL`; a string that
the table owns is a pointer into the store of strings.
-/
import Headcrab.Lib.Chain
import Headcrab.Lib.Traced

namespace Headcrab

/-- A function of the host program. -/
abbrev Fn : Type := ℕ

/-- A `void *` of the host program, which the library only hands on. -/
abbrev VoidPtr : Type := Option ℕ

inductive HEADCRAB_ERROR
  | HC_SUCCESS
  | HC_FAIL
  | HC_SIZE
deriving DecidableEq, Repr

structure HC_Handler where
  name : Option Ptr
  next : Option Ptr
  pre : Option Fn
  post : Option Fn
  preArgs : VoidPtr
  postArgs : VoidPtr
  op : Option Fn
deriving DecidableEq, Repr

structure HC_ObjectNode where
  name : Option Ptr
  next : Option Ptr
  handler : Option Ptr
  object : VoidPtr
deriving DecidableEq, Repr

instance : Linked HC_Handler where
  next a := a.next
  setNext p a := { a with next := p }
  next_setNext _ _ := rfl
  setNext_setNext _ _ _ := rfl

instance : Linked HC_ObjectNode where
  next a := a.next
  setNext p a := { a with next := p }
  next_setNext _ _ := rfl
  setNext_setNext _ _ _ := rfl

/-- The memory that the table lives in. -/
structure Heap where
  strings : Store String
  /-- The blocks of the strings that are literals of the source. -/
  literals : List ℕ
  nodes : Store HC_ObjectNode
  handlers : Store HC_Handler
  /-- The static variable. -/
  dispatch_table : Option Ptr
deriving DecidableEq, Repr

/-- The arguments of a binding that are stored as they are. -/
structure Binding where
  preOp : Option Fn
  preOpArgs : VoidPtr
  op : Option Fn
  postOp : Option Fn
  postOpArgs : VoidPtr
deriving DecidableEq, Repr

/-- A string that a caller passes is read. -/
def charPtr : Option String → Except Fault String
  | none => .error .nullDeref
  | some s => .ok s

/-- `0 == strcmp(s₁, s₂)`. -/
def strcmp (s₁ s₂ : Except Fault String) : Except Fault Bool := do
  return (← s₁) == (← s₂)

namespace Heap

/-- The memory before `headcrab_init`. -/
def empty : Heap := ⟨.empty, [], .empty, .empty, none⟩

/-- A literal of the source is in a block of its own, which no `malloc` has returned. -/
def literal (h : Heap) (s : String) : Option Ptr × Heap :=
  let (p, strings) := h.strings.malloc s
  (p, { h with strings, literals := h.strings.cells.length :: h.literals })

/-- `free`, given a string. -/
def freeString (h : Heap) (p : Option Ptr) : Except Fault (Store String) :=
  if p.any fun q => q.block ∈ h.literals then .error .badFree else h.strings.free p

def dispatch_table_init (h : Heap) : Heap :=
  let (name, h) := h.literal ""
  let (new_node, nodes) := h.nodes.malloc ⟨name, none, none, none⟩
  { h with nodes, dispatch_table := new_node }

/-- The search that three functions make: the first node with a name, with the node before
it.  A search that takes more steps than there are nodes never ends. -/
def search (h : Heap) (_name : Except Fault String) : Except Fault (Option Ptr × Option Ptr) :=
  h.nodes.walk (fun node => strcmp (h.strings.load node.name) _name)
    (h.nodes.cells.length + 1) none h.dispatch_table

def find_node (h : Heap) (_name : Option String) : Except Fault (Option Ptr) := do
  let (_, node) ← h.search (charPtr _name)
  return node

def add_or_find_node (h : Heap) (_target : VoidPtr) (_name : Option Ptr) :
    Except Fault (Option Ptr × Heap) := do
  let (prev_node, cur_node) ← h.search (h.strings.load _name)
  match cur_node with
  | none =>
    let (new_node, nodes) := h.nodes.malloc ⟨_name, none, none, _target⟩
    let nodes ← nodes.modify prev_node fun node => { node with next := new_node }
    return (new_node, { h with nodes })
  -- a node that is there keeps its object, and `_target` is dropped
  | some _ => return (cur_node, h)

def node_add_handler (h : Heap) (node _verb : Option Ptr) (b : Binding) : Except Fault Heap := do
  let (new_handler, handlers) := h.handlers.malloc
    ⟨_verb, none, b.preOp, b.postOp, b.preOpArgs, b.postOpArgs, b.op⟩
  let first := (← h.nodes.load node).handler
  match first with
  | none =>
    let nodes ← h.nodes.modify node fun node => { node with handler := new_handler }
    return { h with nodes, handlers }
  | some _ =>
    let (_, handler) ← handlers.walk (fun handler => .ok handler.next.isNone)
      (handlers.cells.length + 1) none first
    let handlers ← handlers.modify handler fun handler => { handler with next := new_handler }
    return { h with handlers }

def dispatch_table_add (h : Heap) (_target : VoidPtr) (_name _verb : Option Ptr) (b : Binding) :
    Except Fault Heap := do
  let (node, h) ← h.add_or_find_node _target _name
  h.node_add_handler node _verb b

/-- The loop of `free_node`: `next_handler` moves, `cur_handler` does not. -/
def freeHandlers : ℕ → Heap → Option Ptr → Option Ptr → Except Fault Heap
  | 0, _, _, _ => .error .diverges
  | fuel + 1, h, next_handler, cur_handler =>
    match next_handler with
    | none => return h
    | some _ => do
      let cur ← h.handlers.load cur_handler
      let strings ← h.freeString cur.name
      let handlers ← h.handlers.free cur_handler
      freeHandlers fuel { h with strings, handlers } cur.next cur_handler

def free_node (h : Heap) (_node : Option Ptr) : Except Fault Heap := do
  let first := (← h.nodes.load _node).handler
  let h ← freeHandlers (h.handlers.cells.length + 1) h first first
  let strings ← h.freeString (← h.nodes.load _node).name
  let nodes ← h.nodes.free _node
  return { h with strings, nodes }

def dispatch_table_remove (h : Heap) (_name : Option String) : Except Fault Heap := do
  let (_, cur_node) ← h.search (charPtr _name)
  match cur_node with
  | none => return h
  | some _ =>
    -- the loop of the source never assigns `prev_node`
    let prev_node : Option Ptr := none
    let next := (← h.nodes.load cur_node).next
    let nodes ← h.nodes.modify prev_node fun node => { node with next := next }
    free_node { h with nodes } cur_node

/-- The loop of `dispatch_table_rebind`, which moves the static variable itself, by `++`. -/
def rebindFrom (_name : Option String) (_target : VoidPtr) : ℕ → Heap → Except Fault Heap
  | 0, _ => .error .diverges
  | fuel + 1, h =>
    match h.dispatch_table with
    | none => return h
    | some p => do
      let node ← h.nodes.load (some p)
      if ← strcmp (h.strings.load node.name) (charPtr _name) then
        let nodes ← h.nodes.modify (some p) fun node => { node with object := _target }
        rebindFrom _name _target fuel { h with nodes, dispatch_table := some p.succ }
      else
        rebindFrom _name _target fuel { h with dispatch_table := some p.succ }

def dispatch_table_rebind (h : Heap) (_name : Option String) (_target : VoidPtr) :
    Except Fault Heap :=
  rebindFrom _name _target (h.nodes.cells.length + 1) h

end Heap

/-! ## Executing a command -/

/-- A call of a function of the host program, or its return. -/
inductive HookEvent (A : Type)
  | pre (f : Fn) (args : VoidPtr)
  | op (f : Fn) (object : VoidPtr) (args : A)
  | post (f : Fn) (args : VoidPtr)
  /-- A pre-op or a post-op function returned. -/
  | returned (r : HEADCRAB_ERROR)
deriving DecidableEq, Repr

/-- What the functions of the host program do to the state `σ` they can reach.  `A` is the
type of the arguments that a command carries. -/
structure Hooks (A σ : Type) where
  pre : Fn → VoidPtr → σ → Except Fault (HEADCRAB_ERROR × σ)
  op : Fn → VoidPtr → A → σ → Except Fault σ
  post : Fn → VoidPtr → σ → Except Fault (HEADCRAB_ERROR × σ)

/-- `if (f != NULL) f(args);` -/
def callIfSet {A σ : Type} (event : Fn → VoidPtr → HookEvent A)
    (run : Fn → VoidPtr → σ → Except Fault (HEADCRAB_ERROR × σ)) (f : Option Fn) (args : VoidPtr)
    (s : σ) : Traced (HookEvent A) Fault σ :=
  match f with
  | none => pure s
  | some f => do
    .emit (event f args)
    let (r, s) ← run f args s
    .emit (.returned r)
    return s

namespace Hooks

variable {A σ : Type} (hooks : Hooks A σ)

def callPre (pre : Option Fn) (preArgs : VoidPtr) (s : σ) : Traced (HookEvent A) Fault σ :=
  callIfSet .pre hooks.pre pre preArgs s

/-- `op(object, args);`, which is called even if it is `NULL`. -/
def callOp (op : Option Fn) (object : VoidPtr) (args : A) (s : σ) :
    Traced (HookEvent A) Fault σ :=
  match op with
  | none => .ofExcept (.error .nullCall)
  | some f => do
    .emit (.op f object args)
    hooks.op f object args s

def callPost (post : Option Fn) (postArgs : VoidPtr) (s : σ) : Traced (HookEvent A) Fault σ :=
  callIfSet .post hooks.post post postArgs s

end Hooks

section Execute

variable {A ω : Type} (hooks : Hooks A (Heap × ω))

/-- The hooks of a handler, whose fields are read when they are needed. -/
def runHandler (node handler : Option Ptr) (args : A) (s : Heap × ω) :
    Traced (HookEvent A) Fault (Heap × ω) := do
  let c ← s.1.handlers.load handler
  let s ← hooks.callPre c.pre c.preArgs s
  let c ← s.1.handlers.load handler
  let n ← s.1.nodes.load node
  let s ← hooks.callOp c.op n.object args s
  let c ← s.1.handlers.load handler
  hooks.callPost c.post c.postArgs s

/-- The loop of `dispatch_table_execute`.  A hook may bind, so its length is not known. -/
def executeFrom (node : Option Ptr) (_verb : Option String) (args : A) :
    ℕ → Option Ptr → Heap × ω → Traced (HookEvent A) Fault (Heap × ω)
  | 0, _, _ => .ofExcept (.error .diverges)
  | _ + 1, none, s => pure s
  | fuel + 1, some p, s => do
    let c ← s.1.handlers.load (some p)
    if ← strcmp (s.1.strings.load c.name) (charPtr _verb) then
      let s ← runHandler hooks node (some p) args s
      -- the hooks may have bound a handler behind this one
      let c ← s.1.handlers.load (some p)
      executeFrom node _verb args fuel c.next s
    else
      executeFrom node _verb args fuel c.next s

def dispatch_table_execute (fuel : ℕ) (_target _verb : Option String) (args : A) (s : Heap × ω) :
    Traced (HookEvent A) Fault (Heap × ω) := do
  let node ← s.1.find_node _target
  match node with
  | none => return s
  | some _ =>
    let n ← s.1.nodes.load node
    executeFrom hooks node _verb args fuel n.handler s

end Execute

/-! ## The functions of the interface -/

namespace Heap

def headcrab_bind_object (h : Heap) (_target : VoidPtr) (_name _verb : Option String)
    (b : Binding) : Except Fault Heap :=
  -- null verbs are not allowed
  match _verb with
  | none => return h
  | some verb => do
    let (name, strings) := h.strings.malloc (← charPtr _name)
    let (verb, strings) := strings.malloc verb
    { h with strings }.dispatch_table_add _target name verb b

def headcrab_clear_all_object_bindings (h : Heap) (_name : Option String) :
    Except Fault Heap := do
  if (← charPtr _name) = "" then return h
  h.dispatch_table_remove _name

def headcrab_rebind_object (h : Heap) (_name : Option String) (_object : VoidPtr) :
    Except Fault Heap :=
  h.dispatch_table_rebind _name _object

end Heap

end Headcrab
