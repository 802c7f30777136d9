/-
# What the dispatch table is for

The dispatch table says which functions of the host program a command runs.  A call of
`headcrab_bind_object` adds a handler for a verb to a name; a name has one object, the one it
was first bound with, and the global name, which is empty, has none.  A command runs the
handlers of its target that are bound to its verb, in the order in which they were bound.

This file is that purpose, on registries instead of memory.
-/
import Headcrab.Lib.Registry
import Headcrab.Dispatch

namespace Headcrab

/-- A call of `headcrab_bind_object` with a name that is not `NULL`. -/
structure BindCall where
  target : VoidPtr
  name : String
  verb : Option String
  binding : Binding
deriving DecidableEq, Repr

/-- A binding of a verb of `ball`. -/
def bindBall (v : String) : BindCall := ⟨some 1, "ball", some v, ⟨none, none, some 11, none, none⟩⟩

/-- What is bound to a verb of a name. -/
structure Handler where
  verb : String
  binding : Binding
deriving DecidableEq, Repr

/-- The handlers of every name, with its object. -/
abbrev Table : Type := Registry String VoidPtr Handler

namespace Table

/-- The table with the global name only. -/
def init : Table := [⟨"", none, []⟩]

/-- A call with a `NULL` verb binds nothing. -/
def bind (T : Table) (c : BindCall) : Table :=
  match c.verb with
  | none => T
  | some v => Registry.add c.name c.target ⟨v, c.binding⟩ T

def bindAll (T : Table) (cs : List BindCall) : Table := cs.foldl bind T

/-- The object of a name. -/
def objectOf (T : Table) (t : String) : VoidPtr := (Registry.ownerOf T t).join

@[simp] lemma bindAll_nil (T : Table) : T.bindAll [] = T := rfl

@[simp] lemma bindAll_cons (T : Table) (c : BindCall) (cs : List BindCall) :
    T.bindAll (c :: cs) = (T.bind c).bindAll cs := rfl

lemma bindAll_append (T : Table) (cs cs' : List BindCall) :
    T.bindAll (cs ++ cs') = (T.bindAll cs).bindAll cs' :=
  List.foldl_append

end Table

/-! ## What a history of bindings leaves -/

/-- The handler that a call adds to a name, if it does. -/
def BindCall.handlerFor (t : String) (c : BindCall) : Option Handler :=
  if c.name = t then c.verb.map fun v => ⟨v, c.binding⟩ else none

namespace Table

/-- A binding adds its handler behind those of its name, and changes no other name. -/
lemma itemsOf_bind (T : Table) (c : BindCall) (t : String) :
    Registry.itemsOf (T.bind c) t = Registry.itemsOf T t ++ (c.handlerFor t).toList := by
  rcases hv : c.verb with _ | v
  · simp [bind, BindCall.handlerFor, hv]
  · by_cases ht : c.name = t
    · subst ht
      simp [bind, BindCall.handlerFor, hv, Registry.itemsOf_add_self]
    · simp [bind, BindCall.handlerFor, hv, Registry.itemsOf_add_of_ne (Ne.symm ht), ht]

lemma itemsOf_bindAll (T : Table) (cs : List BindCall) (t : String) :
    Registry.itemsOf (T.bindAll cs) t
      = Registry.itemsOf T t ++ cs.filterMap (BindCall.handlerFor t) := by
  induction cs generalizing T with
  | nil => simp
  | cons c cs ih =>
    rw [bindAll_cons, ih, itemsOf_bind, List.append_assoc, List.filterMap_cons]
    cases c.handlerFor t <;> rfl

/-- A name that has an owner keeps it. -/
lemma ownerOf_bind {T : Table} {t : String} {o : VoidPtr} (h : Registry.ownerOf T t = some o)
    (c : BindCall) : Registry.ownerOf (T.bind c) t = some o := by
  rcases hv : c.verb with _ | v
  · simpa [bind, hv] using h
  · by_cases ht : t = c.name
    · subst ht
      simp [bind, hv, Registry.ownerOf_add_self, h]
    · simpa [bind, hv, Registry.ownerOf_add_of_ne ht] using h

lemma ownerOf_bindAll {T : Table} {t : String} {o : VoidPtr} (h : Registry.ownerOf T t = some o)
    (cs : List BindCall) : Registry.ownerOf (T.bindAll cs) t = some o := by
  induction cs generalizing T with
  | nil => exact h
  | cons c cs ih => exact ih (ownerOf_bind h c)

/-- The bindings of a name that have a verb. -/
def BindsName (t : String) (c : BindCall) : Prop := c.name = t ∧ c.verb ≠ none

instance (t : String) (c : BindCall) : Decidable (BindsName t c) :=
  inferInstanceAs (Decidable (_ ∧ _))

lemma bind_of_not_bindsName {T : Table} {t : String} {c : BindCall} (h : ¬ BindsName t c) :
    Registry.ownerOf (T.bind c) t = Registry.ownerOf T t := by
  rcases hv : c.verb with _ | v
  · simp [bind, hv]
  · have ht : t ≠ c.name := by
      rintro rfl
      exact h ⟨rfl, by simp [hv]⟩
    simp [bind, hv, Registry.ownerOf_add_of_ne ht]

/-- A new name is given the target of the first call that binds it. -/
lemma ownerOf_bindAll_of_none {T : Table} {t : String} (h : Registry.ownerOf T t = none)
    (cs : List BindCall) :
    Registry.ownerOf (T.bindAll cs) t = (cs.find? fun c => BindsName t c).map BindCall.target := by
  induction cs generalizing T with
  | nil => simpa using h
  | cons c cs ih =>
    by_cases hc : BindsName t c
    · obtain ⟨rfl, hverb⟩ := hc
      obtain ⟨v, hv⟩ := Option.ne_none_iff_exists'.mp hverb
      have howner : Registry.ownerOf (T.bind c) c.name = some c.target := by
        simp [bind, hv, Registry.ownerOf_add_self, h]
      rw [bindAll_cons, ownerOf_bindAll howner]
      simp [BindsName, hv]
    · rw [bindAll_cons, ih (by rw [bind_of_not_bindsName hc, h])]
      simp [hc]

end Table

/-- The object of a name after a history of bindings: none for the global name, and for any
other name the target it was first bound with. -/
def boundObject (cs : List BindCall) (t : String) : VoidPtr :=
  if t = "" then none else (cs.find? fun c => Table.BindsName t c).bind BindCall.target

/-- The handlers that a history of bindings leaves for a name and a verb. -/
def boundTo (cs : List BindCall) (t v : String) : List BindCall :=
  cs.filter fun c => c.name = t ∧ c.verb = some v

lemma objectOf_bindAll_init (cs : List BindCall) (t : String) :
    (Table.init.bindAll cs).objectOf t = boundObject cs t := by
  by_cases ht : t = ""
  · subst ht
    have hroot : Registry.ownerOf Table.init "" = some none := rfl
    rw [Table.objectOf, Table.ownerOf_bindAll hroot, boundObject, if_pos rfl]
    rfl
  · have hnone : Registry.ownerOf Table.init t = none := by
      simp [Registry.ownerOf, Registry.entry, Table.init, Ne.symm ht]
    rw [Table.objectOf, Table.ownerOf_bindAll_of_none hnone, boundObject, if_neg ht]
    cases cs.find? fun c => decide (Table.BindsName t c) <;> rfl

/-- No name has a handler at first. -/
lemma Table.itemsOf_init (t : String) : Registry.itemsOf Table.init t = [] := by
  by_cases ht : "" = t <;> simp [Registry.itemsOf, Registry.entry, Table.init, ht]

lemma handlers_bindAll_init (cs : List BindCall) (t v : String) :
    ((Registry.itemsOf (Table.init.bindAll cs) t).filter fun c => c.verb = v)
      = (boundTo cs t v).map fun c => ⟨v, c.binding⟩ := by
  rw [Table.itemsOf_bindAll, Table.itemsOf_init, List.nil_append]
  induction cs with
  | nil => rfl
  | cons c cs ih =>
    rw [boundTo] at ih ⊢
    rw [List.filterMap_cons, List.filter_cons]
    by_cases ht : c.name = t
    · rcases hv : c.verb with _ | v'
      · simpa [BindCall.handlerFor, ht, hv] using ih
      · by_cases hvv : v' = v
        · subst hvv
          simpa [BindCall.handlerFor, ht, hv] using ih
        · simpa [BindCall.handlerFor, ht, hv, hvv] using ih
    · simpa [BindCall.handlerFor, ht] using ih

/-! ## Executing a command on a table -/

section Execute

variable {A ω : Type} (hooks : Hooks A (Table × ω))

/-- The hooks of a handler: `pre`, then `op` on the object of the target, then `post`. -/
def Table.runHandler (t : String) (b : Binding) (args : A) (s : Table × ω) :
    Traced (HookEvent A) Fault (Table × ω) := do
  let s ← hooks.callPre b.preOp b.preOpArgs s
  let s ← hooks.callOp b.op (s.1.objectOf t) args s
  hooks.callPost b.postOp b.postOpArgs s

/-- The handlers of the target from a given one on. -/
def Table.executeFrom (t v : String) (args : A) :
    ℕ → ℕ → Table × ω → Traced (HookEvent A) Fault (Table × ω)
  | 0, _, _ => .ofExcept (.error .diverges)
  | fuel + 1, i, s =>
    match (Registry.itemsOf s.1 t)[i]? with
    | none => pure s
    | some c =>
      if c.verb = v then do
        let s ← Table.runHandler hooks t c.binding args s
        Table.executeFrom t v args fuel (i + 1) s
      else
        Table.executeFrom t v args fuel (i + 1) s

def Table.execute (fuel : ℕ) (t v : String) (args : A) (s : Table × ω) :
    Traced (HookEvent A) Fault (Table × ω) :=
  match Registry.entry s.1 t with
  | none => pure s
  | some _ => Table.executeFrom hooks t v args fuel 0 s

end Execute

/-! ## Hooks that bind -/

/-- Functions of the host program that return, and that call no other function of the
interface than `headcrab_bind_object`; `ω` is the state of the host program. -/
structure BindingHooks (A ω : Type) where
  pre : Fn → VoidPtr → ω → HEADCRAB_ERROR × List BindCall × ω
  op : Fn → VoidPtr → A → ω → List BindCall × ω
  post : Fn → VoidPtr → ω → HEADCRAB_ERROR × List BindCall × ω

namespace BindingHooks

variable {A ω : Type} (hooks : BindingHooks A ω)

/-- The hooks call no function of the interface. -/
structure Quiet : Prop where
  pre : ∀ f a e, (hooks.pre f a e).2.1 = []
  op : ∀ f o a e, (hooks.op f o a e).1 = []
  post : ∀ f a e, (hooks.post f a e).2.1 = []

/-- The hooks on a table. -/
def onTable : Hooks A (Table × ω) where
  pre f a s := .ok ((hooks.pre f a s.2).1, (s.1.bindAll (hooks.pre f a s.2).2.1,
    (hooks.pre f a s.2).2.2))
  op f o a s := .ok (s.1.bindAll (hooks.op f o a s.2).1, (hooks.op f o a s.2).2)
  post f a s := .ok ((hooks.post f a s.2).1, (s.1.bindAll (hooks.post f a s.2).2.1,
    (hooks.post f a s.2).2.2))

end BindingHooks

end Headcrab
