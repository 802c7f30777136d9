/-
# The dispatch table in every reachable state

From `headcrab_init` on, the host program binds objects, and commands of clients are
dispatched, whose hooks may bind as well.  Whatever the order of these steps, the memory of
`headcrab_dispatch.c` keeps its shape (`table_invariant`): one linked list of nodes, with the
global name in front and then the names that were bound, each once and in the order of their
first binding, and for every node a linked list of handlers, one for each binding.  So the
search of `add_or_find_node` passes at least one node before it ends, and the node that it
links a new one behind is there.
-/
import Headcrab.AccessBracket

namespace Headcrab

open Store (headPtr)

/-! ## What a history of bindings leaves in the table -/

/-- The name that a call opens a node for, if there is none: a call with a `NULL` verb opens
none. -/
def BindCall.opens (c : BindCall) : Option String := c.verb.map fun _ => c.name

/-- The global name and the names that were bound with a verb, each where it first occurs. -/
def boundNames (cs : List BindCall) : List String := ("" :: cs.filterMap BindCall.opens).eraseDups

/-- The number of calls with a verb. -/
def bindCount (cs : List BindCall) : ℕ := cs.countP fun c => c.verb.isSome

namespace Table

/-- The table after a history of bindings: the global name first, without an object, and then
names that have handlers. -/
structure Grown (cs : List BindCall) (T : Table) : Prop where
  root : ∃ items rest, T = ⟨"", none, items⟩ :: rest ∧ ∀ e ∈ rest, e.items ≠ []
  keys : Registry.keys T = boundNames cs
  nodup : (Registry.keys T).Nodup
  total : Registry.total T = bindCount cs

lemma grown_init : Grown [] init where
  root := ⟨[], [], rfl, by simp⟩
  keys := rfl
  nodup := List.nodup_singleton ""
  total := rfl

/-- One more binding. -/
lemma Grown.bind {cs : List BindCall} {T : Table} (h : Grown cs T) (c : BindCall) :
    Grown (cs ++ [c]) (T.bind c) := by
  have hnames : boundNames (cs ++ [c])
      = (("" :: cs.filterMap BindCall.opens) ++ c.opens.toList).eraseDups := by
    rw [boundNames, List.filterMap_append, List.cons_append]
    rcases hv : c.verb with _ | v <;> simp [BindCall.opens, hv]
  rcases hv : c.verb with _ | v
  · have hsame : T.bind c = T := by rw [Table.bind, hv]
    rw [hsame]
    refine ⟨h.root, ?_, h.nodup, ?_⟩
    · rw [hnames, h.keys]
      simp [BindCall.opens, hv, boundNames]
    · rw [h.total, bindCount, bindCount, List.countP_append]
      simp [hv]
  · have hadd : T.bind c = Registry.add c.name c.target ⟨v, c.binding⟩ T := by rw [Table.bind, hv]
    rw [hadd]
    refine ⟨?_, ?_, Registry.nodup_keys_add h.nodup, ?_⟩
    · obtain ⟨items, rest, rfl, hrest⟩ := h.root
      rw [Registry.add]
      split
      · exact ⟨_, rest, rfl, hrest⟩
      · exact ⟨items, _, rfl, Registry.items_add_ne_nil hrest⟩
    · rw [hnames, Registry.keys_add_of_eraseDups h.keys]
      simp [BindCall.opens, hv]
    · rw [Registry.total_add, h.total, bindCount, bindCount, List.countP_append]
      simp [hv]

lemma grown_bindAll (cs : List BindCall) : Grown cs (init.bindAll cs) := by
  have hmore : ∀ (cs' cs : List BindCall) (T : Table), Grown cs T →
      Grown (cs ++ cs') (T.bindAll cs') := by
    intro cs'
    induction cs' with
    | nil => simp
    | cons c cs' ih =>
      intro cs T hT
      rw [List.append_cons]
      exact ih _ _ (hT.bind c)
  simpa using hmore cs [] init grown_init

end Table

/-! ## The reachable states -/

/-- The call of `headcrab_bind_object` with the given arguments, if it has a name.  A call
without a name binds nothing: it returns at once or reads through `NULL`. -/
def callOf (target : VoidPtr) (name verb : Option String) (b : Binding) : List BindCall :=
  (name.map fun t => ⟨target, t, verb, b⟩).toList

/-- The memories that are reached from `headcrab_init` on, each with the calls of
`headcrab_bind_object` that led to it, of the host program and of its hooks.  While a message
is dispatched, the memory is reached by the calls that its hooks have made so far. -/
inductive Reached : List BindCall → Heap → Prop
  | init : Reached [] Heap.booted
  /-- The host program calls `headcrab_bind_object`. -/
  | bind {cs : List BindCall} {h h' : Heap} (target : VoidPtr) (name verb : Option String)
      (b : Binding) : Reached cs h → h.headcrab_bind_object target name verb b = .ok h' →
      Reached (cs ++ callOf target name verb b) h'
  /-- A message is dispatched, and its hooks return.  They may bind. -/
  | dispatch {cs : List BindCall} {h : Heap} {ω : Type} (hooks : BindingHooks (Option Json) ω)
      (fuel : ℕ) (message : Json) (e : ω)
      {d : Traced (HookEvent (Option Json)) Fault (Heap × ω)} {s : Heap × ω} : Reached cs h →
      dispatch hooks.onHeap fuel message (h, e) = d → d.result = .ok s →
      Reached (cs ++ (hooks.replay d.trace e).1) s.1

/-- A reachable memory is what its bindings leave. -/
lemma Reached.bindAll {cs : List BindCall} {h : Heap} (hr : Reached cs h) :
    Heap.booted.bindAll cs = .ok h := by
  induction hr with
  | init => rfl
  | @bind cs h h' target name verb b _ hbind ih =>
    rcases name with _ | t
    · -- without a name, the call has returned only if it has no verb either
      rcases verb with _ | v
      · obtain rfl := Except.ok.inj hbind
        rwa [callOf, Option.map_none, Option.toList_none, List.append_nil]
      · exact absurd hbind (by simp [Heap.headcrab_bind_object, charPtr, Bind.bind, Except.bind])
    · rw [Heap.bindAll_append ih, callOf, Option.map_some, Option.toList_some, Heap.bindAll,
        List.foldlM_cons, Heap.bindCall, hbind]
      rfl
  | dispatch hooks fuel message e _ hd hok ih => exact (bindAll_of_dispatch ih hd hok).1

/-! ## The invariant -/

/-- The representation invariant, with the nodes that the memory holds. -/
structure WellFormed (cs : List BindCall) (h : Heap) (root : NodeAt) (L : List NodeAt) : Prop where
  /-- The node list goes through the blocks of the nodes, which are distinct, and ends with
  `NULL`; so does the handler list of every node, and no two of them share a block. -/
  rep : Rep h (root :: L)
  root_name : root.name = ""
  root_object : root.object = none
  names : (root :: L).map NodeAt.name = boundNames cs
  names_nodup : ((root :: L).map NodeAt.name).Nodup
  handled : ∀ n ∈ L, n.handlers ≠ []
  total : ((root :: L).map fun n => n.handlers.length).sum = bindCount cs

/-- Whatever strings there are, a search that finds no node has a node to link a new one
behind. -/
def PrevNodeSet (h : Heap) : Prop :=
  ∀ (strings : Store String) (p prev : Option Ptr),
    Heap.search { h with strings := strings } (strings.load p) = .ok (prev, none) → prev ≠ none

/-- The nodes of a memory that represents a table of bindings. -/
lemma Table.Grown.wellFormed {cs : List BindCall} {h : Heap} {L : List NodeAt} (hr : Rep h L)
    (hT : Grown cs (tableOf L)) : ∃ root L', WellFormed cs h root L' := by
  obtain ⟨items, rest, hroot, hrest⟩ := hT.root
  rcases L with _ | ⟨root, L'⟩
  · exact absurd rfl hr.ne_nil
  · rw [tableOf, List.map_cons, List.cons.injEq] at hroot
    obtain ⟨hentry, rfl⟩ := hroot
    rw [NodeAt.entry, Entry.mk.injEq] at hentry
    refine ⟨root, L', hr, hentry.1, hentry.2.1, ?_, ?_, ?_, ?_⟩
    · rw [← keys_tableOf, hT.keys]
    · rw [← keys_tableOf]
      exact hT.nodup
    · intro n hn
      simpa [NodeAt.entry] using hrest n.entry (List.mem_map_of_mem hn)
    · rw [← hT.total, Registry.total, List.length_flatMap, tableOf, List.map_map]
      congr 1
      refine List.map_congr_left fun n _ => ?_
      simp [NodeAt.entry]

/-- **The representation invariant of the dispatch table** holds in every reachable state,
with the calls of `headcrab_bind_object` that led there.  So `add_or_find_node` never follows
a `prev_node` that is `NULL`, and the next binding succeeds. -/
theorem table_invariant {cs : List BindCall} {h : Heap} (hr : Reached cs h) :
    (∃ root L, WellFormed cs h root L) ∧ PrevNodeSet h ∧
      ∀ c : BindCall, ∃ h', h.bindCall c = .ok h' := by
  obtain ⟨h₁, hall, L, hrep, htable⟩ := bindAll_booted cs
  rw [hr.bindAll] at hall
  obtain rfl := Except.ok.inj hall
  have hgrown := Table.grown_bindAll cs
  rw [← htable] at hgrown
  refine ⟨hgrown.wellFormed hrep, fun strings p prev hsearch => ?_, fun c => ?_⟩
  · refine Store.walk_prev_ne_none (Or.inr ?_) hsearch
    show h.dispatch_table ≠ none
    rw [hrep.head]
    obtain ⟨n, L', rfl⟩ := List.exists_cons_of_ne_nil hrep.ne_nil
    exact Ptr.ofBlock_ne_none _
  · obtain ⟨h', L', hbind, -⟩ := hrep.bindCall c
    exact ⟨h', hbind⟩

/-- Hooks of which every mutator binds `leave` to the name of another object. -/
def BindingHooks.joining : BindingHooks (Option Json) Unit where
  pre _ _ e := (.HC_SUCCESS, [], e)
  op _ _ _ e := ([⟨some 2, "swarm", some "leave", ⟨none, none, some 20, none, none⟩⟩], e)
  post _ _ e := (.HC_SUCCESS, [], e)

/-- A call without a verb, a call with one, and a command whose mutator binds. -/
theorem joining_table_invariant : ∃ cs h, Reached cs h ∧
    boundNames cs = ["", "flock", "swarm"] ∧ bindCount cs = 2 ∧
    (∃ root L, WellFormed cs h root L) ∧ PrevNodeSet h ∧
      ∀ c : BindCall, ∃ h', h.bindCall c = .ok h' := by
  have hnull : Reached _ _ := .bind (some 3) (some "herd") none getall.binding .init rfl
  have hbind : Reached _ _ :=
    .bind getall.target (some getall.name) getall.verb getall.binding hnull rfl
  have hdispatch : Reached _ _ :=
    .dispatch BindingHooks.joining 2 (getallCommand 0) () hbind rfl rfl
  exact ⟨_, _, hdispatch, by decide, by decide, table_invariant hdispatch⟩

end Headcrab
