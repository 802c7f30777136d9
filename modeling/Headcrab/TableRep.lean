/-
# The table in memory

The memory of `headcrab_dispatch.c` represents a table: the node list and the handler lists
are linked lists that share no block, and every name and verb is a string in memory.  The
functions of the source that look up and bind are shown to do on that memory what the table
says: `Rep.find_node`, `Rep.node_add_handler`, `Rep.add_or_find_node`, `Rep.bind`.
-/
import Headcrab.Table

namespace Headcrab

open Store (headPtr lastPtr)

/-- A handler with the blocks that hold it and its verb. -/
structure HandlerAt where
  block : ℕ
  nameBlock : ℕ
  handler : Handler

/-- A node with the blocks that hold it and its name. -/
structure NodeAt where
  block : ℕ
  nameBlock : ℕ
  name : String
  object : VoidPtr
  handlers : List HandlerAt

def HandlerAt.cell (c : HandlerAt) : ℕ × HC_Handler :=
  (c.block, ⟨Ptr.ofBlock c.nameBlock, none, c.handler.binding.preOp, c.handler.binding.postOp,
    c.handler.binding.preOpArgs, c.handler.binding.postOpArgs, c.handler.binding.op⟩)

namespace NodeAt

def cells (n : NodeAt) : List (ℕ × HC_Handler) := n.handlers.map HandlerAt.cell

def cell (n : NodeAt) : ℕ × HC_ObjectNode :=
  (n.block, ⟨Ptr.ofBlock n.nameBlock, none, headPtr n.cells, n.object⟩)

def entry (n : NodeAt) : Entry String VoidPtr Handler :=
  ⟨n.name, n.object, n.handlers.map HandlerAt.handler⟩

/-- The node with one more handler. -/
def snoc (n : NodeAt) (c : HandlerAt) : NodeAt := { n with handlers := n.handlers ++ [c] }

@[simp] lemma snoc_block (n : NodeAt) (c : HandlerAt) : (n.snoc c).block = n.block := rfl

@[simp] lemma snoc_name (n : NodeAt) (c : HandlerAt) : (n.snoc c).name = n.name := rfl

@[simp] lemma fst_cell (n : NodeAt) : n.cell.1 = n.block := rfl

end NodeAt

/-- The table that a layout of nodes holds. -/
def tableOf (L : List NodeAt) : Table := L.map NodeAt.entry

/-- The first node with a name. -/
def nodeOf (L : List NodeAt) (t : String) : Option NodeAt := L.find? fun n => n.name = t

/-- The memory holds the nodes of a layout. -/
structure Rep (h : Heap) (L : List NodeAt) : Prop where
  head : h.dispatch_table = headPtr (L.map NodeAt.cell)
  nodes : h.nodes.Chain (L.map NodeAt.cell)
  nodup : ((L.map NodeAt.cell).map Prod.fst).Nodup
  names : ∀ n ∈ L, h.strings.Live n.nameBlock n.name
  handlers : h.handlers.Chains (L.map NodeAt.cells)
  verbs : ∀ n ∈ L, ∀ c ∈ n.handlers, h.strings.Live c.nameBlock c.handler.verb
  ne_nil : L ≠ []

/-- The memory represents a table. -/
def Heap.Represents (h : Heap) (T : Table) : Prop := ∃ L, Rep h L ∧ tableOf L = T

/-- The layout after `dispatch_table_init`. -/
def rootAt : NodeAt := ⟨0, 0, "", none, []⟩

/-- The memory after `dispatch_table_init`. -/
def Heap.booted : Heap := Heap.empty.dispatch_table_init

lemma rep_booted : Rep Heap.booted [rootAt] where
  head := rfl
  nodes := ⟨rfl, trivial⟩
  nodup := by simp
  names := by
    intro n hn
    rw [List.mem_singleton] at hn
    subst hn
    rfl
  handlers := ⟨by simp [rootAt, NodeAt.cells, Store.Chain], by simp [rootAt, NodeAt.cells]⟩
  verbs := by simp [rootAt]
  ne_nil := by simp

lemma nodeOf_eq_some {L : List NodeAt} {t : String} {n : NodeAt} (h : nodeOf L t = some n) :
    n.name = t ∧ ∃ L₁ L₂, L = L₁ ++ n :: L₂ ∧ ∀ m ∈ L₁, m.name ≠ t := by
  obtain ⟨hn, L₁, L₂, hL, hL₁⟩ := List.find?_eq_some_iff_append.mp h
  exact ⟨by simpa using hn, L₁, L₂, hL, by simpa using hL₁⟩

lemma nodeOf_eq_none {L : List NodeAt} {t : String} (h : nodeOf L t = none) :
    ∀ m ∈ L, m.name ≠ t := by
  simpa [nodeOf] using h

lemma entry_tableOf (L : List NodeAt) (t : String) :
    Registry.entry (tableOf L) t = (nodeOf L t).map NodeAt.entry := by
  rw [Registry.entry, tableOf, List.find?_map, nodeOf]
  rfl

lemma keys_tableOf (L : List NodeAt) : Registry.keys (tableOf L) = L.map NodeAt.name := by
  simp [Registry.keys, tableOf, NodeAt.entry]

/-- A name that no node of a layout has is no key of its table. -/
lemma notMem_keys {L : List NodeAt} {t : String} (h : ∀ m ∈ L, m.name ≠ t) :
    t ∉ Registry.keys (tableOf L) := by
  rw [keys_tableOf]
  intro hmem
  obtain ⟨m, hm, hmt⟩ := List.mem_map.mp hmem
  exact h m hm hmt

/-- One more handler for the first node with a name is an addition to the table. -/
lemma tableOf_snoc {L₁ L₂ : List NodeAt} {n : NodeAt} {t : String} (hn : n.name = t)
    (hL₁ : ∀ m ∈ L₁, m.name ≠ t) (o : VoidPtr) (c : HandlerAt) :
    tableOf (L₁ ++ n.snoc c :: L₂) = Registry.add t o c.handler (tableOf (L₁ ++ n :: L₂)) := by
  have hsplit : ∀ m, tableOf (L₁ ++ m :: L₂) = tableOf L₁ ++ m.entry :: tableOf L₂ := by
    intro m
    simp [tableOf]
  rw [hsplit, hsplit, Registry.add_of_split hn (notMem_keys hL₁)]
  simp [NodeAt.entry, NodeAt.snoc, hn]

namespace Rep

variable {h : Heap} {L L₁ L₂ : List NodeAt} {t : String}

/-! ## Looking up -/

lemma live_node {n : NodeAt} (hr : Rep h (L₁ ++ n :: L₂)) :
    h.nodes.Live n.block (Linked.setNext (headPtr (L₂.map NodeAt.cell)) n.cell.2) := by
  have hchain := hr.nodes
  rw [List.map_append, List.map_cons] at hchain
  exact hchain.live

lemma length_le (hr : Rep h L) : L.length ≤ h.nodes.cells.length := by
  simpa using hr.nodes.length_le hr.nodup

/-- The comparison of the name of a node. -/
lemma strcmp_name (hr : Rep h L) {n : NodeAt} (hn : n ∈ L) (p : Option Ptr) (t : String) :
    strcmp (h.strings.load (Linked.setNext p n.cell.2).name) (.ok t) = .ok (n.name == t) := by
  have hload : h.strings.load (Linked.setNext p n.cell.2).name = .ok n.name :=
    (hr.names n hn).load
  rw [hload]
  rfl

/-- The search stops at the first node with the name. -/
lemma search_found (hr : Rep h L) {n : NodeAt} (hn : nodeOf L t = some n) :
    ∃ p, h.search (.ok t) = .ok (p, Ptr.ofBlock n.block) := by
  obtain ⟨hname, L₁, L₂, rfl, hL₁⟩ := nodeOf_eq_some hn
  refine ⟨lastPtr none (L₁.map NodeAt.cell), ?_⟩
  have hlen := hr.length_le
  have hchain := hr.nodes
  rw [List.map_append, List.map_cons] at hchain
  rw [Heap.search, hr.head, List.map_append, List.map_cons]
  refine hchain.walk_found ?_ ?_ ?_ _
  · intro x hx p _
    obtain ⟨m, hm, rfl⟩ := List.mem_map.mp hx
    rw [hr.strcmp_name (by simp [hm])]
    simpa using hL₁ m hm
  · exact (hr.strcmp_name (n := n) (by simp) _ t).trans (by simpa using hname)
  · simp only [List.length_append, List.length_cons] at hlen
    simp only [List.length_map]
    omega

/-- The search for a name that no node has ends behind the last node. -/
lemma search_none (hr : Rep h L) (hn : nodeOf L t = none) :
    h.search (.ok t) = .ok (lastPtr none (L.map NodeAt.cell), none) := by
  have hlen := hr.length_le
  rw [Heap.search, hr.head]
  refine hr.nodes.walk_none ?_ ?_ _
  · intro x hx p
    obtain ⟨m, hm, rfl⟩ := List.mem_map.mp hx
    rw [hr.strcmp_name hm]
    simpa using nodeOf_eq_none hn m hm
  · simp only [List.length_map]
    omega

/-- **`find_node` returns the first node with the name.** -/
theorem find_node (hr : Rep h L) (t : String) :
    h.find_node (some t) = .ok ((nodeOf L t).bind fun n => Ptr.ofBlock n.block) := by
  rcases hn : nodeOf L t with _ | n
  · have hsearch := hr.search_none hn
    simp [Heap.find_node, charPtr, hsearch, bind, Except.bind, pure, Except.pure]
  · obtain ⟨p, hsearch⟩ := hr.search_found hn
    simp [Heap.find_node, charPtr, hsearch, bind, Except.bind, pure, Except.pure]

/-! ## Adding -/

/-- A new string changes nothing in the table. -/
lemma malloc_string (hr : Rep h L) (s : String) :
    Rep { h with strings := (h.strings.malloc s).2 } L where
  head := hr.head
  nodes := hr.nodes
  nodup := hr.nodup
  names n hn := (hr.names n hn).malloc s
  handlers := hr.handlers
  verbs n hn c hc := (hr.verbs n hn c hc).malloc s
  ne_nil := hr.ne_nil

/-- The strings of the table are in memory after a node got one more handler. -/
lemma strings_snoc {n : NodeAt} {c : HandlerAt} (hr : Rep h (L₁ ++ n :: L₂))
    (hc : h.strings.Live c.nameBlock c.handler.verb) :
    ∀ m ∈ L₁ ++ n.snoc c :: L₂, h.strings.Live m.nameBlock m.name ∧
      ∀ d ∈ m.handlers, h.strings.Live d.nameBlock d.handler.verb := by
  intro m hm
  have hold : ∀ m ∈ L₁ ++ n :: L₂, h.strings.Live m.nameBlock m.name ∧
      ∀ d ∈ m.handlers, h.strings.Live d.nameBlock d.handler.verb :=
    fun m hm => ⟨hr.names m hm, hr.verbs m hm⟩
  simp only [List.mem_append, List.mem_cons] at hm
  rcases hm with hm | rfl | hm
  · exact hold m (by simp [hm])
  · refine ⟨hr.names n (by simp), fun d hd => ?_⟩
    simp only [NodeAt.snoc, List.mem_append, List.mem_singleton] at hd
    rcases hd with hd | rfl
    · exact hr.verbs n (by simp) d hd
    · exact hc
  · exact hold m (by simp [hm])

/-- The handler that `node_add_handler` allocates. -/
def newHandler (h : Heap) (vb : ℕ) (c : Handler) : HandlerAt := ⟨h.handlers.cells.length, vb, c⟩

/-- What `node_add_handler` writes into the new block. -/
lemma newHandler_cell (h : Heap) (vb : ℕ) (c : Handler) :
    (⟨Ptr.ofBlock vb, none, c.binding.preOp, c.binding.postOp, c.binding.preOpArgs,
      c.binding.postOpArgs, c.binding.op⟩ : HC_Handler)
      = Linked.setNext none (newHandler h vb c).cell.2 := rfl

/-- The first handler of a node is known to the node. -/
lemma add_first_handler {n : NodeAt} {vb : ℕ} {c : Handler} (hr : Rep h (L₁ ++ n :: L₂))
    (hverb : h.strings.Live vb c.verb) (hnil : n.cells = []) :
    ∃ h', h.node_add_handler (Ptr.ofBlock n.block) (Ptr.ofBlock vb) c.binding = .ok h' ∧
      Rep h' (L₁ ++ n.snoc (newHandler h vb c) :: L₂) := by
  have hnode := hr.live_node
  have hchains := hr.handlers
  have hnodes := hr.nodes
  have hnodup := hr.nodup
  rw [List.map_append, List.map_cons] at hchains hnodes hnodup
  rw [hnil] at hchains
  have hcells : (n.snoc (newHandler h vb c)).cells = [(newHandler h vb c).cell] := by
    have : n.handlers = [] := by simpa [NodeAt.cells] using hnil
    simp [NodeAt.snoc, NodeAt.cells, this]
  have hcell : (n.snoc (newHandler h vb c)).cell.2
      = { n.cell.2 with handler := Ptr.ofBlock h.handlers.cells.length } := by
    rw [NodeAt.cell, hcells]
    rfl
  have hfirst : (Linked.setNext (headPtr (L₂.map NodeAt.cell)) n.cell.2).handler = none := by
    show headPtr n.cells = none
    rw [hnil]
    rfl
  refine ⟨⟨h.strings, h.literals,
    h.nodes.put n.block (Linked.setNext (headPtr (L₂.map NodeAt.cell))
      (n.snoc (newHandler h vb c)).cell.2),
    (h.handlers.malloc (Linked.setNext none (newHandler h vb c).cell.2)).2,
    h.dispatch_table⟩, ?_, ?_⟩
  · rw [Heap.node_add_handler, hnode.load]
    simp only [bind, Except.bind, hfirst, hnode.modify]
    rw [hcell]
    rfl
  · have hstrings := hr.strings_snoc (c := newHandler h vb c) hverb
    refine ⟨?_, ?_, ?_, fun m hm => (hstrings m hm).1, ?_, fun m hm => (hstrings m hm).2, ?_⟩
    · show h.dispatch_table = _
      rw [hr.head, List.map_append, List.map_append]
      cases L₁ <;> rfl
    · rw [List.map_append, List.map_cons]
      exact hnodes.put hnodup _
    · rw [List.map_append, List.map_cons]
      simpa using hnodup
    · rw [List.map_append, List.map_cons, hcells]
      exact hchains.single _
    · simp

/-- Any other handler is linked to the one before it, and the node stays as it is. -/
lemma add_next_handler {n : NodeAt} {vb : ℕ} {c : Handler} (hr : Rep h (L₁ ++ n :: L₂))
    (hverb : h.strings.Live vb c.verb) {cs : List (ℕ × HC_Handler)} {last : ℕ × HC_Handler}
    (hcs : n.cells = cs ++ [last]) :
    ∃ h', h.node_add_handler (Ptr.ofBlock n.block) (Ptr.ofBlock vb) c.binding = .ok h' ∧
      Rep h' (L₁ ++ n.snoc (newHandler h vb c) :: L₂) := by
  obtain ⟨b, a⟩ := last
  have hnode := hr.live_node
  have hchains := hr.handlers
  rw [List.map_append, List.map_cons, hcs] at hchains
  have hcells : (n.snoc (newHandler h vb c)).cells
      = cs ++ [(b, a)] ++ [(newHandler h vb c).cell] := by
    rw [← hcs]
    simp [NodeAt.snoc, NodeAt.cells]
  have hhead : headPtr (cs ++ [(b, a)] ++ [(newHandler h vb c).cell])
      = headPtr (cs ++ [(b, a)]) := by
    cases cs <;> rfl
  have hcell : (n.snoc (newHandler h vb c)).cell = n.cell := by
    rw [NodeAt.cell, NodeAt.cell, hcells, hcs, hhead]
    rfl
  have hfirst : (Linked.setNext (headPtr (L₂.map NodeAt.cell)) n.cell.2).handler
      = headPtr (cs ++ [(b, a)]) := by
    show headPtr n.cells = _
    rw [hcs]
  -- the walk to the last handler, in the store with the new handler in it
  have hchain : h.handlers.Chain (cs ++ [(b, a)]) := hchains.chain _ (by simp)
  have hnew := hchain.malloc (Linked.setNext none (newHandler h vb c).cell.2)
  have hlen : cs.length < (h.handlers.malloc
      (Linked.setNext none (newHandler h vb c).cell.2)).2.cells.length + 1 := by
    have hle := hnew.length_le (hchains.nodup_of_mem (by simp))
    simp only [List.length_append, List.length_singleton] at hle
    omega
  have hwalk : Store.walk _ (fun handler : HC_Handler => .ok handler.next.isNone) _ none _ = _ :=
    hnew.walk_last hlen none
  obtain ⟨q, hq⟩ : ∃ q, headPtr (cs ++ [(b, a)]) = some q := by
    cases cs <;> exact ⟨_, rfl⟩
  refine ⟨⟨h.strings, h.literals, h.nodes,
    (h.handlers.malloc (Linked.setNext none (newHandler h vb c).cell.2)).2.put b
      (Linked.setNext (Ptr.ofBlock h.handlers.cells.length) a),
    h.dispatch_table⟩, ?_, ?_⟩
  · rw [hq] at hfirst hwalk
    rw [Heap.node_add_handler, newHandler_cell h vb c, hnode.load]
    simp only [bind, Except.bind, hfirst, hwalk, hnew.live.modify]
    rfl
  · have hstrings := hr.strings_snoc (c := newHandler h vb c) hverb
    have hsame : (L₁ ++ n.snoc (newHandler h vb c) :: L₂).map NodeAt.cell
        = (L₁ ++ n :: L₂).map NodeAt.cell := by
      simp [hcell]
    refine ⟨?_, ?_, ?_, fun m hm => (hstrings m hm).1, ?_, fun m hm => (hstrings m hm).2, ?_⟩
    · rw [hsame]
      exact hr.head
    · rw [hsame]
      exact hr.nodes
    · rw [hsame]
      exact hr.nodup
    · rw [List.map_append, List.map_cons, hcells]
      exact hchains.snoc _
    · simp

/-- **`node_add_handler` links a handler behind those of a node.** -/
theorem node_add_handler {n : NodeAt} {vb : ℕ} {c : Handler} (hr : Rep h (L₁ ++ n :: L₂))
    (hverb : h.strings.Live vb c.verb) :
    ∃ h', h.node_add_handler (Ptr.ofBlock n.block) (Ptr.ofBlock vb) c.binding = .ok h' ∧
      Rep h' (L₁ ++ n.snoc (newHandler h vb c) :: L₂) := by
  rcases List.eq_nil_or_concat' n.cells with hnil | ⟨cs, last, hcs⟩
  · exact hr.add_first_handler hverb hnil
  · exact hr.add_next_handler hverb hcs

/-- The node that `add_or_find_node` allocates. -/
def newNode (h : Heap) (nb : ℕ) (t : String) (o : VoidPtr) : NodeAt :=
  ⟨h.nodes.cells.length, nb, t, o, []⟩

/-- What `add_or_find_node` writes into the new block. -/
lemma newNode_cell (h : Heap) (nb : ℕ) (t : String) (o : VoidPtr) :
    (⟨Ptr.ofBlock nb, none, none, o⟩ : HC_ObjectNode)
      = Linked.setNext none (newNode h nb t o).cell.2 := rfl

/-- A new node is linked behind the last one. -/
lemma append_node {last : NodeAt} {nb : ℕ} (hr : Rep h (L ++ [last]))
    (hname : h.strings.Live nb t) (o : VoidPtr) :
    (h.nodes.malloc (Linked.setNext none (newNode h nb t o).cell.2)).2.Live last.block
        (Linked.setNext none last.cell.2) ∧
      Rep ⟨h.strings, h.literals,
        (h.nodes.malloc (Linked.setNext none (newNode h nb t o).cell.2)).2.put last.block
          (Linked.setNext (Ptr.ofBlock h.nodes.cells.length) last.cell.2),
        h.handlers, h.dispatch_table⟩ (L ++ [last] ++ [newNode h nb t o]) := by
  have hchain := hr.nodes
  have hnodup := hr.nodup
  rw [List.map_append, List.map_cons, List.map_nil] at hchain hnodup
  have hmalloc := hchain.malloc (Linked.setNext none (newNode h nb t o).cell.2)
  have hfresh : h.nodes.cells.length ∉ (L.map NodeAt.cell ++ [last.cell]).map Prod.fst := by
    intro hmem
    obtain ⟨x, hx, hxb⟩ := List.mem_map.mp hmem
    obtain ⟨_, hlive⟩ := hchain.exists_live hx
    exact absurd hlive.lt_length (by omega)
  have hcells : (L ++ [last] ++ [newNode h nb t o]).map NodeAt.cell
      = L.map NodeAt.cell ++ [last.cell, (newNode h nb t o).cell] := by
    simp
  refine ⟨hmalloc.live, ?_, ?_, ?_, ?_, ?_, ?_, by simp⟩
  · show h.dispatch_table = _
    rw [hr.head, hcells]
    cases L <;> simp
  · rw [hcells]
    exact hmalloc.snoc hnodup (Store.live_malloc_self _) hfresh
  · rw [List.map_append, List.map_append, List.map_append, List.nodup_append]
    refine ⟨by simpa using hnodup, by simp, ?_⟩
    intro b hb b' hb' hbb
    rw [List.map_singleton, List.map_singleton, List.mem_singleton] at hb'
    rw [hbb, hb'] at hb
    exact hfresh (by simpa [newNode] using hb)
  · intro n hn
    rcases List.mem_append.mp hn with hn | hn
    · exact hr.names n hn
    · rw [List.mem_singleton] at hn
      subst hn
      exact hname
  · refine ⟨?_, ?_⟩
    · intro l hl
      rw [List.map_append, List.mem_append] at hl
      rcases hl with hl | hl
      · exact hr.handlers.chain l hl
      · rw [List.map_singleton, List.mem_singleton] at hl
        subst hl
        trivial
    · have hflat : ((L ++ [last] ++ [newNode h nb t o]).map NodeAt.cells).flatten
          = ((L ++ [last]).map NodeAt.cells).flatten := by
        rw [List.map_append, List.flatten_append]
        simp [newNode, NodeAt.cells]
      rw [hflat]
      exact hr.handlers.nodup
  · intro n hn
    rcases List.mem_append.mp hn with hn | hn
    · exact hr.verbs n hn
    · rw [List.mem_singleton] at hn
      subst hn
      simp [newNode]

/-- **`add_or_find_node` returns the first node with the name, or a new one at the end.** -/
theorem add_or_find_node {nb : ℕ} (hr : Rep h L) (hname : h.strings.Live nb t) (o : VoidPtr) :
    (∃ n, nodeOf L t = some n ∧
      h.add_or_find_node o (Ptr.ofBlock nb) = .ok (Ptr.ofBlock n.block, h)) ∨
    (nodeOf L t = none ∧ ∃ h',
      h.add_or_find_node o (Ptr.ofBlock nb) = .ok (Ptr.ofBlock h.nodes.cells.length, h') ∧
      h'.strings = h.strings ∧ Rep h' (L ++ [newNode h nb t o])) := by
  rcases hn : nodeOf L t with _ | n
  · refine Or.inr ⟨rfl, ?_⟩
    obtain ⟨L', last, rfl⟩ := (List.eq_nil_or_concat' L).resolve_left hr.ne_nil
    have hsearch := hr.search_none hn
    rw [List.map_append, List.map_cons, List.map_nil, Store.lastPtr_snoc] at hsearch
    obtain ⟨hlast, hrep⟩ := hr.append_node hname o
    refine ⟨_, ?_, ?_, hrep⟩
    · rw [Heap.add_or_find_node, hname.load, hsearch, newNode_cell h nb t o]
      simp only [bind, Except.bind, NodeAt.fst_cell, hlast.modify]
      rfl
    · rfl
  · obtain ⟨p, hsearch⟩ := hr.search_found hn
    refine Or.inl ⟨n, rfl, ?_⟩
    rw [Heap.add_or_find_node, hname.load, hsearch]
    rfl

end Rep

/-! ## Binding -/

/-- A call of `headcrab_bind_object`. -/
def Heap.bindCall (h : Heap) (c : BindCall) : Except Fault Heap :=
  h.headcrab_bind_object c.target (some c.name) c.verb c.binding

/-- Calls of `headcrab_bind_object`, one after the other. -/
def Heap.bindAll (h : Heap) (cs : List BindCall) : Except Fault Heap := cs.foldlM Heap.bindCall h

/-- Every name that has a node keeps it, with its handlers and perhaps more behind them. -/
def Extends (L L' : List NodeAt) : Prop :=
  ∀ t n, nodeOf L t = some n →
    ∃ n', nodeOf L' t = some n' ∧ n'.block = n.block ∧ n.handlers <+: n'.handlers

lemma Extends.refl (L : List NodeAt) : Extends L L :=
  fun _ n hn => ⟨n, hn, rfl, List.prefix_rfl⟩

lemma Extends.trans {L L' L'' : List NodeAt} (h : Extends L L') (h' : Extends L' L'') :
    Extends L L'' := by
  intro t n hn
  obtain ⟨n', hn', hb, hp⟩ := h t n hn
  obtain ⟨n'', hn'', hb', hp'⟩ := h' t n' hn'
  exact ⟨n'', hn'', hb'.trans hb, hp.trans hp'⟩

lemma extends_snoc {L₁ L₂ : List NodeAt} (n : NodeAt) (c : HandlerAt) :
    Extends (L₁ ++ n :: L₂) (L₁ ++ n.snoc c :: L₂) := by
  intro t m hm
  rw [nodeOf, List.find?_append, List.find?_cons] at hm ⊢
  rcases hL₁ : L₁.find? fun n => n.name = t with _ | m'
  · rw [hL₁, Option.none_or] at hm ⊢
    by_cases ht : n.name = t
    · simp only [ht, decide_true] at hm
      obtain rfl := Option.some.inj hm
      exact ⟨n.snoc c, by simp [ht], rfl, List.prefix_append _ _⟩
    · simp only [ht, decide_false] at hm
      exact ⟨m, by simpa [ht] using hm, rfl, List.prefix_rfl⟩
  · rw [hL₁, Option.some_or] at hm
    obtain rfl := Option.some.inj hm
    exact ⟨m', by rw [hL₁]; rfl, rfl, List.prefix_rfl⟩

lemma extends_append (L M : List NodeAt) : Extends L (L ++ M) := by
  intro t n hn
  refine ⟨n, ?_, rfl, List.prefix_rfl⟩
  rw [nodeOf] at hn
  rw [nodeOf, List.find?_append, hn]
  rfl

lemma Heap.strings_add_or_find_node {h h' : Heap} {o : VoidPtr} {name p : Option Ptr}
    (hadd : h.add_or_find_node o name = .ok (p, h')) :
    h'.strings = h.strings ∧ h'.literals = h.literals := by
  obtain ⟨⟨prev_node, cur_node⟩, -, hadd⟩ := exists_of_bind_ok hadd
  rcases cur_node with _ | q
  · obtain ⟨nodes, -, hadd⟩ := exists_of_bind_ok hadd
    obtain ⟨-, rfl⟩ := Prod.mk.inj (Except.ok.inj hadd)
    exact ⟨rfl, rfl⟩
  · obtain ⟨-, rfl⟩ := Prod.mk.inj (Except.ok.inj hadd)
    exact ⟨rfl, rfl⟩

lemma Heap.strings_node_add_handler {h h' : Heap} {node verb : Option Ptr} {b : Binding}
    (hadd : h.node_add_handler node verb b = .ok h') :
    h'.strings = h.strings ∧ h'.literals = h.literals := by
  obtain ⟨n, -, hadd⟩ := exists_of_bind_ok hadd
  rcases hfirst : n.handler with _ | q
  · rw [hfirst] at hadd
    obtain ⟨nodes, -, hadd⟩ := exists_of_bind_ok hadd
    obtain rfl := Except.ok.inj hadd
    exact ⟨rfl, rfl⟩
  · rw [hfirst] at hadd
    obtain ⟨⟨_, handler⟩, -, hadd⟩ := exists_of_bind_ok hadd
    obtain ⟨handlers, -, hadd⟩ := exists_of_bind_ok hadd
    obtain rfl := Except.ok.inj hadd
    exact ⟨rfl, rfl⟩

/-- A binding makes two new strings, and no literal. -/
lemma Heap.strings_bindCall {h h' : Heap} {c : BindCall} {v : String} (hv : c.verb = some v)
    (hcall : h.bindCall c = .ok h') :
    h'.strings.cells.length = h.strings.cells.length + 2 ∧ h'.literals = h.literals := by
  rw [Heap.bindCall, hv] at hcall
  obtain ⟨name, hname, hadd⟩ := exists_of_bind_ok hcall
  obtain rfl := Except.ok.inj hname
  obtain ⟨⟨node, h₁⟩, hfind, hadd⟩ := exists_of_bind_ok hadd
  obtain ⟨hstrings₁, hliterals₁⟩ := Heap.strings_add_or_find_node hfind
  obtain ⟨hstrings, hliterals⟩ := Heap.strings_node_add_handler hadd
  refine ⟨?_, hliterals.trans hliterals₁⟩
  rw [hstrings, hstrings₁]
  exact (List.length_append).trans (congrArg (· + 1) List.length_append)

/-- A call of `headcrab_bind_object` with a verb: its handler, whose verb is a new string, is
linked to the first node with the name, or to a new node, whose name is a new string too. -/
lemma Rep.bindCall_layout {h : Heap} {L : List NodeAt} (hr : Rep h L) {c : BindCall} {v : String}
    (hv : c.verb = some v) :
    ∃ h' d, h.bindCall c = .ok h' ∧ d.handler = ⟨v, c.binding⟩ ∧
      d.nameBlock = h.strings.cells.length + 1 ∧
      ((∃ L₁ n L₂, L = L₁ ++ n :: L₂ ∧ n.name = c.name ∧ (∀ m ∈ L₁, m.name ≠ c.name) ∧
          Rep h' (L₁ ++ n.snoc d :: L₂)) ∨
        ∃ b, nodeOf L c.name = none ∧
          Rep h' (L ++ [NodeAt.snoc ⟨b, h.strings.cells.length, c.name, c.target, []⟩ d])) := by
  -- the two copies of the strings
  have hr₂ := (hr.malloc_string c.name).malloc_string v
  have hname := (Store.live_malloc_self (s := h.strings) c.name).malloc v
  have hverb := Store.live_malloc_self (s := (h.strings.malloc c.name).2) v
  have hblock : (h.strings.malloc c.name).2.cells.length = h.strings.cells.length + 1 := by
    simp [Store.malloc]
  have hcall : h.bindCall c = Heap.dispatch_table_add
      { h with strings := ((h.strings.malloc c.name).2.malloc v).2 }
      c.target (Ptr.ofBlock h.strings.cells.length)
      (Ptr.ofBlock (h.strings.malloc c.name).2.cells.length) c.binding := by
    rw [Heap.bindCall, hv]
    rfl
  rw [hcall, Heap.dispatch_table_add]
  rcases hr₂.add_or_find_node hname c.target with ⟨n, hn, hfind⟩ | ⟨hn, h₃, hfind, hstr, hr₃⟩
  · obtain ⟨hnt, L₁, L₂, rfl, hL₁⟩ := nodeOf_eq_some hn
    obtain ⟨h', hadd, hr'⟩ := hr₂.node_add_handler (c := ⟨v, c.binding⟩) hverb
    rw [hfind]
    exact ⟨h', _, hadd, rfl, hblock, Or.inl ⟨L₁, n, L₂, rfl, hnt, hL₁, hr'⟩⟩
  · have hverb₃ : h₃.strings.Live (h.strings.malloc c.name).2.cells.length v := by
      rw [hstr]
      exact hverb
    obtain ⟨h', hadd, hr'⟩ := hr₃.node_add_handler (c := ⟨v, c.binding⟩) hverb₃
    rw [hfind]
    exact ⟨h', _, hadd, rfl, hblock, Or.inr ⟨_, hn, hr'⟩⟩

/-- **`headcrab_bind_object` does on memory what it does on tables.** -/
theorem Rep.bindCall {h : Heap} {L : List NodeAt} (hr : Rep h L) (c : BindCall) :
    ∃ h' L', h.bindCall c = .ok h' ∧ Rep h' L' ∧ Extends L L' ∧
      tableOf L' = (tableOf L).bind c := by
  rcases hv : c.verb with _ | v
  · refine ⟨h, L, ?_, hr, Extends.refl L, ?_⟩
    · rw [Heap.bindCall, hv]
      rfl
    · rw [Table.bind, hv]
  · have hbind : (tableOf L).bind c = Registry.add c.name c.target ⟨v, c.binding⟩ (tableOf L) := by
      rw [Table.bind, hv]
    obtain ⟨h', d, hcall, hd, -, ⟨L₁, n, L₂, rfl, hnt, hL₁, hr'⟩ | ⟨b, hn, hr'⟩⟩ :=
      hr.bindCall_layout hv
    · exact ⟨h', _, hcall, hr', extends_snoc n d, by rw [tableOf_snoc hnt hL₁ c.target, hd, hbind]⟩
    · refine ⟨h', _, hcall, hr', extends_append L _, ?_⟩
      rw [hbind, Registry.add_of_notMem (notMem_keys (nodeOf_eq_none hn)), tableOf, tableOf,
        List.map_append, ← hd]
      rfl

/-- **So do several calls.** -/
theorem Rep.bindAll {h : Heap} {L : List NodeAt} (hr : Rep h L) (cs : List BindCall) :
    ∃ h' L', h.bindAll cs = .ok h' ∧ Rep h' L' ∧ Extends L L' ∧
      tableOf L' = (tableOf L).bindAll cs := by
  induction cs generalizing h L with
  | nil => exact ⟨h, L, rfl, hr, Extends.refl L, rfl⟩
  | cons c cs ih =>
    obtain ⟨h₁, L₁, hcall, hr₁, hext₁, htable₁⟩ := hr.bindCall c
    obtain ⟨h₂, L₂, hall, hr₂, hext₂, htable₂⟩ := ih hr₁
    refine ⟨h₂, L₂, ?_, hr₂, hext₁.trans hext₂, ?_⟩
    · rw [Heap.bindAll, List.foldlM_cons, hcall]
      exact hall
    · rw [htable₂, htable₁]
      rfl

/-- Every history of bindings after `dispatch_table_init` succeeds, and leaves the memory
that represents its table. -/
theorem bindAll_booted (cs : List BindCall) :
    ∃ h, Heap.booted.bindAll cs = .ok h ∧ h.Represents (Table.init.bindAll cs) := by
  obtain ⟨h, L, hall, hr, -, htable⟩ := rep_booted.bindAll cs
  exact ⟨h, hall, L, hr, htable⟩

end Headcrab
