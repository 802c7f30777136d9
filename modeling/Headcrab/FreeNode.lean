/-
# What `free_node` frees

`free_node` is to free the handlers of a node, each with its verb, and then the node with its
name.  Its loop reads the link of `cur_handler` into `next_handler`, but never moves
`cur_handler`: with two handlers or more, the second turn reads the handler that the first
one has freed.  So every cell is freed, and freed once, exactly if the node has at most one
handler (`frees_each_once_iff`).
-/
import Headcrab.TableRep

namespace Headcrab

open Store (headPtr)

/-! ## The calls of `free` -/

/-- What is seen of `free_node`. -/
inductive FreeEvent
  /-- The field `next` of a handler is read. -/
  | readNext (handler : Option Ptr)
  | freeString (p : Option Ptr)
  | freeHandler (p : Option Ptr)
  | freeNode (p : Option Ptr)
deriving DecidableEq, Repr

/-- The event is a call of `free`. -/
def FreeEvent.isFree : FreeEvent → Bool
  | .readNext _ => false
  | _ => true

namespace Heap

/-- `freeHandlers`, with what is seen of it. -/
def freeHandlersTraced : ℕ → Heap → Option Ptr → Option Ptr → Traced FreeEvent Fault Heap
  | 0, _, _, _ => .ofExcept (.error .diverges)
  | fuel + 1, h, next_handler, cur_handler =>
    match next_handler with
    | none => pure h
    | some _ => do
      .emit (.readNext cur_handler)
      let cur ← h.handlers.load cur_handler
      .emit (.freeString cur.name)
      let strings ← h.freeString cur.name
      .emit (.freeHandler cur_handler)
      let handlers ← h.handlers.free cur_handler
      freeHandlersTraced fuel { h with strings, handlers } cur.next cur_handler

/-- `free_node`, with what is seen of it. -/
def free_nodeTraced (h : Heap) (_node : Option Ptr) : Traced FreeEvent Fault Heap := do
  let node ← h.nodes.load _node
  let h ← freeHandlersTraced (h.handlers.cells.length + 1) h node.handler node.handler
  let node ← h.nodes.load _node
  .emit (.freeString node.name)
  let strings ← h.freeString node.name
  .emit (.freeNode _node)
  let nodes ← h.nodes.free _node
  return { h with strings, nodes }

lemma result_freeHandlersTraced (fuel : ℕ) : ∀ (h : Heap) (next_handler cur_handler : Option Ptr),
    (freeHandlersTraced fuel h next_handler cur_handler).result
      = freeHandlers fuel h next_handler cur_handler := by
  induction fuel with
  | zero => exact fun _ _ _ => rfl
  | succ fuel ih =>
    intro h next_handler cur_handler
    rcases next_handler with _ | p
    · rfl
    · simp only [freeHandlersTraced, freeHandlers, Traced.result_bind, Traced.liftM_eq,
        Traced.result_ofExcept, Traced.result_emit, ih]
      rfl

/-- The events change nothing. -/
lemma result_free_nodeTraced (h : Heap) (p : Option Ptr) :
    (h.free_nodeTraced p).result = h.free_node p := by
  simp only [free_nodeTraced, free_node, Traced.result_bind, Traced.liftM_eq,
    Traced.result_ofExcept, Traced.result_emit, Traced.result_pure, result_freeHandlersTraced]
  rfl

end Heap

/-! ## Nodes that own their cells -/

/-- The block holds a string that is not a literal. -/
def Heap.OwnsString (h : Heap) (b : ℕ) (s : String) : Prop := h.strings.Live b s ∧ b ∉ h.literals

lemma Heap.OwnsString.free {h : Heap} {b : ℕ} {s : String} (ho : h.OwnsString b s) :
    h.freeString (Ptr.ofBlock b) = .ok (h.strings.freed b) := by
  rw [Heap.freeString, if_neg (by simpa [Ptr.ofBlock] using ho.2), ho.1.free]

/-- A node in memory, which owns its cells: its handler list goes through distinct blocks and
ends with `NULL`, and its name is not the verb of one of its handlers, as
`headcrab_bind_object` allocates every string anew. -/
structure Owns (h : Heap) (n : NodeAt) : Prop where
  node : ∃ next, h.nodes.Live n.block (Linked.setNext next n.cell.2)
  handlers : h.handlers.Chain n.cells
  nodup : (n.cells.map Prod.fst).Nodup
  name : h.OwnsString n.nameBlock n.name
  verbs : ∀ c ∈ n.handlers, h.OwnsString c.nameBlock c.handler.verb ∧ c.nameBlock ≠ n.nameBlock

/-- No string of a node is one of the literals, and no verb is in the block of its name. -/
structure StringsApart (literals : List ℕ) (n : NodeAt) : Prop where
  name : n.nameBlock ∉ literals
  verbs : ∀ c ∈ n.handlers, c.nameBlock ∉ literals ∧ c.nameBlock ≠ n.nameBlock

lemma Rep.owns {h : Heap} {L : List NodeAt} (hr : Rep h L) {n : NodeAt} (hn : n ∈ L)
    (ha : StringsApart h.literals n) : Owns h n where
  node := hr.nodes.exists_live (List.mem_map_of_mem hn)
  handlers := hr.handlers.chain _ (List.mem_map_of_mem hn)
  nodup := hr.handlers.nodup_of_mem (List.mem_map_of_mem hn)
  name := ⟨hr.names n hn, ha.name⟩
  verbs c hc := ⟨⟨hr.verbs n hn c hc, (ha.verbs c hc).1⟩, (ha.verbs c hc).2⟩

/-- The node keeps what it has, and the new verb is in a new block. -/
lemma StringsApart.snoc {literals : List ℕ} {n : NodeAt} (ha : StringsApart literals n)
    {d : HandlerAt} (hd : d.nameBlock ∉ literals) (hne : d.nameBlock ≠ n.nameBlock) :
    StringsApart literals (n.snoc d) := by
  refine ⟨ha.name, fun c hc => ?_⟩
  rcases List.mem_append.mp hc with hc | hc
  · exact ha.verbs c hc
  · obtain rfl := List.mem_singleton.mp hc
    exact ⟨hd, hne⟩

/-- The name of the first node is a literal; the other nodes have strings of their own. -/
structure TableOwns (h : Heap) (root : NodeAt) (L : List NodeAt) : Prop where
  rep : Rep h (root :: L)
  root : root.name = ""
  literals : ∀ b ∈ h.literals, b < h.strings.cells.length
  apart : ∀ n ∈ L, StringsApart h.literals n

lemma tableOwns_booted : TableOwns Heap.booted rootAt [] := by
  refine ⟨rep_booted, rfl, fun b hb => ?_, by simp⟩
  obtain rfl := List.mem_singleton.mp hb
  exact Nat.zero_lt_one

/-- A binding makes two new strings. -/
lemma TableOwns.bindCall {h : Heap} {root : NodeAt} {L : List NodeAt} (ho : TableOwns h root L)
    (c : BindCall) : ∃ h' root' L', h.bindCall c = .ok h' ∧ TableOwns h' root' L' := by
  obtain ⟨hr, hroot, hliterals, ha⟩ := ho
  rcases hv : c.verb with _ | v
  · refine ⟨h, root, L, ?_, hr, hroot, hliterals, ha⟩
    rw [Heap.bindCall, hv]
    rfl
  · obtain ⟨h', d, hcall, -, hd, hlayout⟩ := hr.bindCall_layout hv
    obtain ⟨hstrings, hsame⟩ := Heap.strings_bindCall hv hcall
    have hliterals' : ∀ b ∈ h'.literals, b < h'.strings.cells.length := by
      intro b hb
      have hlt := hliterals b (hsame ▸ hb)
      omega
    have hnew : ∀ b, h.strings.cells.length ≤ b → b ∉ h'.literals := by
      intro b hle hb
      have hlt := hliterals b (hsame ▸ hb)
      omega
    rw [← hsame] at ha
    rcases hlayout with ⟨L₁, n, L₂, hL, -, -, hr'⟩ | ⟨b, -, hr'⟩
    · have hname : n.nameBlock < h.strings.cells.length :=
        (hr.names n (by simp [hL])).lt_length
      rcases L₁ with _ | ⟨m, L₁⟩
      · -- a verb without an object
        obtain ⟨rfl, rfl⟩ := List.cons.inj hL
        exact ⟨h', _, _, hcall, hr', hroot, hliterals', ha⟩
      · obtain ⟨rfl, rfl⟩ := List.cons.inj hL
        obtain ⟨ha₁, ha₂⟩ := List.forall_mem_append.mp ha
        obtain ⟨han, ha₂⟩ := List.forall_mem_cons.mp ha₂
        refine ⟨h', _, _, hcall, hr', hroot, hliterals', List.forall_mem_append.mpr
          ⟨ha₁, List.forall_mem_cons.mpr ⟨han.snoc (hnew _ (by omega)) (by omega), ha₂⟩⟩⟩
    · refine ⟨h', root, _, hcall, hr', hroot, hliterals', List.forall_mem_append.mpr
        ⟨ha, List.forall_mem_singleton.mpr ?_⟩⟩
      refine StringsApart.snoc ⟨hnew _ (Nat.le_refl _), by simp⟩ (hnew _ (by omega)) ?_
      show d.nameBlock ≠ h.strings.cells.length
      omega

/-- **Every node that bindings make owns its cells.**  The first node is not one of them: it is
that of `dispatch_table_init`, and its name is a literal. -/
theorem bindings_own (cs : List BindCall) :
    ∃ h root L, Heap.booted.bindAll cs = .ok h ∧ Rep h (root :: L) ∧ root.name = "" ∧
      ∀ n ∈ L, Owns h n := by
  have hmore : ∀ (cs : List BindCall) (h : Heap) (root : NodeAt) (L : List NodeAt),
      TableOwns h root L → ∃ h' root' L', h.bindAll cs = .ok h' ∧ TableOwns h' root' L' := by
    intro cs
    induction cs with
    | nil => exact fun h root L ho => ⟨h, root, L, rfl, ho⟩
    | cons c cs ih =>
      intro h root L ho
      obtain ⟨h₁, root₁, L₁, hcall, ho₁⟩ := ho.bindCall c
      obtain ⟨h₂, root₂, L₂, hall, ho₂⟩ := ih h₁ root₁ L₁ ho₁
      refine ⟨h₂, root₂, L₂, ?_, ho₂⟩
      rw [Heap.bindAll, List.foldlM_cons, hcall]
      exact hall
  obtain ⟨h, root, L, hall, ho⟩ := hmore cs _ _ _ tableOwns_booted
  exact ⟨h, root, L, hall, ho.rep, ho.root, fun n hn =>
    ho.rep.owns (List.mem_cons_of_mem root hn) (ho.apart n hn)⟩

/-- What is to be freed of a handler: its verb and its cell. -/
def HandlerAt.frees (c : HandlerAt) : List FreeEvent :=
  [.freeString (Ptr.ofBlock c.nameBlock), .freeHandler (Ptr.ofBlock c.block)]

/-- `free_node` ends; it frees the verb and the cell of every handler, each once, and then the
name and the node; and it reads the link of no handler that it has freed. -/
structure FreesEachOnce (h : Heap) (n : NodeAt) : Prop where
  ends : ∃ h', h.free_node (Ptr.ofBlock n.block) = .ok h'
  frees : ∃ fs, fs.Perm (n.handlers.flatMap HandlerAt.frees) ∧
    (h.free_nodeTraced (Ptr.ofBlock n.block)).trace.filter FreeEvent.isFree
      = fs ++ [.freeString (Ptr.ofBlock n.nameBlock), .freeNode (Ptr.ofBlock n.block)]
  reads : ∀ tr tr' p, (h.free_nodeTraced (Ptr.ofBlock n.block)).trace = tr ++ .readNext p :: tr' →
    .freeHandler p ∉ tr

/-! ## The loop -/

section Loop

variable {h : Heap} {fuel : ℕ}

/-- One turn of the loop: the cell of `cur_handler` and its verb are freed, and its link is
known, but `cur_handler` is where it was. -/
lemma freeHandlersTraced_succ {b vb : ℕ} {c : HC_Handler} {v : String} (p : Ptr)
    (hlive : h.handlers.Live b c) (hname : c.name = Ptr.ofBlock vb) (hverb : h.OwnsString vb v) :
    Heap.freeHandlersTraced (fuel + 1) h (some p) (Ptr.ofBlock b)
      = .mk (.readNext (Ptr.ofBlock b) :: .freeString (Ptr.ofBlock vb)
            :: .freeHandler (Ptr.ofBlock b)
            :: (Heap.freeHandlersTraced fuel ⟨h.strings.freed vb, h.literals, h.nodes,
                h.handlers.freed b, h.dispatch_table⟩ c.next (Ptr.ofBlock b)).trace)
          (Heap.freeHandlersTraced fuel ⟨h.strings.freed vb, h.literals, h.nodes,
            h.handlers.freed b, h.dispatch_table⟩ c.next (Ptr.ofBlock b)).result := by
  simp only [Heap.freeHandlersTraced, Traced.emit_bind, Traced.liftM_eq, hlive.load,
    Traced.ofExcept_ok_bind, hname, hverb.free, hlive.free]

/-- The second turn reads what the first one has freed. -/
lemma freeHandlers_freed {b : ℕ} (p : Ptr)
    (hfreed : h.handlers.load (Ptr.ofBlock b) = .error .useAfterFree) :
    (Heap.freeHandlersTraced (fuel + 1) h (some p) (Ptr.ofBlock b)).result
      = .error .useAfterFree := by
  simp only [Heap.freeHandlersTraced, Traced.emit_bind, Traced.liftM_eq, hfreed]
  rfl

end Loop

/-! ## The function -/

section Node

variable {h : Heap} {n : NodeAt}

/-- What `free_node` does behind its loop. -/
lemma free_nodeTraced_of_loop (ho : Owns h n) {tr : List FreeEvent} {h' : Heap}
    (hloop : Heap.freeHandlersTraced (h.handlers.cells.length + 1) h (headPtr n.cells)
      (headPtr n.cells) = ⟨tr, .ok h'⟩)
    (hnodes : h'.nodes = h.nodes) (hname : h'.OwnsString n.nameBlock n.name) :
    h.free_nodeTraced (Ptr.ofBlock n.block)
      = ⟨tr ++ [.freeString (Ptr.ofBlock n.nameBlock), .freeNode (Ptr.ofBlock n.block)],
        .ok ⟨h'.strings.freed n.nameBlock, h'.literals, h'.nodes.freed n.block, h'.handlers,
          h'.dispatch_table⟩⟩ := by
  obtain ⟨next, hnode⟩ := ho.node
  have hfirst : (Linked.setNext next n.cell.2).handler = headPtr n.cells := rfl
  have hfree : (Linked.setNext next n.cell.2).name = Ptr.ofBlock n.nameBlock := rfl
  rw [Heap.free_nodeTraced, Traced.liftM_eq, hnode.load, Traced.ofExcept_ok_bind, hfirst,
    Traced.bind_ok (by rw [hloop])]
  simp only [hloop, hnodes, Traced.liftM_eq, hnode.load, hnode.free, hfree, hname.free,
    Traced.ofExcept_ok_bind, Traced.emit_bind]
  rfl

/-- A node without handlers. -/
lemma free_nodeTraced_nil (ho : Owns h n) (hn : n.handlers = []) :
    ∃ h', h.free_nodeTraced (Ptr.ofBlock n.block)
      = ⟨[.freeString (Ptr.ofBlock n.nameBlock), .freeNode (Ptr.ofBlock n.block)], .ok h'⟩ := by
  have hcells : n.cells = [] := by rw [NodeAt.cells, hn, List.map_nil]
  have hloop : Heap.freeHandlersTraced (h.handlers.cells.length + 1) h (headPtr n.cells)
      (headPtr n.cells) = ⟨[], .ok h⟩ := by
    rw [hcells]
    rfl
  exact ⟨_, free_nodeTraced_of_loop ho hloop rfl ho.name⟩

/-- A node with one handler. -/
lemma free_nodeTraced_single (ho : Owns h n) {c : HandlerAt} (hn : n.handlers = [c]) :
    ∃ h', h.free_nodeTraced (Ptr.ofBlock n.block)
      = ⟨.readNext (Ptr.ofBlock c.block) :: (c.frees
          ++ [.freeString (Ptr.ofBlock n.nameBlock), .freeNode (Ptr.ofBlock n.block)]),
        .ok h'⟩ := by
  have hcells : n.cells = [c.cell] := by rw [NodeAt.cells, hn, List.map_singleton]
  obtain ⟨hverb, hne⟩ := ho.verbs c (by simp [hn])
  have hchain := ho.handlers
  rw [hcells] at hchain
  have hlive : h.handlers.Live c.block (Linked.setNext none c.cell.2) := hchain.1
  obtain ⟨k, hk⟩ := Nat.exists_eq_add_of_lt hlive.lt_length
  have hloop : Heap.freeHandlersTraced (h.handlers.cells.length + 1) h (headPtr n.cells)
      (headPtr n.cells) = ⟨.readNext (Ptr.ofBlock c.block) :: c.frees,
        .ok ⟨h.strings.freed c.nameBlock, h.literals, h.nodes, h.handlers.freed c.block,
          h.dispatch_table⟩⟩ := by
    rw [hcells, hk]
    exact freeHandlersTraced_succ _ hlive rfl hverb
  exact ⟨_, free_nodeTraced_of_loop ho hloop rfl ⟨ho.name.1.freed_of_ne hne, ho.name.2⟩⟩

/-- With a second handler, the loop runs into the first one again. -/
lemma free_node_of_two (ho : Owns h n) {c d : HandlerAt} {cs : List HandlerAt}
    (hn : n.handlers = c :: d :: cs) :
    h.free_node (Ptr.ofBlock n.block) = .error .useAfterFree := by
  have hcells : n.cells = c.cell :: d.cell :: cs.map HandlerAt.cell := by
    rw [NodeAt.cells, hn, List.map_cons, List.map_cons]
  obtain ⟨hverb, -⟩ := ho.verbs c (by simp [hn])
  have hchain := ho.handlers
  rw [hcells] at hchain
  have hlive : h.handlers.Live c.block (Linked.setNext (Ptr.ofBlock d.block) c.cell.2) := hchain.1
  obtain ⟨k, hk⟩ := Nat.exists_eq_add_of_lt hlive.lt_length
  have hloop : (Heap.freeHandlersTraced (h.handlers.cells.length + 1) h (headPtr n.cells)
      (headPtr n.cells)).result = .error .useAfterFree := by
    rw [hcells, hk]
    exact (congrArg Traced.result (freeHandlersTraced_succ _ hlive rfl hverb)).trans
      (freeHandlers_freed ⟨d.block, 0⟩ hlive.load_freed)
  obtain ⟨next, hnode⟩ := ho.node
  rw [← Heap.result_free_nodeTraced, Heap.free_nodeTraced, Traced.liftM_eq, hnode.load,
    Traced.ofExcept_ok_bind]
  exact congrArg Traced.result (Traced.bind_error hloop _)

/-- **When `free_node` frees every cell once.**  It does for a node with at most one
handler; with two or more it reads a handler that it has freed. -/
theorem frees_each_once_iff (ho : Owns h n) : FreesEachOnce h n ↔ n.handlers.length ≤ 1 := by
  rcases hn : n.handlers with _ | ⟨c, _ | ⟨d, cs⟩⟩
  · obtain ⟨h', hfree⟩ := free_nodeTraced_nil ho hn
    refine iff_of_true ⟨⟨h', ?_⟩, ⟨[], ?_, ?_⟩, ?_⟩ (Nat.zero_le 1)
    · rw [← Heap.result_free_nodeTraced, hfree]
    · rw [hn]
      exact List.Perm.nil
    · rw [hfree]
      rfl
    · intro tr tr' p htr
      rw [hfree] at htr
      have hmem : FreeEvent.readNext p ∈ tr ++ .readNext p :: tr' := by simp
      rw [← htr] at hmem
      exact absurd hmem (by simp)
  · obtain ⟨h', hfree⟩ := free_nodeTraced_single ho hn
    refine iff_of_true ⟨⟨h', ?_⟩, ⟨c.frees, ?_, ?_⟩, ?_⟩ (Nat.le_refl 1)
    · rw [← Heap.result_free_nodeTraced, hfree]
    · rw [hn, List.flatMap_singleton]
    · rw [hfree]
      rfl
    · intro tr tr' p htr
      rw [hfree] at htr
      -- the only link is read before anything is freed
      rcases tr with _ | ⟨e, tr⟩
      · exact List.not_mem_nil
      · rw [List.cons_append, List.cons.injEq] at htr
        have hmem : FreeEvent.readNext p ∈ tr ++ .readNext p :: tr' := by simp
        rw [← htr.2] at hmem
        exact absurd hmem (by simp [HandlerAt.frees])
  · refine iff_of_false (fun hfrees => ?_) (by simp)
    obtain ⟨h', hok⟩ := hfrees.ends
    rw [free_node_of_two ho hn] at hok
    exact absurd hok (by simp)

end Node

/-- The handler that a binding of `ball` makes. -/
def ballHandlerAt (block nameBlock : ℕ) (v : String) : HandlerAt :=
  ⟨block, nameBlock, ⟨v, (bindBall v).binding⟩⟩

/-- The node of `ball`. -/
def ballAt (cs : List HandlerAt) : NodeAt := ⟨1, 1, "ball", some 1, cs⟩

theorem frees_each_once_ball : ∃ h, Heap.booted.bindAll [bindBall "move"] = .ok h ∧
    FreesEachOnce h (ballAt [ballHandlerAt 0 2 "move"]) := by
  refine ⟨_, rfl, (frees_each_once_iff ?_).mpr (Nat.le_refl 1)⟩
  exact ⟨⟨none, rfl⟩, ⟨rfl, trivial⟩, by decide, ⟨rfl, by decide⟩,
    List.forall_mem_singleton.mpr ⟨⟨rfl, by decide⟩, by decide⟩⟩

/-- With two handlers, the first is read after it has been freed. -/
theorem second_handler_breaks_free : ∃ h n,
    Heap.booted.bindAll [bindBall "move", bindBall "stop"] = .ok h ∧ Owns h n ∧
      n.handlers.length = 2 ∧ ¬ FreesEachOnce h n := by
  obtain ⟨h, hall⟩ : ∃ h, Heap.booted.bindAll [bindBall "move", bindBall "stop"] = .ok h := ⟨_, rfl⟩
  have howns : Owns h (ballAt [ballHandlerAt 0 2 "move", ballHandlerAt 1 4 "stop"]) := by
    obtain rfl := Except.ok.inj hall
    exact ⟨⟨none, rfl⟩, ⟨rfl, rfl, trivial⟩, by decide, ⟨rfl, by decide⟩,
      List.forall_mem_cons.mpr ⟨⟨⟨rfl, by decide⟩, by decide⟩,
        List.forall_mem_singleton.mpr ⟨⟨rfl, by decide⟩, by decide⟩⟩⟩
  refine ⟨h, _, hall, howns, rfl, fun hfrees => ?_⟩
  obtain ⟨h', hok⟩ := hfrees.ends
  rw [free_node_of_two howns rfl] at hok
  exact absurd hok (by simp)

end Headcrab
