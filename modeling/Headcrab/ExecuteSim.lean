/-
# Executing a command, in memory and on the table

`dispatch_table_execute` follows pointers through a memory that the hooks may change under
it: a hook that binds adds nodes and handlers.  What it has seen stays where it is, and what
is added comes behind, so the walk through the handlers of a node shows the same calls as
the walk through the handlers of the table, and ends in the same way.
-/
import Headcrab.TableRep

namespace Headcrab

open Traced (Sim)

/-- What is at an index of a list is there in every list that continues it. -/
lemma getElem?_extend {α : Type} {l l' : List α} {i : ℕ} {a : α} (h : l <+: l')
    (ha : l[i]? = some a) : l'[i]? = some a := by
  obtain ⟨r, rfl⟩ := h
  rw [List.getElem?_append_left (List.getElem?_eq_some_iff.mp ha).1]
  exact ha

namespace BindingHooks

variable {A ω : Type} (hooks : BindingHooks A ω)

/-- The hooks on memory. -/
def onHeap : Hooks A (Heap × ω) where
  pre f a s := do
    let h ← s.1.bindAll (hooks.pre f a s.2).2.1
    return ((hooks.pre f a s.2).1, (h, (hooks.pre f a s.2).2.2))
  op f o a s := do
    let h ← s.1.bindAll (hooks.op f o a s.2).1
    return (h, (hooks.op f o a s.2).2)
  post f a s := do
    let h ← s.1.bindAll (hooks.post f a s.2).2.1
    return ((hooks.post f a s.2).1, (h, (hooks.post f a s.2).2.2))

end BindingHooks

variable {A ω : Type}

/-- The memory represents the table, with the nodes of a layout still in their places. -/
def Matches (L : List NodeAt) (s : Heap × ω) (s' : Table × ω) : Prop :=
  s.2 = s'.2 ∧ ∃ L', Rep s.1 L' ∧ Extends L L' ∧ tableOf L' = s'.1

lemma Matches.of_extends {L L' : List NodeAt} {s : Heap × ω} {s' : Table × ω}
    (h : Matches L' s s') (hext : Extends L L') : Matches L s s' := by
  obtain ⟨hω, L'', hr, hext', htable⟩ := h
  exact ⟨hω, L'', hr, hext.trans hext', htable⟩

lemma Matches.bindAll {L : List NodeAt} {s : Heap × ω} {s' : Table × ω} (h : Matches L s s')
    (cs : List BindCall) (e : ω) :
    ∃ h', s.1.bindAll cs = .ok h' ∧ Matches L (h', e) (s'.1.bindAll cs, e) := by
  obtain ⟨-, L', hr, hext, htable⟩ := h
  obtain ⟨h', L'', hall, hr', hext', htable'⟩ := hr.bindAll cs
  exact ⟨h', hall, rfl, L'', hr', hext.trans hext', by rw [htable', htable]⟩

section Hooks

variable (hooks : BindingHooks A ω) {L : List NodeAt} {s : Heap × ω} {s' : Table × ω}

/-- A pre-op or post-op function, given that it binds the same on both sides. -/
lemma callIfSet_sim (hm : Matches L s s') (event : Fn → VoidPtr → HookEvent A)
    {run : Fn → VoidPtr → Heap × ω → Except Fault (HEADCRAB_ERROR × (Heap × ω))}
    {run' : Fn → VoidPtr → Table × ω → Except Fault (HEADCRAB_ERROR × (Table × ω))}
    (hrun : ∀ f a, ∃ r x x', run f a s = .ok (r, x) ∧ run' f a s' = .ok (r, x') ∧ Matches L x x')
    (f : Option Fn) (args : VoidPtr) :
    Sim (Matches L) (callIfSet event run f args s) (callIfSet event run' f args s') := by
  rcases f with _ | f
  · exact Sim.pure hm
  · obtain ⟨r, x, x', hx, hx', hm'⟩ := hrun f args
    refine Sim.emit_bind _ ?_
    rw [hx, hx', Traced.liftM_eq, Traced.liftM_eq, Traced.ofExcept_ok_bind,
      Traced.ofExcept_ok_bind]
    exact Sim.emit_bind _ (Sim.pure hm')

/-- A function that binds does so on both sides. -/
lemma Matches.bindThen (hm : Matches L s s') (y : HEADCRAB_ERROR × List BindCall × ω) :
    ∃ r x x', (s.1.bindAll y.2.1 >>= fun h => Except.ok (y.1, (h, y.2.2))) = .ok (r, x) ∧
      (Except.ok (y.1, (s'.1.bindAll y.2.1, y.2.2)) : Except Fault _) = .ok (r, x') ∧
      Matches L x x' := by
  obtain ⟨h', hall, hm'⟩ := hm.bindAll y.2.1 y.2.2
  refine ⟨y.1, _, _, ?_, rfl, hm'⟩
  rw [hall]
  rfl

lemma callPre_sim (hm : Matches L s s') (pre : Option Fn) (preArgs : VoidPtr) :
    Sim (Matches L) (hooks.onHeap.callPre pre preArgs s)
      (hooks.onTable.callPre pre preArgs s') := by
  refine callIfSet_sim hm _ (fun f a => ?_) pre preArgs
  simp only [BindingHooks.onTable, ← hm.1]
  exact hm.bindThen (hooks.pre f a s.2)

lemma callPost_sim (hm : Matches L s s') (post : Option Fn) (postArgs : VoidPtr) :
    Sim (Matches L) (hooks.onHeap.callPost post postArgs s)
      (hooks.onTable.callPost post postArgs s') := by
  refine callIfSet_sim hm _ (fun f a => ?_) post postArgs
  simp only [BindingHooks.onTable, ← hm.1]
  exact hm.bindThen (hooks.post f a s.2)

lemma callOp_sim (hm : Matches L s s') (op : Option Fn) (object : VoidPtr) (args : A) :
    Sim (Matches L) (hooks.onHeap.callOp op object args s)
      (hooks.onTable.callOp op object args s') := by
  rcases op with _ | f
  · exact Sim.error _
  · obtain ⟨h', hall, hm'⟩ :=
      hm.bindAll (hooks.op f object args s.2).1 (hooks.op f object args s.2).2
    have hop : hooks.onHeap.op f object args s
        = .ok (h', (hooks.op f object args s.2).2) := by
      simp only [BindingHooks.onHeap, hall]
      rfl
    refine Sim.emit_bind _ ?_
    rw [hop]
    simp only [BindingHooks.onTable, ← hm.1, Traced.liftM_eq]
    exact Sim.pure hm'

end Hooks

/-! ## What a handler's cell and a node's cell hold -/

namespace Rep

variable {h : Heap} {L : List NodeAt} {t : String} {n : NodeAt}

lemma load_handler {i : ℕ} {c : HandlerAt} (hr : Rep h L) (hn : nodeOf L t = some n)
    (hc : n.handlers[i]? = some c) :
    h.handlers.load (Ptr.ofBlock c.block) = .ok (Linked.setNext
      (n.handlers[i + 1]?.bind fun d => Ptr.ofBlock d.block) c.cell.2) := by
  obtain ⟨-, L₁, L₂, rfl, -⟩ := nodeOf_eq_some hn
  have hchain : h.handlers.Chain n.cells := hr.handlers.chain _ (by simp)
  obtain ⟨hi, rfl⟩ := List.getElem?_eq_some_iff.mp hc
  have hsplit : n.cells = (n.handlers.take i).map HandlerAt.cell
      ++ n.handlers[i].cell :: (n.handlers.drop (i + 1)).map HandlerAt.cell := by
    rw [NodeAt.cells, ← List.map_cons, ← List.map_append, List.getElem_cons_drop,
      List.take_append_drop]
  rw [hsplit] at hchain
  have hlive := hchain.live
  have hnext : Store.headPtr ((n.handlers.drop (i + 1)).map HandlerAt.cell)
      = n.handlers[i + 1]?.bind fun d => Ptr.ofBlock d.block := by
    rw [Store.headPtr, List.head?_map, List.head?_drop]
    cases n.handlers[i + 1]? <;> rfl
  rw [hnext] at hlive
  exact hlive.load

lemma load_node (hr : Rep h L) (hn : nodeOf L t = some n) :
    ∃ a, h.nodes.load (Ptr.ofBlock n.block) = .ok a ∧ a.object = (tableOf L).objectOf t ∧
      a.handler = n.handlers[0]?.bind fun d => Ptr.ofBlock d.block := by
  have hobject : (tableOf L).objectOf t = n.object := by
    rw [Table.objectOf, Registry.ownerOf, entry_tableOf, hn]
    rfl
  obtain ⟨-, L₁, L₂, rfl, -⟩ := nodeOf_eq_some hn
  refine ⟨_, hr.live_node.load, hobject.symm, ?_⟩
  show Store.headPtr n.cells = _
  rw [Store.headPtr, NodeAt.cells, List.head?_map, List.head?_eq_getElem?]
  cases n.handlers[0]? <;> rfl

lemma strcmp_verb {i : ℕ} {c : HandlerAt} (hr : Rep h L) (hn : nodeOf L t = some n)
    (hc : n.handlers[i]? = some c) (v : String) :
    strcmp (h.strings.load (Ptr.ofBlock c.nameBlock)) (charPtr (some v))
      = .ok (c.handler.verb == v) := by
  obtain ⟨-, L₁, L₂, rfl, -⟩ := nodeOf_eq_some hn
  rw [(hr.verbs n (by simp) c (List.mem_of_getElem? hc)).load]
  rfl

lemma itemsOf_tableOf (hn : nodeOf L t = some n) :
    Registry.itemsOf (tableOf L) t = n.handlers.map HandlerAt.handler := by
  rw [Registry.itemsOf, entry_tableOf, hn]
  rfl

end Rep

/-! ## The simulation -/

section Simulation

variable (hooks : BindingHooks A ω) {L : List NodeAt} {t : String} {n : NodeAt}

/-- The hooks of one handler. -/
lemma runHandler_sim {s : Heap × ω} {s' : Table × ω} {i : ℕ} {c : HandlerAt}
    (hm : Matches L s s') (hn : nodeOf L t = some n) (hc : n.handlers[i]? = some c) (args : A) :
    Sim (Matches L) (runHandler hooks.onHeap (Ptr.ofBlock n.block) (Ptr.ofBlock c.block) args s)
      (Table.runHandler hooks.onTable t c.handler.binding args s') := by
  -- the cells of the node and of the handler, wherever the hooks have got to
  have hcells : ∀ (s : Heap × ω) (s' : Table × ω), Matches L s s' →
      (∃ p, s.1.handlers.load (Ptr.ofBlock c.block) = .ok (Linked.setNext p c.cell.2)) ∧
      ∃ a, s.1.nodes.load (Ptr.ofBlock n.block) = .ok a ∧ a.object = s'.1.objectOf t := by
    rintro s s' ⟨-, L', hr, hext, htable⟩
    obtain ⟨n', hn', hb, hp⟩ := hext t n hn
    have hc' := getElem?_extend hp hc
    obtain ⟨a, ha, hobject, -⟩ := hr.load_node hn'
    exact ⟨⟨_, hr.load_handler hn' hc'⟩, a, hb ▸ ha, htable ▸ hobject⟩
  obtain ⟨⟨p, hload⟩, -⟩ := hcells s s' hm
  rw [runHandler, Table.runHandler, hload, Traced.liftM_eq, Traced.ofExcept_ok_bind]
  refine Sim.bind (callPre_sim hooks hm _ _) ?_
  intro s₁ s₁' hm₁
  obtain ⟨⟨p₁, hload₁⟩, a, hnode₁, hobject₁⟩ := hcells s₁ s₁' hm₁
  rw [hload₁, hnode₁, Traced.liftM_eq, Traced.liftM_eq, Traced.ofExcept_ok_bind,
    Traced.ofExcept_ok_bind, hobject₁]
  refine Sim.bind (callOp_sim hooks hm₁ _ _ args) ?_
  intro s₂ s₂' hm₂
  obtain ⟨⟨p₂, hload₂⟩, -⟩ := hcells s₂ s₂' hm₂
  rw [hload₂, Traced.liftM_eq, Traced.ofExcept_ok_bind]
  exact callPost_sim hooks hm₂ _ _

/-- The walk through the handlers of a node, from the handler with a given index on.  The
induction is on the fuel; the layout grows from one handler to the next. -/
lemma executeFrom_sim (v : String) (args : A) (fuel : ℕ) :
    ∀ {L : List NodeAt} {n : NodeAt} {s : Heap × ω} {s' : Table × ω} (i : ℕ), Rep s.1 L →
      tableOf L = s'.1 → s.2 = s'.2 → nodeOf L t = some n →
      Sim (Matches L) (executeFrom hooks.onHeap (Ptr.ofBlock n.block) (some v) args fuel
          (n.handlers[i]?.bind fun d => Ptr.ofBlock d.block) s)
        (Table.executeFrom hooks.onTable t v args fuel i s') := by
  induction fuel with
  | zero =>
    intro L n s s' i hr htable hω hn
    exact Sim.error _
  | succ fuel ih =>
    intro L n s s' i hr htable hω hn
    have hm : Matches L s s' := ⟨hω, L, hr, Extends.refl L, htable⟩
    have hitems := Rep.itemsOf_tableOf hn
    rw [htable] at hitems
    rw [Table.executeFrom, hitems, List.getElem?_map]
    rcases hc : n.handlers[i]? with _ | c
    · exact Sim.pure hm
    · have hload := hr.load_handler hn hc
      have hcmp := hr.strcmp_verb hn hc v
      show Sim (Matches L) (executeFrom hooks.onHeap _ _ args (fuel + 1) (some ⟨c.block, 0⟩) s) _
      rw [executeFrom, ← Ptr.ofBlock, hload, Traced.liftM_eq, Traced.ofExcept_ok_bind]
      have hcmp' : strcmp (s.1.strings.load (Linked.setNext
          (n.handlers[i + 1]?.bind fun d => Ptr.ofBlock d.block) c.cell.2).name)
          (charPtr (some v)) = .ok (c.handler.verb == v) := hcmp
      rw [hcmp', Traced.liftM_eq, Traced.ofExcept_ok_bind]
      by_cases hv : c.handler.verb = v
      · -- the hooks of the handler, and then the walk in the layout that they leave
        simp only [hv, beq_self_eq_true, if_true, Option.map_some]
        refine Sim.bind (runHandler_sim hooks hm hn hc args) ?_
        rintro s₁ s₁' ⟨hω₁, L₁, hr₁, hext₁, htable₁⟩
        obtain ⟨n₁, hn₁, hb₁, hp₁⟩ := hext₁ t n hn
        rw [hr₁.load_handler hn₁ (getElem?_extend hp₁ hc), Traced.liftM_eq,
          Traced.ofExcept_ok_bind, ← hb₁]
        exact (ih (i + 1) hr₁ htable₁ hω₁ hn₁).mono fun x x' hx => hx.of_extends hext₁
      · have hv' : (c.handler.verb == v) = false := by simpa using hv
        simp only [hv', Bool.false_eq_true, if_false, Option.map_some, hv]
        exact ih (i + 1) hr htable hω hn

/-- **`dispatch_table_execute` runs the handlers of the table.**  On memory that represents a
table, and for hooks that return and only bind, it makes the calls that the table makes, ends
as the table ends, and leaves memory that represents the table that is left. -/
theorem dispatch_table_execute_sim {h : Heap} {T : Table} (hr : h.Represents T) (fuel : ℕ)
    (t v : String) (args : A) (e : ω) :
    Sim (fun x x' => x.2 = x'.2 ∧ x.1.Represents x'.1)
      (dispatch_table_execute hooks.onHeap fuel (some t) (some v) args (h, e))
      (Table.execute hooks.onTable fuel t v args (T, e)) := by
  obtain ⟨L, hr, htable⟩ := hr
  rw [dispatch_table_execute, Table.execute, hr.find_node t, ← htable, entry_tableOf,
    Traced.liftM_eq, Traced.ofExcept_ok_bind]
  rcases hn : nodeOf L t with _ | n
  · exact Sim.pure ⟨rfl, L, hr, rfl⟩
  · obtain ⟨a, hload, -, hhandler⟩ := hr.load_node hn
    show Sim _ (liftM (h.nodes.load (Ptr.ofBlock n.block)) >>= fun n' =>
      executeFrom hooks.onHeap (Ptr.ofBlock n.block) (some v) args fuel n'.handler (h, e)) _
    rw [hload, Traced.liftM_eq, Traced.ofExcept_ok_bind, hhandler]
    refine (executeFrom_sim hooks v args fuel 0 hr rfl rfl hn).mono ?_
    rintro x x' ⟨hω', L', hr', -, htable'⟩
    exact ⟨hω', L', hr', htable'⟩

end Simulation

end Headcrab
