/-
# Rebinding and clearing

What `headcrab_rebind_object` and `headcrab_clear_all_object_bindings` are meant to do to a
table, and what they do to the memory that represents it.  The loop of
`dispatch_table_rebind` advances the head of the table with `++`, so it leaves the node list
at its second turn, on every table.  The loop of `dispatch_table_remove` never sets the
pointer to the previous node, so it dereferences `NULL` whenever it finds the name.
-/
import Headcrab.Bindings

namespace Headcrab

/-! ## Rebinding -/

/-- The table in which a name has another object. -/
def Table.rebind (T : Table) (n : String) (p : VoidPtr) : Table :=
  T.map fun e => if e.key = n then { e with owner := p } else e

/-- `headcrab_rebind_object` returns, and the memory represents the table in which the name,
if it has a node, has the new object, and nothing else is changed. -/
def RebindIsPointUpdate (h : Heap) (T : Table) (n : String) (p : VoidPtr) : Prop :=
  ∃ h', h.headcrab_rebind_object (some n) p = .ok h' ∧ h'.Represents (T.rebind n p)

/-- The second turn of the loop reads behind the first node. -/
lemma rebindFrom_succ (h : Heap) (n : Option String) (p : VoidPtr) (q : Ptr) (fuel : ℕ) :
    Heap.rebindFrom n p (fuel + 1) { h with dispatch_table := some q.succ }
      = .error .outOfBounds := by
  rw [Heap.rebindFrom]
  rfl

lemma Rep.rebind {h : Heap} {L : List NodeAt} (hr : Rep h L) (n : String) (p : VoidPtr) :
    h.headcrab_rebind_object (some n) p = .error .outOfBounds := by
  obtain ⟨root, L, rfl⟩ := List.exists_cons_of_ne_nil hr.ne_nil
  have hlen := hr.length_le
  obtain ⟨k, hk⟩ : ∃ k, h.nodes.cells.length = k + 1 := ⟨h.nodes.cells.length - 1, by
    simp only [List.length_cons] at hlen
    omega⟩
  have hhead : h.dispatch_table = some ⟨root.block, 0⟩ := hr.head
  have hroot : Rep h ([] ++ root :: L) := hr
  have hnode := hroot.live_node
  have hload : h.nodes.load (some ⟨root.block, 0⟩) = .ok _ := hnode.load
  have hcmp : strcmp (h.strings.load (Linked.setNext (Store.headPtr (L.map NodeAt.cell))
      root.cell.2).name) (charPtr (some n)) = .ok (root.name == n) :=
    hr.strcmp_name (n := root) (by simp) _ n
  have hmodify : h.nodes.modify (some ⟨root.block, 0⟩) (fun node => { node with object := p })
      = .ok _ := hnode.modify _
  rw [Heap.headcrab_rebind_object, Heap.dispatch_table_rebind, hk, Heap.rebindFrom, hhead]
  simp only [hload, hcmp, bind, Except.bind]
  -- whether the root has the name or not, the second turn starts behind it
  cases root.name == n with
  | true =>
    simp only [if_true, hmodify]
    exact rebindFrom_succ ⟨h.strings, h.literals, _, h.handlers, h.dispatch_table⟩ _ p _ k
  | false =>
    simp only [Bool.false_eq_true, if_false]
    exact rebindFrom_succ h _ p _ k

/-- **Rebinding never is a point update.** -/
theorem rebind_never_point_update (cs : List BindCall) (n : String) (p : VoidPtr) :
    ∃ h, Heap.booted.bindAll cs = .ok h ∧
      ¬ RebindIsPointUpdate h (Table.init.bindAll cs) n p := by
  obtain ⟨h, hall, L, hr, -⟩ := bindAll_booted cs
  refine ⟨h, hall, ?_⟩
  rintro ⟨h', hok, -⟩
  rw [hr.rebind n p] at hok
  exact absurd hok (by simp)

/-- Rebinding the global name of the first table reads behind the only node. -/
theorem rebind_root_faults :
    ¬ RebindIsPointUpdate Heap.booted Table.init "" (some 1) := by
  rintro ⟨h', hok, -⟩
  have hfault : Heap.booted.headcrab_rebind_object (some "") (some 1)
      = .error .outOfBounds := rfl
  rw [hfault] at hok
  exact absurd hok (by simp)

/-! ## Clearing -/

/-- The table without a name. -/
def Table.clear (T : Table) (n : String) : Table := T.filter fun e => e.key ≠ n

/-- `headcrab_clear_all_object_bindings` returns; it changes nothing if the name is the
global one or has no node; and for any other name the memory represents the table without
it, a dispatch to it runs nothing, and a later binding opens it with its own target. -/
def ClearRemovesExactly (h : Heap) (T : Table) (n : String) : Prop :=
  ∃ h', h.headcrab_clear_all_object_bindings (some n) = .ok h' ∧
    (n = "" ∨ n ∉ Registry.keys T → h' = h) ∧
    (n ≠ "" → h'.Represents (T.clear n) ∧
      (∀ (A ω : Type) (hooks : Hooks A (Heap × ω)) (fuel : ℕ) (v : String) (args : A) (e : ω),
        dispatch_table_execute hooks fuel (some n) (some v) args (h', e) = pure (h', e)) ∧
      ∀ (target : VoidPtr) (v : String) (b : Binding), ∃ h'',
        h'.headcrab_bind_object target (some n) (some v) b = .ok h'' ∧
        h''.Represents (T.clear n ++ [⟨n, target, [⟨v, b⟩]⟩]))

/-- A name that no node has is not found, and the loop ends. -/
lemma Rep.remove_none {h : Heap} {L : List NodeAt} {n : String} (hr : Rep h L)
    (hn : nodeOf L n = none) : h.dispatch_table_remove (some n) = .ok h := by
  have hsearch : h.search (charPtr (some n)) = _ := hr.search_none hn
  rw [Heap.dispatch_table_remove, hsearch]
  rfl

/-- A name that some node has is found, and `prev_node` is still `NULL`. -/
lemma Rep.remove_found {h : Heap} {L : List NodeAt} {n : String} {m : NodeAt} (hr : Rep h L)
    (hn : nodeOf L n = some m) : h.dispatch_table_remove (some n) = .error .nullDeref := by
  obtain ⟨p, hfound⟩ := hr.search_found hn
  have hsearch : h.search (charPtr (some n)) = _ := hfound
  obtain ⟨-, L₁, L₂, rfl, -⟩ := nodeOf_eq_some hn
  have hload : h.nodes.load (some ⟨m.block, 0⟩) = _ := hr.live_node.load
  rw [Heap.dispatch_table_remove, hsearch]
  simp only [bind, Except.bind, Ptr.ofBlock, hload]
  rfl

/-- The names of a table after a history of bindings. -/
lemma mem_keys_bindAll {T : Table} {cs : List BindCall} {n : String} :
    n ∈ Registry.keys (T.bindAll cs) ↔ n ∈ Registry.keys T ∨ ∃ c ∈ cs, Table.BindsName n c := by
  induction cs generalizing T with
  | nil => simp
  | cons c cs ih =>
    have hkeys : n ∈ Registry.keys (T.bind c) ↔ n ∈ Registry.keys T ∨ Table.BindsName n c := by
      rcases hv : c.verb with _ | v
      · simp [Table.bind, Table.BindsName, hv]
      · rw [Table.bind, hv, Registry.keys_add]
        constructor
        · split
          · exact Or.inl
          · intro hmem
            rcases List.mem_append.mp hmem with hmem | hmem
            · exact Or.inl hmem
            · exact Or.inr ⟨(List.mem_singleton.mp hmem).symm, by simp [hv]⟩
        · rintro (hmem | ⟨rfl, -⟩)
          · split
            · exact hmem
            · exact List.mem_append_left _ hmem
          · split
            · assumption
            · simp
    rw [Table.bindAll_cons, ih, hkeys]
    simp only [List.exists_mem_cons_iff]
    tauto

/-- The names that have a node after a history of bindings. -/
lemma mem_keys_bindAll_init {cs : List BindCall} {n : String} :
    n ∈ Registry.keys (Table.init.bindAll cs) ↔ n = "" ∨ ∃ c ∈ cs, Table.BindsName n c := by
  rw [mem_keys_bindAll]
  simp [Registry.keys, Table.init]

lemma Table.clear_of_notMem {T : Table} {n : String} (h : n ∉ Registry.keys T) :
    T.clear n = T := by
  refine List.filter_eq_self.mpr fun e he => ?_
  rw [decide_eq_true_eq]
  rintro rfl
  exact h (List.mem_map_of_mem he)

/-- A name other than the global one is looked for. -/
lemma clear_eq_remove {n : String} (hn : n ≠ "") (h : Heap) :
    h.headcrab_clear_all_object_bindings (some n) = h.dispatch_table_remove (some n) := by
  simp [Heap.headcrab_clear_all_object_bindings, charPtr, hn, bind, Except.bind]

/-- A name that the table does not have is cleared by doing nothing. -/
lemma Rep.clear_notMem {h : Heap} {L : List NodeAt} {n : String} (hr : Rep h L) (hroot : n ≠ "")
    (hkeys : n ∉ Registry.keys (tableOf L)) : ClearRemovesExactly h (tableOf L) n := by
  have hn : nodeOf L n = none := by
    rw [← Option.map_eq_none_iff (f := NodeAt.entry), ← entry_tableOf]
    exact Registry.entry_eq_none.mpr hkeys
  have hclear := Table.clear_of_notMem hkeys
  refine ⟨h, ?_, fun _ => rfl, fun _ => ⟨⟨L, hr, hclear.symm⟩, ?_, ?_⟩⟩
  · rw [clear_eq_remove hroot]
    exact hr.remove_none hn
  · intro A ω hooks fuel v args e
    rw [dispatch_table_execute, hr.find_node n, hn, Traced.liftM_eq]
    exact Traced.ofExcept_ok_bind _ _
  · intro target v b
    obtain ⟨h', L', hcall, hr', -, htable'⟩ := hr.bindCall ⟨target, n, some v, b⟩
    refine ⟨h', hcall, L', hr', ?_⟩
    rw [htable', hclear, Table.bind]
    exact Registry.add_of_notMem hkeys

/-- A name that the table has, and that is not the global one, makes the call fault. -/
lemma Rep.clear_mem {h : Heap} {L : List NodeAt} {n : String} (hr : Rep h L) (hroot : n ≠ "")
    (hkeys : n ∈ Registry.keys (tableOf L)) :
    h.headcrab_clear_all_object_bindings (some n) = .error .nullDeref := by
  rw [clear_eq_remove hroot]
  rcases hn : nodeOf L n with _ | m
  · exact absurd hkeys (notMem_keys (nodeOf_eq_none hn))
  · exact hr.remove_found hn

/-- **When clearing removes exactly one name.**  Exactly when there is nothing to remove: the
name is the global one, or no binding of the history has made a node for it. -/
theorem clear_removes_exactly_iff (cs : List BindCall) (n : String) :
    (∃ h, Heap.booted.bindAll cs = .ok h ∧
        ClearRemovesExactly h (Table.init.bindAll cs) n) ↔
      n = "" ∨ ∀ c ∈ cs, ¬ Table.BindsName n c := by
  obtain ⟨h, hall, L, hr, htable⟩ := bindAll_booted cs
  by_cases hroot : n = ""
  · subst hroot
    exact ⟨fun _ => Or.inl rfl,
      fun _ => ⟨h, hall, h, rfl, fun _ => rfl, fun hne => absurd rfl hne⟩⟩
  constructor
  · rintro ⟨h₁, hall₁, h', hok, -⟩
    obtain rfl : h = h₁ := Except.ok.inj (hall.symm.trans hall₁)
    -- a node that was bound is found, and the call does not return
    refine Or.inr fun c hc hbinds => ?_
    have hkeys : n ∈ Registry.keys (tableOf L) := by
      rw [htable]
      exact mem_keys_bindAll_init.mpr (Or.inr ⟨c, hc, hbinds⟩)
    rw [hr.clear_mem hroot hkeys] at hok
    exact absurd hok (by simp)
  · intro hnone
    have hkeys : n ∉ Registry.keys (tableOf L) := by
      rw [htable, mem_keys_bindAll_init]
      rintro (hmem | ⟨c, hc, hbinds⟩)
      · exact hroot hmem
      · exact hnone.resolve_left hroot c hc hbinds
    refine ⟨h, hall, ?_⟩
    rw [← htable]
    exact hr.clear_notMem hroot hkeys

/-- Clearing a bound name dereferences `NULL`. -/
theorem clear_bound_name_faults : ¬ ∃ h, Heap.booted.bindAll [bindBall "move"] = .ok h ∧
    ClearRemovesExactly h (Table.init.bindAll [bindBall "move"]) "ball" := by
  rintro ⟨h, hall, h', hok, -⟩
  have hfault : (Heap.booted.bindAll [bindBall "move"]).bind
      (fun h => h.headcrab_clear_all_object_bindings (some "ball")) = .error .nullDeref := rfl
  rw [hall] at hfault
  exact absurd (hok.symm.trans hfault) (by simp)

end Headcrab
