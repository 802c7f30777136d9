/-
# Who can get at a cell

With counts that are right, a reference that is the only one to its cell is an exclusive one:
the cell cannot be reached in any other way (`exclusive_of_refs`, `not_reachable`).  Two parties
with references from which no cell can be reached in common (`Separate`, `Apart`) do not get in
each other's way: what the one does to its cells leaves those of the other with their values
(`Kept`), whatever becomes of the counts.
-/
import Headcrab.Lib.RefCount

namespace RefCount

variable {β : Type} [Refers β] {s s' s'' : Store (RcCell β)} {Q Q' R : List ℕ} {b : ℕ}

/-! ## What can be reached -/

lemma Reachable.mono (h : ∀ b ∈ Q, b ∈ Q') (hb : Reachable s Q b) : Reachable s Q' b := by
  induction hb with
  | root hmem => exact .root (h _ hmem)
  | child _ hlive hmem ih => exact .child ih hlive hmem

lemma reachable_append_iff :
    Reachable s (Q ++ Q') b ↔ Reachable s Q b ∨ Reachable s Q' b := by
  constructor
  · intro h
    induction h with
    | root hmem => exact (List.mem_append.mp hmem).imp .root .root
    | child _ hlive hmem ih => exact ih.imp (·.child hlive hmem) (·.child hlive hmem)
  · rintro (h | h)
    · exact h.mono fun _ => List.mem_append_left _
    · exact h.mono fun _ => List.mem_append_right _

lemma Reachable.exists_root (h : Reachable s Q b) : ∃ a ∈ Q, Reachable s [a] b := by
  induction h with
  | root hmem => exact ⟨_, hmem, .root (List.mem_singleton_self _)⟩
  | child _ hlive hmem ih =>
    obtain ⟨a, ha, hreach⟩ := ih
    exact ⟨a, ha, hreach.child hlive hmem⟩

/-- What can be reached from a cell's references can be reached from the cell. -/
lemma Reachable.of_children {c : RcCell β} {x : ℕ} (hb : s.Live b c)
    (hQ : ∀ x ∈ Q, x ∈ Refers.children c.value) (hx : Reachable s Q x) : Reachable s [b] x := by
  induction hx with
  | root hmem => exact .child (.root (List.mem_singleton_self b)) hb (hQ _ hmem)
  | child _ hlive hmem ih => exact .child ih hlive hmem

lemma Counted.exists_live (h : Counted s R) (hQ : ∀ x ∈ Q, x ∈ R) (hb : Reachable s Q b) :
    ∃ c, s.Live b c := by
  cases hb with
  | root hmem => exact h.live (List.mem_append_left _ (hQ _ hmem))
  | child _ hlive hmem => exact h.live_child hlive hmem

lemma Shrinks.reachable (h : Shrinks s s') (hb : Reachable s' Q b) : Reachable s Q b := by
  induction hb with
  | root hmem => exact .root hmem
  | child _ hlive hmem ih =>
    obtain ⟨c, hc, hvalue⟩ := h _ _ hlive
    exact .child ih hc (hvalue ▸ hmem)

/-! ## Exclusive references -/

/-- Nothing refers to a cell but the one reference that is held from outside. -/
def Exclusive (s : Store (RcCell β)) (b : ℕ) (R : List ℕ) : Prop := b ∉ R ∧ b ∉ edges s

lemma exclusive_of_refs (h : Counted s (b :: R)) (hone : refs s b = 1) : Exclusive s b R := by
  have hcount := h.refs_eq b
  rw [hone, List.cons_append, List.count_cons_self, List.count_append] at hcount
  exact ⟨List.count_eq_zero.mp (by omega), List.count_eq_zero.mp (by omega)⟩

/-- A cell that nothing refers to cannot be reached. -/
lemma not_reachable (hQ : b ∉ Q) (hedges : b ∉ edges s) : ¬ Reachable s Q b := by
  intro h
  cases h with
  | root hmem => exact hQ hmem
  | child _ hlive hmem => exact hedges (mem_edges.mpr ⟨_, _, hlive, hmem⟩)

/-! ## Cells that are left alone -/

/-- What can be reached from the references `Q` is there, with the values that it had. -/
def Kept (Q : List ℕ) (s s' : Store (RcCell β)) : Prop :=
  ∀ b, Reachable s Q b → ∀ c, s.Live b c → ∃ c', s'.Live b c' ∧ c'.value = c.value

lemma Kept.mono (h : Kept Q s s') (hQ : ∀ b ∈ Q', b ∈ Q) : Kept Q' s s' :=
  fun b hb => h b (hb.mono hQ)

lemma Kept.reachable (h : Kept Q s s') (hb : Reachable s Q b) : Reachable s' Q b := by
  induction hb with
  | root hmem => exact .root hmem
  | child ha hlive hmem ih =>
    obtain ⟨c', hlive', hvalue⟩ := h _ ha _ hlive
    exact .child ih hlive' (hvalue ▸ hmem)

lemma Kept.trans (h : Kept Q s s') (h' : Kept Q s' s'') : Kept Q s s'' := by
  intro b hb c hlive
  obtain ⟨c', hlive', hvalue⟩ := h b hb c hlive
  obtain ⟨c'', hlive'', hvalue'⟩ := h' b (h.reachable hb) c' hlive'
  exact ⟨c'', hlive'', hvalue'.trans hvalue⟩

/-- Nothing else can be reached than before. -/
lemma Kept.reachable_of_after (h : Kept Q s s') (hlive : ∀ x, Reachable s Q x → ∃ c, s.Live x c)
    (hb : Reachable s' Q b) : Reachable s Q b := by
  induction hb with
  | root hmem => exact .root hmem
  | child _ hlive' hmem ih =>
    obtain ⟨c, hc⟩ := hlive _ ih
    obtain ⟨c', hc', hvalue⟩ := h _ ih c hc
    obtain rfl := hc'.inj hlive'
    exact .child ih hc (hvalue ▸ hmem)

/-- If the counts are right, the cells that are left need only have their values. -/
lemma kept_of_same (h' : Counted s' R) (hQ : ∀ x ∈ Q, ∃ c', s'.Live x c')
    (hsame : ∀ x c c', Reachable s Q x → s.Live x c → s'.Live x c' → c'.value = c.value) :
    Kept Q s s' := by
  -- what can be reached is there
  have hthere : ∀ {x}, Reachable s Q x → ∃ c', s'.Live x c' := by
    intro x hx
    induction hx with
    | root hmem => exact hQ _ hmem
    | child ha hlive hmem ih =>
      obtain ⟨c', hlive'⟩ := ih
      exact h'.live_child hlive' (hsame _ _ _ ha hlive hlive' ▸ hmem)
  intro x hx c hlive
  obtain ⟨c', hlive'⟩ := hthere hx
  exact ⟨c', hlive', hsame x c c' hx hlive hlive'⟩

lemma Kept.of_shrinks (h : Shrinks s s') (h' : Counted s' R) (hQ : ∀ x ∈ Q, x ∈ R) :
    Kept Q s s' := by
  refine kept_of_same h' (fun x hx => h'.live (List.mem_append_left _ (hQ x hx))) ?_
  intro x c c' _ hlive hlive'
  obtain ⟨d, hd, hvalue⟩ := h x c' hlive'
  rw [hlive.inj hd, hvalue]

/-! ## Parties that do not share a cell -/

/-- Nothing can be reached from both. -/
def Separate (s : Store (RcCell β)) (Q Q' : List ℕ) : Prop :=
  ∀ x, Reachable s Q x → ¬ Reachable s Q' x

lemma Separate.symm (h : Separate s Q Q') : Separate s Q' Q := fun x hx hx' => h x hx' hx

/-- Nothing that can be reached from one of the references `Q` can be reached from another one of
them, or from the references `R`. -/
structure Apart (s : Store (RcCell β)) (Q R : List ℕ) : Prop where
  pairwise : Q.Pairwise fun a b => Separate s [a] [b]
  rest : ∀ a ∈ Q, Separate s [a] R

lemma Apart.perm (h : Apart s Q R) (hQ : Q.Perm Q') : Apart s Q' R :=
  ⟨(hQ.pairwise_iff fun h => h.symm).mp h.pairwise, fun a ha => h.rest a (hQ.symm.subset ha)⟩

lemma Apart.imp {R' : List ℕ} (h : Apart s Q R)
    (hQ : ∀ a ∈ Q, ∀ x, Reachable s' [a] x → Reachable s [a] x)
    (hR : ∀ x, Reachable s' R' x → Reachable s R x) : Apart s' Q R' := by
  refine ⟨h.pairwise.imp_of_mem ?_, ?_⟩
  · intro a b ha hb hab x hxa hxb
    exact hab x (hQ a ha x hxa) (hQ b hb x hxb)
  · intro a ha x hxa hx
    exact h.rest a ha x (hQ a ha x hxa) (hR x hx)

lemma Apart.separate (h : Apart s Q R) : Separate s Q R := by
  intro x hx
  obtain ⟨a, ha, hx⟩ := hx.exists_root
  exact h.rest a ha x hx

lemma Apart.cons {a : ℕ} (h : Apart s Q R) (hQ : Separate s [a] Q) (hR : Separate s [a] R) :
    Apart s (a :: Q) R := by
  refine ⟨List.pairwise_cons.mpr ⟨?_, h.pairwise⟩, List.forall_mem_cons.mpr ⟨hR, h.rest⟩⟩
  intro b hb x hxa hxb
  refine hQ x hxa (hxb.mono fun y hy => ?_)
  rwa [List.mem_singleton.mp hy]

lemma Apart.head {a : ℕ} (h : Apart s (a :: Q) R) : Separate s [a] Q := by
  intro x hxa hx
  obtain ⟨b, hb, hxb⟩ := hx.exists_root
  exact List.rel_of_pairwise_cons h.pairwise hb x hxa hxb

lemma Apart.tail {a : ℕ} (h : Apart s (a :: Q) R) : Apart s Q R :=
  ⟨h.pairwise.of_cons, fun b hb => h.rest b (List.mem_cons_of_mem a hb)⟩

lemma Apart.cons_rest {a : ℕ} (h : Apart s Q R) (hQ : Separate s [a] Q) : Apart s Q (a :: R) := by
  refine ⟨h.pairwise, ?_⟩
  intro b hb x hxb hx
  rcases reachable_append_iff.mp (show Reachable s ([a] ++ R) x from hx) with hx | hx
  · refine hQ x hx (hxb.mono fun y hy => ?_)
    rwa [List.mem_singleton.mp hy]
  · exact h.rest b hb x hxb hx

end RefCount
