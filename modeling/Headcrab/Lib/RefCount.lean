/-
# Reference counts

A store of cells that refer to each other, each with a count of the references to it.  A cell
whose count would drop to zero is freed, and the references that it holds are given back in
turn.  `Counted s R` says that the counts are right when `R` are the references that are held
from outside: this is the one invariant, and each operation is described by what it does to
`R`.  Without cycles, what is alive can then be reached from `R`
(`Counted.reachable`), so whoever gives back all that was held of a value has freed it.
-/
import Headcrab.Lib.Store
import Mathlib.Algebra.Order.Ring.Nat
import Mathlib.Data.Finset.Lattice.Fold

/-- Values that refer to blocks of a store. -/
class Refers (β : Type) where
  /-- The references of a value, each as often as it is held. -/
  children : β → List ℕ

/-- A value with the count of the references to it. -/
structure RcCell (β : Type) where
  count : ℕ
  value : β
deriving DecidableEq, Repr

namespace RefCount

variable {β : Type}

/-- The count of a block, and zero for a block that is not there. -/
def refs (s : Store (RcCell β)) (b : ℕ) : ℕ :=
  match s.cells[b]? with
  | some (some c) => c.count
  | _ => 0

/-- The sum of all counts. -/
def total (s : Store (RcCell β)) : ℕ := (s.cells.map fun o => o.elim 0 RcCell.count).sum

variable [Refers β]

/-- The references that the cells of a store hold. -/
def edges (s : Store (RcCell β)) : List ℕ :=
  s.cells.flatMap fun o => o.elim [] fun c => Refers.children c.value

/-- The counts of the store are those of its own references and of `R`, the references that
are held from outside; and a cell that nobody refers to is not there. -/
structure Counted (s : Store (RcCell β)) (R : List ℕ) : Prop where
  refs_eq : ∀ b, refs s b = (R ++ edges s).count b
  pos : ∀ b c, s.Live b c → 0 < c.count

/-- No cell refers to itself, directly or through others. -/
def Acyclic (s : Store (RcCell β)) : Prop :=
  ∃ rank : ℕ → ℕ, ∀ b c, s.Live b c → ∀ x ∈ Refers.children c.value, rank x < rank b

/-- The block can be reached from the references `R`. -/
inductive Reachable (s : Store (RcCell β)) (R : List ℕ) : ℕ → Prop
  | root {b : ℕ} : b ∈ R → Reachable s R b
  | child {a b : ℕ} {c : RcCell β} : Reachable s R a → s.Live a c →
      b ∈ Refers.children c.value → Reachable s R b

/-- The cells that are left were there before, with their values. -/
def Shrinks (s s' : Store (RcCell β)) : Prop :=
  ∀ b c', s'.Live b c' → ∃ c, s.Live b c ∧ c.value = c'.value

/-! ## The operations -/

/-- One more reference to a block. -/
def incref (s : Store (RcCell β)) (b : ℕ) : Except Fault (Store (RcCell β)) :=
  s.modify (Ptr.ofBlock b) fun c => { c with count := c.count + 1 }

/-- Give back references one after the other; a cell that is freed gives back its own. -/
def release : ℕ → List ℕ → Store (RcCell β) → Except Fault (Store (RcCell β))
  | 0, _, _ => .error .diverges
  | _ + 1, [], s => .ok s
  | fuel + 1, b :: bs, s => do
    let c ← s.load (Ptr.ofBlock b)
    if c.count = 1 then
      let s ← s.free (Ptr.ofBlock b)
      release fuel (Refers.children c.value ++ bs) s
    else
      let s ← s.modify (Ptr.ofBlock b) fun c => { c with count := c.count - 1 }
      release fuel bs s

/-- One reference less to a block.  Every step of `release` takes one off the sum of all
counts. -/
def decref (s : Store (RcCell β)) (b : ℕ) : Except Fault (Store (RcCell β)) :=
  release (total s + 1) [b] s

/-- The store with a block freed. -/
def drop (s : Store (RcCell β)) (b : ℕ) : Store (RcCell β) := ⟨s.cells.set b none⟩

variable {s s' : Store (RcCell β)} {b : ℕ} {c : RcCell β} {R R' : List ℕ}

/-! ## One cell is changed -/

omit [Refers β]

lemma refs_of_live (h : s.Live b c) : refs s b = c.count := by
  rw [Store.Live] at h
  rw [refs, h]

lemma exists_live_of_refs_pos (h : 0 < refs s b) : ∃ c, s.Live b c := by
  rw [refs] at h
  split at h
  · rename_i c hc
    exact ⟨c, hc⟩
  · omega

lemma refs_set (hb : b < s.cells.length) (o : Option (RcCell β)) (x : ℕ) :
    refs ⟨s.cells.set b o⟩ x = if x = b then o.elim 0 RcCell.count else refs s x := by
  by_cases hx : x = b
  · subst hx
    rw [if_pos rfl, refs, List.getElem?_set_self hb]
    rcases o with _ | c <;> rfl
  · rw [if_neg hx, refs, refs, List.getElem?_set_ne (Ne.symm hx)]

lemma live_set {o : Option (RcCell β)} {x : ℕ} {c' : RcCell β}
    (h : Store.Live ⟨s.cells.set b o⟩ x c') : x = b ∧ o = some c' ∨ x ≠ b ∧ s.Live x c' := by
  rw [Store.Live] at h
  by_cases hx : x = b
  · subst hx
    rw [List.getElem?_set, if_pos rfl] at h
    split at h
    · exact Or.inl ⟨rfl, Option.some.inj h⟩
    · exact absurd h (by simp)
  · rw [List.getElem?_set_ne (Ne.symm hx)] at h
    exact Or.inr ⟨hx, h⟩

/-- A list around one of its entries, and with another entry in its place. -/
lemma exists_split_set {α : Type} {l : List α} {i : ℕ} {a : α} (h : l[i]? = some a) (a' : α) :
    ∃ l₁ l₂, l = l₁ ++ a :: l₂ ∧ l.set i a' = l₁ ++ a' :: l₂ := by
  obtain ⟨hi, rfl⟩ := List.getElem?_eq_some_iff.mp h
  obtain ⟨l₁, l₂, hl, -, hset⟩ : ∃ l₁ l₂, l = l₁ ++ l[i] :: l₂ ∧ l₁.length = i ∧
      l.set i a' = l₁ ++ a' :: l₂ := List.exists_of_set hi
  exact ⟨l₁, l₂, hl, hset⟩

lemma total_set (h : s.Live b c) (o : Option (RcCell β)) :
    total ⟨s.cells.set b o⟩ + c.count = total s + o.elim 0 RcCell.count := by
  obtain ⟨l₁, l₂, hl, hset⟩ := exists_split_set h o
  simp only [total, hset]
  rw [hl]
  simp only [List.map_append, List.map_cons, List.sum_append, List.sum_cons, Option.elim_some]
  omega

variable [Refers β]

lemma count_edges_set (h : s.Live b c) (o : Option (RcCell β)) (x : ℕ) :
    (edges ⟨s.cells.set b o⟩).count x + (Refers.children c.value).count x
      = (edges s).count x + (o.elim [] fun c => Refers.children c.value).count x := by
  obtain ⟨l₁, l₂, hl, hset⟩ := exists_split_set h o
  simp only [edges, hset]
  rw [hl]
  simp only [List.flatMap_append, List.flatMap_cons, List.count_append, Option.elim_some]
  omega

/-! ## What the counts say -/

lemma Counted.congr (h : Counted s R) (hR : ∀ x, R.count x = R'.count x) : Counted s R' := by
  refine ⟨fun x => ?_, h.pos⟩
  rw [h.refs_eq, List.count_append, List.count_append, hR]

/-- What is referred to is there. -/
lemma Counted.live (h : Counted s R) (hb : b ∈ R ++ edges s) : ∃ c, s.Live b c := by
  refine exists_live_of_refs_pos ?_
  rw [h.refs_eq]
  exact List.count_pos_iff.mpr hb

/-- The counts do not allow for references that nobody holds. -/
lemma Counted.eq_nil {N : List ℕ} (h : Counted s (N ++ R)) (h' : Counted s R) : N = [] := by
  refine List.eq_nil_iff_forall_not_mem.mpr fun x hx => ?_
  have hpos := List.count_pos_iff.mpr hx
  have heq := (h.refs_eq x).symm.trans (h'.refs_eq x)
  rw [List.append_assoc, List.count_append] at heq
  omega

lemma mem_edges {x : ℕ} : x ∈ edges s ↔ ∃ b c, s.Live b c ∧ x ∈ Refers.children c.value := by
  rw [edges, List.mem_flatMap]
  constructor
  · rintro ⟨o, ho, hx⟩
    obtain ⟨b, hb⟩ := List.mem_iff_getElem?.mp ho
    rcases o with _ | c
    · exact absurd hx (by simp)
    · exact ⟨b, c, hb, hx⟩
  · rintro ⟨b, c, hb, hx⟩
    exact ⟨some c, List.mem_of_getElem? hb, hx⟩

/-- What a cell refers to is there. -/
lemma Counted.live_child (h : Counted s R) (hb : s.Live b c) {x : ℕ}
    (hx : x ∈ Refers.children c.value) : ∃ d, s.Live x d :=
  h.live (List.mem_append_right _ (mem_edges.mpr ⟨b, c, hb, hx⟩))

/-- The counts of a given store can be checked cell by cell. -/
lemma counted_of_forall (hmem : ∀ x ∈ R ++ edges s, x < s.cells.length)
    (hrefs : ∀ x < s.cells.length, refs s x = (R ++ edges s).count x ∧
      ∀ c ∈ s.cells[x]?.join, 0 < c.count) : Counted s R := by
  constructor
  · intro x
    by_cases hx : x < s.cells.length
    · exact (hrefs x hx).1
    · rw [List.count_eq_zero.mpr fun h => hx (hmem x h), refs,
        List.getElem?_eq_none (Nat.le_of_not_lt hx)]
  · intro x c hx
    refine (hrefs x hx.lt_length).2 c ?_
    rw [Store.Live] at hx
    rw [hx]
    rfl

/-- So can a ranking of its cells. -/
lemma acyclic_of_forall (rank : ℕ → ℕ) (h : ∀ x < s.cells.length, ∀ c ∈ s.cells[x]?.join,
    ∀ y ∈ Refers.children c.value, rank y < rank x) : Acyclic s := by
  refine ⟨rank, fun x c hx => h x hx.lt_length c ?_⟩
  rw [Store.Live] at hx
  rw [hx]
  rfl

/-- A cell is given another count or another value: `lost` and `gained` are the references
that the store holds less and more than before. -/
lemma Counted.set (h : Counted s R) (hb : s.Live b c) {o : Option (RcCell β)}
    (hpos : ∀ c', o = some c' → 0 < c'.count)
    (hrefs : ∀ x, (if x = b then o.elim 0 RcCell.count else refs s x)
        + (R ++ Refers.children c.value).count x
      = refs s x + (R' ++ o.elim [] fun c => Refers.children c.value).count x) :
    Counted ⟨s.cells.set b o⟩ R' := by
  constructor
  · intro x
    have hedges := count_edges_set hb o x
    have hold := h.refs_eq x
    have hnew := hrefs x
    rw [refs_set hb.lt_length, List.count_append]
    rw [List.count_append] at hold hnew
    rw [List.count_append] at hnew
    omega
  · intro x c' hx
    rcases live_set hx with ⟨-, ho⟩ | ⟨-, hx⟩
    · exact hpos c' ho
    · exact h.pos x c' hx

/-! ## A new cell -/

omit [Refers β] in
lemma refs_malloc (c : RcCell β) (x : ℕ) :
    refs (s.malloc c).2 x = if x = s.cells.length then c.count else refs s x := by
  rw [refs, Store.malloc, refs]
  rcases Nat.lt_trichotomy x s.cells.length with hx | rfl | hx
  · rw [List.getElem?_append_left hx, if_neg (Nat.ne_of_lt hx)]
  · simp
  · rw [List.getElem?_eq_none (by simp; omega), List.getElem?_eq_none (by omega),
      if_neg (Nat.ne_of_gt hx)]

lemma edges_malloc (c : RcCell β) :
    edges (s.malloc c).2 = edges s ++ Refers.children c.value := by
  simp [edges, Store.malloc]

/-- A new cell takes over the references that its value holds, and whoever made it has the one
reference to it. -/
theorem Counted.malloc {v : β} (h : Counted s (Refers.children v ++ R)) :
    Counted (s.malloc ⟨1, v⟩).2 (s.cells.length :: R) := by
  constructor
  · intro x
    have hx := h.refs_eq x
    have hfresh : refs s s.cells.length = 0 := by
      rw [refs, List.getElem?_eq_none (Nat.le_refl _)]
    rw [refs_malloc, edges_malloc, List.cons_append, List.count_cons]
    simp only [List.count_append] at hx ⊢
    by_cases hnew : x = s.cells.length
    · rw [hnew] at hx ⊢
      simp only [if_true, beq_self_eq_true]
      omega
    · have hne : (s.cells.length == x) = false := beq_eq_false_iff_ne.mpr (Ne.symm hnew)
      simp only [hnew, hne, if_false, Bool.false_eq_true]
      omega
  · intro x c hx
    rw [Store.Live, Store.malloc] at hx
    by_cases hlt : x < s.cells.length
    · rw [List.getElem?_append_left hlt] at hx
      exact h.pos x c hx
    · rw [List.getElem?_append_right (by omega), List.getElem?_singleton] at hx
      split at hx
      · obtain rfl := Option.some.inj (Option.some.inj hx)
        exact Nat.one_pos
      · exact absurd hx (by simp)

/-! ## Taking a reference -/

theorem Counted.incref (h : Counted s R) (hb : s.Live b c) :
    incref s b = .ok (s.put b { c with count := c.count + 1 }) ∧
      Counted (s.put b { c with count := c.count + 1 }) (b :: R) := by
  refine ⟨hb.modify _, h.set hb ?_ fun x => ?_⟩
  · rintro c' ⟨⟩
    exact Nat.succ_pos _
  · simp only [Option.elim_some, List.count_append, List.count_cons]
    by_cases hx : x = b
    · subst hx
      rw [if_pos rfl, refs_of_live hb]
      simp only [BEq.rfl, if_true]
      omega
    · have hne : (b == x) = false := beq_eq_false_iff_ne.mpr (Ne.symm hx)
      simp [hx, hne]

/-! ## Giving references back -/

omit [Refers β] in
lemma Shrinks.refl (s : Store (RcCell β)) : Shrinks s s := fun _ c h => ⟨c, h, rfl⟩

omit [Refers β] in
lemma Shrinks.trans {s'' : Store (RcCell β)} (h : Shrinks s s') (h' : Shrinks s' s'') :
    Shrinks s s'' := by
  intro b c'' hb
  obtain ⟨c', hb', hc'⟩ := h' b c'' hb
  obtain ⟨c, hb, hc⟩ := h b c' hb'
  exact ⟨c, hb, hc.trans hc'⟩

omit [Refers β] in
lemma shrinks_set (hb : s.Live b c) {o : Option (RcCell β)}
    (ho : ∀ c', o = some c' → c.value = c'.value) : Shrinks s ⟨s.cells.set b o⟩ := by
  intro x c' hx
  rcases live_set hx with ⟨rfl, h⟩ | ⟨-, hx⟩
  · exact ⟨c, hb, ho c' h⟩
  · exact ⟨c', hx, rfl⟩

lemma Acyclic.shrinks (h : Acyclic s) (hs : Shrinks s s') : Acyclic s' := by
  obtain ⟨rank, hrank⟩ := h
  refine ⟨rank, fun b c' hb x hx => ?_⟩
  obtain ⟨c, hb', hc⟩ := hs b c' hb
  exact hrank b c hb' x (hc ▸ hx)

omit [Refers β] in
lemma free_of_live (hb : s.Live b c) : s.free (Ptr.ofBlock b) = .ok (drop s b) := hb.free

/-- The last reference to a cell is given back: the cell is freed, and its references are to
be given back. -/
lemma Counted.drop_last (h : Counted s (b :: R)) (hb : s.Live b c) (hc : c.count = 1) :
    Counted (drop s b) (Refers.children c.value ++ R) := by
  refine h.set hb (by simp) fun x => ?_
  simp only [Option.elim_none, List.append_nil, List.count_append, List.count_cons]
  by_cases hx : x = b
  · subst hx
    rw [if_pos rfl, refs_of_live hb, hc]
    simp only [BEq.rfl, if_true]
    omega
  · have hne : (b == x) = false := beq_eq_false_iff_ne.mpr (Ne.symm hx)
    simp only [hx, hne, if_false, Bool.false_eq_true]
    omega

/-- A reference that is not the last is given back. -/
lemma Counted.decrement (h : Counted s (b :: R)) (hb : s.Live b c) (hc : c.count ≠ 1) :
    Counted (s.put b { c with count := c.count - 1 }) R := by
  have hpos := h.pos b c hb
  refine h.set hb ?_ fun x => ?_
  · rintro c' ⟨⟩
    show 0 < c.count - 1
    omega
  · simp only [Option.elim_some, List.count_append, List.count_cons]
    by_cases hx : x = b
    · subst hx
      rw [if_pos rfl, refs_of_live hb]
      simp only [BEq.rfl, if_true]
      omega
    · have hne : (b == x) = false := beq_eq_false_iff_ne.mpr (Ne.symm hx)
      simp [hx, hne]

/-- References that are held can be given back, and then they are no longer held.  The
induction is on the fuel, of which every step takes one unit, and one off the sum of the
counts. -/
theorem Counted.release (fuel : ℕ) : ∀ (bs : List ℕ) (s : Store (RcCell β)),
    total s < fuel → Counted s (bs ++ R) →
    ∃ s', release fuel bs s = .ok s' ∧ Counted s' R ∧ Shrinks s s' := by
  induction fuel with
  | zero => exact fun _ s h => absurd h (Nat.not_lt_zero _)
  | succ fuel ih =>
    intro bs s hfuel h
    rcases bs with _ | ⟨b, bs⟩
    · exact ⟨s, rfl, h, .refl s⟩
    · obtain ⟨c, hb⟩ := h.live (b := b) (by simp)
      rw [RefCount.release, hb.load]
      have hpos := h.pos b c hb
      by_cases hc : c.count = 1
      · -- the cell is freed
        have htotal := total_set hb none
        rw [Option.elim_none] at htotal
        obtain ⟨s', hs', hcounted, hshrinks⟩ := ih (Refers.children c.value ++ bs) (drop s b)
          (by rw [drop]; omega) (by rw [List.append_assoc]; exact h.drop_last hb hc)
        refine ⟨s', ?_, hcounted, (shrinks_set hb (by simp)).trans hshrinks⟩
        simp only [bind, Except.bind, hc, if_true, free_of_live hb]
        exact hs'
      · have htotal := total_set hb (some { c with count := c.count - 1 })
        rw [Option.elim_some] at htotal
        obtain ⟨s', hs', hcounted, hshrinks⟩ := ih bs (s.put b { c with count := c.count - 1 })
          (by rw [Store.put]; simp only at htotal; omega) (h.decrement hb hc)
        refine ⟨s', ?_, hcounted, (shrinks_set hb ?_).trans hshrinks⟩
        · simp only [bind, Except.bind, hc, if_false, hb.modify]
          exact hs'
        · rintro c' ⟨⟩
          rfl

theorem Counted.decref (h : Counted s (b :: R)) :
    ∃ s', decref s b = .ok s' ∧ Counted s' R ∧ Shrinks s s' :=
  Counted.release (total s + 1) [b] s (Nat.lt_succ_self _) h

/-! ## What is alive is reachable -/

/-- **Without cycles, what is there can be reached from the references that are held.** -/
theorem Counted.reachable (h : Counted s R) (hacyclic : Acyclic s) (hb : s.Live b c) :
    Reachable s R b := by
  obtain ⟨rank, hrank⟩ := hacyclic
  -- the ranks are bounded, and whoever refers to a cell has a higher one
  let top := (Finset.range s.cells.length).sup rank
  have htop : ∀ b c, s.Live b c → rank b ≤ top := fun b c hb =>
    Finset.le_sup (f := rank) (Finset.mem_range.mpr hb.lt_length)
  have key : ∀ n b c, s.Live b c → top - rank b < n → Reachable s R b := by
    intro n
    induction n with
    | zero => exact fun b c _ hn => absurd hn (Nat.not_lt_zero _)
    | succ n ih =>
      intro b c hb hn
      have hmem : b ∈ R ++ edges s := by
        rw [← List.count_pos_iff, ← h.refs_eq, refs_of_live hb]
        exact h.pos b c hb
      rcases List.mem_append.mp hmem with hmem | hmem
      · exact .root hmem
      · obtain ⟨a, d, ha, hchild⟩ := mem_edges.mp hmem
        have hlt := hrank a d ha b hchild
        have hle := htop a d ha
        exact .child (ih a d ha (by omega)) ha hchild
  exact key (top - rank b + 1) b c hb (Nat.lt_succ_self _)

end RefCount
