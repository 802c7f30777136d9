/-
# Circular lists in a store

A circular list has a head that carries nothing, and nodes that are linked both ways, the last
one to the head again.  What is in memory is said by the blocks of the nodes in order: any two
that follow each other are joined (`Circle`).  To insert a node or to take one out changes the
links of its two neighbours only, and nothing that a node carries.
-/
import Mathlib.Data.List.Chain
import Mathlib.Data.List.Nodup
import Mathlib.Data.List.Perm.Subperm
import Headcrab.Lib.Store

/-- A node of a circular list, with what it carries. -/
structure CircleNode (β : Type) where
  prev : ℕ
  next : ℕ
  data : β
deriving DecidableEq, Repr

namespace Circle

variable {β : Type}

/-- A node that is linked to itself. -/
def init (s : Store (CircleNode β)) (list : ℕ) : Except Fault (Store (CircleNode β)) := do
  let s ← s.modify (Ptr.ofBlock list) fun c => { c with next := list }
  s.modify (Ptr.ofBlock list) fun c => { c with prev := list }

/-- `node` is inserted before `list`. -/
def insert (s : Store (CircleNode β)) (list node : ℕ) : Except Fault (Store (CircleNode β)) := do
  let s ← s.modify (Ptr.ofBlock node) fun c => { c with next := list }
  let before := (← s.load (Ptr.ofBlock list)).prev
  let s ← s.modify (Ptr.ofBlock node) fun c => { c with prev := before }
  let s ← s.modify (Ptr.ofBlock before) fun c => { c with next := node }
  s.modify (Ptr.ofBlock list) fun c => { c with prev := node }

/-- `list` is taken out. -/
def remove (s : Store (CircleNode β)) (list : ℕ) : Except Fault (Store (CircleNode β)) := do
  let c ← s.load (Ptr.ofBlock list)
  let s ← s.modify (Ptr.ofBlock c.prev) fun d => { d with next := c.next }
  let c ← s.load (Ptr.ofBlock list)
  s.modify (Ptr.ofBlock c.next) fun d => { d with prev := c.prev }

/-! ## What is in memory -/

section

variable (s : Store (CircleNode β)) (b : ℕ)

def node? : Option (CircleNode β) := s.cells[b]?.join

def next? : Option ℕ := (node? s b).map CircleNode.next

def prev? : Option ℕ := (node? s b).map CircleNode.prev

def data? : Option β := (node? s b).map CircleNode.data

end

/-- `b` follows on `a`. -/
def Joined (s : Store (CircleNode β)) (a b : ℕ) : Prop := next? s a = some b ∧ prev? s b = some a

/-- The nodes in the blocks `l`, in order, make a circle with the head `list`. -/
structure IsCircle (s : Store (CircleNode β)) (list : ℕ) (l : List ℕ) : Prop where
  nodup : (list :: l).Nodup
  joined : (list :: l ++ [list]).IsChain (Joined s)

variable {s s' : Store (CircleNode β)} {a b x list : ℕ} {c : CircleNode β} {l l₁ l₂ : List ℕ}

lemma node?_eq_some_iff : node? s b = some c ↔ s.Live b c := by
  rw [node?, Store.Live]
  rcases s.cells[b]? with _ | _ | _ <;> simp

/-- What a step does to the links, and that it leaves alone what the nodes carry. -/
structure Relinks (s s' : Store (CircleNode β)) (next prev : ℕ → Option ℕ) : Prop where
  next : ∀ a, next? s' a = next a
  prev : ∀ a, prev? s' a = prev a
  data : ∀ a, data? s' a = data? s a
  length : s'.cells.length = s.cells.length

lemma node?_put (h : s.Live b c) (d : CircleNode β) (a : ℕ) :
    node? (s.put b d) a = if a = b then some d else node? s a := by
  by_cases ha : a = b
  · subst ha
    rw [if_pos rfl, node?_eq_some_iff]
    exact h.put_self d
  · rw [if_neg ha, node?, node?, Store.put, List.getElem?_set_ne (Ne.symm ha)]

/-- A link is set. -/
lemma modify_next (h : s.Live b c) (n : ℕ) :
    ∃ s', s.modify (Ptr.ofBlock b) (fun c => { c with next := n }) = .ok s' ∧
      Relinks s s' (fun a => if a = b then some n else next? s a) (prev? s) := by
  refine ⟨_, h.modify _, fun a => ?_, fun a => ?_, fun a => ?_, by simp [Store.put]⟩ <;>
  · have hb := node?_eq_some_iff.mpr h
    simp only [next?, prev?, data?, node?_put h]
    split
    · rename_i ha
      simp [ha, hb]
    · rfl

lemma modify_prev (h : s.Live b c) (n : ℕ) :
    ∃ s', s.modify (Ptr.ofBlock b) (fun c => { c with prev := n }) = .ok s' ∧
      Relinks s s' (next? s) (fun a => if a = b then some n else prev? s a) := by
  refine ⟨_, h.modify _, fun a => ?_, fun a => ?_, fun a => ?_, by simp [Store.put]⟩ <;>
  · have hb := node?_eq_some_iff.mpr h
    simp only [next?, prev?, data?, node?_put h]
    split
    · rename_i ha
      simp [ha, hb]
    · rfl

/-- A node that was there is there. -/
lemma Relinks.exists_live {next prev : ℕ → Option ℕ} (h : Relinks s s' next prev)
    (hb : s.Live b c) : ∃ c', s'.Live b c' := by
  have hdata := h.data b
  rw [data?, data?, node?_eq_some_iff.mpr hb] at hdata
  obtain ⟨c', hc', -⟩ := Option.map_eq_some_iff.mp hdata
  exact ⟨c', node?_eq_some_iff.mp hc'⟩

lemma exists_live_of_next (h : next? s a = some b) : ∃ c, s.Live a c ∧ c.next = b := by
  obtain ⟨c, hc, hb⟩ := Option.map_eq_some_iff.mp h
  exact ⟨c, node?_eq_some_iff.mp hc, hb⟩

lemma exists_live_of_prev (h : prev? s a = some b) : ∃ c, s.Live a c ∧ c.prev = b := by
  obtain ⟨c, hc, hb⟩ := Option.map_eq_some_iff.mp h
  exact ⟨c, node?_eq_some_iff.mp hc, hb⟩

/-- The links after a node has been inserted behind `before`. -/
lemma insert_spec {before : ℕ} (hx : s.Live x c) (hbefore : next? s before = some list)
    (hlist : prev? s list = some before) :
    ∃ s', insert s list x = .ok s' ∧ Relinks s s'
      (fun a => if a = before then some x else if a = x then some list else next? s a)
      (fun a => if a = list then some x else if a = x then some before else prev? s a) := by
  obtain ⟨cl, hcl, -⟩ := exists_live_of_prev hlist
  obtain ⟨cb, hcb, -⟩ := exists_live_of_next hbefore
  obtain ⟨s₁, h₁, hs₁⟩ := modify_next hx list
  have hlist₁ := hs₁.prev list
  rw [hlist] at hlist₁
  obtain ⟨cl₁, hcl₁, rfl⟩ := exists_live_of_prev hlist₁
  obtain ⟨cx₁, hcx₁⟩ := hs₁.exists_live hx
  obtain ⟨s₂, h₂, hs₂⟩ := modify_prev hcx₁ cl₁.prev
  obtain ⟨cb₁, hcb₁⟩ := hs₁.exists_live hcb
  obtain ⟨cb₂, hcb₂⟩ := hs₂.exists_live hcb₁
  obtain ⟨s₃, h₃, hs₃⟩ := modify_next hcb₂ x
  obtain ⟨cl₂, hcl₂⟩ := hs₂.exists_live hcl₁
  obtain ⟨cl₃, hcl₃⟩ := hs₃.exists_live hcl₂
  obtain ⟨s₄, h₄, hs₄⟩ := modify_prev hcl₃ x
  refine ⟨s₄, ?_, fun a => ?_, fun a => ?_, fun a => ?_, ?_⟩
  · rw [insert, h₁]
    simp only [bind, Except.bind, hcl₁.load, h₂, h₃, h₄]
  · rw [hs₄.next, hs₃.next, hs₂.next, hs₁.next]
  · rw [hs₄.prev, hs₃.prev, hs₂.prev, hs₁.prev]
  · rw [hs₄.data, hs₃.data, hs₂.data, hs₁.data]
  · rw [hs₄.length, hs₃.length, hs₂.length, hs₁.length]

/-- The links after a node between two others has been taken out. -/
lemma remove_spec {before after : ℕ} (hprev : prev? s x = some before)
    (hnext : next? s x = some after) (hbefore : next? s before = some x)
    (hafter : prev? s after = some x) (hxb : x ≠ before) :
    ∃ s', remove s x = .ok s' ∧ Relinks s s'
      (fun a => if a = before then some after else next? s a)
      (fun a => if a = after then some before else prev? s a) := by
  obtain ⟨cx, hcx, rfl⟩ := exists_live_of_prev hprev
  obtain rfl : cx.next = after := by
    obtain ⟨c, hc, hnext⟩ := exists_live_of_next hnext
    rw [hcx.inj hc, hnext]
  obtain ⟨cb, hcb, -⟩ := exists_live_of_next hbefore
  obtain ⟨ca, hca, -⟩ := exists_live_of_prev hafter
  obtain ⟨s₁, h₁, hs₁⟩ := modify_next hcb cx.next
  -- the node itself still has its links
  have hprev₁ := hs₁.prev x
  have hnext₁ := hs₁.next x
  rw [hprev] at hprev₁
  rw [if_neg hxb, hnext] at hnext₁
  obtain ⟨cx₁, hcx₁, hbefore₁⟩ := exists_live_of_prev hprev₁
  have hafter₁ : cx₁.next = cx.next := by
    obtain ⟨c, hc, hnext⟩ := exists_live_of_next hnext₁
    rw [hcx₁.inj hc, hnext]
  obtain ⟨ca₁, hca₁⟩ := hs₁.exists_live hca
  obtain ⟨s₂, h₂, hs₂⟩ := modify_prev hca₁ cx.prev
  refine ⟨s₂, ?_, fun a => ?_, fun a => ?_, fun a => ?_, ?_⟩
  · rw [remove, hcx.load]
    simp only [bind, Except.bind, h₁, hcx₁.load, hafter₁, hbefore₁, h₂]
  · rw [hs₂.next, hs₁.next]
  · rw [hs₂.prev, hs₁.prev]
  · rw [hs₂.data, hs₁.data]
  · rw [hs₂.length, hs₁.length]

/-! ## Circles -/

/-- Links that are left alone. -/
lemma isChain_relinks {next prev : ℕ → Option ℕ} (h : l.IsChain (Joined s))
    (hs : Relinks s s' next prev) (hnext : ∀ a ∈ l, ∀ b ∈ l.tail, next? s a = some b →
      next a = next? s a) (hprev : ∀ b ∈ l.tail, prev b = prev? s b) : l.IsChain (Joined s') := by
  refine h.imp_of_mem_tail_imp fun a b ha hb hab => ⟨?_, ?_⟩
  · rw [hs.next, hnext a ha b hb hab.1]
    exact hab.1
  · rw [hs.prev, hprev b hb]
    exact hab.2

/-- A place in a circle: the node before it, and the one behind. -/
structure Seam (list : ℕ) (l₁ l₂ as bs : List ℕ) (before after : ℕ) : Prop where
  left : list :: l₁ = as ++ [before]
  right : l₂ ++ [list] = after :: bs

lemma exists_seam (list : ℕ) (l₁ l₂ : List ℕ) :
    ∃ as bs before after, Seam list l₁ l₂ as bs before after := by
  obtain ⟨as, before, h₁⟩ := (List.eq_nil_or_concat' (list :: l₁)).resolve_left (by simp)
  obtain ⟨after, bs, h₂⟩ := List.exists_cons_of_ne_nil (l := l₂ ++ [list]) (by simp)
  exact ⟨as, bs, before, after, h₁, h₂⟩

namespace Seam

variable {as bs : List ℕ} {before after : ℕ}

lemma before_mem (h : Seam list l₁ l₂ as bs before after) : before ∈ list :: l₁ := by
  simp [h.left]

lemma after_mem (h : Seam list l₁ l₂ as bs before after) : after ∈ l₂ ++ [list] := by
  simp [h.right]

lemma nodup_right (h : Seam list l₁ l₂ as bs before after) (hnd : (list :: (l₁ ++ l₂)).Nodup) :
    (after :: bs).Nodup ∧ after ∉ l₁ := by
  have hperm : (list :: (l₁ ++ l₂)).Perm (l₁ ++ (after :: bs)) := by
    rw [← h.right, ← List.append_assoc]
    exact (List.perm_append_singleton _ _).symm
  have hnd' := hperm.nodup_iff.mp hnd
  exact ⟨hnd'.of_append_right, fun hmem => (List.disjoint_of_nodup_append hnd') hmem (by simp)⟩

/-- The two parts of the circle, and that they are joined at the seam. -/
lemma isChain_iff (h : Seam list l₁ l₂ as bs before after) :
    (list :: (l₁ ++ l₂) ++ [list]).IsChain (Joined s) ↔
      (list :: l₁).IsChain (Joined s) ∧ Joined s before after ∧
        (after :: bs).IsChain (Joined s) := by
  have hlist : list :: (l₁ ++ l₂) ++ [list] = as ++ before :: after :: bs := by
    rw [← List.cons_append, List.append_assoc, h.left, h.right]
    simp
  rw [hlist, List.isChain_append_cons_cons, h.left]

/-- Links change at the seam only, and `out` is what followed there before. -/
lemma isChain_parts {next prev : ℕ → Option ℕ} {out : ℕ}
    (h : Seam list l₁ l₂ as bs before after) (hnd : (list :: (l₁ ++ l₂)).Nodup)
    (hout : next? s before = some out) (hleft : out ∉ l₁) (hright : out ∉ bs)
    (hs : Relinks s s' next prev)
    (hnext : ∀ a ∈ list :: (l₁ ++ l₂), a ≠ before → next a = next? s a)
    (hprev : ∀ b ∈ list :: (l₁ ++ l₂), b ≠ after → prev b = prev? s b)
    (hparts : (list :: l₁).IsChain (Joined s) ∧ (after :: bs).IsChain (Joined s)) :
    (list :: l₁).IsChain (Joined s') ∧ (after :: bs).IsChain (Joined s') := by
  obtain ⟨hnd', hafter⟩ := h.nodup_right hnd
  have hmem : ∀ a ∈ after :: bs, a ∈ list :: (l₁ ++ l₂) := by
    intro a ha
    rw [← h.right] at ha
    simp only [List.mem_append, List.mem_cons, List.not_mem_nil, or_false] at ha ⊢
    tauto
  -- nothing in the two parts follows on `before`
  have hne : ∀ {a b}, next? s a = some b → b ≠ out → a ≠ before := by
    rintro a b hab hb rfl
    exact hb (Option.some.inj (hab.symm.trans hout))
  constructor
  · refine isChain_relinks hparts.1 hs (fun a ha b hb hab => ?_) fun b hb => ?_
    · exact hnext a (List.mem_append_left l₂ ha) (hne hab (ne_of_mem_of_not_mem hb hleft))
    · exact hprev b (List.mem_append_left l₂ (List.mem_of_mem_tail hb))
        (ne_of_mem_of_not_mem hb hafter)
  · refine isChain_relinks hparts.2 hs (fun a ha b hb hab => ?_) fun b hb => ?_
    · exact hnext a (hmem a ha) (hne hab (ne_of_mem_of_not_mem hb hright))
    · exact hprev b (hmem b (List.mem_of_mem_tail hb))
        (ne_of_mem_of_not_mem hb (List.nodup_cons.mp hnd').1)

end Seam

lemma mem_circle_of_seam {as bs : List ℕ} {before after : ℕ}
    (h : Seam list l₁ l₂ as bs before after) :
    before ∈ list :: (l₁ ++ l₂) ∧ after ∈ list :: (l₁ ++ l₂) := by
  refine ⟨List.mem_append_left l₂ h.before_mem, ?_⟩
  have hmem := h.after_mem
  simp only [List.mem_append, List.mem_cons, List.not_mem_nil, or_false] at hmem ⊢
  tauto

/-- **A node is inserted** before the first one of `l₂`, or before the head. -/
theorem IsCircle.insert {after : ℕ} (h : IsCircle s list (l₁ ++ l₂))
    (hafter : (l₂ ++ [list]).head? = some after) (hx : s.Live x c)
    (hnew : x ∉ list :: (l₁ ++ l₂)) :
    ∃ s', Circle.insert s after x = .ok s' ∧ IsCircle s' list (l₁ ++ x :: l₂) ∧
      (∀ b, data? s' b = data? s b) ∧ s'.cells.length = s.cells.length ∧
      ∀ a, a ∉ list :: x :: (l₁ ++ l₂) → next? s' a = next? s a := by
  obtain ⟨as, bs, before, after', hseam⟩ := exists_seam list l₁ l₂
  obtain rfl : after' = after := by
    rw [hseam.right] at hafter
    exact Option.some.inj hafter
  obtain ⟨hleft, hjoined, hright⟩ := hseam.isChain_iff.mp h.joined
  obtain ⟨hbefore, hafter⟩ := mem_circle_of_seam hseam
  have hxb : x ≠ before := (ne_of_mem_of_not_mem hbefore hnew).symm
  have hxa : x ≠ after' := (ne_of_mem_of_not_mem hafter hnew).symm
  obtain ⟨s', hs', hrelinks⟩ := insert_spec hx hjoined.1 hjoined.2
  refine ⟨s', hs', ⟨?_, ?_⟩, hrelinks.data, hrelinks.length, fun a ha => ?_⟩
  · have hperm : (list :: (l₁ ++ x :: l₂)).Perm (x :: list :: (l₁ ++ l₂)) :=
      (List.perm_middle.cons list).trans (List.Perm.swap x list _)
    exact hperm.nodup_iff.mpr (List.nodup_cons.mpr ⟨hnew, h.nodup⟩)
  · obtain ⟨hnd, hafter'⟩ := hseam.nodup_right h.nodup
    obtain ⟨hleft', hright'⟩ := hseam.isChain_parts h.nodup hjoined.1 hafter'
      (List.nodup_cons.mp hnd).1 hrelinks
      (fun a ha hab => by rw [if_neg hab, if_neg (ne_of_mem_of_not_mem ha hnew)])
      (fun b hb hba => by rw [if_neg hba, if_neg (ne_of_mem_of_not_mem hb hnew)])
      ⟨hleft, hright⟩
    have hseam' : Seam list l₁ (x :: l₂) as (after' :: bs) before x :=
      ⟨hseam.left, congrArg (x :: ·) hseam.right⟩
    refine hseam'.isChain_iff.mpr ⟨hleft', ⟨?_, ?_⟩, List.isChain_cons_cons.mpr ⟨⟨?_, ?_⟩, hright'⟩⟩
    · rw [hrelinks.next, if_pos rfl]
    · rw [hrelinks.prev, if_neg hxa, if_pos rfl]
    · rw [hrelinks.next, if_neg hxb, if_pos rfl]
    · rw [hrelinks.prev, if_pos rfl]
  · rw [hrelinks.next, if_neg, if_neg]
    · rintro rfl
      exact ha (by simp)
    · rintro rfl
      refine ha ?_
      rcases List.mem_cons.mp hbefore with rfl | hbefore
      · exact List.mem_cons_self
      · exact List.mem_cons_of_mem _ (List.mem_cons_of_mem _ hbefore)

/-- **A node is taken out.** -/
theorem IsCircle.remove (h : IsCircle s list (l₁ ++ x :: l₂)) :
    ∃ s', Circle.remove s x = .ok s' ∧ IsCircle s' list (l₁ ++ l₂) ∧
      (∀ b, data? s' b = data? s b) ∧ s'.cells.length = s.cells.length := by
  have hperm : (list :: (l₁ ++ x :: l₂)).Perm (x :: list :: (l₁ ++ l₂)) :=
    (List.perm_middle.cons list).trans (List.Perm.swap x list _)
  obtain ⟨hnew, hnodup⟩ := List.nodup_cons.mp (hperm.nodup_iff.mp h.nodup)
  obtain ⟨as, bs, before, after, hseam⟩ := exists_seam list l₁ l₂
  obtain ⟨hbefore, hafter⟩ := mem_circle_of_seam hseam
  have hxb : x ≠ before := (ne_of_mem_of_not_mem hbefore hnew).symm
  have hxa : x ≠ after := (ne_of_mem_of_not_mem hafter hnew).symm
  have hseam' : Seam list l₁ (x :: l₂) as (after :: bs) before x :=
    ⟨hseam.left, congrArg (x :: ·) hseam.right⟩
  obtain ⟨hleft, hbx, hrest⟩ := hseam'.isChain_iff.mp h.joined
  obtain ⟨hxafter, hright⟩ := List.isChain_cons_cons.mp hrest
  obtain ⟨s', hs', hrelinks⟩ := remove_spec hbx.2 hxafter.1 hbx.1 hxafter.2 hxb
  refine ⟨s', hs', ⟨hnodup, hseam.isChain_iff.mpr ?_⟩, hrelinks.data, hrelinks.length⟩
  have hnew' : x ∉ l₁ ∧ x ∉ bs := by
    refine ⟨fun hx => hnew (by simp [hx]), fun hx => hnew ?_⟩
    have hmem : x ∈ l₂ ++ [list] := by
      rw [hseam.right]
      exact List.mem_cons_of_mem _ hx
    simp only [List.mem_append, List.mem_cons, List.not_mem_nil, or_false] at hmem ⊢
    tauto
  obtain ⟨hleft', hright'⟩ := hseam.isChain_parts hnodup hbx.1 hnew'.1 hnew'.2 hrelinks
    (fun a _ hab => if_neg hab) (fun b _ hba => if_neg hba) ⟨hleft, hright⟩
  refine ⟨hleft', ⟨?_, ?_⟩, hright'⟩
  · rw [hrelinks.next, if_pos rfl]
  · rw [hrelinks.prev, if_pos rfl]

/-- A circle without nodes. -/
theorem isCircle_init (h : s.Live list c) :
    ∃ s', init s list = .ok s' ∧ IsCircle s' list [] ∧ (∀ b, data? s' b = data? s b) ∧
      s'.cells.length = s.cells.length ∧
      ∀ a, a ≠ list → next? s' a = next? s a ∧ prev? s' a = prev? s a := by
  obtain ⟨s₁, h₁, hs₁⟩ := modify_next h list
  obtain ⟨c₁, hc₁⟩ := hs₁.exists_live h
  obtain ⟨s₂, h₂, hs₂⟩ := modify_prev hc₁ list
  refine ⟨s₂, ?_, ⟨by simp, ?_⟩, fun b => ?_, ?_, fun a ha => ⟨?_, ?_⟩⟩
  · rw [init, h₁]
    exact h₂
  · refine List.isChain_cons_cons.mpr ⟨⟨?_, ?_⟩, List.isChain_singleton _⟩
    · rw [hs₂.next, hs₁.next, if_pos rfl]
    · rw [hs₂.prev, if_pos rfl]
  · rw [hs₂.data, hs₁.data]
  · rw [hs₂.length, hs₁.length]
  · rw [hs₂.next, hs₁.next, if_neg ha]
  · rw [hs₂.prev, if_neg ha, hs₁.prev]

/-- What happens elsewhere does not matter. -/
lemma IsCircle.frame (h : IsCircle s list l)
    (hs : ∀ b ∈ list :: l, next? s' b = next? s b ∧ prev? s' b = prev? s b) :
    IsCircle s' list l := by
  have hmem : ∀ b ∈ list :: l ++ [list], b ∈ list :: l := by
    intro b hb
    rcases List.mem_append.mp hb with hb | hb
    · exact hb
    · rw [List.mem_singleton.mp hb]
      exact List.mem_cons_self
  refine ⟨h.nodup, h.joined.imp_of_mem_imp fun a b ha hb hab => ⟨?_, ?_⟩⟩
  · rw [(hs a (hmem a ha)).1]
    exact hab.1
  · rw [(hs b (hmem b hb)).2]
    exact hab.2

/-- Every node of a circle is linked to a next one. -/
lemma IsCircle.exists_next (h : IsCircle s list l) (hb : b ∈ list :: l) :
    ∃ a, next? s b = some a := by
  obtain ⟨l₁, l₂, heq⟩ := List.append_of_mem hb
  have hjoined := h.joined
  rw [heq, List.append_assoc, List.cons_append] at hjoined
  rcases hrest : l₂ ++ [list] with _ | ⟨a, rest⟩
  · exact absurd hrest (by simp)
  · rw [hrest, List.isChain_append_cons_cons] at hjoined
    exact ⟨a, hjoined.2.1.1⟩

/-- There are more cells than nodes behind the head. -/
lemma IsCircle.length_lt (h : IsCircle s list l) : l.length < s.cells.length := by
  have hsub : list :: l ⊆ List.range s.cells.length := by
    intro b hb
    obtain ⟨a, ha⟩ := h.exists_next hb
    obtain ⟨c, hc, -⟩ := exists_live_of_next ha
    exact List.mem_range.mpr hc.lt_length
  have hle := (h.nodup.subperm hsub).length_le
  rw [List.length_cons, List.length_range] at hle
  exact hle

/-- A node that is freed; all others are left alone. -/
lemma free_spec (h : s.Live b c) : ∃ s', s.free (Ptr.ofBlock b) = .ok s' ∧
    (∀ a, a ≠ b → node? s' a = node? s a) ∧ s'.cells.length = s.cells.length := by
  refine ⟨_, h.free, fun a ha => ?_, by simp [Store.freed]⟩
  rw [node?, node?, Store.freed, List.getElem?_set_ne (Ne.symm ha)]

/-- What a node carries is replaced. -/
lemma modify_data (h : s.Live b c) (d : β) :
    ∃ s', s.modify (Ptr.ofBlock b) (fun c => { c with data := d }) = .ok s' ∧
      (∀ a, next? s' a = next? s a ∧ prev? s' a = prev? s a) ∧
      ∀ a, data? s' a = if a = b then some d else data? s a := by
  have hb := node?_eq_some_iff.mpr h
  refine ⟨_, h.modify _, fun a => ?_, fun a => ?_⟩
  · simp only [next?, prev?, node?_put h]
    split
    · rename_i ha
      simp [ha, hb]
    · exact ⟨rfl, rfl⟩
  · simp only [data?, node?_put h]
    split <;> rfl

/-- A new node; all others are left alone. -/
lemma node?_malloc (s : Store (CircleNode β)) (c : CircleNode β) (a : ℕ) :
    node? (s.malloc c).2 a = if a = s.cells.length then some c else node? s a := by
  by_cases ha : a = s.cells.length
  · rw [if_pos ha, ha, node?_eq_some_iff]
    exact Store.live_malloc_self c
  · rw [if_neg ha, node?, node?, Store.malloc]
    rcases Nat.lt_or_gt_of_ne ha with hlt | hgt
    · rw [List.getElem?_append_left hlt]
    · rw [List.getElem?_eq_none (by simp; omega), List.getElem?_eq_none (by omega)]

end Circle
