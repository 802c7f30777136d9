/-
# Linked lists in a store

A linked list is a list of blocks, each with the object in it, such that every object's link
is the pointer to the next block and the last link is `NULL`.  The list says what is in
memory without the links; the operations of a C program on the list are then operations on
that list: a loop that follows the links looks for the first object that passes a test, and
an insertion at the tail appends.
-/
import Mathlib.Data.List.Perm.Basic
import Headcrab.Lib.Store

/-- An object with a link to an object of the same type. -/
class Linked (α : Type) where
  next : α → Option Ptr
  setNext : Option Ptr → α → α
  next_setNext : ∀ p a, next (setNext p a) = p
  setNext_setNext : ∀ p q a, setNext p (setNext q a) = setNext p a

attribute [simp] Linked.next_setNext Linked.setNext_setNext

namespace Store

open Linked

variable {α : Type}

/-- The pointer to the first block of a list. -/
def headPtr (l : List (ℕ × α)) : Option Ptr := l.head?.bind fun x => Ptr.ofBlock x.1

@[simp] lemma headPtr_cons (x : ℕ × α) (l : List (ℕ × α)) :
    headPtr (x :: l) = Ptr.ofBlock x.1 := rfl

variable [Linked α]

/-- The linked list that starts at `headPtr l` holds the objects of `l` in the blocks of `l`,
up to their links. -/
def Chain (s : Store α) : List (ℕ × α) → Prop
  | [] => True
  | (b, a) :: l => s.Live b (setNext (headPtr l) a) ∧ s.Chain l

variable {s s' : Store α} {l l₁ l₂ : List (ℕ × α)}

@[simp] lemma chain_cons (x : ℕ × α) (l : List (ℕ × α)) :
    s.Chain (x :: l) ↔ s.Live x.1 (setNext (headPtr l) x.2) ∧ s.Chain l := Iff.rfl

lemma Chain.tail : ∀ {l₁ : List (ℕ × α)}, s.Chain (l₁ ++ l₂) → s.Chain l₂
  | [], h => h
  | _ :: _, h => h.2.tail

/-- The object in a block of a linked list points to the rest of the list. -/
lemma Chain.live {b : ℕ} {a : α} (h : s.Chain (l₁ ++ (b, a) :: l₂)) :
    s.Live b (setNext (headPtr l₂) a) :=
  h.tail.1

lemma Chain.exists_live (h : s.Chain l) {x : ℕ × α} (hx : x ∈ l) :
    ∃ p, s.Live x.1 (setNext p x.2) := by
  obtain ⟨l₁, l₂, rfl⟩ := List.append_of_mem hx
  exact ⟨_, h.live⟩

/-- A linked list is there in every store that agrees on its blocks. -/
lemma Chain.frame (h : s.Chain l)
    (hs : ∀ x ∈ l, ∀ a, s.Live x.1 a → s'.Live x.1 a) : s'.Chain l := by
  induction l with
  | nil => trivial
  | cons x l ih =>
    obtain ⟨hx, hl⟩ := h
    exact ⟨hs x (by simp) _ hx, ih hl fun y hy => hs y (by simp [hy])⟩

lemma Chain.malloc (h : s.Chain l) (c : α) : (s.malloc c).2.Chain l :=
  h.frame fun _ _ _ ha => ha.malloc c

lemma Chain.put_of_notMem (h : s.Chain l) {b : ℕ} (hb : b ∉ l.map Prod.fst) (c : α) :
    (s.put b c).Chain l := by
  refine h.frame fun x hx a ha => ha.put_of_ne ?_ c
  rintro rfl
  exact hb (List.mem_map_of_mem hx)

/-- A linked list without repetition is no longer than the store. -/
lemma Chain.length_le (h : s.Chain l) (hnd : (l.map Prod.fst).Nodup) :
    l.length ≤ s.cells.length := by
  have hsub : l.map Prod.fst ⊆ List.range s.cells.length := by
    intro b hb
    obtain ⟨x, hx, rfl⟩ := List.mem_map.mp hb
    obtain ⟨_, hlive⟩ := h.exists_live hx
    exact List.mem_range.mpr hlive.lt_length
  simpa using (List.subperm_of_subset hnd hsub).length_le

/-! ## Changing an object -/

/-- An object of a linked list is replaced, its link left as it is. -/
lemma Chain.put {b : ℕ} {a : α} (h : s.Chain (l₁ ++ (b, a) :: l₂))
    (hnd : ((l₁ ++ (b, a) :: l₂).map Prod.fst).Nodup) (c : α) :
    (s.put b (setNext (headPtr l₂) c)).Chain (l₁ ++ (b, c) :: l₂) := by
  induction l₁ with
  | nil =>
    simp only [List.nil_append, List.map_cons, List.nodup_cons] at hnd
    exact ⟨h.1.put_self _, h.2.put_of_notMem hnd.1 _⟩
  | cons x l₁ ih =>
    simp only [List.cons_append, List.map_cons, List.nodup_cons] at hnd
    rw [List.cons_append, chain_cons] at h ⊢
    obtain ⟨hx, hl⟩ := h
    refine ⟨?_, ih hl hnd.2⟩
    have hne : b ≠ x.1 := by
      rintro rfl
      exact hnd.1 (by simp)
    have hhead : headPtr (l₁ ++ (b, c) :: l₂) = headPtr (l₁ ++ (b, a) :: l₂) := by
      cases l₁ <;> rfl
    rw [hhead]
    exact hx.put_of_ne hne _

/-- A new block is linked behind the last one. -/
lemma Chain.snoc {b new : ℕ} {a c : α} (h : s.Chain (l ++ [(b, a)]))
    (hnd : ((l ++ [(b, a)]).map Prod.fst).Nodup) (hnew : s.Live new (setNext none c))
    (hne : new ∉ (l ++ [(b, a)]).map Prod.fst) :
    (s.put b (setNext (Ptr.ofBlock new) a)).Chain (l ++ [(b, a), (new, c)]) := by
  induction l with
  | nil =>
    have hnb : b ≠ new := by
      rintro rfl
      exact hne (by simp)
    exact ⟨h.1.put_self _, hnew.put_of_ne hnb _, trivial⟩
  | cons x l ih =>
    simp only [List.cons_append, List.map_cons, List.nodup_cons] at hnd
    simp only [List.cons_append, List.map_cons, List.mem_cons, not_or] at hne
    rw [List.cons_append, chain_cons] at h ⊢
    obtain ⟨hx, hl⟩ := h
    refine ⟨?_, ih hl hnd.2 hne.2⟩
    have hxb : b ≠ x.1 := by
      rintro rfl
      exact hnd.1 (by simp)
    have hhead : headPtr (l ++ [(b, a), (new, c)]) = headPtr (l ++ [(b, a)]) := by
      cases l <;> rfl
    rw [hhead]
    exact hx.put_of_ne hxb _

/-! ## Several lists in one store -/

/-- The store holds several linked lists that share no block. -/
structure Chains (s : Store α) (ls : List (List (ℕ × α))) : Prop where
  chain : ∀ l ∈ ls, s.Chain l
  nodup : (ls.flatten.map Prod.fst).Nodup

variable {ls₁ ls₂ : List (List (ℕ × α))}

lemma Chains.nodup_of_mem {ls : List (List (ℕ × α))} (h : s.Chains ls) (hl : l ∈ ls) :
    (l.map Prod.fst).Nodup := by
  obtain ⟨ls₁, ls₂, rfl⟩ := List.append_of_mem hl
  have hsub : l.Sublist (ls₁ ++ l :: ls₂).flatten := by
    simp only [List.flatten_append, List.flatten_cons]
    exact (List.sublist_append_left _ _).trans (List.sublist_append_right _ _)
  exact h.nodup.sublist (hsub.map Prod.fst)

/-- The next block to be opened is in none of the lists. -/
lemma Chains.length_notMem {ls : List (List (ℕ × α))} (h : s.Chains ls) :
    s.cells.length ∉ ls.flatten.map Prod.fst := by
  intro hmem
  obtain ⟨x, hx, hxb⟩ := List.mem_map.mp hmem
  obtain ⟨l, hl, hxl⟩ := List.mem_flatten.mp hx
  obtain ⟨_, hlive⟩ := (h.chain l hl).exists_live hxl
  exact absurd hlive.lt_length (by omega)

/-- The new block keeps the blocks of the lists distinct, wherever it is put. -/
lemma Chains.nodup_insert (h : s.Chains (ls₁ ++ l :: ls₂)) (c : α) :
    ((ls₁ ++ (l ++ [(s.cells.length, c)]) :: ls₂).flatten.map Prod.fst).Nodup := by
  have hperm : ((ls₁ ++ (l ++ [(s.cells.length, c)]) :: ls₂).flatten.map Prod.fst).Perm
      (s.cells.length :: (ls₁ ++ l :: ls₂).flatten.map Prod.fst) := by
    simp only [List.flatten_append, List.flatten_cons, List.map_append, List.map_cons,
      List.append_assoc, List.singleton_append]
    rw [← List.append_assoc, ← List.append_assoc]
    exact List.perm_middle
  rw [hperm.nodup_iff, List.nodup_cons]
  exact ⟨h.length_notMem, h.nodup⟩

/-- The other lists are not changed by a change in one of them. -/
lemma Chains.disjoint (h : s.Chains (ls₁ ++ l :: ls₂)) {x : ℕ × α} (hx : x ∈ l)
    {l' : List (ℕ × α)} (hl' : l' ∈ ls₁ ∨ l' ∈ ls₂) : x.1 ∉ l'.map Prod.fst := by
  intro hmem
  have hnd := h.nodup
  simp only [List.flatten_append, List.flatten_cons, List.map_append] at hnd
  have hxl : x.1 ∈ l.map Prod.fst := List.mem_map_of_mem hx
  rcases hl' with hl' | hl'
  · have h₁ : x.1 ∈ ls₁.flatten.map Prod.fst := by
      obtain ⟨y, hy, hyx⟩ := List.mem_map.mp hmem
      exact List.mem_map.mpr ⟨y, List.mem_flatten.mpr ⟨l', hl', hy⟩, hyx⟩
    exact (List.nodup_append.mp hnd).2.2 _ h₁ _ (List.mem_append_left _ hxl) rfl
  · have h₂ : x.1 ∈ ls₂.flatten.map Prod.fst := by
      obtain ⟨y, hy, hyx⟩ := List.mem_map.mp hmem
      exact List.mem_map.mpr ⟨y, List.mem_flatten.mpr ⟨l', hl', hy⟩, hyx⟩
    exact (List.nodup_append.mp (List.nodup_append.mp hnd).2.1).2.2 _ hxl _ h₂ rfl

/-- A new block becomes a list of its own, in the place of an empty one. -/
lemma Chains.single (h : s.Chains (ls₁ ++ [] :: ls₂)) (c : α) :
    (s.malloc (setNext none c)).2.Chains (ls₁ ++ [(s.cells.length, c)] :: ls₂) := by
  refine ⟨?_, by simpa using h.nodup_insert c⟩
  intro l hl
  simp only [List.mem_append, List.mem_cons] at hl
  rcases hl with hl | rfl | hl
  · exact (h.chain l (by simp [hl])).malloc _
  · exact ⟨live_malloc_self _, trivial⟩
  · exact (h.chain l (by simp [hl])).malloc _

/-- A new block is linked behind the last one of a list. -/
lemma Chains.snoc {b : ℕ} {a : α} (h : s.Chains (ls₁ ++ (l ++ [(b, a)]) :: ls₂)) (c : α) :
    ((s.malloc (setNext none c)).2.put b (setNext (Ptr.ofBlock s.cells.length) a)).Chains
      (ls₁ ++ (l ++ [(b, a)] ++ [(s.cells.length, c)]) :: ls₂) := by
  refine ⟨?_, h.nodup_insert c⟩
  have hmem : l ++ [(b, a)] ∈ ls₁ ++ (l ++ [(b, a)]) :: ls₂ := by simp
  have hother : ∀ l', l' ∈ ls₁ ∨ l' ∈ ls₂ →
      ((s.malloc (setNext none c)).2.put b (setNext (Ptr.ofBlock s.cells.length) a)).Chain l' := by
    intro l' hl'
    have hchain := h.chain l' (by rcases hl' with hl' | hl' <;> simp [hl'])
    exact (hchain.malloc _).put_of_notMem (h.disjoint (x := (b, a)) (by simp) hl') _
  intro l' hl'
  simp only [List.mem_append, List.mem_cons] at hl'
  rcases hl' with hl' | rfl | hl'
  · exact hother l' (Or.inl hl')
  · rw [List.append_assoc]
    refine ((h.chain _ hmem).malloc _).snoc (h.nodup_of_mem hmem) (live_malloc_self _) ?_
    intro hnew
    refine h.length_notMem ?_
    obtain ⟨y, hy, hyx⟩ := List.mem_map.mp hnew
    exact List.mem_map.mpr ⟨y, List.mem_flatten.mpr ⟨_, hmem, hy⟩, hyx⟩
  · exact hother l' (Or.inr hl')

/-! ## Following the links -/

/-- The loop `for (; cur != NULL; cur = cur->next) if (test(*cur)) break;`, with the pointer
that trails behind `cur`. -/
def walk (s : Store α) (test : α → Except Fault Bool) :
    ℕ → Option Ptr → Option Ptr → Except Fault (Option Ptr × Option Ptr)
  | 0, _, _ => .error .diverges
  | _ + 1, prev, none => .ok (prev, none)
  | fuel + 1, prev, some cur => do
    let a ← s.load (some cur)
    if ← test a then return (prev, some cur) else s.walk test fuel (some cur) (next a)

/-- A test that fails goes on to the next object. -/
lemma walk_next {test : α → Except Fault Bool} {b : ℕ} {a : α} {p : Option Ptr}
    (hlive : s.Live b (setNext p a)) (hfail : test (setNext p a) = .ok false) (fuel : ℕ)
    (prev : Option Ptr) :
    s.walk test (fuel + 1) prev (Ptr.ofBlock b) = s.walk test fuel (Ptr.ofBlock b) p := by
  simp only [Ptr.ofBlock, walk]
  rw [← Ptr.ofBlock, hlive.load]
  simp [bind, Except.bind, hfail]

/-- A test that passes ends the loop. -/
lemma walk_stop {test : α → Except Fault Bool} {b : ℕ} {a : α}
    (hlive : s.Live b a) (hpass : test a = .ok true) (fuel : ℕ) (prev : Option Ptr) :
    s.walk test (fuel + 1) prev (Ptr.ofBlock b) = .ok (prev, Ptr.ofBlock b) := by
  simp only [Ptr.ofBlock, walk]
  rw [← Ptr.ofBlock, hlive.load]
  simp [bind, Except.bind, hpass, pure, Except.pure]

/-- A loop that begins at an object ends behind one. -/
lemma walk_prev_ne_none {test : α → Except Fault Bool} {fuel : ℕ} {prev cur p : Option Ptr}
    (hcur : prev ≠ none ∨ cur ≠ none) (h : s.walk test fuel prev cur = .ok (p, none)) :
    p ≠ none := by
  induction fuel generalizing prev cur with
  | zero => exact absurd h (by simp [walk])
  | succ fuel ih =>
    rcases cur with _ | cur
    · simp only [walk, Except.ok.injEq, Prod.mk.injEq, and_true] at h
      rw [← h]
      simpa using hcur
    · rcases hload : s.load (some cur) with x | a
      · exact absurd h (by simp [walk, hload, bind, Except.bind])
      · rcases htest : test a with x | passed
        · exact absurd h (by simp [walk, hload, htest, bind, Except.bind])
        · simp only [walk, hload, htest, bind, Except.bind] at h
          cases passed with
          | true => exact absurd h (by simp [pure, Except.pure])
          | false => exact ih (Or.inl (Option.some_ne_none cur)) h

/-- The pointer to the last block of a list, or the given one if the list is empty. -/
def lastPtr (prev : Option Ptr) (l : List (ℕ × α)) : Option Ptr :=
  l.foldl (fun _ x => Ptr.ofBlock x.1) prev

omit [Linked α] in
@[simp] lemma lastPtr_snoc (prev : Option Ptr) (l : List (ℕ × α)) (x : ℕ × α) :
    lastPtr prev (l ++ [x]) = Ptr.ofBlock x.1 := by
  simp [lastPtr]

/-- The loop stops at the first object that passes the test.  Only that object may be the
last one, so the test may ask for a link that is `NULL`. -/
lemma Chain.walk_found {test : α → Except Fault Bool} {b : ℕ} {a : α}
    (h : s.Chain (l₁ ++ (b, a) :: l₂))
    (hfail : ∀ x ∈ l₁, ∀ p, p ≠ none → test (setNext p x.2) = .ok false)
    (hpass : test (setNext (headPtr l₂) a) = .ok true) {fuel : ℕ} (hfuel : l₁.length < fuel)
    (prev : Option Ptr) :
    s.walk test fuel prev (headPtr (l₁ ++ (b, a) :: l₂))
      = .ok (lastPtr prev l₁, Ptr.ofBlock b) := by
  induction l₁ generalizing fuel prev with
  | nil =>
    obtain ⟨k, rfl⟩ := Nat.exists_eq_add_of_lt hfuel
    exact walk_stop h.1 hpass _ prev
  | cons x l₁ ih =>
    obtain ⟨k, rfl⟩ : ∃ k, fuel = k + 1 := ⟨fuel - 1, by simp at hfuel; omega⟩
    rw [List.cons_append, chain_cons] at h
    have hlink : headPtr (l₁ ++ (b, a) :: l₂) ≠ none := by cases l₁ <;> simp
    rw [List.cons_append, headPtr_cons, walk_next h.1 (hfail x (by simp) _ hlink),
      ih h.2 (fun y hy => hfail y (by simp [hy])) (by simpa using hfuel)]
    rfl

/-- The loop that looks for a link that is `NULL` stops at the last object. -/
lemma Chain.walk_last {b : ℕ} {a : α} (h : s.Chain (l ++ [(b, a)])) {fuel : ℕ}
    (hfuel : l.length < fuel) (prev : Option Ptr) :
    s.walk (fun c => .ok (next c).isNone) fuel prev (headPtr (l ++ [(b, a)]))
      = .ok (lastPtr prev l, Ptr.ofBlock b) := by
  refine h.walk_found ?_ ?_ hfuel prev
  · intro x _ p hp
    rw [next_setNext, Option.isNone_eq_false_iff.mpr (Option.isSome_iff_ne_none.mpr hp)]
  · rw [next_setNext]
    rfl

/-- The loop ends behind the last object if none passes the test. -/
lemma Chain.walk_none {test : α → Except Fault Bool} (h : s.Chain l)
    (hfail : ∀ x ∈ l, ∀ p, test (setNext p x.2) = .ok false) {fuel : ℕ}
    (hfuel : l.length < fuel) (prev : Option Ptr) :
    s.walk test fuel prev (headPtr l) = .ok (lastPtr prev l, none) := by
  induction l generalizing fuel prev with
  | nil =>
    obtain ⟨k, rfl⟩ := Nat.exists_eq_add_of_lt hfuel
    rfl
  | cons x l ih =>
    obtain ⟨k, rfl⟩ : ∃ k, fuel = k + 1 := ⟨fuel - 1, by simp at hfuel; omega⟩
    rw [headPtr_cons, walk_next h.1 (hfail x (by simp) _),
      ih h.2 (fun y hy => hfail y (by simp [hy])) (by simpa using hfuel)]
    rfl

end Store
