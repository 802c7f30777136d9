/-
# Registries

A registry is a list of entries, each with a key, an owner and a list of items.  An addition
to a key that has an entry appends to the items of that entry and keeps its owner; an
addition to any other key opens an entry at the end of the list.  After a sequence of
additions the items of a key are those added to it, in order, and its owner is that of the
first addition.
-/
import Mathlib.Data.List.Basic
import Mathlib.Data.List.Nodup
import Mathlib.Tactic.Common

/-- A key with the owner it was first given and the items added to it. -/
structure Entry (κ ο η : Type) where
  key : κ
  owner : ο
  items : List η
deriving DecidableEq, Repr

abbrev Registry (κ ο η : Type) : Type := List (Entry κ ο η)

namespace Registry

variable {κ ο η : Type}

def keys (r : Registry κ ο η) : List κ := r.map Entry.key

variable [DecidableEq κ]

/-- Add an item to a key; the owner counts only if the key is new. -/
def add (k : κ) (o : ο) (x : η) : Registry κ ο η → Registry κ ο η
  | [] => [⟨k, o, [x]⟩]
  | e :: r => if e.key = k then ⟨e.key, e.owner, e.items ++ [x]⟩ :: r else e :: add k o x r

/-- The entry of a key. -/
def entry (r : Registry κ ο η) (k : κ) : Option (Entry κ ο η) := r.find? fun e => e.key = k

/-- The items of a key; none if the key has no entry. -/
def itemsOf (r : Registry κ ο η) (k : κ) : List η := ((entry r k).map Entry.items).getD []

/-- The owner of a key, if it has an entry. -/
def ownerOf (r : Registry κ ο η) (k : κ) : Option ο := (entry r k).map Entry.owner

variable {r : Registry κ ο η} {k k' : κ} {o : ο} {x : η}

lemma entry_eq_none : entry r k = none ↔ k ∉ keys r := by
  simp [entry, keys, List.find?_eq_none]

/-- The entry of a key is the first one with that key. -/
lemma entry_of_split {r₁ r₂ : Registry κ ο η} {e : Entry κ ο η} (hk : e.key = k)
    (hr₁ : k ∉ keys r₁) : entry (r₁ ++ e :: r₂) k = some e := by
  have hnone : r₁.find? (fun e => decide (e.key = k)) = none := entry_eq_none.mpr hr₁
  simp [entry, List.find?_append, hnone, hk]

lemma add_of_split {r₁ r₂ : Registry κ ο η} {e : Entry κ ο η} (hk : e.key = k)
    (hr₁ : k ∉ keys r₁) :
    add k o x (r₁ ++ e :: r₂) = r₁ ++ ⟨k, e.owner, e.items ++ [x]⟩ :: r₂ := by
  induction r₁ with
  | nil => simp [add, hk]
  | cons e' r₁ ih =>
    simp only [keys, List.map_cons, List.mem_cons, not_or] at hr₁
    rw [List.cons_append, add, if_neg (Ne.symm hr₁.1), ih hr₁.2]
    rfl

lemma add_of_notMem (h : k ∉ keys r) : add k o x r = r ++ [⟨k, o, [x]⟩] := by
  induction r with
  | nil => rfl
  | cons e r ih =>
    simp only [keys, List.map_cons, List.mem_cons, not_or] at h
    rw [add, if_neg (Ne.symm h.1), ih h.2]
    rfl

/-- A key with an entry splits the registry at the first of its entries. -/
lemma exists_split (h : k ∈ keys r) :
    ∃ r₁ e r₂, r = r₁ ++ e :: r₂ ∧ e.key = k ∧ k ∉ keys r₁ := by
  induction r with
  | nil => simp [keys] at h
  | cons e r ih =>
    by_cases hk : e.key = k
    · exact ⟨[], e, r, rfl, hk, by simp [keys]⟩
    · have hmem : k ∈ keys r := by
        simpa [keys, Ne.symm hk] using h
      obtain ⟨r₁, e', r₂, rfl, hk', hr₁⟩ := ih hmem
      refine ⟨e :: r₁, e', r₂, rfl, hk', ?_⟩
      simpa [keys, Ne.symm hk] using hr₁

lemma entry_add_self (r : Registry κ ο η) (k : κ) (o : ο) (x : η) :
    entry (add k o x r) k = some ⟨k, (ownerOf r k).getD o, itemsOf r k ++ [x]⟩ := by
  by_cases h : k ∈ keys r
  · obtain ⟨r₁, e, r₂, rfl, hk, hr₁⟩ := exists_split h
    rw [add_of_split hk hr₁, entry_of_split rfl hr₁, ownerOf, itemsOf, entry_of_split hk hr₁]
    rfl
  · rw [add_of_notMem h, entry_of_split rfl h, ownerOf, itemsOf, entry_eq_none.mpr h]
    rfl

lemma entry_add_of_ne (h : k' ≠ k) : entry (add k o x r) k' = entry r k' := by
  have hhere : ∀ (e : Entry κ ο η) (r : Registry κ ο η), e.key = k →
      entry (e :: r) k' = entry r k' := by
    intro e r hk
    simp [entry, hk, Ne.symm h]
  induction r with
  | nil => exact hhere _ _ rfl
  | cons e r ih =>
    by_cases hk : e.key = k
    · rw [add, if_pos hk, hhere e r hk]
      exact hhere _ r hk
    · rw [add, if_neg hk]
      simp only [entry, List.find?_cons] at ih ⊢
      rw [ih]

lemma itemsOf_add_self : itemsOf (add k o x r) k = itemsOf r k ++ [x] := by
  rw [itemsOf, entry_add_self]
  rfl

lemma itemsOf_add_of_ne (h : k' ≠ k) : itemsOf (add k o x r) k' = itemsOf r k' := by
  rw [itemsOf, entry_add_of_ne h]
  rfl

lemma ownerOf_add_self : ownerOf (add k o x r) k = some ((ownerOf r k).getD o) := by
  rw [ownerOf, entry_add_self]
  rfl

lemma ownerOf_add_of_ne (h : k' ≠ k) : ownerOf (add k o x r) k' = ownerOf r k' := by
  rw [ownerOf, entry_add_of_ne h]
  rfl

/-- An addition opens at most one entry, at the end. -/
lemma keys_add (r : Registry κ ο η) (k : κ) (o : ο) (x : η) :
    keys (add k o x r) = if k ∈ keys r then keys r else keys r ++ [k] := by
  split
  · rename_i h
    obtain ⟨r₁, e, r₂, rfl, hk, hr₁⟩ := exists_split h
    rw [add_of_split hk hr₁]
    simp [keys, hk]
  · rename_i h
    rw [add_of_notMem h]
    simp [keys]

/-! ## What the additions leave -/

/-- The keys are those of the additions, each where it first occurs. -/
lemma keys_add_of_eraseDups {l : List κ} (h : keys r = l.eraseDups) :
    keys (add k o x r) = (l ++ [k]).eraseDups := by
  rw [keys_add, List.eraseDups_append, h]
  by_cases hk : k ∈ l
  · simp [hk, List.removeAll]
  · simp [hk, List.removeAll, List.eraseDups_cons]

lemma nodup_keys_add (h : (keys r).Nodup) : (keys (add k o x r)).Nodup := by
  rw [keys_add]
  split
  · exact h
  · rename_i hk
    refine List.nodup_append.mpr ⟨h, List.nodup_singleton k, ?_⟩
    rintro a ha b hb rfl
    rw [List.mem_singleton] at hb
    exact hk (hb ▸ ha)

/-- If every entry has an item, this stays so. -/
lemma items_add_ne_nil (h : ∀ e ∈ r, e.items ≠ []) : ∀ e ∈ add k o x r, e.items ≠ [] := by
  induction r with
  | nil => simp [add]
  | cons e r ih =>
    obtain ⟨he, hr⟩ := List.forall_mem_cons.mp h
    rw [add]
    split
    · exact List.forall_mem_cons.mpr ⟨by simp, hr⟩
    · exact List.forall_mem_cons.mpr ⟨he, ih hr⟩

omit [DecidableEq κ] in
/-- The number of items of all keys. -/
def total (r : Registry κ ο η) : ℕ := (r.flatMap Entry.items).length

/-- Every addition adds one item. -/
lemma total_add (r : Registry κ ο η) (k : κ) (o : ο) (x : η) :
    total (add k o x r) = total r + 1 := by
  induction r with
  | nil => rfl
  | cons e r ih =>
    rw [total, total] at ih
    rw [total, total, add, List.flatMap_cons, List.length_append]
    split
    · simp only [List.flatMap_cons, List.length_append, List.length_singleton]
      omega
    · simp only [List.flatMap_cons, List.length_append]
      omega

end Registry
