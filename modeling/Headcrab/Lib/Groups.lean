/-
# Lists in groups

A list in which the entries with one index stand next to each other: a list of groups, each
with its index, none of them empty.  The one operation is to give a group other entries
(`put`); the other groups keep their entries and their order.
-/
import Mathlib.Data.List.Nodup

/-- Groups of entries, each with its index. -/
abbrev Groups (α : Type) : Type := List (ℕ × List α)

namespace Groups

variable {α : Type}

/-- The list that is grouped. -/
def items (gs : Groups α) : List α := gs.flatMap Prod.snd

/-- The group with an index, empty if there is none. -/
def group : Groups α → ℕ → List α
  | [], _ => []
  | g :: gs, i => if g.1 = i then g.2 else group gs i

/-- The entries of a group are replaced; a new group comes last, an empty one goes. -/
def put (i : ℕ) (seg : List α) : Groups α → Groups α
  | [] => if seg.isEmpty then [] else [(i, seg)]
  | g :: gs =>
    if g.1 = i then if seg.isEmpty then gs else (i, seg) :: gs
    else g :: put i seg gs

/-- The groups have different indices, those of their entries, and none is empty. -/
structure Grouped (index : α → ℕ) (gs : Groups α) : Prop where
  nodup : (gs.map Prod.fst).Nodup
  nonempty : ∀ g ∈ gs, g.2 ≠ []
  index_eq : ∀ g ∈ gs, ∀ x ∈ g.2, index x = g.1

variable {index : α → ℕ} {gs : Groups α} {seg : List α} {i j : ℕ} {x : α}

@[simp] lemma items_nil : items ([] : Groups α) = [] := rfl

@[simp] lemma items_cons (g : ℕ × List α) (gs : Groups α) : items (g :: gs) = g.2 ++ items gs :=
  rfl

@[simp] lemma group_nil (i : ℕ) : group ([] : Groups α) i = [] := rfl

lemma group_eq_nil (h : i ∉ gs.map Prod.fst) : group gs i = [] := by
  induction gs with
  | nil => rfl
  | cons g gs ih =>
    rw [List.map_cons, List.mem_cons, not_or] at h
    rw [group, if_neg (Ne.symm h.1), ih h.2]

lemma Grouped.nil : Grouped index ([] : Groups α) := ⟨List.nodup_nil, by simp, by simp⟩

lemma Grouped.tail {g : ℕ × List α} (h : Grouped index (g :: gs)) :
    g.1 ∉ gs.map Prod.fst ∧ Grouped index gs := by
  obtain ⟨hnotMem, hnodup⟩ := List.nodup_cons.mp h.nodup
  exact ⟨hnotMem, hnodup, (List.forall_mem_cons.mp h.nonempty).2,
    (List.forall_mem_cons.mp h.index_eq).2⟩

/-- The entries of a group are those with its index. -/
lemma Grouped.mem_group_iff (h : Grouped index gs) :
    x ∈ group gs i ↔ x ∈ items gs ∧ index x = i := by
  induction gs with
  | nil => simp
  | cons g gs ih =>
    obtain ⟨hnotMem, htail⟩ := h.tail
    have hg := h.index_eq g List.mem_cons_self
    rw [group, items_cons, List.mem_append]
    split
    · rename_i hi
      subst hi
      refine ⟨fun hx => ⟨Or.inl hx, hg x hx⟩, ?_⟩
      rintro ⟨hx | hx, hindex⟩
      · exact hx
      · -- no other group has the index
        have hmem := (ih htail).mpr ⟨hx, hindex⟩
        rw [group_eq_nil hnotMem] at hmem
        exact absurd hmem (by simp)
    · rename_i hi
      rw [ih htail]
      refine ⟨fun hx => ⟨Or.inr hx.1, hx.2⟩, ?_⟩
      rintro ⟨hx | hx, hindex⟩
      · exact absurd ((hg x hx).symm.trans hindex) hi
      · exact ⟨hx, hindex⟩

/-! ## A group is replaced -/

lemma fst_put (h : j ∈ (put i seg gs).map Prod.fst) : j = i ∨ j ∈ gs.map Prod.fst := by
  induction gs with
  | nil =>
    rw [put] at h
    split at h
    · exact absurd h (by simp)
    · exact Or.inl (by simpa using h)
  | cons g gs ih =>
    rw [put] at h
    split at h
    · split at h
      · exact Or.inr (List.mem_cons_of_mem _ h)
      · exact (List.mem_cons.mp h).imp_right (List.mem_cons_of_mem _)
    · rcases List.mem_cons.mp h with rfl | h
      · exact Or.inr List.mem_cons_self
      · exact (ih h).imp_right (List.mem_cons_of_mem _)

lemma Grouped.put (h : Grouped index gs) (hseg : ∀ x ∈ seg, index x = i) :
    Grouped index (put i seg gs) := by
  induction gs with
  | nil =>
    rw [Groups.put]
    split
    · exact .nil
    · rename_i hne
      exact ⟨by simp, by simpa using hne, by simpa using hseg⟩
  | cons g gs ih =>
    obtain ⟨hnotMem, htail⟩ := h.tail
    rw [Groups.put]
    split
    · rename_i hi
      subst hi
      split
      · exact htail
      · rename_i hne
        refine ⟨List.nodup_cons.mpr ⟨hnotMem, htail.nodup⟩, ?_, ?_⟩
        · exact List.forall_mem_cons.mpr ⟨by simpa using hne, htail.nonempty⟩
        · exact List.forall_mem_cons.mpr ⟨hseg, htail.index_eq⟩
    · rename_i hi
      have hput := ih htail
      refine ⟨List.nodup_cons.mpr ⟨fun hmem => ?_, hput.nodup⟩, ?_, ?_⟩
      · rcases fst_put hmem with hmem | hmem
        · exact hi hmem
        · exact hnotMem hmem
      · exact List.forall_mem_cons.mpr ⟨h.nonempty g List.mem_cons_self, hput.nonempty⟩
      · exact List.forall_mem_cons.mpr ⟨h.index_eq g List.mem_cons_self, hput.index_eq⟩

lemma Grouped.group_put (h : Grouped index gs) (seg : List α) (i j : ℕ) :
    group (Groups.put i seg gs) j = if j = i then seg else group gs j := by
  induction gs with
  | nil =>
    rw [Groups.put]
    by_cases hij : j = i
    · subst hij
      split
      · simp_all
      · simp [group]
    · split
      · simp
      · simp [group, Ne.symm hij]
  | cons g gs ih =>
    obtain ⟨hnotMem, htail⟩ := h.tail
    have ih := ih htail
    rw [Groups.put]
    by_cases hi : g.1 = i
    · subst hi
      rw [if_pos rfl]
      by_cases hj : j = g.1
      · subst hj
        split
        · simp_all [group_eq_nil hnotMem]
        · simp [group]
      · split <;> simp [group, Ne.symm hj]
    · rw [if_neg hi, group, group]
      by_cases hj : g.1 = j
      · rw [if_pos hj, if_pos hj, if_neg (hj ▸ hi)]
      · rw [if_neg hj, if_neg hj, ih]

/-- The list around a group, before and after. -/
lemma Grouped.items_put (h : Grouped index gs) (seg : List α) (i : ℕ) :
    ∃ l₁ l₂, items gs = l₁ ++ (group gs i ++ l₂) ∧ items (Groups.put i seg gs) = l₁ ++ (seg ++ l₂) ∧
      (group gs i = [] → l₂ = []) := by
  induction gs with
  | nil =>
    refine ⟨[], [], rfl, ?_, fun _ => rfl⟩
    rw [Groups.put]
    split
    · simp_all
    · simp
  | cons g gs ih =>
    by_cases hi : g.1 = i
    · subst hi
      refine ⟨[], items gs, by simp [group], ?_, fun hnil => ?_⟩
      · rw [Groups.put, if_pos rfl]
        split
        · simp_all
        · simp
      · rw [group, if_pos rfl] at hnil
        exact absurd hnil (h.nonempty g List.mem_cons_self)
    · obtain ⟨l₁, l₂, hitems, hput, hnil⟩ := ih h.tail.2
      refine ⟨g.2 ++ l₁, l₂, ?_, ?_, ?_⟩
      · rw [items_cons, group, if_neg hi, hitems, List.append_assoc]
      · rw [Groups.put, if_neg hi, items_cons, hput, List.append_assoc]
      · rwa [group, if_neg hi]

/-- What comes in, and what goes. -/
lemma Grouped.perm_items_put (h : Grouped index gs) (seg : List α) (i : ℕ) :
    (items (Groups.put i seg gs) ++ group gs i).Perm (items gs ++ seg) := by
  classical
  obtain ⟨l₁, l₂, hitems, hput, -⟩ := h.items_put seg i
  rw [hput, hitems]
  refine List.perm_iff_count.mpr fun x => ?_
  simp only [List.count_append]
  omega

/-- One more entry. -/
lemma Grouped.perm_items_cons (h : Grouped index gs) (x : α) (i : ℕ) :
    (items (Groups.put i (x :: group gs i) gs)).Perm (x :: items gs) := by
  have hput := h.perm_items_put (x :: group gs i) i
  have hperm := hput.trans List.perm_middle
  rw [← List.cons_append] at hperm
  exact (List.perm_append_right_iff _).mp hperm

/-- One entry is replaced. -/
lemma Grouped.perm_items_replace (h : Grouped index gs) {s₁ s₂ : List α}
    (hseg : group gs i = s₁ ++ x :: s₂) (y : α) :
    (x :: items (Groups.put i (s₁ ++ y :: s₂) gs)).Perm (y :: items gs) := by
  classical
  have hput := h.perm_items_put (s₁ ++ y :: s₂) i
  rw [hseg] at hput
  refine List.perm_iff_count.mpr fun z => ?_
  have hcount := List.perm_iff_count.mp hput z
  simp only [List.count_append, List.count_cons] at hcount ⊢
  omega

/-- One entry is taken out. -/
lemma Grouped.perm_items_erase (h : Grouped index gs) {s₁ s₂ : List α}
    (hseg : group gs i = s₁ ++ x :: s₂) :
    (x :: items (Groups.put i (s₁ ++ s₂) gs)).Perm (items gs) := by
  classical
  have hput := h.perm_items_put (s₁ ++ s₂) i
  rw [hseg] at hput
  refine List.perm_iff_count.mpr fun z => ?_
  have hcount := List.perm_iff_count.mp hput z
  simp only [List.count_append, List.count_cons] at hcount ⊢
  omega

/-- The entries of the list are those of the groups that were left alone, and the new ones. -/
lemma Grouped.mem_items_put (h : Grouped index gs) (hx : x ∈ items (Groups.put i seg gs)) :
    x ∈ items gs ∨ x ∈ seg := by
  obtain ⟨l₁, l₂, hitems, hput, -⟩ := h.items_put seg i
  rw [hput] at hx
  rw [hitems]
  simp only [List.mem_append] at hx ⊢
  tauto

end Groups
