/-
# Posting on the cells

What one thread does to cells of its own leaves alone what another one has posted, which stands
for what it stood for (`Denotes.kept`).

`headcrab_post_message` changes one object, to which nobody else refers: it has a number then,
in its cell and in its table, and all else is as before (`Numbered`).  So it stands for the
fields that it had, with the number (`Numbered.denotes`), and what was apart from it still is
(`Numbered.apart`).
-/
import Headcrab.Reordered

namespace Headcrab

namespace JsonHeap

open RefCount

variable {j j' : JsonHeap} {Q R : List ℕ} {b : ℕ}

/-! ## Cells that others leave alone -/

lemma TablesStand.of_shrinks {tables : Tables} (h : TablesStand tables j) (hj : Shrinks j j') :
    TablesStand tables j' := by
  intro b n pairs hb
  obtain ⟨⟨k, value⟩, hb', rfl⟩ := hj b _ hb
  exact h b k pairs hb'

/-- Pointers whose cells are left alone stand for what they stood for. -/
lemma StandsFor.imp {value : JsonValue} {v : Json} (h : StandsFor j value v)
    (himp : ∀ q w, (∀ x ∈ q.refs, x ∈ Refers.children value) → sizeOf w < sizeOf v →
      Denotes j q w → Denotes j' q w) : StandsFor j' value v := by
  cases value with
  | string _ | integer _ | real _ => exact h
  | array items =>
    obtain ⟨values, rfl, hitems⟩ := h
    refine ⟨values, rfl, forall₂_imp_of_mem hitems fun q hq w hw => ?_⟩
    exact himp q w (fun x => mem_children_of_mem_items hq) (sizeOf_lt_array hw)
  | object pairs =>
    obtain ⟨fields, rfl, hkeys, hvalues⟩ := h
    refine ⟨fields, rfl, hkeys, forall₂_imp_of_mem hvalues fun q hq w hw => ?_⟩
    exact himp q w (fun x => mem_children_of_mem_pairs hq) (sizeOf_lt_object hw)

lemma Denotes.kept {q : JsonPtr} {v : Json} (h : Denotes j q v) (hkept : Kept q.refs j j') :
    Denotes j' q v := by
  induction hn : sizeOf v using Nat.strongRecOn generalizing q v with
  | _ n ih =>
    subst hn
    cases q with
    | the_true | the_false | the_null =>
      cases h
      constructor
    | cell b =>
      obtain ⟨c, hb⟩ := h.live
      obtain ⟨c', hb', hvalue⟩ := hkept b (.root (List.mem_singleton_self b)) c hb
      refine StandsFor.denotes ?_ hb'
      rw [hvalue]
      refine (h.standsFor hb).imp fun q w hq hlt hw => ih _ hlt hw ?_ rfl
      exact fun x hx => hkept x (.of_children hb hq hx)

/-! ## A number is put into an object -/

lemma mem_setPair {key : String} {x : JsonPtr} {pairs : List (String × JsonPtr)}
    {f : String × JsonPtr} (h : f ∈ setPair key x pairs) : f = (key, x) ∨ f ∈ pairs := by
  induction pairs with
  | nil => exact Or.inl (List.mem_singleton.mp h)
  | cons g pairs ih =>
    rw [setPair] at h
    split at h
    · exact (List.mem_cons.mp h).imp_right (List.mem_cons_of_mem _)
    · rcases List.mem_cons.mp h with rfl | h
      · exact Or.inr List.mem_cons_self
      · exact (ih h).imp_right (List.mem_cons_of_mem _)

/-- The pair that is set in the cells is the field that is set in the tree. -/
lemma standsFor_setPair {key : String} {x : JsonPtr} {v : Json} {pairs : List (String × JsonPtr)}
    {fields : List (String × Json)} (h : StandsFor j (.object pairs) (.object fields))
    (hx : Denotes j x v) :
    StandsFor j (.object (setPair key x pairs)) (.object (Json.setField key v fields)) := by
  obtain ⟨_, ⟨⟩, hkeys, hvalues⟩ := h
  refine ⟨_, rfl, ?_⟩
  induction pairs generalizing fields with
  | nil =>
    obtain rfl : fields = [] := List.map_eq_nil_iff.mp hkeys.symm
    exact ⟨rfl, .cons hx .nil⟩
  | cons f pairs ih =>
    rcases fields with _ | ⟨g, fields⟩
    · exact absurd hkeys (by simp)
    · simp only [List.map_cons, List.cons.injEq, List.forall₂_cons] at hkeys hvalues
      rw [setPair, Json.setField, hkeys.1]
      split
      · exact ⟨congrArg (key :: ·) hkeys.2, .cons hx hvalues.2⟩
      · obtain ⟨hkeys', hvalues'⟩ := ih hkeys.2 hvalues.2
        refine ⟨?_, .cons hvalues.1 hvalues'⟩
        rw [List.map_cons, List.map_cons, hkeys.1, hkeys']

/-- What a key of an object is set to, by the pairs that the object then has. -/
lemma json_object_set_new_of_live {k q : ℕ} {pairs : List (String × JsonPtr)}
    (hb : j.Live b ⟨k, .object pairs⟩) (hne : b ≠ q) (key : String) :
    j.json_object_set_new (some (.cell b)) key (some (.cell q))
      = json_decref (j.put b ⟨k, .object (setPair key (.cell q) pairs)⟩) (pairs.lookup key) := by
  have hne' : some (JsonPtr.cell b) ≠ some (JsonPtr.cell q) := by simpa using hne
  rw [json_object_set_new, read_of_live hb]
  simp only [bind, Except.bind, hne', if_false, hb.modify]

/-- The cells that are there once a number has been made. -/
lemma live_json_integer {n : ℤ} {x : ℕ} {c : RcCell JsonValue}
    (h : (json_integer j n).2.Live x c) :
    x = j.cells.length ∧ c.value = .integer n ∨ j.Live x c := by
  by_cases hx : x = j.cells.length
  · subst hx
    exact Or.inl ⟨rfl, congrArg RcCell.value (h.inj (Store.live_malloc_self _))⟩
  · have hlt := h.lt_length
    rw [show (json_integer j n).2.cells = j.cells ++ [some ⟨1, .integer n⟩] from rfl,
      List.length_append, List.length_singleton] at hlt
    rw [Store.Live, show (json_integer j n).2.cells = j.cells ++ [some ⟨1, .integer n⟩] from rfl,
      List.getElem?_append_left (by omega)] at h
    exact Or.inr h

/-- What is done to the cells when a number is put into the object in the block `b`. -/
structure Numbered (j : JsonHeap) (b : ℕ) (pairs : List (String × JsonPtr)) (n : ℤ)
    (j' : JsonHeap) : Prop where
  self : ∃ k, j'.Live b ⟨k, .object (setPair "seqID" (.cell j.cells.length) pairs)⟩
  others : ∀ x c', j'.Live x c' → x ≠ b →
    ∃ c, (json_integer j n).2.Live x c ∧ c.value = c'.value

lemma headcrab_post_message_cells {k : ℕ} {pairs : List (String × JsonPtr)}
    (h : Counted j (b :: R)) (hb : j.Live b ⟨k, .object pairs⟩) (n : ℤ) (m : Rings JsonPtr) :
    ∃ j', headcrab_post_message n (some (.cell b)) (m, j)
        = .ok (m.push .MQ_OUT (some (.cell b)), j') ∧
      Counted j' (b :: R) ∧ Numbered j b pairs n j' := by
  let q := j.cells.length
  let j₀ := (json_integer j n).2
  have hnew : Counted j₀ (q :: b :: R) := Counted.malloc (v := JsonValue.integer n) h
  have hlive₀ : j₀.Live b ⟨k, .object pairs⟩ := hb.malloc _
  have hne : b ≠ q := Nat.ne_of_lt hb.lt_length
  obtain ⟨j', hdec, hcounted, hshrinks⟩ := json_decref_spec (counted_setPair hnew hlive₀ "seqID")
  have hset : j₀.json_object_set_new (some (.cell b)) "seqID" (some (.cell q)) = .ok j' :=
    (json_object_set_new_of_live hlive₀ hne "seqID").trans hdec
  refine ⟨j', ?_, hcounted, ?_, fun x c' hc' hx => ?_⟩
  · rw [headcrab_post_message, show json_integer j n = (some (.cell q), j₀) from rfl]
    simp only [hset, bind, Except.bind]
    rfl
  · obtain ⟨⟨k', value'⟩, hlive'⟩ := hcounted.live (b := b) (by simp)
    obtain ⟨c, hc, heq⟩ := hshrinks b _ hlive'
    obtain rfl := hc.inj (hlive₀.put_self _)
    obtain rfl : value' = .object (setPair "seqID" (.cell q) pairs) := heq.symm
    exact ⟨k', hlive'⟩
  · obtain ⟨c, hc, heq⟩ := hshrinks x c' hc'
    rcases RefCount.live_set hc with ⟨hxb, -⟩ | ⟨-, hc⟩
    · exact absurd hxb hx
    · exact ⟨c, hc, heq⟩

section

variable {pairs : List (String × JsonPtr)} {n : ℤ} {k : ℕ}

/-- What does not lead to the object has not changed. -/
lemma Numbered.kept_integer (h : Numbered j b pairs n j') (hcounted : Counted j' R)
    (hQ : ∀ x ∈ Q, ∃ c', j'.Live x c') (hb : ¬ Reachable (json_integer j n).2 Q b) :
    Kept Q (json_integer j n).2 j' := by
  refine kept_of_same hcounted hQ fun x c c' hx hlive hlive' => ?_
  obtain ⟨d, hd, hvalue⟩ := h.others x c' hlive' (fun hxb => hb (hxb ▸ hx))
  rw [hlive.inj hd, hvalue]

lemma edges_json_integer (j : JsonHeap) (n : ℤ) : edges (json_integer j n).2 = edges j := by
  rw [show edges (json_integer j n).2 = edges j ++ [] from RefCount.edges_malloc _,
    List.append_nil]

lemma kept_json_integer (j : JsonHeap) (n : ℤ) (Q : List ℕ) : Kept Q j (json_integer j n).2 :=
  fun _ _ c hx => ⟨c, hx.malloc _, rfl⟩

/-- From elsewhere, nothing has changed. -/
lemma Numbered.kept (h : Numbered j b pairs n j') (hcounted : Counted j' (b :: R))
    (hexclusive : Exclusive j b R) : Kept R j j' := by
  refine (kept_json_integer j n R).trans (h.kept_integer hcounted
    (fun x hx => hcounted.live (by simp [hx])) (not_reachable hexclusive.1 ?_))
  rw [edges_json_integer]
  exact hexclusive.2

/-- From the object, the number can be reached, and what could be reached before. -/
lemma Numbered.reachable {x : ℕ} (h : Numbered j b pairs n j') (hb : j.Live b ⟨k, .object pairs⟩)
    (hx : Reachable j' [b] x) : x = j.cells.length ∨ Reachable j [b] x := by
  induction hx with
  | root hmem => exact Or.inr (.root hmem)
  | @child a x c _ hlive hmem ih =>
    by_cases hab : a = b
    · subst hab
      obtain ⟨k', hself⟩ := h.self
      obtain rfl := hlive.inj hself
      obtain ⟨f, hf, hmem⟩ := List.mem_flatMap.mp hmem
      rcases mem_setPair hf with rfl | hf
      · exact Or.inl (List.mem_singleton.mp hmem)
      · exact Or.inr (.child (.root (List.mem_singleton_self a)) hb
          (List.mem_flatMap.mpr ⟨f, hf, hmem⟩))
    · obtain ⟨d, hd, hvalue⟩ := h.others a c hlive hab
      rw [← hvalue] at hmem
      rcases live_json_integer hd with ⟨-, hinteger⟩ | hd
      · rw [hinteger] at hmem
        exact absurd hmem (by simp [Refers.children])
      · rcases ih with rfl | ih
        · exact absurd hd.lt_length (Nat.lt_irrefl _)
        · exact Or.inr (.child ih hd hmem)

/-- The object stands for what it stood for, with the number. -/
lemma Numbered.denotes {fields : List (String × Json)} (h : Numbered j b pairs n j')
    (hcounted : Counted j' (b :: R)) (hedges : b ∉ edges j) (hb : j.Live b ⟨k, .object pairs⟩)
    (hfields : Denotes j (.cell b) (.object fields)) :
    Denotes j' (.cell b) (.object (Json.setField "seqID" (.integer n) fields)) := by
  obtain ⟨k', hself⟩ := h.self
  refine StandsFor.denotes ?_ hself
  have hstands : StandsFor (json_integer j n).2
      (.object (setPair "seqID" (.cell j.cells.length) pairs))
      (.object (Json.setField "seqID" (.integer n) fields)) :=
    standsFor_setPair
      ((hfields.standsFor hb).imp fun r w _ _ hw => hw.kept (kept_json_integer j n _))
      (.integer (Store.live_malloc_self _))
  refine hstands.imp fun r w hr _ hw => hw.kept (h.kept_integer hcounted
    (fun x hx => hcounted.live_child hself (hr x hx)) (not_reachable (fun hmem => ?_) ?_))
  · -- what the object holds is the number, or what it held before
    obtain ⟨f, hf, hmem⟩ := List.mem_flatMap.mp (hr b hmem)
    rcases mem_setPair hf with rfl | hf
    · exact Nat.ne_of_lt hb.lt_length (List.mem_singleton.mp hmem)
    · exact hedges (RefCount.mem_edges.mpr ⟨b, _, hb, List.mem_flatMap.mpr ⟨f, hf, hmem⟩⟩)
  · rwa [edges_json_integer]

/-- What can be reached from elsewhere could be reached before. -/
lemma Numbered.reachable_rest {x : ℕ} (h : Numbered j b pairs n j') (hcounted : Counted j (b :: R))
    (hcounted' : Counted j' (b :: R)) (hexclusive : Exclusive j b R) (hQ : ∀ x ∈ Q, x ∈ R)
    (hx : Reachable j' Q x) : Reachable j Q x :=
  ((h.kept hcounted' hexclusive).mono hQ).reachable_of_after
    (fun _ => hcounted.exists_live fun x hx => List.mem_cons_of_mem b (hQ x hx)) hx

/-- What was separate from the object is separate from it with the number. -/
lemma Numbered.separate (h : Numbered j b pairs n j') (hcounted : Counted j (b :: R))
    (hcounted' : Counted j' (b :: R)) (hexclusive : Exclusive j b R)
    (hb : j.Live b ⟨k, .object pairs⟩) (hQ : ∀ x ∈ Q, x ∈ R) (hseparate : Separate j [b] Q) :
    Separate j' [b] Q := by
  intro x hx hxQ
  have hxQ' := h.reachable_rest hcounted hcounted' hexclusive hQ hxQ
  rcases h.reachable hb hx with rfl | hx
  · -- the number is a new cell
    obtain ⟨c, hc⟩ := hcounted.exists_live (fun y hy => List.mem_cons_of_mem b (hQ y hy)) hxQ'
    exact Nat.lt_irrefl _ hc.lt_length
  · exact hseparate x hx hxQ'

/-- What is to be apart stays apart, whoever holds the object. -/
lemma Numbered.apart (h : Numbered j b pairs n j') (hcounted : Counted j (b :: (Q ++ R)))
    (hcounted' : Counted j' (b :: (Q ++ R))) (hexclusive : Exclusive j b (Q ++ R))
    (hb : j.Live b ⟨k, .object pairs⟩) (hapart : Apart j Q (b :: R))
    (hseparate : Separate j [b] R) : Apart j' (b :: Q) R ∧ Apart j' Q (b :: R) := by
  have hqueue : Separate j [b] Q := fun x hx hxQ =>
    hapart.separate x hxQ (hx.mono (by simp))
  have hqueue' := h.separate hcounted hcounted' hexclusive hb (fun x => List.mem_append_left R)
    hqueue
  have hrest := h.separate hcounted hcounted' hexclusive hb (fun x => List.mem_append_right Q)
    hseparate
  have hothers : Apart j' Q R := by
    refine hapart.imp (fun a ha x => ?_) fun x hx => ?_
    · refine h.reachable_rest hcounted hcounted' hexclusive fun y hy => ?_
      exact List.mem_append_left R (List.mem_singleton.mp hy ▸ ha)
    · refine Reachable.mono (fun y => List.mem_cons_of_mem b) ?_
      exact h.reachable_rest hcounted hcounted' hexclusive (fun y => List.mem_append_right Q) hx
  exact ⟨hothers.cons hqueue' hrest, hothers.cons_rest hqueue'⟩

/-- The number is set in the table of the object as well. -/
lemma Numbered.tablesStand {tables : Tables} {o : ObjectTable JsonPtr} {values : List JsonPtr}
    (h : Numbered j b pairs n j') (htables : TablesStand tables j)
    (hb : j.Live b ⟨k, .object pairs⟩) (hlength : pairs.length < 1610612741)
    (ho : (tables b).json_object_set_new_nocheck "seqID" (.cell j.cells.length)
      = ⟨values, .ok o⟩) : TablesStand (Function.update tables b o) j' := by
  intro a k' ps ha
  by_cases hab : a = b
  · subst hab
    obtain ⟨k'', hself⟩ := h.self
    obtain ⟨-, ⟨⟩⟩ := RcCell.mk.inj (ha.inj hself)
    obtain ⟨o', ho', hstands⟩ := (htables a k pairs hb).set hlength "seqID" (.cell j.cells.length)
    obtain rfl := Except.ok.inj (congrArg Traced.result (ho'.symm.trans ho))
    rw [Function.update_self, ← setKey_eq_setPair]
    exact hstands
  · rw [Function.update_of_ne hab]
    obtain ⟨⟨l, value⟩, hd, hvalue⟩ := h.others a _ ha hab
    rcases live_json_integer hd with ⟨-, hinteger⟩ | hd
    · exact absurd (hinteger.symm.trans hvalue) (by simp)
    · obtain rfl : value = .object ps := hvalue
      exact htables a l ps hd

end

end JsonHeap

end Headcrab
