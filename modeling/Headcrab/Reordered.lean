/-
# The order of the pairs

The order in which `json_dumps` writes the pairs of an object does not matter to whoever reads
the text: `json_equal` takes two objects for equal that differ in it.  What a pointer stands for
with the pairs in the order in which they are written is equal to what it stands for with the
pairs in the order in which they were set (`Denotes.listed`), and is as well-formed.

So what is written of cells is read back as an equal value (`exists_text`), even while the other
thread writes another value, and has set marks of its own.
-/
import Headcrab.DumpCells

namespace Headcrab

/-! ## Equal values -/

/-- `json_equal`: the order of the pairs does not matter.  Reals are compared bit by bit here,
so `0.0` and `-0.0`, which are equal in C, are not. -/
inductive Json.Equal : Json → Json → Prop
  | string (value : String) : Json.Equal (.string value) (.string value)
  | integer (value : ℤ) : Json.Equal (.integer value) (.integer value)
  | real (bits : UInt64) : Json.Equal (.real bits) (.real bits)
  | true : Json.Equal .true .true
  | false : Json.Equal .false .false
  | null : Json.Equal .null .null
  | array {items items' : List Json} : List.Forall₂ Json.Equal items items' →
      Json.Equal (.array items) (.array items')
  | object {fields middle fields' : List (String × Json)} :
      fields.map Prod.fst = middle.map Prod.fst →
      List.Forall₂ Json.Equal (fields.map Prod.snd) (middle.map Prod.snd) →
      middle.Perm fields' → Json.Equal (.object fields) (.object fields')

/-- A value that is read back from what is written of it. -/
structure Readable (v : Json) : Prop where
  valid : v.Valid
  normal : ∀ bits ∈ v.reals, isSubnormal bits = false

namespace Json

lemma validItems_iff {items : List Json} : ValidItems items ↔ ∀ v ∈ items, v.Valid := by
  induction items with
  | nil => simp [ValidItems]
  | cons v items ih => rw [ValidItems, ih, List.forall_mem_cons]

lemma validFields_iff {fields : List (String × Json)} :
    ValidFields fields ↔ ∀ f ∈ fields, ZeroFree f.1 ∧ f.2.Valid := by
  induction fields with
  | nil => simp [ValidFields]
  | cons f fields ih => rw [ValidFields, ih, List.forall_mem_cons]

lemma realsItems_eq (items : List Json) : realsItems items = items.flatMap reals := by
  induction items with
  | nil => rfl
  | cons v items ih => rw [realsItems, ih, List.flatMap_cons]

lemma realsFields_eq (fields : List (String × Json)) :
    realsFields fields = fields.flatMap fun f => f.2.reals := by
  induction fields with
  | nil => rfl
  | cons f fields ih => rw [realsFields, ih, List.flatMap_cons]

end Json

lemma readable_array_iff {items : List Json} :
    Readable (.array items) ↔ ∀ v ∈ items, Readable v := by
  constructor
  · rintro ⟨hvalid, hnormal⟩ v hv
    rw [Json.Valid, Json.validItems_iff] at hvalid
    rw [Json.reals, Json.realsItems_eq] at hnormal
    exact ⟨hvalid v hv, fun bits hbits => hnormal bits (List.mem_flatMap.mpr ⟨v, hv, hbits⟩)⟩
  · intro h
    constructor
    · rw [Json.Valid, Json.validItems_iff]
      exact fun v hv => (h v hv).valid
    · rw [Json.reals, Json.realsItems_eq]
      intro bits hbits
      obtain ⟨v, hv, hmem⟩ := List.mem_flatMap.mp hbits
      exact (h v hv).normal bits hmem

lemma readable_object_iff {fields : List (String × Json)} :
    Readable (.object fields) ↔
      (fields.map Prod.fst).Nodup ∧ ∀ f ∈ fields, ZeroFree f.1 ∧ Readable f.2 := by
  constructor
  · rintro ⟨hvalid, hnormal⟩
    rw [Json.Valid, Json.validFields_iff] at hvalid
    rw [Json.reals, Json.realsFields_eq] at hnormal
    refine ⟨hvalid.1, fun f hf => ⟨(hvalid.2 f hf).1, (hvalid.2 f hf).2, fun bits hbits => ?_⟩⟩
    exact hnormal bits (List.mem_flatMap.mpr ⟨f, hf, hbits⟩)
  · rintro ⟨hnodup, h⟩
    constructor
    · rw [Json.Valid, Json.validFields_iff]
      exact ⟨hnodup, fun f hf => ⟨(h f hf).1, (h f hf).2.valid⟩⟩
    · rw [Json.reals, Json.realsFields_eq]
      intro bits hbits
      obtain ⟨f, hf, hmem⟩ := List.mem_flatMap.mp hbits
      exact (h f hf).2.normal bits hmem

lemma Readable.setField {fields : List (String × Json)} {key : String} {v : Json}
    (h : Readable (.object fields)) (hkey : ZeroFree key) (hv : Readable v) :
    Readable (.object (Json.setField key v fields)) := by
  obtain ⟨hnodup, hfields⟩ := readable_object_iff.mp h
  refine readable_object_iff.mpr ⟨Json.nodup_setField hnodup, fun f hf => ?_⟩
  rcases Json.mem_setField hf with rfl | hf
  · exact ⟨hkey, hv⟩
  · exact hfields f hf

lemma forall_of_forall₂ {α β : Type} {r : α → β → Prop} {p : α → Prop} {q : β → Prop}
    {as : List α} {bs : List β} (h : List.Forall₂ r as bs) (hp : ∀ a ∈ as, p a)
    (himp : ∀ a ∈ as, ∀ b, r a b → p a → q b) : ∀ b ∈ bs, q b := by
  induction h with
  | nil => simp
  | cons hab _ ih =>
    obtain ⟨ha, hp⟩ := List.forall_mem_cons.mp hp
    obtain ⟨hhead, htail⟩ := List.forall_mem_cons.mp himp
    exact List.forall_mem_cons.mpr ⟨hhead _ hab ha, ih hp htail⟩

/-- Of two lists of fields with the same keys, each field of the one is like one of the other. -/
lemma forall₂_fields {A B : Type} {r : A → B → Prop} {fields : List (String × A)}
    {fields' : List (String × B)} (hkeys : fields.map Prod.fst = fields'.map Prod.fst)
    (h : List.Forall₂ r (fields.map Prod.snd) (fields'.map Prod.snd)) :
    List.Forall₂ (fun f g => f.1 = g.1 ∧ r f.2 g.2) fields fields' := by
  induction fields generalizing fields' with
  | nil =>
    obtain rfl : fields' = [] := List.map_eq_nil_iff.mp hkeys.symm
    exact .nil
  | cons f fields ih =>
    rcases fields' with _ | ⟨g, fields'⟩
    · exact absurd hkeys (by simp)
    · simp only [List.map_cons, List.cons.injEq, List.forall₂_cons] at hkeys h
      exact .cons ⟨hkeys.1, h.1⟩ (ih hkeys.2 h.2)

lemma fields_of_forall₂ {A B : Type} {r : A → B → Prop} {fields : List (String × A)}
    {fields' : List (String × B)}
    (h : List.Forall₂ (fun f g => f.1 = g.1 ∧ r f.2 g.2) fields fields') :
    fields.map Prod.fst = fields'.map Prod.fst ∧
      List.Forall₂ r (fields.map Prod.snd) (fields'.map Prod.snd) := by
  induction h with
  | nil => exact ⟨rfl, .nil⟩
  | cons hfg _ ih =>
    rw [List.map_cons, List.map_cons, List.map_cons, List.map_cons]
    exact ⟨by rw [hfg.1, ih.1], .cons hfg.2 ih.2⟩

/-- What is equal to a value that is read back is read back. -/
lemma Json.Equal.readable {v w : Json} (h : Json.Equal v w) (hv : Readable v) : Readable w := by
  induction hn : sizeOf v using Nat.strongRecOn generalizing v w with
  | _ n ih =>
    subst hn
    cases h with
    | string _ | integer _ | real _ | true | false | null => exact hv
    | array hitems =>
      rw [readable_array_iff] at hv ⊢
      exact forall_of_forall₂ hitems hv fun a ha b hab hread =>
        ih _ (JsonHeap.sizeOf_lt_array ha) hab hread rfl
    | @object fields middle fields' hkeys hvalues hperm =>
      rw [readable_object_iff] at hv ⊢
      have hmiddle : ∀ f ∈ middle, ZeroFree f.1 ∧ Readable f.2 := by
        refine forall_of_forall₂ (forall₂_fields hkeys hvalues) hv.2 ?_
        rintro a ha b ⟨hkey, hequal⟩ ⟨hzero, hread⟩
        exact ⟨hkey ▸ hzero,
          ih _ (JsonHeap.sizeOf_lt_object (List.mem_map_of_mem ha)) hequal hread rfl⟩
      refine ⟨((hperm.map Prod.fst).nodup_iff).mp (hkeys ▸ hv.1), fun f hf => ?_⟩
      exact hmiddle f (hperm.symm.subset hf)

lemma Json.Equal.isContainer_eq {v w : Json} (h : Json.Equal v w) :
    isContainer w = isContainer v := by
  cases h <;> rfl

namespace JsonHeap

open RefCount (Counted Reachable)

/-! ## What is written of a pointer -/

section

variable {tables : Tables} {flags : ℕ} {j : JsonHeap} {p : JsonPtr} {v : Json}

/-- What a pointer stands for with the pairs in the order in which they are written. -/
lemma Denotes.listed (h : Denotes j p v) (htables : TablesStand tables j) (flags : ℕ) :
    ∃ w, Denotes (JsonHeap.listed tables flags j) p w ∧ Json.Equal v w := by
  induction hn : sizeOf v using Nat.strongRecOn generalizing p v with
  | _ n ih =>
    subst hn
    -- what a cell holds
    have hcalls : ∀ {qs : List JsonPtr} {us : List Json}, List.Forall₂ (Denotes j) qs us →
        (∀ u ∈ us, sizeOf u < sizeOf v) → ∃ ws,
          List.Forall₂ (Denotes (JsonHeap.listed tables flags j)) qs ws ∧
          List.Forall₂ Json.Equal us ws := by
      intro qs us hqs hlt
      induction hqs with
      | nil => exact ⟨[], .nil, .nil⟩
      | cons hq _ ihqs =>
        obtain ⟨hhead, htail⟩ := List.forall_mem_cons.mp hlt
        obtain ⟨w, hw, hequal⟩ := ih _ hhead hq rfl
        obtain ⟨ws, hws, hequals⟩ := ihqs htail
        exact ⟨w :: ws, .cons hw hws, .cons hequal hequals⟩
    cases h with
    | the_true => exact ⟨.true, .the_true, .true⟩
    | the_false => exact ⟨.false, .the_false, .false⟩
    | the_null => exact ⟨.null, .the_null, .null⟩
    | string hb => exact ⟨_, .string (live_listed_iff.mpr ⟨_, hb, rfl⟩), .string _⟩
    | integer hb => exact ⟨_, .integer (live_listed_iff.mpr ⟨_, hb, rfl⟩), .integer _⟩
    | real hb => exact ⟨_, .real (live_listed_iff.mpr ⟨_, hb, rfl⟩), .real _⟩
    | array hb hitems =>
      obtain ⟨ws, hws, hequals⟩ := hcalls hitems fun u => sizeOf_lt_array
      exact ⟨_, .array (live_listed_iff.mpr ⟨_, hb, rfl⟩) hws, .array hequals⟩
    | @object b n pairs fields hb hkeys hvalues =>
      obtain ⟨ws, hws, hequals⟩ := hcalls hvalues fun u => sizeOf_lt_object
      obtain ⟨seen, -, hperm, hlisted⟩ := htables.exists_pairs hb flags
      -- the fields in the order of the list, and then in that of the table
      have hlength : (fields.map Prod.fst).length = ws.length := by
        rw [← hequals.length_eq, List.length_map, List.length_map]
      let middle := (fields.map Prod.fst).zip ws
      have hfst : middle.map Prod.fst = fields.map Prod.fst :=
        List.map_fst_zip (Nat.le_of_eq hlength)
      have hsnd : middle.map Prod.snd = ws := List.map_snd_zip (Nat.le_of_eq hlength.symm)
      have halike := forall₂_fields (hkeys.trans hfst.symm) (hsnd.symm ▸ hws)
      obtain ⟨fields', halike', hperm'⟩ := List.perm_comp_forall₂ hperm halike
      obtain ⟨hkeys', hvalues'⟩ := fields_of_forall₂ halike'
      exact ⟨.object fields', .object (live_listed_iff.mpr ⟨_, hb, hlisted⟩) hkeys' hvalues',
        .object hfst.symm (hsnd.symm ▸ hequals) hperm'.symm⟩

/-- The same cells can be reached. -/
lemma reachable_of_listed (htables : TablesStand tables j) {Q : List ℕ} {b : ℕ}
    (h : Reachable (JsonHeap.listed tables flags j) Q b) : Reachable j Q b := by
  induction h with
  | root hmem => exact .root hmem
  | @child a b c _ hlive hmem ih =>
    obtain ⟨n, value⟩ := c
    obtain ⟨value', hlive', rfl⟩ := live_listed_iff.mp hlive
    exact .child ih hlive' ((children_listedValue htables hlive').subset hmem)

end

section

variable {snprintf_17g : UInt64 → List UInt8} {strtod : List UInt8 → UInt64 × Bool}
  {tables : Tables} {j : JsonHeap} {b : ℕ} {v : Json} {visited : Visited}

/-- **What is written of an object or array is read back as an equal value.**  Marks that have
been set elsewhere do not matter, and stay. -/
lemma exists_text (hreals : RealsReadBack snprintf_17g strtod) (htables : TablesStand tables j)
    (hb : Denotes j (.cell b) v) (hread : Readable v) (hcontainer : isContainer v = true)
    (hvisited : ∀ x ∈ visited, x < j.cells.length ∧ ¬ Reachable j [b] x) (flags lflags : ℕ) :
    ∃ text w, json_dump_callback snprintf_17g tables j flags (.cell b) visited
        = ⟨text, .ok (.ok (), visited)⟩ ∧
      json_loads (jsonp_strtod strtod) text lflags = .ok w ∧ Json.Equal v w := by
  obtain ⟨w, hw, hequal⟩ := hb.listed htables flags
  have hread' := hequal.readable hread
  have hcontainer' := hequal.isContainer_eq.trans hcontainer
  have hback : DumpsBack snprintf_17g (jsonp_strtod strtod) flags lflags w :=
    dumpsBack_of_valid hreals w hread'.valid hread'.normal
  obtain ⟨text, htext, hloads⟩ := hback 0
  refine ⟨text, w, ?_, hloads.json_loads (Or.inl hcontainer'), hequal⟩
  obtain ⟨c, hlive⟩ := hb.live
  have hp : ∀ x ∈ (JsonPtr.cell b).refs, ∃ c, j.Live x c := by
    intro x hx
    rw [List.mem_singleton.mp hx]
    exact ⟨c, hlive⟩
  obtain ⟨a, o, ha, ho, hkind⟩ := exists_kind tables flags hp
  rw [json_dump_callback_eq ha ho, ← hkind w hw, hcontainer', Bool.not_true, Bool.and_false,
    if_neg (by simp)]
  have hwrites : WritesAs visited (do_dump snprintf_17g tables j flags (j.cells.length + 1) 0
      (.cell b)) (Headcrab.do_dump snprintf_17g flags 0 w) :=
    writesAs_do_dump htables _ 0 visited hw
      (fun x hx => Or.inl fun hmem => (hvisited x hx).2 (reachable_of_listed htables hmem))
      (fun x hx => (hvisited x hx).1) (by omega)
  rw [WritesAs, htext] at hwrites
  exact hwrites

end

end JsonHeap

end Headcrab
