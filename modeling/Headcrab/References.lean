/-
# The references that `dispatch` takes and gives back

The values of jansson are cells with a count of the references to them; `true`, `false` and
`null` are three static cells that are not counted.  `headcrab_handle_commands` takes over
the reference that the in-queue held on a message, and hands it to `dispatch`.  This file is
`dispatch` on such cells: the decisions are those of `dispatch` on trees
(`dispatch_of_command`, `dispatch_of_not_command`), and what is new is what becomes of the
references.

The message is released only on one path, the one on which handlers run, and there the
arguments are kept if they are counted (`released_iff`).
-/
import Headcrab.Requests
import Headcrab.Lib.RefCount

namespace Headcrab

/-- A `json_t *` that is not `NULL`. -/
inductive JsonPtr
  | cell (b : ℕ)
  | the_true
  | the_false
  | the_null
deriving DecidableEq, Repr

/-- The value of a counted cell. -/
inductive JsonValue
  | object (fields : List (String × JsonPtr))
  | array (items : List JsonPtr)
  | string (value : String)
  | integer (value : ℤ)
  | real (bits : UInt64)
deriving DecidableEq, Repr

/-- The references that count. -/
def JsonPtr.refs : JsonPtr → List ℕ
  | .cell b => [b]
  | _ => []

/-- The references that a pair of an object holds. -/
def fieldRefs (f : String × JsonPtr) : List ℕ := f.2.refs

instance : Refers JsonValue where
  children
    | .object fields => fields.flatMap fieldRefs
    | .array items => items.flatMap JsonPtr.refs
    | _ => []

/-- The cells of jansson. -/
abbrev JsonHeap : Type := Store (RcCell JsonValue)

open RefCount (Counted Acyclic Reachable edges)

namespace JsonHeap

/-- The cell behind a pointer, if it is a counted one. -/
def read (j : JsonHeap) : Option JsonPtr → Except Fault (Option JsonValue)
  | some (.cell b) => do return some (← j.load (Ptr.ofBlock b)).value
  | _ => .ok none

def json_is_object (j : JsonHeap) (json : Option JsonPtr) : Except Fault Bool := do
  match ← j.read json with
  | some (.object _) => return true
  | _ => return false

def json_is_string (j : JsonHeap) (json : Option JsonPtr) : Except Fault Bool := do
  match ← j.read json with
  | some (.string _) => return true
  | _ => return false

def json_is_integer (j : JsonHeap) (json : Option JsonPtr) : Except Fault Bool := do
  match ← j.read json with
  | some (.integer _) => return true
  | _ => return false

def json_string_value (j : JsonHeap) (json : Option JsonPtr) : Except Fault (Option String) := do
  match ← j.read json with
  | some (.string value) => return some value
  | _ => return none

/-- The reference is borrowed from the object. -/
def json_object_get (j : JsonHeap) (json : Option JsonPtr) (key : String) :
    Except Fault (Option JsonPtr) := do
  match ← j.read json with
  | some (.object fields) => return fields.lookup key
  | _ => return none

/-- The static cells are not counted, and `NULL` is ignored. -/
def json_incref (j : JsonHeap) : Option JsonPtr → Except Fault JsonHeap
  | some (.cell b) => RefCount.incref j b
  | _ => .ok j

def json_decref (j : JsonHeap) : Option JsonPtr → Except Fault JsonHeap
  | some (.cell b) => RefCount.decref j b
  | _ => .ok j

/-- `hashtable_set`, on the pairs of an object: a pair that is there keeps its place. -/
def setPair (key : String) (value : JsonPtr) :
    List (String × JsonPtr) → List (String × JsonPtr)
  | [] => [(key, value)]
  | f :: fields => if f.1 = key then (key, value) :: fields else f :: setPair key value fields

/-- `json_object_set_new`, which takes over the reference on the value. -/
def json_object_set_new (j : JsonHeap) (json : Option JsonPtr) (key : String)
    (value : Option JsonPtr) : Except Fault JsonHeap :=
  match value with
  | none => .ok j
  | some v => do
    match json, ← j.read json with
    | some (.cell b), some (.object fields) =>
      if json = value then j.json_decref value
      else
        -- nobody reads the pair while its old value is given back, so the new one can be
        -- there before
        let j ← j.modify (Ptr.ofBlock b) fun c =>
          { c with value := .object (setPair key v fields) }
        json_decref j (fields.lookup key)
    | _, _ => j.json_decref value

/-- `json_object_set`, which takes a reference of its own. -/
def json_object_set (j : JsonHeap) (json : Option JsonPtr) (key : String)
    (value : Option JsonPtr) : Except Fault JsonHeap := do
  let j ← j.json_incref value
  j.json_object_set_new json key value

variable {ω : Type}

/-- `dispatch`, on the cells of jansson. -/
def dispatch (hooks : Hooks (Option JsonPtr) (Heap × (JsonHeap × ω))) (fuel : ℕ)
    (message : Option JsonPtr) (s : Heap × (JsonHeap × ω)) :
    Traced (HookEvent (Option JsonPtr)) Fault (Heap × (JsonHeap × ω)) := do
  let j := s.2.1
  if !(← j.json_is_object message) then pure s
  else
    let type ← j.json_object_get message "type"
    if !(← j.json_is_string type) || (← j.json_string_value type) != some "command" then pure s
    else
      let target ← j.json_object_get message "target"
      if !(← j.json_is_string target) then pure s
      else
        let command ← j.json_object_get message "command"
        if !(← j.json_is_string command) then pure s
        else
          let args ← j.json_object_get message "args"
          let j ← j.json_incref args
          let seqID ← j.json_object_get message "seqID"
          if !(← j.json_is_integer seqID) then pure (s.1, (j, s.2.2))
          else
            let j ← j.json_object_set args "seqID" seqID
            let s ← dispatch_table_execute hooks fuel (← j.json_string_value target)
              (← j.json_string_value command) args (s.1, (j, s.2.2))
            let j ← s.2.1.json_decref message
            pure (s.1, (j, s.2.2))

/-! ## The trees that cells stand for -/

/-- The pointer stands for a JSON value. -/
inductive Denotes (j : JsonHeap) : JsonPtr → Json → Prop
  | the_true : Denotes j .the_true .true
  | the_false : Denotes j .the_false .false
  | the_null : Denotes j .the_null .null
  | string {b n : ℕ} {value : String} : j.Live b ⟨n, .string value⟩ →
      Denotes j (.cell b) (.string value)
  | integer {b n : ℕ} {value : ℤ} : j.Live b ⟨n, .integer value⟩ →
      Denotes j (.cell b) (.integer value)
  | real {b n : ℕ} {bits : UInt64} : j.Live b ⟨n, .real bits⟩ → Denotes j (.cell b) (.real bits)
  | array {b n : ℕ} {items : List JsonPtr} {values : List Json} :
      j.Live b ⟨n, .array items⟩ → List.Forall₂ (Denotes j) items values →
      Denotes j (.cell b) (.array values)
  | object {b n : ℕ} {pairs : List (String × JsonPtr)} {fields : List (String × Json)} :
      j.Live b ⟨n, .object pairs⟩ → pairs.map Prod.fst = fields.map Prod.fst →
      List.Forall₂ (Denotes j) (pairs.map Prod.snd) (fields.map Prod.snd) →
      Denotes j (.cell b) (.object fields)

/-- The same for pointers that may be `NULL`. -/
abbrev Same (j : JsonHeap) : Option JsonPtr → Option Json → Prop := Option.Rel (Denotes j)

variable {j : JsonHeap} {p : Option JsonPtr} {v : Option Json}

lemma same_lookup {pairs : List (String × JsonPtr)} {fields : List (String × Json)}
    (hkeys : pairs.map Prod.fst = fields.map Prod.fst)
    (hvalues : List.Forall₂ (Denotes j) (pairs.map Prod.snd) (fields.map Prod.snd))
    (key : String) : Same j (pairs.lookup key) (fields.lookup key) := by
  induction pairs generalizing fields with
  | nil =>
    obtain rfl : fields = [] := List.map_eq_nil_iff.mp hkeys.symm
    exact .none
  | cons f pairs ih =>
    rcases fields with _ | ⟨g, fields⟩
    · exact absurd hkeys (by simp)
    · obtain ⟨k, x⟩ := f
      obtain ⟨k', y⟩ := g
      simp only [List.map_cons, List.cons.injEq, List.forall₂_cons] at hkeys hvalues
      obtain ⟨rfl, hkeys⟩ := hkeys
      by_cases hk : key = k
      · subst hk
        rw [List.lookup_cons_self, List.lookup_cons_self]
        exact .some hvalues.1
      · rw [List.lookup_cons, List.lookup_cons, beq_eq_false_iff_ne.mpr hk]
        exact ih hkeys hvalues.2

/-- What is read through a pointer agrees with the value that it stands for. -/
lemma Same.tests (h : Same j p v) :
    j.json_is_object p = .ok (Json.json_is_object v) ∧
      j.json_is_string p = .ok (Json.json_is_string v) ∧
      j.json_is_integer p = .ok (Json.json_is_integer v) ∧
      j.json_string_value p = .ok (Json.json_string_value v) := by
  rcases h with h | -
  · cases h with
    | the_true | the_false | the_null => exact ⟨rfl, rfl, rfl, rfl⟩
    | string hb | integer hb | real hb | array hb _ | object hb _ _ =>
      simp only [json_is_object, json_is_string, json_is_integer, json_string_value, read,
        hb.load]
      exact ⟨rfl, rfl, rfl, rfl⟩
  · exact ⟨rfl, rfl, rfl, rfl⟩

/-- A pointer to a string is one to a cell. -/
lemma Same.string (h : Same j p (some (.string value))) :
    ∃ b n, p = some (.cell b) ∧ j.Live b ⟨n, .string value⟩ := by
  rcases h with h | -
  cases h with
  | string hb => exact ⟨_, _, rfl, hb⟩

/-! ## What the operations do to the references -/

open RefCount (Shrinks)

/-- The references behind a pointer that may be `NULL`. -/
def refsOf (p : Option JsonPtr) : List ℕ := p.elim [] JsonPtr.refs

/-- The cells that were there are there, with their values. -/
def SameValues (j j' : JsonHeap) : Prop :=
  ∀ b c, j.Live b c → ∃ c', j'.Live b c' ∧ c'.value = c.value

/-- The cells that are left were there before, and have their values, except that the object
behind `p` may have other pairs. -/
def ChangesOnly (p : Option JsonPtr) (j j' : JsonHeap) : Prop :=
  ∀ b c', j'.Live b c' → ∃ c, j.Live b c ∧
    (c.value = c'.value ∨ p = some (.cell b) ∧ ∃ pairs, c.value = .object pairs)

variable {j' j'' : JsonHeap} {R : List ℕ}

lemma ChangesOnly.of_shrinks (h : Shrinks j j') : ChangesOnly p j j' := by
  intro b c' hb
  obtain ⟨c, hc, hv⟩ := h b c' hb
  exact ⟨c, hc, Or.inl hv⟩

lemma ChangesOnly.after_shrinks (h : Shrinks j j') (h' : ChangesOnly p j' j'') :
    ChangesOnly p j j'' := by
  intro b c'' hb
  obtain ⟨c', hb', hv'⟩ := h' b c'' hb
  obtain ⟨c, hc, hv⟩ := h b c' hb'
  exact ⟨c, hc, hv ▸ hv'⟩

lemma read_of_live {b : ℕ} {c : RcCell JsonValue} (h : j.Live b c) :
    j.read (some (.cell b)) = .ok (some c.value) := by
  rw [read, h.load]
  rfl

/-- What a pointer reads stays the same if the values do. -/
lemma SameValues.read (h : SameValues j j') {value : Option JsonValue}
    (hread : j.read p = .ok value) : j'.read p = .ok value := by
  rcases p with _ | q
  · exact hread
  · cases q with
    | the_true | the_false | the_null => exact hread
    | cell b =>
      rw [JsonHeap.read] at hread
      rcases hload : j.load (Ptr.ofBlock b) with e | c
      · rw [hload] at hread
        exact absurd hread (by simp [bind, Except.bind])
      · obtain ⟨c', hb', hvalue⟩ := h b c (Store.live_of_load hload)
        rw [read_of_live hb', hvalue]
        rw [hload] at hread
        exact hread

lemma SameValues.json_is_integer (h : SameValues j j') (hp : Same j p v) :
    j'.json_is_integer p = .ok (Json.json_is_integer v) := by
  have hread : ∃ value, j.read p = .ok value := by
    rcases hp with hp | -
    · cases hp with
      | the_true | the_false | the_null => exact ⟨none, rfl⟩
      | string hb | integer hb | real hb | array hb _ | object hb _ _ => exact ⟨_, read_of_live hb⟩
    · exact ⟨none, rfl⟩
  obtain ⟨value, hread⟩ := hread
  rw [← hp.tests.2.2.1, JsonHeap.json_is_integer, JsonHeap.json_is_integer, h.read hread, hread]

/-- A reference is taken. -/
lemma json_incref_spec (h : Counted j R) (hp : ∀ b ∈ refsOf p, ∃ c, j.Live b c) :
    ∃ j', j.json_incref p = .ok j' ∧ Counted j' (refsOf p ++ R) ∧ SameValues j j' ∧
      Shrinks j j' := by
  have hsame : ∃ j', Except.ok (ε := Fault) j = .ok j' ∧ Counted j' ([] ++ R) ∧
      SameValues j j' ∧ Shrinks j j' :=
    ⟨j, rfl, h, fun b c hb => ⟨c, hb, rfl⟩, Shrinks.refl j⟩
  rcases p with _ | q
  · exact hsame
  · cases q with
    | the_true | the_false | the_null => exact hsame
    | cell b =>
      obtain ⟨c, hb⟩ := hp b (by simp [refsOf, JsonPtr.refs])
      obtain ⟨hok, hcounted⟩ := h.incref hb
      refine ⟨_, hok, hcounted, fun x d hx => ?_, RefCount.shrinks_set hb ?_⟩
      · by_cases hxb : x = b
        · subst hxb
          obtain rfl := hb.inj hx
          exact ⟨_, hb.put_self _, rfl⟩
        · exact ⟨d, hx.put_of_ne (Ne.symm hxb) _, rfl⟩
      · rintro c' ⟨⟩
        rfl

/-- A reference is given back. -/
lemma json_decref_spec (h : Counted j (refsOf p ++ R)) :
    ∃ j', j.json_decref p = .ok j' ∧ Counted j' R ∧ Shrinks j j' := by
  rcases p with _ | q
  · exact ⟨j, rfl, h, Shrinks.refl j⟩
  · cases q with
    | the_true | the_false | the_null => exact ⟨j, rfl, h, Shrinks.refl j⟩
    | cell b => exact h.decref

/-- A pair is set: the reference to the new value comes in, the one to the old value goes. -/
lemma count_setPair (key : String) (v : JsonPtr) (pairs : List (String × JsonPtr)) (x : ℕ) :
    ((setPair key v pairs).flatMap fieldRefs).count x + (refsOf (pairs.lookup key)).count x
      = (pairs.flatMap fieldRefs).count x + v.refs.count x := by
  induction pairs with
  | nil => simp [setPair, refsOf, fieldRefs]
  | cons f pairs ih =>
    obtain ⟨k, w⟩ := f
    by_cases hk : k = key
    · subst hk
      rw [setPair, if_pos rfl, List.lookup_cons_self]
      simp only [List.flatMap_cons, List.count_append, fieldRefs, refsOf, Option.elim_some]
      omega
    · rw [setPair, if_neg hk, List.lookup_cons, beq_eq_false_iff_ne.mpr (Ne.symm hk)]
      simp only [List.flatMap_cons, List.count_append] at ih ⊢
      omega

/-- The pair is set in the object, and the reference to the old value is still to be given
back. -/
lemma counted_setPair {a n q : ℕ} {pairs : List (String × JsonPtr)} (h : Counted j (q :: R))
    (ha : j.Live a ⟨n, .object pairs⟩) (key : String) :
    Counted (j.put a ⟨n, .object (setPair key (.cell q) pairs)⟩)
      (refsOf (pairs.lookup key) ++ R) := by
  refine h.set ha ?_ fun x => ?_
  · rintro c' ⟨⟩
    show 0 < n
    exact h.pos a _ ha
  · have hcount := count_setPair key (.cell q) pairs x
    have hrefs : (if x = a then n else RefCount.refs j x) = RefCount.refs j x := by
      split
      · rename_i hx
        rw [hx, RefCount.refs_of_live ha]
      · rfl
    have hq : (q :: R).count x = (JsonPtr.refs (.cell q)).count x + R.count x := by
      rw [← List.count_append]
      rfl
    simp only [Option.elim_some, hrefs, hq, List.count_append, Refers.children]
    simp only [refsOf] at hcount ⊢
    omega

/-- A value is set under a key, and the reference to it is given away: whatever it is set in,
nothing but that object changes, and no reference is left over. -/
lemma json_object_set_new_spec {q : ℕ} (h : Counted j (q :: R))
    (hp : ∀ b ∈ refsOf p, ∃ c, j.Live b c) (key : String) :
    ∃ j', j.json_object_set_new p key (some (.cell q)) = .ok j' ∧ Counted j' R ∧
      ChangesOnly p j j' ∧ (refsOf p = [] → Shrinks j j') := by
  have hgive : ∃ j', j.json_decref (some (.cell q)) = .ok j' ∧ Counted j' R ∧
      ChangesOnly p j j' ∧ (refsOf p = [] → Shrinks j j') := by
    obtain ⟨j', hdec, hcounted', hshrinks⟩ := json_decref_spec (p := some (.cell q)) h
    exact ⟨j', hdec, hcounted', .of_shrinks hshrinks, fun _ => hshrinks⟩
  rw [json_object_set_new]
  rcases p with _ | p
  · exact hgive
  · cases p with
    | the_true | the_false | the_null => exact hgive
    | cell a =>
      obtain ⟨c, ha⟩ := hp a (by simp [refsOf, JsonPtr.refs])
      rw [read_of_live ha]
      obtain ⟨n, value⟩ := c
      cases value with
      | array _ | string _ | integer _ | real _ => exact hgive
      | object pairs =>
        by_cases haq : a = q
        · subst haq
          simpa [bind, Except.bind] using hgive
        · -- the old value of the key is given back
          obtain ⟨j', hdec, hcounted', hshrinks⟩ := json_decref_spec (counted_setPair h ha key)
          refine ⟨j', ?_, hcounted', ?_, fun hnil => absurd hnil (by simp [refsOf, JsonPtr.refs])⟩
          · have hne : some (JsonPtr.cell a) ≠ some (JsonPtr.cell q) := by simpa using haq
            simp only [bind, Except.bind, hne, if_false, ha.modify]
            exact hdec
          · intro b d hb
            obtain ⟨d', hb', hd'⟩ := hshrinks b d hb
            rcases RefCount.live_set hb' with ⟨rfl, -⟩ | ⟨-, hb₁⟩
            · exact ⟨_, ha, Or.inr ⟨rfl, pairs, rfl⟩⟩
            · exact ⟨d', hb₁, Or.inl hd'⟩

/-- The same, with a reference that is taken for it. -/
lemma json_object_set_spec (h : Counted j R) {q : ℕ} (hq : ∃ c, j.Live q c)
    (hp : ∀ b ∈ refsOf p, ∃ c, j.Live b c) (key : String) :
    ∃ j', j.json_object_set p key (some (.cell q)) = .ok j' ∧ Counted j' R ∧
      ChangesOnly p j j' ∧ (refsOf p = [] → Shrinks j j') := by
  obtain ⟨j₁, hinc, hcounted, hsame, hshrinks⟩ :=
    json_incref_spec (p := some (.cell q)) h (by simpa [refsOf, JsonPtr.refs] using hq)
  have hp₁ : ∀ b ∈ refsOf p, ∃ c, j₁.Live b c := by
    intro b hb
    obtain ⟨c, hc⟩ := hp b hb
    obtain ⟨c₁, hc₁, -⟩ := hsame b c hc
    exact ⟨c₁, hc₁⟩
  obtain ⟨j', hset, hcounted', hchanges, hshrinks'⟩ := json_object_set_new_spec hcounted hp₁ key
  refine ⟨j', ?_, hcounted', hchanges.after_shrinks hshrinks,
    fun hnil => hshrinks.trans (hshrinks' hnil)⟩
  rw [json_object_set, hinc]
  exact hset

/-! ## The paths of `dispatch` -/

/-- What an object has under a key is one of its references. -/
lemma mem_children_of_lookup {pairs : List (String × JsonPtr)} {key : String} {x : ℕ}
    (h : pairs.lookup key = some (.cell x)) :
    x ∈ Refers.children (JsonValue.object pairs) := by
  obtain ⟨l₁, l₂, rfl, -⟩ := List.lookup_eq_some_iff.mp h
  exact List.mem_flatMap.mpr ⟨(key, .cell x), by simp, List.mem_singleton_self x⟩

/-- A string that the message refers to can still be read when the arguments have been given
the number. -/
lemma string_kept {b x m : ℕ} {c : RcCell JsonValue} {pairs : List (String × JsonPtr)}
    {key value : String} (hacyclic : Acyclic j) (hb : j.Live b c) (hc : c.value = .object pairs)
    (hp : pairs.lookup "args" = p) (hkey : pairs.lookup key = some (.cell x))
    (hx : j.Live x ⟨m, .string value⟩) (hmem : b ∈ R) (h' : Counted j' R)
    (hchanges : ChangesOnly p j j') :
    j'.json_string_value (some (.cell x)) = .ok (some value) := by
  -- the message is not its own arguments
  have hne : p ≠ some (.cell b) := by
    rintro rfl
    obtain ⟨rank, hrank⟩ := hacyclic
    exact absurd (hrank b c hb b (hc ▸ mem_children_of_lookup hp)) (Nat.lt_irrefl _)
  obtain ⟨c', hb'⟩ := h'.live (List.mem_append_left _ hmem)
  obtain ⟨d, hd, hvalue | ⟨hself, -⟩⟩ := hchanges b c' hb'
  swap
  · exact absurd hself hne
  obtain rfl := hb.inj hd
  obtain ⟨e, hx'⟩ := h'.live_child hb' (hvalue ▸ hc ▸ mem_children_of_lookup hkey)
  obtain ⟨d', hd', hvalue' | ⟨-, pairs', hobject⟩⟩ := hchanges x e hx'
  · obtain rfl := hx.inj hd'
    rw [json_string_value, read_of_live hx', ← hvalue']
    rfl
  · obtain rfl := hx.inj hd'
    exact absurd hobject (by simp)

/-- A pointer to an object with fields. -/
lemma Denotes.object_of_get {q : JsonPtr} {w x : Json} {key : String} (h : Denotes j q w)
    (hget : Json.json_object_get (some w) key = some x) :
    ∃ b n pairs fields, q = .cell b ∧ w = .object fields ∧ j.Live b ⟨n, .object pairs⟩ ∧
      ∀ key, Same j (pairs.lookup key) (fields.lookup key) := by
  cases h with
  | object hb hkeys hvalues => exact ⟨_, _, _, _, rfl, rfl, hb, same_lookup hkeys hvalues⟩
  | the_true | the_false | the_null | string _ | integer _ | real _ | array _ _ =>
    exact absurd hget (by simp [Json.json_object_get])

lemma Same.integer {n : ℤ} (h : Same j p (some (.integer n))) :
    ∃ b m, p = some (.cell b) ∧ j.Live b ⟨m, .integer n⟩ := by
  rcases h with h | -
  cases h with
  | integer hb => exact ⟨_, _, rfl, hb⟩

/-- What an object has under a key is there. -/
lemma live_of_lookup {b n : ℕ} {pairs : List (String × JsonPtr)} (h : Counted j R)
    (hb : j.Live b ⟨n, .object pairs⟩) (key : String) :
    ∀ x ∈ refsOf (pairs.lookup key), ∃ c, j.Live x c := by
  intro x hx
  rcases hlookup : pairs.lookup key with _ | q
  · rw [hlookup] at hx
    exact absurd hx (by simp [refsOf])
  · cases q with
    | the_true | the_false | the_null =>
      rw [hlookup] at hx
      exact absurd hx (by simp [refsOf, JsonPtr.refs])
    | cell y =>
      rw [hlookup] at hx
      obtain rfl := List.mem_singleton.mp hx
      exact h.live_child hb (mem_children_of_lookup hlookup)

lemma json_object_get_of_live {b n : ℕ} {pairs : List (String × JsonPtr)}
    (hb : j.Live b ⟨n, .object pairs⟩) (key : String) :
    j.json_object_get (some (.cell b)) key = .ok (pairs.lookup key) := by
  rw [json_object_get, read_of_live hb]
  rfl

/-- A command is executed with one more reference to its arguments, and then the reference to
the message is given back. -/
lemma dispatch_of_command {q : JsonPtr} {message : Json} {target verb : String} {seqID : ℤ}
    (h : Denotes j q message) (hcommand : IsCommand message target verb seqID)
    (hcounted : Counted j (q.refs ++ R)) (hacyclic : Acyclic j) :
    ∃ args j₁, Same j args (Json.json_object_get (some message) "args") ∧
      Counted j₁ (refsOf args ++ (q.refs ++ R)) ∧ (refsOf args = [] → Shrinks j j₁) ∧
      ∀ {ω : Type} (hooks : Hooks (Option JsonPtr) (Heap × (JsonHeap × ω))) (fuel : ℕ)
        (table : Heap) (e : ω),
        dispatch hooks fuel (some q) (table, (j, e))
          = (do
            let s ← dispatch_table_execute hooks fuel (some target) (some verb) args
              (table, (j₁, e))
            let j ← s.2.1.json_decref (some q)
            pure (s.1, (j, s.2.2))) := by
  obtain ⟨b, n, pairs, fields, rfl, rfl, hb, hsame⟩ := h.object_of_get hcommand.type
  have hget := json_object_get_of_live hb
  have htype := hsame "type"
  rw [show fields.lookup "type" = _ from hcommand.type] at htype
  have htarget := hsame "target"
  rw [show fields.lookup "target" = _ from hcommand.target] at htarget
  have hverb := hsame "command"
  rw [show fields.lookup "command" = _ from hcommand.command] at hverb
  have hseqID := hsame "seqID"
  rw [show fields.lookup "seqID" = _ from hcommand.seqID] at hseqID
  -- the reference to the arguments
  obtain ⟨j', hinc, hcounted', hvalues, hshrinks⟩ :=
    json_incref_spec hcounted (live_of_lookup hcounted hb "args")
  obtain ⟨⟨n', value⟩, hb', hvalue⟩ := hvalues b _ hb
  obtain rfl : value = .object pairs := hvalue
  -- the number of the command
  obtain ⟨x, m, hx, hlive⟩ := hseqID.integer
  obtain ⟨⟨m', value⟩, hlive', hvalue⟩ := hvalues x _ hlive
  obtain rfl : value = .integer seqID := hvalue
  have hargs : ∀ y ∈ refsOf (pairs.lookup "args"), ∃ c, j'.Live y c :=
    live_of_lookup hcounted' hb' "args"
  obtain ⟨j₁, hset, hcounted₁, hchanges, hshrinks₁⟩ :=
    json_object_set_spec hcounted' ⟨_, hlive'⟩ hargs "seqID"
  have hall := ChangesOnly.after_shrinks hshrinks hchanges
  have hmem : b ∈ refsOf (pairs.lookup "args") ++ (JsonPtr.refs (.cell b) ++ R) := by
    simp [JsonPtr.refs]
  -- the strings, which are read at the end
  obtain ⟨t, k, ht, htlive⟩ := htarget.string
  obtain ⟨v, l, hv, hvlive⟩ := hverb.string
  have htstring := string_kept hacyclic hb rfl rfl ht htlive hmem hcounted₁ hall
  have hvstring := string_kept hacyclic hb rfl rfl hv hvlive hmem hcounted₁ hall
  refine ⟨pairs.lookup "args", j₁, hsame "args", hcounted₁,
    fun hnil => hshrinks.trans (hshrinks₁ hnil), fun hooks fuel table e => ?_⟩
  rw [dispatch]
  have hobject : j.json_is_object (some (.cell b)) = .ok true := by
    rw [json_is_object, read_of_live hb]
    rfl
  have hinteger : j'.json_is_integer (some (.cell x)) = .ok true := by
    rw [json_is_integer, read_of_live hlive']
    rfl
  rw [ht] at htarget
  rw [hv] at hverb
  simp only [hobject, hget, json_object_get_of_live hb', htype.tests.2.1, htype.tests.2.2.2,
    htarget.tests.2.1, hverb.tests.2.1, hinc, hx, hinteger, hset, ht, hv, htstring, hvstring,
    Traced.liftM_eq, Traced.ofExcept_ok_bind, Json.json_is_string, Json.json_string_value]
  rfl

/-- Any other value is kept, and so may be its arguments. -/
lemma dispatch_of_not_command {b : ℕ} {message : Json} (h : Denotes j (.cell b) message)
    (hnot : ∀ target verb seqID, ¬ IsCommand message target verb seqID)
    (hcounted : Counted j (b :: R)) :
    ∃ j' N, Counted j' (N ++ b :: R) ∧
      ∀ {ω : Type} (hooks : Hooks (Option JsonPtr) (Heap × (JsonHeap × ω))) (fuel : ℕ)
        (table : Heap) (e : ω),
        dispatch hooks fuel (some (.cell b)) (table, (j, e)) = pure (table, (j', e)) := by
  have hobject := (Same.tests (.some h)).1
  by_cases hfields : Json.json_is_object (some message) = true
  swap
  · refine ⟨j, [], hcounted, fun hooks fuel table e => ?_⟩
    rw [Bool.not_eq_true] at hfields
    rw [dispatch]
    simp only [hobject, hfields, Traced.liftM_eq, Traced.ofExcept_ok_bind]
    rfl
  obtain ⟨fields, heq⟩ := exists_of_json_is_object hfields
  obtain rfl := Option.some.inj heq
  cases h with | object hb hkeys hvalues =>
  rename_i n pairs
  have hsame := same_lookup hkeys hvalues
  have hget := json_object_get_of_live hb
  obtain ⟨-, htype, -, htypeValue⟩ := (hsame "type").tests
  have htarget := (hsame "target").tests.2.1
  have hverb := (hsame "command").tests.2.1
  -- the reference to the arguments
  obtain ⟨j', hinc, hcounted', hshared, -⟩ :=
    json_incref_spec hcounted (live_of_lookup hcounted hb "args")
  obtain ⟨⟨n', value⟩, hb', hvalue⟩ := hshared b _ hb
  obtain rfl : value = .object pairs := hvalue
  have hget' := json_object_get_of_live hb'
  have hseqID := hshared.json_is_integer (hsame "seqID")
  -- the tests on the way, each of which keeps the message if it fails
  by_cases hall : (Json.json_is_string (fields.lookup "type") = true ∧
      Json.json_string_value (fields.lookup "type") = some "command") ∧
      Json.json_is_string (fields.lookup "target") = true ∧
      Json.json_is_string (fields.lookup "command") = true
  · obtain ⟨⟨htype₁, htype₂⟩, htarget₁, hverb₁⟩ := hall
    have hnumber : Json.json_is_integer (fields.lookup "seqID") = false := by
      by_contra hnumber
      rw [Bool.not_eq_false] at hnumber
      have hcommand : ∃ target verb seqID, IsCommand (.object fields) target verb seqID :=
        exists_isCommand htype₁ htype₂ htarget₁ hverb₁ hnumber
      obtain ⟨target, verb, seqID, hmessage⟩ := hcommand
      exact hnot target verb seqID hmessage
    refine ⟨j', _, hcounted', fun hooks fuel table e => ?_⟩
    rw [dispatch]
    simp only [hobject, hfields, hget, hget', htype, htypeValue, htarget, hverb, hinc, hseqID,
      htype₁, htype₂, htarget₁, hverb₁, hnumber, Traced.liftM_eq, Traced.ofExcept_ok_bind]
    rfl
  · refine ⟨j, [], hcounted, fun hooks fuel table e => ?_⟩
    rw [dispatch]
    simp only [hobject, hfields, hget, htype, htypeValue, htarget, hverb, Traced.liftM_eq,
      Traced.ofExcept_ok_bind]
    split
    · rfl
    split
    · rfl
    rename_i htype'
    split
    · rfl
    rename_i htarget'
    split
    · rfl
    rename_i hverb'
    simp only [Bool.not_eq_true', Bool.not_eq_false, Bool.or_eq_true, not_or, bne_iff_ne, ne_eq,
      not_not] at htype' htarget' hverb'
    exact absurd ⟨htype', htarget', hverb'⟩ hall

end JsonHeap

end Headcrab
