/-
# An object is a map that remembers the order of its keys

The list of a hash table is in no order that a program could rely on: it depends on the hash of
the keys and on how often the table has grown.  But every pair has a serial number, which it
got when its key was set for the first time, and by these numbers the pairs are the list of
fields that the other files of this development take an object to be
(`setKey_eq_setField`, `setKey_eq_setPair`).

`object_refines` says so of every sequence of operations: none of them runs into a fault, each
returns what it would return on the list of fields, an iteration sees every field once, and
the writer finds the fields in the order that its flags ask for.  And no value that an object
was given is lost, or given back twice (`object_gives_back`).
-/
import Headcrab.Dump
import Headcrab.HashtableRep
import Headcrab.References
import Mathlib.Data.List.Lex
import Mathlib.Data.List.Sort

namespace Headcrab

open Groups (items group Grouped)

variable {V : Type}

/-! ## The map -/

/-- A key is set; one that is there keeps its place. -/
def setKey (key : String) (value : V) : List (String × V) → List (String × V)
  | [] => [(key, value)]
  | f :: fields => if f.1 = key then (key, value) :: fields else f :: setKey key value fields

lemma setKey_eq_setField (key : String) (value : Json) (fields : List (String × Json)) :
    setKey key value fields = Json.setField key value fields := by
  induction fields with
  | nil => rfl
  | cons f fields ih => rw [setKey, Json.setField, ih]

lemma setKey_eq_setPair (key : String) (value : JsonPtr) (pairs : List (String × JsonPtr)) :
    setKey key value pairs = JsonHeap.setPair key value pairs := by
  induction pairs with
  | nil => rfl
  | cons f pairs ih => rw [setKey, JsonHeap.setPair, ih]

/-- The bytes of a key, as `strcmp` compares them. -/
def keyBytes (key : String) : List ℕ := (utf8Bytes key.toList).map UInt8.toNat

/-- The operations on an object. -/
inductive ObjectOp (V : Type)
  | json_object_set_new (key : String) (value : V)
  | json_object_get (key : String)
  | json_object_del (key : String)
  | json_object_clear
  | json_object_size
  /-- `json_object_foreach`. -/
  | foreach
  /-- The loop over the pairs in `do_dump`. -/
  | do_dump (flags : ℕ)
deriving DecidableEq, Repr

/-- What an operation returns. -/
inductive ObjectResult (V : Type)
  | done
  | value (value : Option V)
  | code (result : ℤ)
  | size (n : ℕ)
  | fields (fields : List (String × V))
deriving DecidableEq, Repr

/-- One operation on the list of fields: what it returns, and the values that are given back. -/
inductive FieldsStep :
    List (String × V) → ObjectOp V → ObjectResult V → List V → List (String × V) → Prop
  | set (fields : List (String × V)) (key : String) (value : V) :
      FieldsStep fields (.json_object_set_new key value) .done (fields.lookup key).toList
        (setKey key value fields)
  | get (fields : List (String × V)) (key : String) :
      FieldsStep fields (.json_object_get key) (.value (fields.lookup key)) [] fields
  | del {fields : List (String × V)} {key : String} {value : V} :
      fields.lookup key = some value →
      FieldsStep fields (.json_object_del key) (.code 0) [value] (fields.filter (·.1 ≠ key))
  | del_none {fields : List (String × V)} {key : String} : fields.lookup key = none →
      FieldsStep fields (.json_object_del key) (.code (-1)) [] fields
  /-- In whatever order the values are given back. -/
  | clear {fields : List (String × V)} {values : List V} : values.Perm (fields.map Prod.snd) →
      FieldsStep fields .json_object_clear .done values []
  | size (fields : List (String × V)) :
      FieldsStep fields .json_object_size (.size fields.length) [] fields
  /-- In whatever order the fields are seen. -/
  | foreach {fields seen : List (String × V)} : seen.Perm fields →
      FieldsStep fields .foreach (.fields seen) [] fields
  /-- In the order of the keys, in that in which they were set, or in any. -/
  | do_dump {fields seen : List (String × V)} {flags : ℕ} : seen.Perm fields →
      (hasFlag flags JSON_SORT_KEYS = true →
        seen.Pairwise fun f g => keyBytes f.1 ≤ keyBytes g.1) →
      (hasFlag flags JSON_SORT_KEYS = false → hasFlag flags JSON_PRESERVE_ORDER = true →
        seen = fields) →
      FieldsStep fields (.do_dump flags) (.fields seen) [] fields

/-- Operations one after the other on the list of fields. -/
inductive FieldsRun : List (String × V) → List (ObjectOp V) → List (ObjectResult V) → List V →
    List (String × V) → Prop
  | nil (fields : List (String × V)) : FieldsRun fields [] [] [] fields
  | cons {fields fields' fields'' : List (String × V)} {op : ObjectOp V} {ops : List (ObjectOp V)}
      {result : ObjectResult V} {results : List (ObjectResult V)} {values values' : List V} :
      FieldsStep fields op result values fields' →
      FieldsRun fields' ops results values' fields'' →
      FieldsRun fields (op :: ops) (result :: results) (values ++ values') fields''

/-! ## The operations on the table -/

namespace ObjectTable

/-- `object_key_compare_keys` or `object_key_compare_serials` is not positive. -/
def keyLe (flags : ℕ) (a b : ℕ × String) : Prop :=
  if hasFlag flags JSON_SORT_KEYS then keyBytes a.2 ≤ keyBytes b.2 else a.1 ≤ b.1

instance (flags : ℕ) : DecidableRel (keyLe flags) := fun a b =>
  inferInstanceAs (Decidable
    (if hasFlag flags JSON_SORT_KEYS = true then keyBytes a.2 ≤ keyBytes b.2 else a.1 ≤ b.1))

/-- The keys as the writer collects them, each with its serial number, and sorts them. -/
def sortedKeys (flags : ℕ) (pairs : List (Pair V)) : List (ℕ × String) :=
  (pairs.map fun p => (p.serial, p.key)).insertionSort (keyLe flags)

/-- `value = json_object_get(json, key); assert(value);` for each of the keys. -/
def valuesOf (o : ObjectTable V) : List (ℕ × String) → Except Fault (List (String × V))
  | [] => .ok []
  | (_, key) :: keys => do
    match ← o.json_object_get key with
    | none => .error .nullDeref
    | some value => return (key, value) :: (← o.valuesOf keys)

/-- The pairs in the order in which the loop of `do_dump` writes them.  Nothing changes the table
in the meantime, so they can be collected before the first one is written. -/
def inDumpOrder (o : ObjectTable V) (flags : ℕ) : Except Fault (List (String × V)) := do
  let pairs ← iterate o.hashtable
  if hasFlag flags JSON_SORT_KEYS || hasFlag flags JSON_PRESERVE_ORDER then
    o.valuesOf (sortedKeys flags pairs)
  else return pairs.map fun p => (p.key, p.value)

/-- One operation. -/
def step (o : ObjectTable V) : ObjectOp V → Traced V Fault (ObjectResult V × ObjectTable V)
  | .json_object_set_new key value => do
    return (.done, ← o.json_object_set_new_nocheck key value)
  | .json_object_get key => do return (.value (← o.json_object_get key), o)
  | .json_object_del key => do
    let (result, o) ← o.json_object_del key
    return (.code result, o)
  | .json_object_clear => do return (.done, ← o.json_object_clear)
  | .json_object_size => return (.size o.json_object_size, o)
  | .foreach => do
    return (.fields ((← iterate o.hashtable).map fun p => (p.key, p.value)), o)
  | .do_dump flags => do return (.fields (← o.inDumpOrder flags), o)

/-- Operations one after the other. -/
def run (o : ObjectTable V) :
    List (ObjectOp V) → Traced V Fault (List (ObjectResult V) × ObjectTable V)
  | [] => return ([], o)
  | op :: ops => do
    let (result, o) ← o.step op
    let (results, o) ← o.run ops
    return (result :: results, o)

end ObjectTable

/-! ## The pairs of a table -/

/-- The table holds these pairs, in some order; each key is there once, and there are at
least as many buckets. -/
structure HoldsPairs (t : Hashtable V) (n : ℕ) (gs : Groups (ℕ × Pair V)) (pairs : List (Pair V)) :
    Prop where
  bucketed : Bucketed t n gs
  perm : ((items gs).map Prod.snd).Perm pairs
  size : t.size = pairs.length
  length_le : pairs.length ≤ n
  hash_eq : ∀ p ∈ pairs, p.hash = hash_str p.key
  nodup : (pairs.map Pair.key).Nodup

section

variable {t : Hashtable V} {n : ℕ} {gs : Groups (ℕ × Pair V)} {pairs : List (Pair V)}
  {key : String} {x : ℕ × Pair V}

lemma HoldsPairs.mem_pairs (h : HoldsPairs t n gs pairs) (hx : x ∈ items gs) : x.2 ∈ pairs :=
  h.perm.subset (List.mem_map_of_mem hx)

/-- The pair with a key is in the bucket of the key. -/
lemma HoldsPairs.find?_eq_some_iff (h : HoldsPairs t n gs pairs) :
    (group gs (hash_str key % n)).find? (isPair key (hash_str key)) = some x ↔
      x ∈ items gs ∧ x.2.key = key := by
  constructor
  · intro hfind
    have hkey := List.find?_some hfind
    rw [isPair, decide_eq_true_eq] at hkey
    exact ⟨h.bucketed.mem_items (List.mem_of_find?_eq_some hfind), hkey.2⟩
  · rintro ⟨hx, rfl⟩
    have hhash := h.hash_eq x.2 (h.mem_pairs hx)
    have hmem : x ∈ group gs (hash_str x.2.key % n) := by
      rw [h.bucketed.grouped.mem_group_iff, bucketIndex, hhash]
      exact ⟨hx, rfl⟩
    rcases hfind : (group gs (hash_str x.2.key % n)).find? (isPair x.2.key (hash_str x.2.key))
      with _ | y
    · have hnone := List.find?_eq_none.mp hfind x hmem
      exact absurd (by rw [isPair, hhash]; simp) hnone
    · -- the keys are different, so this is the pair itself
      have hkey := List.find?_some hfind
      rw [isPair, decide_eq_true_eq] at hkey
      have hy := h.bucketed.mem_items (List.mem_of_find?_eq_some hfind)
      have hnodup : ((items gs).map fun x => x.2.key).Nodup := by
        have hperm := (h.perm.map Pair.key).nodup_iff.mpr h.nodup
        rwa [List.map_map] at hperm
      rw [List.inj_on_of_nodup_map hnodup hy hx hkey.2]

lemma HoldsPairs.find?_eq_none_iff (h : HoldsPairs t n gs pairs) :
    (group gs (hash_str key % n)).find? (isPair key (hash_str key)) = none ↔
      ∀ p ∈ pairs, p.key ≠ key := by
  rw [Option.eq_none_iff_forall_not_mem]
  constructor
  · rintro hnone p hp rfl
    obtain ⟨x, hx, rfl⟩ := List.mem_map.mp (h.perm.symm.subset hp)
    exact hnone x (h.find?_eq_some_iff.mpr ⟨hx, rfl⟩)
  · intro hne x hfind
    obtain ⟨hx, hkey⟩ := h.find?_eq_some_iff.mp hfind
    exact hne x.2 (h.mem_pairs hx) hkey

/-- The key of a table is there, and its pair stands in one place of the list, or it is not. -/
lemma HoldsPairs.find_cases (h : HoldsPairs t n gs pairs) (key : String) :
    (∃ x ∈ items gs, x.2.key = key ∧ ∃ l₁ l₂, pairs = l₁ ++ x.2 :: l₂ ∧
      (group gs (hash_str key % n)).find? (isPair key (hash_str key)) = some x) ∨
    ((∀ p ∈ pairs, p.key ≠ key) ∧
      (group gs (hash_str key % n)).find? (isPair key (hash_str key)) = none) := by
  rcases hfind : (group gs (hash_str key % n)).find? (isPair key (hash_str key)) with _ | x
  · exact Or.inr ⟨h.find?_eq_none_iff.mp hfind, rfl⟩
  · obtain ⟨hx, hkey⟩ := h.find?_eq_some_iff.mp hfind
    obtain ⟨l₁, l₂, hpairs⟩ := List.append_of_mem (h.mem_pairs hx)
    exact Or.inl ⟨x, hx, hkey, l₁, l₂, hpairs, rfl⟩

/-- The pair that an operation on a key is about. -/
lemma HoldsPairs.iter_at (h : HoldsPairs t n gs pairs) (key : String) :
    hashtable_iter_at t key
      = .ok (((group gs (hash_str key % n)).find? (isPair key (hash_str key))).map Prod.fst) := by
  have hi : hash_str key % n < n := Nat.mod_lt _ (primes_pos h.bucketed.primes_eq)
  rw [hashtable_iter_at, num_buckets_eq h.bucketed.primes_eq]
  simp only [bind, Except.bind, h.bucketed.bucket hi]
  exact h.bucketed.find_pair key (hash_str key) _

/-- The field that a pair is. -/
def Pair.field (p : Pair V) : String × V := (p.key, p.value)

lemma lookup_field_of_split {p : Pair V} {l₁ l₂ : List (Pair V)}
    (hnodup : ((l₁ ++ p :: l₂).map Pair.key).Nodup) :
    ((l₁ ++ p :: l₂).map Pair.field).lookup p.key = some p.value := by
  induction l₁ with
  | nil => simp [Pair.field]
  | cons q l₁ ih =>
    rw [List.cons_append, List.map_cons, List.nodup_cons] at hnodup
    have hne : p.key ≠ q.key := by
      rintro heq
      exact hnodup.1 (by simp [← heq])
    have hbeq : (p.key == q.key) = false := by simpa using hne
    rw [List.cons_append, List.map_cons, Pair.field, List.lookup_cons, hbeq]
    exact ih hnodup.2

lemma lookup_field_of_ne (h : ∀ p ∈ pairs, p.key ≠ key) :
    (pairs.map Pair.field).lookup key = none := by
  rw [List.lookup_eq_none_iff]
  rintro f hf
  obtain ⟨p, hp, rfl⟩ := List.mem_map.mp hf
  simpa [Pair.field] using (h p hp).symm

/-- **`hashtable_get`** finds what the list of fields has. -/
lemma HoldsPairs.get (h : HoldsPairs t n gs pairs) (key : String) :
    hashtable_get t key = .ok ((pairs.map Pair.field).lookup key) := by
  rw [hashtable_get, h.iter_at]
  rcases h.find_cases key with ⟨x, hx, rfl, l₁, l₂, rfl, hfind⟩ | ⟨hne, hfind⟩
  · rw [hfind, lookup_field_of_split h.nodup]
    simp only [bind, Except.bind, Option.map_some, list_to_pair_eq (h.bucketed.data x hx)]
    rfl
  · rw [hfind, lookup_field_of_ne hne]
    rfl

/-! ## Operations on the table -/

/-- There is a larger prime but for the last one. -/
lemma exists_prime_succ {k : ℕ} (h : primes[k]? = some n) (hn : n < 1610612741) :
    ∃ n', primes[k + 1]? = some n' ∧ n < n' := by
  have hchain : primes.IsChain (· < ·) := by decide
  obtain ⟨hk, rfl⟩ := List.getElem?_eq_some_iff.mp h
  have hlength : primes.length = 29 := rfl
  have hsucc : k + 1 < primes.length := by
    rcases Nat.lt_or_ge (k + 1) primes.length with hlt | hge
    · exact hlt
    · obtain rfl : k = 28 := by omega
      exact absurd hn (Nat.lt_irrefl _)
  exact ⟨primes[k + 1], List.getElem?_eq_getElem hsucc, List.isChain_iff_getElem.mp hchain k hsucc⟩

/-- Before a pair is inserted there are more buckets than pairs. -/
lemma HoldsPairs.ensureRoom (h : HoldsPairs t n gs pairs) (hlength : pairs.length < 1610612741) :
    ∃ t' n' gs', Headcrab.ensureRoom t = .ok t' ∧ HoldsPairs t' n' gs' pairs ∧
      pairs.length < n' := by
  have hn := num_buckets_eq h.bucketed.primes_eq
  rcases Nat.lt_or_ge pairs.length n with hlt | hge
  · refine ⟨t, n, gs, ?_, h, hlt⟩
    rw [Headcrab.ensureRoom, hn]
    simp only [bind, Except.bind, h.size, Nat.not_le.mpr hlt, if_false]
    rfl
  · have hle := h.length_le
    obtain ⟨n', hprime, hgrows⟩ := exists_prime_succ h.bucketed.primes_eq (by omega)
    obtain ⟨t', gs', hrehash, hbucketed, hperm, hsize, -⟩ := h.bucketed.rehash hprime
    refine ⟨t', n', gs', ?_, ⟨hbucketed, (hperm.map Prod.snd).trans h.perm, hsize.trans h.size,
      by omega, h.hash_eq, h.nodup⟩, by omega⟩
    rw [Headcrab.ensureRoom, hn]
    simp only [bind, Except.bind, h.size, hge, if_true]
    exact hrehash

/-- A key that is there gets another value, and the old one is given back. -/
lemma HoldsPairs.set_old {p : Pair V} {l₁ l₂ : List (Pair V)}
    (h : HoldsPairs t n gs (l₁ ++ p :: l₂)) (hlength : (l₁ ++ p :: l₂).length < 1610612741)
    (serial : ℕ) (value : V) :
    ∃ t' n' gs', hashtable_set t p.key serial value = ⟨[p.value], .ok t'⟩ ∧
      HoldsPairs t' n' gs' (l₁ ++ { p with value := value } :: l₂) := by
  obtain ⟨t₁, n₁, gs₁, hroom, h₁, -⟩ := h.ensureRoom hlength
  have hn := num_buckets_eq h₁.bucketed.primes_eq
  have hi : hash_str p.key % n₁ < n₁ := Nat.mod_lt _ (primes_pos h₁.bucketed.primes_eq)
  obtain ⟨x, hx, rfl⟩ := List.mem_map.mp (h₁.perm.symm.subset (by simp : p ∈ l₁ ++ p :: l₂))
  have hfind := h₁.find?_eq_some_iff.mpr ⟨hx, rfl⟩
  obtain ⟨s₁, s₂, hseg⟩ := List.append_of_mem (List.mem_of_find?_eq_some hfind)
  obtain ⟨nodes, hmodify, hbucketed⟩ :=
    h₁.bucketed.set_pair hseg { x.2 with value := value } rfl
  refine ⟨{ t₁ with nodes := nodes }, n₁, _, ?_, hbucketed, ?_, ?_, ?_, ?_, ?_⟩
  · have hpair := (h₁.bucketed.find_pair x.2.key (hash_str x.2.key) _).trans
      (congrArg (fun y => Except.ok (Option.map Prod.fst y)) hfind)
    rw [hashtable_set]
    simp only [Traced.liftM_eq, hroom, Traced.ofExcept_ok_bind, hn, h₁.bucketed.bucket hi, hpair,
      Option.map_some, list_to_pair_eq (h₁.bucketed.data x hx), Traced.emit_bind, hmodify,
      Traced.trace_pure, Traced.result_pure]
  · have hreplace := (h₁.bucketed.grouped.perm_items_replace hseg
      (x.1, { x.2 with value := value })).map Prod.snd
    rw [List.map_cons, List.map_cons] at hreplace
    have hperm := hreplace.trans ((h₁.perm.trans List.perm_middle).cons _)
    have hswap := (hperm.trans (List.Perm.swap _ _ _)).cons_inv
    exact hswap.trans List.perm_middle.symm
  · rw [List.length_append, List.length_cons]
    exact h₁.size.trans (by rw [List.length_append, List.length_cons])
  · have hle := h₁.length_le
    rwa [List.length_append, List.length_cons] at hle ⊢
  · intro q hq
    have hhash := h₁.hash_eq
    simp only [List.mem_append, List.mem_cons] at hq hhash
    rcases hq with hq | rfl | hq
    · exact hhash q (Or.inl hq)
    · exact hhash x.2 (Or.inr (Or.inl rfl))
    · exact hhash q (Or.inr (Or.inr hq))
  · simpa using h₁.nodup

/-- A new key comes last. -/
lemma HoldsPairs.set_new (h : HoldsPairs t n gs pairs) (hlength : pairs.length < 1610612741)
    (hne : ∀ p ∈ pairs, p.key ≠ key) (serial : ℕ) (value : V) :
    ∃ t' n' gs', hashtable_set t key serial value = ⟨[], .ok t'⟩ ∧
      HoldsPairs t' n' gs' (pairs ++ [⟨hash_str key, serial, key, value⟩]) := by
  obtain ⟨t₁, n₁, gs₁, hroom, h₁, hlt⟩ := h.ensureRoom hlength
  have hn := num_buckets_eq h₁.bucketed.primes_eq
  have hi : hash_str key % n₁ < n₁ := Nat.mod_lt _ (primes_pos h₁.bucketed.primes_eq)
  have hpair := (h₁.bucketed.find_pair key (hash_str key) _).trans
    (congrArg (fun y => Except.ok (Option.map Prod.fst y)) (h₁.find?_eq_none_iff.mpr hne))
  obtain ⟨nodes, hinit, hbucketed, hdata, hnew⟩ :=
    h₁.bucketed.malloc ⟨hash_str key, serial, key, value⟩
  obtain ⟨t₂, hinsert, h₂, hkeeps, -⟩ := hbucketed.insert
    (x := (t₁.nodes.cells.length, ⟨hash_str key, serial, key, value⟩)) hdata hnew
  refine ⟨{ t₂ with size := t₂.size + 1 }, n₁, _, ?_,
    ⟨h₂.circle, h₂.head, h₂.data, h₂.primes_eq, h₂.buckets, h₂.grouped⟩, ?_, ?_, ?_, ?_, ?_⟩
  · have hindex : bucketIndex n₁ (t₁.nodes.cells.length,
        (⟨hash_str key, serial, key, value⟩ : Pair V)) = hash_str key % n₁ := rfl
    rw [hindex] at hinsert
    rw [hashtable_set]
    simp only [Traced.liftM_eq, hroom, Traced.ofExcept_ok_bind, hn, h₁.bucketed.bucket hi, hpair,
      Option.map_none, hinit, hinsert]
    rfl
  · have hperm := (h₁.bucketed.grouped.perm_items_cons
      (t₁.nodes.cells.length, (⟨hash_str key, serial, key, value⟩ : Pair V))
      (hash_str key % n₁)).map Prod.snd
    rw [List.map_cons] at hperm
    exact (hperm.trans (h₁.perm.cons _)).trans (List.perm_append_singleton _ _).symm
  · show t₂.size + 1 = _
    rw [hkeeps.size, List.length_append]
    exact congrArg (· + 1) h₁.size
  · rw [List.length_append]
    exact hlt
  · intro p hp
    rcases List.mem_append.mp hp with hp | hp
    · exact h₁.hash_eq p hp
    · rw [List.mem_singleton.mp hp]
  · rw [List.map_append, List.nodup_append]
    refine ⟨h₁.nodup, by simp, ?_⟩
    rintro k hk k' hk' rfl
    obtain ⟨p, hp, rfl⟩ := List.mem_map.mp hk
    exact hne p hp (by simpa using hk')

/-- A key that is not there is not deleted. -/
lemma HoldsPairs.del_none (h : HoldsPairs t n gs pairs) (hne : ∀ p ∈ pairs, p.key ≠ key) :
    hashtable_del t key = ⟨[], .ok (-1, t)⟩ := by
  have hi : hash_str key % n < n := Nat.mod_lt _ (primes_pos h.bucketed.primes_eq)
  have hpair := (h.bucketed.find_pair key (hash_str key) _).trans
    (congrArg (fun y => Except.ok (Option.map Prod.fst y)) (h.find?_eq_none_iff.mpr hne))
  rw [hashtable_del, hashtable_do_del]
  simp only [Traced.liftM_eq, Traced.ofExcept_ok_bind, num_buckets_eq h.bucketed.primes_eq,
    h.bucketed.bucket hi, hpair, Option.map_none]
  rfl

/-- A pair is deleted, and its value is given back. -/
lemma HoldsPairs.del {p : Pair V} {l₁ l₂ : List (Pair V)}
    (h : HoldsPairs t n gs (l₁ ++ p :: l₂)) :
    ∃ t' gs', hashtable_del t p.key = ⟨[p.value], .ok (0, t')⟩ ∧
      HoldsPairs t' n gs' (l₁ ++ l₂) := by
  obtain ⟨x, hx, rfl⟩ := List.mem_map.mp (h.perm.symm.subset (by simp : p ∈ l₁ ++ p :: l₂))
  have hfind := h.find?_eq_some_iff.mpr ⟨hx, rfl⟩
  obtain ⟨s₁, s₂, hseg⟩ := List.append_of_mem (List.mem_of_find?_eq_some hfind)
  obtain ⟨t', hdel, hbucketed, hsize⟩ := h.bucketed.del hseg hfind
  refine ⟨t', _, hdel, hbucketed, ?_, ?_, ?_, ?_, ?_⟩
  · have hperm := (h.bucketed.grouped.perm_items_erase hseg).map Prod.snd
    exact (hperm.trans (h.perm.trans List.perm_middle)).cons_inv
  · rw [hsize, h.size, List.length_append, List.length_append, List.length_cons]
    omega
  · have hle := h.length_le
    rw [List.length_append, List.length_cons] at hle
    rw [List.length_append]
    omega
  · intro q hq
    refine h.hash_eq q ?_
    simp only [List.mem_append, List.mem_cons] at hq ⊢
    tauto
  · exact h.nodup.sublist (((List.sublist_cons_self _ _).append_left l₁).map Pair.key)

/-- All pairs are deleted, and their values given back. -/
lemma HoldsPairs.clear (h : HoldsPairs t n gs pairs) :
    ∃ t' values, hashtable_clear t = ⟨values, .ok t'⟩ ∧ values.Perm (pairs.map Pair.value) ∧
      HoldsPairs t' n [] [] := by
  obtain ⟨t', hclear, hbucketed, hsize⟩ := h.bucketed.clear
  refine ⟨t', _, hclear, ?_, hbucketed, by simp, hsize, Nat.zero_le _, by simp, List.nodup_nil⟩
  have hperm := h.perm.map Pair.value
  rwa [List.map_map] at hperm

/-- An iteration sees every pair once. -/
lemma HoldsPairs.iterate (h : HoldsPairs t n gs pairs) :
    ∃ seen, Headcrab.iterate t = .ok seen ∧ seen.Perm pairs :=
  ⟨_, h.bucketed.iterate, h.perm⟩

end

/-! ## The list of fields -/

/-- The object has these fields, in the order of their serial numbers. -/
def Stands (o : ObjectTable V) (fields : List (String × V)) : Prop :=
  ∃ n gs pairs, HoldsPairs o.hashtable n gs pairs ∧ pairs.map Pair.field = fields ∧
    pairs.Pairwise (·.serial < ·.serial) ∧ ∀ p ∈ pairs, p.serial < o.serial

lemma setKey_of_split {key : String} (value : V) {w : V} {l₁ l₂ : List (String × V)}
    (h : ((l₁ ++ (key, w) :: l₂).map Prod.fst).Nodup) :
    setKey key value (l₁ ++ (key, w) :: l₂) = l₁ ++ (key, value) :: l₂ := by
  induction l₁ with
  | nil => rw [List.nil_append, setKey, if_pos rfl, List.nil_append]
  | cons f l₁ ih =>
    rw [List.cons_append, List.map_cons, List.nodup_cons] at h
    have hne : f.1 ≠ key := by
      rintro rfl
      exact h.1 (by simp)
    rw [List.cons_append, setKey, if_neg hne, ih h.2, List.cons_append]

lemma setKey_of_notMem {key : String} (value : V) {fields : List (String × V)}
    (h : ∀ f ∈ fields, f.1 ≠ key) : setKey key value fields = fields ++ [(key, value)] := by
  induction fields with
  | nil => rfl
  | cons f fields ih =>
    obtain ⟨hf, hfields⟩ := List.forall_mem_cons.mp h
    rw [setKey, if_neg hf, ih hfields, List.cons_append]

section

variable {o : ObjectTable V} {fields : List (String × V)} {pairs seen : List (Pair V)}
  {n : ℕ} {gs : Groups (ℕ × Pair V)}

lemma map_fst_field (pairs : List (Pair V)) :
    (pairs.map Pair.field).map Prod.fst = pairs.map Pair.key := by
  rw [List.map_map]
  rfl

open ObjectTable (keyLe sortedKeys)

instance (flags : ℕ) : Std.Total (keyLe flags) where
  total a b := by
    simp only [keyLe]
    split
    · exact le_total _ _
    · exact Nat.le_total _ _

instance (flags : ℕ) : IsTrans (ℕ × String) (keyLe flags) where
  trans a b c := by
    simp only [keyLe]
    split
    · exact le_trans
    · exact Nat.le_trans

/-- They are the keys of the pairs in order. -/
lemma exists_sortedKeys_eq (flags : ℕ) (seen : List (Pair V)) :
    ∃ rest : List (Pair V), rest.Perm seen ∧
      sortedKeys flags seen = rest.map fun p => (p.serial, p.key) := by
  let r : Pair V → Pair V → Prop := fun p q =>
    keyLe flags (p.serial, p.key) (q.serial, q.key)
  have : DecidableRel r := fun p q =>
    inferInstanceAs (Decidable (keyLe flags (p.serial, p.key) (q.serial, q.key)))
  refine ⟨seen.insertionSort r, List.perm_insertionSort r seen, ?_⟩
  exact (List.map_insertionSort r (keyLe flags) _ seen fun _ _ _ _ => Iff.rfl).symm

/-- A list of the keys that the writer collects. -/
lemma perm_sortedKeys (flags : ℕ) (seen : List (Pair V)) :
    (sortedKeys flags seen).Perm (seen.map fun p => (p.serial, p.key)) :=
  List.perm_insertionSort (keyLe flags) _

lemma pairwise_sortedKeys (flags : ℕ) (seen : List (Pair V)) :
    (sortedKeys flags seen).Pairwise (keyLe flags) :=
  List.pairwise_insertionSort (keyLe flags) _

/-- The keys in the order of their serial numbers. -/
lemma sortedKeys_eq {flags : ℕ} (hflags : hasFlag flags JSON_SORT_KEYS = false)
    (hseen : seen.Perm pairs) (hserial : pairs.Pairwise (·.serial < ·.serial)) :
    sortedKeys flags seen = pairs.map fun p => (p.serial, p.key) := by
  have hle : ∀ a b, keyLe flags a b ↔ a.1 ≤ b.1 := by
    intro a b
    simp [keyLe, hflags]
  have hperm := (perm_sortedKeys flags seen).trans (hseen.map fun p => (p.serial, p.key))
  have hnodup : (pairs.map Pair.serial).Nodup := by
    rw [List.Nodup, List.pairwise_map]
    exact hserial.imp Nat.ne_of_lt
  -- two keys with one number are one pair
  have hunique : ∀ a b, a ∈ sortedKeys flags seen →
      b ∈ pairs.map (fun p => (p.serial, p.key)) → keyLe flags a b → keyLe flags b a →
      a = b := by
    intro a b ha hb hab hba
    obtain ⟨p, hp, rfl⟩ := List.mem_map.mp (hperm.subset ha)
    obtain ⟨q, hq, rfl⟩ := List.mem_map.mp hb
    rw [hle] at hab hba
    rw [List.inj_on_of_nodup_map hnodup hp hq (Nat.le_antisymm hab hba)]
  have hpairs : (pairs.map fun p => (p.serial, p.key)).Pairwise (keyLe flags) := by
    rw [List.pairwise_map]
    exact hserial.imp fun hlt => (hle _ _).mpr (Nat.le_of_lt hlt)
  exact hperm.eq_of_pairwise hunique (pairwise_sortedKeys flags seen) hpairs

/-- The keys of pairs of the table are looked up. -/
lemma valuesOf_eq (h : HoldsPairs o.hashtable n gs pairs) {rest : List (Pair V)}
    (hrest : ∀ p ∈ rest, p ∈ pairs) :
    o.valuesOf (rest.map fun p => (p.serial, p.key)) = .ok (rest.map Pair.field) := by
  induction rest with
  | nil => rfl
  | cons p rest ih =>
    obtain ⟨hp, hrest⟩ := List.forall_mem_cons.mp hrest
    obtain ⟨l₁, l₂, rfl⟩ := List.append_of_mem hp
    have hget := h.get p.key
    rw [lookup_field_of_split h.nodup] at hget
    rw [List.map_cons, ObjectTable.valuesOf, ObjectTable.json_object_get, hget]
    simp only [bind, Except.bind, ih hrest]
    rfl

lemma Stands.nodup (h : Stands o fields) : (fields.map Prod.fst).Nodup := by
  obtain ⟨n, gs, pairs, hholds, rfl, -, -⟩ := h
  rw [map_fst_field]
  exact hholds.nodup

/-- The pair with a key, and what stands before and behind it. -/
lemma exists_split_of_lookup {key : String} {value : V}
    (h : (pairs.map Pair.field).lookup key = some value) :
    ∃ p l₁ l₂, pairs = l₁ ++ p :: l₂ ∧ p.key = key ∧ p.value = value := by
  obtain ⟨f₁, f₂, heq, -⟩ := List.lookup_eq_some_iff.mp h
  have hmem : (key, value) ∈ pairs.map Pair.field := by simp [heq]
  obtain ⟨p, hp, hfield⟩ := List.mem_map.mp hmem
  obtain ⟨l₁, l₂, rfl⟩ := List.append_of_mem hp
  exact ⟨p, l₁, l₂, rfl, congrArg Prod.fst hfield, congrArg Prod.snd hfield⟩

lemma ne_of_lookup_eq_none {key : String} (h : (pairs.map Pair.field).lookup key = none) :
    ∀ p ∈ pairs, p.key ≠ key := by
  rintro p hp rfl
  have hne := List.lookup_eq_none_iff.mp h p.field (List.mem_map_of_mem hp)
  simp [Pair.field] at hne

/-- A key is set. -/
lemma Stands.set (h : Stands o fields) (hlength : fields.length < 1610612741) (key : String)
    (value : V) :
    ∃ o', o.json_object_set_new_nocheck key value
        = ⟨(fields.lookup key).toList, .ok o'⟩ ∧ Stands o' (setKey key value fields) := by
  obtain ⟨n, gs, pairs, hholds, rfl, hserial, hlt⟩ := h
  rw [List.length_map] at hlength
  rw [ObjectTable.json_object_set_new_nocheck]
  rcases hlookup : (pairs.map Pair.field).lookup key with _ | w
  · have hne := ne_of_lookup_eq_none hlookup
    obtain ⟨t', n', gs', hset, hholds'⟩ := hholds.set_new hlength hne o.serial value
    refine ⟨⟨o.serial + 1, t'⟩, ?_, n', gs', _, hholds', ?_, ?_, ?_⟩
    · rw [hset, Traced.bind_ok rfl]
      rfl
    · rw [setKey_of_notMem, List.map_append]
      · rfl
      · rintro f hf
        obtain ⟨p, hp, rfl⟩ := List.mem_map.mp hf
        exact hne p hp
    · rw [List.pairwise_append]
      refine ⟨hserial, List.pairwise_singleton _ _, fun p hp q hq => ?_⟩
      rw [List.mem_singleton.mp hq]
      exact hlt p hp
    · intro p hp
      rcases List.mem_append.mp hp with hp | hp
      · exact Nat.lt_succ_of_lt (hlt p hp)
      · rw [List.mem_singleton.mp hp]
        exact Nat.lt_succ_self _
  · obtain ⟨p, l₁, l₂, rfl, rfl, rfl⟩ := exists_split_of_lookup hlookup
    obtain ⟨t', n', gs', hset, hholds'⟩ := hholds.set_old hlength o.serial value
    refine ⟨⟨o.serial + 1, t'⟩, ?_, n', gs', _, hholds', ?_, ?_, ?_⟩
    · rw [hset, Traced.bind_ok rfl]
      rfl
    · have hnodup := hholds.nodup
      rw [← map_fst_field, List.map_append, List.map_cons] at hnodup
      rw [List.map_append, List.map_cons, List.map_append, List.map_cons]
      exact (setKey_of_split value hnodup).symm
    · simpa [List.pairwise_append, List.pairwise_cons] using hserial
    · intro q hq
      refine Nat.lt_succ_of_lt ?_
      simp only [List.mem_append, List.mem_cons] at hq hlt
      rcases hq with hq | rfl | hq
      · exact hlt q (Or.inl hq)
      · exact hlt p (Or.inr (Or.inl rfl))
      · exact hlt q (Or.inr (Or.inr hq))

lemma filter_of_split {key : String} {w : V} {l₁ l₂ : List (String × V)}
    (h : ((l₁ ++ (key, w) :: l₂).map Prod.fst).Nodup) :
    (l₁ ++ (key, w) :: l₂).filter (·.1 ≠ key) = l₁ ++ l₂ := by
  have hne : ∀ f ∈ l₁ ++ l₂, f.1 ≠ key := by
    have hperm : ((l₁ ++ (key, w) :: l₂).map Prod.fst).Perm (key :: (l₁ ++ l₂).map Prod.fst) :=
      List.perm_middle.map Prod.fst
    rintro f hf rfl
    exact (List.nodup_cons.mp (hperm.nodup_iff.mp h)).1 (List.mem_map_of_mem hf)
  have hall : (l₁ ++ l₂).filter (·.1 ≠ key) = l₁ ++ l₂ :=
    List.filter_eq_self.mpr fun f hf => by simpa using hne f hf
  rw [List.filter_append] at hall ⊢
  rw [List.filter_cons_of_neg (by simp), hall]

/-- A key is deleted. -/
lemma Stands.del (h : Stands o fields) {key : String} {value : V}
    (hlookup : fields.lookup key = some value) :
    ∃ o', o.json_object_del key = ⟨[value], .ok (0, o')⟩ ∧
      Stands o' (fields.filter (·.1 ≠ key)) := by
  obtain ⟨n, gs, pairs, hholds, rfl, hserial, hlt⟩ := h
  obtain ⟨p, l₁, l₂, rfl, rfl, rfl⟩ := exists_split_of_lookup hlookup
  obtain ⟨t', gs', hdel, hholds'⟩ := hholds.del
  have hsub : List.Sublist (l₁ ++ l₂) (l₁ ++ p :: l₂) :=
    (List.sublist_cons_self _ _).append_left l₁
  refine ⟨⟨o.serial, t'⟩, ?_, n, gs', _, hholds', ?_, hserial.sublist hsub,
    fun q hq => hlt q (hsub.subset hq)⟩
  · rw [ObjectTable.json_object_del, hdel, Traced.bind_ok rfl]
    rfl
  · have hnodup := hholds.nodup
    rw [← map_fst_field, List.map_append, List.map_cons] at hnodup
    rw [List.map_append, List.map_append, List.map_cons]
    exact (filter_of_split hnodup).symm

lemma Stands.del_none (h : Stands o fields) {key : String} (hlookup : fields.lookup key = none) :
    o.json_object_del key = ⟨[], .ok (-1, o)⟩ := by
  obtain ⟨n, gs, pairs, hholds, rfl, -, -⟩ := h
  rw [ObjectTable.json_object_del, hholds.del_none (ne_of_lookup_eq_none hlookup),
    Traced.bind_ok rfl]
  rfl

/-- What the writer finds: every field once, and in the order that its flags ask for. -/
lemma Stands.inDumpOrder (h : Stands o fields) (flags : ℕ) :
    ∃ seen, o.inDumpOrder flags = .ok seen ∧ seen.Perm fields ∧
      (hasFlag flags JSON_SORT_KEYS = true →
        seen.Pairwise fun f g => keyBytes f.1 ≤ keyBytes g.1) ∧
      (hasFlag flags JSON_SORT_KEYS = false → hasFlag flags JSON_PRESERVE_ORDER = true →
        seen = fields) := by
  obtain ⟨n, gs, pairs, hholds, rfl, hserial, -⟩ := h
  obtain ⟨seen, hiterate, hperm⟩ := hholds.iterate
  rw [ObjectTable.inDumpOrder, hiterate]
  simp only [bind, Except.bind]
  cases hsort : hasFlag flags JSON_SORT_KEYS with
  | true =>
    -- the pairs of the sorted keys
    obtain ⟨rest, hrest, hkeys⟩ := exists_sortedKeys_eq flags seen
    have hvalues := valuesOf_eq hholds fun p (hp : p ∈ rest) => (hrest.trans hperm).subset hp
    have hsorted := pairwise_sortedKeys flags seen
    rw [← hkeys] at hvalues
    rw [hkeys, List.pairwise_map] at hsorted
    refine ⟨rest.map Pair.field, hvalues, (hrest.trans hperm).map Pair.field, fun _ => ?_,
      fun h => absurd h (by simp)⟩
    rw [List.pairwise_map]
    exact hsorted.imp fun hle => by simpa [keyLe, hsort, Pair.field] using hle
  | false =>
    cases horder : hasFlag flags JSON_PRESERVE_ORDER with
    | true =>
      have hvalues := valuesOf_eq hholds fun p (hp : p ∈ pairs) => hp
      rw [← sortedKeys_eq hsort hperm hserial] at hvalues
      exact ⟨_, hvalues, List.Perm.refl _, fun h => absurd h (by simp), fun _ _ => rfl⟩
    | false =>
      exact ⟨seen.map Pair.field, rfl, hperm.map Pair.field, fun h => absurd h (by simp),
        fun _ h => absurd h (by simp)⟩

/-- **One operation** does on the table what it does on the list of fields. -/
lemma Stands.step (h : Stands o fields) (hlength : fields.length < 1610612741)
    (op : ObjectOp V) :
    ∃ result values fields' o', o.step op = ⟨values, .ok (result, o')⟩ ∧
      FieldsStep fields op result values fields' ∧ Stands o' fields' := by
  cases op with
  | json_object_set_new key value =>
    obtain ⟨o', hset, hstands⟩ := h.set hlength key value
    refine ⟨.done, _, _, o', ?_, .set fields key value, hstands⟩
    rw [ObjectTable.step, hset, Traced.bind_ok rfl, Traced.trace_pure, List.append_nil]
    rfl
  | json_object_get key =>
    refine ⟨.value (fields.lookup key), [], fields, o, ?_, .get fields key, h⟩
    obtain ⟨n, gs, pairs, hholds, rfl, -, -⟩ := h
    rw [ObjectTable.step, ObjectTable.json_object_get, hholds.get]
    rfl
  | json_object_del key =>
    rcases hlookup : fields.lookup key with _ | value
    · refine ⟨.code (-1), [], fields, o, ?_, .del_none hlookup, h⟩
      rw [ObjectTable.step, h.del_none hlookup, Traced.bind_ok rfl]
      rfl
    · obtain ⟨o', hdel, hstands⟩ := h.del hlookup
      refine ⟨.code 0, [value], _, o', ?_, .del hlookup, hstands⟩
      rw [ObjectTable.step, hdel, Traced.bind_ok rfl]
      rfl
  | json_object_clear =>
    obtain ⟨n, gs, pairs, hholds, rfl, -, -⟩ := h
    obtain ⟨t', values, hclear, hperm, hholds'⟩ := hholds.clear
    have hvalues : values.Perm ((pairs.map Pair.field).map Prod.snd) := by
      rw [List.map_map]
      exact hperm
    refine ⟨.done, values, [], ⟨0, t'⟩, ?_, .clear hvalues, n, [], [], hholds', rfl, .nil, by simp⟩
    rw [ObjectTable.step, ObjectTable.json_object_clear, hclear, Traced.bind_ok rfl,
      Traced.bind_ok rfl]
    simp
  | json_object_size =>
    refine ⟨.size fields.length, [], fields, o, ?_, .size fields, h⟩
    obtain ⟨n, gs, pairs, hholds, rfl, -, -⟩ := h
    rw [ObjectTable.step, ObjectTable.json_object_size, hholds.size, List.length_map]
    rfl
  | foreach =>
    obtain ⟨n, gs, pairs, hholds, rfl, hrest⟩ := h
    obtain ⟨seen, hiterate, hperm⟩ := hholds.iterate
    refine ⟨.fields (seen.map Pair.field), [], _, o, ?_, .foreach (hperm.map Pair.field),
      n, gs, pairs, hholds, rfl, hrest⟩
    rw [ObjectTable.step, hiterate]
    rfl
  | do_dump flags =>
    obtain ⟨seen, hseen, hperm, hsorted, hsame⟩ := h.inDumpOrder flags
    refine ⟨.fields seen, [], fields, o, ?_, .do_dump hperm hsorted hsame, h⟩
    rw [ObjectTable.step, hseen]
    rfl

lemma length_setKey (key : String) (value : V) (fields : List (String × V)) :
    (setKey key value fields).length ≤ fields.length + 1 := by
  induction fields with
  | nil => exact Nat.le_refl _
  | cons f fields ih =>
    rw [setKey]
    split
    · exact Nat.le_succ _
    · exact Nat.succ_le_succ ih

/-- There is at most one field more. -/
lemma FieldsStep.length_le {op : ObjectOp V} {result : ObjectResult V} {values : List V}
    {fields' : List (String × V)} (h : FieldsStep fields op result values fields') :
    fields'.length ≤ fields.length + 1 := by
  cases h with
  | set key value => exact length_setKey key value fields
  | get _ | size | foreach _ | do_dump _ _ _ | del_none _ => exact Nat.le_succ _
  | del _ => exact Nat.le_succ_of_le (List.length_filter_le _ _)
  | clear _ => exact Nat.zero_le _

/-- Operations one after the other do on the table what they do on the list of fields. -/
lemma Stands.run (h : Stands o fields) (ops : List (ObjectOp V))
    (hlength : fields.length + ops.length ≤ 1610612741) :
    ∃ results values fields' o', o.run ops = ⟨values, .ok (results, o')⟩ ∧
      FieldsRun fields ops results values fields' ∧ Stands o' fields' := by
  induction ops generalizing o fields with
  | nil => exact ⟨[], [], fields, o, rfl, .nil fields, h⟩
  | cons op ops ih =>
    rw [List.length_cons] at hlength
    obtain ⟨result, values, fields₁, o₁, hstep, hfields, h₁⟩ := h.step (by omega) op
    have hle := hfields.length_le
    obtain ⟨results, values', fields', o', hrun, hfields', h'⟩ := ih h₁ (by omega)
    refine ⟨result :: results, values ++ values', fields', o', ?_, .cons hfields hfields', h'⟩
    rw [ObjectTable.run, hstep, Traced.bind_ok rfl]
    simp only [hrun]
    rw [Traced.bind_ok rfl, Traced.trace_pure, List.append_nil]
    rfl

/-- An object without fields. -/
lemma stands_json_object (V : Type) : ∃ o, json_object V = .ok o ∧ Stands o [] := by
  have hlive : (⟨[some ⟨0, 0, none⟩]⟩ : PairNodes V).Live 0 ⟨0, 0, none⟩ := rfl
  obtain ⟨nodes, hinit, hcircle, hdata, -, -⟩ := Circle.isCircle_init hlive
  have hbucketed : Bucketed (⟨0, List.replicate 5 ⟨0, 0⟩, 0, 0, nodes⟩ : Hashtable V) 5 [] :=
    ⟨hcircle, (hdata 0).trans rfl, by simp, rfl, buckets_replicate _ _, .nil⟩
  refine ⟨⟨0, _⟩, ?_, 5, [], [], ⟨hbucketed, by simp, rfl, Nat.zero_le _, by simp,
    List.nodup_nil⟩, rfl, .nil, by simp⟩
  have hinit' : hashtable_init V = .ok ⟨0, List.replicate 5 ⟨0, 0⟩, 0, 0, nodes⟩ := by
    rw [hashtable_init, num_buckets_eq (n := 5) rfl]
    simp only [bind, Except.bind, hinit]
    rfl
  rw [json_object, hinit']
  rfl

/-! ## Values -/

/-- The values that are handed over to the object. -/
def handedOver : List (ObjectOp V) → List V
  | [] => []
  | .json_object_set_new _ value :: ops => value :: handedOver ops
  | _ :: ops => handedOver ops

lemma perm_setKey (key : String) (value : V) (fields : List (String × V)) :
    ((fields.lookup key).toList ++ (setKey key value fields).map Prod.snd).Perm
      (value :: fields.map Prod.snd) := by
  induction fields with
  | nil => exact List.Perm.refl _
  | cons f fields ih =>
    obtain ⟨k, w⟩ := f
    rw [setKey, List.lookup_cons]
    by_cases hk : k = key
    · subst hk
      rw [if_pos rfl, beq_self_eq_true]
      exact List.Perm.swap _ _ _
    · have hbeq : (key == k) = false := by simpa using Ne.symm hk
      rw [if_neg hk, hbeq, List.map_cons, List.map_cons]
      exact List.perm_middle.trans ((ih.cons w).trans (List.Perm.swap _ _ _))

lemma map_fst_setKey_nodup {key : String} {value : V} (h : (fields.map Prod.fst).Nodup) :
    ((setKey key value fields).map Prod.fst).Nodup := by
  by_cases hkey : ∀ f ∈ fields, f.1 ≠ key
  · rw [setKey_of_notMem value hkey, List.map_append, List.nodup_append]
    refine ⟨h, by simp, ?_⟩
    rintro k hk k' hk' rfl
    obtain ⟨f, hf, rfl⟩ := List.mem_map.mp hk
    exact hkey f hf (by simpa using hk')
  · push Not at hkey
    obtain ⟨⟨_, w⟩, hf, rfl⟩ := hkey
    obtain ⟨l₁, l₂, rfl⟩ := List.append_of_mem hf
    rw [setKey_of_split value h]
    simpa using h

/-- The keys stay different. -/
lemma FieldsStep.nodup {op : ObjectOp V} {result : ObjectResult V} {values : List V}
    {fields' : List (String × V)} (h : FieldsStep fields op result values fields')
    (hnodup : (fields.map Prod.fst).Nodup) : (fields'.map Prod.fst).Nodup := by
  cases h with
  | set key value => exact map_fst_setKey_nodup hnodup
  | get _ | size | foreach _ | do_dump _ _ _ | del_none _ => exact hnodup
  | del _ => exact hnodup.sublist (List.filter_sublist.map Prod.fst)
  | clear _ => exact List.nodup_nil

/-- A value that is handed over, or was there, is given back, or is there. -/
lemma FieldsStep.perm {op : ObjectOp V} {result : ObjectResult V} {values : List V}
    {fields' : List (String × V)} (h : FieldsStep fields op result values fields')
    (hnodup : (fields.map Prod.fst).Nodup) :
    (values ++ fields'.map Prod.snd).Perm (handedOver [op] ++ fields.map Prod.snd) := by
  cases h with
  | set key value => exact perm_setKey key value fields
  | get _ | size | foreach _ | do_dump _ _ _ | del_none _ => exact List.Perm.refl _
  | @del key value hlookup =>
    obtain ⟨l₁, l₂, rfl, -⟩ := List.lookup_eq_some_iff.mp hlookup
    rw [filter_of_split hnodup, List.map_append, List.map_append, List.map_cons]
    have hmiddle : (l₁.map Prod.snd ++ value :: l₂.map Prod.snd).Perm
        (value :: (l₁.map Prod.snd ++ l₂.map Prod.snd)) := List.perm_middle
    exact hmiddle.symm
  | clear hperm =>
    rw [List.map_nil, List.append_nil]
    exact hperm

lemma handedOver_cons (op : ObjectOp V) (ops : List (ObjectOp V)) :
    handedOver (op :: ops) = handedOver [op] ++ handedOver ops := by
  cases op <;> rfl

lemma FieldsRun.perm {ops : List (ObjectOp V)} {results : List (ObjectResult V)}
    {values : List V} {fields' : List (String × V)}
    (h : FieldsRun fields ops results values fields') (hnodup : (fields.map Prod.fst).Nodup) :
    (values ++ fields'.map Prod.snd).Perm (handedOver ops ++ fields.map Prod.snd) := by
  induction h with
  | nil fields => exact List.Perm.refl _
  | @cons fields fields₁ fields₂ op ops result results values values' hstep _ ih =>
    have hfirst := hstep.perm hnodup
    have hrest := ih (hstep.nodup hnodup)
    rw [handedOver_cons, List.append_assoc]
    classical
    refine List.perm_iff_count.mpr fun v => ?_
    have hfirst := List.perm_iff_count.mp hfirst v
    have hrest := List.perm_iff_count.mp hrest v
    simp only [List.count_append] at hfirst hrest ⊢
    omega

/-- A run that ends with the removal of all fields. -/
lemma FieldsRun.eq_nil {ops : List (ObjectOp V)} {results : List (ObjectResult V)}
    {values : List V} {fields' : List (String × V)}
    (h : FieldsRun fields (ops ++ [.json_object_clear]) results values fields') : fields' = [] := by
  induction ops generalizing fields results values with
  | nil =>
    cases h with
    | cons hstep hrun =>
      cases hstep
      cases hrun
      rfl
  | cons op ops ih =>
    cases h with
    | cons _ hrun => exact ih hrun

lemma handedOver_append (ops ops' : List (ObjectOp V)) :
    handedOver (ops ++ ops') = handedOver ops ++ handedOver ops' := by
  induction ops with
  | nil => rfl
  | cons op ops ih =>
    rw [List.cons_append, handedOver_cons, ih, ← List.append_assoc, ← handedOver_cons]

end

/-! ## Objects from the start -/

/-- There is a table for every list of fields. -/
lemma exists_stands {fields : List (String × V)} (hnodup : (fields.map Prod.fst).Nodup)
    (hlength : fields.length ≤ 1610612741) : ∃ o, Stands o fields := by
  induction fields using List.reverseRecOn with
  | nil =>
    obtain ⟨o, -, hstands⟩ := stands_json_object V
    exact ⟨o, hstands⟩
  | append_singleton fields f ih =>
    rw [List.length_append, List.length_singleton] at hlength
    rw [List.map_append, List.nodup_append] at hnodup
    obtain ⟨o, hstands⟩ := ih hnodup.1 (by omega)
    obtain ⟨o', -, hstands'⟩ := hstands.set (by omega) f.1 f.2
    refine ⟨o', ?_⟩
    rwa [setKey_of_notMem] at hstands'
    exact fun g hg => hnodup.2.2 g.1 (List.mem_map_of_mem hg) f.1 (by simp)

/-- **An object is a list of fields.**  Every sequence of operations on a new object runs
without a fault, and returns what it returns on the list of fields; an object has no more
pairs than the largest table has buckets. -/
theorem object_refines (ops : List (ObjectOp V)) (h : ops.length ≤ 1610612741) :
    ∃ o₀ results values fields o, json_object V = .ok o₀ ∧
      o₀.run ops = ⟨values, .ok (results, o)⟩ ∧ FieldsRun [] ops results values fields ∧
      Stands o fields := by
  obtain ⟨o₀, hnew, hstands⟩ := stands_json_object V
  obtain ⟨results, values, fields, o, hrun, hfields, h'⟩ := hstands.run ops (by simpa using h)
  exact ⟨o₀, results, values, fields, o, hnew, hrun, hfields, h'⟩

/-- Six keys are set, which makes the table grow; two of them are set again or deleted. -/
def sixKeys : List (ObjectOp ℕ) :=
  [.json_object_set_new "a" 1, .json_object_set_new "b" 2, .json_object_set_new "c" 3,
    .json_object_set_new "d" 4, .json_object_set_new "e" 5, .json_object_set_new "f" 6,
    .json_object_set_new "b" 7, .json_object_del "d", .json_object_get "b", .do_dump JSON_SORT_KEYS,
    .do_dump JSON_PRESERVE_ORDER]

/-- What the writer finds in a table without an order, if the key "seqID" was set last. -/
example : (do
      let o ← json_object ℕ
      let (_, o) ← (o.run [.json_object_set_new "newval" 0, .json_object_set_new "seqID" 1]).result
      o.inDumpOrder JSON_COMPACT).toOption = some [("seqID", 1), ("newval", 0)] := by
  decide +kernel

theorem object_refines_sixKeys : ∃ o₀ results values fields o, json_object ℕ = .ok o₀ ∧
    o₀.run sixKeys = ⟨values, .ok (results, o)⟩ ∧ FieldsRun [] sixKeys results values fields ∧
    Stands o fields :=
  object_refines sixKeys (by decide)

/-- **What an object is given, it gives back once.**  After every sequence of operations and the
removal of all pairs, with which `json_delete_object` starts as well: each value that was handed
over has been given to `json_decref` exactly as often as it was handed over. -/
theorem object_gives_back (ops : List (ObjectOp V)) (h : ops.length < 1610612741) :
    ∃ o₀ results values o, json_object V = .ok o₀ ∧
      o₀.run (ops ++ [.json_object_clear]) = ⟨values, .ok (results, o)⟩ ∧
      values.Perm (handedOver ops) := by
  obtain ⟨o₀, hnew, hstands⟩ := stands_json_object V
  obtain ⟨results, values, fields, o, hrun, hfields, -⟩ :=
    hstands.run (ops ++ [.json_object_clear]) (by simp; omega)
  refine ⟨o₀, results, values, o, hnew, hrun, ?_⟩
  have hperm := hfields.perm List.nodup_nil
  rw [hfields.eq_nil, handedOver_append] at hperm
  simpa [handedOver] using hperm

theorem object_gives_back_sixKeys : ∃ o₀ results values o, json_object ℕ = .ok o₀ ∧
    o₀.run (sixKeys ++ [.json_object_clear]) = ⟨values, .ok (results, o)⟩ ∧
    values.Perm [1, 2, 3, 4, 5, 6, 7] :=
  object_gives_back sixKeys (by decide)

end Headcrab
