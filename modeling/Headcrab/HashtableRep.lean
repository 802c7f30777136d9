/-
# What the hash table holds

The list of the table is grouped by bucket (`Bucketed`): the nodes make a circle, the pairs of one
bucket stand next to each other, and a bucket is the first and the last of them.  This file
says what each operation does to the groups; an operation on a table that holds groups never
touches a node that is not there.
-/
import Headcrab.Hashtable
import Headcrab.Lib.Groups

namespace Headcrab

open Circle (IsCircle Joined next? prev? data? node?)
open Groups (items group Grouped)

variable {V : Type}

/-- The bucket in which a pair belongs when there are `n` of them; a pair comes with the block
that it is in. -/
def bucketIndex (n : ℕ) (x : ℕ × Pair V) : ℕ := x.2.hash % n

/-- The bucket of pairs that stand next to each other. -/
def bucketOf (list : ℕ) (seg : List (ℕ × Pair V)) : Bucket :=
  ⟨(seg.head?.map Prod.fst).getD list, (seg.getLast?.map Prod.fst).getD list⟩

/-- The table has `n` buckets, and holds the groups `gs`. -/
structure Bucketed (t : Hashtable V) (n : ℕ) (gs : Groups (ℕ × Pair V)) : Prop where
  circle : IsCircle t.nodes t.list ((items gs).map Prod.fst)
  head : data? t.nodes t.list = some none
  data : ∀ x ∈ items gs, data? t.nodes x.1 = some (some x.2)
  primes_eq : primes[t.num_buckets]? = some n
  buckets : t.buckets = (List.range n).map fun i => bucketOf t.list (group gs i)
  grouped : Grouped (bucketIndex n) gs

/-! ## Reading -/

section

variable {nodes : PairNodes V} {b : ℕ} {pair : Pair V} {n : ℕ} {gs : Groups (ℕ × Pair V)}
  {t : Hashtable V}

lemma exists_live_of_data (h : data? nodes b = some (some pair)) :
    ∃ c, nodes.Live b c ∧ c.data = some pair := by
  obtain ⟨c, hc, hdata⟩ := Option.map_eq_some_iff.mp h
  exact ⟨c, Circle.node?_eq_some_iff.mp hc, hdata⟩

lemma list_to_pair_eq (h : data? nodes b = some (some pair)) :
    list_to_pair nodes b = .ok pair := by
  obtain ⟨c, hc, hdata⟩ := exists_live_of_data h
  rw [list_to_pair, hc.load]
  simp only [bind, Except.bind, hdata]
  rfl

lemma load_next {a : ℕ} (h : next? nodes b = some a) :
    ∃ c, nodes.load (Ptr.ofBlock b) = .ok c ∧ c.next = a := by
  obtain ⟨c, hc, ha⟩ := Circle.exists_live_of_next h
  exact ⟨c, hc.load, ha⟩

lemma num_buckets_eq (h : primes[t.num_buckets]? = some n) : num_buckets t = .ok n := by
  rw [num_buckets, elementAt, h]

lemma primes_pos {k : ℕ} (h : primes[k]? = some n) : 0 < n := by
  have hall : ∀ p ∈ primes, 0 < p := by decide
  exact hall n (List.mem_of_getElem? h)

lemma Bucketed.bucket (h : Bucketed t n gs) {i : ℕ} (hi : i < n) :
    elementAt t.buckets i = .ok (bucketOf t.list (group gs i)) := by
  rw [elementAt, h.buckets, List.getElem?_map, List.getElem?_range hi]
  rfl

/-- The head of the list is not in a pair. -/
lemma Bucketed.ne_list (h : Bucketed t n gs) {x : ℕ × Pair V} (hx : x ∈ items gs) :
    x.1 ≠ t.list := by
  rintro heq
  have hmem : t.list ∈ (items gs).map Prod.fst := heq ▸ List.mem_map_of_mem hx
  exact (List.nodup_cons.mp h.circle.nodup).1 hmem

lemma Bucketed.mem_items (h : Bucketed t n gs) {i : ℕ} {x : ℕ × Pair V} (hx : x ∈ group gs i) :
    x ∈ items gs := (h.grouped.mem_group_iff.mp hx).1

lemma Bucketed.bucket_is_empty (h : Bucketed t n gs) (i : ℕ) :
    bucket_is_empty t (bucketOf t.list (group gs i)) = (group gs i).isEmpty := by
  rcases hseg : group gs i with _ | ⟨x, seg⟩
  · simp [Headcrab.bucket_is_empty, bucketOf]
  · have hne := h.ne_list (h.mem_items (i := i) (x := x) (by simp [hseg]))
    simp [Headcrab.bucket_is_empty, bucketOf, hne]

/-! ## Looking for a pair -/

/-- The test that `hashtable_find_pair` makes. -/
def isPair (key : String) (hash : ℕ) (x : ℕ × Pair V) : Bool := x.2.hash = hash ∧ x.2.key = key

/-- The loop over a bucket, from any of its pairs on. -/
lemma findFrom_eq (key : String) (hash : ℕ) {last fuel : ℕ} {x : ℕ × Pair V}
    {seg : List (ℕ × Pair V)} (hdata : ∀ y ∈ x :: seg, data? nodes y.1 = some (some y.2))
    (hjoined : ((x :: seg).map Prod.fst).IsChain (Joined nodes))
    (hnodup : ((x :: seg).map Prod.fst).Nodup)
    (hlast : ((x :: seg).map Prod.fst).getLast? = some last) (hfuel : seg.length < fuel) :
    findFrom nodes key hash last fuel x.1
      = .ok (((x :: seg).find? (isPair key hash)).map Prod.fst) := by
  induction seg generalizing fuel x with
  | nil =>
    obtain ⟨fuel, rfl⟩ : ∃ k, fuel = k + 1 := ⟨fuel - 1, by omega⟩
    obtain rfl : x.1 = last := by simpa using hlast
    rw [findFrom, list_to_pair_eq (hdata x List.mem_cons_self)]
    by_cases hpair : x.2.hash = hash ∧ x.2.key = key
    · simp only [bind, Except.bind, hpair, and_self, if_true, isPair, List.find?_cons]
      rfl
    · simp only [bind, Except.bind, hpair, if_false, if_true, isPair, decide_false, List.find?_cons]
      rfl
  | cons y seg ih =>
    obtain ⟨fuel, rfl⟩ : ∃ k, fuel = k + 1 := ⟨fuel - 1, by omega⟩
    obtain ⟨hhead, htail⟩ := List.forall_mem_cons.mp hdata
    rw [List.map_cons, List.map_cons, List.isChain_cons_cons] at hjoined
    rw [List.map_cons, List.nodup_cons] at hnodup
    rw [List.map_cons, List.map_cons, List.getLast?_cons_cons] at hlast
    have hne : x.1 ≠ last := by
      rintro rfl
      exact hnodup.1 (List.mem_of_getLast? hlast)
    obtain ⟨c, hload, hnext⟩ := load_next hjoined.1.1
    have ih : findFrom nodes key hash last fuel y.1 = _ :=
      ih htail hjoined.2 hnodup.2 hlast (by simpa using hfuel)
    rw [findFrom, list_to_pair_eq hhead]
    by_cases hpair : x.2.hash = hash ∧ x.2.key = key
    · simp only [bind, Except.bind, hpair, and_self, if_true, isPair, List.find?_cons]
      rfl
    · simp only [bind, Except.bind, hpair, if_false, hne, hload, hnext, ih]
      simp [isPair, hpair, List.find?_cons]

/-- The part of the list that is one bucket. -/
lemma Bucketed.segment (h : Bucketed t n gs) (i : ℕ) :
    ((group gs i).map Prod.fst).IsChain (Joined t.nodes) ∧
      ((group gs i).map Prod.fst).Nodup ∧ (group gs i).length < t.nodes.cells.length := by
  obtain ⟨l₁, l₂, hitems, -, -⟩ := h.grouped.items_put [] i
  have hjoined := h.circle.joined
  have hnodup := (List.nodup_cons.mp h.circle.nodup).2
  have hlength := h.circle.length_lt
  rw [hitems, List.map_append, List.map_append] at hjoined hnodup hlength
  rw [List.cons_append] at hjoined
  refine ⟨?_, hnodup.of_append_right.of_append_left, ?_⟩
  · exact hjoined.tail.left_of_append.right_of_append.left_of_append
  · simp only [List.length_append, List.length_map] at hlength
    omega

/-- `hashtable_find_pair` finds the pair of the bucket that has the key, if there is one. -/
lemma Bucketed.find_pair (h : Bucketed t n gs) (key : String) (hash i : ℕ) :
    hashtable_find_pair t (bucketOf t.list (group gs i)) key hash
      = .ok (((group gs i).find? (isPair key hash)).map Prod.fst) := by
  obtain ⟨hjoined, hnodup, hlength⟩ := h.segment i
  have hdata : ∀ x ∈ group gs i, data? t.nodes x.1 = some (some x.2) :=
    fun x hx => h.data x (h.mem_items hx)
  rw [hashtable_find_pair, h.bucket_is_empty]
  rcases hseg : group gs i with _ | ⟨x, seg⟩
  · rfl
  · rw [hseg] at hjoined hnodup hlength hdata
    refine findFrom_eq key hash hdata hjoined hnodup ?_ (Nat.lt_of_succ_lt hlength)
    rw [List.getLast?_map]
    rcases hlast : (x :: seg).getLast? with _ | y
    · exact absurd (List.getLast?_eq_none_iff.mp hlast) (by simp)
    · simp [bucketOf, hlast]

/-! ## Inserting a pair -/

lemma set_map_range {α : Type} (f : ℕ → α) (n i : ℕ) (a : α) :
    ((List.range n).map f).set i a = (List.range n).map fun j => if j = i then a else f j := by
  refine List.ext_getElem (by simp) fun j hj hj' => ?_
  simp only [List.getElem_set, List.getElem_map, List.getElem_range]
  by_cases hji : i = j
  · rw [if_pos hji, if_pos hji.symm]
  · rw [if_neg hji, if_neg (Ne.symm hji)]

/-- The buckets after one group has got other pairs. -/
lemma Bucketed.set_bucket (h : Bucketed t n gs) (seg : List (ℕ × Pair V)) (i : ℕ) :
    t.buckets.set i (bucketOf t.list seg)
      = (List.range n).map fun j => bucketOf t.list (group (Groups.put i seg gs) j) := by
  rw [h.buckets, set_map_range]
  refine List.map_congr_left fun j _ => ?_
  rw [h.grouped.group_put]
  split <;> rfl

/-- The fields and the nodes that stay as they are when the list changes. -/
structure KeepsData (t t' : Hashtable V) : Prop where
  size : t'.size = t.size
  num_buckets : t'.num_buckets = t.num_buckets
  list : t'.list = t.list
  data : ∀ b, data? t'.nodes b = data? t.nodes b
  length : t'.nodes.cells.length = t.nodes.cells.length

/-- The table with a pair in front of a group, and the nodes that it then has. -/
def withFirst (t : Hashtable V) (i : ℕ) (seg : List (ℕ × Pair V)) (nodes : PairNodes V) :
    Hashtable V :=
  { t with nodes := nodes, buckets := t.buckets.set i (bucketOf t.list seg) }

/-- The node before which a pair is inserted: the first one of its bucket, or the head. -/
lemma Bucketed.insert_to_bucket_eq (h : Bucketed t n gs) {i : ℕ} (hi : i < n)
    (x : ℕ × Pair V) {l₂ : List (ℕ × Pair V)} (hnil : group gs i = [] → l₂ = []) :
    ∃ after, ((group gs i ++ l₂).map Prod.fst ++ [t.list]).head? = some after ∧
      insert_to_bucket t i x.1
        = (Circle.insert t.nodes after x.1).map (withFirst t i (x :: group gs i)) := by
  rw [insert_to_bucket, h.bucket hi]
  simp only [bind, Except.bind, h.bucket_is_empty]
  rcases hseg : group gs i with _ | ⟨y, seg⟩
  · refine ⟨t.list, by rw [hnil hseg]; rfl, ?_⟩
    rcases Circle.insert t.nodes t.list x.1 with _ | nodes <;> rfl
  · refine ⟨y.1, rfl, ?_⟩
    have hlast : bucketOf t.list (x :: y :: seg)
        = { bucketOf t.list (y :: seg) with first := x.1 } := by
      simp [bucketOf]
    simp only [List.isEmpty_cons, Bool.false_eq_true, if_false]
    rw [show (bucketOf t.list (y :: seg)).first = y.1 from rfl]
    rcases Circle.insert t.nodes y.1 x.1 with _ | nodes
    · rfl
    · simp only [Except.map, withFirst, hlast]
      rfl

lemma KeepsData.trans {t₁ t₂ : Hashtable V} (h : KeepsData t t₁) (h' : KeepsData t₁ t₂) :
    KeepsData t t₂ :=
  ⟨h'.size.trans h.size, h'.num_buckets.trans h.num_buckets, h'.list.trans h.list,
    fun b => (h'.data b).trans (h.data b), h'.length.trans h.length⟩

/-- **`insert_to_bucket`**: the pair is the first of its bucket. -/
lemma Bucketed.insert (h : Bucketed t n gs) {x : ℕ × Pair V}
    (hx : data? t.nodes x.1 = some (some x.2)) (hnew : x.1 ∉ t.list :: (items gs).map Prod.fst) :
    ∃ t', insert_to_bucket t (bucketIndex n x) x.1 = .ok t' ∧
      Bucketed t' n (Groups.put (bucketIndex n x) (x :: group gs (bucketIndex n x)) gs) ∧
      KeepsData t t' ∧
      ∀ a, a ∉ t.list :: x.1 :: (items gs).map Prod.fst → next? t'.nodes a = next? t.nodes a := by
  have hi : bucketIndex n x < n := Nat.mod_lt _ (primes_pos h.primes_eq)
  obtain ⟨i, hi'⟩ : ∃ i, bucketIndex n x = i := ⟨_, rfl⟩
  rw [hi'] at hi ⊢
  obtain ⟨l₁, l₂, hitems, hput, hnil⟩ := h.grouped.items_put (x :: group gs i) i
  obtain ⟨after, hafter, hinsert⟩ := h.insert_to_bucket_eq hi x hnil
  have hcircle := h.circle
  obtain ⟨c, hc, -⟩ := exists_live_of_data hx
  rw [hitems, List.map_append] at hcircle hnew ⊢
  obtain ⟨nodes, hnodes, hcircle', hdata, hlength, hnext⟩ := hcircle.insert hafter hc hnew
  refine ⟨withFirst t i (x :: group gs i) nodes, by rw [hinsert, hnodes]; rfl,
    ⟨?_, ?_, fun y hy => ?_, h.primes_eq, h.set_bucket _ i, ?_⟩,
    ⟨rfl, rfl, rfl, hdata, hlength⟩, hnext⟩
  · rw [hput, List.map_append]
    exact hcircle'
  · exact (hdata _).trans h.head
  · refine (hdata _).trans ?_
    rcases h.grouped.mem_items_put hy with hy | hy
    · exact h.data y hy
    · rcases List.mem_cons.mp hy with rfl | hy
      · exact hx
      · exact h.data y (h.mem_items hy)
  · refine h.grouped.put fun y hy => ?_
    rcases List.mem_cons.mp hy with rfl | hy
    · exact hi'
    · exact (h.grouped.mem_group_iff.mp hy).2

/-! ## More buckets -/

/-- The first of the pairs, or the head. -/
def firstOf (list : ℕ) (rest : List (ℕ × Pair V)) : ℕ := (rest.head?.map Prod.fst).getD list

/-- Every pair is linked to the next one, and the last one to the head. -/
def Linked (nodes : PairNodes V) (list : ℕ) (rest : List (ℕ × Pair V)) : Prop :=
  ∀ l₁ x l₂, rest = l₁ ++ x :: l₂ → next? nodes x.1 = some (firstOf list l₂)

lemma Linked.tail {list : ℕ} {x : ℕ × Pair V} {rest : List (ℕ × Pair V)}
    (h : Linked nodes list (x :: rest)) : Linked nodes list rest :=
  fun l₁ y l₂ heq => h (x :: l₁) y l₂ (by rw [heq, List.cons_append])

lemma Linked.frame {nodes' : PairNodes V} {list : ℕ} {rest : List (ℕ × Pair V)}
    (h : Linked nodes list rest) (hframe : ∀ x ∈ rest, next? nodes' x.1 = next? nodes x.1) :
    Linked nodes' list rest := by
  intro l₁ x l₂ heq
  rw [hframe x (by simp [heq])]
  exact h l₁ x l₂ heq

/-- The list of a table, from its head on. -/
lemma linked_of_circle {list : ℕ} {l : List (ℕ × Pair V)}
    (h : IsCircle nodes list (l.map Prod.fst)) :
    next? nodes list = some (firstOf list l) ∧ Linked nodes list l := by
  have hfirst : ∀ l₂ : List (ℕ × Pair V),
      ∃ bs, l₂.map Prod.fst ++ [list] = firstOf list l₂ :: bs := by
    intro l₂
    rcases l₂ with _ | ⟨y, l₂⟩
    · exact ⟨[], rfl⟩
    · exact ⟨l₂.map Prod.fst ++ [list], rfl⟩
  constructor
  · obtain ⟨bs, hbs⟩ := hfirst l
    have hjoined := h.joined
    rw [List.cons_append, hbs] at hjoined
    exact (List.isChain_cons_cons.mp hjoined).1.1
  · rintro l₁ x l₂ rfl
    obtain ⟨bs, hbs⟩ := hfirst l₂
    have hjoined := h.joined
    have happend : list :: (l₁ ++ x :: l₂).map Prod.fst ++ [list]
        = list :: l₁.map Prod.fst ++ x.1 :: (l₂.map Prod.fst ++ [list]) := by simp
    rw [happend, hbs, List.isChain_append_cons_cons] at hjoined
    exact hjoined.2.1.1

/-- The pairs that are still to be moved. -/
structure ToMove (t : Hashtable V) (gs : Groups (ℕ × Pair V)) (rest : List (ℕ × Pair V)) :
    Prop where
  data : ∀ x ∈ rest, data? t.nodes x.1 = some (some x.2)
  linked : Linked t.nodes t.list rest
  nodup : (rest.map Prod.fst ++ t.list :: (items gs).map Prod.fst).Nodup

/-- The loop of `hashtable_do_rehash`: all pairs are moved. -/
lemma rehashFrom_spec {fuel : ℕ} {rest : List (ℕ × Pair V)} (h : Bucketed t n gs)
    (hrest : ToMove t gs rest) (hfuel : rest.length < fuel) :
    ∃ t' gs', rehashFrom n fuel (firstOf t.list rest) t = .ok t' ∧ Bucketed t' n gs' ∧
      (items gs').Perm (rest ++ items gs) ∧ KeepsData t t' := by
  induction rest generalizing fuel t gs with
  | nil =>
    obtain ⟨fuel, rfl⟩ : ∃ k, fuel = k + 1 := ⟨fuel - 1, by omega⟩
    refine ⟨t, gs, ?_, h, List.Perm.refl _, rfl, rfl, rfl, fun _ => rfl, rfl⟩
    rw [rehashFrom]
    exact if_pos rfl
  | cons x rest ih =>
    obtain ⟨fuel, rfl⟩ : ∃ k, fuel = k + 1 := ⟨fuel - 1, by omega⟩
    obtain ⟨hx, hdata⟩ := List.forall_mem_cons.mp hrest.data
    have hnodup := hrest.nodup
    rw [List.map_cons, List.cons_append, List.nodup_cons, List.mem_append, not_or] at hnodup
    obtain ⟨⟨hnotMem, hnew⟩, hnodup⟩ := hnodup
    -- the link to the next pair is read before the pair is moved
    obtain ⟨c, hload, hc⟩ := load_next (hrest.linked [] x rest rfl)
    obtain ⟨t₁, hinsert, h₁, hkeeps₁, hframe⟩ := h.insert hx hnew
    have hperm₁ := h.grouped.perm_items_cons x (bucketIndex n x)
    have hrest₁ : ToMove t₁ (Groups.put (bucketIndex n x)
        (x :: group gs (bucketIndex n x)) gs) rest := by
      refine ⟨fun y hy => (hkeeps₁.data _).trans (hdata y hy), ?_, ?_⟩
      · rw [hkeeps₁.list]
        refine hrest.linked.tail.frame fun y hy => hframe y.1 fun hmem => ?_
        have hy' := List.mem_map_of_mem (f := Prod.fst) hy
        rcases List.mem_cons.mp hmem with heq | hmem
        · exact List.disjoint_of_nodup_append hnodup hy' (heq ▸ List.mem_cons_self)
        · rcases List.mem_cons.mp hmem with heq | hmem
          · exact hnotMem (heq ▸ hy')
          · exact List.disjoint_of_nodup_append hnodup hy' (List.mem_cons_of_mem _ hmem)
      · have hperm : (rest.map Prod.fst ++ t.list :: (items (Groups.put (bucketIndex n x)
            (x :: group gs (bucketIndex n x)) gs)).map Prod.fst).Perm
            ((x :: rest).map Prod.fst ++ t.list :: (items gs).map Prod.fst) := by
          refine (((hperm₁.map Prod.fst).cons t.list).append_left _).trans ?_
          rw [List.map_cons, List.map_cons]
          exact ((List.Perm.swap _ _ _).append_left _).trans List.perm_middle
        rw [hkeeps₁.list, hperm.nodup_iff]
        exact hrest.nodup
    obtain ⟨t', gs', ht', h', hperm, hkeeps⟩ := ih h₁ hrest₁ (by simpa using hfuel)
    refine ⟨t', gs', ?_, h', ?_, hkeeps₁.trans hkeeps⟩
    · have hne : x.1 ≠ t.list := fun heq => hnew (by simp [heq])
      rw [hkeeps₁.list] at ht'
      rw [rehashFrom, show firstOf t.list (x :: rest) = x.1 from rfl, if_neg hne]
      simp only [bind, Except.bind, hload, hc, list_to_pair_eq hx]
      rw [show x.2.hash % n = bucketIndex n x from rfl, hinsert]
      exact ht'
    · exact (hperm.trans (hperm₁.append_left rest)).trans List.perm_middle

lemma buckets_replicate (list n : ℕ) : List.replicate n (⟨list, list⟩ : Bucket)
    = (List.range n).map fun i => bucketOf list (group ([] : Groups (ℕ × Pair V)) i) := by
  refine List.ext_getElem (by simp) fun i hi hi' => ?_
  simp [bucketOf]

/-- **`hashtable_do_rehash`**: the table has the same pairs. -/
lemma Bucketed.rehash {n' : ℕ} (h : Bucketed t n gs)
    (hprimes : primes[t.num_buckets + 1]? = some n') :
    ∃ t' gs', hashtable_do_rehash t = .ok t' ∧ Bucketed t' n' gs' ∧ (items gs').Perm (items gs) ∧
      t'.size = t.size ∧ t'.list = t.list := by
  obtain ⟨hfirst, hlinked⟩ := linked_of_circle h.circle
  obtain ⟨c, hload, hc⟩ := load_next hfirst
  obtain ⟨cl, hcl, -⟩ := Circle.exists_live_of_next hfirst
  obtain ⟨nodes, hinit, hcircle, hdata, hlength, hnext⟩ := Circle.isCircle_init hcl
  let t₁ : Hashtable V := { t with
    num_buckets := t.num_buckets + 1, buckets := List.replicate n' ⟨t.list, t.list⟩,
    nodes := nodes }
  have h₁ : Bucketed t₁ n' [] :=
    ⟨hcircle, (hdata _).trans h.head, by simp, hprimes, buckets_replicate _ _, .nil⟩
  have hmove : ToMove t₁ [] (items gs) := by
    refine ⟨fun x hx => (hdata _).trans (h.data x hx), ?_, ?_⟩
    · exact hlinked.frame fun x hx => (hnext x.1 (h.ne_list hx)).1
    · exact (List.perm_append_singleton _ _).nodup_iff.mpr h.circle.nodup
  have hfuel : (items gs).length < t.nodes.cells.length + 1 := by
    have hlt := h.circle.length_lt
    rw [List.length_map] at hlt
    omega
  obtain ⟨t', gs', ht', h', hperm, hkeeps⟩ := rehashFrom_spec h₁ hmove hfuel
  refine ⟨t', gs', ?_, h', by simpa using hperm, hkeeps.size, hkeeps.list⟩
  have hn : num_buckets { t with num_buckets := t.num_buckets + 1 } = .ok n' := by
    rw [num_buckets, elementAt, hprimes]
  rw [hashtable_do_rehash]
  simp only [bind, Except.bind, hn, hload, hc, hinit]
  exact ht'

/-! ## Taking a pair out -/

/-- The bucket of a pair that is taken out, by the neighbours of the pair. -/
def bucketWithout (list : ℕ) (bucket : Bucket) (b prev next : ℕ) : Bucket :=
  if b = bucket.first ∧ b = bucket.last then ⟨list, list⟩
  else if b = bucket.first then { bucket with first := next }
  else if b = bucket.last then { bucket with last := prev }
  else bucket

lemma getLast?_cons_append_cons {α : Type} (f y : α) (l₁ l₂ : List α) :
    (f :: (l₁ ++ y :: l₂)).getLast? = (y :: l₂).getLast? := by
  rw [← List.cons_append, List.getLast?_append]
  rcases hlast : (y :: l₂).getLast? with _ | w
  · exact absurd hlast (by simp)
  · rfl

lemma bucketWithout_eq (list : ℕ) {s₁ s₂ : List (ℕ × Pair V)} {x : ℕ × Pair V} {prev next : ℕ}
    (hnodup : ((s₁ ++ x :: s₂).map Prod.fst).Nodup)
    (hprev : ∀ y ∈ s₁.getLast?, y.1 = prev) (hnext : ∀ y ∈ s₂.head?, y.1 = next) :
    bucketWithout list (bucketOf list (s₁ ++ x :: s₂)) x.1 prev next
      = bucketOf list (s₁ ++ s₂) := by
  have hne : ∀ y ∈ s₁ ++ s₂, x.1 ≠ y.1 := by
    have hperm : ((s₁ ++ x :: s₂).map Prod.fst).Perm (x.1 :: (s₁ ++ s₂).map Prod.fst) :=
      List.perm_middle.map Prod.fst
    intro y hy heq
    exact (List.nodup_cons.mp (hperm.nodup_iff.mp hnodup)).1 (heq ▸ List.mem_map_of_mem hy)
  rw [bucketWithout]
  rcases s₁ with _ | ⟨f, s₁⟩
  · rcases s₂ with _ | ⟨y, s₂⟩
    · -- the only pair
      simp [bucketOf]
    · -- the first one
      obtain ⟨w, hw⟩ := List.exists_mem_of_ne_nil (l := (y :: s₂).getLast?.toList) (by simp)
      rw [Option.mem_toList] at hw
      have hlast : x.1 ≠ w.1 := hne w (List.mem_of_getLast? hw)
      simp [bucketOf, hw, hlast, hnext y rfl]
  · have hfirst : x.1 ≠ f.1 := hne f (by simp)
    rcases s₂ with _ | ⟨y, s₂⟩
    · -- the last one
      obtain ⟨z, hz⟩ := List.exists_mem_of_ne_nil (l := (f :: s₁).getLast?.toList) (by simp)
      rw [Option.mem_toList] at hz
      simp [bucketOf, hz, hfirst, hprev z hz, getLast?_cons_append_cons]
    · obtain ⟨w, hw⟩ := List.exists_mem_of_ne_nil (l := (y :: s₂).getLast?.toList) (by simp)
      rw [Option.mem_toList] at hw
      have hlast : x.1 ≠ w.1 := hne w (List.mem_append_right _ (List.mem_of_getLast? hw))
      simp [bucketOf, hw, hfirst, hlast, getLast?_cons_append_cons]

/-- The neighbours of a pair in its bucket are those that it is linked to. -/
lemma links_of_segment {s₁ s₂ : List (ℕ × Pair V)} {x : ℕ × Pair V}
    {c : CircleNode (Option (Pair V))}
    (h : ((s₁ ++ x :: s₂).map Prod.fst).IsChain (Joined nodes)) (hx : nodes.Live x.1 c) :
    (∀ y ∈ s₁.getLast?, y.1 = c.prev) ∧ ∀ y ∈ s₂.head?, y.1 = c.next := by
  constructor
  · intro z hz
    obtain ⟨s, rfl⟩ : ∃ s, s₁ = s ++ [z] := List.getLast?_eq_some_iff.mp hz
    rw [List.append_assoc, List.map_append, List.singleton_append, List.map_cons, List.map_cons,
      List.isChain_append_cons_cons] at h
    obtain ⟨d, hd, hprev⟩ := Circle.exists_live_of_prev h.2.1.2
    rw [hx.inj hd, hprev]
  · intro y hy
    obtain ⟨s, rfl⟩ : ∃ s, s₂ = y :: s := List.head?_eq_some_iff.mp hy
    rw [List.map_append, List.map_cons, List.map_cons, List.isChain_append_cons_cons] at h
    obtain ⟨d, hd, hnext⟩ := Circle.exists_live_of_next h.2.1.1
    rw [hx.inj hd, hnext]

/-- What is done once the pair has been found. -/
lemma hashtable_do_del_of_found {key : String} {hash b : ℕ} {bucket : Bucket}
    (hn : num_buckets t = .ok n)
    (hbucket : elementAt t.buckets (hash % n) = .ok bucket)
    (hfind : hashtable_find_pair t bucket key hash = .ok (some b))
    {c : CircleNode (Option (Pair V))} (hload : t.nodes.load (Ptr.ofBlock b) = .ok c)
    {pair : Pair V} (hpair : list_to_pair t.nodes b = .ok pair) {nodes nodes' : PairNodes V}
    (hremove : Circle.remove t.nodes b = .ok nodes)
    (hfree : nodes.free (Ptr.ofBlock b) = .ok nodes') :
    hashtable_do_del t key hash = ⟨[pair.value], .ok (0, { t with
      nodes := nodes', size := t.size - 1,
      buckets := t.buckets.set (hash % n) (bucketWithout t.list bucket b c.prev c.next) })⟩ := by
  rw [hashtable_do_del]
  simp only [Traced.liftM_eq, hn, hbucket, hfind, hload, hpair, hremove, hfree,
    Traced.ofExcept_ok_bind, Traced.emit_bind]
  rfl

/-- **`hashtable_do_del`**, of a pair that is there. -/
lemma Bucketed.del (h : Bucketed t n gs) {key : String} {hash : ℕ} {x : ℕ × Pair V}
    {s₁ s₂ : List (ℕ × Pair V)} (hseg : group gs (hash % n) = s₁ ++ x :: s₂)
    (hfind : (group gs (hash % n)).find? (isPair key hash) = some x) :
    ∃ t', hashtable_do_del t key hash = ⟨[x.2.value], .ok (0, t')⟩ ∧
      Bucketed t' n (Groups.put (hash % n) (s₁ ++ s₂) gs) ∧ t'.size = t.size - 1 := by
  have hi : hash % n < n := Nat.mod_lt _ (primes_pos h.primes_eq)
  have hx : x ∈ items gs := h.mem_items (i := hash % n) (by simp [hseg])
  have hdata := h.data x hx
  obtain ⟨c, hc, -⟩ := exists_live_of_data hdata
  obtain ⟨l₁, l₂, hitems, hput, -⟩ := h.grouped.items_put (s₁ ++ s₂) (hash % n)
  have hcircle := h.circle
  rw [hitems, hseg, show l₁ ++ (s₁ ++ x :: s₂ ++ l₂) = (l₁ ++ s₁) ++ x :: (s₂ ++ l₂) by simp,
    List.map_append, List.map_cons] at hcircle
  obtain ⟨nodes, hremove, hcircle', hdata', hlength⟩ := hcircle.remove
  obtain ⟨c', hc', -⟩ := exists_live_of_data ((hdata' x.1).trans hdata)
  obtain ⟨nodes', hfree, hframe, hlength'⟩ := Circle.free_spec hc'
  -- no node that is left is the one that is freed
  have hleft : ∀ b ∈ t.list :: ((l₁ ++ s₁).map Prod.fst ++ (s₂ ++ l₂).map Prod.fst), b ≠ x.1 := by
    rintro b hb rfl
    have hperm : (t.list :: ((l₁ ++ s₁).map Prod.fst ++ x.1 :: (s₂ ++ l₂).map Prod.fst)).Perm
        (x.1 :: t.list :: ((l₁ ++ s₁).map Prod.fst ++ (s₂ ++ l₂).map Prod.fst)) :=
      (List.perm_middle.cons t.list).trans (List.Perm.swap _ _ _)
    exact (List.nodup_cons.mp (hperm.nodup_iff.mp hcircle.nodup)).1 hb
  have hitems' : (items (Groups.put (hash % n) (s₁ ++ s₂) gs)).map Prod.fst
      = (l₁ ++ s₁).map Prod.fst ++ (s₂ ++ l₂).map Prod.fst := by
    rw [hput, ← List.map_append]
    congr 1
    simp
  have hnode : ∀ b, b ≠ x.1 → data? nodes' b = data? t.nodes b := by
    intro b hb
    rw [← hdata', data?, data?, hframe b hb]
  obtain ⟨hjoined, hnodup, -⟩ := h.segment (hash % n)
  rw [hseg] at hjoined hnodup
  obtain ⟨hprev, hnext⟩ := links_of_segment hjoined hc
  have hbucket := bucketWithout_eq t.list hnodup hprev hnext
  rw [← hseg] at hbucket
  refine ⟨_, hashtable_do_del_of_found (num_buckets_eq h.primes_eq) (h.bucket hi)
    ((h.find_pair key hash _).trans (by rw [hfind]; rfl)) hc.load (list_to_pair_eq hdata) hremove
    hfree, ⟨?_, ?_, fun y hy => ?_, h.primes_eq, ?_, ?_⟩, rfl⟩
  · rw [hitems']
    refine hcircle'.frame fun b hb => ?_
    rw [next?, next?, prev?, prev?, hframe b (hleft b hb)]
    exact ⟨rfl, rfl⟩
  · exact (hnode _ (hleft _ List.mem_cons_self)).trans h.head
  · have hy' : y.1 ∈ (l₁ ++ s₁).map Prod.fst ++ (s₂ ++ l₂).map Prod.fst := by
      rw [← hitems']
      exact List.mem_map_of_mem hy
    refine (hnode _ (hleft _ (List.mem_cons_of_mem _ hy'))).trans (h.data y ?_)
    rcases h.grouped.mem_items_put hy with hy | hy
    · exact hy
    · refine h.mem_items (i := hash % n) ?_
      rw [hseg]
      simp only [List.mem_append, List.mem_cons] at hy ⊢
      tauto
  · show t.buckets.set _ _ = _
    rw [hbucket]
    exact h.set_bucket _ _
  · refine h.grouped.put fun y hy => (h.grouped.mem_group_iff.mp (?_ : y ∈ group gs (hash % n))).2
    rw [hseg]
    simp only [List.mem_append, List.mem_cons] at hy ⊢
    tauto

/-! ## A new value, and a new pair -/

lemma bucketOf_congr {list : ℕ} {seg seg' : List (ℕ × Pair V)}
    (h : seg.map Prod.fst = seg'.map Prod.fst) : bucketOf list seg = bucketOf list seg' := by
  rw [bucketOf, bucketOf, ← List.head?_map, ← List.getLast?_map, h, List.head?_map,
    List.getLast?_map]

/-- The value of a pair is replaced. -/
lemma Bucketed.set_pair (h : Bucketed t n gs) {i : ℕ} {x : ℕ × Pair V}
    {s₁ s₂ : List (ℕ × Pair V)} (hseg : group gs i = s₁ ++ x :: s₂) (p : Pair V)
    (hp : p.hash = x.2.hash) :
    ∃ nodes, t.nodes.modify (Ptr.ofBlock x.1) (fun c => { c with data := some p }) = .ok nodes ∧
      Bucketed { t with nodes := nodes } n (Groups.put i (s₁ ++ (x.1, p) :: s₂) gs) := by
  have hx : x ∈ group gs i := by simp [hseg]
  obtain ⟨c, hc, -⟩ := exists_live_of_data (h.data x (h.mem_items hx))
  obtain ⟨nodes, hmodify, hlinks, hdata⟩ := Circle.modify_data hc (some p)
  have hblocks : (group gs i).map Prod.fst = (s₁ ++ (x.1, p) :: s₂).map Prod.fst := by simp [hseg]
  obtain ⟨l₁, l₂, hitems, hput, -⟩ := h.grouped.items_put (s₁ ++ (x.1, p) :: s₂) i
  have hitems' : (items (Groups.put i (s₁ ++ (x.1, p) :: s₂) gs)).map Prod.fst
      = (items gs).map Prod.fst := by
    rw [hput, hitems]
    simp only [List.map_append, hblocks]
  refine ⟨nodes, hmodify, ?_, ?_, fun y hy => ?_, h.primes_eq, ?_, ?_⟩
  · rw [hitems']
    exact h.circle.frame fun b _ => hlinks b
  · show data? nodes t.list = _
    rw [hdata, if_neg (h.ne_list (h.mem_items hx)).symm]
    exact h.head
  · show data? nodes y.1 = _
    rw [hdata]
    by_cases hyx : y.1 = x.1
    · -- the blocks are different, so this is the pair itself
      have hmem : (x.1, p) ∈ items (Groups.put i (s₁ ++ (x.1, p) :: s₂) gs) := by simp [hput]
      have hnodup : ((items (Groups.put i (s₁ ++ (x.1, p) :: s₂) gs)).map Prod.fst).Nodup := by
        rw [hitems']
        exact (List.nodup_cons.mp h.circle.nodup).2
      rw [if_pos hyx, List.inj_on_of_nodup_map hnodup hy hmem hyx]
    · rw [if_neg hyx]
      refine h.data y ?_
      rcases h.grouped.mem_items_put hy with hy | hy
      · exact hy
      · refine h.mem_items (i := i) ?_
        have hne : y ≠ (x.1, p) := fun heq => hyx (by rw [heq])
        rw [hseg]
        simp only [List.mem_append, List.mem_cons, hne, false_or] at hy ⊢
        tauto
  · show t.buckets = _
    rw [h.buckets]
    refine List.map_congr_left fun j _ => ?_
    rw [h.grouped.group_put]
    split
    · rename_i hj
      subst hj
      exact bucketOf_congr hblocks
    · rfl
  · refine h.grouped.put fun y hy => ?_
    have hindex : ∀ y ∈ group gs i, bucketIndex n y = i := fun y hy =>
      (h.grouped.mem_group_iff.mp hy).2
    rw [hseg] at hindex
    rcases List.mem_append.mp hy with hy | hy
    · exact hindex y (by simp [hy])
    · rcases List.mem_cons.mp hy with rfl | hy
      · rw [bucketIndex, hp]
        exact hindex x (by simp)
      · exact hindex y (by simp [hy])

/-- A node is allocated, and linked to itself. -/
lemma Bucketed.malloc (h : Bucketed t n gs) (p : Pair V) :
    ∃ nodes, Circle.init (t.nodes.malloc ⟨0, 0, some p⟩).2 t.nodes.cells.length = .ok nodes ∧
      Bucketed { t with nodes := nodes } n gs ∧
      data? nodes t.nodes.cells.length = some (some p) ∧
      t.nodes.cells.length ∉ t.list :: (items gs).map Prod.fst := by
  obtain ⟨nodes, hinit, -, hdata, -, hlinks⟩ :=
    Circle.isCircle_init (Store.live_malloc_self (s := t.nodes) ⟨0, 0, some p⟩)
  have hnew : t.nodes.cells.length ∉ t.list :: (items gs).map Prod.fst := by
    intro hmem
    obtain ⟨a, ha⟩ := h.circle.exists_next hmem
    obtain ⟨c, hc, -⟩ := Circle.exists_live_of_next ha
    exact absurd hc.lt_length (Nat.lt_irrefl _)
  have hdata' : ∀ b, b ≠ t.nodes.cells.length → data? nodes b = data? t.nodes b := by
    intro b hb
    rw [hdata, data?, Circle.node?_malloc, if_neg hb, data?]
  refine ⟨nodes, hinit, ⟨?_, ?_, fun x hx => ?_, h.primes_eq, h.buckets, h.grouped⟩, ?_, hnew⟩
  · refine h.circle.frame fun b hb => ?_
    have hne := ne_of_mem_of_not_mem hb hnew
    obtain ⟨hnext, hprev⟩ := hlinks b hne
    refine ⟨hnext.trans ?_, hprev.trans ?_⟩
    · rw [next?, Circle.node?_malloc, if_neg hne, next?]
    · rw [prev?, Circle.node?_malloc, if_neg hne, prev?]
  · exact (hdata' _ (ne_of_mem_of_not_mem List.mem_cons_self hnew)).trans h.head
  · have hmem : x.1 ∈ t.list :: (items gs).map Prod.fst :=
      List.mem_cons_of_mem _ (List.mem_map_of_mem hx)
    exact (hdata' _ (ne_of_mem_of_not_mem hmem hnew)).trans (h.data x hx)
  · rw [hdata, data?, Circle.node?_malloc, if_pos rfl]
    rfl

/-! ## All pairs -/

/-- The loop of `hashtable_do_clear`: the values are given back, and the pairs are freed. -/
lemma clearFrom_spec {list fuel : ℕ} {rest : List (ℕ × Pair V)}
    (hdata : ∀ x ∈ rest, data? nodes x.1 = some (some x.2)) (hlinked : Linked nodes list rest)
    (hnodup : (list :: rest.map Prod.fst).Nodup) (hfuel : rest.length < fuel) :
    ∃ nodes', clearFrom list fuel (firstOf list rest) nodes
        = ⟨rest.map fun x => x.2.value, .ok nodes'⟩ ∧
      ∀ b, b ∉ rest.map Prod.fst → node? nodes' b = node? nodes b := by
  induction rest generalizing fuel nodes with
  | nil =>
    obtain ⟨fuel, rfl⟩ : ∃ k, fuel = k + 1 := ⟨fuel - 1, by omega⟩
    refine ⟨nodes, ?_, fun _ _ => rfl⟩
    rw [clearFrom]
    exact if_pos rfl
  | cons x rest ih =>
    obtain ⟨fuel, rfl⟩ : ∃ k, fuel = k + 1 := ⟨fuel - 1, by omega⟩
    obtain ⟨hx, hdata⟩ := List.forall_mem_cons.mp hdata
    obtain ⟨c, hload, hc⟩ := load_next (hlinked [] x rest rfl)
    obtain ⟨d, hd, -⟩ := exists_live_of_data hx
    obtain ⟨nodes₁, hfree, hframe, -⟩ := Circle.free_spec hd
    rw [List.map_cons, List.nodup_cons, List.mem_cons, not_or, List.nodup_cons] at hnodup
    obtain ⟨⟨hne, hlist⟩, hnotMem, hnodup⟩ := hnodup
    have hrest : ∀ y ∈ rest, y.1 ≠ x.1 := fun y hy =>
      ne_of_mem_of_not_mem (List.mem_map_of_mem hy) hnotMem
    have hdata₁ : ∀ y ∈ rest, data? nodes₁ y.1 = some (some y.2) := by
      intro y hy
      rw [data?, hframe _ (hrest y hy)]
      exact hdata y hy
    have hlinked₁ : Linked nodes₁ list rest :=
      hlinked.tail.frame fun y hy => by rw [next?, next?, hframe _ (hrest y hy)]
    obtain ⟨nodes', hclear, hframe'⟩ :=
      ih hdata₁ hlinked₁ (List.nodup_cons.mpr ⟨hlist, hnodup⟩) (by simpa using hfuel)
    refine ⟨nodes', ?_, fun b hb => ?_⟩
    · rw [clearFrom, show firstOf list (x :: rest) = x.1 from rfl, if_neg (Ne.symm hne)]
      simp only [Traced.liftM_eq, hload, hc, list_to_pair_eq hx, hfree, Traced.ofExcept_ok_bind,
        Traced.emit_bind, hclear]
      rfl
    · rw [List.map_cons, List.mem_cons, not_or] at hb
      rw [hframe' b hb.2, hframe b hb.1]

/-- **`hashtable_clear`**: all values are given back, in the order of the list. -/
lemma Bucketed.clear (h : Bucketed t n gs) :
    ∃ t', hashtable_clear t = ⟨(items gs).map fun x => x.2.value, .ok t'⟩ ∧ Bucketed t' n [] ∧
      t'.size = 0 := by
  obtain ⟨hfirst, hlinked⟩ := linked_of_circle h.circle
  obtain ⟨c, hload, hc⟩ := load_next hfirst
  obtain ⟨cl, hcl, -⟩ := Circle.exists_live_of_next hfirst
  have hlist := (List.nodup_cons.mp h.circle.nodup).1
  have hfuel : (items gs).length < t.nodes.cells.length + 1 := by
    have hlt := h.circle.length_lt
    rw [List.length_map] at hlt
    omega
  obtain ⟨nodes, hclear, hframe⟩ := clearFrom_spec h.data hlinked h.circle.nodup hfuel
  have hcl' : nodes.Live t.list cl := by
    rw [← Circle.node?_eq_some_iff, hframe t.list hlist, Circle.node?_eq_some_iff]
    exact hcl
  obtain ⟨nodes', hinit, hcircle, hdata, -, -⟩ := Circle.isCircle_init hcl'
  refine ⟨{ t with
    nodes := nodes', buckets := List.replicate n ⟨t.list, t.list⟩, size := 0 }, ?_,
    ⟨hcircle, ?_, by simp, h.primes_eq, buckets_replicate _ _, .nil⟩, rfl⟩
  · have hdo : hashtable_do_clear t
        = ⟨(items gs).map fun x => x.2.value, .ok { t with nodes := nodes }⟩ := by
      rw [hashtable_do_clear]
      simp only [Traced.liftM_eq, hload, hc, Traced.ofExcept_ok_bind, hclear]
      rw [Traced.bind_ok rfl, Traced.trace_pure, List.append_nil]
      rfl
    have hn : num_buckets { t with nodes := nodes } = .ok n := num_buckets_eq h.primes_eq
    rw [hashtable_clear, hdo, Traced.bind_ok rfl]
    simp only [Traced.liftM_eq, hn, hinit, Traced.ofExcept_ok_bind, Traced.trace_pure,
      List.append_nil, Traced.result_pure]
  · refine (hdata _).trans ?_
    rw [data?, hframe t.list hlist]
    exact h.head

/-- The iterator moves on. -/
lemma iter_next_eq {b : ℕ} {rest : List (ℕ × Pair V)}
    (hnext : next? t.nodes b = some (firstOf t.list rest)) (hlist : t.list ∉ rest.map Prod.fst) :
    hashtable_iter_next t b = .ok (rest.head?.map Prod.fst) := by
  obtain ⟨c, hload, hc⟩ := load_next hnext
  rw [hashtable_iter_next, hload]
  simp only [bind, Except.bind, hc]
  rcases rest with _ | ⟨x, rest⟩
  · simp [firstOf]
    rfl
  · have hne : x.1 ≠ t.list := fun heq => hlist (by simp [heq])
    simp [firstOf, hne]
    rfl

lemma iterateFrom_eq {fuel : ℕ} {rest : List (ℕ × Pair V)}
    (hdata : ∀ x ∈ rest, data? t.nodes x.1 = some (some x.2))
    (hlinked : Linked t.nodes t.list rest) (hlist : t.list ∉ rest.map Prod.fst)
    (hfuel : rest.length ≤ fuel) :
    iterateFrom t fuel (rest.head?.map Prod.fst) = .ok (rest.map Prod.snd) := by
  induction rest generalizing fuel with
  | nil => rw [List.head?_nil, Option.map_none, iterateFrom, List.map_nil]
  | cons x rest ih =>
    obtain ⟨fuel, rfl⟩ : ∃ k, fuel = k + 1 := ⟨fuel - 1, by simp at hfuel; omega⟩
    obtain ⟨hx, hdata⟩ := List.forall_mem_cons.mp hdata
    rw [List.map_cons, List.mem_cons, not_or] at hlist
    have ih : iterateFrom t fuel (rest.head?.map Prod.fst) = _ :=
      ih hdata hlinked.tail hlist.2 (by simpa using hfuel)
    rw [List.head?_cons, Option.map_some, iterateFrom, list_to_pair_eq hx,
      iter_next_eq (hlinked [] x rest rfl) hlist.2]
    simp only [bind, Except.bind, ih]
    rfl

/-- An iteration sees every pair once, in the order of the list. -/
lemma Bucketed.iterate (h : Bucketed t n gs) :
    Headcrab.iterate t = .ok ((items gs).map Prod.snd) := by
  obtain ⟨hfirst, hlinked⟩ := linked_of_circle h.circle
  have hlist := (List.nodup_cons.mp h.circle.nodup).1
  have hlength := h.circle.length_lt
  rw [List.length_map] at hlength
  rw [Headcrab.iterate, hashtable_iter, iter_next_eq hfirst hlist]
  exact iterateFrom_eq h.data hlinked hlist (Nat.le_of_lt hlength)

end

end Headcrab
