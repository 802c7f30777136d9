/-
# The hash table behind an object: `hashtable.c`

An object keeps its pairs in one circular list, in which the pairs of a bucket stand next to
each other; a bucket is the first and the last of them, or the head of the list twice.  When
there are as many pairs as buckets, the next insertion first moves all pairs to a larger array
of buckets.

The nodes are cells, so that a use of a pair that has been freed is a fault.  What is shown is
which values are given back to `json_decref`.  Memory suffices.
-/
import Headcrab.Lib.Circle
import Headcrab.Lib.Traced
import Headcrab.Utf8

namespace Headcrab

/-- `struct hashtable_pair`, without its links. -/
structure Pair (V : Type) where
  hash : ℕ
  serial : ℕ
  key : String
  value : V
deriving DecidableEq, Repr

/-- The nodes of the list; its head is not in a pair. -/
abbrev PairNodes (V : Type) : Type := Store (CircleNode (Option (Pair V)))

/-- `struct hashtable_bucket`. -/
structure Bucket where
  first : ℕ
  last : ℕ
deriving DecidableEq, Repr

/-- `hashtable_t`, with the nodes of its list; `list` is the head. -/
structure Hashtable (V : Type) where
  size : ℕ
  buckets : List Bucket
  /-- An index to `primes`. -/
  num_buckets : ℕ
  list : ℕ
  nodes : PairNodes V
deriving DecidableEq, Repr

/-- `hash_str`; a character is signed, and it is converted to `size_t`. -/
def hash_str (key : String) : ℕ :=
  let hash : UInt64 := ((utf8Bytes key.toList).takeWhile (· != 0)).foldl
    (fun hash c => (hash <<< 5) + hash + c.toInt8.toInt64.toUInt64) 5381
  hash.toNat

def primes : List ℕ :=
  [5, 13, 23, 53, 97, 193, 389, 769, 1543, 3079, 6151, 12289, 24593,
    49157, 98317, 196613, 393241, 786433, 1572869, 3145739, 6291469,
    12582917, 25165843, 50331653, 100663319, 201326611, 402653189,
    805306457, 1610612741]

variable {V : Type}

def list_to_pair (nodes : PairNodes V) (list : ℕ) : Except Fault (Pair V) := do
  match (← nodes.load (Ptr.ofBlock list)).data with
  | some pair => return pair
  | none => .error .outOfBounds

/-- An access to an array. -/
def elementAt {α : Type} (array : List α) (index : ℕ) : Except Fault α :=
  match array[index]? with
  | some x => .ok x
  | none => .error .outOfBounds

def num_buckets (t : Hashtable V) : Except Fault ℕ := elementAt primes t.num_buckets

def bucket_is_empty (t : Hashtable V) (bucket : Bucket) : Bool :=
  bucket.first == t.list && bucket.first == bucket.last

/-- `insert_to_bucket`. -/
def insert_to_bucket (t : Hashtable V) (index list : ℕ) : Except Fault (Hashtable V) := do
  let bucket ← elementAt t.buckets index
  if bucket_is_empty t bucket then
    let nodes ← Circle.insert t.nodes t.list list
    return { t with nodes := nodes, buckets := t.buckets.set index ⟨list, list⟩ }
  else
    let nodes ← Circle.insert t.nodes bucket.first list
    return { t with nodes := nodes, buckets := t.buckets.set index { bucket with first := list } }

/-- The loop of `hashtable_find_pair`. -/
def findFrom (nodes : PairNodes V) (key : String) (hash last : ℕ) :
    ℕ → ℕ → Except Fault (Option ℕ)
  | 0, _ => .error .diverges
  | fuel + 1, list => do
    let pair ← list_to_pair nodes list
    if pair.hash = hash ∧ pair.key = key then return some list
    else if list = last then return none
    else findFrom nodes key hash last fuel (← nodes.load (Ptr.ofBlock list)).next

def hashtable_find_pair (t : Hashtable V) (bucket : Bucket) (key : String) (hash : ℕ) :
    Except Fault (Option ℕ) :=
  if bucket_is_empty t bucket then .ok none
  else findFrom t.nodes key hash bucket.last t.nodes.cells.length bucket.first

/-- `hashtable_do_del`. -/
def hashtable_do_del (t : Hashtable V) (key : String) (hash : ℕ) :
    Traced V Fault (ℤ × Hashtable V) := do
  let index := hash % (← num_buckets t)
  let bucket ← elementAt t.buckets index
  match ← hashtable_find_pair t bucket key hash with
  | none => return (-1, t)
  | some list =>
    let c ← t.nodes.load (Ptr.ofBlock list)
    let pair ← list_to_pair t.nodes list
    let bucket :=
      if list = bucket.first ∧ list = bucket.last then ⟨t.list, t.list⟩
      else if list = bucket.first then { bucket with first := c.next }
      else if list = bucket.last then { bucket with last := c.prev }
      else bucket
    let nodes ← Circle.remove t.nodes list
    .emit pair.value
    let nodes ← nodes.free (Ptr.ofBlock list)
    return (0, { t with
      nodes := nodes, buckets := t.buckets.set index bucket, size := t.size - 1 })

/-- The loop of `hashtable_do_clear`. -/
def clearFrom (head : ℕ) : ℕ → ℕ → PairNodes V → Traced V Fault (PairNodes V)
  | 0, _, _ => .ofExcept (.error .diverges)
  | fuel + 1, list, nodes => do
    if list = head then return nodes
    else
      let next := (← nodes.load (Ptr.ofBlock list)).next
      let pair ← list_to_pair nodes list
      .emit pair.value
      let nodes ← nodes.free (Ptr.ofBlock list)
      clearFrom head fuel next nodes

def hashtable_do_clear (t : Hashtable V) : Traced V Fault (Hashtable V) := do
  let list := (← t.nodes.load (Ptr.ofBlock t.list)).next
  let nodes ← clearFrom t.list (t.nodes.cells.length + 1) list t.nodes
  return { t with nodes := nodes }

/-- The loop of `hashtable_do_rehash`. -/
def rehashFrom (new_size : ℕ) : ℕ → ℕ → Hashtable V → Except Fault (Hashtable V)
  | 0, _, _ => .error .diverges
  | fuel + 1, list, t =>
    if list = t.list then .ok t
    else do
      let next := (← t.nodes.load (Ptr.ofBlock list)).next
      let pair ← list_to_pair t.nodes list
      let t ← insert_to_bucket t (pair.hash % new_size) list
      rehashFrom new_size fuel next t

/-- `hashtable_do_rehash`. -/
def hashtable_do_rehash (t : Hashtable V) : Except Fault (Hashtable V) := do
  let t := { t with num_buckets := t.num_buckets + 1 }
  let new_size ← num_buckets t
  let t := { t with buckets := List.replicate new_size ⟨t.list, t.list⟩ }
  let list := (← t.nodes.load (Ptr.ofBlock t.list)).next
  let nodes ← Circle.init t.nodes t.list
  rehashFrom new_size (t.nodes.cells.length + 1) list { t with nodes := nodes }

/-- `hashtable_init`. -/
def hashtable_init (V : Type) : Except Fault (Hashtable V) := do
  let t : Hashtable V := ⟨0, [], 0, 0, ⟨[some ⟨0, 0, none⟩]⟩⟩
  let n ← num_buckets t
  let nodes ← Circle.init t.nodes t.list
  return { t with nodes := nodes, buckets := List.replicate n ⟨t.list, t.list⟩ }

/-- The start of `hashtable_set`: there is room for one more pair. -/
def ensureRoom (t : Hashtable V) : Except Fault (Hashtable V) := do
  if t.size ≥ (← num_buckets t) then hashtable_do_rehash t else return t

/-- `hashtable_set`. -/
def hashtable_set (t : Hashtable V) (key : String) (serial : ℕ) (value : V) :
    Traced V Fault (Hashtable V) := do
  let t ← ensureRoom t
  let hash := hash_str key
  let index := hash % (← num_buckets t)
  let bucket ← elementAt t.buckets index
  match ← hashtable_find_pair t bucket key hash with
  | some list =>
    let pair ← list_to_pair t.nodes list
    .emit pair.value
    let nodes ← t.nodes.modify (Ptr.ofBlock list) fun c =>
      { c with data := some { pair with value := value } }
    return { t with nodes := nodes }
  | none =>
    let list := t.nodes.cells.length
    let nodes := (t.nodes.malloc ⟨0, 0, some ⟨hash, serial, key, value⟩⟩).2
    let nodes ← Circle.init nodes list
    let t ← insert_to_bucket { t with nodes := nodes } index list
    return { t with size := t.size + 1 }

/-- The pair that `hashtable_get` and `hashtable_iter_at` look for. -/
def hashtable_iter_at (t : Hashtable V) (key : String) : Except Fault (Option ℕ) := do
  let hash := hash_str key
  let bucket ← elementAt t.buckets (hash % (← num_buckets t))
  hashtable_find_pair t bucket key hash

def hashtable_get (t : Hashtable V) (key : String) : Except Fault (Option V) := do
  match ← hashtable_iter_at t key with
  | none => return none
  | some list => return some (← list_to_pair t.nodes list).value

def hashtable_del (t : Hashtable V) (key : String) : Traced V Fault (ℤ × Hashtable V) :=
  hashtable_do_del t key (hash_str key)

/-- `hashtable_clear`. -/
def hashtable_clear (t : Hashtable V) : Traced V Fault (Hashtable V) := do
  let t ← hashtable_do_clear t
  let n ← num_buckets t
  let nodes ← Circle.init t.nodes t.list
  return { t with nodes := nodes, buckets := List.replicate n ⟨t.list, t.list⟩, size := 0 }

def hashtable_iter_next (t : Hashtable V) (iter : ℕ) : Except Fault (Option ℕ) := do
  let next := (← t.nodes.load (Ptr.ofBlock iter)).next
  return if next = t.list then none else some next

def hashtable_iter (t : Hashtable V) : Except Fault (Option ℕ) := hashtable_iter_next t t.list

/-- What a loop sees that starts at an iterator and goes on to the next one. -/
def iterateFrom (t : Hashtable V) : ℕ → Option ℕ → Except Fault (List (Pair V))
  | _, none => .ok []
  | 0, some _ => .error .diverges
  | fuel + 1, some iter => do
    let pair ← list_to_pair t.nodes iter
    let pairs ← iterateFrom t fuel (← hashtable_iter_next t iter)
    return pair :: pairs

/-- `while(iter) { …; iter = hashtable_iter_next(hashtable, iter); }` -/
def iterate (t : Hashtable V) : Except Fault (List (Pair V)) := do
  iterateFrom t t.nodes.cells.length (← hashtable_iter t)

/-! ## Objects -/

/-- `json_object_t`. -/
structure ObjectTable (V : Type) where
  serial : ℕ
  hashtable : Hashtable V
deriving DecidableEq, Repr

def json_object (V : Type) : Except Fault (ObjectTable V) := do
  return ⟨0, ← hashtable_init V⟩

namespace ObjectTable

def json_object_size (o : ObjectTable V) : ℕ := o.hashtable.size

def json_object_get (o : ObjectTable V) (key : String) : Except Fault (Option V) :=
  hashtable_get o.hashtable key

/-- `json_object_set_new_nocheck`, for a value that is not the object. -/
def json_object_set_new_nocheck (o : ObjectTable V) (key : String) (value : V) :
    Traced V Fault (ObjectTable V) := do
  let t ← hashtable_set o.hashtable key o.serial value
  return ⟨o.serial + 1, t⟩

def json_object_del (o : ObjectTable V) (key : String) : Traced V Fault (ℤ × ObjectTable V) := do
  let (result, t) ← hashtable_del o.hashtable key
  return (result, { o with hashtable := t })

def json_object_clear (o : ObjectTable V) : Traced V Fault (ObjectTable V) := do
  let t ← hashtable_clear o.hashtable
  return ⟨0, t⟩

end ObjectTable

end Headcrab
