/-
# The writer on cells

`json_dumps` does not get a tree but cells that refer to each other, and a program can make
a value a part of itself.  An array or object therefore carries a mark, `visited`, while it
is being written: to meet the mark is to fail, and the mark is cleared on every way out.  No
other code looks at the marks, so they are kept beside the cells.

The pairs of an object come out of its hash table, in the order in which the table has them, or
sorted.  The cells of the other files list the pairs in the order in which their keys were set;
here every object has its table as well (`TablesStand`), and `listed` are the cells with the pairs
in the order in which they are written.

This file is `do_dump` on cells.  It returns, whatever the cells refer to
(`returns_do_dump`); where a cell stands for a tree it does what the writer of `Dump` does
on the tree (`writesAs_do_dump`); and where it stands for none, it fails.  Whatever came of a
call, no mark is left (`do_dump_cells`), so that what is written does not depend on what was
written before.
-/
import Headcrab.Lib.Ownership
import Headcrab.ObjectMap
import Headcrab.Roundtrip
import Headcrab.SendFailures

namespace Headcrab

namespace JsonHeap

open RefCount (Counted)

/-- The cells whose `visited` is set. -/
abbrev Visited : Type := Finset ℕ

/-- A call of the writer on cells: it hands bytes to the callback, sets and clears marks, and
returns 0 or -1, or runs into a fault. -/
abbrev HeapDump (α : Type) : Type := ExceptT Unit (StateT Visited (Traced UInt8 Fault)) α

/-- What is written without a look at the marks. -/
def writes (x : Dump Unit) : HeapDump Unit := fun visited => ⟨x.trace, .ok (x.result, visited)⟩

/-- The hash tables of the objects, each at the block of its object. -/
abbrev Tables : Type := ℕ → ObjectTable JsonPtr

/-- The value of a cell; the pairs of an object are taken out of its table. -/
def valueOf (tables : Tables) (flags : ℕ) (j : JsonHeap) (b : ℕ) : HeapDump JsonValue := do
  match (← liftM (j.load (Ptr.ofBlock b))).value with
  | .object _ => return .object (← liftM ((tables b).inDumpOrder flags))
  | value => return value

/-- The detection of circular references, around what is written of an array or an object
before the bracket that ends it. -/
def marked (b : ℕ) (body : HeapDump Unit) (close : List UInt8) : HeapDump Unit := do
  if b ∈ (← get) then
    modify (·.erase b)
    throw ()
  else
    modify (insert b)
    tryCatch body fun _ => do
      modify (·.erase b)
      throw ()
    modify (·.erase b)
    writes (dump close)

section

variable (snprintf_17g : UInt64 → List UInt8) (tables : Tables) (j : JsonHeap)

/-- The loop over the values of an array; `dumpValue` is the call of `do_dump`. -/
def dumpItems (dumpValue : JsonPtr → HeapDump Unit) (flags depth : ℕ) :
    List JsonPtr → HeapDump Unit
  | [] => pure ()
  | value :: items => do
    dumpValue value
    if items.isEmpty then writes (dump_indent flags depth false)
    else
      writes (dump (ascii ","))
      writes (dump_indent flags (depth + 1) true)
    dumpItems dumpValue flags depth items

/-- The loop over the pairs of an object. -/
def dumpPairs (dumpValue : JsonPtr → HeapDump Unit) (flags depth : ℕ) :
    List (String × JsonPtr) → HeapDump Unit
  | [] => pure ()
  | (key, value) :: pairs => do
    writes (unchecked (dump_string flags (utf8Bytes key.toList)))
    writes (dump (ascii (if hasFlag flags JSON_COMPACT then ":" else ": ")))
    dumpValue value
    if pairs.isEmpty then writes (dump_indent flags depth false)
    else
      writes (dump (ascii ","))
      writes (dump_indent flags (depth + 1) true)
    dumpPairs dumpValue flags depth pairs

/-- `do_dump`. -/
def do_dump (flags : ℕ) : ℕ → ℕ → JsonPtr → HeapDump Unit
  | 0, _, _ => liftM (Except.error Fault.diverges : Except Fault Unit)
  | _ + 1, _, .the_null => writes (dump (ascii "null"))
  | _ + 1, _, .the_true => writes (dump (ascii "true"))
  | _ + 1, _, .the_false => writes (dump (ascii "false"))
  | fuel + 1, depth, .cell b => do
    match ← valueOf tables flags j b with
    | .integer value => writes (dump (ascii (toString value)))
    | .real value =>
      match jsonp_dtostr snprintf_17g MAX_REAL_STR_LENGTH value with
      | none => throw ()
      | some buffer => writes (dump buffer)
    | .string value => writes (dump_string flags (utf8Bytes value.toList))
    | .array items => marked b (do
        writes (dump (ascii "["))
        if !items.isEmpty then
          writes (dump_indent flags (depth + 1) false)
          dumpItems (do_dump flags fuel (depth + 1)) flags depth items) (ascii "]")
    | .object pairs => marked b (do
        writes (dump (ascii "\x7b"))
        if !pairs.isEmpty then
          writes (dump_indent flags (depth + 1) false)
          dumpPairs (do_dump flags fuel (depth + 1)) flags depth pairs) (ascii "\x7d")

/-- `json_dump_callback`.  There are no more nested calls than cells. -/
def json_dump_callback (flags : ℕ) (json : JsonPtr) : HeapDump Unit := do
  if !hasFlag flags JSON_ENCODE_ANY then
    if !(← liftM (j.json_is_array (some json))) && !(← liftM (j.json_is_object (some json))) then
      throw ()
  do_dump snprintf_17g tables j flags (j.cells.length + 1) 0 json

end

/-! ## Steps of the writer -/

section

variable {α β : Type} {visited visited' : Visited}

lemma bind_of_ok {x : HeapDump α} {a : α} (h : (x visited).result = .ok (.ok a, visited'))
    (f : α → HeapDump β) : (x >>= f) visited
      = ⟨(x visited).trace ++ (f a visited').trace, (f a visited').result⟩ :=
  Traced.bind_ok h _

lemma bind_of_error {x : HeapDump α} (h : (x visited).result = .ok (.error (), visited'))
    (f : α → HeapDump β) : (x >>= f) visited = ⟨(x visited).trace, .ok (.error (), visited')⟩ := by
  have hbind : (x >>= f) visited = ⟨(x visited).trace ++ [], .ok (.error (), visited')⟩ :=
    Traced.bind_ok h _
  rw [hbind, List.append_nil]

lemma tryCatch_of_ok {x : HeapDump α} {a : α} (h : (x visited).result = .ok (.ok a, visited'))
    (handler : Unit → HeapDump α) :
    (tryCatch x handler) visited = ⟨(x visited).trace, .ok (.ok a, visited')⟩ := by
  have hcatch : (tryCatch x handler) visited = ⟨(x visited).trace ++ [], .ok (.ok a, visited')⟩ :=
    Traced.bind_ok h _
  rw [hcatch, List.append_nil]

lemma tryCatch_of_error {x : HeapDump α} (h : (x visited).result = .ok (.error (), visited'))
    (handler : Unit → HeapDump α) : (tryCatch x handler) visited
      = ⟨(x visited).trace ++ (handler () visited').trace, (handler () visited').result⟩ :=
  Traced.bind_ok h _

variable {b : ℕ} {body : HeapDump Unit}

/-- A container that is being written already. -/
lemma marked_of_mem (h : b ∈ visited) (body : HeapDump Unit) (close : List UInt8) :
    marked b body close visited = ⟨[], .ok (.error (), visited.erase b)⟩ := by
  rw [marked, bind_of_ok (a := visited) rfl, if_pos h]
  rfl

lemma result_mark (b : ℕ) (visited : Visited) :
    ((modify (insert b) : HeapDump Unit) visited).result = .ok (.ok (), insert b visited) := rfl

/-- One that is not, and can be written. -/
lemma marked_of_ok (h : b ∉ visited)
    (hbody : (body (insert b visited)).result = .ok (.ok (), visited')) (close : List UInt8) :
    marked b body close visited
      = ⟨(body (insert b visited)).trace ++ close, .ok (.ok (), visited'.erase b)⟩ := by
  have hcatch := tryCatch_of_ok hbody fun _ => do
    modify (·.erase b)
    throw ()
  rw [marked, bind_of_ok (a := visited) rfl, if_neg h, bind_of_ok (result_mark b visited),
    bind_of_ok (congrArg Traced.result hcatch), hcatch]
  rfl

/-- One that is not, and cannot be written. -/
lemma marked_of_error (h : b ∉ visited)
    (hbody : (body (insert b visited)).result = .ok (.error (), visited')) (close : List UInt8) :
    marked b body close visited
      = ⟨(body (insert b visited)).trace, .ok (.error (), visited'.erase b)⟩ := by
  have hcatch : (tryCatch body fun _ => do
      modify (·.erase b)
      throw () : HeapDump Unit) (insert b visited)
        = ⟨(body (insert b visited)).trace ++ [], .ok (.error (), visited'.erase b)⟩ := by
    rw [tryCatch_of_error hbody]
    rfl
  rw [List.append_nil] at hcatch
  rw [marked, bind_of_ok (a := visited) rfl, if_neg h, bind_of_ok (result_mark b visited),
    bind_of_error (congrArg Traced.result hcatch), hcatch]
  rfl

end

/-! ## Cells with their pairs in the order in which they are written -/

/-- The table of every object has the pairs of the object. -/
def TablesStand (tables : Tables) (j : JsonHeap) : Prop :=
  ∀ b n pairs, j.Live b ⟨n, .object pairs⟩ → Stands (tables b) pairs

/-- The value of a cell as it is written. -/
def listedValue (tables : Tables) (flags b : ℕ) : JsonValue → JsonValue
  | .object pairs => .object (((tables b).inDumpOrder flags).toOption.getD pairs)
  | value => value

/-- The cells, with the pairs of every object in the order in which they are written. -/
def listed (tables : Tables) (flags : ℕ) (j : JsonHeap) : JsonHeap :=
  ⟨j.cells.mapIdx fun b c => c.map fun c => ⟨c.count, listedValue tables flags b c.value⟩⟩

section

variable {tables : Tables} {flags : ℕ} {j : JsonHeap}

lemma length_listed : (listed tables flags j).cells.length = j.cells.length :=
  List.length_mapIdx ..

lemma live_listed_iff {b n : ℕ} {value : JsonValue} :
    (listed tables flags j).Live b ⟨n, value⟩ ↔
      ∃ value', j.Live b ⟨n, value'⟩ ∧ listedValue tables flags b value' = value := by
  rw [Store.Live, listed, List.getElem?_mapIdx]
  constructor
  · intro h
    obtain ⟨o, ho, hmap⟩ := Option.map_eq_some_iff.mp h
    obtain ⟨⟨n', value'⟩, rfl, heq⟩ := Option.map_eq_some_iff.mp hmap
    obtain ⟨rfl, hvalue⟩ := RcCell.mk.inj heq
    exact ⟨value', ho, hvalue⟩
  · rintro ⟨value', hlive, rfl⟩
    rw [show j.cells[b]? = some (some ⟨n, value'⟩) from hlive]
    rfl

/-- The pairs of an object are in its table. -/
lemma TablesStand.exists_pairs (h : TablesStand tables j) {b n : ℕ}
    {pairs : List (String × JsonPtr)} (hb : j.Live b ⟨n, .object pairs⟩) (flags : ℕ) :
    ∃ seen, (tables b).inDumpOrder flags = .ok seen ∧ seen.Perm pairs ∧
      listedValue tables flags b (.object pairs) = .object seen := by
  obtain ⟨seen, hseen, hperm, -⟩ := (h b n pairs hb).inDumpOrder flags
  refine ⟨seen, hseen, hperm, ?_⟩
  rw [listedValue, hseen]
  rfl

lemma children_listedValue (h : TablesStand tables j) {b n : ℕ} {value : JsonValue}
    (hb : j.Live b ⟨n, value⟩) :
    (Refers.children (listedValue tables flags b value)).Perm (Refers.children value) := by
  cases value with
  | object pairs =>
    obtain ⟨seen, -, hperm, hvalue⟩ := h.exists_pairs hb flags
    rw [hvalue]
    exact hperm.flatMap_right fieldRefs
  | array _ | string _ | integer _ | real _ => exact List.Perm.refl _

/-- With `JSON_PRESERVE_ORDER` the pairs are written in the order in which they are listed. -/
lemma listed_of_preserveOrder (h : TablesStand tables j)
    (hsort : hasFlag flags JSON_SORT_KEYS = false)
    (horder : hasFlag flags JSON_PRESERVE_ORDER = true) : listed tables flags j = j := by
  have hcells : ∀ b : ℕ, (listed tables flags j).cells[b]? = j.cells[b]? := by
    intro b
    rw [listed, List.getElem?_mapIdx]
    rcases hb : j.cells[b]? with _ | _ | ⟨n, value⟩
    · rfl
    · rfl
    · rw [Option.map_some, Option.map_some]
      cases value with
      | object pairs =>
        obtain ⟨seen, hseen, -, -, hsame⟩ := (h b n pairs hb).inDumpOrder flags
        rw [listedValue, hseen, hsame hsort horder]
        rfl
      | array _ | string _ | integer _ | real _ => rfl
  exact congrArg Store.mk (List.ext_getElem? hcells)

/-- No reference of a cell leads nowhere. -/
def Closed (j : JsonHeap) : Prop :=
  ∀ b c, j.Live b c → ∀ x ∈ Refers.children c.value, ∃ c', j.Live x c'

lemma exists_live_listed {b : ℕ} (hb : ∃ c, j.Live b c) :
    ∃ c, (listed tables flags j).Live b c := by
  obtain ⟨⟨n, value⟩, hb⟩ := hb
  exact ⟨⟨n, _⟩, live_listed_iff.mpr ⟨value, hb, rfl⟩⟩

lemma closed_listed {R : List ℕ} (h : Counted j R) (htables : TablesStand tables j) :
    Closed (listed tables flags j) := by
  rintro b ⟨n, value⟩ hb x hx
  obtain ⟨value', hb', rfl⟩ := live_listed_iff.mp hb
  exact exists_live_listed (h.live_child hb' ((children_listedValue htables hb').subset hx))

lemma valueOf_bind {α : Type} (h : TablesStand tables j) {b : ℕ} {c : RcCell JsonValue}
    (hb : (listed tables flags j).Live b c) (f : JsonValue → HeapDump α) (visited : Visited) :
    (valueOf tables flags j b >>= f) visited = f c.value visited := by
  obtain ⟨n, value⟩ := c
  obtain ⟨value', hb', rfl⟩ := live_listed_iff.mp hb
  have hvalue : valueOf tables flags j b visited
      = ⟨[], .ok (.ok (listedValue tables flags b value'), visited)⟩ := by
    rw [valueOf, hb'.load]
    cases value' with
    | object pairs =>
      obtain ⟨seen, hseen, -, heq⟩ := h.exists_pairs hb' flags
      rw [heq, hseen]
      rfl
    | array _ | string _ | integer _ | real _ => rfl
  rw [bind_of_ok (by rw [hvalue]), hvalue]
  rfl

end

section

variable {visited visited' : Visited} {b : ℕ} {body : HeapDump Unit}

/-! ## A call returns -/

/-- Made with the marks `visited`, the call returns.  If it fails there are no more marks than
before, and otherwise the same, and `Q` holds. -/
def Returns (visited : Visited) (Q : Prop) (x : HeapDump Unit) : Prop :=
  ∃ r visited', (x visited).result = .ok (r, visited') ∧ visited' ⊆ visited ∧
    (r = .ok () → visited' = visited ∧ Q)

variable {P Q : Prop} {x : HeapDump Unit}

lemma Returns.writes (visited : Visited) (x : Dump Unit) : Returns visited True (writes x) :=
  ⟨x.result, visited, rfl, Finset.Subset.refl _, fun _ => ⟨rfl, trivial⟩⟩

lemma Returns.pure (h : Q) : Returns visited Q (Pure.pure ()) :=
  ⟨.ok (), visited, rfl, Finset.Subset.refl _, fun _ => ⟨rfl, h⟩⟩

lemma Returns.throw : Returns visited Q (throw ()) :=
  ⟨.error (), visited, rfl, Finset.Subset.refl _, fun h => absurd h (by simp)⟩

lemma Returns.mono (h : Returns visited P x) (hPQ : P → Q) : Returns visited Q x := by
  obtain ⟨r, visited', hx, hsub, hok⟩ := h
  exact ⟨r, visited', hx, hsub, fun hr => (hok hr).imp_right hPQ⟩

lemma Returns.bind (h : Returns visited P x) {f : Unit → HeapDump Unit}
    (hf : P → Returns visited Q (f ())) : Returns visited Q (x >>= f) := by
  obtain ⟨r, visited', hx, hsub, hok⟩ := h
  rcases r with ⟨⟩ | ⟨⟩
  · rw [Returns, bind_of_error hx]
    exact ⟨.error (), visited', rfl, hsub, fun h => absurd h (by simp)⟩
  · obtain ⟨rfl, hP⟩ := hok rfl
    rw [Returns, bind_of_ok hx]
    exact hf hP

/-- What comes first does not matter. -/
lemma Returns.writes_bind (y : Dump Unit) {f : Unit → HeapDump Unit}
    (hf : Returns visited Q (f ())) : Returns visited Q (JsonHeap.writes y >>= f) :=
  (Returns.writes visited y).bind fun _ => hf

/-- Whether the mark is met or not, it is cleared. -/
lemma Returns.marked (close : List UInt8)
    (h : b ∉ visited → Returns (insert b visited) Q body) :
    Returns visited Q (marked b body close) := by
  by_cases hb : b ∈ visited
  · rw [Returns, marked_of_mem hb]
    exact ⟨.error (), _, rfl, Finset.erase_subset b visited, fun h => absurd h (by simp)⟩
  · obtain ⟨r, visited', hbody, hsub, hok⟩ := h hb
    rcases r with ⟨⟩ | ⟨⟩
    · rw [Returns, marked_of_error hb hbody]
      refine ⟨.error (), _, rfl, ?_, fun h => absurd h (by simp)⟩
      exact (Finset.erase_subset_erase b hsub).trans (Finset.erase_insert hb).subset
    · obtain ⟨rfl, hQ⟩ := hok rfl
      rw [Returns, marked_of_ok hb hbody, Finset.erase_insert hb]
      exact ⟨.ok (), visited, rfl, Finset.Subset.refl _, fun _ => ⟨rfl, hQ⟩⟩

section

variable {snprintf_17g : UInt64 → List UInt8} {j : JsonHeap} {flags : ℕ}
  {dumpValue : JsonPtr → HeapDump Unit}

lemma returns_dumpItems (depth : ℕ) {items : List JsonPtr}
    (h : ∀ q ∈ items, Returns visited (∃ v, Denotes j q v) (dumpValue q)) :
    Returns visited (∃ values, List.Forall₂ (Denotes j) items values)
      (dumpItems dumpValue flags depth items) := by
  induction items with
  | nil => exact .pure ⟨[], .nil⟩
  | cons q items ih =>
    obtain ⟨hq, hitems⟩ := List.forall_mem_cons.mp h
    rw [dumpItems]
    refine hq.bind fun hvalue => ?_
    obtain ⟨v, hv⟩ := hvalue
    have hrest : Returns visited (∃ values, List.Forall₂ (Denotes j) (q :: items) values)
        (dumpItems dumpValue flags depth items) :=
      (ih hitems).mono fun ⟨values, hvalues⟩ => ⟨v :: values, .cons hv hvalues⟩
    split
    · exact hrest.writes_bind _
    · exact (hrest.writes_bind _).writes_bind _

lemma returns_dumpPairs (depth : ℕ) {pairs : List (String × JsonPtr)}
    (h : ∀ q ∈ pairs.map Prod.snd, Returns visited (∃ v, Denotes j q v) (dumpValue q)) :
    Returns visited (∃ fields : List (String × Json), pairs.map Prod.fst = fields.map Prod.fst ∧
        List.Forall₂ (Denotes j) (pairs.map Prod.snd) (fields.map Prod.snd))
      (dumpPairs dumpValue flags depth pairs) := by
  induction pairs with
  | nil => exact .pure ⟨[], rfl, .nil⟩
  | cons f pairs ih =>
    obtain ⟨key, q⟩ := f
    obtain ⟨hq, hpairs⟩ := List.forall_mem_cons.mp h
    rw [dumpPairs]
    refine Returns.writes_bind _ (Returns.writes_bind _ (hq.bind fun hvalue => ?_))
    obtain ⟨v, hv⟩ := hvalue
    have hrest : Returns visited (∃ fields : List (String × Json),
        ((key, q) :: pairs).map Prod.fst = fields.map Prod.fst ∧
        List.Forall₂ (Denotes j) (((key, q) :: pairs).map Prod.snd) (fields.map Prod.snd))
        (dumpPairs dumpValue flags depth pairs) :=
      (ih hpairs).mono fun ⟨fields, hkeys, hvalues⟩ =>
        ⟨(key, v) :: fields, congrArg (key :: ·) hkeys, .cons hv hvalues⟩
    split
    · exact hrest.writes_bind _
    · exact (hrest.writes_bind _).writes_bind _

lemma mem_children_of_mem_items {items : List JsonPtr} {q : JsonPtr} (h : q ∈ items) {x : ℕ}
    (hx : x ∈ q.refs) : x ∈ Refers.children (JsonValue.array items) :=
  List.mem_flatMap.mpr ⟨q, h, hx⟩

lemma mem_children_of_mem_pairs {pairs : List (String × JsonPtr)} {q : JsonPtr}
    (h : q ∈ pairs.map Prod.snd) {x : ℕ} (hx : x ∈ q.refs) :
    x ∈ Refers.children (JsonValue.object pairs) := by
  obtain ⟨f, hf, rfl⟩ := List.mem_map.mp h
  exact List.mem_flatMap.mpr ⟨f, hf, hx⟩

variable {tables : Tables}

/-- **A call returns, whatever refers to whatever.**  Every nested call marks one more cell, so
the cells that are not marked bound the nesting. -/
lemma returns_do_dump (htables : TablesStand tables j) (hclosed : Closed (listed tables flags j))
    (fuel depth : ℕ) (visited : Visited) (p : JsonPtr)
    (hp : ∀ b ∈ p.refs, ∃ c, (listed tables flags j).Live b c)
    (hvisited : ∀ b ∈ visited, b < j.cells.length)
    (hfuel : j.cells.length < visited.card + fuel) :
    Returns visited (∃ v, Denotes (listed tables flags j) p v)
      (do_dump snprintf_17g tables j flags fuel depth p) := by
  induction fuel generalizing depth visited p with
  | zero =>
    have hcard := Finset.card_le_card fun b hb => Finset.mem_range.mpr (hvisited b hb)
    rw [Finset.card_range] at hcard
    omega
  | succ fuel ih =>
    cases p with
    | the_null => exact (Returns.writes visited _).mono fun _ => ⟨_, .the_null⟩
    | the_true => exact (Returns.writes visited _).mono fun _ => ⟨_, .the_true⟩
    | the_false => exact (Returns.writes visited _).mono fun _ => ⟨_, .the_false⟩
    | cell b =>
      obtain ⟨⟨n, value⟩, hb⟩ := hp b (List.mem_singleton_self b)
      rw [Returns, do_dump, valueOf_bind htables hb]
      -- the calls for what the cell holds
      have hcalls : b ∉ visited → ∀ q : JsonPtr, (∀ x ∈ q.refs, x ∈ Refers.children value) →
          Returns (insert b visited) (∃ v, Denotes (listed tables flags j) q v)
            (do_dump snprintf_17g tables j flags fuel (depth + 1) q) := by
        intro hnew q hq
        refine ih (depth + 1) (insert b visited) q (fun x hx => hclosed b _ hb x (hq x hx)) ?_ ?_
        · intro x hx
          rcases Finset.mem_insert.mp hx with rfl | hx
          · exact length_listed ▸ hb.lt_length
          · exact hvisited x hx
        · rw [Finset.card_insert_of_notMem hnew]
          omega
      cases value with
      | integer value => exact (Returns.writes visited _).mono fun _ => ⟨_, .integer hb⟩
      | string value => exact (Returns.writes visited _).mono fun _ => ⟨_, .string hb⟩
      | real value =>
        simp only
        rcases jsonp_dtostr snprintf_17g MAX_REAL_STR_LENGTH value with _ | buffer
        · exact Returns.throw
        · exact (Returns.writes visited _).mono fun _ => ⟨_, .real hb⟩
      | array items =>
        refine Returns.marked _ fun hnew => Returns.writes_bind _ ?_
        split
        · refine Returns.writes_bind _ ((returns_dumpItems depth fun q hq =>
            hcalls hnew q fun x => mem_children_of_mem_items hq).mono ?_)
          rintro ⟨values, hvalues⟩
          exact ⟨_, .array hb hvalues⟩
        · rename_i hempty
          obtain rfl : items = [] := by simpa using hempty
          exact .pure ⟨_, .array hb .nil⟩
      | object pairs =>
        refine Returns.marked _ fun hnew => Returns.writes_bind _ ?_
        split
        · refine Returns.writes_bind _ ((returns_dumpPairs depth fun q hq =>
            hcalls hnew q fun x => mem_children_of_mem_pairs hq).mono ?_)
          rintro ⟨fields, hkeys, hvalues⟩
          exact ⟨_, .object hb hkeys hvalues⟩
        · rename_i hempty
          obtain rfl : pairs = [] := by simpa using hempty
          exact .pure ⟨.object [], .object hb rfl .nil⟩

end

end

/-! ## Where the cells stand for a tree -/

section

variable {j : JsonHeap}

/-- What a cell with the value stands for. -/
def StandsFor (j : JsonHeap) : JsonValue → Json → Prop
  | .string value, v => v = .string value
  | .integer value, v => v = .integer value
  | .real bits, v => v = .real bits
  | .array items, v => ∃ values, v = .array values ∧ List.Forall₂ (Denotes j) items values
  | .object pairs, v => ∃ fields, v = .object fields ∧
      pairs.map Prod.fst = fields.map Prod.fst ∧
      List.Forall₂ (Denotes j) (pairs.map Prod.snd) (fields.map Prod.snd)

lemma Denotes.standsFor {b : ℕ} {c : RcCell JsonValue} {v : Json} (h : Denotes j (.cell b) v)
    (hb : j.Live b c) : StandsFor j c.value v := by
  cases h with
  | string hb' | integer hb' | real hb' =>
    obtain rfl := hb.inj hb'
    rfl
  | array hb' hitems =>
    obtain rfl := hb.inj hb'
    exact ⟨_, rfl, hitems⟩
  | object hb' hkeys hvalues =>
    obtain rfl := hb.inj hb'
    exact ⟨_, rfl, hkeys, hvalues⟩

lemma StandsFor.denotes {b : ℕ} {c : RcCell JsonValue} {v : Json} (h : StandsFor j c.value v)
    (hb : j.Live b c) : Denotes j (.cell b) v := by
  obtain ⟨n, value⟩ := c
  cases value with
  | string value =>
    obtain rfl := h
    exact .string hb
  | integer value =>
    obtain rfl := h
    exact .integer hb
  | real bits =>
    obtain rfl := h
    exact .real hb
  | array items =>
    obtain ⟨values, rfl, hitems⟩ := h
    exact .array hb hitems
  | object pairs =>
    obtain ⟨fields, rfl, hkeys, hvalues⟩ := h
    exact .object hb hkeys hvalues

lemma Denotes.live {b : ℕ} {v : Json} (h : Denotes j (.cell b) v) : ∃ c, j.Live b c := by
  cases h with
  | string hb | integer hb | real hb | array hb _ | object hb _ _ => exact ⟨_, hb⟩

/-- Values that are smaller than the array, or the object. -/
lemma sizeOf_lt_array {u : Json} {values : List Json} (h : u ∈ values) :
    sizeOf u < sizeOf (Json.array values) := by
  have hlt := List.sizeOf_lt_of_mem h
  rw [Json.array.sizeOf_spec]
  omega

lemma sizeOf_lt_object {u : Json} {fields : List (String × Json)} (h : u ∈ fields.map Prod.snd) :
    sizeOf u < sizeOf (Json.object fields) := by
  obtain ⟨⟨key, w⟩, hmem, rfl⟩ := List.mem_map.mp h
  have hlt := List.sizeOf_lt_of_mem hmem
  rw [Prod.mk.sizeOf_spec] at hlt
  rw [Json.object.sizeOf_spec]
  show sizeOf w < _
  omega

lemma forall₂_unique {ps : List JsonPtr} {vs ws : List Json}
    (hunique : ∀ v ∈ vs, ∀ {p w}, Denotes j p v → Denotes j p w → v = w)
    (hvs : List.Forall₂ (Denotes j) ps vs) (hws : List.Forall₂ (Denotes j) ps ws) : vs = ws := by
  induction hvs generalizing ws with
  | nil =>
    cases hws
    rfl
  | cons hv hvs ih =>
    cases hws with
    | cons hw hws =>
      obtain ⟨hhead, htail⟩ := List.forall_mem_cons.mp hunique
      rw [hhead hv hw, ih htail hws]

/-- A pointer stands for one value only. -/
lemma Denotes.unique {p : JsonPtr} {v w : Json} (hv : Denotes j p v) (hw : Denotes j p w) :
    v = w := by
  induction hn : sizeOf v using Nat.strongRecOn generalizing p v w with
  | _ n ih =>
    subst hn
    cases p with
    | the_true | the_false | the_null =>
      cases hv
      cases hw
      rfl
    | cell b =>
      obtain ⟨⟨n, value⟩, hb⟩ := hv.live
      have hv := hv.standsFor hb
      have hw := hw.standsFor hb
      cases value with
      | string _ | integer _ | real _ => exact Eq.trans hv hw.symm
      | array items =>
        obtain ⟨values, rfl, hvalues⟩ := hv
        obtain ⟨values', rfl, hvalues'⟩ := hw
        rw [forall₂_unique (fun v hv _ _ h h' => ih _ (sizeOf_lt_array hv) h h' rfl) hvalues
          hvalues']
      | object pairs =>
        obtain ⟨fields, rfl, hkeys, hvalues⟩ := hv
        obtain ⟨fields', rfl, hkeys', hvalues'⟩ := hw
        have hsnd := forall₂_unique (fun v hv _ _ h h' => ih _ (sizeOf_lt_object hv) h h' rfl)
          hvalues hvalues'
        have hfields : fields = fields' := by
          rw [← List.zip_unzip fields, ← List.zip_unzip fields', List.unzip_eq_map,
            List.unzip_eq_map, ← hkeys, hkeys', hsnd]
        rw [hfields]

end

/-- Made with the marks `visited`, the call does what `y` does, and leaves them as they are. -/
def WritesAs (visited : Visited) (x : HeapDump Unit) (y : Dump Unit) : Prop :=
  x visited = writes y visited

section

variable {y : Dump Unit}

lemma WritesAs.bind (h : WritesAs visited x y) {f : Unit → HeapDump Unit} {g : Unit → Dump Unit}
    (hfg : WritesAs visited (f ()) (g ())) : WritesAs visited (x >>= f) (y >>= g) := by
  have hx : (x visited).result = .ok (y.result, visited) := congrArg Traced.result h
  rw [WritesAs, writes] at h ⊢
  rcases hy : y.result with ⟨⟩ | ⟨⟩
  · rw [hy] at hx
    rw [bind_of_error hx, h, Traced.bind_error hy]
  · rw [hy] at hx
    rw [bind_of_ok hx, h, Traced.bind_ok hy, hfg]
    rfl

lemma WritesAs.writes_bind (y : Dump Unit) {f : Unit → HeapDump Unit} {g : Unit → Dump Unit}
    (hfg : WritesAs visited (f ()) (g ())) :
    WritesAs visited (writes y >>= f) (y >>= g) :=
  WritesAs.bind rfl hfg

lemma WritesAs.marked (hb : b ∉ visited) (close : List UInt8)
    (h : WritesAs (insert b visited) body y) :
    WritesAs visited (marked b body close) (y >>= fun _ => dump close) := by
  have hbody : (body (insert b visited)).result = .ok (y.result, insert b visited) :=
    congrArg Traced.result h
  rw [WritesAs, writes] at h ⊢
  rcases hy : y.result with ⟨⟩ | ⟨⟩
  · rw [hy] at hbody
    rw [marked_of_error hb hbody, h, Traced.bind_error hy, Finset.erase_insert hb]
  · rw [hy] at hbody
    rw [marked_of_ok hb hbody, h, Traced.bind_ok hy, Finset.erase_insert hb]
    rfl

variable {snprintf_17g : UInt64 → List UInt8} {j : JsonHeap} {flags : ℕ}
  {dumpValue : JsonPtr → HeapDump Unit}

lemma isEmpty_eq_of_forall₂ {A B : Type} {r : A → B → Prop} {as : List A} {bs : List B}
    (h : List.Forall₂ r as bs) : as.isEmpty = bs.isEmpty := by
  cases h with
  | nil | cons _ _ => rfl

lemma forall₂_imp_of_mem {A B : Type} {r r' : A → B → Prop} {as : List A} {bs : List B}
    (h : List.Forall₂ r as bs) (himp : ∀ a ∈ as, ∀ b ∈ bs, r a b → r' a b) :
    List.Forall₂ r' as bs := by
  induction h with
  | nil => exact .nil
  | cons hab _ ih =>
    refine .cons (himp _ List.mem_cons_self _ List.mem_cons_self hab) (ih fun a ha b hb => ?_)
    exact himp a (List.mem_cons_of_mem _ ha) b (List.mem_cons_of_mem _ hb)

lemma writesAs_dumpItems (depth : ℕ) {items : List JsonPtr} {values : List Json}
    (h : List.Forall₂ (fun q v => WritesAs visited (dumpValue q)
      (Headcrab.do_dump snprintf_17g flags (depth + 1) v)) items values) :
    WritesAs visited (dumpItems dumpValue flags depth items)
      (Headcrab.dumpItems snprintf_17g flags depth values) := by
  induction h with
  | nil => rfl
  | @cons q v items values hq hitems ih =>
    rw [dumpItems, Headcrab.dumpItems]
    refine hq.bind ?_
    rw [isEmpty_eq_of_forall₂ hitems]
    split
    · exact WritesAs.writes_bind _ ih
    · exact WritesAs.writes_bind _ (WritesAs.writes_bind _ ih)

lemma writesAs_dumpPairs (depth : ℕ) {pairs : List (String × JsonPtr)}
    {fields : List (String × Json)} (hkeys : pairs.map Prod.fst = fields.map Prod.fst)
    (h : List.Forall₂ (fun q v => WritesAs visited (dumpValue q)
      (Headcrab.do_dump snprintf_17g flags (depth + 1) v)) (pairs.map Prod.snd)
      (fields.map Prod.snd)) :
    WritesAs visited (dumpPairs dumpValue flags depth pairs)
      (Headcrab.dumpPairs snprintf_17g flags depth fields) := by
  induction pairs generalizing fields with
  | nil =>
    obtain rfl : fields = [] := List.map_eq_nil_iff.mp hkeys.symm
    rfl
  | cons f pairs ih =>
    rcases fields with _ | ⟨⟨key, v⟩, fields⟩
    · exact absurd hkeys (by simp)
    · obtain ⟨key', q⟩ := f
      simp only [List.map_cons, List.cons.injEq, List.forall₂_cons] at hkeys h
      obtain ⟨rfl, hkeys⟩ := hkeys
      rw [dumpPairs, Headcrab.dumpPairs]
      refine WritesAs.writes_bind _ (WritesAs.writes_bind _ (h.1.bind ?_))
      have hempty : pairs.isEmpty = fields.isEmpty := by
        rw [← List.isEmpty_map (f := Prod.snd), isEmpty_eq_of_forall₂ h.2, List.isEmpty_map]
      rw [hempty]
      have hrest := ih hkeys h.2
      split
      · exact WritesAs.writes_bind _ hrest
      · exact WritesAs.writes_bind _ (WritesAs.writes_bind _ hrest)

/-- The writer on an array, with its last bracket taken out. -/
lemma do_dump_array_eq (depth : ℕ) (values : List Json) :
    Headcrab.do_dump snprintf_17g flags depth (.array values) = (do
        dump (ascii "[")
        if !values.isEmpty then
          dump_indent flags (depth + 1) false
          Headcrab.dumpItems snprintf_17g flags depth values) >>= fun _ => dump (ascii "]") := by
  rw [Headcrab.do_dump]
  rcases values with _ | ⟨v, values⟩ <;> simp

lemma do_dump_object_eq (depth : ℕ) (fields : List (String × Json)) :
    Headcrab.do_dump snprintf_17g flags depth (.object fields) = (do
        dump (ascii "\x7b")
        if !fields.isEmpty then
          dump_indent flags (depth + 1) false
          Headcrab.dumpPairs snprintf_17g flags depth fields) >>= fun _ =>
      dump (ascii "\x7d") := by
  rw [Headcrab.do_dump]
  rcases fields with _ | ⟨f, fields⟩ <;> simp

variable {tables : Tables} {i : JsonHeap} {p : JsonPtr} {v : Json}

/-- A cell that is marked stands for a larger value, or cannot be reached. -/
def Above (i : JsonHeap) (visited : Visited) (p : JsonPtr) (v : Json) : Prop :=
  ∀ b ∈ visited, ¬ RefCount.Reachable i p.refs b ∨ ∃ w, Denotes i (.cell b) w ∧ sizeOf v < sizeOf w

lemma Above.notMem {b : ℕ} (h : Above i visited (.cell b) v) (hb : Denotes i (.cell b) v) :
    b ∉ visited := by
  intro hmem
  rcases h b hmem with hnot | ⟨w, hw, hlt⟩
  · exact hnot (.root (List.mem_singleton_self b))
  · rw [hb.unique hw] at hlt
    omega

/-- What a cell refers to, once the cell is marked. -/
lemma Above.child {b : ℕ} {c : RcCell JsonValue} {q : JsonPtr} {u : Json}
    (h : Above i visited (.cell b) v) (hb : Denotes i (.cell b) v) (hlive : i.Live b c)
    (hq : ∀ x ∈ q.refs, x ∈ Refers.children c.value) (hlt : sizeOf u < sizeOf v) :
    Above i (insert b visited) q u := by
  intro x hx
  rcases Finset.mem_insert.mp hx with rfl | hx
  · exact Or.inr ⟨v, hb, hlt⟩
  · refine (h x hx).imp (fun hnot hreach => hnot (.of_children hlive hq hreach)) ?_
    rintro ⟨w, hw, hlt'⟩
    exact ⟨w, hw, Nat.lt_trans hlt hlt'⟩

/-- **Where a pointer stands for a tree, the writer does on cells what it does on the tree.**
The cells that are marked stand for larger values, or are none of the tree's, so no mark is
met. -/
lemma writesAs_do_dump (htables : TablesStand tables j) (fuel depth : ℕ) (visited : Visited)
    (hv : Denotes (listed tables flags j) p v) (habove : Above (listed tables flags j) visited p v)
    (hvisited : ∀ b ∈ visited, b < j.cells.length)
    (hfuel : j.cells.length < visited.card + fuel) :
    WritesAs visited (do_dump snprintf_17g tables j flags fuel depth p)
      (Headcrab.do_dump snprintf_17g flags depth v) := by
  induction fuel generalizing depth visited p v with
  | zero =>
    have hcard := Finset.card_le_card fun b hb => Finset.mem_range.mpr (hvisited b hb)
    rw [Finset.card_range] at hcard
    omega
  | succ fuel ih =>
    cases p with
    | the_null | the_true | the_false =>
      cases hv
      rw [do_dump, Headcrab.do_dump]
      rfl
    | cell b =>
      obtain ⟨⟨n, value⟩, hb⟩ := hv.live
      rw [WritesAs, do_dump, valueOf_bind htables hb]
      have hnew := habove.notMem hv
      -- the calls for what the cell holds
      have hcalls : ∀ {q u}, (∀ x ∈ q.refs, x ∈ Refers.children value) →
          Denotes (listed tables flags j) q u → sizeOf u < sizeOf v →
          WritesAs (insert b visited) (do_dump snprintf_17g tables j flags fuel (depth + 1) q)
            (Headcrab.do_dump snprintf_17g flags (depth + 1) u) := by
        intro q u hq hu hlt
        refine ih (depth + 1) (insert b visited) hu (habove.child hv hb hq hlt) ?_ ?_
        · intro x hx
          rcases Finset.mem_insert.mp hx with rfl | hx
          · exact length_listed ▸ hb.lt_length
          · exact hvisited x hx
        · rw [Finset.card_insert_of_notMem hnew]
          omega
      have hvalue := hv.standsFor hb
      cases value with
      | integer value | string value =>
        obtain rfl := hvalue
        rw [Headcrab.do_dump]
      | real value =>
        obtain rfl := hvalue
        rw [Headcrab.do_dump]
        simp only
        rcases jsonp_dtostr snprintf_17g MAX_REAL_STR_LENGTH value with _ | buffer <;> rfl
      | array items =>
        obtain ⟨values, rfl, hvalues⟩ := hvalue
        rw [do_dump_array_eq]
        refine WritesAs.marked hnew _ (WritesAs.writes_bind _ ?_)
        rw [isEmpty_eq_of_forall₂ hvalues]
        split
        · refine WritesAs.writes_bind _ (writesAs_dumpItems depth ?_)
          exact forall₂_imp_of_mem hvalues fun _ hq _ hu h =>
            hcalls (fun _ => mem_children_of_mem_items hq) h (sizeOf_lt_array hu)
        · rfl
      | object pairs =>
        obtain ⟨fields, rfl, hkeys, hvalues⟩ := hvalue
        rw [do_dump_object_eq]
        refine WritesAs.marked hnew _ (WritesAs.writes_bind _ ?_)
        have hempty : pairs.isEmpty = fields.isEmpty := by
          rw [← List.isEmpty_map (f := Prod.snd), isEmpty_eq_of_forall₂ hvalues, List.isEmpty_map]
        rw [hempty]
        split
        · refine WritesAs.writes_bind _ (writesAs_dumpPairs depth hkeys ?_)
          exact forall₂_imp_of_mem hvalues fun _ hq _ hu h =>
            hcalls (fun _ => mem_children_of_mem_pairs hq) h (sizeOf_lt_object hu)
        · rfl

end

/-! ## `json_dumps` on whatever there is -/

section

variable {snprintf_17g : UInt64 → List UInt8} {tables : Tables} {j : JsonHeap} {R : List ℕ}
  {flags : ℕ} {p : JsonPtr} {v : Json}

lemma do_dump_of_denotes (htables : TablesStand tables j)
    (h : Denotes (listed tables flags j) p v) :
    do_dump snprintf_17g tables j flags (j.cells.length + 1) 0 p ∅
      = writes (Headcrab.do_dump snprintf_17g flags 0 v) ∅ := by
  refine writesAs_do_dump htables _ 0 ∅ h (fun b hb => absurd hb (Finset.notMem_empty b))
    (fun b hb => absurd hb (Finset.notMem_empty b)) ?_
  rw [Finset.card_empty]
  omega

/-- The outermost call returns, and no mark is left; it does not fail exactly if the pointer
stands for a tree that can be written. -/
lemma do_dump_cells (snprintf_17g : UInt64 → List UInt8) (flags : ℕ) (h : Counted j R)
    (htables : TablesStand tables j) (hp : ∀ b ∈ p.refs, ∃ c, j.Live b c) :
    ∃ r, (do_dump snprintf_17g tables j flags (j.cells.length + 1) 0 p ∅).result = .ok (r, ∅) ∧
      (r = .ok () ↔ ∃ v, Denotes (listed tables flags j) p v ∧
        (Headcrab.do_dump snprintf_17g flags 0 v).result = .ok ()) := by
  have hreturns : Returns ∅ (∃ v, Denotes (listed tables flags j) p v)
      (do_dump snprintf_17g tables j flags (j.cells.length + 1) 0 p) := by
    refine returns_do_dump htables (closed_listed h htables) _ 0 ∅ p
      (fun b hb => exists_live_listed (hp b hb)) (fun b hb => absurd hb (Finset.notMem_empty b)) ?_
    rw [Finset.card_empty]
    omega
  obtain ⟨r, visited', hresult, hsub, hok⟩ := hreturns
  obtain rfl := Finset.subset_empty.mp hsub
  refine ⟨r, hresult, ⟨fun hr => ?_, ?_⟩⟩
  · obtain ⟨-, v, hv⟩ := hok hr
    refine ⟨v, hv, ?_⟩
    rw [do_dump_of_denotes htables hv, hr] at hresult
    exact congrArg Prod.fst (Except.ok.inj hresult)
  · rintro ⟨v, hv, hwritten⟩
    rw [do_dump_of_denotes htables hv] at hresult
    exact (congrArg Prod.fst (Except.ok.inj hresult)).symm.trans hwritten

/-- Whether a pointer is one to an array or to an object. -/
lemma exists_kind (tables : Tables) (flags : ℕ) (hp : ∀ b ∈ p.refs, ∃ c, j.Live b c) :
    ∃ a o, j.json_is_array (some p) = .ok a ∧ j.json_is_object (some p) = .ok o ∧
      ∀ v, Denotes (listed tables flags j) p v → isContainer v = (a || o) := by
  cases p with
  | the_true | the_false | the_null =>
    refine ⟨false, false, rfl, rfl, fun v hv => ?_⟩
    cases hv
    rfl
  | cell b =>
    obtain ⟨⟨n, value⟩, hb⟩ := hp b (List.mem_singleton_self b)
    refine ⟨_, _, json_is_array_of_live hb, json_is_object_of_live hb, fun v hv => ?_⟩
    have hvalue := hv.standsFor (live_listed_iff.mpr ⟨value, hb, rfl⟩)
    cases value with
    | string _ | integer _ | real _ =>
      obtain rfl := hvalue
      rfl
    | array _ | object _ =>
      obtain ⟨_, rfl, -⟩ := hvalue
      rfl

/-- The call makes that of `do_dump`, or fails at once. -/
lemma json_dump_callback_eq {a o : Bool} (ha : j.json_is_array (some p) = .ok a)
    (ho : j.json_is_object (some p) = .ok o) (visited : Visited) :
    json_dump_callback snprintf_17g tables j flags p visited
      = if !hasFlag flags JSON_ENCODE_ANY && !(a || o) then ⟨[], .ok (.error (), visited)⟩
        else do_dump snprintf_17g tables j flags (j.cells.length + 1) 0 p visited := by
  rw [json_dump_callback, ha, ho]
  cases hasFlag flags JSON_ENCODE_ANY <;> cases a <;> cases o <;> rfl

lemma json_dumps_eq_some_iff
    (hkind : ¬ (!hasFlag flags JSON_ENCODE_ANY && !isContainer v) = true) {text : List UInt8} :
    Headcrab.json_dumps snprintf_17g v flags = some text ↔
      (Headcrab.do_dump snprintf_17g flags 0 v).result = .ok () ∧
        (Headcrab.do_dump snprintf_17g flags 0 v).trace = text := by
  rw [Headcrab.json_dumps, if_neg hkind]
  rcases Headcrab.do_dump snprintf_17g flags 0 v with ⟨trace, ⟨⟩ | ⟨⟩⟩ <;> simp

/-- **`json_dumps` on any cells**, whatever refers to whatever and whatever the flags.  The call
returns, and no mark is left.  It has a text exactly if the value, with its pairs in the order in
which they are written, stands for a tree that has one, and that text. -/
theorem json_dumps_cells (h : Counted j R) (htables : TablesStand tables j)
    (hp : ∀ b ∈ p.refs, ∃ c, j.Live b c) :
    ∃ r, (json_dump_callback snprintf_17g tables j flags p ∅).result = .ok (r, ∅) ∧
      ∀ text, (r = .ok () ∧
          (json_dump_callback snprintf_17g tables j flags p ∅).trace = text) ↔
        ∃ v, Denotes (listed tables flags j) p v ∧
          Headcrab.json_dumps snprintf_17g v flags = some text := by
  obtain ⟨a, o, ha, ho, hkind⟩ := exists_kind tables flags hp
  rw [json_dump_callback_eq ha ho]
  by_cases hrefused : (!hasFlag flags JSON_ENCODE_ANY && !(a || o)) = true
  · -- a value that is neither an array nor an object
    rw [if_pos hrefused]
    refine ⟨.error (), rfl, fun text => ⟨fun hok => absurd hok.1 (by simp), ?_⟩⟩
    rintro ⟨v, hv, htext⟩
    rw [Headcrab.json_dumps, hkind v hv, if_pos hrefused] at htext
    exact absurd htext (by simp)
  · rw [if_neg hrefused]
    obtain ⟨r, hresult, hok⟩ := do_dump_cells snprintf_17g flags h htables hp
    refine ⟨r, hresult, fun text => ?_⟩
    constructor
    · rintro ⟨hr, htrace⟩
      obtain ⟨v, hv, hwritten⟩ := hok.mp hr
      rw [do_dump_of_denotes htables hv] at htrace
      exact ⟨v, hv, (json_dumps_eq_some_iff (by rwa [hkind v hv])).mpr ⟨hwritten, htrace⟩⟩
    · rintro ⟨v, hv, htext⟩
      obtain ⟨hwritten, htrace⟩ := (json_dumps_eq_some_iff (by rwa [hkind v hv])).mp htext
      refine ⟨hok.mpr ⟨v, hv, hwritten⟩, ?_⟩
      rw [do_dump_of_denotes htables hv]
      exact htrace

/-- An array that holds an object twice, and an array that holds itself. -/
def tangled : JsonHeap :=
  ⟨[some ⟨1, .array [.cell 1, .cell 1]⟩,
    some ⟨2, .object [("newval", .the_null), ("b", .the_true), ("a", .the_false)]⟩,
    some ⟨2, .array [.the_null, .cell 2]⟩]⟩

lemma exists_tables_tangled : ∃ tables, TablesStand tables tangled := by
  let fields : List (String × JsonPtr) :=
    [("newval", .the_null), ("b", .the_true), ("a", .the_false)]
  obtain ⟨o, ho⟩ : ∃ o, Stands o fields := exists_stands (by decide) (by simp [fields])
  refine ⟨fun _ => o, fun b n pairs hb => ?_⟩
  rcases b with _ | _ | _ | b
  · exact absurd hb (by simp [Store.Live, tangled])
  · obtain ⟨-, ⟨⟩⟩ := RcCell.mk.inj (Option.some.inj (Option.some.inj hb))
    exact ho
  · exact absurd hb (by simp [Store.Live, tangled])
  · exact absurd hb (by simp [Store.Live, tangled])

theorem json_dumps_cells_tangled : ∃ tables, TablesStand tables tangled ∧
    ∀ p ∈ [JsonPtr.cell 0, .cell 2], ∃ r,
      (json_dump_callback printBits tables tangled JSON_SORT_KEYS p ∅).result = .ok (r, ∅) ∧
        ∀ text, (r = .ok () ∧
            (json_dump_callback printBits tables tangled JSON_SORT_KEYS p ∅).trace = text) ↔
          ∃ v, Denotes (listed tables JSON_SORT_KEYS tangled) p v ∧
            Headcrab.json_dumps printBits v JSON_SORT_KEYS = some text := by
  obtain ⟨tables, htables⟩ := exists_tables_tangled
  have hcounted : Counted tangled [0, 2] := RefCount.counted_of_forall (by decide) (by decide)
  refine ⟨tables, htables, fun p hp => json_dumps_cells hcounted htables fun b hb => ?_⟩
  refine hcounted.live (List.mem_append_left _ ?_)
  simp only [List.mem_cons, List.not_mem_nil, or_false] at hp
  rcases hp with rfl | rfl
  · exact List.mem_cons.mpr (Or.inl (List.mem_singleton.mp hb))
  · exact List.mem_cons_of_mem _ hb

end

end JsonHeap

end Headcrab
