/-
# JSON values

The values of jansson, as far as the library looks at them; a `json_t *` that may be `NULL`
is an `Option`.  An object is the list of its fields, a JSON integer is an integer.
-/
import Mathlib.Data.Int.Notation
import Mathlib.Data.List.Basic
import Mathlib.Tactic.Common

namespace Headcrab

inductive Json
  | object (fields : List (String × Json))
  | array (items : List Json)
  | string (value : String)
  | integer (value : ℤ)
  /-- A real number, by its bits. -/
  | real (bits : UInt64)
  | true
  | false
  | null
deriving Repr

namespace Json

def json_is_object : Option Json → Bool
  | some (.object _) => .true
  | _ => .false

def json_is_string : Option Json → Bool
  | some (.string _) => .true
  | _ => .false

def json_is_integer : Option Json → Bool
  | some (.integer _) => .true
  | _ => .false

/-- `NULL` for a value that is not a string. -/
def json_string_value : Option Json → Option String
  | some (.string s) => some s
  | _ => none

/-- `NULL` for a value that is not an object, and for a key that it does not have. -/
def json_object_get (v : Option Json) (key : String) : Option Json :=
  match v with
  | some (.object fields) => fields.lookup key
  | _ => none

/-- The fields with another value for a key, which stays in its place. -/
def setField (key : String) (value : Json) : List (String × Json) → List (String × Json)
  | [] => [(key, value)]
  | f :: fields => if f.1 = key then (key, value) :: fields else f :: setField key value fields

/-- The value after `json_object_set`, which does nothing if it is not an object or if there
is no value to set. -/
def json_object_set (v : Option Json) (key : String) (value : Option Json) : Option Json :=
  match v, value with
  | some (.object fields), some x => some (.object (setField key x fields))
  | v, _ => v

variable {key key' : String} {value : Json} {fields : List (String × Json)}

@[simp] lemma lookup_setField_self : (setField key value fields).lookup key = some value := by
  induction fields with
  | nil => simp [setField]
  | cons f fields ih =>
    obtain ⟨k, v⟩ := f
    by_cases h : k = key
    · simp [setField, h]
    · have hkey : (key == k) = Bool.false := beq_eq_false_iff_ne.mpr (Ne.symm h)
      simp [setField, h, List.lookup_cons, hkey, ih]

lemma lookup_setField_of_ne (h : key' ≠ key) :
    (setField key value fields).lookup key' = fields.lookup key' := by
  have hkey : (key' == key) = Bool.false := beq_eq_false_iff_ne.mpr h
  induction fields with
  | nil => simp [setField, List.lookup_cons, hkey]
  | cons f fields ih =>
    obtain ⟨k, v⟩ := f
    by_cases hk : k = key
    · subst hk
      simp [setField, List.lookup_cons, hkey]
    · simp [setField, hk, List.lookup_cons, ih]

/-- A field that is set is one of those that were there, or a new one at the end. -/
lemma map_fst_setField : (setField key value fields).map Prod.fst
    = if key ∈ fields.map Prod.fst then fields.map Prod.fst else fields.map Prod.fst ++ [key] := by
  induction fields with
  | nil => rfl
  | cons f fields ih =>
    by_cases h : f.1 = key
    · simp [setField, h]
    · rw [setField, if_neg h, List.map_cons, ih]
      by_cases hmem : key ∈ fields.map Prod.fst
      · simp [hmem]
      · simp [hmem, Ne.symm h]

lemma mem_setField {f : String × Json} (h : f ∈ setField key value fields) :
    f = (key, value) ∨ f ∈ fields := by
  induction fields with
  | nil => exact Or.inl (List.mem_singleton.mp h)
  | cons g fields ih =>
    rw [setField] at h
    split at h
    · exact (List.mem_cons.mp h).imp_right (List.mem_cons_of_mem _)
    · rcases List.mem_cons.mp h with rfl | h
      · exact Or.inr List.mem_cons_self
      · exact (ih h).imp_right (List.mem_cons_of_mem _)

/-- No key is there twice after a field was set. -/
lemma nodup_setField (h : (fields.map Prod.fst).Nodup) :
    ((setField key value fields).map Prod.fst).Nodup := by
  rw [map_fst_setField]
  split
  · exact h
  · rename_i hnew
    rw [List.nodup_append]
    refine ⟨h, by simp, ?_⟩
    rintro a ha b hb rfl
    exact hnew (List.mem_singleton.mp hb ▸ ha)

/-- The field of a key, in a list with no key twice. -/
lemma lookup_eq_some_iff_mem (h : (fields.map Prod.fst).Nodup) :
    fields.lookup key = some value ↔ (key, value) ∈ fields := by
  induction fields with
  | nil => simp
  | cons f fields ih =>
    obtain ⟨k, v⟩ := f
    obtain ⟨hnew, hrest⟩ := List.nodup_cons.mp h
    by_cases hk : key = k
    · subst hk
      have habsent : (key, value) ∉ fields := fun hmem =>
        hnew (List.mem_map.mpr ⟨(key, value), hmem, rfl⟩)
      simp [habsent, eq_comm]
    · simp [List.lookup_cons, beq_eq_false_iff_ne.mpr hk, ih hrest, hk]

/-- The order of fields makes no difference, if no key is there twice. -/
lemma lookup_perm {fields' : List (String × Json)} (h : fields.Perm fields')
    (hnodup : (fields.map Prod.fst).Nodup) : fields.lookup key = fields'.lookup key := by
  have hnodup' : (fields'.map Prod.fst).Nodup := (h.map Prod.fst).nodup_iff.mp hnodup
  refine Option.ext fun value => ?_
  rw [lookup_eq_some_iff_mem hnodup,
    lookup_eq_some_iff_mem hnodup', h.mem_iff]

/-- A key that has just been set has the value that it was set to, if it has one. -/
lemma eq_of_json_object_get_set {v : Option Json} {x y : Json}
    (h : json_object_get (json_object_set v key (some x)) key = some y) : y = x := by
  rcases v with _ | v
  · exact absurd h (by simp [json_object_set, json_object_get])
  · cases v with
    | object fields =>
      rw [json_object_set, json_object_get, lookup_setField_self] at h
      exact (Option.some.inj h).symm
    | array _ | string _ | integer _ | real _ | true | false | null =>
      exact absurd h (by simp [json_object_set, json_object_get])

/-- An integer is the only thing that `json_is_integer` accepts. -/
lemma exists_of_json_is_integer {v : Option Json} (h : json_is_integer v = .true) :
    ∃ n, v = some (.integer n) := by
  rcases v with _ | v
  · exact absurd h (by simp [json_is_integer])
  · cases v with
    | integer n => exact ⟨n, rfl⟩
    | object _ | array _ | string _ | real _ | true | false | null =>
      exact absurd h (by simp [json_is_integer])

end Json

end Headcrab
