/-
# What a client can make the library do

A client can send any JSON value, and this file follows an arbitrary value through `dispatch`
into the handlers.

* `dispatch_grammar`: which values `dispatch` hands to the dispatch table, and with which
  arguments;
* `never_null_iff`: when no value makes the library call, or read through, a `NULL`;
* `numbered_args_iff`: when every mutator gets an object with the number of its command.
-/
import Headcrab.Commands

namespace Headcrab

open Json

variable {ω : Type}

/-! ## The grammar of commands -/

/-- The value is a command: an object of the type `command`, for a target and a verb that are
strings, with an integer for its number. -/
structure IsCommand (message : Json) (target verb : String) (seqID : ℤ) : Prop where
  type : json_object_get (some message) "type" = some (.string "command")
  target : json_object_get (some message) "target" = some (.string target)
  command : json_object_get (some message) "command" = some (.string verb)
  seqID : json_object_get (some message) "seqID" = some (.integer seqID)

/-- The arguments that a handler gets are those of the message: an object has the number of
the command under its key `seqID`, and for every other key what was sent; anything else is
what was sent. -/
structure Numbered (seqID : ℤ) (sent args : Option Json) : Prop where
  object : ∀ fields, sent = some (.object fields) → ∃ fields', args = some (.object fields') ∧
    fields'.lookup "seqID" = some (.integer seqID) ∧
    ∀ key ≠ "seqID", fields'.lookup key = fields.lookup key
  other : json_is_object sent = Bool.false → args = sent

/-- An object is the only thing that `json_is_object` accepts. -/
lemma exists_of_json_is_object {v : Option Json} (h : json_is_object v = Bool.true) :
    ∃ fields, v = some (.object fields) := by
  rcases v with _ | v
  · exact absurd h (by simp [json_is_object])
  · cases v with
    | object fields => exact ⟨fields, rfl⟩
    | array _ | string _ | integer _ | real _ | true | false | null =>
      exact absurd h (by simp [json_is_object])

lemma exists_of_json_is_string {v : Option Json} (h : json_is_string v = Bool.true) :
    ∃ text, v = some (.string text) := by
  rcases v with _ | v
  · exact absurd h (by simp [json_is_string])
  · cases v with
    | string text => exact ⟨text, rfl⟩
    | object _ | array _ | integer _ | real _ | true | false | null =>
      exact absurd h (by simp [json_is_string])

/-- What `json_object_set` makes of the arguments. -/
lemma numbered_json_object_set (seqID : ℤ) (sent : Option Json) :
    Numbered seqID sent (json_object_set sent "seqID" (some (.integer seqID))) := by
  constructor
  · rintro fields rfl
    exact ⟨_, rfl, lookup_setField_self, fun key hkey => lookup_setField_of_ne hkey⟩
  · intro h
    rcases sent with _ | v
    · rfl
    · cases v with
      | object fields => exact absurd h (by simp [json_is_object])
      | array _ | string _ | integer _ | real _ | true | false | null => rfl

/-- A value with a field is an object. -/
lemma json_is_object_of_get {message x : Json} {key : String}
    (h : json_object_get (some message) key = some x) :
    json_is_object (some message) = Bool.true := by
  cases message with
  | object fields => rfl
  | array _ | string _ | integer _ | real _ | true | false | null =>
    exact absurd h (by simp [json_object_get])

/-- A command is handed to the dispatch table. -/
lemma dispatch_command {message : Json} {target verb : String} {seqID : ℤ}
    (h : IsCommand message target verb seqID) (hooks : Hooks (Option Json) (Heap × ω))
    (fuel : ℕ) (s : Heap × ω) :
    dispatch hooks fuel message s
      = dispatch_table_execute hooks fuel (some target) (some verb)
        (json_object_set (json_object_get (some message) "args") "seqID"
          (some (.integer seqID))) s := by
  simp [dispatch, json_is_object_of_get h.type, h.type, h.target, h.command, h.seqID,
    json_is_string, json_string_value, json_is_integer]

/-- A value that passes the tests of `dispatch` is a command. -/
lemma exists_isCommand {message : Json}
    (htype : json_is_string (json_object_get (some message) "type") = Bool.true)
    (hvalue : json_string_value (json_object_get (some message) "type") = some "command")
    (htarget : json_is_string (json_object_get (some message) "target") = Bool.true)
    (hcommand : json_is_string (json_object_get (some message) "command") = Bool.true)
    (hseqID : json_is_integer (json_object_get (some message) "seqID") = Bool.true) :
    ∃ target verb seqID, IsCommand message target verb seqID := by
  obtain ⟨text, htext⟩ := exists_of_json_is_string htype
  obtain ⟨target, htarget⟩ := exists_of_json_is_string htarget
  obtain ⟨verb, hverb⟩ := exists_of_json_is_string hcommand
  obtain ⟨seqID, hseqID⟩ := exists_of_json_is_integer hseqID
  rw [htext, json_string_value, Option.some.injEq] at hvalue
  subst hvalue
  exact ⟨target, verb, seqID, htext, htarget, hverb, hseqID⟩

/-- Any other value is dropped. -/
lemma dispatch_of_not_command {message : Json}
    (h : ∀ target verb seqID, ¬ IsCommand message target verb seqID)
    (hooks : Hooks (Option Json) (Heap × ω)) (fuel : ℕ) (s : Heap × ω) :
    dispatch hooks fuel message s = pure s := by
  rw [dispatch]
  split
  · rfl
  simp only
  split
  · rfl
  rename_i htype
  split
  · rfl
  rename_i htarget
  split
  · rfl
  rename_i hcommand
  split
  · rfl
  rename_i hseqID
  -- the value has passed every test
  simp only [Bool.not_eq_true', Bool.not_eq_false, Bool.or_eq_true, not_or, bne_iff_ne, ne_eq,
    not_not] at htype htarget hcommand hseqID
  obtain ⟨target, verb, seqID, hmessage⟩ :=
    exists_isCommand htype.1 htype.2 htarget hcommand hseqID
  exact absurd hmessage (h target verb seqID)

/-- Whether a value is a command or not. -/
lemma command_or_not (message : Json) :
    (∃ target verb seqID, IsCommand message target verb seqID) ∨
      ∀ target verb seqID, ¬ IsCommand message target verb seqID := by
  by_cases h : ∃ target verb seqID, IsCommand message target verb seqID
  · exact Or.inl h
  · push Not at h
    exact Or.inr h

/-- The keys that `dispatch` looks at. -/
def commandKeys : List String := ["type", "target", "command", "args", "seqID"]

/-- `dispatch` does the same on both values. -/
def SameOutcome (message message' : Json) : Prop :=
  ∀ (ω : Type) (hooks : Hooks (Option Json) (Heap × ω)) (fuel : ℕ) (s : Heap × ω),
    dispatch hooks fuel message s = dispatch hooks fuel message' s

lemma sameOutcome_of_lookup {fields fields' : List (String × Json)}
    (h : ∀ key ∈ commandKeys, fields'.lookup key = fields.lookup key) :
    SameOutcome (.object fields) (.object fields') := by
  have hget : ∀ key ∈ commandKeys, json_object_get (some (.object fields')) key
      = json_object_get (some (.object fields)) key := h
  intro ω hooks fuel s
  simp only [dispatch, json_is_object, hget "type" (by decide), hget "target" (by decide),
    hget "command" (by decide), hget "args" (by decide), hget "seqID" (by decide)]

/-- Some table has a mutator that the value makes run. -/
def RunsMutator (message : Json) : Prop :=
  ∃ (cs : List BindCall) (h : Heap) (fuel : ℕ), Heap.booted.bindAll cs = .ok h ∧
    opCalls (dispatch BindingHooks.idle.onHeap fuel message (h, ())).trace ≠ []

lemma runsMutator_iff (message : Json) :
    RunsMutator message ↔ ∃ target verb seqID, IsCommand message target verb seqID := by
  constructor
  · rintro ⟨cs, h, fuel, -, hcalls⟩
    rcases command_or_not message with hcommand | hnot
    · exact hcommand
    · rw [dispatch_of_not_command hnot] at hcalls
      exact absurd rfl hcalls
  · rintro ⟨target, verb, seqID, hcommand⟩
    obtain ⟨h, hall, N, hN⟩ := execute_runs_what_was_bound BindingHooks.idle_quiet
      [⟨none, target, some verb, ⟨none, none, some 0, none, none⟩⟩] (by simp) target verb
      (json_object_set (json_object_get (some message) "args") "seqID"
        (some (.integer seqID))) ()
    obtain ⟨e, -, hcalls⟩ := hN N le_rfl
    refine ⟨_, h, N, hall, ?_⟩
    rw [dispatch_command hcommand, ← opCalls_hookCalls, hcalls]
    simp [boundTo, Binding.block, Binding.preCalls, opCalls]

/-- **`dispatch` accepts exactly the grammar of commands.**  A command makes one call of
`dispatch_table_execute`, with its target, its verb and its arguments with its number; any
other value leaves everything as it is and runs nothing.  The table is part of the state, and
`ω` is the rest of it, the queues among them.  Nothing else of the value matters: no other
key, and not the order of the keys. -/
theorem dispatch_grammar (message : Json) :
    (∀ target verb seqID, IsCommand message target verb seqID → ∃ args,
      Numbered seqID (json_object_get (some message) "args") args ∧
      ∀ (ω : Type) (hooks : Hooks (Option Json) (Heap × ω)) (fuel : ℕ) (s : Heap × ω),
        dispatch hooks fuel message s
          = dispatch_table_execute hooks fuel (some target) (some verb) args s) ∧
    ((∀ target verb seqID, ¬ IsCommand message target verb seqID) →
      ∀ (ω : Type) (hooks : Hooks (Option Json) (Heap × ω)) (fuel : ℕ) (s : Heap × ω),
        dispatch hooks fuel message s = pure s) ∧
    (RunsMutator message ↔ ∃ target verb seqID, IsCommand message target verb seqID) ∧
    ∀ fields, message = .object fields → ∀ fields',
      ((∀ key ∈ commandKeys, fields'.lookup key = fields.lookup key) ∨
        (fields.map Prod.fst).Nodup ∧ fields.Perm fields') →
      SameOutcome message (.object fields') := by
  refine ⟨fun target verb seqID h => ?_, fun h ω => dispatch_of_not_command h,
    runsMutator_iff message, ?_⟩
  · exact ⟨_, numbered_json_object_set seqID _, fun ω => dispatch_command h⟩
  · rintro fields rfl fields' (hkeys | ⟨hnodup, hperm⟩)
    · exact sameOutcome_of_lookup hkeys
    · exact sameOutcome_of_lookup fun key _ => (lookup_perm hperm hnodup).symm

/-! ## The arguments of a mutator -/

/-- Every mutator gets an object with the number of its command: after the history of
bindings, and with hooks that return and may bind, each call of a mutator that the message
leads to is made with the arguments of the message, which are an object, and its number. -/
def NumberedArgs (cs : List BindCall) (message : Json) : Prop :=
  ∀ (ω : Type) (hooks : BindingHooks (Option Json) ω) (fuel : ℕ) (h : Heap) (e : ω),
    Heap.booted.bindAll cs = .ok h →
    ∀ x ∈ opCalls (dispatch hooks.onHeap fuel message (h, e)).trace,
      ∃ target verb seqID fields, IsCommand message target verb seqID ∧
        json_object_get (some message) "args" = some (.object fields) ∧
        Numbered seqID (some (.object fields)) x.args

/-- A message that is a command has an object for its arguments, or leads to no mutator: the
first binding of its target and verb, if there is one, has none. -/
def ArgsAreObject (cs : List BindCall) (message : Json) : Prop :=
  ∀ target verb seqID, IsCommand message target verb seqID →
    json_is_object (json_object_get (some message) "args") = Bool.true ∨
      ∀ c ∈ (boundTo cs target verb).head?, c.binding.op = none

/-- A call of a mutator in a dispatch is made with the arguments of the dispatch. -/
lemma args_of_mem_opCalls {A : Type} {tr : List (HookEvent A)} {args : A} {x : OpCall A}
    (htr : ∀ e ∈ tr, OpArgs args e) (hx : x ∈ opCalls tr) : x.args = args := by
  obtain ⟨e, he, hex⟩ := List.mem_filterMap.mp hx
  cases e with
  | op f o a =>
    obtain rfl := Option.some.inj hex
    exact htr _ he f o a rfl
  | pre _ _ | post _ _ | returned _ => exact absurd hex (by simp)

/-- Without a handler for the verb, nothing runs. -/
lemma opCalls_executeFrom_nil {A : Type} (hooks : Hooks A (Table × ω)) (t v : String) (args : A)
    (fuel : ℕ) (s : Table × ω) : ∀ i,
      ((Registry.itemsOf s.1 t).drop i).filter (fun c => c.verb = v) = [] →
      opCalls (Table.executeFrom hooks t v args fuel i s).trace = [] := by
  induction fuel with
  | zero => exact fun i _ => rfl
  | succ fuel ih =>
    intro i hnil
    rw [Table.executeFrom]
    rcases hi : (Registry.itemsOf s.1 t)[i]? with _ | d
    · rfl
    · obtain ⟨hlt, rfl⟩ := List.getElem?_eq_some_iff.mp hi
      rw [List.drop_eq_getElem_cons hlt, List.filter_cons] at hnil
      by_cases hv : (Registry.itemsOf s.1 t)[i].verb = v
      · simp [hv] at hnil
      · simp only [hv, decide_false, Bool.false_eq_true, if_false] at hnil ⊢
        exact ih (i + 1) hnil

/-- If the first binding of a target and a verb has no mutator, no mutator runs. -/
lemma opCalls_execute_nil {A : Type} (hooks : BindingHooks A ω) {cs : List BindCall}
    {t v : String} (hfirst : ∀ c ∈ (boundTo cs t v).head?, c.binding.op = none) (args : A)
    (fuel : ℕ) (e : ω) :
    opCalls (Table.execute hooks.onTable fuel t v args (Table.init.bindAll cs, e)).trace = [] := by
  rw [Table.execute]
  rcases hentry : Registry.entry (Table.init.bindAll cs) t with _ | n
  · rfl
  have howner : Registry.ownerOf (Table.init.bindAll cs) t = some n.owner := by
    rw [Registry.ownerOf, hentry]
    rfl
  have hhandlers := handlers_bindAll_init cs t v
  rw [← List.drop_zero (l := Registry.itemsOf _ t)] at hhandlers
  rcases hbound : boundTo cs t v with _ | ⟨c, rest⟩
  · refine opCalls_executeFrom_nil _ t v args fuel _ 0 ?_
    rw [hhandlers, hbound, List.map_nil]
  · -- the first call of a mutator would be that of the first binding
    rw [hbound] at hfirst hhandlers
    refine List.eq_nil_iff_forall_not_mem.mpr fun x hx => ?_
    obtain ⟨y, ys, hcalls⟩ := List.exists_cons_of_ne_nil (List.ne_nil_of_mem hx)
    obtain ⟨hop, -⟩ := opCalls_executeFrom hooks t v args n.owner fuel _ 0 e howner 0 y
      ⟨v, c.binding⟩ (by simp only [hcalls]; rfl) (by rw [hhandlers]; rfl)
    exact absurd ((hfirst c rfl).symm.trans hop) (by simp)

/-- A first binding with a mutator runs it, with the arguments of the dispatch. -/
lemma exists_opCall_execute {A : Type} {cs : List BindCall} {t v : String} {c : BindCall}
    (hfirst : (boundTo cs t v).head? = some c) (hop : c.binding.op ≠ none) (args : A) :
    ∃ fuel f, ⟨f, boundObject cs t, args⟩ ∈ opCalls
      (Table.execute BindingHooks.idle.onTable fuel t v args
        (Table.init.bindAll cs, ())).trace := by
  obtain ⟨hcalls, -⟩ := execute_quiet BindingHooks.idle_quiet t v args (Table.init.bindAll cs) ()
    (Nat.lt_succ_self _)
  rw [handlers_bindAll_init, objectOf_bindAll_init] at hcalls
  obtain ⟨rest, hbound⟩ : ∃ rest, boundTo cs t v = c :: rest := by
    rcases hb : boundTo cs t v with _ | ⟨d, rest⟩
    · rw [hb] at hfirst
      exact absurd hfirst (by simp)
    · rw [hb] at hfirst
      exact ⟨rest, by rw [Option.some.inj hfirst]⟩
  rw [hbound] at hcalls
  have hhead : ((c :: rest).map fun c => (⟨v, c.binding⟩ : Handler))[0]?
      = some ⟨v, c.binding⟩ := rfl
  obtain ⟨f, hf⟩ := opCalls_callsOf (boundObject cs t) args hhead (by simpa using hop)
  refine ⟨(Registry.itemsOf (Table.init.bindAll cs) t).length.succ, f, ?_⟩
  rw [← opCalls_hookCalls, hcalls]
  exact List.mem_of_getElem? hf

/-- **When every mutator gets an object with the number of its command.**  Exactly when the
arguments of the message are an object, unless it is no command or leads to no mutator. -/
theorem numbered_args_iff (cs : List BindCall) (message : Json) :
    NumberedArgs cs message ↔ ArgsAreObject cs message := by
  obtain ⟨h, hall, hrep⟩ := bindAll_booted cs
  constructor
  · intro hnumbered target verb seqID hcommand
    rcases hfirst : (boundTo cs target verb).head? with _ | c
    · exact Or.inr (by simp)
    by_cases hop : c.binding.op = none
    · refine Or.inr fun d hd => ?_
      obtain rfl := Option.some.inj hd
      exact hop
    · -- hooks that do nothing show the call of this mutator
      obtain ⟨fuel, f, hmem⟩ := exists_opCall_execute hfirst hop
        (json_object_set (json_object_get (some message) "args") "seqID" (some (.integer seqID)))
      rw [← (dispatch_table_execute_sim BindingHooks.idle hrep fuel target verb _ ()).trace_eq,
        ← dispatch_command hcommand] at hmem
      obtain ⟨-, -, -, fields, -, hfields, -⟩ := hnumbered Unit _ fuel h () hall _ hmem
      exact Or.inl (by rw [hfields]; rfl)
  · intro hobject ω hooks fuel h' e hall' x hx
    obtain rfl : h = h' := Except.ok.inj (hall.symm.trans hall')
    rcases command_or_not message with ⟨target, verb, seqID, hcommand⟩ | hnot
    · rw [dispatch_command hcommand] at hx
      rcases hobject target verb seqID hcommand with hargs | hfirst
      · obtain ⟨fields, hfields⟩ := exists_of_json_is_object hargs
        refine ⟨target, verb, seqID, fields, hcommand, hfields, ?_⟩
        rw [args_of_mem_opCalls (dispatch_table_execute_args _ _ _ _ _ _) hx, ← hfields]
        exact numbered_json_object_set seqID _
      · rw [(dispatch_table_execute_sim hooks hrep fuel target verb _ e).trace_eq,
          opCalls_execute_nil hooks hfirst] at hx
        exact absurd hx (by simp)
    · rw [dispatch_of_not_command hnot] at hx
      exact absurd hx (by simp [opCalls])

/-- A command without arguments, for a verb with a mutator. -/
def bareCommand : Json :=
  .object [("type", .string "command"), ("target", .string "flock"), ("command", .string "getall"),
    ("seqID", .integer 0)]

/-- The binding of `getall` in the example of the boids. -/
def getall : BindCall := ⟨some 1, "flock", some "getall", ⟨some 10, none, some 11, some 12, none⟩⟩

/-- A command for `getall` with arguments. -/
def getallCommand (n : ℤ) : Json :=
  .object [("type", .string "command"), ("target", .string "flock"), ("command", .string "getall"),
    ("args", .object []), ("seqID", .integer n)]

/-- A command without arguments hands `NULL` to its mutator. -/
theorem bare_command_not_numbered : ¬ NumberedArgs [getall] bareCommand := by
  intro hnumbered
  obtain ⟨_, _, _, fields, -, hfields, -⟩ := hnumbered Unit BindingHooks.idle 2 _ () rfl
    ⟨11, some 1, none⟩ (List.mem_singleton_self _)
  have hnone : json_object_get (some bareCommand) "args" = none := rfl
  exact absurd (hnone.symm.trans hfields) (by simp)

end Headcrab
