/-
# Answers to commands

A mutator that answers a command reads the number of the command out of its arguments, puts
it into an object, as `headcrab_post_message` does for it, and the page looks up under this
number the callback that it keeps for the command.

* `request_id_survives_iff`: when the number that is looked up is that of the command;
* `understood_iff`: when the page calls the callback, and forgets it.
-/
import Headcrab.Requests
import Headcrab.System

namespace Headcrab

open Json

variable {T : Type}

/-! ## The message that is posted -/

/-- 0 for a value that is not an integer. -/
def json_integer_value : Option Json → ℤ
  | some (.integer n) => n
  | _ => 0

/-- What a mutator posts that answers in the way of `send_data_to_browser`. -/
def reply (args body : Option Json) : Option Json :=
  let seq_id := json_object_get args "seqID"
  let seqID := intOf (json_integer_value seq_id)
  headcrab_post_message seqID body

/-- The fields of an object that is posted. -/
lemma headcrab_post_message_object (n : ℤ) (fields : List (String × Json)) :
    headcrab_post_message n (some (.object fields))
      = some (.object (setField "seqID" (.integer n) fields)) := rfl

/-- An `int` holds the numbers of its range. -/
lemma intOf_eq_self {n : ℤ} : intOf n = n ↔ -2 ^ 31 ≤ n ∧ n < 2 ^ 31 := by
  constructor
  · intro h
    rw [← h]
    exact System.intOf_bounds n
  · rintro ⟨hlow, hhigh⟩
    rw [intOf, Int.bmod_def]
    split <;> omega

/-- The number that a mutator finds in its arguments. -/
lemma json_integer_value_args (n : ℤ) (sent : Option Json) :
    json_integer_value
        (json_object_get (json_object_set sent "seqID" (some (.integer n))) "seqID")
      = if json_is_object sent then n else 0 := by
  rcases sent with _ | v
  · rfl
  · cases v with
    | object fields =>
      rw [json_object_set, json_object_get, lookup_setField_self]
      rfl
    | array _ | string _ | integer _ | real _ | true | false | null => rfl

/-! ## The frame that the page gets -/

/-- The page reads the strings of an object and the integers up to `2 ^ 53` as the server has
written them. -/
structure JsonText.KeepsFields (J : JsonText T) : Prop where
  string : ∀ {fields t v}, (fields.map Prod.fst).Nodup → J.json_dumps (.object fields) = some t →
    J.parse t = some v → ∀ key s, json_object_get (some v) key = some (.string s) ↔
      fields.lookup key = some (.string s)
  integer : ∀ {fields t v}, (fields.map Prod.fst).Nodup → J.json_dumps (.object fields) = some t →
    J.parse t = some v → ∀ key n, -2 ^ 53 ≤ n → n ≤ 2 ^ 53 →
      fields.lookup key = some (.integer n) → json_object_get (some v) key = some (.integer n)

/-- The number in a frame whose text is that of a message with an `int`. -/
lemma JsonText.KeepsFields.seqID {J : JsonText T} (hJ : J.KeepsFields)
    {fields : List (String × Json)} (hnodup : (fields.map Prod.fst).Nodup) {n : ℤ}
    (hn : -2 ^ 31 ≤ n ∧ n < 2 ^ 31) {t : T} {v : Json}
    (ht : J.json_dumps (.object (setField "seqID" (.integer n) fields)) = some t)
    (hv : J.parse t = some v) : json_object_get (some v) "seqID" = some (.integer n) :=
  hJ.integer (nodup_setField hnodup) ht hv "seqID" n (by omega) (by omega) lookup_setField_self

/-- The type in a frame is that of the message. -/
lemma JsonText.KeepsFields.type {J : JsonText T} (hJ : J.KeepsFields)
    {fields : List (String × Json)} (hnodup : (fields.map Prod.fst).Nodup) {n : ℤ} {t : T}
    {v : Json} (ht : J.json_dumps (.object (setField "seqID" (.integer n) fields)) = some t)
    (hv : J.parse t = some v) :
    json_string_value (json_object_get (some v) "type") = some "response" ↔
      fields.lookup "type" = some (.string "response") := by
  have hstring := hJ.string (nodup_setField hnodup) ht hv "type" "response"
  rw [lookup_setField_of_ne (by decide)] at hstring
  rw [← hstring]
  constructor
  · intro h
    rcases htype : json_object_get (some v) "type" with _ | x
    · rw [htype] at h
      exact absurd h (by simp [json_string_value])
    · rw [htype] at h
      cases x with
      | string s => rw [Option.some.inj h]
      | object _ | array _ | integer _ | real _ | true | false | null =>
        exact absurd h (by simp [json_string_value])
  · intro h
    rw [h]
    rfl

/-- A response whose number is known calls the callback that is kept for it. -/
lemma Client.replyhandler_response {Cb : Type} (c : Client Cb) {v : Json} {n : ℤ} {cb : Cb}
    (htype : json_string_value (json_object_get (some v) "type") = some "response")
    (hseqID : json_object_get (some v) "seqID" = some (.integer n))
    (hcb : c.expectedCommands n = some cb) :
    c.replyhandler v
      = ({ c with replying := some n }, some (cb, json_object_get (some v) "data")) := by
  rw [replyhandler, htype, hseqID]
  simp [hcb]

/-! ## The number of a command -/

/-- A page that gets the frame of a message finds what it keeps under a number, and nothing
that it keeps under another one. -/
def FindsEntry (message : Json) (n : ℤ) : Prop :=
  ∀ (T : Type) (J : JsonText T), J.KeepsFields → ∀ t v, J.json_dumps message = some t →
    J.parse t = some v → ∀ (Cb : Type) (c : Client Cb),
    (∀ cb data, (c.replyhandler v).2 = some (cb, data) → c.expectedCommands n = some cb) ∧
    (json_string_value (json_object_get (some v) "type") = some "response" →
      ∀ cb, c.expectedCommands n = some cb → ∃ data, (c.replyhandler v).2 = some (cb, data))

/-- The number of a command survives the round trip: whatever is bound, and whatever the hooks
bind, a mutator that the command leads to and that answers with an object posts a message with
this number, and a page finds what it keeps under it. -/
def SurvivesRoundTrip (message : Json) (n : ℤ) : Prop :=
  ∀ (ω : Type) (hooks : BindingHooks (Option Json) ω) (cs : List BindCall) (fuel : ℕ) (h : Heap)
    (e : ω), Heap.booted.bindAll cs = .ok h →
    ∀ x ∈ opCalls (dispatch hooks.onHeap fuel message (h, e)).trace,
    ∀ fields : List (String × Json), (fields.map Prod.fst).Nodup →
    ∃ posted, reply x.args (some (.object fields)) = some posted ∧
      json_object_get (some posted) "seqID" = some (.integer n) ∧ FindsEntry posted n

lemma findsEntry_posted {fields : List (String × Json)} (hnodup : (fields.map Prod.fst).Nodup)
    {n : ℤ} (hn : -2 ^ 31 ≤ n ∧ n < 2 ^ 31) :
    FindsEntry (.object (setField "seqID" (.integer n) fields)) n := by
  intro T J hJ t v ht hv Cb c
  have hseqID := hJ.seqID hnodup hn ht hv
  refine ⟨fun cb data hcalled => ?_, fun htype cb hcb => ?_⟩
  · obtain ⟨k, hk, hcb⟩ := Client.replyhandler_called hcalled
    rw [hseqID] at hk
    obtain rfl : n = k := by simpa using hk
    exact hcb
  · exact ⟨_, congrArg Prod.snd (c.replyhandler_response htype hseqID hcb)⟩

section Command

variable {message : Json} {target verb : String} {n : ℤ}

/-- A mutator that a command leads to gets the arguments that `dispatch` numbers. -/
lemma args_of_opCall {ω : Type} (h : IsCommand message target verb n)
    (hooks : BindingHooks (Option Json) ω) (fuel : ℕ) (s : Heap × ω) {x : OpCall (Option Json)}
    (hx : x ∈ opCalls (dispatch hooks.onHeap fuel message s).trace) :
    x.args = json_object_set (json_object_get (some message) "args") "seqID"
      (some (.integer n)) := by
  rw [dispatch_command h] at hx
  exact args_of_mem_opCalls (dispatch_table_execute_args _ _ _ _ _ _) hx

/-- Some table and hooks make a mutator run. -/
lemma exists_opCall_dispatch (h : IsCommand message target verb n) :
    ∃ (cs : List BindCall) (heap : Heap) (fuel : ℕ), Heap.booted.bindAll cs = .ok heap ∧
      ∃ x, x ∈ opCalls (dispatch BindingHooks.idle.onHeap fuel message (heap, ())).trace := by
  obtain ⟨cs, heap, fuel, hall, hcalls⟩ := (runsMutator_iff message).mpr ⟨_, _, _, h⟩
  exact ⟨cs, heap, fuel, hall, List.exists_mem_of_ne_nil _ hcalls⟩

/-- The number that is posted is the number of the command, if that survives. -/
lemma intOf_of_survives (h : IsCommand message target verb n) (hs : SurvivesRoundTrip message n) :
    intOf (if json_is_object (json_object_get (some message) "args") then n else 0) = n := by
  obtain ⟨cs, heap, fuel, hall, x, hx⟩ := exists_opCall_dispatch h
  obtain ⟨posted, hposted, hseqID, -⟩ := hs Unit _ cs fuel heap () hall x hx [] List.nodup_nil
  rw [reply, args_of_opCall h _ _ _ hx, json_integer_value_args, headcrab_post_message_object]
    at hposted
  rw [← hposted, json_object_get, lookup_setField_self] at hseqID
  simpa using hseqID

/-- **When the number of a command survives the round trip.**  Exactly when it is in the range
of `int`, given that the arguments of the command are an object; other arguments are not given
the number, and a mutator that looks for it finds 0. -/
theorem request_id_survives_iff (h : IsCommand message target verb n) :
    SurvivesRoundTrip message n ↔
      (json_is_object (json_object_get (some message) "args") = Bool.true →
        -2 ^ 31 ≤ n ∧ n < 2 ^ 31) ∧
      (json_is_object (json_object_get (some message) "args") = Bool.false → n = 0) := by
  constructor
  · intro hs
    have hint := intOf_of_survives h hs
    refine ⟨fun hobject => ?_, fun hother => ?_⟩
    · rw [hobject, if_pos rfl] at hint
      exact intOf_eq_self.mp hint
    · rw [hother, if_neg (by simp)] at hint
      exact hint.symm
  · rintro ⟨hobject, hother⟩ ω hooks cs fuel heap e hall x hx fields hnodup
    -- the number that the mutator finds is that of the command
    have hfound : (if json_is_object (json_object_get (some message) "args") then n else 0) = n ∧
        -2 ^ 31 ≤ n ∧ n < 2 ^ 31 := by
      rcases hargs : json_is_object (json_object_get (some message) "args") with _ | _
      · obtain rfl := hother hargs
        simp
      · exact ⟨rfl, hobject hargs⟩
    refine ⟨.object (setField "seqID" (.integer n) fields), ?_, lookup_setField_self,
      findsEntry_posted hnodup hfound.2⟩
    rw [reply, args_of_opCall h _ _ _ hx, json_integer_value_args, hfound.1,
      intOf_eq_self.mpr hfound.2]
    rfl

end Command

theorem request_id_survives_smallest :
    SurvivesRoundTrip (getallCommand (-2147483648)) (-2147483648) :=
  (request_id_survives_iff ⟨rfl, rfl, rfl, rfl⟩).mpr
    ⟨fun _ => by decide, fun h => absurd h (by decide)⟩

/-- The reply to the command with the number `2 ^ 32` has the number 0. -/
theorem large_request_id_lost : ¬ SurvivesRoundTrip (getallCommand 4294967296) 4294967296 := by
  intro hs
  have hcommand : IsCommand (getallCommand 4294967296) "flock" "getall" 4294967296 :=
    ⟨rfl, rfl, rfl, rfl⟩
  exact absurd (intOf_of_survives hcommand hs) (by decide)

/-! ## The envelope of a response -/

/-- A page understands a frame as the answer to the command with a number: if it keeps a
callback for this command, `replyhandler` calls the callback, once, and keeps nothing for this
command after it, whatever the callback has done meanwhile.  The callback returns, or throws. -/
def Understood (v : Json) (n : ℤ) (returned : Bool) : Prop :=
  ∀ (Cb : Type) (c : Client Cb) (cb : Cb), c.expectedCommands n = some cb →
    (∃ data, (c.replyhandler v).2 = some (cb, data)) ∧
    ∀ c' : Client Cb, c'.replying = (c.replyhandler v).1.replying →
      (c'.replied returned).expectedCommands n = none

/-- **When a page understands what is posted.**  Whatever else the object that is posted has in
it, exactly when it says of itself that it is a response, and the callback returns: nothing
else gives it a type. -/
theorem understood_iff {J : JsonText T} (hJ : J.KeepsFields) {fields : List (String × Json)}
    (hnodup : (fields.map Prod.fst).Nodup) {n : ℤ} (hn : -2 ^ 31 ≤ n ∧ n < 2 ^ 31)
    {message v : Json} (hmessage : headcrab_post_message n (some (.object fields)) = some message)
    {t : T} (ht : J.json_dumps message = some t) (hv : J.parse t = some v) (returned : Bool) :
    Understood v n returned ↔
      fields.lookup "type" = some (.string "response") ∧ returned = Bool.true := by
  rw [headcrab_post_message_object] at hmessage
  obtain rfl := Option.some.inj hmessage
  have hseqID := hJ.seqID hnodup hn ht hv
  have htype := hJ.type hnodup ht hv
  constructor
  · intro hu
    -- a page that keeps a callback for every command
    obtain ⟨⟨data, hcalled⟩, hforgets⟩ := hu Unit ⟨fun _ => some (), .true, 0, none⟩ () rfl
    have hresponse : json_string_value (json_object_get (some v) "type") = some "response" := by
      by_contra hother
      rw [Client.replyhandler, if_pos (by simpa using hother)] at hcalled
      exact absurd hcalled (by simp)
    refine ⟨htype.mp hresponse, ?_⟩
    by_contra hthrown
    have hreturned : returned = Bool.false := by simpa using hthrown
    have hforgets' := hforgets ⟨fun _ => some (), .true, 0, some n⟩
      (by rw [Client.replyhandler_response _ hresponse hseqID rfl])
    rw [hreturned] at hforgets'
    exact absurd hforgets' (by simp [Client.replied])
  · rintro ⟨hresponse, rfl⟩ Cb c cb hcb
    rw [c.replyhandler_response (htype.mpr hresponse) hseqID hcb]
    refine ⟨⟨_, rfl⟩, fun c' hc' => ?_⟩
    rw [Client.replied, hc']
    exact Function.update_self ..

/-- Texts that are read as they were written. -/
def JsonText.plain : JsonText Json where
  stringify := id
  parse := some
  json_loads := some
  json_dumps := some

lemma JsonText.plain_keepsFields : JsonText.plain.KeepsFields := by
  constructor
  · rintro fields t v - ht hv key s
    obtain rfl := Option.some.inj ht
    obtain rfl := Option.some.inj hv
    rfl
  · rintro fields t v - ht hv key n - - hkey
    obtain rfl := Option.some.inj ht
    obtain rfl := Option.some.inj hv
    exact hkey

theorem understood_getall :
    Understood (.object [("type", .string "response"), ("data", .object []), ("seqID", .integer 0)])
      0 true := by
  have hmessage : headcrab_post_message 0
      (some (.object [("type", .string "response"), ("data", .object [])])) = some _ := rfl
  exact (understood_iff JsonText.plain_keepsFields (by decide) (by decide) hmessage rfl rfl
    true).mpr ⟨rfl, rfl⟩

/-- Nothing happens on the page if the object that is posted has no type. -/
theorem untyped_reply_ignored : ∃ message t v,
    headcrab_post_message 0 (some (.object [("newval", .integer 0)])) = some message ∧
      JsonText.plain.json_dumps message = some t ∧ JsonText.plain.parse t = some v ∧
      ¬ Understood v 0 true := by
  refine ⟨_, _, _, rfl, rfl, rfl, fun hu => ?_⟩
  obtain ⟨⟨data, hcalled⟩, -⟩ := hu Unit ⟨fun _ => some (), .true, 0, none⟩ () rfl
  have hnone : (none : Option (Unit × Option Json)) = some ((), data) := hcalled
  exact absurd hnone (by simp)

end Headcrab
