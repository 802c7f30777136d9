/-
# What becomes of the text of a message

`callback_command` hands the length of a payload to `json_loads` as the word of flags.  So
the length decides which texts are accepted: with an odd length no object may repeat a key,
with bit 1 anything may follow the value, and with bit 2 the value may be any.  And a frame of
more than 4096 bytes comes in several chunks, each of which is parsed alone.

* `decoded_iff`: which payloads are decoded as without flags;
* `one_command_iff`: which texts arrive as one value.
-/
import Headcrab.Load
import Mathlib.Algebra.Ring.Parity

namespace Headcrab

open Lexer

variable {jsonp_strtod : List UInt8 → Option UInt64} {flags : ℕ}

/-! ## What bit 0 does -/

/-- With bit 0 the parser stops with an error at a key that it would show without flags, and
otherwise it does what it does without flags. -/
def Follows {α : Type} (flags : ℕ) (x y : Parse α) : Prop :=
  if hasFlag flags JSON_REJECT_DUPLICATES = true ∧ y.trace ≠ [] then
    ∃ text, x.result = .error (.rejected text)
  else x.result = y.result

lemma Follows.of_trace {α : Type} {x : Parse α} (h : x.trace = []) : Follows flags x x := by
  simp [Follows, h]

lemma Follows.bind {α β : Type} {x y : Parse α} {f g : α → Parse β} (h : Follows flags x y)
    (hfg : ∀ a, Follows flags (f a) (g a)) : Follows flags (x >>= f) (y >>= g) := by
  by_cases hy : hasFlag flags JSON_REJECT_DUPLICATES = true ∧ y.trace ≠ []
  · -- the parser has stopped, whatever comes behind
    rw [Follows, if_pos hy] at h
    obtain ⟨text, hx⟩ := h
    have htrace : (y >>= g).trace ≠ [] := by
      rcases hres : y.result with e | a
      · rw [Traced.bind_error hres]
        exact hy.2
      · rw [Traced.bind_ok hres]
        simp [hy.2]
    rw [Follows, if_pos ⟨hy.1, htrace⟩, Traced.bind_error hx]
    exact ⟨text, rfl⟩
  · rw [Follows, if_neg hy] at h
    rcases hres : y.result with e | a
    · rw [Follows, Traced.bind_error hres, Traced.bind_error (h.trans hres), if_neg hy]
    · have hnext := hfg a
      rw [Follows] at hnext ⊢
      rw [Traced.bind_ok hres, Traced.bind_ok (h.trans hres)]
      rw [not_and, not_not] at hy
      by_cases hflag : hasFlag flags JSON_REJECT_DUPLICATES = true
      · simpa [hy hflag] using hnext
      · simpa [hflag] using hnext

lemma hasFlag_zero (flag : ℕ) : hasFlag 0 flag = false := by
  simp [hasFlag]

/-- A key that is shown is where the parser stops, if it does. -/
lemma follows_repeated {α : Type} {fields : List (String × Json)} {key : String} {lex : Lexer}
    {x y : Parse α} (h : Follows flags x y) :
    Follows flags
      (showRepeated fields key >>= fun _ =>
        if hasFlag flags JSON_REJECT_DUPLICATES && (fields.lookup key).isSome then
          lex.reject "duplicate object key"
        else x)
      (showRepeated fields key >>= fun _ =>
        if hasFlag 0 JSON_REJECT_DUPLICATES && (fields.lookup key).isSome then
          lex.reject "duplicate object key"
        else y) := by
  simp only [hasFlag_zero, Bool.false_and, Bool.false_eq_true, if_false]
  by_cases hsome : (fields.lookup key).isSome = true
  · by_cases hflag : hasFlag flags JSON_REJECT_DUPLICATES = true
    · simp only [showRepeated, hsome, hflag, Bool.and_self, if_true, Traced.emit_bind]
      rw [Follows, if_pos ⟨hflag, by simp⟩]
      exact ⟨_, rfl⟩
    · have hshow : Follows flags (showRepeated fields key) (showRepeated fields key) := by
        simp [Follows, hflag]
      refine hshow.bind fun _ => ?_
      simpa [hflag] using h
  · have hshow : (showRepeated fields key).trace = [] := by simp [showRepeated, hsome]
    refine (Follows.of_trace hshow).bind fun _ => ?_
    simpa [hsome] using h

/-- **The parser with flags follows the parser without flags.**  The induction is on the fuel. -/
lemma parse_follows (jsonp_strtod : List UInt8 → Option UInt64) (flags fuel : ℕ) :
    (∀ lex, Follows flags (parse_value jsonp_strtod flags fuel lex)
      (parse_value jsonp_strtod 0 fuel lex)) ∧
    (∀ lex, Follows flags (parse_object jsonp_strtod flags fuel lex)
      (parse_object jsonp_strtod 0 fuel lex)) ∧
    (∀ fields lex, Follows flags (parse_pairs jsonp_strtod flags fuel fields lex)
      (parse_pairs jsonp_strtod 0 fuel fields lex)) ∧
    (∀ lex, Follows flags (parse_array jsonp_strtod flags fuel lex)
      (parse_array jsonp_strtod 0 fuel lex)) ∧
    ∀ items lex, Follows flags (parse_elements jsonp_strtod flags fuel items lex)
      (parse_elements jsonp_strtod 0 fuel items lex) := by
  have hscan : ∀ lex, Follows flags (liftM (lex_scan jsonp_strtod lex) : Parse Lexer)
      (liftM (lex_scan jsonp_strtod lex)) := fun lex => .of_trace rfl
  have hreject : ∀ {α : Type} (lex : Lexer) msg,
      Follows flags (lex.reject msg : Parse α) (lex.reject msg) := fun _ _ => .of_trace rfl
  induction fuel with
  | zero => exact ⟨fun _ => .of_trace rfl, fun _ => .of_trace rfl, fun _ _ => .of_trace rfl,
      fun _ => .of_trace rfl, fun _ _ => .of_trace rfl⟩
  | succ fuel ih =>
    obtain ⟨hvalue, hobject, hpairs, harray, helements⟩ := ih
    refine ⟨fun lex => ?_, fun lex => ?_, fun fields lex => ?_, fun lex => ?_,
      fun items lex => ?_⟩
    · rw [parse_value, parse_value]
      split
      · exact .of_trace rfl
      · exact .of_trace rfl
      · split
        · exact .of_trace rfl
        · exact .of_trace rfl
      · exact .of_trace rfl
      · exact .of_trace rfl
      · exact .of_trace rfl
      · split
        · exact hobject lex
        · split
          · exact harray lex
          · exact hreject lex _
      · exact hreject lex _
      · exact hreject lex _
    · rw [parse_object, parse_object]
      refine (hscan lex).bind fun lex₁ => ?_
      split
      · exact .of_trace rfl
      · exact hpairs [] lex₁
    · rw [parse_pairs, parse_pairs]
      split
      · refine follows_repeated ?_
        refine (hscan lex).bind fun lex₁ => ?_
        split
        · exact hreject lex₁ _
        refine (hscan lex₁).bind fun lex₂ => (hvalue lex₂).bind ?_
        rintro ⟨value, lex₃⟩
        refine (hscan lex₃).bind fun lex₄ => ?_
        split
        · exact (hscan lex₄).bind fun lex₅ => hpairs _ lex₅
        · split
          · exact .of_trace rfl
          · exact hreject lex₄ _
      · exact hreject lex _
    · rw [parse_array, parse_array]
      refine (hscan lex).bind fun lex₁ => ?_
      split
      · exact .of_trace rfl
      · exact helements [] lex₁
    · rw [parse_elements, parse_elements]
      split
      · exact hreject lex _
      refine (hvalue lex).bind ?_
      rintro ⟨elem, lex₁⟩
      refine (hscan lex₁).bind fun lex₂ => ?_
      split
      · exact (hscan lex₂).bind fun lex₃ => helements _ lex₃
      · split
        · exact .of_trace rfl
        · exact hreject lex₂ _

/-! ## What a text says, whatever the flags are -/

section Texts

variable (jsonp_strtod : List UInt8 → Option UInt64) (p : List UInt8)

/-- The first value of a text, read without flags. -/
def reading : Parse (Json × Lexer) := do
  let lex ← lex_scan jsonp_strtod (lex_init p)
  parse_value jsonp_strtod 0 (3 * p.length + 1) lex

/-- Reading the text comes to a key that its object has already. -/
def RepeatsKey : Prop := (reading jsonp_strtod p).trace ≠ []

/-- The text starts with a token, but not with `[` or `{`. -/
def Scalar : Prop := ∃ lex, lex_scan jsonp_strtod (lex_init p) = .ok lex ∧
  lex.token ≠ .char '[' ∧ lex.token ≠ .char '\x7b'

/-- What a text is made of. -/
inductive Shape
  /-- There is no value at its start. -/
  | noValue
  /-- A value, and nothing behind it. -/
  | document (value : Json)
  /-- A value, and something else behind it. -/
  | trailing (value : Json)
  /-- The program ends before the value does. -/
  | fails (e : LoadError)
  /-- The program ends when it reads what is behind the value. -/
  | thenFails (value : Json) (e : LoadError)

def shape : Shape :=
  match (reading jsonp_strtod p).result with
  | .error (.rejected _) => .noValue
  | .error e => .fails e
  | .ok (value, lex) =>
    match lex_scan jsonp_strtod lex with
    | .error (.rejected _) => .trailing value
    | .error e => .thenFails value e
    | .ok lex => if lex.token = .TOKEN_EOF then .document value else .trailing value

end Texts

/-- What is returned for a text of this shape, if its kind and its keys are accepted. -/
def Shape.decode (flags : ℕ) : Shape → Except LoadError (Option Json)
  | .noValue => .ok none
  | .document value => .ok (some value)
  | .trailing value => .ok (if hasFlag flags JSON_DISABLE_EOF_CHECK then some value else none)
  | .fails e => .error e
  | .thenFails value e =>
    if hasFlag flags JSON_DISABLE_EOF_CHECK then .ok (some value) else .error e

/-- The pointer that `json_loads` returns, if it returns. -/
def message (x : Except LoadError Json) : Except LoadError (Option Json) :=
  match x with
  | .ok value => .ok (some value)
  | .error (.rejected _) => .ok none
  | .error e => .error e

variable {p : List UInt8}

/-- A text that starts with a value of another kind is rejected, unless bit 2 is set. -/
lemma message_of_scalar (h : Scalar jsonp_strtod p) (hany : hasFlag flags JSON_DECODE_ANY = false) :
    message (json_loads jsonp_strtod p flags) = .ok none := by
  obtain ⟨lex, hlex, harray, hobject⟩ := h
  rw [json_loads, parse_json, hlex, Traced.liftM_eq, Traced.ofExcept_ok_bind]
  simp [hany, harray, hobject, Lexer.reject, message, Traced.ofExcept]

/-- With bit 0, a text that repeats a key is rejected. -/
lemma message_of_repeatsKey (hrepeats : RepeatsKey jsonp_strtod p)
    (hreject : hasFlag flags JSON_REJECT_DUPLICATES = true) :
    message (json_loads jsonp_strtod p flags) = .ok none := by
  rcases hlex : lex_scan jsonp_strtod (lex_init p) with e | lex
  · refine absurd ?_ hrepeats
    rw [reading, hlex]
    rfl
  · rw [RepeatsKey, reading, hlex, Traced.liftM_eq, Traced.ofExcept_ok_bind] at hrepeats
    have hfollows := (parse_follows jsonp_strtod flags (3 * p.length + 1)).1 lex
    rw [Follows, if_pos ⟨hreject, hrepeats⟩] at hfollows
    obtain ⟨text, hresult⟩ := hfollows
    rw [json_loads, parse_json, hlex, Traced.liftM_eq, Traced.ofExcept_ok_bind]
    split
    · rfl
    · rw [Traced.bind_error hresult]
      rfl

lemma clear_of_not_rejected
    (h : ¬ (RepeatsKey jsonp_strtod p ∧ hasFlag flags JSON_REJECT_DUPLICATES = true)) :
    RepeatsKey jsonp_strtod p → hasFlag flags JSON_REJECT_DUPLICATES = false := fun hrepeats =>
  Bool.eq_false_iff.mpr fun hreject => h ⟨hrepeats, hreject⟩

/-- Otherwise the shape of the text decides. -/
lemma message_of_shape (hscalar : Scalar jsonp_strtod p → hasFlag flags JSON_DECODE_ANY = true)
    (hrepeats : RepeatsKey jsonp_strtod p → hasFlag flags JSON_REJECT_DUPLICATES = false) :
    message (json_loads jsonp_strtod p flags) = (shape jsonp_strtod p).decode flags := by
  rcases hlex : lex_scan jsonp_strtod (lex_init p) with e | lex
  · have hresult : json_loads jsonp_strtod p flags = .error e := by
      rw [json_loads, parse_json, hlex]
      rfl
    have hreading : (reading jsonp_strtod p).result = .error e := by
      rw [reading, hlex]
      rfl
    rw [hresult, shape, hreading]
    cases e <;> rfl
  · have hreading : reading jsonp_strtod p
        = parse_value jsonp_strtod 0 (3 * p.length + 1) lex := by
      rw [reading, hlex, Traced.liftM_eq, Traced.ofExcept_ok_bind]
    have hkind : (!hasFlag flags JSON_DECODE_ANY && lex.token ≠ .char '[' &&
        lex.token ≠ .char '\x7b') = false := by
      by_contra hkind
      simp only [ne_eq, Bool.not_eq_false, Bool.and_eq_true, Bool.not_eq_true',
        decide_eq_true_eq] at hkind
      have hany := hscalar ⟨lex, hlex, hkind.1.2, hkind.2⟩
      rw [hkind.1.1] at hany
      exact absurd hany (by simp)
    have hparse : (parse_value jsonp_strtod flags (3 * p.length + 1) lex).result
        = (reading jsonp_strtod p).result := by
      have hfollows := (parse_follows jsonp_strtod flags (3 * p.length + 1)).1 lex
      rw [Follows, if_neg, ← hreading] at hfollows
      · exact hfollows
      · rintro ⟨hreject, htrace⟩
        rw [← hreading] at htrace
        exact absurd (hreject.symm.trans (hrepeats htrace)) (by simp)
    rw [json_loads, parse_json, hlex, Traced.liftM_eq, Traced.ofExcept_ok_bind, hkind]
    simp only [Bool.false_eq_true, if_false]
    rw [shape]
    rcases hread : (reading jsonp_strtod p).result with e | ⟨value, lex'⟩
    · rw [Traced.bind_error (hparse.trans hread)]
      cases e <;> rfl
    · rw [Traced.bind_ok (hparse.trans hread)]
      simp only
      by_cases hcheck : hasFlag flags JSON_DISABLE_EOF_CHECK = true
      · rw [if_pos hcheck]
        rcases lex_scan jsonp_strtod lex' with e | lex₁
        · cases e <;> simp [Shape.decode, hcheck, message, pure]
        · by_cases htoken : lex₁.token = .TOKEN_EOF
          · simp [Shape.decode, htoken, message, pure]
          · simp [Shape.decode, hcheck, htoken, message, pure]
      · rw [if_neg hcheck]
        rcases lex_scan jsonp_strtod lex' with e | lex₁
        · cases e <;> simp [Shape.decode, hcheck] <;> rfl
        · rw [Traced.liftM_eq, Traced.ofExcept_ok_bind]
          by_cases htoken : lex₁.token = .TOKEN_EOF
          · simp [Shape.decode, htoken, message, pure]
          · simp [Shape.decode, hcheck, htoken, message, Lexer.reject, Traced.ofExcept]

/-- A value that is not an object or an array repeats no key. -/
lemma Scalar.not_repeatsKey (h : Scalar jsonp_strtod p) : ¬ RepeatsKey jsonp_strtod p := by
  obtain ⟨lex, hlex, harray, hobject⟩ := h
  rw [RepeatsKey, reading, hlex, Traced.liftM_eq, Traced.ofExcept_ok_bind, not_not, parse_value]
  split
  case h_3 => split <;> rfl
  case h_7 c htoken =>
    have hobject' : c ≠ '\x7b' := fun hc => hobject (hc ▸ htoken)
    have harray' : c ≠ '[' := fun hc => harray (hc ▸ htoken)
    rw [if_neg hobject', if_neg harray']
    rfl
  all_goals rfl

/-! ## What the receive callback makes of a payload -/

section Received

variable (jsonp_strtod : List UInt8 → Option UInt64)

/-- What `LWS_CALLBACK_RECEIVE` pushes onto the in-queue: the length is the word of flags. -/
def received (payload : List UInt8) : Except LoadError (Option Json) :=
  message (json_loads jsonp_strtod payload payload.length)

/-- The payload is decoded as `json_loads` decodes it without flags. -/
def DecodedAsText (p : List UInt8) : Prop :=
  received jsonp_strtod p = message (json_loads jsonp_strtod p 0)

/-- A text that is rejected without flags, if it is an object or an array. -/
def Shape.Rejected (s : Shape) : Prop := s = .noValue ∨ ∃ value, s = .trailing value

/-- Something stands behind the first value of the text. -/
def Shape.Followed (s : Shape) : Prop :=
  (∃ value, s = .trailing value) ∨ ∃ value e, s = .thenFails value e

/-- The length of the payload sets no bit that matters for the text. -/
structure LengthHarmless (p : List UInt8) : Prop where
  /-- Bit 2, for a text that starts with another kind of value. -/
  scalar : Scalar jsonp_strtod p → hasFlag p.length JSON_DECODE_ANY = true →
    shape jsonp_strtod p = .noValue ∨
      hasFlag p.length JSON_DISABLE_EOF_CHECK = false ∧
        ∃ value, shape jsonp_strtod p = .trailing value
  /-- Bit 0, for a text in which an object repeats a key. -/
  repeated : ¬ Scalar jsonp_strtod p → RepeatsKey jsonp_strtod p →
    hasFlag p.length JSON_REJECT_DUPLICATES = true → (shape jsonp_strtod p).Rejected
  /-- Bit 1, for a text with something behind its value. -/
  followed : ¬ Scalar jsonp_strtod p → (shape jsonp_strtod p).Followed →
    (RepeatsKey jsonp_strtod p → hasFlag p.length JSON_REJECT_DUPLICATES = false) →
    hasFlag p.length JSON_DISABLE_EOF_CHECK = false

lemma Shape.decode_zero_eq_none (s : Shape) : s.decode 0 = .ok none ↔ s.Rejected := by
  cases s <;> simp [decode, Rejected, hasFlag_zero]

lemma Shape.decode_eq_none (s : Shape) : s.decode flags = .ok none ↔ s = .noValue ∨
    hasFlag flags JSON_DISABLE_EOF_CHECK = false ∧ ∃ value, s = .trailing value := by
  cases hflag : hasFlag flags JSON_DISABLE_EOF_CHECK <;> cases s <;> simp [decode, hflag]

lemma Shape.decode_eq_decode_zero (s : Shape) : s.decode flags = s.decode 0 ↔
    (s.Followed → hasFlag flags JSON_DISABLE_EOF_CHECK = false) := by
  cases hflag : hasFlag flags JSON_DISABLE_EOF_CHECK <;> cases s <;>
    simp [decode, Followed, hflag, hasFlag_zero]

/-- **When a payload is decoded by its text alone.** -/
theorem decoded_iff (p : List UInt8) :
    DecodedAsText jsonp_strtod p ↔ LengthHarmless jsonp_strtod p := by
  rw [DecodedAsText, received]
  by_cases hscalar : Scalar jsonp_strtod p
  · have hnone := hscalar.not_repeatsKey
    rw [message_of_scalar hscalar (hasFlag_zero _)]
    by_cases hany : hasFlag p.length JSON_DECODE_ANY = true
    · rw [message_of_shape (fun _ => hany) fun h => absurd h hnone, Shape.decode_eq_none]
      exact ⟨fun h => ⟨fun _ _ => h, fun hnot => absurd hscalar hnot,
        fun hnot => absurd hscalar hnot⟩, fun h => h.scalar hscalar hany⟩
    · rw [message_of_scalar hscalar (by simpa using hany)]
      exact ⟨fun _ => ⟨fun _ h => absurd h hany, fun hnot => absurd hscalar hnot,
        fun hnot => absurd hscalar hnot⟩, fun _ => rfl⟩
  · rw [message_of_shape (fun h => absurd h hscalar) fun _ => hasFlag_zero _]
    by_cases hrepeats : RepeatsKey jsonp_strtod p ∧
        hasFlag p.length JSON_REJECT_DUPLICATES = true
    · rw [message_of_repeatsKey hrepeats.1 hrepeats.2, eq_comm, Shape.decode_zero_eq_none]
      refine ⟨fun h => ⟨fun h' => absurd h' hscalar, fun _ _ _ => h, fun _ _ hclear => ?_⟩,
        fun h => h.repeated hscalar hrepeats.1 hrepeats.2⟩
      exact absurd (hrepeats.2.symm.trans (hclear hrepeats.1)) (by simp)
    · have hclear := clear_of_not_rejected hrepeats
      rw [message_of_shape (fun h => absurd h hscalar) hclear, Shape.decode_eq_decode_zero]
      exact ⟨fun h => ⟨fun h' => absurd h' hscalar,
        fun _ hr hreject => absurd ⟨hr, hreject⟩ hrepeats, fun _ hf _ => h hf⟩,
        fun h hf => h.followed hscalar hf hclear⟩

end Received

/-- Three bytes: an empty object with a letter behind it. -/
def objectAndLetter : List UInt8 := ascii "\x7b\x7dx"

/-- Garbage behind an object is accepted if the length has bit 1. -/
theorem garbage_not_rejected : ¬ DecodedAsText noReals objectAndLetter := by
  intro h
  have hreceived : ((received noReals objectAndLetter).toOption.map Option.isSome) = some true := by
    decide +kernel
  have htext : ((message (json_loads noReals objectAndLetter 0)).toOption.map Option.isSome)
      = some false := by
    decide +kernel
  rw [DecodedAsText] at h
  rw [h, htext] at hreceived
  exact absurd hreceived (by simp)

/-! ## Frames -/

def MAX_USER_RX_BUFFER : ℕ := 4096

/-- The payload of a frame in `libwebsocket_rx_sm`, byte by byte: the buffer is handed to the
callback when the frame ends, and when it is full. -/
def rxPayload : List UInt8 → List UInt8 → List (List UInt8)
  | _, [] => []
  | rx_user_buffer, c :: payload =>
    let rx_user_buffer := rx_user_buffer ++ [c]
    if payload = [] ∨ rx_user_buffer.length = MAX_USER_RX_BUFFER then
      rx_user_buffer :: rxPayload [] payload
    else rxPayload rx_user_buffer payload

/-- What is pushed onto the in-queue for a frame, chunk by chunk. -/
def receivedFrame (jsonp_strtod : List UInt8 → Option UInt64) (payload : List UInt8) :
    Except LoadError (List (Option Json)) :=
  (rxPayload [] payload).mapM (received jsonp_strtod)

/-- The chunks are the payload. -/
lemma flatten_rxPayload (buffer : List UInt8) {payload : List UInt8} (h : payload ≠ []) :
    (rxPayload buffer payload).flatten = buffer ++ payload := by
  induction payload generalizing buffer with
  | nil => exact absurd rfl h
  | cons c payload ih =>
    rw [rxPayload]
    rcases payload with _ | ⟨d, payload⟩
    · simp [rxPayload]
    · split
      · rw [List.flatten_cons, ih [] (by simp)]
        simp
      · rw [ih _ (by simp)]
        simp

/-- No chunk is longer than the buffer. -/
lemma length_le_of_mem_rxPayload {buffer payload chunk : List UInt8}
    (hbuffer : buffer.length < MAX_USER_RX_BUFFER) (h : chunk ∈ rxPayload buffer payload) :
    chunk.length ≤ MAX_USER_RX_BUFFER := by
  induction payload generalizing buffer with
  | nil => exact absurd h (by simp [rxPayload])
  | cons c payload ih =>
    rw [rxPayload] at h
    have hlen : (buffer ++ [c]).length = buffer.length + 1 := by simp
    split at h
    · rcases List.mem_cons.mp h with rfl | h
      · omega
      · exact ih (by simp [MAX_USER_RX_BUFFER]) h
    · rename_i hroom
      rw [not_or] at hroom
      exact ih (by omega) h

/-- A payload that fits into the buffer comes as it is. -/
lemma rxPayload_of_le {buffer payload : List UInt8} (h : payload ≠ [])
    (hlen : buffer.length + payload.length ≤ MAX_USER_RX_BUFFER) :
    rxPayload buffer payload = [buffer ++ payload] := by
  induction payload generalizing buffer with
  | nil => exact absurd rfl h
  | cons c payload ih =>
    rw [rxPayload]
    rcases payload with _ | ⟨d, payload⟩
    · simp [rxPayload]
    · have hnext : (buffer ++ [c]).length + (d :: payload).length
          = buffer.length + (c :: d :: payload).length := by
        simp only [List.length_append, List.length_cons, List.length_nil]
        omega
      have hroom : ¬ (d :: payload = [] ∨ (buffer ++ [c]).length = MAX_USER_RX_BUFFER) := by
        rintro (hnil | hfull)
        · exact absurd hnil (by simp)
        · rw [List.length_cons] at hnext
          omega
      rw [if_neg hroom, ih (by simp) (hnext ▸ hlen)]
      simp

/-- A longer payload comes in more than one chunk. -/
lemma rxPayload_of_lt {payload : List UInt8} (h : MAX_USER_RX_BUFFER < payload.length) :
    2 ≤ (rxPayload [] payload).length := by
  have hnonempty : payload ≠ [] := by
    rintro rfl
    exact absurd h (by simp)
  have hflatten := flatten_rxPayload [] hnonempty
  have hle : ∀ chunk ∈ rxPayload [] payload, chunk.length ≤ MAX_USER_RX_BUFFER :=
    fun chunk hchunk => length_le_of_mem_rxPayload (by simp [MAX_USER_RX_BUFFER]) hchunk
  rcases hchunks : rxPayload [] payload with _ | ⟨chunk, _ | ⟨chunk', chunks⟩⟩
  · rw [hchunks] at hflatten
    exact absurd hflatten.symm (by simpa using hnonempty)
  · rw [hchunks] at hflatten hle
    have hchunk := hle chunk (by simp)
    simp only [List.flatten_cons, List.flatten_nil, List.append_nil, List.nil_append] at hflatten
    rw [hflatten] at hchunk
    omega
  · simp

/-- What is pushed for several chunks is one value for each. -/
lemma length_of_mapM {α β : Type} {f : α → Except LoadError β} {l : List α} {l' : List β}
    (h : l.mapM f = .ok l') : l'.length = l.length := by
  induction l generalizing l' with
  | nil =>
    obtain rfl := Except.ok.inj h
    rfl
  | cons a l ih =>
    rw [List.mapM_cons] at h
    rcases hf : f a with e | b
    · rw [hf] at h
      exact absurd h (by simp [bind, Except.bind])
    · rcases hl : l.mapM f with e | bs
      · rw [hf, hl] at h
        exact absurd h (by simp [bind, Except.bind])
      · rw [hf, hl] at h
        obtain rfl := Except.ok.inj h
        rw [List.length_cons, List.length_cons, ih hl]

/-! ## One message, one value -/

lemma hasFlag_reject_iff (n : ℕ) : hasFlag n JSON_REJECT_DUPLICATES = true ↔ Odd n := by
  rw [hasFlag, JSON_REJECT_DUPLICATES, Nat.odd_iff, bne_iff_ne, Nat.and_one_is_mod]
  omega

/-- An accepted text is a document, and not a value of another kind. -/
lemma shape_of_accepted {v : Json} (h : json_loads jsonp_strtod p 0 = .ok v) :
    ¬ Scalar jsonp_strtod p ∧ shape jsonp_strtod p = .document v := by
  have hmessage : message (json_loads jsonp_strtod p 0) = .ok (some v) := by
    rw [h]
    rfl
  have hscalar : ¬ Scalar jsonp_strtod p := by
    intro hscalar
    rw [message_of_scalar hscalar (hasFlag_zero _)] at hmessage
    exact absurd hmessage (by simp)
  refine ⟨hscalar, ?_⟩
  rw [message_of_shape (fun h => absurd h hscalar) fun _ => hasFlag_zero _] at hmessage
  cases hshape : shape jsonp_strtod p <;> rw [hshape] at hmessage <;>
    simp_all [Shape.decode, hasFlag_zero]

/-- An accepted text is rejected if it has an odd length and repeats a key. -/
lemma received_of_accepted {v : Json} (h : json_loads jsonp_strtod p 0 = .ok v) :
    received jsonp_strtod p = .ok (some v) ↔ (Odd p.length → ¬ RepeatsKey jsonp_strtod p) := by
  obtain ⟨hscalar, hshape⟩ := shape_of_accepted h
  rw [received, ← hasFlag_reject_iff]
  by_cases hrepeats : RepeatsKey jsonp_strtod p ∧
      hasFlag p.length JSON_REJECT_DUPLICATES = true
  · rw [message_of_repeatsKey hrepeats.1 hrepeats.2]
    exact ⟨fun hnone => absurd hnone (by simp), fun hnot => absurd hrepeats.1 (hnot hrepeats.2)⟩
  · have hclear := clear_of_not_rejected hrepeats
    rw [message_of_shape (fun h => absurd h hscalar) hclear, hshape]
    exact ⟨fun _ hreject hr => hrepeats ⟨hr, hreject⟩, fun _ => rfl⟩

/-- An accepted text is not empty. -/
lemma ne_nil_of_accepted {v : Json} (h : json_loads jsonp_strtod p 0 = .ok v) : p ≠ [] := by
  rintro rfl
  have hget : ({ lex_init [] with saved_text := [] } : Lexer).stream_get
      = (.STREAM_STATE_EOF, { lex_init [] with state := .STREAM_STATE_EOF }) := rfl
  have hscan : lex_scan jsonp_strtod (lex_init [])
      = .ok { lex_init [] with state := .STREAM_STATE_EOF, token := .TOKEN_EOF } := by
    rw [lex_scan, hget, skipBlanks]
    · rfl
    · simp
  have hscalar : Scalar jsonp_strtod [] := ⟨_, hscan, by simp, by simp⟩
  exact (shape_of_accepted h).1 hscalar

/-- **When a text arrives as one value.**  A text that `json_loads` accepts without flags is
pushed as one value, the one that it is parsed to, exactly if it fits into the buffer, and has
an even length or repeats no key. -/
theorem one_command_iff {v : Json} (h : json_loads jsonp_strtod p 0 = .ok v) :
    receivedFrame jsonp_strtod p = .ok [some v] ↔
      p.length ≤ MAX_USER_RX_BUFFER ∧ (Odd p.length → ¬ RepeatsKey jsonp_strtod p) := by
  have hnonempty := ne_nil_of_accepted h
  by_cases hfits : p.length ≤ MAX_USER_RX_BUFFER
  · have hframe : receivedFrame jsonp_strtod p
        = (received jsonp_strtod p).map fun v => [v] := by
      rw [receivedFrame, rxPayload_of_le hnonempty (by simpa using hfits), List.nil_append]
      rcases hr : received jsonp_strtod p <;> simp [hr, Except.map]
    rw [hframe, ← received_of_accepted h]
    rcases received jsonp_strtod p with e | w
    · simp [Except.map]
    · simp [Except.map, hfits]
  · have htwo := rxPayload_of_lt (Nat.lt_of_not_le hfits)
    refine ⟨fun hframe => ?_, fun hboth => absurd hboth.1 hfits⟩
    have hlen := length_of_mapM hframe
    simp only [List.length_singleton] at hlen
    omega

/-- A command arrives, although its text has an odd length. -/
theorem one_command_moveText : ∃ v, json_loads noReals moveText 0 = .ok v ∧
    Json.json_string_value (Json.json_object_get (some v) "command") = some "move" ∧
    Odd moveText.length ∧ receivedFrame noReals moveText = .ok [some v] := by
  have hcommand : (json_loads noReals moveText 0).toOption.bind (fun v =>
      Json.json_string_value (Json.json_object_get (some v) "command")) = some "move" := by
    decide +kernel
  rcases hloads : json_loads noReals moveText 0 with e | v
  · rw [hloads] at hcommand
    exact absurd hcommand (by simp [Except.toOption])
  · rw [hloads] at hcommand
    have hrepeats : ¬ RepeatsKey noReals moveText := not_not.mpr (by decide +kernel)
    exact ⟨v, rfl, hcommand, by decide,
      (one_command_iff hloads).mpr ⟨by decide, fun _ => hrepeats⟩⟩

/-! ### A text that is too long -/

/-- An empty array with blanks between its brackets. -/
def blankArray (blanks : ℕ) : List UInt8 := 0x5B :: (List.replicate blanks 0x20 ++ [0x5D])

lemma length_blankArray (blanks : ℕ) : (blankArray blanks).length = blanks + 2 := by
  simp [blankArray]

/-- A lexer in the middle of a text. -/
def lexAt (data saved_text : List UInt8) (token : Token) : Lexer :=
  ⟨data, [], .STREAM_STATE_OK, saved_text, token, []⟩

lemma skipBlanks_replicate (blanks : ℕ) (data : List UInt8) (token : Token) :
    skipBlanks (lexAt (List.replicate blanks 0x20 ++ data) [] token).stream_get
      = skipBlanks (lexAt data [] token).stream_get := by
  induction blanks with
  | zero => rfl
  | succ blanks ih =>
    have hget : (lexAt (List.replicate (blanks + 1) 0x20 ++ data) [] token).stream_get
        = (.byte 0x20, lexAt (List.replicate blanks 0x20 ++ data) [] token) := rfl
    rw [hget, skipBlanks, if_pos (by decide), ih]

lemma lex_scan_bracket (jsonp_strtod : List UInt8 → Option UInt64) {c : UInt8} {x : Char}
    (hc : c = 0x5B ∧ x = '[' ∨ c = 0x5D ∧ x = ']')
    (data saved_text : List UInt8) (blanks : ℕ) (token : Token) :
    lex_scan jsonp_strtod (lexAt (List.replicate blanks 0x20 ++ c :: data) saved_text token)
      = .ok (lexAt data [c] (.char x)) := by
  have hclear : ({ lexAt (List.replicate blanks 0x20 ++ c :: data) saved_text token with
      saved_text := [] } : Lexer) = lexAt (List.replicate blanks 0x20 ++ c :: data) [] token := rfl
  rw [lex_scan, hclear, skipBlanks_replicate]
  have hget : (lexAt (c :: data) [] token).stream_get = (.byte c, lexAt data [] token) := by
    rcases hc with ⟨rfl, -⟩ | ⟨rfl, -⟩
    · rfl
    · rfl
  rw [hget]
  rcases hc with ⟨rfl, rfl⟩ | ⟨rfl, rfl⟩
  · rw [skipBlanks, if_neg (by decide)]
    rfl
  · rw [skipBlanks, if_neg (by decide)]
    rfl

lemma lex_scan_end (jsonp_strtod : List UInt8 → Option UInt64) (saved_text : List UInt8)
    (token : Token) :
    lex_scan jsonp_strtod (lexAt [] saved_text token)
      = .ok { lexAt [] [] .TOKEN_EOF with state := .STREAM_STATE_EOF } := by
  have hget : ({ lexAt [] saved_text token with saved_text := [] } : Lexer).stream_get
      = (.STREAM_STATE_EOF, { lexAt [] [] token with state := .STREAM_STATE_EOF }) := rfl
  rw [lex_scan, hget, skipBlanks]
  · rfl
  · simp

/-- However many blanks there are, the text is accepted. -/
lemma json_loads_blankArray (blanks : ℕ) :
    json_loads jsonp_strtod (blankArray blanks) 0 = .ok (.array []) := by
  have hopen : lex_scan jsonp_strtod (lex_init (blankArray blanks))
      = .ok (lexAt (List.replicate blanks 0x20 ++ [0x5D]) [0x5B] (.char '[')) :=
    lex_scan_bracket jsonp_strtod (Or.inl ⟨rfl, rfl⟩) _ [] 0 _
  have hclose := lex_scan_bracket jsonp_strtod (Or.inr ⟨rfl, rfl⟩) [] [0x5B] blanks (.char '[')
  have hend := lex_scan_end jsonp_strtod [0x5D] (.char ']')
  have hfuel : 3 * (blankArray blanks).length + 1 = 3 * blanks + 5 + 2 := by
    rw [length_blankArray]
    omega
  have hvalue : parse_value jsonp_strtod 0 (3 * blanks + 5 + 2)
      (lexAt (List.replicate blanks 0x20 ++ [0x5D]) [0x5B] (.char '['))
      = pure (.array [], lexAt [] [0x5D] (.char ']')) := by
    show parse_array jsonp_strtod 0 (3 * blanks + 5 + 1) _ = _
    rw [parse_array, hclose, Traced.liftM_eq, Traced.ofExcept_ok_bind]
    rfl
  rw [json_loads, parse_json, hfuel, hopen, Traced.liftM_eq, Traced.ofExcept_ok_bind, hvalue]
  rw [if_neg (by simp [lexAt]), pure_bind]
  simp only [hasFlag_zero, Bool.false_eq_true, if_false]
  rw [hend, Traced.liftM_eq, Traced.ofExcept_ok_bind]
  rfl

/-- A text of 4097 bytes does not arrive as one value. -/
theorem long_array_not_one_command :
    json_loads noReals (blankArray 4095) 0 = .ok (.array []) ∧
      receivedFrame noReals (blankArray 4095) ≠ .ok [some (.array [])] := by
  refine ⟨json_loads_blankArray 4095, fun hframe => ?_⟩
  have htwo : 2 ≤ (rxPayload [] (blankArray 4095)).length := rxPayload_of_lt (by
    rw [length_blankArray, MAX_USER_RX_BUFFER]
    omega)
  have hlen := length_of_mapM hframe
  rw [List.length_singleton] at hlen
  omega

end Headcrab
