/-
# `json_loads`: the parser of `load.c`

`json_loads` takes a word of flags: bit 0 rejects an object that repeats a key, bit 1 skips
the test that nothing follows the value, and bit 2 accepts a value that is not an object or
an array.  A function that returns `NULL` does so with the text of the error, and whoever
called it returns `NULL` as well.

The recursion is on fuel, of which there is enough (`json_loads_terminates`).  The parser shows
each key that its object has already, whatever the flags are; this is how it is said of a text
that an object repeats a key (`RepeatsKey`), and what bit 0 does (`parse_follows`).
-/
import Headcrab.Lexer
import Headcrab.Lib.Traced

namespace Headcrab

def JSON_REJECT_DUPLICATES : ℕ := 0x1

def JSON_DISABLE_EOF_CHECK : ℕ := 0x2

def JSON_DECODE_ANY : ℕ := 0x4

/-- `flags & flag`. -/
def hasFlag (flags flag : ℕ) : Bool := flags &&& flag != 0

/-- `json_real`, which takes no infinity and no `NaN`. -/
def json_real (bits : UInt64) : Option Json :=
  if bits >>> 52 &&& 0x7FF = 0x7FF then none else some (.real bits)

/-- A computation of the parser, with the keys that an object repeats as its events. -/
abbrev Parse (α : Type) : Type := Traced String LoadError α

/-- `error_set`, and then `NULL` is returned. -/
def Lexer.reject {α : Type} (lex : Lexer) (msg : String) : Parse α :=
  .ofExcept (.error (.rejected (lex.error_set (ascii msg)).text))

/-- A key that the object has already is shown. -/
def showRepeated (fields : List (String × Json)) (key : String) : Parse Unit :=
  if (fields.lookup key).isSome then .emit key else pure ()

section Parser

variable (jsonp_strtod : List UInt8 → Option UInt64)

open Lexer

mutual

def parse_value (flags : ℕ) : ℕ → Lexer → Parse (Json × Lexer)
  | 0, _ => .ofExcept (.error .diverges)
  | fuel + 1, lex =>
    match lex.token with
    | .TOKEN_STRING value => pure (.string value, lex)
    | .TOKEN_INTEGER value => pure (.integer value, lex)
    | .TOKEN_REAL bits =>
      match json_real bits with
      | some json => pure (json, lex)
      | none => .ofExcept (.error (.rejected lex.text))
    | .TOKEN_TRUE => pure (.true, lex)
    | .TOKEN_FALSE => pure (.false, lex)
    | .TOKEN_NULL => pure (.null, lex)
    | .char c =>
      if c = '\x7b' then parse_object flags fuel lex
      else if c = '[' then parse_array flags fuel lex
      else lex.reject "unexpected token"
    | .TOKEN_INVALID => lex.reject "invalid token"
    | .TOKEN_EOF => lex.reject "unexpected token"

def parse_object (flags : ℕ) : ℕ → Lexer → Parse (Json × Lexer)
  | 0, _ => .ofExcept (.error .diverges)
  | fuel + 1, lex => do
    let lex ← lex_scan jsonp_strtod lex
    if lex.token = .char '\x7d' then return (.object [], lex)
    parse_pairs flags fuel [] lex

/-- The loop of `parse_object`, with the pairs that are in the object. -/
def parse_pairs (flags : ℕ) : ℕ → List (String × Json) → Lexer → Parse (Json × Lexer)
  | 0, _, _ => .ofExcept (.error .diverges)
  | fuel + 1, fields, lex =>
    match lex.token with
    | .TOKEN_STRING key => do
      showRepeated fields key
      if hasFlag flags JSON_REJECT_DUPLICATES && (fields.lookup key).isSome then
        lex.reject "duplicate object key"
      else
        let lex ← lex_scan jsonp_strtod lex
        if lex.token ≠ .char ':' then lex.reject "':' expected"
        else
          let lex ← lex_scan jsonp_strtod lex
          let (value, lex) ← parse_value flags fuel lex
          let fields := Json.setField key value fields
          let lex ← lex_scan jsonp_strtod lex
          if lex.token = .char ',' then
            let lex ← lex_scan jsonp_strtod lex
            parse_pairs flags fuel fields lex
          else if lex.token = .char '\x7d' then return (.object fields, lex)
          else lex.reject "'\x7d' expected"
    | _ => lex.reject "string or '\x7d' expected"

def parse_array (flags : ℕ) : ℕ → Lexer → Parse (Json × Lexer)
  | 0, _ => .ofExcept (.error .diverges)
  | fuel + 1, lex => do
    let lex ← lex_scan jsonp_strtod lex
    if lex.token = .char ']' then return (.array [], lex)
    parse_elements flags fuel [] lex

/-- The loop of `parse_array`, with the values that are in the array. -/
def parse_elements (flags : ℕ) : ℕ → List Json → Lexer → Parse (Json × Lexer)
  | 0, _, _ => .ofExcept (.error .diverges)
  | fuel + 1, items, lex =>
    if lex.token = .TOKEN_EOF then lex.reject "']' expected"
    else do
      let (elem, lex) ← parse_value flags fuel lex
      let items := items ++ [elem]
      let lex ← lex_scan jsonp_strtod lex
      if lex.token = .char ',' then
        let lex ← lex_scan jsonp_strtod lex
        parse_elements flags fuel items lex
      else if lex.token = .char ']' then return (.array items, lex)
      else lex.reject "']' expected"

end

def parse_json (flags fuel : ℕ) (lex : Lexer) : Parse Json := do
  let lex ← lex_scan jsonp_strtod lex
  if !hasFlag flags JSON_DECODE_ANY && lex.token ≠ .char '[' && lex.token ≠ .char '\x7b' then
    lex.reject "'[' or '\x7b' expected"
  else
    let (result, lex) ← parse_value jsonp_strtod flags fuel lex
    if hasFlag flags JSON_DISABLE_EOF_CHECK then return result
    else
      let lex ← lex_scan jsonp_strtod lex
      if lex.token ≠ .TOKEN_EOF then lex.reject "end of file expected" else return result

/-- `json_loads` on the bytes of a buffer, which ends in a zero. -/
def json_loads (string : List UInt8) (flags : ℕ) : Except LoadError Json :=
  (parse_json jsonp_strtod flags (3 * string.length + 1) (lex_init string)).result

end Parser

/-! ## Fuel -/

section Fuel

open Lexer

/-- The computation ends, and with a value that has the property if it is not an error. -/
def Terminates {α : Type} (P : α → Prop) : Except LoadError α → Prop
  | .ok a => P a
  | .error e => e ≠ .diverges

lemma Terminates.bind {α β : Type} {P : α → Prop} {Q : β → Prop} {x : Except LoadError α}
    {f : α → Except LoadError β} (hx : Terminates P x)
    (hf : ∀ a, P a → Terminates Q (f a)) : Terminates Q (x >>= f) := by
  rcases x with e | a
  · exact hx
  · exact hf a hx

lemma Terminates.mono {α : Type} {P Q : α → Prop} {x : Except LoadError α} (h : Terminates P x)
    (hPQ : ∀ a, P a → Q a) : Terminates Q x := by
  rcases x with e | a
  · exact h
  · exact hPQ a h

lemma hexDigit_terminates (c : UInt8) : Terminates (fun _ => True) (hexDigit c) := by
  simp only [hexDigit]
  split
  · trivial
  · split
    · trivial
    · split
      · trivial
      · simp [Terminates]

lemma decode_unicode_escape_terminates (str : List UInt8) :
    Terminates (fun _ => True) (decode_unicode_escape str) := by
  rw [decode_unicode_escape.eq_def]
  split
  · exact (hexDigit_terminates _).bind fun _ _ => (hexDigit_terminates _).bind fun _ _ =>
      (hexDigit_terminates _).bind fun _ _ => (hexDigit_terminates _).bind fun _ _ => trivial
  · simp [Terminates]

lemma unescape_terminates (t p : List UInt8) :
    Terminates (fun _ => True) (unescape t p) := by
  fun_induction unescape t p with
  | case1 | case4 | case7 => simp [Terminates]
  | case2 => trivial
  | case3 t u us hquote hslash ih => exact ih
  | case5 t u hquote hslash us ih₂ ih₁ =>
    refine (decode_unicode_escape_terminates us).bind fun value _ => ?_
    simp only
    split
    · split
      · refine (decode_unicode_escape_terminates _).bind fun value2 _ => ?_
        split
        · exact ih₂ value value2
        · trivial
      · trivial
    · split
      · trivial
      · split
        · trivial
        · exact ih₁ value
  | case6 t u hquote hslash e us hu x hshort ih => exact ih

lemma lex_scan_string_terminates (lex : Lexer) :
    Terminates (fun _ => True) lex.lex_scan_string := by
  rw [lex_scan_string]
  split
  · trivial
  · refine (unescape_terminates _ _).bind fun value _ => ?_
    split <;> trivial

variable {jsonp_strtod : List UInt8 → Option UInt64} {flags fuel : ℕ} {lex lex' : Lexer}

/-- The bytes that are left to read, with one more for a token to go on with. -/
def weight (lex : Lexer) : ℕ :=
  if lex.token = .TOKEN_EOF ∨ lex.token = .TOKEN_INVALID then lex.size else lex.size + 1

lemma size_le_weight (lex : Lexer) : lex.size ≤ weight lex := by
  rw [weight]
  split
  · exact Nat.le_refl _
  · exact Nat.le_succ _

lemma weight_of_char {c : Char} (h : lex.token = .char c) : weight lex = lex.size + 1 := by
  simp [weight, h]

lemma lex_scan_terminates (jsonp_strtod : List UInt8 → Option UInt64) (lex : Lexer) :
    Terminates (fun lex' => weight lex' ≤ lex.size) (lex_scan jsonp_strtod lex) := by
  rcases h : lex_scan jsonp_strtod lex with e | lex'
  · rintro rfl
    rw [lex_scan] at h
    generalize skipBlanks { lex with saved_text := [] }.stream_get = x at h
    obtain ⟨c, lex⟩ := x
    cases c with
    | STREAM_STATE_EOF | STREAM_STATE_ERROR => exact absurd h (by simp [scanToken])
    | byte b =>
      simp only [scanToken] at h
      split at h
      · exact absurd h (by simp)
      · split at h
        · have hstring := lex_scan_string_terminates (lex.lex_save b)
          rw [h] at hstring
          exact hstring rfl
        · split at h
          · exact absurd h (by simp)
          · split at h <;> exact absurd h (by simp)
  · show weight lex' ≤ lex.size
    rw [weight]
    split
    · exact size_lex_scan h
    · rename_i htoken
      rw [not_or] at htoken
      exact size_lex_scan_lt h htoken.1 htoken.2

/-- The same for a computation of the parser. -/
def Ends {α : Type} (P : α → Prop) (x : Parse α) : Prop := Terminates P x.result

lemma Ends.bind {α β : Type} {P : α → Prop} {Q : β → Prop} {x : Parse α} {f : α → Parse β}
    (hx : Ends P x) (hf : ∀ a, P a → Ends Q (f a)) : Ends Q (x >>= f) := by
  rw [Ends] at hx
  rcases hres : x.result with e | a
  · rw [hres] at hx
    rw [Ends, Traced.bind_error hres]
    exact hx
  · rw [hres] at hx
    rw [Ends, Traced.bind_ok hres]
    exact hf a hx

lemma ends_reject {α : Type} {P : α → Prop} (lex : Lexer) (msg : String) :
    Ends P (lex.reject msg) := by
  simp [Lexer.reject, Ends, Terminates, Traced.ofExcept]

lemma ends_showRepeated (fields : List (String × Json)) (key : String) :
    Ends (fun _ => True) (showRepeated fields key) := by
  rw [showRepeated]
  split <;> trivial

lemma ends_lex_scan (jsonp_strtod : List UInt8 → Option UInt64) (lex : Lexer) :
    Ends (fun lex' => weight lex' ≤ lex.size) (liftM (lex_scan jsonp_strtod lex)) :=
  lex_scan_terminates jsonp_strtod lex

/-- What a function of the parser does to the text: it ends, and takes something off. -/
def Parses (n : ℕ) : Parse (Json × Lexer) → Prop := Ends fun r => r.2.size ≤ n

lemma Parses.mono {n n' : ℕ} {x : Parse (Json × Lexer)} (h : Parses n x) (hn : n ≤ n') :
    Parses n' x :=
  Terminates.mono h fun _ hr => Nat.le_trans hr hn

section Steps

variable (hvalue : ∀ lex, 3 * weight lex + 1 ≤ fuel →
    Parses lex.size (parse_value jsonp_strtod flags fuel lex))

lemma parse_value_step
    (hobject : ∀ lex : Lexer, 3 * lex.size + 3 ≤ fuel →
      Parses lex.size (parse_object jsonp_strtod flags fuel lex))
    (harray : ∀ lex : Lexer, 3 * lex.size + 3 ≤ fuel →
      Parses lex.size (parse_array jsonp_strtod flags fuel lex))
    (h : 3 * weight lex + 1 ≤ fuel + 1) :
    Parses lex.size (parse_value jsonp_strtod flags (fuel + 1) lex) := by
  rw [parse_value]
  split
  · exact Nat.le_refl _
  · exact Nat.le_refl _
  · split
    · exact Nat.le_refl _
    · simp [Parses, Ends, Terminates, Traced.ofExcept]
  · exact Nat.le_refl _
  · exact Nat.le_refl _
  · exact Nat.le_refl _
  · rename_i c htoken
    have hweight := weight_of_char htoken
    split
    · exact hobject lex (by omega)
    · split
      · exact harray lex (by omega)
      · exact ends_reject _ _
  · exact ends_reject _ _
  · exact ends_reject _ _

lemma parse_object_step
    (hpairs : ∀ fields lex, 3 * weight lex + 2 ≤ fuel →
      Parses lex.size (parse_pairs jsonp_strtod flags fuel fields lex))
    (h : 3 * lex.size + 3 ≤ fuel + 1) :
    Parses lex.size (parse_object jsonp_strtod flags (fuel + 1) lex) := by
  rw [parse_object]
  refine (ends_lex_scan jsonp_strtod lex).bind fun lex₁ h₁ => ?_
  have hsize := size_le_weight lex₁
  split
  · show lex₁.size ≤ lex.size
    omega
  · exact (hpairs [] lex₁ (by omega)).mono (by omega)

lemma parse_array_step
    (helements : ∀ items lex, 3 * weight lex + 2 ≤ fuel →
      Parses lex.size (parse_elements jsonp_strtod flags fuel items lex))
    (h : 3 * lex.size + 3 ≤ fuel + 1) :
    Parses lex.size (parse_array jsonp_strtod flags (fuel + 1) lex) := by
  rw [parse_array]
  refine (ends_lex_scan jsonp_strtod lex).bind fun lex₁ h₁ => ?_
  have hsize := size_le_weight lex₁
  split
  · show lex₁.size ≤ lex.size
    omega
  · exact (helements [] lex₁ (by omega)).mono (by omega)

include hvalue

lemma parse_pairs_step
    (hpairs : ∀ fields lex, 3 * weight lex + 2 ≤ fuel →
      Parses lex.size (parse_pairs jsonp_strtod flags fuel fields lex))
    {fields : List (String × Json)} (h : 3 * weight lex + 2 ≤ fuel + 1) :
    Parses lex.size (parse_pairs jsonp_strtod flags (fuel + 1) fields lex) := by
  rw [parse_pairs]
  split
  swap
  · exact ends_reject _ _
  rename_i key htoken
  have hweight : weight lex = lex.size + 1 := by simp [weight, htoken]
  refine (ends_showRepeated fields key).bind fun _ _ => ?_
  split
  · exact ends_reject _ _
  refine (ends_lex_scan jsonp_strtod lex).bind fun lex₁ h₁ => ?_
  split
  · exact ends_reject _ _
  rename_i hcolon
  have hweight₁ := weight_of_char (not_not.mp hcolon)
  refine (ends_lex_scan jsonp_strtod lex₁).bind fun lex₂ h₂ => ?_
  have hsize₂ := size_le_weight lex₂
  refine (hvalue lex₂ (by omega)).bind ?_
  rintro ⟨value, lex₃⟩ h₃
  refine (ends_lex_scan jsonp_strtod lex₃).bind fun lex₄ h₄ => ?_
  have hsize₄ := size_le_weight lex₄
  simp only at h₃ h₄
  split
  · rename_i hcomma
    have hweight₄ := weight_of_char hcomma
    refine (ends_lex_scan jsonp_strtod lex₄).bind fun lex₅ h₅ => ?_
    have hsize₅ := size_le_weight lex₅
    exact (hpairs _ lex₅ (by omega)).mono (by omega)
  · split
    · show lex₄.size ≤ lex.size
      omega
    · exact ends_reject _ _

lemma parse_elements_step
    (helements : ∀ items lex, 3 * weight lex + 2 ≤ fuel →
      Parses lex.size (parse_elements jsonp_strtod flags fuel items lex))
    {items : List Json} (h : 3 * weight lex + 2 ≤ fuel + 1) :
    Parses lex.size (parse_elements jsonp_strtod flags (fuel + 1) items lex) := by
  rw [parse_elements]
  split
  · exact ends_reject _ _
  have hsize := size_le_weight lex
  refine (hvalue lex (by omega)).bind ?_
  rintro ⟨elem, lex₁⟩ h₁
  refine (ends_lex_scan jsonp_strtod lex₁).bind fun lex₂ h₂ => ?_
  have hsize₂ := size_le_weight lex₂
  simp only at h₁ h₂
  split
  · rename_i hcomma
    have hweight₂ := weight_of_char hcomma
    refine (ends_lex_scan jsonp_strtod lex₂).bind fun lex₃ h₃ => ?_
    have hsize₃ := size_le_weight lex₃
    exact (helements _ lex₃ (by omega)).mono (by omega)
  · split
    · show lex₂.size ≤ lex.size
      omega
    · exact ends_reject _ _

end Steps

/-- The functions of the parser end, on fuel for what is left of the text. -/
lemma parse_terminates (jsonp_strtod : List UInt8 → Option UInt64) (flags fuel : ℕ) :
    (∀ lex, 3 * weight lex + 1 ≤ fuel →
      Parses lex.size (parse_value jsonp_strtod flags fuel lex)) ∧
    (∀ lex : Lexer, 3 * lex.size + 3 ≤ fuel →
      Parses lex.size (parse_object jsonp_strtod flags fuel lex)) ∧
    (∀ fields lex, 3 * weight lex + 2 ≤ fuel →
      Parses lex.size (parse_pairs jsonp_strtod flags fuel fields lex)) ∧
    (∀ lex : Lexer, 3 * lex.size + 3 ≤ fuel →
      Parses lex.size (parse_array jsonp_strtod flags fuel lex)) ∧
    ∀ items lex, 3 * weight lex + 2 ≤ fuel →
      Parses lex.size (parse_elements jsonp_strtod flags fuel items lex) := by
  induction fuel with
  | zero =>
    refine ⟨fun lex h => ?_, fun lex h => ?_, fun fields lex h => ?_, fun lex h => ?_,
      fun items lex h => ?_⟩ <;> omega
  | succ fuel ih =>
    obtain ⟨hvalue, hobject, hpairs, harray, helements⟩ := ih
    exact ⟨fun lex h => parse_value_step hobject harray h,
      fun lex h => parse_object_step hpairs h,
      fun fields lex h => parse_pairs_step hvalue hpairs h,
      fun lex h => parse_array_step helements h,
      fun items lex h => parse_elements_step hvalue helements h⟩

/-- **`json_loads` ends**, on every text and with every flags. -/
theorem json_loads_terminates (jsonp_strtod : List UInt8 → Option UInt64)
    (string : List UInt8) (flags : ℕ) :
    json_loads jsonp_strtod string flags ≠ .error .diverges := by
  have hends : Ends (fun _ => True)
      (parse_json jsonp_strtod flags (3 * string.length + 1) (lex_init string)) := by
    rw [parse_json]
    refine (ends_lex_scan jsonp_strtod _).bind fun lex h => ?_
    have hsize : (lex_init string).size = string.length := rfl
    split
    · exact ends_reject _ _
    refine ((parse_terminates jsonp_strtod flags _).1 lex (by omega)).bind ?_
    rintro ⟨result, lex₁⟩ -
    simp only
    split
    · trivial
    · refine (ends_lex_scan jsonp_strtod lex₁).bind fun lex₂ _ => ?_
      split
      · exact ends_reject _ _
      · trivial
  intro hdiverges
  rw [Ends, ← json_loads, hdiverges] at hends
  exact hends rfl

end Fuel

/-! ## A command -/

/-- A `strtod` for texts without real numbers. -/
def noReals (_ : List UInt8) : Option UInt64 := none

/-- A command as a page sends it. -/
def moveText : List UInt8 :=
  ascii "\x7b\"type\":\"command\",\"target\":\"ball\",\"command\":\"move\",\"seqID\":0\x7d"

end Headcrab
