/-
# The text of an error as a format string

After `json_loads`, `callback_command` logs `error.text` with `LOG_ERROR(error.text)`: the text
is the format argument of `fprintf`, and there is no other.  Where the parser gives up,
`error_set` puts the last token into the text if it has at most 20 bytes, and a token is a piece
of what the client has sent.  So there is a conversion specification in the text exactly if
`json_loads` gives up at a token that is so short and has a `%` in it (`logs_literally_iff`).
-/
import Headcrab.Decoding
import Headcrab.LexerErrors
import Headcrab.TokenText

namespace Headcrab

open Lexer
open Printf (percent)

/-! ## The parser, with its lexer -/

/-- How the parser stops without a value. -/
inductive Stop
  /-- `error_set` is called, and `NULL` is returned. -/
  | rejected (lex : Lexer)
  /-- `NULL` is returned for a number that is not finite. -/
  | unreported (lex : Lexer)
  /-- The program ends. -/
  | fails (e : LoadError)

/-- What `json_loads` returns then. -/
def Stop.error : Stop → LoadError
  | .rejected lex => .rejected lex.text
  | .unreported lex => .rejected lex.text
  | .fails e => e

namespace WithLexer

/-- `error_set`, and then `NULL` is returned. -/
def reject {α : Type} (lex : Lexer) (msg : String) : Except Stop α :=
  .error (.rejected (lex.error_set (ascii msg)))

section Parser

variable (jsonp_strtod : List UInt8 → Option UInt64)

def lex_scan (lex : Lexer) : Except Stop Lexer :=
  (Lexer.lex_scan jsonp_strtod lex).mapError .fails

mutual

def parse_value (flags : ℕ) : ℕ → Lexer → Except Stop (Json × Lexer)
  | 0, _ => .error (.fails .diverges)
  | fuel + 1, lex =>
    match lex.token with
    | .TOKEN_STRING value => .ok (.string value, lex)
    | .TOKEN_INTEGER value => .ok (.integer value, lex)
    | .TOKEN_REAL bits =>
      match json_real bits with
      | some json => .ok (json, lex)
      | none => .error (.unreported lex)
    | .TOKEN_TRUE => .ok (.true, lex)
    | .TOKEN_FALSE => .ok (.false, lex)
    | .TOKEN_NULL => .ok (.null, lex)
    | .char c =>
      if c = '\x7b' then parse_object flags fuel lex
      else if c = '[' then parse_array flags fuel lex
      else reject lex "unexpected token"
    | .TOKEN_INVALID => reject lex "invalid token"
    | .TOKEN_EOF => reject lex "unexpected token"

def parse_object (flags : ℕ) : ℕ → Lexer → Except Stop (Json × Lexer)
  | 0, _ => .error (.fails .diverges)
  | fuel + 1, lex => do
    let lex ← lex_scan jsonp_strtod lex
    if lex.token = .char '\x7d' then return (.object [], lex)
    parse_pairs flags fuel [] lex

def parse_pairs (flags : ℕ) : ℕ → List (String × Json) → Lexer → Except Stop (Json × Lexer)
  | 0, _, _ => .error (.fails .diverges)
  | fuel + 1, fields, lex =>
    match lex.token with
    | .TOKEN_STRING key =>
      if hasFlag flags JSON_REJECT_DUPLICATES && (fields.lookup key).isSome then
        reject lex "duplicate object key"
      else do
        let lex ← lex_scan jsonp_strtod lex
        if lex.token ≠ .char ':' then reject lex "':' expected"
        else
          let lex ← lex_scan jsonp_strtod lex
          let (value, lex) ← parse_value flags fuel lex
          let fields := Json.setField key value fields
          let lex ← lex_scan jsonp_strtod lex
          if lex.token = .char ',' then
            let lex ← lex_scan jsonp_strtod lex
            parse_pairs flags fuel fields lex
          else if lex.token = .char '\x7d' then return (.object fields, lex)
          else reject lex "'\x7d' expected"
    | _ => reject lex "string or '\x7d' expected"

def parse_array (flags : ℕ) : ℕ → Lexer → Except Stop (Json × Lexer)
  | 0, _ => .error (.fails .diverges)
  | fuel + 1, lex => do
    let lex ← lex_scan jsonp_strtod lex
    if lex.token = .char ']' then return (.array [], lex)
    parse_elements flags fuel [] lex

def parse_elements (flags : ℕ) : ℕ → List Json → Lexer → Except Stop (Json × Lexer)
  | 0, _, _ => .error (.fails .diverges)
  | fuel + 1, items, lex =>
    if lex.token = .TOKEN_EOF then reject lex "']' expected"
    else do
      let (elem, lex) ← parse_value flags fuel lex
      let items := items ++ [elem]
      let lex ← lex_scan jsonp_strtod lex
      if lex.token = .char ',' then
        let lex ← lex_scan jsonp_strtod lex
        parse_elements flags fuel items lex
      else if lex.token = .char ']' then return (.array items, lex)
      else reject lex "']' expected"

end

def parse_json (flags fuel : ℕ) (lex : Lexer) : Except Stop (Json × Lexer) := do
  let lex ← lex_scan jsonp_strtod lex
  if !hasFlag flags JSON_DECODE_ANY && lex.token ≠ .char '[' && lex.token ≠ .char '\x7b' then
    reject lex "'[' or '\x7b' expected"
  else
    let (result, lex) ← parse_value jsonp_strtod flags fuel lex
    if hasFlag flags JSON_DISABLE_EOF_CHECK then return (result, lex)
    else
      let lex ← lex_scan jsonp_strtod lex
      if lex.token ≠ .TOKEN_EOF then reject lex "end of file expected" else return (result, lex)

/-- `json_loads`, with the lexer as it is when it returns. -/
def json_loads (string : List UInt8) (flags : ℕ) : Except Stop (Json × Lexer) :=
  parse_json jsonp_strtod flags (3 * string.length + 1) (lex_init string)

end Parser

/-! ## It is the same parser -/

/-- A computation of the parser, and the same with its lexer. -/
def Same {α : Type} (x : Parse α) (y : Except Stop α) : Prop := x.result = y.mapError Stop.error

lemma Same.bind {α β : Type} {x : Parse α} {y : Except Stop α} {f : α → Parse β}
    {g : α → Except Stop β} (h : Same x y) (hfg : ∀ a, Same (f a) (g a)) :
    Same (x >>= f) (y >>= g) := by
  rw [Same] at h
  rw [Same, Traced.result_bind, h]
  rcases y with e | a
  · rfl
  · exact hfg a

/-- The lexer is dropped at the end. -/
lemma Same.bind_map {α β γ : Type} {x : Parse α} {y : Except Stop α} {f : α → Parse γ}
    {g : α → Except Stop β} {r : β → γ} (h : Same x y) (hfg : ∀ a, Same (f a) ((g a).map r)) :
    Same (x >>= f) ((y >>= g).map r) := by
  rw [Same] at h
  rw [Same, Traced.result_bind, h]
  rcases y with e | a
  · rfl
  · exact hfg a

lemma same_lex_scan (jsonp_strtod : List UInt8 → Option UInt64) (lex : Lexer) :
    Same (liftM (Lexer.lex_scan jsonp_strtod lex)) (lex_scan jsonp_strtod lex) := by
  rw [Same, lex_scan, Traced.liftM_eq, Traced.result_ofExcept]
  cases Lexer.lex_scan jsonp_strtod lex <;> rfl

lemma same_reject {α : Type} (lex : Lexer) (msg : String) :
    Same (lex.reject msg : Parse α) (reject lex msg) := rfl

lemma same_ok {α : Type} (a : α) : Same (pure a) (.ok a) := rfl

/-- A repeated key is shown by the one, and not by the other. -/
lemma same_showRepeated {α : Type} {fields : List (String × Json)} {key : String} {x : Parse α}
    {y : Except Stop α} (h : Same x y) : Same (showRepeated fields key >>= fun _ => x) y := by
  have hshow : (showRepeated fields key).result = .ok () := by
    rw [showRepeated]
    split <;> rfl
  rwa [Same, Traced.bind_ok hshow]

/-- The functions of the parser.  The induction is on the fuel. -/
lemma parse_same (jsonp_strtod : List UInt8 → Option UInt64) (flags fuel : ℕ) :
    (∀ lex, Same (Headcrab.parse_value jsonp_strtod flags fuel lex)
      (parse_value jsonp_strtod flags fuel lex)) ∧
    (∀ lex, Same (Headcrab.parse_object jsonp_strtod flags fuel lex)
      (parse_object jsonp_strtod flags fuel lex)) ∧
    (∀ fields lex, Same (Headcrab.parse_pairs jsonp_strtod flags fuel fields lex)
      (parse_pairs jsonp_strtod flags fuel fields lex)) ∧
    (∀ lex, Same (Headcrab.parse_array jsonp_strtod flags fuel lex)
      (parse_array jsonp_strtod flags fuel lex)) ∧
    ∀ items lex, Same (Headcrab.parse_elements jsonp_strtod flags fuel items lex)
      (parse_elements jsonp_strtod flags fuel items lex) := by
  have hscan := same_lex_scan jsonp_strtod
  induction fuel with
  | zero => exact ⟨fun _ => rfl, fun _ => rfl, fun _ _ => rfl, fun _ => rfl, fun _ _ => rfl⟩
  | succ fuel ih =>
    obtain ⟨hvalue, hobject, hpairs, harray, helements⟩ := ih
    refine ⟨fun lex => ?_, fun lex => ?_, fun fields lex => ?_, fun lex => ?_,
      fun items lex => ?_⟩
    · rw [Headcrab.parse_value, parse_value]
      cases lex.token with
      | TOKEN_REAL bits => cases hreal : json_real bits <;> simp only [hreal] <;> rfl
      | char c =>
        simp only
        split
        · exact hobject lex
        · split
          · exact harray lex
          · exact same_reject lex _
      | TOKEN_INVALID | TOKEN_EOF => exact same_reject lex _
      | _ => exact same_ok _
    · rw [Headcrab.parse_object, parse_object]
      refine (hscan lex).bind fun lex₁ => ?_
      split
      · exact same_ok _
      · exact hpairs [] lex₁
    · rw [Headcrab.parse_pairs, parse_pairs]
      cases lex.token with
      | TOKEN_STRING key =>
        refine same_showRepeated ?_
        dsimp only
        split
        · exact same_reject lex _
        refine (hscan lex).bind fun lex₁ => ?_
        split
        · exact same_reject lex₁ _
        refine (hscan lex₁).bind fun lex₂ => (hvalue lex₂).bind ?_
        rintro ⟨value, lex₃⟩
        refine (hscan lex₃).bind fun lex₄ => ?_
        split
        · exact (hscan lex₄).bind fun lex₅ => hpairs _ lex₅
        · split
          · exact same_ok _
          · exact same_reject lex₄ _
      | _ => exact same_reject lex _
    · rw [Headcrab.parse_array, parse_array]
      refine (hscan lex).bind fun lex₁ => ?_
      split
      · exact same_ok _
      · exact helements [] lex₁
    · rw [Headcrab.parse_elements, parse_elements]
      split
      · exact same_reject lex _
      refine (hvalue lex).bind ?_
      rintro ⟨elem, lex₁⟩
      refine (hscan lex₁).bind fun lex₂ => ?_
      split
      · exact (hscan lex₂).bind fun lex₃ => helements _ lex₃
      · split
        · exact same_ok _
        · exact same_reject lex₂ _

/-- **The lexer changes nothing**: without it, `json_loads` returns the same. -/
theorem json_loads_same (jsonp_strtod : List UInt8 → Option UInt64) (string : List UInt8)
    (flags : ℕ) : Headcrab.json_loads jsonp_strtod string flags
      = ((json_loads jsonp_strtod string flags).map Prod.fst).mapError Stop.error := by
  have hscan := same_lex_scan jsonp_strtod
  have hvalue := (parse_same jsonp_strtod flags (3 * string.length + 1)).1
  have hsame : Same (Headcrab.parse_json jsonp_strtod flags (3 * string.length + 1)
      (lex_init string)) ((json_loads jsonp_strtod string flags).map Prod.fst) := by
    rw [Headcrab.parse_json, json_loads, parse_json]
    refine (hscan _).bind_map fun lex => ?_
    split
    · rfl
    refine (hvalue lex).bind_map ?_
    rintro ⟨result, lex₁⟩
    dsimp only
    split
    · rfl
    refine (hscan lex₁).bind_map fun lex₂ => ?_
    split <;> rfl
  exact hsame

/-! ## What is in the text -/

/-- Behind a token: what is said of it, and where it is in the text. -/
def FineAt (p : List UInt8) (lex : Lexer) : Prop := Fine lex ∧ At p lex

/-- Behind a token that is not invalid. -/
def CleanAt (p : List UInt8) (lex : Lexer) : Prop := Clean lex ∧ At p lex

lemma FineAt.clean {p : List UInt8} {lex : Lexer} (h : FineAt p lex)
    (htoken : lex.token ≠ .TOKEN_INVALID) : CleanAt p lex :=
  ⟨h.1.2 htoken, h.2⟩

/-- A value has the property; an error that the parser sets shows the saved token, which is a
piece of the text, and any other is harmless. -/
def Says {α : Type} (p : List UInt8) (P : α → Prop) : Except Stop α → Prop
  | .ok a => P a
  | .error (.rejected lex) => Quoted lex ∧ At p lex
  | .error (.unreported lex) => percent ∉ lex.text
  | .error (.fails _) => True

variable {p : List UInt8} {jsonp_strtod : List UInt8 → Option UInt64}

lemma Says.bind {α β : Type} {P : α → Prop} {Q : β → Prop} {x : Except Stop α}
    {f : α → Except Stop β} (hx : Says p P x) (hf : ∀ a, P a → Says p Q (f a)) :
    Says p Q (x >>= f) := by
  rcases x with (lex | lex | e) | a
  · exact hx
  · exact hx
  · trivial
  · exact hf a hx

lemma says_lex_scan {lex : Lexer} (h : CleanAt p lex) :
    Says p (FineAt p) (lex_scan jsonp_strtod lex) := by
  have hfine : Yields Fine (Lexer.lex_scan jsonp_strtod lex) := fine_lex_scan h.1
  rw [lex_scan]
  rcases hlex : Lexer.lex_scan jsonp_strtod lex with e | lex'
  · trivial
  · exact ⟨hfine lex' hlex, at_lex_scan h.2 hlex⟩

lemma says_reject {α : Type} {P : α → Prop} {lex : Lexer} {msg : String} (h : FineAt p lex)
    (hmsg : percent ∉ ascii msg) : Says p P (reject lex msg : Except Stop α) :=
  ⟨quoted_error_set h.1.1 hmsg, h.2.error_set _⟩

/-- Behind a value, what is said so far is harmless. -/
abbrev SaysClean (p : List UInt8) : Except Stop (Json × Lexer) → Prop :=
  Says p fun r => CleanAt p r.2

/-- The functions of the parser.  The induction is on the fuel. -/
lemma says_parse (p : List UInt8) (jsonp_strtod : List UInt8 → Option UInt64) (flags fuel : ℕ) :
    (∀ lex, FineAt p lex → SaysClean p (parse_value jsonp_strtod flags fuel lex)) ∧
    (∀ lex, CleanAt p lex → SaysClean p (parse_object jsonp_strtod flags fuel lex)) ∧
    (∀ fields lex, FineAt p lex → SaysClean p (parse_pairs jsonp_strtod flags fuel fields lex)) ∧
    (∀ lex, CleanAt p lex → SaysClean p (parse_array jsonp_strtod flags fuel lex)) ∧
    ∀ items lex, FineAt p lex → SaysClean p (parse_elements jsonp_strtod flags fuel items lex) := by
  have hscan : ∀ lex, CleanAt p lex → Says p (FineAt p) (lex_scan jsonp_strtod lex) :=
    fun lex h => says_lex_scan h
  induction fuel with
  | zero => exact ⟨fun _ _ => trivial, fun _ _ => trivial, fun _ _ _ => trivial,
      fun _ _ => trivial, fun _ _ _ => trivial⟩
  | succ fuel ih =>
    obtain ⟨hvalue, hobject, hpairs, harray, helements⟩ := ih
    refine ⟨fun lex h => ?_, fun lex h => ?_, fun fields lex h => ?_, fun lex h => ?_,
      fun items lex h => ?_⟩
    · have hclean : ∀ t, lex.token = t → t ≠ .TOKEN_INVALID → CleanAt p lex :=
        fun t ht hne => h.clean (ht ▸ hne)
      rw [parse_value]
      split
      · exact hclean _ ‹_› (by simp)
      · exact hclean _ ‹_› (by simp)
      · have hreal := hclean _ ‹_› (by simp)
        split
        · exact hreal
        · exact hreal.1.notMem
      · exact hclean _ ‹_› (by simp)
      · exact hclean _ ‹_› (by simp)
      · exact hclean _ ‹_› (by simp)
      · have hchar := hclean _ ‹_› (by simp)
        split
        · exact hobject lex hchar
        · split
          · exact harray lex hchar
          · exact says_reject h (by decide)
      · exact says_reject h (by decide)
      · exact says_reject h (by decide)
    · rw [parse_object]
      refine (hscan lex h).bind fun lex₁ h₁ => ?_
      split
      · rename_i hend
        exact h₁.clean (by simp [hend])
      · exact hpairs [] lex₁ h₁
    · rw [parse_pairs]
      split
      · rename_i key htoken
        split
        · exact says_reject h (by decide)
        refine (hscan lex (h.clean (by simp [htoken]))).bind fun lex₁ h₁ => ?_
        split
        · exact says_reject h₁ (by decide)
        rename_i hcolon
        refine (hscan lex₁ (h₁.clean (by simp [not_not.mp hcolon]))).bind fun lex₂ h₂ => ?_
        refine (hvalue lex₂ h₂).bind ?_
        rintro ⟨value, lex₃⟩ h₃
        refine (hscan lex₃ h₃).bind fun lex₄ h₄ => ?_
        split
        · rename_i hcomma
          exact (hscan lex₄ (h₄.clean (by simp [hcomma]))).bind fun lex₅ h₅ => hpairs _ lex₅ h₅
        · split
          · rename_i hend
            exact h₄.clean (by simp [hend])
          · exact says_reject h₄ (by decide)
      · exact says_reject h (by decide)
    · rw [parse_array]
      refine (hscan lex h).bind fun lex₁ h₁ => ?_
      split
      · rename_i hend
        exact h₁.clean (by simp [hend])
      · exact helements [] lex₁ h₁
    · rw [parse_elements]
      split
      · exact says_reject h (by decide)
      refine (hvalue lex h).bind ?_
      rintro ⟨elem, lex₁⟩ h₁
      refine (hscan lex₁ h₁).bind fun lex₂ h₂ => ?_
      split
      · rename_i hcomma
        exact (hscan lex₂ (h₂.clean (by simp [hcomma]))).bind fun lex₃ h₃ => helements _ lex₃ h₃
      · split
        · rename_i hend
          exact h₂.clean (by simp [hend])
        · exact says_reject h₂ (by decide)

/-- `json_loads` says what its token makes it say. -/
lemma says_json_loads (jsonp_strtod : List UInt8 → Option UInt64) (string : List UInt8)
    (flags : ℕ) : SaysClean string (json_loads jsonp_strtod string flags) := by
  have hscan : ∀ lex, CleanAt string lex →
      Says string (FineAt string) (lex_scan jsonp_strtod lex) :=
    fun lex h => says_lex_scan h
  have hvalue := (says_parse string jsonp_strtod flags (3 * string.length + 1)).1
  rw [json_loads, parse_json]
  refine (hscan (lex_init string) ⟨Or.inl rfl, [], rfl⟩).bind fun lex h => ?_
  split
  · exact says_reject h (by decide)
  refine (hvalue lex h).bind ?_
  rintro ⟨result, lex₁⟩ h₁
  dsimp only
  split
  · exact h₁
  refine (hscan lex₁ h₁).bind fun lex₂ h₂ => ?_
  split
  · exact says_reject h₂ (by decide)
  · rename_i hend
    exact h₂.clean (by simp [not_not.mp hend])

end WithLexer

/-! ## What is logged -/

section Logged

variable (jsonp_strtod : List UInt8 → Option UInt64)

/-- `error.text` when `json_loads` has returned, if it returns: the length of the payload is
the word of flags. -/
def error_text (payload : List UInt8) : Option (List UInt8) :=
  match WithLexer.json_loads jsonp_strtod payload payload.length with
  | .ok (_, lex) => some lex.text
  | .error (.rejected lex) => some lex.text
  | .error (.unreported lex) => some lex.text
  | .error (.fails _) => none

/-- `LOG_ERROR(text)`: the text is the format argument, and there is no other. -/
def LOG_ERROR {α : Type} (render : Printf.Directive → List α → Option (List UInt8))
    (text : List UInt8) : Option (List UInt8) :=
  Printf.printf render text []

/-- There is no conversion specification in the format argument of the call that
`callback_command` makes after `json_loads`, and what is logged is `error.text`. -/
def LogsLiterally (payload : List UInt8) : Prop :=
  ∀ text, error_text jsonp_strtod payload = some text → Printf.Literal text ∧
    ∀ {α : Type} (render : Printf.Directive → List α → Option (List UInt8)),
      LOG_ERROR render text = some text

/-- `json_loads` gives up on a payload at a token. -/
def GivesUpAt (payload token : List UInt8) : Prop :=
  ∃ lex, WithLexer.json_loads jsonp_strtod payload payload.length = .error (.rejected lex) ∧
    lex.saved_text = token

/-- **The token is a piece of the payload.** -/
theorem GivesUpAt.isInfix {payload token : List UInt8} (h : GivesUpAt jsonp_strtod payload token) :
    token <:+: payload := by
  obtain ⟨lex, hloads, rfl⟩ := h
  have hshown := WithLexer.says_json_loads jsonp_strtod payload payload.length
  rw [hloads] at hshown
  obtain ⟨done, hp⟩ := hshown.2
  exact ⟨done, lex.buffer ++ lex.data, by rw [List.append_assoc, ← hp]⟩

/-- **When the text of the error is logged as it is**: for every payload that is accepted, and
for any other unless `json_loads` gives up at a token of at most 20 bytes with a `%` in it. -/
theorem logs_literally_iff (payload : List UInt8) :
    LogsLiterally jsonp_strtod payload ↔
      ∀ token, GivesUpAt jsonp_strtod payload token → token.length ≤ 20 → percent ∉ token := by
  have hshown := WithLexer.says_json_loads jsonp_strtod payload payload.length
  have hliteral : ∀ text, percent ∉ text → error_text jsonp_strtod payload = some text →
      LogsLiterally jsonp_strtod payload := by
    intro text hnot htext text' htext'
    rw [htext, Option.some.injEq] at htext'
    subst htext'
    have hliteral := (Printf.literal_iff text).mpr hnot
    exact ⟨hliteral, fun render => Printf.printf_of_literal render hliteral []⟩
  have hnone : (∀ lex, WithLexer.json_loads jsonp_strtod payload payload.length
      ≠ .error (.rejected lex)) →
      ∀ token, GivesUpAt jsonp_strtod payload token → token.length ≤ 20 → percent ∉ token := by
    rintro hne token ⟨lex, hlex, -⟩
    exact absurd hlex (hne lex)
  rcases hloads : WithLexer.json_loads jsonp_strtod payload payload.length with
    (lex | lex | e) | ⟨value, lex⟩
  · rw [hloads] at hshown
    have htext : error_text jsonp_strtod payload = some lex.text := by rw [error_text, hloads]
    have hgives : ∀ token, GivesUpAt jsonp_strtod payload token ↔ lex.saved_text = token := by
      intro token
      simp [GivesUpAt, hloads]
    refine ⟨fun h token htoken hlen hmem => ?_, fun h => ?_⟩
    · obtain rfl := (hgives token).mp htoken
      exact (Printf.literal_iff _).mp (h lex.text htext).1 (hshown.1.mpr ⟨hlen, hmem⟩)
    · refine hliteral lex.text (fun hmem => ?_) htext
      obtain ⟨hlen, hsaved⟩ := hshown.1.mp hmem
      exact h lex.saved_text ((hgives _).mpr rfl) hlen hsaved
  · rw [hloads] at hshown
    have htext : error_text jsonp_strtod payload = some lex.text := by rw [error_text, hloads]
    exact iff_of_true (hliteral lex.text hshown htext) (hnone (by simp [hloads]))
  · have htext : error_text jsonp_strtod payload = none := by rw [error_text, hloads]
    refine iff_of_true (fun text h => ?_) (hnone (by simp [hloads]))
    exact absurd (htext.symm.trans h) (by simp)
  · rw [hloads] at hshown
    have htext : error_text jsonp_strtod payload = some lex.text := by rw [error_text, hloads]
    exact iff_of_true (hliteral lex.text hshown.1.notMem htext) (hnone (by simp [hloads]))

end Logged

/-- An object whose key is followed by a string. -/
def stringForColon : List UInt8 := ascii "\x7b\x22a\x22 \x22%n\x22\x7d"

/-- The text `':' expected near '"%n"'` is a format string that takes an argument. -/
theorem string_token_formats : ¬ LogsLiterally noReals stringForColon := by
  have htext : error_text noReals stringForColon
      = some (ascii "':' expected near '\x22%n\x22'") := by
    decide +kernel
  intro hlogs
  have hliteral := (hlogs _ htext).1
  exact (Printf.literal_iff _).mp hliteral (by decide)

end Headcrab
