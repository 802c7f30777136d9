/-
# Writing a value and reading it back

Whatever the flags of `json_dumps` are, the text that it makes of a well-formed value is read
as this value by `json_loads`, whatever its flags are (`json_loads_json_dumps`).  This rests on
two things about the C library: `%.17g` prints a finite number as a number, and `strtod` reads
what was made of it as the same one, without an error if it has a full mantissa.  A number that
has none, such as `5e-324`, is written as well, but `jsonp_strtod` then refuses it.

The proof goes through the value: what is written of it is read back wherever it stands in a
text, if what follows is a comma, a bracket or a line break.
-/
import Headcrab.DumpText
import Headcrab.NumberText

namespace Headcrab

open Lexer

variable {flags : ℕ}

/-! ## What is read back -/

lemma json_real_eq {bits : UInt64} (h : json_real bits ≠ none) :
    json_real bits = some (.real bits) := by
  rw [json_real] at h ⊢
  split at h
  · exact absurd rfl h
  · rename_i hfinite
    rw [if_neg hfinite]

/-- The token that a value starts with. -/
def firstToken : Json → Token
  | .object _ => .char '\x7b'
  | .array _ => .char '['
  | .string value => .TOKEN_STRING value
  | .integer value => .TOKEN_INTEGER value
  | .real bits => .TOKEN_REAL bits
  | .true => .TOKEN_TRUE
  | .false => .TOKEN_FALSE
  | .null => .TOKEN_NULL

section

variable (jsonp_strtod : List UInt8 → Option UInt64) (lflags : ℕ)

/-- Wherever the text stands, the value is read from it. -/
def ReadsBack (v : Json) (text : List UInt8) : Prop :=
  IsText text ∧ ∀ rest fuel lex, Closing rest → 3 * text.length + 1 ≤ fuel →
    Reads (text ++ rest) lex → ∃ lex₁ lex₂, lex_scan jsonp_strtod lex = .ok lex₁ ∧
      lex₁.token = firstToken v ∧ parse_value jsonp_strtod lflags fuel lex₁ = pure (v, lex₂) ∧
      Reads rest lex₂

/-- The same for the values of an array, behind those that have been read. -/
def ItemsReadBack (items : List Json) (text : List UInt8) : Prop :=
  IsText text ∧ ∀ (acc : List Json) rest fuel lex, 3 * text.length + 2 ≤ fuel →
    Reads (text ++ ']'.toUInt8 :: rest) lex → ∃ lex₁ lex₂, lex_scan jsonp_strtod lex = .ok lex₁ ∧
      some lex₁.token = items.head?.map firstToken ∧
      parse_elements jsonp_strtod lflags fuel acc lex₁ = pure (.array (acc ++ items), lex₂) ∧
      Reads rest lex₂

/-- The same for the pairs of an object, whose keys are new. -/
def PairsReadBack (fields : List (String × Json)) (text : List UInt8) : Prop :=
  IsText text ∧ ∀ (acc : List (String × Json)) rest fuel lex,
    ((acc ++ fields).map Prod.fst).Nodup → 3 * text.length + 2 ≤ fuel →
    Reads (text ++ '\x7d'.toUInt8 :: rest) lex →
    ∃ lex₁ lex₂, lex_scan jsonp_strtod lex = .ok lex₁ ∧
      some lex₁.token = fields.head?.map (.TOKEN_STRING ·.1) ∧
      parse_pairs jsonp_strtod lflags fuel acc lex₁ = pure (.object (acc ++ fields), lex₂) ∧
      Reads rest lex₂

variable {jsonp_strtod} {lflags}

/-- A value that is one token. -/
lemma readsBack_of_readAs {v : Json} {text : List UInt8} (htext : IsText text)
    (hread : ∀ rest, Closing rest → ReadAs jsonp_strtod text (firstToken v) rest)
    (hvalue : ∀ fuel lex, lex.token = firstToken v →
      parse_value jsonp_strtod lflags (fuel + 1) lex = pure (v, lex)) :
    ReadsBack jsonp_strtod lflags v text := by
  refine ⟨htext, fun rest fuel lex hrest hfuel hreads => ?_⟩
  obtain ⟨lex₁, hscan, htoken, hreads₁⟩ := hread rest hrest lex hreads
  obtain ⟨n, rfl⟩ : ∃ n, fuel = n + 1 := ⟨fuel - 1, by omega⟩
  exact ⟨lex₁, lex₁, hscan, htoken, hvalue n lex₁ htoken, hreads₁⟩

variable (jsonp_strtod) in
/-- Blanks in front of a text are skipped. -/
lemma lex_scan_blanks {blanks text : List UInt8} {lex : Lexer}
    (hblanks : ∀ u ∈ blanks, u ∈ ascii "\n ") (h : Reads (blanks ++ text) lex) :
    ∃ lex', lex_scan jsonp_strtod lex = lex_scan jsonp_strtod lex' ∧ Reads text lex' := by
  have hall : ∀ u ∈ ascii "\n ", isBlank u = true :=
    List.all_iff_forall_prop.mp (by decide)
  induction blanks generalizing lex with
  | nil => exact ⟨lex, rfl, h⟩
  | cons u blanks ih =>
    obtain ⟨hu, hrest⟩ := List.forall_mem_cons.mp hblanks
    obtain ⟨lex₁, hscan, hreads⟩ := lex_scan_blank h (hall u hu)
    obtain ⟨lex', hscan', hreads'⟩ := ih hrest hreads
    exact ⟨lex', hscan.trans hscan', hreads'⟩

/-- What closes a list of values closes the last one as well. -/
lemma closing_indentText {flags depth : ℕ} {a : Char} (ha : a ∈ [']', '\x7d'])
    (rest : List UInt8) : Closing (indentText flags depth false ++ a.toUInt8 :: rest) := by
  have hall : ∀ a ∈ [']', '\x7d'], a.toUInt8 ∈ ascii ",]\x7d\n" :=
    List.all_iff_forall_prop.mp (by decide)
  rw [indentText]
  split
  · rintro c ⟨⟩
    decide
  · rintro c ⟨⟩
    exact hall a ha

variable (jsonp_strtod) (lflags) in
lemma parse_value_array {fuel : ℕ} {lex : Lexer} (h : lex.token = .char '[') :
    parse_value jsonp_strtod lflags (fuel + 1) lex = parse_array jsonp_strtod lflags fuel lex := by
  rw [parse_value, h]
  rfl

variable (jsonp_strtod) (lflags) in
lemma parse_value_object {fuel : ℕ} {lex : Lexer} (h : lex.token = .char '\x7b') :
    parse_value jsonp_strtod lflags (fuel + 1) lex
      = parse_object jsonp_strtod lflags fuel lex := by
  rw [parse_value, h]
  rfl

/-- A value does not start with the end of the text or with a closing bracket. -/
lemma firstToken_ne (v : Json) : firstToken v ≠ .TOKEN_EOF ∧ firstToken v ≠ .char ']' := by
  cases v <;> simp [firstToken]

variable (jsonp_strtod) in
/-- One character that is a token. -/
lemma lex_scan_char {a : Char} (ha : a ∈ punctuation) {rest : List UInt8} {lex : Lexer}
    (h : Reads (a.toUInt8 :: rest) lex) : ∃ lex', lex_scan jsonp_strtod lex = .ok lex' ∧
      lex'.token = .char a ∧ Reads rest lex' :=
  readAs_char ha rest lex h

lemma readsBack_array_nil : ReadsBack jsonp_strtod lflags (.array []) (ascii "[]") := by
  refine ⟨isText_of_asciiOnly (by decide), fun rest fuel lex hrest hfuel hreads => ?_⟩
  have hlen : (ascii "[]").length = 2 := rfl
  obtain ⟨n, rfl⟩ : ∃ n, fuel = n + 2 := ⟨fuel - 2, by omega⟩
  obtain ⟨lex₁, hscan₁, htoken₁, hreads₁⟩ :=
    lex_scan_char jsonp_strtod (a := '[') (by decide) hreads
  obtain ⟨lex₂, hscan₂, htoken₂, hreads₂⟩ :=
    lex_scan_char jsonp_strtod (a := ']') (by decide) hreads₁
  refine ⟨lex₁, lex₂, hscan₁, htoken₁, ?_, hreads₂⟩
  rw [parse_value_array jsonp_strtod lflags htoken₁, parse_array, hscan₂]
  simp only [Traced.liftM_eq, Traced.ofExcept_ok_bind, htoken₂, if_true]

lemma readsBack_object_nil :
    ReadsBack jsonp_strtod lflags (.object []) (ascii "\x7b\x7d") := by
  refine ⟨isText_of_asciiOnly (by decide), fun rest fuel lex hrest hfuel hreads => ?_⟩
  have hlen : (ascii "\x7b\x7d").length = 2 := rfl
  obtain ⟨n, rfl⟩ : ∃ n, fuel = n + 2 := ⟨fuel - 2, by omega⟩
  obtain ⟨lex₁, hscan₁, htoken₁, hreads₁⟩ :=
    lex_scan_char jsonp_strtod (a := '\x7b') (by decide) hreads
  obtain ⟨lex₂, hscan₂, htoken₂, hreads₂⟩ :=
    lex_scan_char jsonp_strtod (a := '\x7d') (by decide) hreads₁
  refine ⟨lex₁, lex₂, hscan₁, htoken₁, ?_, hreads₂⟩
  rw [parse_value_object jsonp_strtod lflags htoken₁, parse_object, hscan₂]
  simp only [Traced.liftM_eq, Traced.ofExcept_ok_bind, htoken₂, if_true]

/-- An array, from its values. -/
lemma ItemsReadBack.array (flags depth : ℕ) {items : List Json} {text : List UInt8}
    (h : ItemsReadBack jsonp_strtod lflags items text) (hne : items ≠ []) :
    ReadsBack jsonp_strtod lflags (.array items)
      (ascii "[" ++ indentText flags depth false ++ (text ++ ascii "]")) := by
  obtain ⟨htext, hread⟩ := h
  have hopen : IsText (ascii "[") := isText_of_asciiOnly (by decide)
  have hclose : IsText (ascii "]") := isText_of_asciiOnly (by decide)
  refine ⟨(hopen.append (isText_indentText _ _)).append (htext.append hclose),
    fun rest fuel lex hrest hfuel hreads => ?_⟩
  have hlen : 3 * (text.length + 2) + 1 ≤ fuel := by
    have h₁ : (ascii "[").length = 1 := rfl
    have h₂ : (ascii "]").length = 1 := rfl
    simp only [List.length_append, h₁, h₂] at hfuel
    omega
  obtain ⟨n, rfl⟩ : ∃ n, fuel = n + 2 := ⟨fuel - 2, by omega⟩
  have hstart : Reads ('['.toUInt8 ::
      (indentText flags depth false ++ (text ++ ']'.toUInt8 :: rest))) lex := by
    simpa [ascii] using hreads
  obtain ⟨lex₁, hscan₁, htoken₁, hreads₁⟩ := lex_scan_char jsonp_strtod (by decide) hstart
  obtain ⟨lex₂, hscan₂, hreads₂⟩ :=
    lex_scan_blanks jsonp_strtod (fun _ hu => mem_indentText hu) hreads₁
  obtain ⟨lex₃, lex₄, hscan₃, htoken₃, hparse, hreads₄⟩ := hread [] rest n lex₂ (by omega) hreads₂
  refine ⟨lex₁, lex₄, hscan₁, htoken₁, ?_, hreads₄⟩
  have hbracket : lex₃.token ≠ .char ']' := by
    rcases items with _ | ⟨v, items⟩
    · exact absurd rfl hne
    · rw [Option.some.inj htoken₃]
      exact (firstToken_ne v).2
  rw [parse_value_array jsonp_strtod lflags htoken₁, parse_array, hscan₂, hscan₃]
  simp only [Traced.liftM_eq, Traced.ofExcept_ok_bind, hbracket, if_false]
  exact hparse

/-- The last value of an array. -/
lemma ReadsBack.itemsReadBack (flags depth : ℕ) {v : Json} {text : List UInt8}
    (h : ReadsBack jsonp_strtod lflags v text) :
    ItemsReadBack jsonp_strtod lflags [v] (text ++ indentText flags depth false) := by
  obtain ⟨htext, hread⟩ := h
  refine ⟨htext.append (isText_indentText _ _), fun acc rest fuel lex hfuel hreads => ?_⟩
  rw [List.length_append] at hfuel
  obtain ⟨n, rfl⟩ : ∃ n, fuel = n + 1 := ⟨fuel - 1, by omega⟩
  rw [List.append_assoc] at hreads
  obtain ⟨lex₁, lex₂, hscan, htoken, hvalue, hreads₂⟩ :=
    hread _ n lex (closing_indentText (by decide) rest) (by omega) hreads
  obtain ⟨lex₃, hscan₃, hreads₃⟩ :=
    lex_scan_blanks jsonp_strtod (fun _ hu => mem_indentText hu) hreads₂
  obtain ⟨lex₄, hscan₄, htoken₄, hreads₄⟩ := lex_scan_char jsonp_strtod (by decide) hreads₃
  refine ⟨lex₁, lex₄, hscan, congrArg some htoken, ?_, hreads₄⟩
  have heof : lex₁.token ≠ .TOKEN_EOF := htoken ▸ (firstToken_ne v).1
  rw [parse_elements, if_neg heof, hvalue]
  simp only [pure_bind, hscan₃, hscan₄, Traced.liftM_eq, Traced.ofExcept_ok_bind, htoken₄]
  simp

/-- One value more. -/
lemma ReadsBack.items_cons (flags depth : ℕ) {v : Json} {items : List Json}
    {text text' : List UInt8} (h : ReadsBack jsonp_strtod lflags v text)
    (hitems : ItemsReadBack jsonp_strtod lflags items text') :
    ItemsReadBack jsonp_strtod lflags (v :: items)
      (text ++ (ascii "," ++ indentText flags depth true ++ text')) := by
  obtain ⟨htext, hread⟩ := h
  obtain ⟨htext', hread'⟩ := hitems
  have hcomma : IsText (ascii ",") := isText_of_asciiOnly (by decide)
  refine ⟨htext.append ((hcomma.append (isText_indentText _ _)).append htext'),
    fun acc rest fuel lex hfuel hreads => ?_⟩
  have hlen : 3 * (text.length + (1 + text'.length)) + 2 ≤ fuel := by
    have h₁ : (ascii ",").length = 1 := rfl
    simp only [List.length_append, h₁] at hfuel
    omega
  obtain ⟨n, rfl⟩ : ∃ n, fuel = n + 1 := ⟨fuel - 1, by omega⟩
  have hstart : Reads (text ++ (','.toUInt8 ::
      (indentText flags depth true ++ (text' ++ ']'.toUInt8 :: rest)))) lex := by
    simpa [ascii] using hreads
  have hclosing : Closing (','.toUInt8 ::
      (indentText flags depth true ++ (text' ++ ']'.toUInt8 :: rest))) := by
    rintro c ⟨⟩
    decide
  obtain ⟨lex₁, lex₂, hscan, htoken, hvalue, hreads₂⟩ :=
    hread _ n lex hclosing (by omega) hstart
  obtain ⟨lex₃, hscan₃, htoken₃, hreads₃⟩ := lex_scan_char jsonp_strtod (by decide) hreads₂
  obtain ⟨lex₄, hscan₄, hreads₄⟩ :=
    lex_scan_blanks jsonp_strtod (fun _ hu => mem_indentText hu) hreads₃
  obtain ⟨lex₅, lex₆, hscan₅, -, hparse, hreads₆⟩ :=
    hread' (acc ++ [v]) rest n lex₄ (by omega) hreads₄
  refine ⟨lex₁, lex₆, hscan, congrArg some htoken, ?_, hreads₆⟩
  have heof : lex₁.token ≠ .TOKEN_EOF := htoken ▸ (firstToken_ne v).1
  rw [parse_elements, if_neg heof, hvalue]
  simp only [pure_bind, hscan₃, hscan₄, hscan₅, Traced.liftM_eq, Traced.ofExcept_ok_bind, htoken₃,
    if_true, hparse]
  simp

/-- An object, from its pairs. -/
lemma PairsReadBack.object (flags depth : ℕ) {fields : List (String × Json)} {text : List UInt8}
    (h : PairsReadBack jsonp_strtod lflags fields text) (hne : fields ≠ [])
    (hnodup : (fields.map Prod.fst).Nodup) : ReadsBack jsonp_strtod lflags (.object fields)
      (ascii "\x7b" ++ indentText flags depth false ++ (text ++ ascii "\x7d")) := by
  obtain ⟨htext, hread⟩ := h
  have hopen : IsText (ascii "\x7b") := isText_of_asciiOnly (by decide)
  have hclose : IsText (ascii "\x7d") := isText_of_asciiOnly (by decide)
  refine ⟨(hopen.append (isText_indentText _ _)).append (htext.append hclose),
    fun rest fuel lex hrest hfuel hreads => ?_⟩
  have hlen : 3 * (text.length + 2) + 1 ≤ fuel := by
    have h₁ : (ascii "\x7b").length = 1 := rfl
    have h₂ : (ascii "\x7d").length = 1 := rfl
    simp only [List.length_append, h₁, h₂] at hfuel
    omega
  obtain ⟨n, rfl⟩ : ∃ n, fuel = n + 2 := ⟨fuel - 2, by omega⟩
  have hstart : Reads ('\x7b'.toUInt8 ::
      (indentText flags depth false ++ (text ++ '\x7d'.toUInt8 :: rest))) lex := by
    simpa [ascii] using hreads
  obtain ⟨lex₁, hscan₁, htoken₁, hreads₁⟩ := lex_scan_char jsonp_strtod (by decide) hstart
  obtain ⟨lex₂, hscan₂, hreads₂⟩ :=
    lex_scan_blanks jsonp_strtod (fun _ hu => mem_indentText hu) hreads₁
  obtain ⟨lex₃, lex₄, hscan₃, htoken₃, hparse, hreads₄⟩ :=
    hread [] rest n lex₂ hnodup (by omega) hreads₂
  refine ⟨lex₁, lex₄, hscan₁, htoken₁, ?_, hreads₄⟩
  have hbrace : lex₃.token ≠ .char '\x7d' := by
    rcases fields with _ | ⟨f, fields⟩
    · exact absurd rfl hne
    · rw [Option.some.inj htoken₃]
      simp
  rw [parse_value_object jsonp_strtod lflags htoken₁, parse_object, hscan₂, hscan₃]
  simp only [Traced.liftM_eq, Traced.ofExcept_ok_bind, hbrace, if_false]
  exact hparse

variable (jsonp_strtod) in
/-- A key is read, and what is read behind it is a value. -/
lemma lex_scan_keyText {key : String} (hkey : ZeroFree key) {text : List UInt8} {lex : Lexer}
    (h : Reads (keyText flags key ++ text) lex) :
    ∃ lex₁ lex₂ lex₃, lex_scan jsonp_strtod lex = .ok lex₁ ∧ lex₁.token = .TOKEN_STRING key ∧
      lex_scan jsonp_strtod lex₁ = .ok lex₂ ∧ lex₂.token = .char ':' ∧
      lex_scan jsonp_strtod lex₂ = lex_scan jsonp_strtod lex₃ ∧ Reads text lex₃ := by
  rw [keyText, List.append_assoc] at h
  obtain ⟨lex₁, hscan₁, htoken₁, hreads₁⟩ := readAs_dump_string flags jsonp_strtod hkey _ lex h
  rw [String.ofList_toList] at htoken₁
  obtain ⟨blanks, hblanks, hcolon⟩ : ∃ blanks, (∀ u ∈ blanks, u ∈ ascii "\n ") ∧
      ascii (if hasFlag flags JSON_COMPACT then ":" else ": ") = ':'.toUInt8 :: blanks := by
    split
    · exact ⟨[], by simp, rfl⟩
    · exact ⟨[' '.toUInt8], List.all_iff_forall_prop.mp (by decide), rfl⟩
  rw [hcolon, List.cons_append] at hreads₁
  obtain ⟨lex₂, hscan₂, htoken₂, hreads₂⟩ := lex_scan_char jsonp_strtod (by decide) hreads₁
  obtain ⟨lex₃, hscan₃, hreads₃⟩ := lex_scan_blanks jsonp_strtod hblanks hreads₂
  exact ⟨lex₁, lex₂, lex₃, hscan₁, htoken₁, hscan₂, htoken₂, hscan₃, hreads₃⟩

/-- A new key is set behind the others. -/
lemma setField_of_notMem {key : String} (value : Json) {fields : List (String × Json)}
    (h : key ∉ fields.map Prod.fst) :
    Json.setField key value fields = fields ++ [(key, value)] ∧ fields.lookup key = none := by
  induction fields with
  | nil => exact ⟨rfl, rfl⟩
  | cons f fields ih =>
    obtain ⟨k, v⟩ := f
    rw [List.map_cons, List.mem_cons, not_or] at h
    obtain ⟨hset, hlookup⟩ := ih h.2
    refine ⟨?_, ?_⟩
    · rw [Json.setField, if_neg (Ne.symm h.1), hset, List.cons_append]
    · rw [List.lookup_cons, beq_eq_false_iff_ne.mpr h.1, hlookup]

/-- A new key is not shown, and not rejected. -/
lemma parse_pairs_new {fuel : ℕ} {acc : List (String × Json)} {key : String}
    {lex lex₁ lex₂ lex₃ : Lexer} {value : Json} (hnew : key ∉ acc.map Prod.fst)
    (htoken : lex.token = .TOKEN_STRING key) (hscan₁ : lex_scan jsonp_strtod lex = .ok lex₁)
    (hcolon : lex₁.token = .char ':') (hscan₂ : lex_scan jsonp_strtod lex₁ = .ok lex₂)
    (hvalue : parse_value jsonp_strtod lflags fuel lex₂ = pure (value, lex₃)) :
    parse_pairs jsonp_strtod lflags (fuel + 1) acc lex = (do
      let lex ← lex_scan jsonp_strtod lex₃
      if lex.token = .char ',' then
        let lex ← lex_scan jsonp_strtod lex
        parse_pairs jsonp_strtod lflags fuel (acc ++ [(key, value)]) lex
      else if lex.token = .char '\x7d' then return (.object (acc ++ [(key, value)]), lex)
      else lex.reject "'\x7d' expected") := by
  obtain ⟨hset, hlookup⟩ := setField_of_notMem value hnew
  rw [parse_pairs, htoken]
  simp only [showRepeated, hlookup, Option.isSome_none, Bool.false_eq_true, if_false, pure_bind,
    Bool.and_false, hscan₁, hscan₂, Traced.liftM_eq, Traced.ofExcept_ok_bind, hcolon, ne_eq,
    not_true_eq_false, hvalue, hset]

/-- The last pair of an object. -/
lemma ReadsBack.pairsReadBack (flags depth : ℕ) {key : String} {v : Json} {text : List UInt8}
    (hkey : ZeroFree key) (h : ReadsBack jsonp_strtod lflags v text) :
    PairsReadBack jsonp_strtod lflags [(key, v)]
      (keyText flags key ++ (text ++ indentText flags depth false)) := by
  obtain ⟨htext, hread⟩ := h
  refine ⟨(isText_keyText hkey).append (htext.append (isText_indentText _ _)),
    fun acc rest fuel lex hnodup hfuel hreads => ?_⟩
  rw [List.length_append, List.length_append] at hfuel
  obtain ⟨n, rfl⟩ : ∃ n, fuel = n + 1 := ⟨fuel - 1, by omega⟩
  rw [List.append_assoc, List.append_assoc] at hreads
  obtain ⟨lex₁, lex₂, lex₃, hscan₁, htoken₁, hscan₂, hcolon, hscan₃, hreads₃⟩ :=
    lex_scan_keyText jsonp_strtod hkey hreads
  obtain ⟨lex₄, lex₅, hscan₄, -, hvalue, hreads₅⟩ :=
    hread _ n lex₃ (closing_indentText (by decide) rest) (by omega) hreads₃
  obtain ⟨lex₆, hscan₆, hreads₆⟩ :=
    lex_scan_blanks jsonp_strtod (fun _ hu => mem_indentText hu) hreads₅
  obtain ⟨lex₇, hscan₇, htoken₇, hreads₇⟩ := lex_scan_char jsonp_strtod (by decide) hreads₆
  have hnew : key ∉ acc.map Prod.fst := fun hmem => by
    rw [List.map_append, List.nodup_append] at hnodup
    exact hnodup.2.2 key hmem key (List.mem_cons_self ..) rfl
  refine ⟨lex₁, lex₇, hscan₁, congrArg some htoken₁, ?_, hreads₇⟩
  rw [parse_pairs_new hnew htoken₁ hscan₂ hcolon (hscan₃.trans hscan₄) hvalue, hscan₆, hscan₇]
  simp only [Traced.liftM_eq, Traced.ofExcept_ok_bind, htoken₇]
  simp

/-- One pair more. -/
lemma ReadsBack.pairs_cons (flags depth : ℕ) {key : String} {v : Json}
    {fields : List (String × Json)} {text text' : List UInt8} (hkey : ZeroFree key)
    (h : ReadsBack jsonp_strtod lflags v text)
    (hfields : PairsReadBack jsonp_strtod lflags fields text') :
    PairsReadBack jsonp_strtod lflags ((key, v) :: fields) (keyText flags key ++
      (text ++ (ascii "," ++ indentText flags depth true ++ text'))) := by
  obtain ⟨htext, hread⟩ := h
  obtain ⟨htext', hread'⟩ := hfields
  have hcomma : IsText (ascii ",") := isText_of_asciiOnly (by decide)
  refine ⟨(isText_keyText hkey).append
    (htext.append ((hcomma.append (isText_indentText _ _)).append htext')),
    fun acc rest fuel lex hnodup hfuel hreads => ?_⟩
  have hlen : 3 * (text.length + (1 + text'.length)) + 2 ≤ fuel := by
    have h₁ : (ascii ",").length = 1 := rfl
    simp only [List.length_append, h₁] at hfuel
    omega
  obtain ⟨n, rfl⟩ : ∃ n, fuel = n + 1 := ⟨fuel - 1, by omega⟩
  have hstart : Reads (keyText flags key ++ (text ++ (','.toUInt8 ::
      (indentText flags depth true ++ (text' ++ '\x7d'.toUInt8 :: rest))))) lex := by
    simpa [ascii] using hreads
  have hclosing : Closing (','.toUInt8 ::
      (indentText flags depth true ++ (text' ++ '\x7d'.toUInt8 :: rest))) := by
    rintro c ⟨⟩
    decide
  obtain ⟨lex₁, lex₂, lex₃, hscan₁, htoken₁, hscan₂, hcolon, hscan₃, hreads₃⟩ :=
    lex_scan_keyText jsonp_strtod hkey hstart
  obtain ⟨lex₄, lex₅, hscan₄, -, hvalue, hreads₅⟩ :=
    hread _ n lex₃ hclosing (by omega) hreads₃
  obtain ⟨lex₆, hscan₆, htoken₆, hreads₆⟩ := lex_scan_char jsonp_strtod (by decide) hreads₅
  obtain ⟨lex₇, hscan₇, hreads₇⟩ :=
    lex_scan_blanks jsonp_strtod (fun _ hu => mem_indentText hu) hreads₆
  have hnew : key ∉ acc.map Prod.fst := fun hmem => by
    rw [List.map_append, List.nodup_append] at hnodup
    exact hnodup.2.2 key hmem key (List.mem_cons_self ..) rfl
  have hnodup' : ((acc ++ [(key, v)] ++ fields).map Prod.fst).Nodup := by
    rwa [List.append_assoc, List.singleton_append]
  obtain ⟨lex₈, lex₉, hscan₈, -, hparse, hreads₉⟩ :=
    hread' (acc ++ [(key, v)]) rest n lex₇ hnodup' (by omega) hreads₇
  refine ⟨lex₁, lex₉, hscan₁, congrArg some htoken₁, ?_, hreads₉⟩
  rw [parse_pairs_new hnew htoken₁ hscan₂ hcolon (hscan₃.trans hscan₄) hvalue, hscan₆]
  simp only [Traced.liftM_eq, Traced.ofExcept_ok_bind, htoken₆, if_true, hscan₇, hscan₈, hparse]
  simp

/-- A text that is one token of its own. -/
lemma readsBack_word {v : Json} {w : List UInt8}
    (hw : w ∈ [ascii "true", ascii "false", ascii "null"]) (htoken : wordToken w = firstToken v)
    (hvalue : ∀ fuel lex, lex.token = firstToken v →
      parse_value jsonp_strtod lflags (fuel + 1) lex = pure (v, lex)) :
    ReadsBack jsonp_strtod lflags v w := by
  refine readsBack_of_readAs ?_ (fun rest hrest => htoken ▸ readAs_word hw hrest) hvalue
  simp only [List.mem_cons, List.not_mem_nil, or_false] at hw
  rcases hw with rfl | rfl | rfl
  · exact isText_of_asciiOnly (by decide)
  · exact isText_of_asciiOnly (by decide)
  · exact isText_of_asciiOnly (by decide)

lemma isText_of_digits {cs : List UInt8} (h : ∀ u ∈ cs, Digit u) : IsText cs := by
  have hall : asciiOnly (ascii "0123456789") = true := by decide
  exact isText_of_subset hall h

lemma isText_of_sign {sign : List UInt8} (h : Sign sign) : IsText sign := by
  rcases h with rfl | rfl
  · exact isText_of_asciiOnly rfl
  · exact isText_of_asciiOnly (by decide)

lemma readsBack_integer {n : ℤ} (hmin : LLONG_MIN ≤ n) (hmax : n ≤ LLONG_MAX) :
    ReadsBack jsonp_strtod lflags (.integer n) (ascii (toString n)) := by
  have hdigits := intDigits_decimal n.natAbs
  have hvalue := integerOf_signText n
  rw [ascii_toString]
  refine readsBack_of_readAs ((isText_of_sign (sign_signText n)).append
    (isText_of_digits (digit_of_mem_intDigits hdigits))) (fun rest hrest => ?_) fun fuel lex h => ?_
  · have hread := readAs_integer jsonp_strtod (sign_signText n) hdigits
      (by omega) (by omega) hrest
    rwa [hvalue] at hread
  · rw [parse_value, h]
    rfl

lemma readsBack_string (flags : ℕ) {s : String} (h : ZeroFree s) :
    ReadsBack jsonp_strtod lflags (.string s) (dump_string flags (utf8Bytes s.toList)).trace := by
  refine readsBack_of_readAs (isText_dump_string h) (fun rest _ => ?_) fun fuel lex h => ?_
  · have hread := readAs_dump_string flags jsonp_strtod h rest
    rwa [String.ofList_toList] at hread
  · rw [parse_value, h]
    rfl

/-- What is relied on about the C library: `%.17g` prints a finite number as a number, and
`strtod` reads what `jsonp_dtostr` makes of it as the same one; if this is zero, or a number with
a full mantissa, it reports no error. -/
structure RealsReadBack (snprintf_17g : UInt64 → List UInt8)
    (strtod : List UInt8 → UInt64 × Bool) : Prop where
  printed : ∀ bits, json_real bits ≠ none → PrintedReal (snprintf_17g bits)
  read : ∀ bits text, json_real bits ≠ none → isSubnormal bits = false →
    jsonp_dtostr snprintf_17g MAX_REAL_STR_LENGTH bits = some text → strtod text = (bits, false)

variable {snprintf_17g : UInt64 → List UInt8} {strtod : List UInt8 → UInt64 × Bool}

lemma readsBack_real (hreals : RealsReadBack snprintf_17g strtod) {bits : UInt64}
    (hbits : json_real bits ≠ none) (hnormal : isSubnormal bits = false) :
    ∃ text, jsonp_dtostr snprintf_17g MAX_REAL_STR_LENGTH bits = some text ∧
      ReadsBack (Headcrab.jsonp_strtod strtod) lflags (.real bits) text := by
  obtain ⟨sign, cs, fraction, exponent, htext, hsign, hcs, hfraction, hexponent, hne⟩ :=
    jsonp_dtostr_eq_some (hreals.printed bits hbits)
  have hread := hreals.read bits _ hbits hnormal htext
  refine ⟨_, htext, readsBack_of_readAs ?_ (fun rest hrest =>
    readAs_real hsign hcs hfraction hexponent hne (by rw [Headcrab.jsonp_strtod, hread]; rfl) hrest)
    fun fuel lex h => ?_⟩
  · have hdot : IsText (ascii ".") := isText_of_asciiOnly (by decide)
    have he : IsText (ascii "e") := isText_of_asciiOnly (by decide)
    refine (isText_of_sign hsign).append ((isText_of_digits (digit_of_mem_intDigits hcs)).append
      (IsText.append ?_ ?_))
    · rcases hfraction with rfl | ⟨d, ds, rfl, hdigit, hds⟩
      · exact isText_of_asciiOnly rfl
      · exact hdot.append (isText_of_digits (List.forall_mem_cons.mpr ⟨hdigit, hds⟩))
    · rcases hexponent with rfl | ⟨sign', d, ds, rfl, hsign', hdigit, hds⟩
      · exact isText_of_asciiOnly rfl
      · exact he.append ((isText_of_sign hsign').append
          (isText_of_digits (List.forall_mem_cons.mpr ⟨hdigit, hds⟩)))
  · rw [parse_value, h]
    simp only [firstToken, json_real_eq hbits]

mutual

/-- The real numbers in a value. -/
def Json.reals : Json → List UInt64
  | .object fields => Json.realsFields fields
  | .array items => Json.realsItems items
  | .real bits => [bits]
  | .string _ | .integer _ | .true | .false | .null => []

def Json.realsItems : List Json → List UInt64
  | [] => []
  | value :: items => value.reals ++ Json.realsItems items

def Json.realsFields : List (String × Json) → List UInt64
  | [] => []
  | (_, value) :: fields => value.reals ++ Json.realsFields fields

end

/-- What is written of the value, at any depth, is read back. -/
def DumpsBack (snprintf_17g : UInt64 → List UInt8)
    (jsonp_strtod : List UInt8 → Option UInt64) (flags lflags : ℕ) (v : Json) : Prop :=
  ∀ depth, ∃ text, do_dump snprintf_17g flags depth v = dump text ∧
    ReadsBack jsonp_strtod lflags v text

def ItemsDumpBack (snprintf_17g : UInt64 → List UInt8)
    (jsonp_strtod : List UInt8 → Option UInt64) (flags lflags : ℕ)
    (items : List Json) : Prop :=
  ∀ depth, ∃ text, dumpItems snprintf_17g flags depth items = dump text ∧
    ItemsReadBack jsonp_strtod lflags items text

def PairsDumpBack (snprintf_17g : UInt64 → List UInt8)
    (jsonp_strtod : List UInt8 → Option UInt64) (flags lflags : ℕ)
    (fields : List (String × Json)) : Prop :=
  ∀ depth, ∃ text, dumpPairs snprintf_17g flags depth fields = dump text ∧
    PairsReadBack jsonp_strtod lflags fields text

section Steps

variable {v : Json} {key : String} {items : List Json} {fields : List (String × Json)}

lemma ItemsDumpBack.array
    (h : ItemsDumpBack snprintf_17g jsonp_strtod flags lflags (v :: items)) :
    DumpsBack snprintf_17g jsonp_strtod flags lflags (.array (v :: items)) := by
  intro depth
  obtain ⟨text, htext, hread⟩ := h depth
  refine ⟨_, ?_, hread.array flags (depth + 1) (by simp)⟩
  rw [do_dump_array_cons, htext, dump_dump, dump_dump]

lemma PairsDumpBack.object
    (h : PairsDumpBack snprintf_17g jsonp_strtod flags lflags ((key, v) :: fields))
    (hnodup : (((key, v) :: fields).map Prod.fst).Nodup) :
    DumpsBack snprintf_17g jsonp_strtod flags lflags (.object ((key, v) :: fields)) := by
  intro depth
  obtain ⟨text, htext, hread⟩ := h depth
  refine ⟨_, ?_, hread.object flags (depth + 1) (by simp) hnodup⟩
  rw [do_dump_object_cons, htext, dump_dump, dump_dump]

lemma DumpsBack.single (h : DumpsBack snprintf_17g jsonp_strtod flags lflags v) :
    ItemsDumpBack snprintf_17g jsonp_strtod flags lflags [v] := by
  intro depth
  obtain ⟨text, htext, hread⟩ := h (depth + 1)
  refine ⟨_, ?_, hread.itemsReadBack flags depth⟩
  rw [dumpItems_cons, htext, dumpItems, dump_dump_bind, dump_pure]
  rfl

lemma DumpsBack.cons (h : DumpsBack snprintf_17g jsonp_strtod flags lflags v) {w : Json}
    (hitems : ItemsDumpBack snprintf_17g jsonp_strtod flags lflags (w :: items)) :
    ItemsDumpBack snprintf_17g jsonp_strtod flags lflags (v :: w :: items) := by
  intro depth
  obtain ⟨text, htext, hread⟩ := h (depth + 1)
  obtain ⟨text', htext', hread'⟩ := hitems depth
  refine ⟨_, ?_, hread.items_cons flags (depth + 1) hread'⟩
  rw [dumpItems_cons, htext, htext', dump_dump, dump_dump]
  rfl

lemma DumpsBack.singlePair (hkey : ZeroFree key)
    (h : DumpsBack snprintf_17g jsonp_strtod flags lflags v) :
    PairsDumpBack snprintf_17g jsonp_strtod flags lflags [(key, v)] := by
  intro depth
  obtain ⟨text, htext, hread⟩ := h (depth + 1)
  refine ⟨_, ?_, hread.pairsReadBack flags depth hkey⟩
  rw [dumpPairs_cons, htext, dumpPairs, dump_dump_bind, dump_dump_bind, List.append_assoc,
    dump_pure]
  rfl

lemma DumpsBack.consPair (hkey : ZeroFree key)
    (h : DumpsBack snprintf_17g jsonp_strtod flags lflags v) {f : String × Json}
    (hfields : PairsDumpBack snprintf_17g jsonp_strtod flags lflags (f :: fields)) :
    PairsDumpBack snprintf_17g jsonp_strtod flags lflags ((key, v) :: f :: fields) := by
  intro depth
  obtain ⟨text, htext, hread⟩ := h (depth + 1)
  obtain ⟨text', htext', hread'⟩ := hfields depth
  refine ⟨_, ?_, hread.pairs_cons flags (depth + 1) hkey hread'⟩
  rw [dumpPairs_cons, htext, htext', dump_dump_bind, dump_dump_bind, dump_dump]
  simp [separator]

lemma dumpsBack_of_dump {text : List UInt8}
    (hdump : ∀ depth, do_dump snprintf_17g flags depth v = dump text)
    (hread : ReadsBack jsonp_strtod lflags v text) :
    DumpsBack snprintf_17g jsonp_strtod flags lflags v :=
  fun depth => ⟨text, hdump depth, hread⟩

end Steps

mutual

/-- **What is written of a value is read back.** -/
lemma dumpsBack_of_valid (hreals : RealsReadBack snprintf_17g strtod) : ∀ v : Json, v.Valid →
    (∀ bits ∈ v.reals, isSubnormal bits = false) →
    DumpsBack snprintf_17g (Headcrab.jsonp_strtod strtod) flags lflags v
  | .null, _, _ => dumpsBack_of_dump (fun _ => by rw [do_dump])
      (readsBack_word (by simp) (by decide) fun fuel lex h => by rw [parse_value, h]; rfl)
  | .true, _, _ => dumpsBack_of_dump (fun _ => by rw [do_dump])
      (readsBack_word (by simp) (by decide) fun fuel lex h => by rw [parse_value, h]; rfl)
  | .false, _, _ => dumpsBack_of_dump (fun _ => by rw [do_dump])
      (readsBack_word (by simp) (by decide) fun fuel lex h => by rw [parse_value, h]; rfl)
  | .integer n, hv, _ => by
    rw [Json.Valid] at hv
    exact dumpsBack_of_dump (fun _ => by rw [do_dump]) (readsBack_integer hv.1 hv.2)
  | .real bits, hv, hnormal => by
    rw [Json.Valid] at hv
    rw [Json.reals, List.forall_mem_singleton] at hnormal
    obtain ⟨text, htext, hread⟩ := readsBack_real hreals hv hnormal
    exact dumpsBack_of_dump (fun _ => by rw [do_dump, htext]) hread
  | .string s, hv, _ => by
    rw [Json.Valid] at hv
    refine dumpsBack_of_dump (fun _ => ?_) (readsBack_string flags hv)
    rw [do_dump, dump_string_utf8Bytes]
    rfl
  | .array [], _, _ => dumpsBack_of_dump (do_dump_array_nil snprintf_17g) readsBack_array_nil
  | .array (v :: items), hv, hnormal => by
    rw [Json.Valid] at hv
    rw [Json.reals] at hnormal
    exact (itemsDumpBack_of_valid hreals (v :: items) hv hnormal (by simp)).array
  | .object [], _, _ => dumpsBack_of_dump (do_dump_object_nil snprintf_17g) readsBack_object_nil
  | .object ((key, v) :: fields), hv, hnormal => by
    rw [Json.Valid] at hv
    rw [Json.reals] at hnormal
    exact (pairsDumpBack_of_valid hreals ((key, v) :: fields) hv.2 hnormal (by simp)).object hv.1

lemma itemsDumpBack_of_valid (hreals : RealsReadBack snprintf_17g strtod) :
    ∀ items : List Json, Json.ValidItems items →
    (∀ bits ∈ Json.realsItems items, isSubnormal bits = false) → items ≠ [] →
    ItemsDumpBack snprintf_17g (Headcrab.jsonp_strtod strtod) flags lflags items
  | [], _, _, hne => absurd rfl hne
  | [v], hv, hnormal, _ => by
    rw [Json.ValidItems] at hv
    rw [Json.realsItems, List.forall_mem_append] at hnormal
    exact (dumpsBack_of_valid hreals v hv.1 hnormal.1).single
  | v :: w :: items, hv, hnormal, _ => by
    rw [Json.ValidItems] at hv
    rw [Json.realsItems, List.forall_mem_append] at hnormal
    exact (dumpsBack_of_valid hreals v hv.1 hnormal.1).cons
      (itemsDumpBack_of_valid hreals (w :: items) hv.2 hnormal.2 (by simp))

lemma pairsDumpBack_of_valid (hreals : RealsReadBack snprintf_17g strtod) :
    ∀ fields : List (String × Json), Json.ValidFields fields →
    (∀ bits ∈ Json.realsFields fields, isSubnormal bits = false) → fields ≠ [] →
    PairsDumpBack snprintf_17g (Headcrab.jsonp_strtod strtod) flags lflags fields
  | [], _, _, hne => absurd rfl hne
  | [(key, v)], hv, hnormal, _ => by
    rw [Json.ValidFields] at hv
    rw [Json.realsFields, List.forall_mem_append] at hnormal
    exact (dumpsBack_of_valid hreals v hv.1.2 hnormal.1).singlePair hv.1.1
  | (key, v) :: f :: fields, hv, hnormal, _ => by
    rw [Json.ValidFields] at hv
    rw [Json.realsFields, List.forall_mem_append] at hnormal
    exact (dumpsBack_of_valid hreals v hv.1.2 hnormal.1).consPair hv.1.1
      (pairsDumpBack_of_valid hreals (f :: fields) hv.2 hnormal.2 (by simp))

end

/-! ## `json_dumps` and `json_loads` -/

lemma reads_lex_init {text : List UInt8} (h : IsText text) : Reads text (lex_init text) := by
  obtain ⟨l, rfl, hl⟩ := h
  exact ⟨Or.inl rfl, l, rfl, hl, rfl⟩

/-- A text that is read back wherever it stands is read back as a message. -/
lemma ReadsBack.json_loads {v : Json} {text : List UInt8}
    (h : ReadsBack jsonp_strtod lflags v text)
    (hany : isContainer v = true ∨ hasFlag lflags JSON_DECODE_ANY = true) :
    json_loads jsonp_strtod text lflags = .ok v := by
  obtain ⟨htext, hread⟩ := h
  have hreads : Reads (text ++ []) (lex_init text) := by
    rw [List.append_nil]
    exact reads_lex_init htext
  obtain ⟨lex₁, lex₂, hscan, htoken, hvalue, hreads₂⟩ :=
    hread [] _ (lex_init text) (by simp [Closing]) (Nat.le_refl _) hreads
  obtain ⟨lex₃, hscan₃, htoken₃, -⟩ := readAs_eof jsonp_strtod lex₂ hreads₂
  have hstart : (!hasFlag lflags JSON_DECODE_ANY && lex₁.token ≠ .char '[' &&
      lex₁.token ≠ .char '\x7b') = false := by
    rcases hany with hcontainer | hdecode
    · rw [htoken]
      cases v <;> simp_all [isContainer, firstToken]
    · rw [hdecode]
      rfl
  rw [Headcrab.json_loads, parse_json, hscan]
  simp only [Traced.liftM_eq, Traced.ofExcept_ok_bind, hstart, Bool.false_eq_true, if_false, hvalue,
    pure_bind]
  split
  · rfl
  · rw [hscan₃]
    simp only [Traced.ofExcept_ok_bind, htoken₃, ne_eq, not_true_eq_false, if_false]
    rfl

/-- **What `json_dumps` writes, `json_loads` reads**, with whatever flags: the same value, if
it is a well-formed one whose real numbers are zero or have a full mantissa, and both sides take
a value that is neither an object nor an array. -/
theorem json_loads_json_dumps (hreals : RealsReadBack snprintf_17g strtod) {v : Json}
    (hv : v.Valid) (hnormal : ∀ bits ∈ v.reals, isSubnormal bits = false) (flags lflags : ℕ)
    (hany : isContainer v = true ∨
      hasFlag flags JSON_ENCODE_ANY = true ∧ hasFlag lflags JSON_DECODE_ANY = true) :
    ∃ text, json_dumps snprintf_17g v flags = some text ∧
      json_loads (Headcrab.jsonp_strtod strtod) text lflags = .ok v := by
  have hback : DumpsBack snprintf_17g (Headcrab.jsonp_strtod strtod) flags lflags v :=
    dumpsBack_of_valid hreals v hv hnormal
  obtain ⟨text, htext, hread⟩ := hback 0
  refine ⟨text, ?_, hread.json_loads (hany.imp_right And.right)⟩
  have hwritten : (!hasFlag flags JSON_ENCODE_ANY && !isContainer v) = false := by
    rcases hany with hcontainer | hencode
    · rw [hcontainer, Bool.not_true, Bool.and_false]
    · rw [hencode.1]
      rfl
  rw [json_dumps, hwritten, htext]
  rfl

/-- The library that prints bits in decimal reads what it has printed. -/
lemma readBits_eq {bits : UInt64} {text : List UInt8}
    (htext : jsonp_dtostr printBits MAX_REAL_STR_LENGTH bits = some text) :
    readBits text = (bits, isSubnormal bits) := by
  have hlt := bits.toNat_lt
  have hlen : (printBits bits).length ≤ 20 := length_decimal hlt
  have hdigits : ∀ u ∈ decimal bits.toNat, Digit u :=
    digit_of_mem_intDigits (intDigits_decimal _)
  have hno : ∀ u ∈ ascii "0123456789", u ≠ '.'.toUInt8 ∧ u ≠ 'e'.toUInt8 :=
    List.all_iff_forall_prop.mp (by decide)
  have hpoint : ('.'.toUInt8 ∉ decimal bits.toNat) ∧ 'e'.toUInt8 ∉ decimal bits.toNat :=
    ⟨fun hmem => (hno _ (hdigits _ hmem)).1 rfl, fun hmem => (hno _ (hdigits _ hmem)).2 rfl⟩
  have hmantissa : ∀ u ∈ decimal bits.toNat ++ ascii ".0", Mantissa u := by
    intro u hu
    rcases List.mem_append.mp hu with hu | hu
    · exact mantissa_of_digit (hdigits u hu)
    · exact mantissa_of_mem_fraction
        (Or.inr ⟨'0'.toUInt8, [], rfl, List.mem_cons_self .., by simp⟩) u hu
  obtain ⟨htake, hdrop⟩ := cut_exponent hmantissa (Or.inl rfl)
  rw [List.append_nil] at htake hdrop
  have hsize : MAX_REAL_STR_LENGTH = 100 := rfl
  rw [jsonp_dtostr_of_lt (by omega), printBits, withPoint, if_pos hpoint, shortExponent, htake,
    hdrop, List.append_nil] at htext
  have hwhole : (decimal bits.toNat ++ ascii ".0").takeWhile (· != '.'.toUInt8)
      = decimal bits.toNat := by
    rw [List.takeWhile_append_of_pos fun u hu => by simpa using (hno u (hdigits u hu)).1]
    simp [ascii]
  rw [readBits, ← Option.some.inj htext, hwhole, digitsValue_decimal, UInt64.ofNat_toNat]

lemma realsReadBack_bits : RealsReadBack printBits readBits where
  printed bits _ := by
    have hlt := bits.toNat_lt
    refine ⟨Nat.le_trans (length_decimal hlt) (by decide), [],
      decimal bits.toNat, [], [], by simp [printBits], Or.inl rfl, intDigits_decimal _,
      Or.inl rfl, Or.inl rfl⟩
  read bits text _ hnormal htext := by rw [readBits_eq htext, hnormal]

/-- A value with a key beyond ASCII, written in ASCII; the second number is 1.5. -/
theorem json_loads_json_dumps_bits :
    let v : Json := .object [("é", .array [.real 0, .real 0x3FF8000000000000, .integer (-7),
      .string "\n"]), ("b", .null)]
    ∃ text, json_dumps printBits v JSON_ENSURE_ASCII = some text ∧
      json_loads (Headcrab.jsonp_strtod readBits) text JSON_REJECT_DUPLICATES = .ok v := by
  refine json_loads_json_dumps realsReadBack_bits ?_ ?_ _ _ (Or.inl rfl)
  · have hreals : json_real 0 ≠ none ∧ json_real 0x3FF8000000000000 ≠ none := by decide
    simpa [Json.Valid, Json.ValidFields, Json.ValidItems, ZeroFree, LLONG_MIN, LLONG_MAX]
      using hreals
  · have hnormal : isSubnormal 0 = false ∧ isSubnormal 0x3FF8000000000000 = false := by decide
    simpa [Json.reals, Json.realsFields, Json.realsItems] using hnormal

/-- The smallest number is written, and then refused. -/
example : json_dumps printBits (.array [.real 1]) 0 = some (ascii "[1.0]") ∧
    (json_loads (Headcrab.jsonp_strtod readBits) (ascii "[1.0]") 0).toBool = false := by
  decide +kernel

end

end Headcrab
