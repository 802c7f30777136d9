/-
# Reading tokens: the lexer of `load.c`

jansson reads the text of a message byte by byte, checks that it is UTF-8, and cuts it into
tokens.  The functions are those of `load.c` and `utf.c`; the line and the column of an error
are left out, and `malloc` is taken to succeed.  How `strtod` rounds a number is left open:
`jsonp_strtod` is a parameter, with no value where it reports an overflow.

A token that is not the last one and not invalid has taken something off the text
(`size_lex_scan_lt`).
-/
import Headcrab.Json

namespace Headcrab

/-- How the reading of a text can fail. -/
inductive LoadError
  /-- `NULL` is returned, and the error has this text. -/
  | rejected (text : List UInt8)
  /-- An assertion of jansson fails, and the program ends. -/
  | abort
  /-- A byte behind the end of a buffer is read. -/
  | outOfBounds
  /-- The recursion does not end. -/
  | diverges
deriving DecidableEq, Repr

/-- The bytes of an ASCII text. -/
def ascii (s : String) : List UInt8 := s.toList.map Char.toUInt8

/-- `%x`. -/
def hex (n : ℕ) : List UInt8 := (Nat.toDigits 16 n).map Char.toUInt8

/-- `%04X`. -/
def hex04 (n : ℕ) : List UInt8 :=
  ((Nat.toDigits 16 n).leftpad 4 '0').map fun c => c.toUpper.toUInt8

/-! ## Characters and UTF-8 -/

/-- The state of a stream. -/
inductive StreamState
  | STREAM_STATE_OK
  | STREAM_STATE_EOF
  | STREAM_STATE_ERROR
deriving DecidableEq, Repr

/-- What `stream_get` returns: a byte, or how the stream has ended. -/
inductive Got
  | byte (c : UInt8)
  | STREAM_STATE_EOF
  | STREAM_STATE_ERROR
deriving DecidableEq, Repr

/-- The `int` that stands for it; `char` is signed. -/
def Got.toInt : Got → ℤ
  | .byte c => if c < 0x80 then c.toNat else c.toNat - 256
  | .STREAM_STATE_EOF => -1
  | .STREAM_STATE_ERROR => -2

/-- `c == x`, for an ASCII character `x`. -/
def Got.is (c : Got) (x : Char) : Bool := c == .byte x.toUInt8

def code (x : Char) : ℤ := x.toNat

def l_isupper (c : ℤ) : Bool := code 'A' ≤ c && c ≤ code 'Z'

def l_islower (c : ℤ) : Bool := code 'a' ≤ c && c ≤ code 'z'

def l_isalpha (c : ℤ) : Bool := l_isupper c || l_islower c

def l_isdigit (c : ℤ) : Bool := code '0' ≤ c && c ≤ code '9'

/-- The macro has `||` where `&&` is meant, so it holds of everything. -/
def l_isxdigit (c : ℤ) : Bool :=
  l_isdigit c || code 'A' ≤ c || c ≤ code 'F' || code 'a' ≤ c || c ≤ code 'f'

def utf8_check_first (u : UInt8) : ℕ :=
  if u < 0x80 then 1
  else if u ≤ 0xBF then 0
  else if u = 0xC0 ∨ u = 0xC1 then 0
  else if u ≤ 0xDF then 2
  else if u ≤ 0xEF then 3
  else if u ≤ 0xF4 then 4
  else 0

/-- `utf8_check_full`, whose argument `size` is the length of the buffer. -/
def utf8_check_full : List UInt8 → Bool
  | [] => false
  | u :: us =>
    let size := us.length + 1
    let first := if size = 2 then u.toNat &&& 0x1F else if size = 3 then u.toNat &&& 0xF
      else u.toNat &&& 0x7
    let value := us.foldl (fun value u => value <<< 6 + (u.toNat &&& 0x3F)) first
    2 ≤ size && size ≤ 4 && us.all (fun u => 0x80 ≤ u && u ≤ 0xBF) && value ≤ 0x10FFFF &&
      !(0xD800 ≤ value && value ≤ 0xDFFF) &&
      !(size = 2 && value < 0x80 || size = 3 && value < 0x800 || size = 4 && value < 0x10000)

/-- `utf8_encode`, for a code point up to `0x10FFFF`. -/
def utf8_encode (codepoint : ℕ) : List UInt8 :=
  let tail (shift : ℕ) : UInt8 := .ofNat (0x80 + (codepoint >>> shift &&& 0x3F))
  if codepoint < 0x80 then [.ofNat codepoint]
  else if codepoint < 0x800 then [.ofNat (0xC0 + (codepoint &&& 0x7C0) >>> 6), tail 0]
  else if codepoint < 0x10000 then
    [.ofNat (0xE0 + (codepoint &&& 0xF000) >>> 12), tail 6, tail 0]
  else [.ofNat (0xF0 + (codepoint &&& 0x1C0000) >>> 18), tail 12, tail 6, tail 0]

/-! ## The stream -/

inductive Token
  | TOKEN_INVALID
  | TOKEN_EOF
  /-- One of the characters that are tokens. -/
  | char (c : Char)
  | TOKEN_STRING (value : String)
  | TOKEN_INTEGER (value : ℤ)
  | TOKEN_REAL (bits : UInt64)
  | TOKEN_TRUE
  | TOKEN_FALSE
  | TOKEN_NULL
deriving DecidableEq, Repr

/-- A lexer with its stream, and with the text of the error. -/
structure Lexer where
  /-- What `string_get` has not read yet, up to the end of the buffer. -/
  data : List UInt8
  /-- The bytes of a UTF-8 sequence that have been read but not delivered. -/
  buffer : List UInt8
  state : StreamState
  saved_text : List UInt8
  token : Token
  /-- Empty as long as no error is set. -/
  text : List UInt8
deriving DecidableEq, Repr

/-- A byte, or the end of the string. -/
def string_get : List UInt8 → Option UInt8 × List UInt8
  | [] => (none, [])
  | c :: data => if c = 0 then (none, c :: data) else (some c, data)

/-- The bytes that continue a UTF-8 sequence; `EOF` becomes the byte `0xFF`. -/
def string_gets : ℕ → List UInt8 → List UInt8 × List UInt8
  | 0, data => ([], data)
  | n + 1, data =>
    let (c, data) := string_get data
    let (cs, data) := string_gets n data
    (c.getD 0xFF :: cs, data)

namespace Lexer

def lex_init (data : List UInt8) : Lexer := ⟨data, [], .STREAM_STATE_OK, [], .TOKEN_INVALID, []⟩

/-- `error_set`: an error that is set stays, and a short token is shown. -/
def error_set (lex : Lexer) (msg : List UInt8) : Lexer :=
  if lex.text ≠ [] then lex
  else if lex.saved_text ≠ [] then
    { lex with text :=
        if lex.saved_text.length ≤ 20 then
          msg ++ ascii " near '" ++ lex.saved_text ++ ascii "'"
        else msg }
  else if lex.state = .STREAM_STATE_ERROR then { lex with text := msg }
  else { lex with text := msg ++ ascii " near end of file" }

def stream_get (lex : Lexer) : Got × Lexer :=
  match lex.state with
  | .STREAM_STATE_EOF => (.STREAM_STATE_EOF, lex)
  | .STREAM_STATE_ERROR => (.STREAM_STATE_ERROR, lex)
  | .STREAM_STATE_OK =>
    match lex.buffer with
    | c :: buffer => (.byte c, { lex with buffer })
    | [] =>
      match string_get lex.data with
      | (none, _) => (.STREAM_STATE_EOF, { lex with state := .STREAM_STATE_EOF })
      | (some c, data) =>
        if c < 0x80 then (.byte c, { lex with data })
        else
          let count := utf8_check_first c
          let (cs, rest) := string_gets (count - 1) data
          if count ≠ 0 && utf8_check_full (c :: cs) then
            (.byte c, { lex with data := rest, buffer := cs })
          else
            (.STREAM_STATE_ERROR,
              { lex with state := .STREAM_STATE_ERROR }.error_set
                (ascii "unable to decode byte 0x" ++ hex c.toNat))

/-- A byte that is given back is the next one. -/
def stream_unget (lex : Lexer) : Got → Lexer
  | .byte c => { lex with buffer := c :: lex.buffer }
  | _ => lex

def lex_save (lex : Lexer) (c : UInt8) : Lexer := { lex with saved_text := lex.saved_text ++ [c] }

def lex_get_save (lex : Lexer) : Got × Lexer :=
  match lex.stream_get with
  | (.byte c, lex) => (.byte c, lex.lex_save c)
  | (c, lex) => (c, lex)

def lex_unget_unsave (lex : Lexer) (c : Got) : Lexer :=
  match c with
  | .byte _ =>
    let lex := lex.stream_unget c
    { lex with saved_text := lex.saved_text.dropLast }
  | _ => lex

/-- The rest of the UTF-8 sequence is saved. -/
def lex_save_cached (lex : Lexer) : Lexer :=
  { lex with saved_text := lex.saved_text ++ lex.buffer, buffer := [] }

/-! ## What stays as it is -/

/-- Setting an error changes the text only. -/
lemma error_set_frame (lex : Lexer) (msg : List UInt8) :
    ∃ text, lex.error_set msg = { lex with text } := by
  unfold error_set
  split
  · exact ⟨lex.text, rfl⟩
  · split
    · exact ⟨_, rfl⟩
    · split <;> exact ⟨_, rfl⟩

/-- Reading a character changes the stream and the text only. -/
lemma stream_get_frame (lex : Lexer) :
    ∃ data buffer state text, lex.stream_get.2 = { lex with data, buffer, state, text } := by
  rw [stream_get]
  split
  · exact ⟨_, _, _, _, rfl⟩
  · exact ⟨_, _, _, _, rfl⟩
  · split
    · exact ⟨_, _, _, _, rfl⟩
    · split
      · exact ⟨_, _, _, _, rfl⟩
      · split
        · exact ⟨_, _, _, _, rfl⟩
        · simp only
          split
          · exact ⟨_, _, _, _, rfl⟩
          · obtain ⟨text, h⟩ := error_set_frame { lex with state := .STREAM_STATE_ERROR } _
            exact ⟨_, _, _, text, h⟩

lemma saved_text_stream_get (lex : Lexer) : lex.stream_get.2.saved_text = lex.saved_text := by
  obtain ⟨data, buffer, state, text, h⟩ := stream_get_frame lex
  rw [h]

/-! ## What is left to read -/

/-- The number of bytes that may still come. -/
def size (lex : Lexer) : ℕ := lex.data.length + lex.buffer.length

/-- The same, with a byte that has just been read and may be given back. -/
def pending (x : Got × Lexer) : ℕ :=
  match x.1 with
  | .byte _ => x.2.size + 1
  | _ => x.2.size

lemma size_error_set (lex : Lexer) (msg : List UInt8) : (lex.error_set msg).size = lex.size := by
  obtain ⟨text, h⟩ := error_set_frame lex msg
  rw [h]
  rfl

lemma size_lex_save (lex : Lexer) (c : UInt8) : (lex.lex_save c).size = lex.size := rfl

lemma size_stream_unget (x : Got × Lexer) : (x.2.stream_unget x.1).size = pending x := by
  obtain ⟨c, lex⟩ := x
  cases c with
  | byte c =>
    simp only [stream_unget, size, pending, List.length_cons]
    omega
  | STREAM_STATE_EOF | STREAM_STATE_ERROR => rfl

lemma size_lex_unget_unsave (x : Got × Lexer) : (x.2.lex_unget_unsave x.1).size = pending x := by
  obtain ⟨c, lex⟩ := x
  cases c with
  | byte c => exact size_stream_unget (.byte c, lex)
  | STREAM_STATE_EOF | STREAM_STATE_ERROR => rfl

lemma data_of_string_get {c : UInt8} {data data' : List UInt8}
    (h : string_get data = (some c, data')) : data = c :: data' := by
  rcases data with _ | ⟨d, data⟩
  · exact absurd h (by simp [string_get])
  · rw [string_get] at h
    split at h
    · exact absurd h (by simp)
    · obtain ⟨hc, rfl⟩ := Prod.mk.inj h
      rw [Option.some.inj hc]

/-- Continuation bytes are taken off the text, one by one. -/
lemma data_of_string_gets {n : ℕ} {data cs data' : List UInt8}
    (h : string_gets n data = (cs, data')) (hcs : ∀ c ∈ cs, c ≤ 0xBF) : data = cs ++ data' := by
  induction n generalizing data cs data' with
  | zero =>
    obtain ⟨rfl, rfl⟩ := Prod.mk.inj h
    rfl
  | succ n ih =>
    rw [string_gets] at h
    rcases hget : string_get data with ⟨c, data₁⟩
    rcases hgets : string_gets n data₁ with ⟨cs₁, data₂⟩
    simp only [hget, hgets, Prod.mk.injEq] at h
    obtain ⟨rfl, rfl⟩ := h
    have hrest := ih hgets fun c hc => hcs c (List.mem_cons_of_mem _ hc)
    rcases c with _ | c
    · exact absurd (hcs 0xFF (by simp)) (by decide)
    · rw [data_of_string_get hget, hrest]
      rfl

lemma utf8_check_full_tail {u : UInt8} {us : List UInt8} (h : utf8_check_full (u :: us) = true) :
    ∀ c ∈ us, c ≤ 0xBF := by
  intro c hc
  simp only [utf8_check_full, Bool.and_eq_true, List.all_eq_true, decide_eq_true_eq] at h
  exact (h.1.1.1.2 c hc).2

/-- A byte that is read is taken off the text. -/
lemma pending_stream_get (lex : Lexer) : pending lex.stream_get ≤ lex.size := by
  rw [stream_get]
  split
  · exact Nat.le_refl _
  · exact Nat.le_refl _
  · split
    · rename_i c buffer hbuffer
      simp only [pending, size, hbuffer, List.length_cons]
      omega
    · rename_i hbuffer
      split
      · exact Nat.le_refl _
      · rename_i c data hget
        have hlen := congrArg List.length (data_of_string_get hget)
        rw [List.length_cons] at hlen
        split
        · simp only [pending, size]
          omega
        · rcases hgets : string_gets (utf8_check_first c - 1) data with ⟨cs, rest⟩
          simp only [hgets]
          split
          · rename_i hfull
            rw [Bool.and_eq_true] at hfull
            have hrest := congrArg List.length
              (data_of_string_gets hgets (utf8_check_full_tail hfull.2))
            rw [List.length_append] at hrest
            simp only [pending, size, hbuffer, List.length_nil]
            omega
          · simp only [pending, size_error_set]
            exact Nat.le_refl _

lemma pending_lex_get_save (lex : Lexer) : pending lex.lex_get_save ≤ lex.size := by
  have h := pending_stream_get lex
  rw [lex_get_save]
  split
  · rename_i c lex' hget
    rw [hget] at h
    exact h
  · rename_i c lex' hget
    rw [hget] at h
    exact h

/-! ## The tokens -/

/-- `while(test(c)) c = lex_get_save(lex, error);` -/
def saveWhile (test : ℤ → Bool) (x : Got × Lexer) : Got × Lexer :=
  match x with
  | (.byte c, lex) =>
    if test (Got.toInt (.byte c)) then saveWhile test lex.lex_get_save else (.byte c, lex)
  | (c, lex) => (c, lex)
termination_by pending x
decreasing_by
  have h := pending_lex_get_save lex
  simp only [pending] at h ⊢
  omega

/-- The loop over blanks, which are not saved. -/
def skipBlanks (x : Got × Lexer) : Got × Lexer :=
  match x with
  | (.byte c, lex) =>
    if Got.is (.byte c) ' ' || Got.is (.byte c) '\t' || Got.is (.byte c) '\n' ||
        Got.is (.byte c) '\r' then skipBlanks lex.stream_get
    else (.byte c, lex)
  | (c, lex) => (c, lex)
termination_by pending x
decreasing_by
  have h := pending_stream_get lex
  simp only [pending] at h ⊢
  omega

/-- The four characters behind `\u`, with whether all of them passed the test. -/
def scanHex : ℕ → Got × Lexer → Bool × Got × Lexer
  | 0, x => (true, x)
  | i + 1, (c, lex) => if l_isxdigit c.toInt then scanHex i lex.lex_get_save else (false, c, lex)

lemma size_snd_le (x : Got × Lexer) : x.2.size ≤ pending x := by
  obtain ⟨c, lex⟩ := x
  cases c with
  | byte c => exact Nat.le_succ _
  | STREAM_STATE_EOF | STREAM_STATE_ERROR => exact Nat.le_refl _

lemma pending_saveWhile (test : ℤ → Bool) (x : Got × Lexer) :
    pending (saveWhile test x) ≤ pending x := by
  fun_induction saveWhile test x with
  | case1 c lex htest ih =>
    have h := pending_lex_get_save lex
    simp only [pending] at ih h ⊢
    omega
  | case2 c lex htest => exact Nat.le_refl _
  | case3 c lex => exact Nat.le_refl _

lemma pending_skipBlanks (x : Got × Lexer) : pending (skipBlanks x) ≤ pending x := by
  fun_induction skipBlanks x with
  | case1 c lex hblank ih =>
    have h := pending_stream_get lex
    simp only [pending] at ih h ⊢
    omega
  | case2 c lex hblank => exact Nat.le_refl _
  | case3 c lex => exact Nat.le_refl _

lemma saved_text_skipBlanks (x : Got × Lexer) : (skipBlanks x).2.saved_text = x.2.saved_text := by
  fun_induction Lexer.skipBlanks x with
  | case1 c lex hblank ih => exact ih.trans (saved_text_stream_get lex)
  | case2 c lex hblank => rfl
  | case3 c lex => rfl

lemma pending_scanHex (i : ℕ) (x : Got × Lexer) : pending (scanHex i x).2 ≤ pending x := by
  induction i generalizing x with
  | zero => exact Nat.le_refl _
  | succ i ih =>
    obtain ⟨c, lex⟩ := x
    rw [scanHex]
    split
    · exact Nat.le_trans (ih _) (Nat.le_trans (pending_lex_get_save lex) (size_snd_le (c, lex)))
    · exact Nat.le_refl _

/-- Two characters further, as behind a backslash. -/
lemma pending_lex_get_save_snd (lex : Lexer) :
    pending lex.lex_get_save.2.lex_get_save ≤ lex.size := by
  have hget := pending_lex_get_save lex
  have hsnd := size_snd_le lex.lex_get_save
  exact Nat.le_trans (pending_lex_get_save lex.lex_get_save.2) (Nat.le_trans hsnd hget)

/-- The four digits behind `\u`. -/
lemma pending_scanHex_escape (i : ℕ) (lex : Lexer) :
    pending (scanHex i lex.lex_get_save.2.lex_get_save).2 ≤ lex.size :=
  Nat.le_trans (pending_scanHex i _) (pending_lex_get_save_snd lex)

/-- The first loop of `lex_scan_string`, up to the closing quote. -/
def scanChars (x : Got × Lexer) : Bool × Lexer :=
  match x with
  | (.STREAM_STATE_ERROR, lex) => (false, lex)
  | (.STREAM_STATE_EOF, lex) => (false, lex.error_set (ascii "premature end of input"))
  | (.byte c, lex) =>
    if Got.is (.byte c) '\x22' then (true, lex)
    else if c ≤ 0x1F then
      (false, (lex.lex_unget_unsave (.byte c)).error_set
        (if Got.is (.byte c) '\n' then ascii "unexpected newline"
        else ascii "control character 0x" ++ hex c.toNat))
    else if Got.is (.byte c) '\\' then
      let x := lex.lex_get_save
      if x.1.is 'u' then
        let y := scanHex 4 x.2.lex_get_save
        if y.1 then scanChars y.2 else (false, y.2.2.error_set (ascii "invalid escape"))
      else if ['\x22', '\\', '/', 'b', 'f', 'n', 'r', 't'].any x.1.is then
        scanChars x.2.lex_get_save
      else (false, x.2.error_set (ascii "invalid escape"))
    else scanChars lex.lex_get_save
termination_by pending x
decreasing_by
  · exact Nat.lt_succ_of_le (pending_scanHex_escape 4 lex)
  · exact Nat.lt_succ_of_le (pending_lex_get_save_snd lex)
  · exact Nat.lt_succ_of_le (pending_lex_get_save lex)

end Lexer

/-- A digit of `decode_unicode_escape`, with `assert(0)` for any other character. -/
def hexDigit (c : UInt8) : Except LoadError ℕ :=
  let i := Got.toInt (.byte c)
  if l_isdigit i then .ok (c.toNat - '0'.toNat)
  else if l_islower i then .ok (c.toNat - 'a'.toNat + 10)
  else if l_isupper i then .ok (c.toNat - 'A'.toNat + 10)
  else .error .abort

/-- `decode_unicode_escape`, from behind the `u`; the end of the text is no digit. -/
def decode_unicode_escape : List UInt8 → Except LoadError ℕ
  | a :: b :: c :: d :: _ => do
    let value ← hexDigit a
    let value := value <<< 4 + (← hexDigit b)
    let value := value <<< 4 + (← hexDigit c)
    return value <<< 4 + (← hexDigit d)
  | _ => .error .abort

/-- The characters that are escaped by one letter. -/
def shortEscape (c : UInt8) : Option UInt8 :=
  if c = '\x22'.toUInt8 ∨ c = '\\'.toUInt8 ∨ c = '/'.toUInt8 then some c
  else if c = 'b'.toUInt8 then some 0x08
  else if c = 'f'.toUInt8 then some 0x0C
  else if c = 'n'.toUInt8 then some 0x0A
  else if c = 'r'.toUInt8 then some 0x0D
  else if c = 't'.toUInt8 then some 0x09
  else none

/-- The second loop of `lex_scan_string`: the bytes of the string, or the message of an
error. -/
def unescape (t p : List UInt8) : Except LoadError (Except (List UInt8) (List UInt8)) :=
  match p with
  | [] => .error .outOfBounds
  | c :: p =>
    if c = '\x22'.toUInt8 then .ok (.ok t)
    else if c ≠ '\\'.toUInt8 then unescape (t ++ [c]) p
    else
      match p with
      | [] => .error .abort
      | e :: p =>
        if e = 'u'.toUInt8 then do
          let value ← decode_unicode_escape p
          let p' := p.drop 4
          if 0xD800 ≤ value ∧ value ≤ 0xDBFF then
            if p'.take 2 = ascii "\\u" then
              let value2 ← decode_unicode_escape (p'.drop 2)
              if 0xDC00 ≤ value2 ∧ value2 ≤ 0xDFFF then
                let value := (value - 0xD800) <<< 10 + (value2 - 0xDC00) + 0x10000
                unescape (t ++ utf8_encode value) (p'.drop 6)
              else
                return .error (ascii "invalid Unicode '\\u" ++ hex04 value ++ ascii "\\u"
                  ++ hex04 value2 ++ ascii "'")
            else return .error (ascii "invalid Unicode '\\u" ++ hex04 value ++ ascii "'")
          else if 0xDC00 ≤ value ∧ value ≤ 0xDFFF then
            return .error (ascii "invalid Unicode '\\u" ++ hex04 value ++ ascii "'")
          else if value = 0 then return .error (ascii "\\u0000 is not allowed")
          else unescape (t ++ utf8_encode value) p'
        else
          match shortEscape e with
          | some x => unescape (t ++ [x]) p
          | none => .error .abort
termination_by p.length

/-- The characters of a string: `stream_get` lets only UTF-8 pass. -/
def toText (bytes : List UInt8) : String := (String.fromUTF8? ⟨bytes.toArray⟩).getD ""

/-- The largest and the smallest `json_int_t`. -/
def LLONG_MAX : ℤ := 0x7FFFFFFFFFFFFFFF

def LLONG_MIN : ℤ := -0x8000000000000000

def digitsValue (digits : List UInt8) : ℕ :=
  digits.foldl (fun n d => n * 10 + (d.toNat - '0'.toNat)) 0

/-- The number that `json_strtoint` reads, before it is cut off at the bounds. -/
def integerOf : List UInt8 → ℤ
  | [] => 0
  | c :: digits => if c = '-'.toUInt8 then -digitsValue digits else digitsValue (c :: digits)

section Tokens

variable (jsonp_strtod : List UInt8 → Option UInt64)

namespace Lexer

def lex_scan_string (lex : Lexer) : Except LoadError Lexer :=
  match scanChars { lex with token := .TOKEN_INVALID }.lex_get_save with
  | (false, lex) => .ok lex
  | (true, lex) => do
    match ← unescape [] (lex.saved_text.drop 1) with
    | .error msg => return lex.error_set msg
    | .ok value => return { lex with token := .TOKEN_STRING (toText value) }

/-- The digits in front of the point; an error is `goto out`. -/
def scanInteger (x : Got × Lexer) : Except Lexer (Got × Lexer) :=
  let x := if x.1.is '-' then x.2.lex_get_save else x
  if x.1.is '0' then
    let x := x.2.lex_get_save
    if l_isdigit x.1.toInt then .error (x.2.lex_unget_unsave x.1) else .ok x
  else if l_isdigit x.1.toInt then .ok (saveWhile l_isdigit x.2.lex_get_save)
  else .error (x.2.lex_unget_unsave x.1)

/-- The point, if there is one, and the digits behind it. -/
def scanFraction (x : Got × Lexer) : Except Lexer (Got × Lexer) :=
  if x.1.is '.' then
    match x.2.stream_get with
    | (.byte c, lex) =>
      if l_isdigit (Got.toInt (.byte c)) then
        .ok (saveWhile l_isdigit (lex.lex_save c).lex_get_save)
      else .error (lex.stream_unget (.byte c))
    | (c, lex) => .error (lex.stream_unget c)
  else .ok x

/-- The exponent, if there is one. -/
def scanExponent (x : Got × Lexer) : Except Lexer (Got × Lexer) :=
  if x.1.is 'E' || x.1.is 'e' then
    let x := x.2.lex_get_save
    let x := if x.1.is '+' || x.1.is '-' then x.2.lex_get_save else x
    if l_isdigit x.1.toInt then .ok (saveWhile l_isdigit x.2.lex_get_save)
    else .error (x.2.lex_unget_unsave x.1)
  else .ok x

/-- `lex_scan_number` on a first character that is read already; an error is `goto out`. -/
def scanNumber (x : Got × Lexer) : Except Lexer Lexer := do
  let x ← scanInteger x
  if !(x.1.is '.') && !(x.1.is 'E') && !(x.1.is 'e') then
    let lex := x.2.lex_unget_unsave x.1
    let value := integerOf lex.saved_text
    if value < LLONG_MIN then .error (lex.error_set (ascii "too big negative integer"))
    else if LLONG_MAX < value then .error (lex.error_set (ascii "too big integer"))
    else return { lex with token := .TOKEN_INTEGER value }
  else
    let x ← scanFraction x
    let x ← scanExponent x
    let lex := x.2.lex_unget_unsave x.1
    match jsonp_strtod lex.saved_text with
    | none => .error (lex.error_set (ascii "real number overflow"))
    | some bits => return { lex with token := .TOKEN_REAL bits }

def lex_scan_number (lex : Lexer) (c : Got) : Lexer :=
  match scanNumber jsonp_strtod (c, { lex with token := .TOKEN_INVALID }) with
  | .ok lex => lex
  | .error lex => lex

/-- The token of a word. -/
def wordToken (saved_text : List UInt8) : Token :=
  if saved_text = ascii "true" then .TOKEN_TRUE
  else if saved_text = ascii "false" then .TOKEN_FALSE
  else if saved_text = ascii "null" then .TOKEN_NULL
  else .TOKEN_INVALID

/-- `lex_scan`, behind the blanks: one token. -/
def scanToken (x : Got × Lexer) : Except LoadError Lexer :=
  match x with
  | (.STREAM_STATE_EOF, lex) => .ok { lex with token := .TOKEN_EOF }
  | (.STREAM_STATE_ERROR, lex) => .ok { lex with token := .TOKEN_INVALID }
  | (.byte b, lex) =>
    let c : Got := .byte b
    let lex := lex.lex_save b
    match ['\x7b', '\x7d', '[', ']', ':', ','].find? c.is with
    | some x => .ok { lex with token := .char x }
    | none =>
      if c.is '\x22' then lex.lex_scan_string
      else if l_isdigit c.toInt || c.is '-' then .ok (lex.lex_scan_number jsonp_strtod c)
      else if l_isalpha c.toInt then
        let y := saveWhile l_isalpha lex.lex_get_save
        let lex := y.2.lex_unget_unsave y.1
        .ok { lex with token := wordToken lex.saved_text }
      else .ok { lex.lex_save_cached with token := .TOKEN_INVALID }

def lex_scan (lex : Lexer) : Except LoadError Lexer :=
  scanToken jsonp_strtod (skipBlanks { lex with saved_text := [] }.stream_get)

end Lexer

end Tokens

namespace Lexer

/-! ## What a token takes off the text -/

/-- At most `n` bytes are left after a part of a number, also if it ends in `goto out`. -/
def Within {α : Type} (left : α → ℕ) (n : ℕ) : Except Lexer α → Prop
  | .ok x => left x ≤ n
  | .error lex => lex.size ≤ n

lemma Within.bind {α β : Type} {left : α → ℕ} {left' : β → ℕ} {n : ℕ} {x : Except Lexer α}
    {f : α → Except Lexer β} (hx : Within left n x) (hf : ∀ y, left y ≤ n → Within left' n (f y)) :
    Within left' n (x >>= f) := by
  rcases x with lex | y
  · exact hx
  · exact hf y hx

lemma Within.mono {α : Type} {left : α → ℕ} {n n' : ℕ} {x : Except Lexer α} (h : Within left n x)
    (hn : n ≤ n') : Within left n' x := by
  rcases x with lex | y
  · exact Nat.le_trans h hn
  · exact Nat.le_trans h hn

lemma scanInteger_within {c : Got} {lex : Lexer}
    (hc : (l_isdigit c.toInt || c.is '-') = true) :
    Within pending lex.size (scanInteger (c, lex)) := by
  have hget := pending_lex_get_save lex
  have hsnd := size_snd_le lex.lex_get_save
  have hget' := pending_lex_get_save lex.lex_get_save.2
  -- behind the sign there is at least one character less
  have hdigits : ∀ x : Got × Lexer, pending x ≤ lex.size →
      Within pending lex.size (.ok (saveWhile l_isdigit x.2.lex_get_save)) := fun x hx =>
    Nat.le_trans (pending_saveWhile _ _)
      (Nat.le_trans (pending_lex_get_save x.2) (Nat.le_trans (size_snd_le x) hx))
  simp only [scanInteger]
  split
  · split
    · split
      · rw [Within, size_lex_unget_unsave]
        omega
      · rw [Within]
        omega
    · split
      · exact hdigits _ hget
      · rw [Within, size_lex_unget_unsave]
        exact hget
  · rename_i hminus
    have hdigit : l_isdigit c.toInt = true := by simpa [hminus] using hc
    split
    · split
      · rw [Within, size_lex_unget_unsave]
        exact hget
      · exact hget
    · exact Nat.le_trans (pending_saveWhile _ _) hget

lemma scanFraction_within (x : Got × Lexer) : Within pending (pending x) (scanFraction x) := by
  have hget := pending_stream_get x.2
  have hsnd := size_snd_le x
  rw [scanFraction]
  split
  · split
    · rename_i c lex heq
      rw [heq] at hget
      split
      · have h := pending_lex_get_save (lex.lex_save c)
        have hwhile := pending_saveWhile l_isdigit (lex.lex_save c).lex_get_save
        rw [size_lex_save] at h
        simp only [pending] at hget
        rw [Within]
        omega
      · rw [Within, size_stream_unget (.byte c, lex)]
        omega
    · rename_i c lex hbyte heq
      rw [heq] at hget
      rw [Within, size_stream_unget (c, lex)]
      omega
  · exact Nat.le_refl _

lemma scanExponent_within (x : Got × Lexer) : Within pending (pending x) (scanExponent x) := by
  have hsnd := size_snd_le x
  have hget := pending_lex_get_save x.2
  have hsnd₁ := size_snd_le x.2.lex_get_save
  have hget₁ := pending_lex_get_save x.2.lex_get_save.2
  have hdigits : ∀ y : Got × Lexer, pending y ≤ pending x → Within pending (pending x)
      (if l_isdigit y.1.toInt then .ok (saveWhile l_isdigit y.2.lex_get_save)
      else .error (y.2.lex_unget_unsave y.1)) := by
    intro y hy
    split
    · exact Nat.le_trans (pending_saveWhile _ _)
        (Nat.le_trans (pending_lex_get_save y.2) (Nat.le_trans (size_snd_le y) hy))
    · rw [Within, size_lex_unget_unsave]
      exact hy
  simp only [scanExponent]
  split
  · apply hdigits
    split
    · omega
    · omega
  · exact Nat.le_refl _

lemma scanNumber_within (jsonp_strtod : List UInt8 → Option UInt64) {c : Got} {lex : Lexer}
    (hc : (l_isdigit c.toInt || c.is '-') = true) :
    Within size lex.size (scanNumber jsonp_strtod (c, lex)) := by
  refine (scanInteger_within hc).bind fun x hx => ?_
  have hunget := size_lex_unget_unsave x
  simp only
  split
  · split
    · rw [Within, size_error_set]
      omega
    · split
      · rw [Within, size_error_set]
        omega
      · exact Nat.le_trans (Nat.le_of_eq hunget) hx
  · refine ((scanFraction_within x).mono hx).bind fun y hy => ?_
    refine ((scanExponent_within y).mono hy).bind fun z hz => ?_
    have hunget' := size_lex_unget_unsave z
    split
    · rw [Within, size_error_set]
      omega
    · exact Nat.le_trans (Nat.le_of_eq hunget') hz

/-- A number takes off at least its first character. -/
lemma size_lex_scan_number (jsonp_strtod : List UInt8 → Option UInt64) {c : Got} {lex : Lexer}
    (hc : (l_isdigit c.toInt || c.is '-') = true) :
    (lex.lex_scan_number jsonp_strtod c).size ≤ lex.size := by
  have h : Within size lex.size
      (scanNumber jsonp_strtod (c, { lex with token := .TOKEN_INVALID })) :=
    scanNumber_within jsonp_strtod hc
  rw [lex_scan_number]
  split
  · rename_i heq
    rw [heq] at h
    exact h
  · rename_i heq
    rw [heq] at h
    exact h

lemma size_scanChars (x : Got × Lexer) : (scanChars x).2.size ≤ pending x := by
  fun_induction scanChars x with
  | case1 lex => exact Nat.le_refl _
  | case2 lex => exact Nat.le_of_eq (size_error_set _ _)
  | case3 c lex hquote => exact Nat.le_succ _
  | case4 c lex hquote hcontrol =>
    exact Nat.le_of_eq ((size_error_set _ _).trans (size_lex_unget_unsave (.byte c, lex)))
  | case5 c lex hquote hcontrol hslash x hu y hpass ih =>
    have hy : pending y.2 ≤ lex.size := pending_scanHex_escape 4 lex
    exact Nat.le_trans ih (Nat.le_succ_of_le hy)
  | case6 c lex hquote hcontrol hslash x hu y hpass =>
    have hy : pending y.2 ≤ lex.size := pending_scanHex_escape 4 lex
    rw [size_error_set]
    exact Nat.le_trans (size_snd_le y.2) (Nat.le_succ_of_le hy)
  | case7 c lex hquote hcontrol hslash x hu hshort ih =>
    have hnext : pending x.2.lex_get_save ≤ lex.size := pending_lex_get_save_snd lex
    exact Nat.le_trans ih (Nat.le_succ_of_le hnext)
  | case8 c lex hquote hcontrol hslash x hu hshort =>
    rw [size_error_set]
    exact Nat.le_trans (size_snd_le x) (Nat.le_succ_of_le (pending_lex_get_save lex))
  | case9 c lex hquote hcontrol hslash ih =>
    exact Nat.le_trans ih (Nat.le_succ_of_le (pending_lex_get_save lex))

lemma size_lex_scan_string {lex lex' : Lexer} (h : lex.lex_scan_string = .ok lex') :
    lex'.size ≤ lex.size := by
  have hchars := Nat.le_trans (size_scanChars { lex with token := .TOKEN_INVALID }.lex_get_save)
    (pending_lex_get_save { lex with token := .TOKEN_INVALID })
  rw [lex_scan_string] at h
  split at h
  · rename_i lex₁ heq
    rw [heq] at hchars
    exact Except.ok.inj h ▸ hchars
  · rename_i lex₁ heq
    rw [heq] at hchars
    rcases hunescape : unescape [] (lex₁.saved_text.drop 1) with e | (msg | value)
    · rw [hunescape] at h
      exact absurd h (by simp [bind, Except.bind])
    · rw [hunescape] at h
      obtain rfl := Except.ok.inj h
      exact Nat.le_trans (Nat.le_of_eq (size_error_set _ _)) hchars
    · rw [hunescape] at h
      obtain rfl := Except.ok.inj h
      exact hchars

variable {jsonp_strtod : List UInt8 → Option UInt64} {lex lex' : Lexer}

/-- A token that starts with a byte takes off at least this byte. -/
lemma size_scanToken {x : Got × Lexer} (h : scanToken jsonp_strtod x = .ok lex') :
    lex'.size ≤ x.2.size := by
  obtain ⟨c, lex⟩ := x
  cases c with
  | STREAM_STATE_EOF | STREAM_STATE_ERROR =>
    obtain rfl := Except.ok.inj h
    exact Nat.le_refl _
  | byte b =>
    simp only [scanToken] at h
    split at h
    · obtain rfl := Except.ok.inj h
      exact Nat.le_refl _
    · split at h
      · have hstring := size_lex_scan_string h
        exact hstring
      · split at h
        · rename_i hnumber
          obtain rfl := Except.ok.inj h
          exact size_lex_scan_number jsonp_strtod hnumber
        · split at h
          · obtain rfl := Except.ok.inj h
            have hword := pending_saveWhile l_isalpha (lex.lex_save b).lex_get_save
            exact Nat.le_trans (Nat.le_of_eq (size_lex_unget_unsave _))
              (Nat.le_trans hword (pending_lex_get_save _))
          · obtain rfl := Except.ok.inj h
            exact Nat.le_add_right _ _

/-- What `lex_scan` takes off the text. -/
lemma size_lex_scan (h : lex_scan jsonp_strtod lex = .ok lex') : lex'.size ≤ lex.size := by
  have hblanks := Nat.le_trans (pending_skipBlanks { lex with saved_text := [] }.stream_get)
    (pending_stream_get { lex with saved_text := [] })
  exact Nat.le_trans (size_scanToken h) (Nat.le_trans (size_snd_le _) hblanks)

/-- A token that is not the last one and not invalid has taken something off. -/
lemma size_lex_scan_lt (h : lex_scan jsonp_strtod lex = .ok lex')
    (heof : lex'.token ≠ .TOKEN_EOF) (hinvalid : lex'.token ≠ .TOKEN_INVALID) :
    lex'.size < lex.size := by
  have hblanks := Nat.le_trans (pending_skipBlanks { lex with saved_text := [] }.stream_get)
    (pending_stream_get { lex with saved_text := [] })
  have hsize := size_scanToken h
  rw [lex_scan] at h
  rcases hx : skipBlanks { lex with saved_text := [] }.stream_get with ⟨c, lex₁⟩
  rw [hx] at h hsize hblanks
  cases c with
  | STREAM_STATE_EOF => exact absurd (Except.ok.inj h ▸ rfl) heof
  | STREAM_STATE_ERROR => exact absurd (Except.ok.inj h ▸ rfl) hinvalid
  | byte b => exact Nat.lt_of_lt_of_le (Nat.lt_succ_of_le hsize) hblanks

end Lexer

end Headcrab
