/-
# What the lexer makes of a text

A lexer that has a text in front of it, in UTF-8 and without a zero, reads its bytes one after
the other (`stream_get_cons`).  From this follow, for the parts of a text in the order in which
`lex_scan` gets to them, how blanks are skipped, and which tokens brackets, words and numbers
are read as.
-/
import Headcrab.Utf8
import Mathlib.Data.Bool.AllAny

namespace Headcrab

namespace Lexer

/-! ## Bytes -/

/-- The bytes that the lexer is going to read: those that it keeps, and then a text without a
zero. -/
structure Reads (text : List UInt8) (lex : Lexer) : Prop where
  state : lex.state = .STREAM_STATE_OK ∨ lex.state = .STREAM_STATE_EOF ∧ text = []
  text : ∃ l : List Char, lex.data = utf8Bytes l ∧ '\x00' ∉ l ∧ text = lex.buffer ++ utf8Bytes l

/-- The first of these bytes has been read and saved, behind what was saved before; or there
was none. -/
def Ahead (text saved : List UInt8) (x : Got × Lexer) : Prop :=
  match text with
  | [] => x.1 = .STREAM_STATE_EOF ∧ Reads [] x.2 ∧ x.2.saved_text = saved
  | c :: rest =>
    x.1 = .byte c ∧ Reads (c :: rest) (x.2.stream_unget (.byte c)) ∧ x.2.saved_text = saved ++ [c]

variable {text rest saved : List UInt8} {c : UInt8} {lex : Lexer} {x : Got × Lexer}

/-- What has been saved makes no difference. -/
lemma Reads.with_saved (h : Reads text lex) (saved : List UInt8) :
    Reads text { lex with saved_text := saved } := ⟨h.state, h.text⟩

lemma Reads.with_token (h : Reads text lex) (token : Token) :
    Reads text { lex with token } := ⟨h.state, h.text⟩

/-- Without the byte that was given back. -/
lemma Reads.pop (h : Reads (c :: rest) (lex.stream_unget (.byte c))) : Reads rest lex := by
  obtain ⟨l, hdata, hzero, htext⟩ := h.text
  exact ⟨Or.inl (h.state.resolve_right fun h => absurd h.2 (by simp)), l, hdata, hzero,
    (List.cons.inj htext).2⟩

lemma string_gets_append {cs data : List UInt8} (h : (0 : UInt8) ∉ cs) :
    string_gets cs.length (cs ++ data) = (cs, data) := by
  induction cs with
  | nil => rfl
  | cons c cs ih =>
    rw [List.mem_cons, not_or] at h
    rw [List.length_cons, List.cons_append, string_gets, string_get, if_neg (Ne.symm h.1)]
    simp only [ih h.2, Option.getD_some]

/-- The first byte of a text is read as it is. -/
lemma stream_get_cons (h : Reads (c :: rest) lex) : ∃ lex', lex.stream_get = (.byte c, lex') ∧
    Reads (c :: rest) (lex'.stream_unget (.byte c)) ∧ lex'.saved_text = lex.saved_text := by
  have hok : lex.state = .STREAM_STATE_OK := h.state.resolve_right fun h => absurd h.2 (by simp)
  obtain ⟨l, hdata, hzero, htext⟩ := h.text
  rw [stream_get, hok]
  rcases hbuffer : lex.buffer with _ | ⟨b, buffer⟩
  swap
  · -- a byte that was kept
    rw [hbuffer, List.cons_append] at htext
    obtain ⟨rfl, hrest⟩ := List.cons.inj htext
    exact ⟨_, rfl, ⟨Or.inl rfl, l, hdata, hzero, htext⟩, rfl⟩
  rw [hbuffer, List.nil_append] at htext
  rcases l with _ | ⟨a, l⟩
  · exact absurd htext (by simp)
  rw [utf8Bytes_cons] at htext
  rw [List.mem_cons, not_or] at hzero
  by_cases ha : a.toNat < 0x80
  · -- one byte
    rcases utf8EncodeChar_cases a with ⟨-, heq⟩ | h | h | h
    · rw [heq, List.singleton_append] at htext
      obtain ⟨rfl, -⟩ := List.cons.inj htext
      have hne : UInt8.ofNat a.toNat ≠ 0 := by
        rw [Ne, ← UInt8.toNat_inj, toNat_ofNat_of_lt (by omega)]
        exact fun h => hzero.1 (Char.toNat_inj.mp h.symm)
      have hlt : UInt8.ofNat a.toNat < 0x80 := by
        rw [UInt8.lt_iff_toNat_lt, toNat_ofNat_of_lt (by omega)]
        exact ha
      have hget : string_get lex.data = (some (.ofNat a.toNat), utf8Bytes l) := by
        rw [hdata, utf8Bytes_cons, heq, List.singleton_append, string_get, if_neg hne]
      simp only [hget, hlt, if_true]
      exact ⟨_, rfl, ⟨Or.inl rfl, l, rfl, hzero.2, htext⟩, rfl⟩
    · omega
    · omega
    · omega
  · -- a longer sequence, of which the rest is kept
    obtain ⟨u, us, heq, hus, hfirst, hfull, -⟩ := utf8EncodeChar_checks (c := a) (by omega)
    rw [heq, List.cons_append] at htext
    obtain ⟨rfl, -⟩ := List.cons.inj htext
    have hc : ¬ c.toNat < 0x80 := by
      intro hc
      have hlen := List.length_pos_iff.mpr hus
      rw [utf8_check_first_eq_one.mpr hc] at hfirst
      omega
    have hne : c ≠ 0 := by
      rintro rfl
      exact hc (by decide)
    have hlt : ¬ c < 0x80 := by
      rw [UInt8.lt_iff_toNat_lt]
      exact hc
    have hget : string_get lex.data = (some c, us ++ utf8Bytes l) := by
      rw [hdata, utf8Bytes_cons, heq, List.cons_append, string_get, if_neg hne]
    have hgets : string_gets us.length (us ++ utf8Bytes l) = (us, utf8Bytes l) :=
      string_gets_append fun h => absurd (utf8_check_full_continues hfull 0 h).1 (by decide)
    simp only [hget, hlt, if_false, hfirst, Nat.add_sub_cancel, hgets, hfull, Bool.and_true]
    rw [if_pos (by simp)]
    exact ⟨_, rfl, ⟨Or.inl rfl, l, rfl, hzero.2, htext⟩, rfl⟩

/-- Behind the text is the end. -/
lemma stream_get_nil (h : Reads [] lex) : ∃ lex', lex.stream_get = (.STREAM_STATE_EOF, lex') ∧
    Reads [] lex' ∧ lex'.saved_text = lex.saved_text := by
  obtain ⟨l, hdata, hzero, htext⟩ := h.text
  obtain ⟨hbuffer, hl⟩ := List.append_eq_nil_iff.mp htext.symm
  rcases h.state with hok | ⟨heof, -⟩
  · have hget : string_get lex.data = (none, []) := by rw [hdata, hl]; rfl
    rw [stream_get, hok, hbuffer]
    simp only [hget]
    exact ⟨_, rfl, ⟨Or.inr ⟨rfl, rfl⟩, l, hdata, hzero, hl.symm⟩, rfl⟩
  · rw [stream_get, heof]
    exact ⟨_, rfl, ⟨Or.inr ⟨heof, rfl⟩, l, hdata, hzero, htext⟩, rfl⟩

lemma ahead_lex_get_save (h : Reads text lex) : Ahead text lex.saved_text lex.lex_get_save := by
  rcases text with _ | ⟨c, rest⟩
  · obtain ⟨lex', hget, hreads, hsaved⟩ := stream_get_nil h
    rw [lex_get_save, hget]
    exact ⟨rfl, hreads, hsaved⟩
  · obtain ⟨lex', hget, hreads, hsaved⟩ := stream_get_cons h
    rw [lex_get_save, hget]
    exact ⟨rfl, hreads.with_saved _, congrArg (· ++ [c]) hsaved⟩

/-- One byte further. -/
lemma Ahead.next (h : Ahead (c :: rest) saved x) : Ahead rest (saved ++ [c]) x.2.lex_get_save := by
  have hnext := ahead_lex_get_save h.2.1.pop
  rwa [h.2.2] at hnext

/-- A byte that is given back is read again. -/
lemma Ahead.unget (h : Ahead text saved x) : Reads text (x.2.lex_unget_unsave x.1) ∧
    (x.2.lex_unget_unsave x.1).saved_text = saved := by
  obtain ⟨got, lex⟩ := x
  rcases text with _ | ⟨c, rest⟩
  · obtain ⟨rfl, hreads, hsaved⟩ := h
    exact ⟨hreads, hsaved⟩
  · obtain ⟨rfl, hreads, hsaved⟩ := h
    refine ⟨hreads.with_saved _, ?_⟩
    show lex.saved_text.dropLast = saved
    rw [show lex.saved_text = saved ++ [c] from hsaved, List.dropLast_concat]

/-- The bytes up to one that fails the test are saved. -/
lemma Ahead.saveWhile {test : ℤ → Bool} {cs : List UInt8} (h : Ahead (cs ++ rest) saved x)
    (hcs : ∀ c ∈ cs, test (Got.toInt (.byte c)) = true)
    (hrest : ∀ c ∈ rest.head?, test (Got.toInt (.byte c)) = false) :
    Ahead rest (saved ++ cs) (saveWhile test x) := by
  induction cs generalizing saved x with
  | nil =>
    rw [List.append_nil]
    obtain ⟨got, lex⟩ := x
    rcases rest with _ | ⟨c, rest⟩
    · obtain rfl : got = .STREAM_STATE_EOF := h.1
      rw [Lexer.saveWhile]
      · exact h
      · simp
    · obtain rfl : got = .byte c := h.1
      rw [Lexer.saveWhile, if_neg (by simp [hrest c rfl])]
      exact h
  | cons c cs ih =>
    obtain ⟨got, lex⟩ := x
    obtain rfl : got = .byte c := h.1
    rw [Lexer.saveWhile, if_pos (hcs c (List.mem_cons_self ..)), List.append_cons]
    exact ih h.next fun d hd => hcs d (List.mem_cons_of_mem _ hd)

/-! ## One token -/

/-- The bytes that are skipped in front of a token. -/
def isBlank (c : UInt8) : Bool :=
  Got.is (.byte c) ' ' || Got.is (.byte c) '\t' || Got.is (.byte c) '\n' || Got.is (.byte c) '\r'

lemma skipBlanks_byte (c : UInt8) (lex : Lexer) : skipBlanks (.byte c, lex)
    = if isBlank c then skipBlanks lex.stream_get else (.byte c, lex) := by
  rw [skipBlanks]
  rfl

variable (jsonp_strtod : List UInt8 → Option UInt64)

/-- In front of `rest`, the text is read as this token. -/
def ReadAs (text : List UInt8) (token : Token) (rest : List UInt8) : Prop :=
  ∀ lex, Reads (text ++ rest) lex →
    ∃ lex', lex_scan jsonp_strtod lex = .ok lex' ∧ lex'.token = token ∧ Reads rest lex'

variable {jsonp_strtod} {token : Token}

lemma lex_scan_blank (h : Reads (c :: rest) lex) (hc : isBlank c = true) :
    ∃ lex', lex_scan jsonp_strtod lex = lex_scan jsonp_strtod lex' ∧ Reads rest lex' := by
  obtain ⟨lex', hget, hreads, hsaved⟩ := stream_get_cons (h.with_saved [])
  refine ⟨lex', ?_, hreads.pop⟩
  have hbegin : { lex' with saved_text := [] } = lex' := by
    rw [← show lex'.saved_text = [] from hsaved]
  rw [lex_scan, lex_scan, hget, hbegin, skipBlanks_byte, if_pos hc]

/-- A token begins at a byte that is no blank. -/
lemma lex_scan_cons (jsonp_strtod : List UInt8 → Option UInt64) (h : Reads (c :: rest) lex)
    (hc : isBlank c = false) :
    ∃ lex', lex_scan jsonp_strtod lex = scanToken jsonp_strtod (.byte c, lex') ∧
      Ahead (c :: rest) [] (.byte c, lex'.lex_save c) := by
  obtain ⟨lex', hget, hreads, hsaved⟩ := stream_get_cons (h.with_saved [])
  refine ⟨lex', ?_, rfl, hreads.with_saved _, congrArg (· ++ [c]) hsaved⟩
  rw [lex_scan, hget, skipBlanks_byte, if_neg (by simp [hc])]

/-- Behind the text is the end, as a token of its own. -/
lemma readAs_eof (jsonp_strtod : List UInt8 → Option UInt64) :
    ReadAs jsonp_strtod [] .TOKEN_EOF [] := by
  intro lex hreads
  obtain ⟨lex', hget, hreads', -⟩ := stream_get_nil (hreads.with_saved [])
  refine ⟨{ lex' with token := .TOKEN_EOF }, ?_, rfl, hreads'.with_token _⟩
  rw [lex_scan, hget, skipBlanks, scanToken]
  simp

/-- The characters that are tokens. -/
def punctuation : List Char := ['\x7b', '\x7d', '[', ']', ':', ',']

lemma readAs_char {a : Char} (ha : a ∈ punctuation) (rest : List UInt8) :
    ReadAs jsonp_strtod [a.toUInt8] (.char a) rest := by
  intro lex hreads
  have hall : ∀ a ∈ punctuation, isBlank a.toUInt8 = false ∧
      ['\x7b', '\x7d', '[', ']', ':', ','].find? (Got.is (.byte a.toUInt8)) = some a :=
    List.all_iff_forall_prop.mp (by decide)
  obtain ⟨hblank, hfind⟩ := hall a ha
  obtain ⟨lex', hscan, hahead⟩ := lex_scan_cons jsonp_strtod hreads hblank
  refine ⟨{ lex'.lex_save a.toUInt8 with token := .char a }, ?_, rfl,
    hahead.2.1.pop.with_token _⟩
  rw [hscan, scanToken]
  simp only [hfind]

/-! ## Words -/

/-- What may follow a value in the text of a larger one. -/
def Closing (rest : List UInt8) : Prop := ∀ c ∈ rest.head?, c ∈ ascii ",]\x7d\n"

/-- The text of `true`, `false` or `null`. -/
lemma readAs_word {w : List UInt8} (hw : w ∈ [ascii "true", ascii "false", ascii "null"])
    (h : Closing rest) : ReadAs jsonp_strtod w (wordToken w) rest := by
  intro lex hreads
  have hfollows : ∀ c ∈ ascii ",]\x7d\n", l_isalpha (Got.toInt (.byte c)) = false :=
    List.all_iff_forall_prop.mp (by decide)
  have hfirst : ∀ c ∈ ascii "tfn", isBlank c = false ∧
      ['\x7b', '\x7d', '[', ']', ':', ','].find? (Got.is (.byte c)) = none ∧
      Got.is (.byte c) '\x22' = false ∧
      (l_isdigit (Got.toInt (.byte c)) || Got.is (.byte c) '-') = false ∧
      l_isalpha (Got.toInt (.byte c)) = true :=
    List.all_iff_forall_prop.mp (by decide)
  obtain ⟨c, cs, rfl, hc, hcs⟩ : ∃ c cs, w = c :: cs ∧ c ∈ ascii "tfn" ∧
      (cs.all fun d => l_isalpha (Got.toInt (.byte d))) = true := by
    simp only [List.mem_cons, List.not_mem_nil, or_false] at hw
    rcases hw with rfl | rfl | rfl
    · exact ⟨_, _, rfl, by decide, by decide⟩
    · exact ⟨_, _, rfl, by decide, by decide⟩
    · exact ⟨_, _, rfl, by decide, by decide⟩
  obtain ⟨hblank, hchar, hquote, hnumber, halpha⟩ := hfirst c hc
  rw [List.cons_append] at hreads
  obtain ⟨lex', hscan, hahead⟩ := lex_scan_cons jsonp_strtod hreads hblank
  have hword := hahead.next.saveWhile (List.all_eq_true.mp hcs) fun d hd =>
    hfollows d (h d hd)
  obtain ⟨hreads', hsaved⟩ := hword.unget
  refine ⟨_, hscan.trans ?_, congrArg wordToken hsaved, hreads'.with_token _⟩
  rw [scanToken]
  simp only [hchar, hquote, hnumber, halpha, if_true, Bool.false_eq_true, if_false]
  rfl

/-! ## Numbers -/

/-- A digit. -/
def Digit (c : UInt8) : Prop := c ∈ ascii "0123456789"

lemma Digit.l_isdigit (h : Digit c) : l_isdigit (Got.toInt (.byte c)) = true := by
  have hall : ∀ c ∈ ascii "0123456789", Headcrab.l_isdigit (Got.toInt (.byte c)) = true :=
    List.all_iff_forall_prop.mp (by decide)
  exact hall c h

/-- The digits of a number in front of the point: only a zero alone starts with a zero. -/
def IntDigits (cs : List UInt8) : Prop :=
  cs = ascii "0" ∨ ∃ c ds, cs = c :: ds ∧ c ≠ '0'.toUInt8 ∧ Digit c ∧ ∀ d ∈ ds, Digit d

/-- No digit follows. -/
def NoDigit (rest : List UInt8) : Prop :=
  ∀ c ∈ rest.head?, Headcrab.l_isdigit (Got.toInt (.byte c)) = false

/-- The next byte is another one. -/
lemma Ahead.is_eq_false {a : Char} (h : Ahead text saved x) (ha : a.toUInt8 ∉ text.head?) :
    x.1.is a = false := by
  rcases text with _ | ⟨c, rest⟩
  · rw [h.1]
    rfl
  · rw [h.1, Got.is]
    refine beq_eq_false_iff_ne.mpr fun heq => ha ?_
    rw [Got.byte.inj heq]
    rfl

lemma Ahead.is_eq_true {a : Char} (h : Ahead (a.toUInt8 :: rest) saved x) : x.1.is a = true := by
  rw [h.1]
  exact beq_self_eq_true _

lemma Ahead.isdigit_eq_false (h : Ahead rest saved x) (hrest : NoDigit rest) :
    Headcrab.l_isdigit x.1.toInt = false := by
  rcases rest with _ | ⟨c, rest⟩
  · rw [h.1]
    rfl
  · rw [h.1]
    exact hrest c rfl

lemma Ahead.digits {cs : List UInt8} (h : Ahead (c :: (cs ++ rest)) saved x)
    (hcs : ∀ c ∈ cs, Digit c) (hrest : NoDigit rest) :
    Ahead rest (saved ++ c :: cs) (Lexer.saveWhile Headcrab.l_isdigit x.2.lex_get_save) := by
  rw [List.append_cons]
  exact h.next.saveWhile (fun c hc => (hcs c hc).l_isdigit) hrest

/-- `scanInteger` behind the sign. -/
def scanDigits (x : Got × Lexer) : Except Lexer (Got × Lexer) :=
  if x.1.is '0' then
    let x := x.2.lex_get_save
    if Headcrab.l_isdigit x.1.toInt then .error (x.2.lex_unget_unsave x.1) else .ok x
  else if Headcrab.l_isdigit x.1.toInt then
    .ok (Lexer.saveWhile Headcrab.l_isdigit x.2.lex_get_save)
  else .error (x.2.lex_unget_unsave x.1)

lemma scanInteger_eq (x : Got × Lexer) :
    scanInteger x = scanDigits (if x.1.is '-' then x.2.lex_get_save else x) := rfl

lemma Ahead.scanDigits {cs : List UInt8} (h : Ahead (cs ++ rest) saved x) (hcs : IntDigits cs)
    (hrest : NoDigit rest) :
    ∃ y, Lexer.scanDigits x = .ok y ∧ Ahead rest (saved ++ cs) y := by
  rcases hcs with rfl | ⟨c, ds, rfl, hc, hdigit, hds⟩
  · have hzero : Ahead ('0'.toUInt8 :: rest) saved x := h
    refine ⟨x.2.lex_get_save, ?_, h.next⟩
    rw [Lexer.scanDigits, if_pos hzero.is_eq_true]
    simp only [hzero.next.isdigit_eq_false hrest, Bool.false_eq_true, if_false]
  · rw [List.cons_append] at h
    refine ⟨_, ?_, h.digits hds hrest⟩
    have hzero : x.1.is '0' = false := h.is_eq_false (by simpa using hc)
    rw [Lexer.scanDigits, hzero, h.1]
    simp only [hdigit.l_isdigit, Bool.false_eq_true, if_false, if_true]

/-- What may stand in front of the digits of a number. -/
def Sign (sign : List UInt8) : Prop := sign = [] ∨ sign = ascii "-"

/-- The digits in front of the point, with the sign. -/
lemma Ahead.scanInteger {sign cs : List UInt8} (h : Ahead (sign ++ (cs ++ rest)) saved x)
    (hsign : Sign sign) (hcs : IntDigits cs) (hrest : NoDigit rest) :
    ∃ y, Lexer.scanInteger x = .ok y ∧ Ahead rest (saved ++ (sign ++ cs)) y := by
  rw [scanInteger_eq]
  rcases hsign with rfl | rfl
  · have hminus : '-'.toUInt8 ∉ (cs ++ rest).head? := by
      have hdigits : '-'.toUInt8 ∉ ascii "0123456789" := by decide
      rcases hcs with rfl | ⟨c, ds, rfl, -, hdigit, -⟩
      · simp [ascii]
        decide
      · rintro ⟨⟩
        exact hdigits hdigit
    have hdigits : Ahead (cs ++ rest) saved x := h
    rw [h.is_eq_false hminus]
    exact hdigits.scanDigits hcs hrest
  · have hminus : Ahead ('-'.toUInt8 :: (cs ++ rest)) saved x := h
    obtain ⟨y, hscan, hahead⟩ := hminus.next.scanDigits hcs hrest
    rw [List.append_assoc] at hahead
    rw [hminus.is_eq_true, if_pos rfl]
    exact ⟨y, hscan, hahead⟩

/-- The digits behind the point. -/
def Fraction (cs : List UInt8) : Prop :=
  cs = [] ∨ ∃ d ds, cs = '.'.toUInt8 :: d :: ds ∧ Digit d ∧ ∀ d ∈ ds, Digit d

lemma Ahead.scanFraction {cs : List UInt8} (h : Ahead (cs ++ rest) saved x) (hcs : Fraction cs)
    (hrest : NoDigit rest) (hdot : '.'.toUInt8 ∉ rest.head?) :
    ∃ y, Lexer.scanFraction x = .ok y ∧ Ahead rest (saved ++ cs) y := by
  rw [Lexer.scanFraction]
  rcases hcs with rfl | ⟨d, ds, rfl, hdigit, hds⟩
  · rw [h.is_eq_false hdot, List.append_nil]
    exact ⟨x, rfl, h⟩
  · have hpoint : Ahead ('.'.toUInt8 :: (d :: ds ++ rest)) saved x := h
    obtain ⟨lex', hget, hreads, hsaved⟩ := stream_get_cons hpoint.2.1.pop
    have hfirst : Ahead (d :: (ds ++ rest)) (saved ++ ascii ".") (.byte d, lex'.lex_save d) :=
      ⟨rfl, hreads.with_saved _, by rw [lex_save, hsaved, hpoint.2.2]; rfl⟩
    have hall := hfirst.digits hds hrest
    rw [List.append_assoc] at hall
    rw [hpoint.is_eq_true, if_pos rfl, hget]
    simp only [hdigit.l_isdigit, if_true]
    exact ⟨_, rfl, hall⟩

/-- An exponent. -/
def Exponent (cs : List UInt8) : Prop :=
  cs = [] ∨ ∃ sign d ds, cs = 'e'.toUInt8 :: (sign ++ d :: ds) ∧ Sign sign ∧ Digit d ∧
    ∀ d ∈ ds, Digit d

lemma Ahead.scanExponent {cs : List UInt8} (h : Ahead (cs ++ rest) saved x) (hcs : Exponent cs)
    (hrest : NoDigit rest) (he : 'e'.toUInt8 ∉ rest.head?) (hE : 'E'.toUInt8 ∉ rest.head?) :
    ∃ y, Lexer.scanExponent x = .ok y ∧ Ahead rest (saved ++ cs) y := by
  rw [Lexer.scanExponent]
  rcases hcs with rfl | ⟨sign, d, ds, rfl, hsign, hdigit, hds⟩
  · rw [h.is_eq_false he, h.is_eq_false hE, List.append_nil]
    exact ⟨x, rfl, h⟩
  have hletter : Ahead ('e'.toUInt8 :: (sign ++ d :: ds ++ rest)) saved x := h
  have hnext := hletter.next
  have hdigits : '+'.toUInt8 ∉ ascii "0123456789" ∧ '-'.toUInt8 ∉ ascii "0123456789" := by decide
  rw [hletter.is_eq_true, Bool.or_true, if_pos rfl]
  rcases hsign with rfl | rfl
  · have hfirst : Ahead (d :: (ds ++ rest)) (saved ++ ascii "e") x.2.lex_get_save := hnext
    have hplus : x.2.lex_get_save.1.is '+' = false := hfirst.is_eq_false (by
      rintro ⟨⟩
      exact hdigits.1 hdigit)
    have hminus : x.2.lex_get_save.1.is '-' = false := hfirst.is_eq_false (by
      rintro ⟨⟩
      exact hdigits.2 hdigit)
    have hall := hfirst.digits hds hrest
    rw [List.append_assoc] at hall
    simp only [hplus, hminus, Bool.or_false, Bool.false_eq_true, if_false]
    rw [hfirst.1, if_pos hdigit.l_isdigit]
    exact ⟨_, rfl, hall⟩
  · have hminus : Ahead ('-'.toUInt8 :: (d :: ds ++ rest)) (saved ++ ascii "e")
      x.2.lex_get_save := hnext
    have hfirst : Ahead (d :: (ds ++ rest)) (saved ++ ascii "e" ++ ascii "-")
      x.2.lex_get_save.2.lex_get_save := hminus.next
    have hall := hfirst.digits hds hrest
    rw [List.append_assoc, List.append_assoc] at hall
    simp only [hminus.is_eq_true, Bool.or_true, if_true]
    rw [hfirst.1, if_pos hdigit.l_isdigit]
    exact ⟨_, rfl, hall⟩

lemma Closing.noDigit (h : Closing rest) : NoDigit rest := by
  have hall : ∀ c ∈ ascii ",]\x7d\n", Headcrab.l_isdigit (Got.toInt (.byte c)) = false :=
    List.all_iff_forall_prop.mp (by decide)
  exact fun c hc => hall c (h c hc)

lemma Closing.not_mem {a : Char} (h : Closing rest) (ha : a ∈ ['.', 'e', 'E']) :
    a.toUInt8 ∉ rest.head? := by
  have hall : ∀ a ∈ ['.', 'e', 'E'], a.toUInt8 ∉ ascii ",]\x7d\n" :=
    List.all_iff_forall_prop.mp (by decide)
  exact fun hmem => hall a ha (h _ hmem)

/-- A number is read from its first byte on. -/
lemma lex_scan_number_of_reads (jsonp_strtod : List UInt8 → Option UInt64) {sign cs : List UInt8}
    (h : Reads (sign ++ (cs ++ rest)) lex) (hsign : Sign sign) (hcs : IntDigits cs) :
    ∃ (c : UInt8) (lex' : Lexer),
      lex_scan jsonp_strtod lex = .ok (lex'.lex_scan_number jsonp_strtod (.byte c)) ∧
      Ahead (sign ++ (cs ++ rest)) [] (.byte c, { lex' with token := .TOKEN_INVALID }) := by
  have hfirst : ∀ c ∈ ascii "-0123456789", isBlank c = false ∧
      ['\x7b', '\x7d', '[', ']', ':', ','].find? (Got.is (.byte c)) = none ∧
      Got.is (.byte c) '\x22' = false ∧
      (Headcrab.l_isdigit (Got.toInt (.byte c)) || Got.is (.byte c) '-') = true :=
    List.all_iff_forall_prop.mp (by decide)
  obtain ⟨c, tail, htext, hc⟩ : ∃ c tail, sign ++ (cs ++ rest) = c :: tail ∧
      c ∈ ascii "-0123456789" := by
    rcases hsign with rfl | rfl
    · rcases hcs with rfl | ⟨c, ds, rfl, -, hdigit, -⟩
      · exact ⟨_, _, rfl, by decide⟩
      · exact ⟨_, _, rfl, List.mem_cons_of_mem _ hdigit⟩
    · exact ⟨_, _, rfl, by decide⟩
  obtain ⟨hblank, hchar, hquote, hnumber⟩ := hfirst c hc
  rw [htext] at h ⊢
  obtain ⟨lex', hscan, hahead⟩ := lex_scan_cons jsonp_strtod h hblank
  refine ⟨c, lex'.lex_save c, ?_, rfl, hahead.2.1.with_token _, hahead.2.2⟩
  rw [hscan, scanToken]
  simp only [hchar, hquote, hnumber, if_true, Bool.false_eq_true, if_false]

/-- An integer that fits is read as an integer. -/
lemma readAs_integer (jsonp_strtod : List UInt8 → Option UInt64) {sign cs : List UInt8}
    (hsign : Sign sign) (hcs : IntDigits cs) (hmin : LLONG_MIN ≤ integerOf (sign ++ cs))
    (hmax : integerOf (sign ++ cs) ≤ LLONG_MAX) (h : Closing rest) :
    ReadAs jsonp_strtod (sign ++ cs) (.TOKEN_INTEGER (integerOf (sign ++ cs))) rest := by
  intro lex hreads
  rw [List.append_assoc] at hreads
  obtain ⟨c, lex', hscan, hahead⟩ :=
    lex_scan_number_of_reads jsonp_strtod hreads hsign hcs
  obtain ⟨y, hint, hy⟩ := hahead.scanInteger hsign hcs h.noDigit
  obtain ⟨hreads', hsaved⟩ := hy.unget
  rw [List.nil_append] at hsaved
  have hdot : y.1.is '.' = false := hy.is_eq_false (h.not_mem (by decide))
  have he : y.1.is 'e' = false := hy.is_eq_false (h.not_mem (by decide))
  have hE : y.1.is 'E' = false := hy.is_eq_false (h.not_mem (by decide))
  refine ⟨{ y.2.lex_unget_unsave y.1 with token := .TOKEN_INTEGER (integerOf (sign ++ cs)) }, ?_,
    rfl, hreads'.with_token _⟩
  have hnumber : scanNumber jsonp_strtod (.byte c, { lex' with token := .TOKEN_INVALID })
      = .ok { y.2.lex_unget_unsave y.1 with token := .TOKEN_INTEGER (integerOf (sign ++ cs)) } := by
    rw [scanNumber, hint]
    simp only [bind, Except.bind, hdot, he, hE, hsaved]
    rw [if_pos (by simp), if_neg (by omega), if_neg (by omega)]
    rfl
  rw [hscan, lex_scan_number, hnumber]

/-- A number with a point or an exponent is handed to `strtod`. -/
lemma readAs_real {sign cs fraction exponent : List UInt8} {bits : UInt64} (hsign : Sign sign)
    (hcs : IntDigits cs) (hfraction : Fraction fraction) (hexponent : Exponent exponent)
    (hne : fraction ++ exponent ≠ [])
    (hstrtod : jsonp_strtod (sign ++ (cs ++ (fraction ++ exponent))) = some bits)
    (h : Closing rest) : ReadAs jsonp_strtod (sign ++ (cs ++ (fraction ++ exponent)))
      (.TOKEN_REAL bits) rest := by
  intro lex hreads
  have hassoc : sign ++ (cs ++ (fraction ++ exponent)) ++ rest
      = sign ++ (cs ++ (fraction ++ (exponent ++ rest))) := by simp
  rw [hassoc] at hreads
  have hexp : NoDigit (exponent ++ rest) ∧ '.'.toUInt8 ∉ (exponent ++ rest).head? := by
    rcases hexponent with rfl | ⟨sign', d, ds, rfl, -⟩
    · exact ⟨h.noDigit, h.not_mem (by decide)⟩
    · refine ⟨?_, by simp; decide⟩
      rintro c ⟨⟩
      decide
  have hfrac : NoDigit (fraction ++ (exponent ++ rest)) := by
    rcases hfraction with rfl | ⟨d, ds, rfl, -⟩
    · exact hexp.1
    · rintro c ⟨⟩
      decide
  obtain ⟨c, lex', hscan, hahead⟩ :=
    lex_scan_number_of_reads jsonp_strtod hreads hsign hcs
  obtain ⟨y, hint, hy⟩ := hahead.scanInteger hsign hcs hfrac
  obtain ⟨z, hz, hahead₂⟩ := hy.scanFraction hfraction hexp.1 hexp.2
  obtain ⟨w, hw, hahead₃⟩ := hahead₂.scanExponent hexponent h.noDigit (h.not_mem (by decide))
    (h.not_mem (by decide))
  obtain ⟨hreads', hsaved⟩ := hahead₃.unget
  have hsaved' : (w.2.lex_unget_unsave w.1).saved_text
      = sign ++ (cs ++ (fraction ++ exponent)) := by simp [hsaved]
  -- the point or the letter of the exponent is there
  have hpoint : ((!y.1.is '.') && (!y.1.is 'E') && (!y.1.is 'e')) = false := by
    rcases hfraction with rfl | ⟨d, ds, rfl, -⟩
    · rcases hexponent with rfl | ⟨sign', d, ds, rfl, -⟩
      · exact absurd rfl hne
      · have he : y.1.is 'e' = true := hy.is_eq_true
        rw [he]
        simp
    · have hdot : y.1.is '.' = true := hy.is_eq_true
      rw [hdot]
      rfl
  refine ⟨{ w.2.lex_unget_unsave w.1 with token := .TOKEN_REAL bits }, ?_, rfl,
    hreads'.with_token _⟩
  have hnumber : scanNumber jsonp_strtod (.byte c, { lex' with token := .TOKEN_INVALID })
      = .ok { w.2.lex_unget_unsave w.1 with token := .TOKEN_REAL bits } := by
    rw [scanNumber, hint]
    simp only [bind, Except.bind, hpoint, Bool.false_eq_true, if_false, hz, hw, hsaved', hstrtod]
    rfl
  rw [hscan, lex_scan_number, hnumber]

end Lexer

end Headcrab
