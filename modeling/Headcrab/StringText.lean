/-
# Strings, written and read back

`dump_string` writes a character as it is, by a letter behind a backslash, or by its number,
beyond `0xFFFF` as a surrogate pair (`escaped_cases`).  `lex_scan_string` goes through what it
wrote of each character in two loops, and has the character again: the string that is read is
the one that was written (`readAs_dump_string`), whatever the flags are.
-/
import Headcrab.Dump
import Headcrab.LexerText

namespace Headcrab

/-! ## What is written -/

/-- What is written of one character. -/
def escaped (flags : ℕ) (c : Char) : List UInt8 :=
  if isEscaped flags c.toNat then escapeText c.toNat else String.utf8EncodeChar c

variable {flags : ℕ} {c : Char} {l : List Char}

/-- The characters up to the first one that is not written as it is. -/
lemma plainPart_utf8Bytes (flags : ℕ) (l : List Char) (part : List UInt8) :
    (∀ c ∈ l, isEscaped flags c.toNat = false) ∧
      plainPart flags part (utf8Bytes l) = some (part ++ utf8Bytes l, none) ∨
    ∃ l₁ c l₂, l = l₁ ++ c :: l₂ ∧ (∀ c ∈ l₁, isEscaped flags c.toNat = false) ∧
      isEscaped flags c.toNat = true ∧ plainPart flags part (utf8Bytes l)
        = some (part ++ utf8Bytes l₁, some (c.toNat, utf8Bytes l₂)) := by
  induction l generalizing part with
  | nil =>
    refine Or.inl ⟨by simp, ?_⟩
    rw [utf8Bytes_nil, plainPart, utf8_iterate, List.append_nil]
  | cons c l ih =>
    have hstep : plainPart flags part (utf8Bytes (c :: l)) =
        if isEscaped flags c.toNat then some (part, some (c.toNat, utf8Bytes l))
        else plainPart flags (part ++ String.utf8EncodeChar c) (utf8Bytes l) := by
      have hget := utf8_iterate_utf8EncodeChar c (utf8Bytes l)
      rw [← utf8Bytes_cons] at hget
      rw [plainPart]
      split
      · rename_i h
        exact absurd (hget.symm.trans h) (by simp)
      · rename_i h
        exact absurd (hget.symm.trans h) (by simp)
      · rename_i codepoint rest h
        obtain ⟨⟨rfl⟩, rfl⟩ := Prod.mk.inj (Option.some.inj (hget.symm.trans h))
        rw [utf8Bytes_cons, List.length_append, Nat.add_sub_cancel, List.take_left' rfl]
    by_cases hc : isEscaped flags c.toNat = true
    · exact Or.inr ⟨[], c, l, rfl, by simp, hc, by rw [hstep, if_pos hc]; simp⟩
    · rw [hstep, if_neg hc]
      have hplain : isEscaped flags c.toNat = false := Bool.eq_false_iff.mpr hc
      rcases ih (part ++ String.utf8EncodeChar c) with
        ⟨hl, heq⟩ | ⟨l₁, d, l₂, rfl, hl₁, hd, heq⟩
      · exact Or.inl ⟨List.forall_mem_cons.mpr ⟨hplain, hl⟩, by rw [heq]; simp⟩
      · exact Or.inr ⟨c :: l₁, d, l₂, rfl, List.forall_mem_cons.mpr ⟨hplain, hl₁⟩, hd,
          by rw [heq]; simp⟩

lemma flatMap_escaped_of_plain (h : ∀ c ∈ l, isEscaped flags c.toNat = false) :
    l.flatMap (escaped flags) = utf8Bytes l := by
  rw [utf8Bytes]
  exact List.flatMap_congr fun c hc => by simp [escaped, h c hc]

lemma dump_bind {α : Type} (buffer : List UInt8) (f : Unit → Dump α) :
    dump buffer >>= f = ⟨buffer ++ (f ()).trace, (f ()).result⟩ :=
  Traced.bind_ok rfl f

/-- Nothing is handed over for an empty part. -/
lemma dump_if_ne_nil {α : Type} (part : List UInt8) (f : Unit → Dump α) :
    (if part ≠ [] then dump part >>= f else f ()) = ⟨part ++ (f ()).trace, (f ()).result⟩ := by
  rcases part with _ | ⟨u, us⟩
  · rfl
  · exact dump_bind _ f

/-- `dump_string` writes one character after the other. -/
lemma dumpChars_utf8Bytes (l : List Char) :
    dumpChars flags (utf8Bytes l) = dump (l.flatMap (escaped flags)) := by
  induction hn : l.length using Nat.strongRecOn generalizing l with | _ n ih
  rw [dumpChars]
  rcases plainPart_utf8Bytes flags l [] with
    ⟨hl, heq⟩ | ⟨l₁, c, l₂, rfl, hl₁, hc, heq⟩
  · split
    · rename_i h
      exact absurd (heq.symm.trans h) (by simp)
    · rename_i part h
      obtain ⟨rfl, -⟩ := Prod.mk.inj (Option.some.inj (heq.symm.trans h))
      rw [flatMap_escaped_of_plain hl]
      rcases utf8Bytes l with _ | ⟨u, us⟩
      · rfl
      · rfl
    · rename_i h
      exact absurd (heq.symm.trans h) (by simp)
  · split
    · rename_i h
      exact absurd (heq.symm.trans h) (by simp)
    · rename_i h
      exact absurd (heq.symm.trans h) (by simp)
    · rename_i part codepoint rest h
      simp only [heq, Option.some.injEq, Prod.mk.injEq] at h
      obtain ⟨rfl, rfl, rfl⟩ := h
      rw [ih l₂.length (by rw [← hn, List.length_append, List.length_cons]; omega) l₂ rfl]
      refine (dump_if_ne_nil _ _).trans ?_
      simp only [dump]
      rw [List.flatMap_append, List.flatMap_cons, flatMap_escaped_of_plain hl₁, escaped, if_pos hc]
      rfl

lemma dump_string_utf8Bytes (l : List Char) : dump_string flags (utf8Bytes l)
    = dump (ascii "\x22" ++ (l.flatMap (escaped flags) ++ ascii "\x22")) := by
  rw [dump_string, dumpChars_utf8Bytes]
  rfl

/-! ## Four digits -/

/-- A digit of `%04x`. -/
def hexChar (d : ℕ) : UInt8 := (Nat.digitChar d).toUInt8

lemma hex04x_eq {n : ℕ} (h : n < 0x10000) : hex04x n
    = [hexChar (n / 4096), hexChar (n / 256 % 16), hexChar (n / 16 % 16), hexChar (n % 16)] := by
  have hzero : hexChar 0 = '0'.toUInt8 := rfl
  have hlow : ∀ m, 16 ≤ m → Nat.toDigits 16 m = Nat.toDigits 16 (m / 16) ++ [(m % 16).digitChar] :=
    fun m hm => Nat.toDigits_of_base_le (by decide) hm
  have hdiv : n / 16 / 16 = n / 256 ∧ n / 256 / 16 = n / 4096 := by omega
  rw [hex04x]
  by_cases h₁ : n < 16
  · rw [Nat.toDigits_of_lt_base h₁, show n / 4096 = 0 by omega, show n / 256 % 16 = 0 by omega,
      show n / 16 % 16 = 0 by omega, Nat.mod_eq_of_lt h₁, hzero]
    rfl
  rw [hlow n (by omega)]
  by_cases h₂ : n / 16 < 16
  · rw [Nat.toDigits_of_lt_base h₂, show n / 4096 = 0 by omega, show n / 256 % 16 = 0 by omega,
      Nat.mod_eq_of_lt h₂, hzero]
    rfl
  rw [hlow (n / 16) (by omega), hdiv.1]
  by_cases h₃ : n / 256 < 16
  · rw [Nat.toDigits_of_lt_base h₃, show n / 4096 = 0 by omega, Nat.mod_eq_of_lt h₃, hzero]
    rfl
  rw [hlow (n / 256) (by omega), hdiv.2, Nat.toDigits_of_lt_base (by omega)]
  rfl

lemma hexDigit_hexChar {d : ℕ} (h : d < 16) : hexDigit (hexChar d) = .ok d := by
  have hall : ∀ d < 16, hexDigit (hexChar d) = .ok d := by decide
  exact hall d h

/-- The number of four digits is read back. -/
lemma decode_hex04x {n : ℕ} (h : n < 0x10000) (p : List UInt8) :
    decode_unicode_escape (hex04x n ++ p) = .ok n := by
  rw [hex04x_eq h]
  simp only [List.cons_append, decode_unicode_escape]
  rw [hexDigit_hexChar (by omega), hexDigit_hexChar (by omega), hexDigit_hexChar (by omega),
    hexDigit_hexChar (by omega)]
  simp only [bind, Except.bind, pure, Except.pure, Nat.shiftLeft_eq]
  congr 1
  omega

lemma length_hex04x {n : ℕ} (h : n < 0x10000) : (hex04x n).length = 4 := by
  rw [hex04x_eq h]
  rfl

/-! ## How a character can be written -/

/-- A byte that stands for itself in a string. -/
def PlainByte (u : UInt8) : Prop := 0x20 ≤ u.toNat ∧ u ≠ '\x22'.toUInt8 ∧ u ≠ '\\'.toUInt8

/-- The bytes of a longer encoding are beyond ASCII. -/
lemma le_of_mem_utf8EncodeChar (hc : 0x80 ≤ c.toNat) {u : UInt8}
    (hu : u ∈ String.utf8EncodeChar c) : 0x80 ≤ u.toNat := by
  obtain ⟨v, us, heq, hus, hfirst, hfull, -⟩ := utf8EncodeChar_checks hc
  rw [heq, List.mem_cons] at hu
  rcases hu with rfl | hu
  · by_contra hlt
    have hpos := List.length_pos_iff.mpr hus
    rw [utf8_check_first_eq_one.mpr (by omega)] at hfirst
    omega
  · exact (utf8_check_full_continues hfull u hu).1

lemma isEscaped_eq_false (h : isEscaped flags c.toNat = false) :
    0x20 ≤ c.toNat ∧ c ≠ '\x22' ∧ c ≠ '\\' := by
  simp only [isEscaped, Bool.or_eq_false_iff, beq_eq_false_iff_ne, decide_eq_false_iff_not] at h
  refine ⟨Nat.le_of_not_lt h.1.1.2, ?_, ?_⟩
  · rintro rfl
    exact h.1.1.1.2 rfl
  · rintro rfl
    exact h.1.1.1.1 rfl

lemma plainByte_of_mem (h : isEscaped flags c.toNat = false) {u : UInt8}
    (hu : u ∈ String.utf8EncodeChar c) : PlainByte u := by
  obtain ⟨hlow, hquote, hslash⟩ := isEscaped_eq_false h
  by_cases hc : c.toNat < 0x80
  · obtain ⟨-, heq⟩ : c.toNat < 0x80 ∧ String.utf8EncodeChar c = [.ofNat c.toNat] := by
      rcases utf8EncodeChar_cases c with h | h | h | h <;> first | exact h | omega
    rw [heq, List.mem_singleton] at hu
    subst hu
    have hnat : (UInt8.ofNat c.toNat).toNat = c.toNat := toNat_ofNat_of_lt (by omega)
    refine ⟨by omega, fun h => hquote ?_, fun h => hslash ?_⟩
    · exact Char.toNat_inj.mp (hnat.symm.trans (congrArg UInt8.toNat h))
    · exact Char.toNat_inj.mp (hnat.symm.trans (congrArg UInt8.toNat h))
  · have hbyte := le_of_mem_utf8EncodeChar (by omega) hu
    refine ⟨by omega, ?_, ?_⟩
    · rintro rfl
      exact absurd hbyte (by decide)
    · rintro rfl
      exact absurd hbyte (by decide)

/-- The letters behind a backslash. -/
def escapeLetters : List UInt8 := ascii "\x22\\/bfnrt"

/-- The two halves of a surrogate pair. -/
def highSurrogate (n : ℕ) : ℕ := 0xD800 + (n - 0x10000) / 1024

def lowSurrogate (n : ℕ) : ℕ := 0xDC00 + (n - 0x10000) % 1024

lemma highSurrogate_eq {n : ℕ} (h : n < 0x110000) :
    0xD800 ||| (n - 0x10000 &&& 0xffc00) >>> 10 = highSurrogate n := by
  have hbits : (n - 0x10000 &&& 0xffc00) >>> 10 = (n - 0x10000) / 1024 := by
    rw [show (0xffc00 : ℕ) = 0x3ff <<< 10 from rfl, and_shiftLeft_shiftRight,
      show (0x3ff : ℕ) = 2 ^ 10 - 1 from rfl, Nat.and_two_pow_sub_one_eq_mod,
      Nat.shiftRight_eq_div_pow]
    omega
  rw [hbits, highSurrogate, show (0xD800 : ℕ) = 2 ^ 10 * 54 from rfl,
    Nat.two_pow_add_eq_or_of_lt (by omega)]

lemma lowSurrogate_eq (n : ℕ) : 0xDC00 ||| n - 0x10000 &&& 0x003ff = lowSurrogate n := by
  have hbits : n - 0x10000 &&& 0x003ff = (n - 0x10000) % 1024 :=
    Nat.and_two_pow_sub_one_eq_mod _ 10
  rw [hbits, lowSurrogate, show (0xDC00 : ℕ) = 2 ^ 10 * 55 from rfl,
    Nat.two_pow_add_eq_or_of_lt (Nat.mod_lt _ (by decide))]

/-- The ways in which a character is written. -/
inductive Written (c : Char) : List UInt8 → Prop
  | plain (h : ∀ u ∈ String.utf8EncodeChar c, PlainByte u) : Written c (String.utf8EncodeChar c)
  | letter {e x : UInt8} (he : e ∈ escapeLetters) (hx : shortEscape e = some x)
      (hc : String.utf8EncodeChar c = [x]) : Written c ['\\'.toUInt8, e]
  | number (h : c.toNat < 0x10000) : Written c (ascii "\\u" ++ hex04x c.toNat)
  | pair (h : 0x10000 ≤ c.toNat) : Written c (ascii "\\u" ++ hex04x (highSurrogate c.toNat) ++
      ascii "\\u" ++ hex04x (lowSurrogate c.toNat))

lemma written_escaped (flags : ℕ) (c : Char) : Written c (escaped flags c) := by
  have heq : ∀ x : Char, c.toNat = x.toNat → c = x := fun x h => Char.toNat_inj.mp h
  rw [escaped]
  split
  swap
  · rename_i h
    exact .plain fun u hu => plainByte_of_mem (Bool.eq_false_iff.mpr h) hu
  rw [escapeText]
  split
  · rename_i h
    obtain rfl := heq _ h
    exact .letter (by decide) rfl rfl
  split
  · rename_i h
    obtain rfl := heq _ h
    exact .letter (by decide) rfl rfl
  split
  · rename_i h
    obtain rfl := heq '\x08' h
    exact .letter (by decide) rfl rfl
  split
  · rename_i h
    obtain rfl := heq '\x0c' h
    exact .letter (by decide) rfl rfl
  split
  · rename_i h
    obtain rfl := heq '\n' h
    exact .letter (by decide) rfl rfl
  split
  · rename_i h
    obtain rfl := heq '\r' h
    exact .letter (by decide) rfl rfl
  split
  · rename_i h
    obtain rfl := heq '\t' h
    exact .letter (by decide) rfl rfl
  split
  · rename_i h
    obtain rfl := heq _ h
    exact .letter (by decide) rfl rfl
  split
  · rename_i h
    exact .number h
  · rename_i h
    have hvalid : c.toNat < 0xD800 ∨ 0xDFFF < c.toNat ∧ c.toNat < 0x110000 := c.valid
    simp only
    rw [highSurrogate_eq (by omega), lowSurrogate_eq]
    exact .pair (by omega)

/-! ## The first loop -/

/-- The macro holds of everything. -/
lemma l_isxdigit_eq_true (c : ℤ) : l_isxdigit c = true := by
  have hA : code 'A' = 65 := rfl
  have hF : code 'F' = 70 := rfl
  simp only [l_isxdigit, hA, hF, Bool.or_eq_true, decide_eq_true_eq]
  omega

namespace Lexer

variable {rest saved cs w : List UInt8} {x : Got × Lexer}

lemma Ahead.scanHex (h : Ahead (cs ++ rest) saved x) :
    ∃ y, Lexer.scanHex cs.length x = (true, y) ∧ Ahead rest (saved ++ cs) y := by
  induction cs generalizing saved x with
  | nil => exact ⟨x, rfl, by rwa [List.append_nil]⟩
  | cons c cs ih =>
    obtain ⟨y, hscan, hahead⟩ := ih (Ahead.next h)
    refine ⟨y, ?_, by rwa [List.append_cons]⟩
    obtain ⟨got, lex⟩ := x
    rw [List.length_cons, Lexer.scanHex, if_pos (l_isxdigit_eq_true _)]
    exact hscan

/-- Bytes that stand for themselves. -/
lemma Ahead.scanChars_plain (h : Ahead (cs ++ rest) saved x) (hcs : ∀ u ∈ cs, PlainByte u) :
    ∃ y, scanChars x = scanChars y ∧ Ahead rest (saved ++ cs) y := by
  induction cs generalizing saved x with
  | nil => exact ⟨x, rfl, by rwa [List.append_nil]⟩
  | cons c cs ih =>
    obtain ⟨⟨hlow, hquote, hslash⟩, hcs⟩ := List.forall_mem_cons.mp hcs
    obtain ⟨y, hscan, hahead⟩ := ih (Ahead.next h) hcs
    refine ⟨y, ?_, by rwa [List.append_cons]⟩
    obtain ⟨got, lex⟩ := x
    obtain rfl : got = .byte c := h.1
    have hcontrol : ¬ c ≤ 0x1F := by
      simp only [UInt8.le_iff_toNat_le, UInt8.reduceToNat]
      omega
    rw [← hscan, scanChars, if_neg (by simp [Got.is, hquote]), if_neg hcontrol,
      if_neg (by simp [Got.is, hslash])]

/-- A letter behind a backslash. -/
lemma Ahead.scanChars_letter {e : UInt8} (h : Ahead ('\\'.toUInt8 :: e :: rest) saved x)
    (he : e ∈ escapeLetters) :
    ∃ y, scanChars x = scanChars y ∧ Ahead rest (saved ++ ['\\'.toUInt8, e]) y := by
  have hall : ∀ e ∈ escapeLetters, Got.is (.byte e) 'u' = false ∧
      ['\x22', '\\', '/', 'b', 'f', 'n', 'r', 't'].any (Got.is (.byte e)) = true :=
    List.all_iff_forall_prop.mp (by decide)
  obtain ⟨hu, hletter⟩ := hall e he
  have hnext := h.next
  have hlast := hnext.next
  rw [List.append_assoc] at hlast
  refine ⟨_, ?_, hlast⟩
  obtain ⟨got, lex⟩ := x
  obtain rfl : got = .byte '\\'.toUInt8 := h.1
  rw [scanChars, if_neg (by decide), if_neg (by decide), if_pos (by decide)]
  simp only [hnext.1, hu, hletter, Bool.false_eq_true, if_false, if_true]

/-- Four characters behind `\u`. -/
lemma Ahead.scanChars_number (h : Ahead (ascii "\\u" ++ (cs ++ rest)) saved x)
    (hcs : cs.length = 4) :
    ∃ y, scanChars x = scanChars y ∧ Ahead rest (saved ++ (ascii "\\u" ++ cs)) y := by
  have hslash : Ahead ('\\'.toUInt8 :: 'u'.toUInt8 :: (cs ++ rest)) saved x := h
  have hu := hslash.next
  obtain ⟨y, hscan, hahead⟩ := hu.next.scanHex
  rw [hcs] at hscan
  rw [List.append_assoc, List.append_assoc] at hahead
  refine ⟨y, ?_, hahead⟩
  obtain ⟨got, lex⟩ := x
  obtain rfl : got = .byte '\\'.toUInt8 := h.1
  rw [scanChars, if_neg (by decide), if_neg (by decide), if_pos (by decide)]
  simp only [hu.is_eq_true, if_true, hscan]

/-- What is written of a character passes. -/
lemma Ahead.scanChars_written {c : Char} (h : Ahead (w ++ rest) saved x) (hw : Written c w) :
    ∃ y, scanChars x = scanChars y ∧ Ahead rest (saved ++ w) y := by
  cases hw with
  | plain hplain => exact h.scanChars_plain hplain
  | letter he hx hc => exact h.scanChars_letter he
  | number hc =>
    rw [List.append_assoc] at h
    exact h.scanChars_number (length_hex04x hc)
  | pair hc =>
    have hvalid : c.toNat < 0xD800 ∨ 0xDFFF < c.toNat ∧ c.toNat < 0x110000 := c.valid
    rw [List.append_assoc, List.append_assoc, List.append_assoc] at h
    obtain ⟨y, hscan, hahead⟩ := h.scanChars_number (length_hex04x (by
      rw [highSurrogate]
      omega))
    obtain ⟨z, hscan', hahead'⟩ := hahead.scanChars_number (length_hex04x (by
      rw [lowSurrogate]
      omega))
    refine ⟨z, hscan.trans hscan', ?_⟩
    simpa using hahead'

lemma Ahead.scanChars_flatMap {l : List Char} {write : Char → List UInt8}
    (h : Ahead (l.flatMap write ++ rest) saved x) (hwrite : ∀ c ∈ l, Written c (write c)) :
    ∃ y, scanChars x = scanChars y ∧ Ahead rest (saved ++ l.flatMap write) y := by
  induction l generalizing saved x with
  | nil => exact ⟨x, rfl, by simpa using h⟩
  | cons c l ih =>
    rw [List.flatMap_cons, List.append_assoc] at h
    obtain ⟨hc, hl⟩ := List.forall_mem_cons.mp hwrite
    obtain ⟨y, hscan, hahead⟩ := h.scanChars_written hc
    obtain ⟨z, hscan', hahead'⟩ := ih hahead hl
    refine ⟨z, hscan.trans hscan', ?_⟩
    rwa [List.flatMap_cons, ← List.append_assoc]

end Lexer

/-! ## The second loop -/

section

variable {t p cs w : List UInt8}

lemma unescape_plain (hcs : ∀ u ∈ cs, PlainByte u) :
    unescape t (cs ++ p) = unescape (t ++ cs) p := by
  induction cs generalizing t with
  | nil => rw [List.nil_append, List.append_nil]
  | cons c cs ih =>
    obtain ⟨⟨-, hquote, hslash⟩, hcs⟩ := List.forall_mem_cons.mp hcs
    rw [List.cons_append, unescape.eq_def]
    simp only [hquote, if_false, hslash, ne_eq, not_false_eq_true, if_true]
    rw [ih hcs, List.append_assoc, List.singleton_append]

lemma unescape_letter {e x : UInt8} (he : e ∈ escapeLetters) (hx : shortEscape e = some x) :
    unescape t ('\\'.toUInt8 :: e :: p) = unescape (t ++ [x]) p := by
  have hall : ∀ e ∈ escapeLetters, e ≠ 'u'.toUInt8 :=
    List.all_iff_forall_prop.mp (by decide)
  rw [unescape.eq_def]
  simp only [hx, hall e he, if_false]
  rw [if_neg (by decide), if_neg (by decide)]

/-- The character of four digits behind `\u`. -/
lemma unescape_number (hc : c.toNat < 0x10000) (hzero : c ≠ '\x00') :
    unescape t (ascii "\\u" ++ hex04x c.toNat ++ p)
      = unescape (t ++ String.utf8EncodeChar c) p := by
  have hvalid : c.toNat < 0xD800 ∨ 0xDFFF < c.toNat ∧ c.toNat < 0x110000 := c.valid
  have hne : c.toNat ≠ 0 := fun h => hzero (Char.toNat_inj.mp h)
  have htext : ascii "\\u" ++ hex04x c.toNat ++ p
      = '\\'.toUInt8 :: 'u'.toUInt8 :: (hex04x c.toNat ++ p) := by
    rw [List.append_assoc]
    rfl
  rw [htext, unescape.eq_def]
  simp only [decode_hex04x hc, bind, Except.bind]
  rw [if_neg (by decide), if_neg (by decide), if_pos trivial, if_neg (by omega), if_neg (by omega),
    if_neg hne, List.drop_left' (length_hex04x hc), utf8_encode_toNat]

/-- The character of a surrogate pair. -/
lemma unescape_pair (hc : 0x10000 ≤ c.toNat) :
    unescape t (ascii "\\u" ++ hex04x (highSurrogate c.toNat) ++ ascii "\\u" ++
      hex04x (lowSurrogate c.toNat) ++ p) = unescape (t ++ String.utf8EncodeChar c) p := by
  have hvalid : c.toNat < 0xD800 ∨ 0xDFFF < c.toNat ∧ c.toNat < 0x110000 := c.valid
  obtain ⟨high, hhigh⟩ : ∃ n, highSurrogate c.toNat = n := ⟨_, rfl⟩
  obtain ⟨low, hlow⟩ : ∃ n, lowSurrogate c.toNat = n := ⟨_, rfl⟩
  rw [hhigh, hlow]
  rw [highSurrogate] at hhigh
  rw [lowSurrogate] at hlow
  have hvalue : (high - 0xD800) <<< 10 + (low - 0xDC00) + 0x10000 = c.toNat := by
    rw [Nat.shiftLeft_eq]
    omega
  have htext : ascii "\\u" ++ hex04x high ++ ascii "\\u" ++ hex04x low ++ p
      = '\\'.toUInt8 :: 'u'.toUInt8 :: (hex04x high ++ (ascii "\\u" ++ (hex04x low ++ p))) := by
    simp only [List.append_assoc]
    rfl
  rw [htext, unescape.eq_def]
  have hfirst : high < 0x10000 := by omega
  have hdrop : (hex04x high ++ (ascii "\\u" ++ (hex04x low ++ p))).drop 4
      = ascii "\\u" ++ (hex04x low ++ p) := List.drop_left' (length_hex04x hfirst)
  have hsecond : decode_unicode_escape ((ascii "\\u" ++ (hex04x low ++ p)).drop 2) = .ok low :=
    decode_hex04x (by omega) p
  have hrest : (ascii "\\u" ++ (hex04x low ++ p)).drop 6 = p := by
    rw [← List.append_assoc]
    exact List.drop_left' (by rw [List.length_append, length_hex04x (by omega)]; rfl)
  have htake : (ascii "\\u" ++ (hex04x low ++ p)).take 2 = ascii "\\u" := rfl
  simp only [decode_hex04x hfirst, bind, Except.bind, hdrop, hsecond, hrest, htake, hvalue]
  rw [if_neg (by decide), if_neg (by decide), if_pos trivial, if_pos (by omega), if_pos trivial,
    if_pos (by omega), utf8_encode_toNat]

lemma unescape_written (hw : Written c w) (hzero : c ≠ '\x00') :
    unescape t (w ++ p) = unescape (t ++ String.utf8EncodeChar c) p := by
  cases hw with
  | plain hplain => exact unescape_plain hplain
  | letter he hx hc =>
    rw [hc]
    exact unescape_letter he hx
  | number hc => exact unescape_number hc hzero
  | pair hc => exact unescape_pair hc

lemma unescape_flatMap {write : Char → List UInt8} (hwrite : ∀ c ∈ l, Written c (write c))
    (hzero : '\x00' ∉ l) : unescape t (l.flatMap write ++ p) = unescape (t ++ utf8Bytes l) p := by
  induction l generalizing t with
  | nil => rw [List.flatMap_nil, List.nil_append, utf8Bytes_nil, List.append_nil]
  | cons c l ih =>
    obtain ⟨hc, hl⟩ := List.forall_mem_cons.mp hwrite
    rw [List.mem_cons, not_or] at hzero
    rw [List.flatMap_cons, List.append_assoc, unescape_written hc (Ne.symm hzero.1),
      ih hl hzero.2, utf8Bytes_cons, List.append_assoc]

end

/-! ## Strings -/

/-- The text of the bytes of a text. -/
lemma toText_utf8Bytes (l : List Char) : toText (utf8Bytes l) = String.ofList l := by
  have hbytes : (⟨(utf8Bytes l).toArray⟩ : ByteArray) = (String.ofList l).toByteArray := by
    rw [String.toByteArray_ofList]
    exact ByteArray.ext List.data_toByteArray.symm
  rw [toText, hbytes, String.fromUTF8?, dif_pos (String.ofList l).isValidUTF8]
  rfl

namespace Lexer

/-- **A string that was written is read back**, with whatever behind it. -/
lemma readAs_dump_string (flags : ℕ) (jsonp_strtod : List UInt8 → Option UInt64)
    (hzero : '\x00' ∉ l) (rest : List UInt8) :
    ReadAs jsonp_strtod (dump_string flags (utf8Bytes l)).trace (.TOKEN_STRING (.ofList l))
      rest := by
  intro lex hreads
  have hwrite : ∀ c ∈ l, Written c (escaped flags c) := fun c _ => written_escaped flags c
  have htext : (dump_string flags (utf8Bytes l)).trace ++ rest
      = '\x22'.toUInt8 :: (l.flatMap (escaped flags) ++ ('\x22'.toUInt8 :: rest)) := by
    rw [dump_string_utf8Bytes]
    simp [dump, ascii]
  rw [htext] at hreads
  obtain ⟨lex', hscan, hahead⟩ :=
    lex_scan_cons jsonp_strtod hreads (by decide)
  have hstart : Ahead ('\x22'.toUInt8 :: (l.flatMap (escaped flags) ++ ('\x22'.toUInt8 :: rest))) []
      (.byte '\x22'.toUInt8, { lex'.lex_save '\x22'.toUInt8 with token := .TOKEN_INVALID }) :=
    ⟨rfl, hahead.2.1.with_token _, hahead.2.2⟩
  obtain ⟨y, hchars, hend⟩ := hstart.next.scanChars_flatMap hwrite
  obtain ⟨got, lex₁⟩ := y
  obtain rfl : got = .byte '\x22'.toUInt8 := hend.1
  have hquote : scanChars (.byte '\x22'.toUInt8, lex₁) = (true, lex₁) := by
    rw [scanChars, if_pos (by decide)]
  have hunescape : unescape [] (lex₁.saved_text.drop 1) = .ok (.ok (utf8Bytes l)) := by
    rw [show lex₁.saved_text = _ from hend.2.2]
    simp only [List.nil_append, List.cons_append, List.drop_succ_cons, List.drop_zero]
    rw [unescape_flatMap hwrite hzero, List.nil_append, unescape.eq_def]
    simp
  refine ⟨{ lex₁ with token := .TOKEN_STRING (.ofList l) }, ?_, rfl,
    hend.2.1.pop.with_token _⟩
  rw [hscan, scanToken]
  simp only
  rw [show ['\x7b', '\x7d', '[', ']', ':', ','].find? (Got.is (.byte '\x22'.toUInt8)) = none by
    decide]
  simp only
  rw [if_pos (by decide), lex_scan_string, hchars, hquote]
  simp only [hunescape, bind, Except.bind, toText_utf8Bytes]
  rfl

end Lexer

end Headcrab
