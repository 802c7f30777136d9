/-
# What `json_dumps` writes

The text of a value, put together from the texts of its parts: each function of `dump.c` hands
over one text (`do_dump_array_cons`, `dumpPairs_cons` and so on), and each of these texts is
UTF-8 and has no zero in it (`IsText`).

Of the flags two say what bytes there can be: with `JSON_ENSURE_ASCII` the text is ASCII
(`json_dumps_ascii`), and without an indentation it is one line (`json_dumps_line`), whatever
the strings of the value are.
-/
import Headcrab.StringText
import Headcrab.NumberText
import Headcrab.WellFormed

namespace Headcrab

open Lexer

variable {flags : ℕ}

/-! ## What is written, as a text -/

@[simp] lemma dump_dump (a b : List UInt8) :
    (dump a >>= fun _ => dump b) = dump (a ++ b) := rfl

@[simp] lemma dump_dump_bind {α : Type} (a b : List UInt8) (f : Unit → Dump α) :
    (dump a >>= fun _ => dump b >>= f) = dump (a ++ b) >>= f := by
  rw [← dump_dump, bind_assoc]

@[simp] lemma dump_pure (buffer : List UInt8) :
    (dump buffer >>= fun _ => pure ()) = dump buffer := by
  rw [dump_bind, Traced.trace_pure, List.append_nil]
  rfl

@[simp] lemma trace_dump (buffer : List UInt8) : (dump buffer).trace = buffer := rfl

lemma unchecked_dump (buffer : List UInt8) : unchecked (dump buffer) = dump buffer := rfl

lemma dumpTimes_eq (buffer : List UInt8) (n : ℕ) :
    dumpTimes buffer n = dump (List.replicate n buffer).flatten := by
  induction n with
  | zero => rfl
  | succ n ih =>
    rw [dumpTimes, ih, dump_dump]
    rfl

/-- A line break with blanks, or one blank, or nothing. -/
def indentText (flags depth : ℕ) (space : Bool) : List UInt8 :=
  if 0 < JSON_INDENT flags then
    ascii "\n" ++ (List.replicate depth (List.replicate (JSON_INDENT flags) ' '.toUInt8)).flatten
  else if space && !hasFlag flags JSON_COMPACT then ascii " "
  else []

lemma dump_indent_eq (flags depth : ℕ) (space : Bool) :
    dump_indent flags depth space = dump (indentText flags depth space) := by
  rw [dump_indent, indentText]
  split
  · rw [dumpTimes_eq, dump_dump]
  · split
    · rfl
    · rfl

lemma mem_indentText {depth : ℕ} {space : Bool} {u : UInt8} (h : u ∈ indentText flags depth space) :
    u ∈ ascii "\n " := by
  rw [indentText] at h
  split at h
  · rcases List.mem_append.mp h with h | h
    · rw [List.mem_singleton.mp h]
      exact List.mem_cons_self ..
    · obtain ⟨line, hline, hu⟩ := List.mem_flatten.mp h
      rw [List.eq_of_mem_replicate hline] at hu
      rw [List.eq_of_mem_replicate hu]
      exact List.mem_cons_of_mem _ (List.mem_cons_self ..)
  · split at h
    · exact List.mem_cons_of_mem _ h
    · exact absurd h (by simp)

/-- What stands between two values, and behind the last one. -/
def separator (flags depth : ℕ) (last : Bool) : List UInt8 :=
  if last then indentText flags depth false else ascii "," ++ indentText flags (depth + 1) true

section

variable (snprintf_17g : UInt64 → List UInt8) (depth : ℕ)

lemma do_dump_array_nil : do_dump snprintf_17g flags depth (.array []) = dump (ascii "[]") := by
  rw [do_dump]
  rfl

lemma do_dump_object_nil :
    do_dump snprintf_17g flags depth (.object []) = dump (ascii "\x7b\x7d") := by
  rw [do_dump]
  rfl

lemma do_dump_array_cons (value : Json) (items : List Json) :
    do_dump snprintf_17g flags depth (.array (value :: items)) = (do
      dump (ascii "[" ++ indentText flags (depth + 1) false)
      dumpItems snprintf_17g flags depth (value :: items)
      dump (ascii "]")) := by
  rw [do_dump, dump_indent_eq]
  simp only [List.isEmpty_cons, Bool.false_eq_true, if_false, dump_dump_bind]

lemma do_dump_object_cons (key : String) (value : Json) (fields : List (String × Json)) :
    do_dump snprintf_17g flags depth (.object ((key, value) :: fields)) = (do
      dump (ascii "\x7b" ++ indentText flags (depth + 1) false)
      dumpPairs snprintf_17g flags depth ((key, value) :: fields)
      dump (ascii "\x7d")) := by
  rw [do_dump, dump_indent_eq]
  simp only [List.isEmpty_cons, Bool.false_eq_true, if_false, dump_dump_bind]

lemma dumpItems_cons (value : Json) (items : List Json) :
    dumpItems snprintf_17g flags depth (value :: items) = (do
      do_dump snprintf_17g flags (depth + 1) value
      dump (separator flags depth items.isEmpty)
      dumpItems snprintf_17g flags depth items) := by
  rw [dumpItems, dump_indent_eq, dump_indent_eq, separator]
  split
  · rfl
  · simp only [dump_dump_bind]

/-- A key, with what stands behind it. -/
def keyText (flags : ℕ) (key : String) : List UInt8 :=
  (dump_string flags (utf8Bytes key.toList)).trace ++
    ascii (if hasFlag flags JSON_COMPACT then ":" else ": ")

lemma dumpPairs_cons (key : String) (value : Json) (fields : List (String × Json)) :
    dumpPairs snprintf_17g flags depth ((key, value) :: fields) = (do
      dump (keyText flags key)
      do_dump snprintf_17g flags (depth + 1) value
      dump (separator flags depth fields.isEmpty)
      dumpPairs snprintf_17g flags depth fields) := by
  rw [dumpPairs, dump_indent_eq, dump_indent_eq, separator, keyText, dump_string_utf8Bytes,
    unchecked_dump, trace_dump]
  rcases fields with _ | ⟨f, fields⟩
  · simp only [List.isEmpty_nil, if_true, dump_dump_bind]
  · simp only [List.isEmpty_cons, Bool.false_eq_true, if_false, dump_dump_bind]

end

/-! ## Texts -/

/-- Bytes that the stream delivers one by one: UTF-8, and no zero. -/
def IsText (text : List UInt8) : Prop := ∃ l : List Char, text = utf8Bytes l ∧ '\x00' ∉ l

lemma IsText.append {a b : List UInt8} (ha : IsText a) (hb : IsText b) : IsText (a ++ b) := by
  obtain ⟨l, rfl, hl⟩ := ha
  obtain ⟨l', rfl, hl'⟩ := hb
  exact ⟨l ++ l', (utf8Bytes_append l l').symm, by simp [hl, hl']⟩

lemma isText_of_ascii {text : List UInt8} (h : ∀ u ∈ text, 0 < u.toNat ∧ u.toNat < 0x80) :
    IsText text := by
  induction text with
  | nil => exact ⟨[], rfl, by simp⟩
  | cons u text ih =>
    obtain ⟨hu, htext⟩ := List.forall_mem_cons.mp h
    obtain ⟨c, hc, heq⟩ := exists_char_of_byte hu.2
    have hzero : '\x00' ∉ [c] := by
      rw [List.mem_singleton]
      rintro rfl
      exact absurd hc (Nat.ne_of_lt hu.1)
    have hone : IsText [u] := ⟨[c], by simp [heq], hzero⟩
    exact hone.append (ih htext)

/-- A text of ASCII characters, none of which is a zero. -/
def asciiOnly (text : List UInt8) : Bool := text.all fun u => 0 < u.toNat && u.toNat < 0x80

lemma isText_of_asciiOnly {text : List UInt8} (h : asciiOnly text = true) : IsText text := by
  simp only [asciiOnly, List.all_eq_true, Bool.and_eq_true, decide_eq_true_eq] at h
  exact isText_of_ascii h

lemma isText_of_subset {text allowed : List UInt8} (hallowed : asciiOnly allowed = true)
    (h : ∀ u ∈ text, u ∈ allowed) : IsText text := by
  simp only [asciiOnly, List.all_eq_true, Bool.and_eq_true, decide_eq_true_eq] at hallowed
  exact isText_of_ascii fun u hu => hallowed u (h u hu)

lemma isText_hex04x {n : ℕ} (h : n < 0x10000) : IsText (hex04x n) := by
  have hall : ∀ d < 16, hexChar d ∈ ascii "0123456789abcdef" := by decide
  have hascii : asciiOnly (ascii "0123456789abcdef") = true := by decide
  rw [hex04x_eq h]
  refine isText_of_subset hascii fun u hu => ?_
  simp only [List.mem_cons, List.not_mem_nil, or_false] at hu
  rcases hu with rfl | rfl | rfl | rfl
  · exact hall _ (by omega)
  · exact hall _ (by omega)
  · exact hall _ (by omega)
  · exact hall _ (by omega)

lemma Written.isText {c : Char} {w : List UInt8} (h : Written c w) (hzero : c ≠ '\x00') :
    IsText w := by
  cases h with
  | plain hplain => exact ⟨[c], by simp, by simpa using hzero.symm⟩
  | letter he hx hc =>
    have hall : ∀ e ∈ escapeLetters, asciiOnly ['\\'.toUInt8, e] = true :=
      List.all_iff_forall_prop.mp (by decide)
    exact isText_of_asciiOnly (hall _ he)
  | number hc => exact (isText_of_asciiOnly (by decide)).append (isText_hex04x hc)
  | pair hc =>
    have hvalid : c.toNat < 0xD800 ∨ 0xDFFF < c.toNat ∧ c.toNat < 0x110000 := c.valid
    have hhigh : IsText (hex04x (highSurrogate c.toNat)) := isText_hex04x (by
      rw [highSurrogate]
      omega)
    have hlow : IsText (hex04x (lowSurrogate c.toNat)) := isText_hex04x (by
      rw [lowSurrogate]
      omega)
    have hescape : IsText (ascii "\\u") := isText_of_asciiOnly (by decide)
    exact ((hescape.append hhigh).append hescape).append hlow

lemma isText_dump_string {l : List Char} (hzero : '\x00' ∉ l) :
    IsText (dump_string flags (utf8Bytes l)).trace := by
  have hquote : IsText (ascii "\x22") := isText_of_asciiOnly (by decide)
  have hchars : IsText (l.flatMap (escaped flags)) := by
    induction l with
    | nil => exact ⟨[], rfl, by simp⟩
    | cons c l ih =>
      rw [List.mem_cons, not_or] at hzero
      rw [List.flatMap_cons]
      exact ((written_escaped flags c).isText (Ne.symm hzero.1)).append (ih hzero.2)
  rw [dump_string_utf8Bytes, trace_dump]
  exact hquote.append (hchars.append hquote)

lemma isText_indentText (depth : ℕ) (space : Bool) : IsText (indentText flags depth space) := by
  have hblanks : asciiOnly (ascii "\n ") = true := by decide
  exact isText_of_subset hblanks fun _ h => mem_indentText h

lemma isText_keyText {key : String} (h : ZeroFree key) : IsText (keyText flags key) := by
  refine (isText_dump_string h).append (isText_of_asciiOnly ?_)
  split
  · decide
  · decide

/-! ## Bytes -/

/-- A printable character of ASCII. -/
def Printable (u : UInt8) : Prop := 0x20 ≤ u.toNat ∧ u.toNat < 0x80

lemma printable_of_mem {text : List UInt8}
    (h : (text.all fun u => 0x20 ≤ u.toNat && u.toNat < 0x80) = true) :
    ∀ u ∈ text, Printable u := by
  intro u hu
  have hbyte := List.all_eq_true.mp h u hu
  rw [Bool.and_eq_true, decide_eq_true_eq, decide_eq_true_eq] at hbyte
  exact hbyte

lemma printable_hexChar {d : ℕ} (h : d < 16) : Printable (hexChar d) := by
  have hall : ∀ d < 16, 0x20 ≤ (hexChar d).toNat ∧ (hexChar d).toNat < 0x80 := by decide
  exact hall d h

lemma printable_hex04x {n : ℕ} (h : n < 0x10000) : ∀ u ∈ hex04x n, Printable u := by
  rw [hex04x_eq h]
  intro u hu
  simp only [List.mem_cons, List.not_mem_nil, or_false] at hu
  rcases hu with rfl | rfl | rfl | rfl
  · exact printable_hexChar (by omega)
  · exact printable_hexChar (by omega)
  · exact printable_hexChar (by omega)
  · exact printable_hexChar (by omega)

/-- A character is written as it is, or with printable characters. -/
lemma Written.printable {c : Char} {w : List UInt8} (h : Written c w) :
    (w = String.utf8EncodeChar c ∧ ∀ u ∈ w, PlainByte u) ∨ ∀ u ∈ w, Printable u := by
  have hvalid : c.toNat < 0xD800 ∨ 0xDFFF < c.toNat ∧ c.toNat < 0x110000 := c.valid
  have hescape : ∀ u ∈ ascii "\\u", Printable u := printable_of_mem (by decide)
  cases h with
  | plain hplain => exact Or.inl ⟨rfl, hplain⟩
  | letter he hx hc =>
    have hall : ∀ e ∈ escapeLetters,
        (['\\'.toUInt8, e].all fun u => 0x20 ≤ u.toNat && u.toNat < 0x80) = true :=
      List.all_iff_forall_prop.mp (by decide)
    exact Or.inr (printable_of_mem (hall _ he))
  | number hc =>
    exact Or.inr fun u hu =>
      (List.mem_append.mp hu).elim (hescape u) (printable_hex04x hc u)
  | pair hc =>
    have hhigh := printable_hex04x (show highSurrogate c.toNat < 0x10000 by
      rw [highSurrogate]
      omega)
    have hlow := printable_hex04x (show lowSurrogate c.toNat < 0x10000 by
      rw [lowSurrogate]
      omega)
    refine Or.inr fun u hu => ?_
    simp only [List.mem_append] at hu
    rcases hu with ((hu | hu) | hu) | hu
    · exact hescape u hu
    · exact hhigh u hu
    · exact hescape u hu
    · exact hlow u hu

/-- `jsonp_dtostr` adds no other bytes than a point and a zero. -/
lemma mem_of_jsonp_dtostr {snprintf_17g : UInt64 → List UInt8} {size : ℕ} {bits : UInt64}
    {text : List UInt8} (h : jsonp_dtostr snprintf_17g size bits = some text) {u : UInt8}
    (hu : u ∈ text) : u ∈ snprintf_17g bits ∨ u ∈ ascii ".0" := by
  simp only [jsonp_dtostr] at h
  split at h
  · exact absurd h (by simp)
  split at h
  · exact absurd h (by simp)
  obtain ⟨buffer, hbuffer⟩ : ∃ buffer, (if '.'.toUInt8 ∉ snprintf_17g bits ∧
      'e'.toUInt8 ∉ snprintf_17g bits then snprintf_17g bits ++ ascii ".0"
      else snprintf_17g bits) = buffer := ⟨_, rfl⟩
  rw [hbuffer] at h
  have hmem : u ∈ buffer := by
    rw [← Option.some.inj h] at hu
    rcases List.mem_append.mp hu with hu | hu
    · exact (List.takeWhile_prefix _).subset hu
    refine (List.dropWhile_suffix (· != 'e'.toUInt8)).subset ?_
    split at hu
    · rename_i e start rest heq
      rw [heq]
      rcases List.mem_append.mp hu with hu | hu
      · split at hu
        · rcases List.mem_cons.mp hu with rfl | hu
          · exact List.mem_cons_self ..
          · rw [List.mem_singleton.mp hu]
            exact List.mem_cons_of_mem _ (List.mem_cons_self ..)
        · rw [List.mem_singleton.mp hu]
          exact List.mem_cons_self ..
      · exact List.mem_cons_of_mem _ (List.mem_cons_of_mem _
          ((List.dropWhile_suffix _).subset hu))
    · exact hu
  rw [← hbuffer] at hmem
  split at hmem
  · exact List.mem_append.mp hmem
  · exact Or.inl hmem

/-- What the parts of a text have to have for the text to have it. -/
structure PartsHave (P : UInt8 → Prop) (snprintf_17g : UInt64 → List UInt8) (flags : ℕ) :
    Prop where
  printable : ∀ u, Printable u → P u
  newline : 0 < JSON_INDENT flags → P 0x0A
  string : ∀ c, ∀ u ∈ escaped flags c, P u
  real : ∀ bits, ∀ u ∈ snprintf_17g bits, P u

section

variable {P : UInt8 → Prop} {snprintf_17g : UInt64 → List UInt8}

lemma PartsHave.text (h : PartsHave P snprintf_17g flags) {text : List UInt8}
    (htext : (text.all fun u => 0x20 ≤ u.toNat && u.toNat < 0x80) = true) :
    Traced.Shows P (dump text) :=
  fun u hu => h.printable u (printable_of_mem htext u hu)

lemma PartsHave.dump_string (h : PartsHave P snprintf_17g flags) (l : List Char) :
    Traced.Shows P (dump_string flags (utf8Bytes l)) := by
  have hquote : ∀ u ∈ ascii "\x22", P u := fun u hu =>
    h.printable u (printable_of_mem (by decide) u hu)
  rw [dump_string_utf8Bytes]
  intro u hu
  rcases List.mem_append.mp hu with hu | hu
  · exact hquote u hu
  rcases List.mem_append.mp hu with hu | hu
  · obtain ⟨c, -, hc⟩ := List.mem_flatMap.mp hu
    exact h.string c u hc
  · exact hquote u hu

lemma PartsHave.dump_indent (h : PartsHave P snprintf_17g flags) (depth : ℕ) (space : Bool) :
    Traced.Shows P (dump_indent flags depth space) := by
  have hspace : ∀ u ∈ ascii " ", P u := by
    intro u hu
    exact h.printable u (printable_of_mem (by decide) u hu)
  rw [dump_indent_eq]
  intro u hu
  by_cases hindent : 0 < JSON_INDENT flags
  · have hmem : u ∈ ascii "\n" ++ ascii " " := mem_indentText hu
    rcases List.mem_append.mp hmem with hmem | hmem
    · rw [List.mem_singleton.mp hmem]
      exact h.newline hindent
    · exact hspace u hmem
  · have hmem : u ∈ indentText flags depth space := hu
    rw [indentText, if_neg hindent] at hmem
    split at hmem
    · exact hspace u hmem
    · exact absurd hmem (by simp)

lemma PartsHave.integer (h : PartsHave P snprintf_17g flags) (n : ℤ) :
    Traced.Shows P (dump (ascii (toString n))) := by
  have hdigits : ∀ u ∈ ascii "-0123456789", Printable u := printable_of_mem (by decide)
  intro u hu
  have hmem : u ∈ ascii (toString n) := hu
  rw [ascii_toString] at hmem
  refine h.printable u (hdigits u ?_)
  rcases List.mem_append.mp hmem with hmem | hmem
  · rcases sign_signText n with hsign | hsign
    · rw [hsign] at hmem
      exact absurd hmem (by simp)
    · rw [hsign] at hmem
      rw [List.mem_singleton.mp hmem]
      exact List.mem_cons_self ..
  · exact List.mem_cons_of_mem _ (digit_of_mem_intDigits (intDigits_decimal _) u hmem)

/-- The separator of two values, and what closes the last one. -/
lemma PartsHave.separator (h : PartsHave P snprintf_17g flags) (depth : ℕ) (last : Bool) :
    Traced.Shows P (dump (separator flags depth last)) := by
  have hcomma : Traced.Shows P (dump (ascii ",")) := h.text (by decide)
  have hindent := fun depth space => h.dump_indent depth space
  simp only [dump_indent_eq] at hindent
  rw [Headcrab.separator]
  split
  · exact hindent depth false
  · rw [← dump_dump]
    exact hcomma.bind fun _ => hindent (depth + 1) true

mutual

/-- **What `do_dump` writes**, of whatever value. -/
lemma shows_do_dump (h : PartsHave P snprintf_17g flags) : ∀ (v : Json) (depth : ℕ),
    Traced.Shows P (do_dump snprintf_17g flags depth v)
  | .null, _ => by
    rw [do_dump]
    exact h.text (by decide)
  | .true, _ => by
    rw [do_dump]
    exact h.text (by decide)
  | .false, _ => by
    rw [do_dump]
    exact h.text (by decide)
  | .integer n, _ => by
    rw [do_dump]
    exact h.integer n
  | .real bits, _ => by
    rw [do_dump]
    split
    · exact .ofExcept _
    · rename_i text htext
      have hzero : ∀ u ∈ ascii ".0", P u := fun u hu =>
        h.printable u (printable_of_mem (by decide) u hu)
      exact fun u hu => (mem_of_jsonp_dtostr htext hu).elim (h.real bits u) (hzero u)
  | .string s, _ => by
    rw [do_dump]
    exact h.dump_string s.toList
  | .array items, depth => by
    rw [do_dump]
    refine (h.text (by decide)).bind fun _ => ?_
    split
    · exact h.text (by decide)
    · exact (h.dump_indent _ _).bind fun _ =>
        (shows_dumpItems h items depth).bind fun _ => h.text (by decide)
  | .object fields, depth => by
    rw [do_dump]
    refine (h.text (by decide)).bind fun _ => ?_
    split
    · exact h.text (by decide)
    · exact (h.dump_indent _ _).bind fun _ =>
        (shows_dumpPairs h fields depth).bind fun _ => h.text (by decide)

lemma shows_dumpItems (h : PartsHave P snprintf_17g flags) : ∀ (items : List Json) (depth : ℕ),
    Traced.Shows P (dumpItems snprintf_17g flags depth items)
  | [], _ => by
    rw [dumpItems]
    exact .pure _
  | v :: items, depth => by
    rw [dumpItems_cons]
    exact (shows_do_dump h v _).bind fun _ => (h.separator _ _).bind fun _ =>
      shows_dumpItems h items depth

lemma shows_dumpPairs (h : PartsHave P snprintf_17g flags) :
    ∀ (fields : List (String × Json)) (depth : ℕ),
      Traced.Shows P (dumpPairs snprintf_17g flags depth fields)
  | [], _ => by
    rw [dumpPairs]
    exact .pure _
  | (key, v) :: fields, depth => by
    have hcolon : Traced.Shows P
        (dump (ascii (if hasFlag flags JSON_COMPACT then ":" else ": "))) := by
      split
      · exact h.text (by decide)
      · exact h.text (by decide)
    have hkey : Traced.Shows P (dump (keyText flags key)) := fun u hu =>
      (List.mem_append.mp hu).elim (h.dump_string key.toList u) (hcolon u)
    rw [dumpPairs_cons]
    exact hkey.bind fun _ => (shows_do_dump h v _).bind fun _ => (h.separator _ _).bind fun _ =>
      shows_dumpPairs h fields depth

end

lemma PartsHave.json_dumps (h : PartsHave P snprintf_17g flags) {v : Json} {text : List UInt8}
    (htext : json_dumps snprintf_17g v flags = some text) : ∀ u ∈ text, P u := by
  have hshows := shows_do_dump h v 0
  rw [Headcrab.json_dumps] at htext
  split at htext
  · exact absurd htext (by simp)
  split at htext
  · rename_i heq
    rw [heq, Option.some.inj htext] at hshows
    exact hshows
  · exact absurd htext (by simp)

lemma backslash_mem_escapeText (n : ℕ) : '\\'.toUInt8 ∈ escapeText n := by
  rw [escapeText]
  split_ifs <;> exact List.mem_cons_self ..

/-- **With `JSON_ENSURE_ASCII` a text is ASCII**, whatever the value is, if `%.17g` prints ASCII. -/
theorem json_dumps_ascii (hascii : hasFlag flags JSON_ENSURE_ASCII = true)
    (hprint : ∀ bits, ∀ u ∈ snprintf_17g bits, u.toNat < 0x80) {v : Json} {text : List UInt8}
    (htext : json_dumps snprintf_17g v flags = some text) : ∀ u ∈ text, u.toNat < 0x80 := by
  refine PartsHave.json_dumps (P := (·.toNat < 0x80))
    ⟨fun u hu => hu.2, fun _ => by decide, fun c u hu => ?_, hprint⟩ htext
  rcases (written_escaped flags c).printable with ⟨heq, -⟩ | hprintable
  · by_cases hc : c.toNat < 0x80
    · rw [heq] at hu
      rcases utf8EncodeChar_cases c with ⟨-, hone⟩ | h | h | h
      · rw [hone, List.mem_singleton] at hu
        rw [hu, toNat_ofNat_of_lt (by omega)]
        exact hc
      · omega
      · omega
      · omega
    · -- such a character is not written as it is
      have hescaped : isEscaped flags c.toNat = true := by
        rw [isEscaped, hascii, Bool.true_and, decide_eq_true (show 0x7F < c.toNat by omega),
          Bool.or_true]
      rw [escaped, if_pos hescaped] at heq
      have hslash := backslash_mem_escapeText c.toNat
      rw [heq] at hslash
      exact absurd (le_of_mem_utf8EncodeChar (by omega) hslash) (by decide)
  · exact (hprintable u hu).2

lemma printable_of_mem_printBits {bits : UInt64} {u : UInt8} (h : u ∈ printBits bits) :
    Printable u := by
  have hdigits : ∀ u ∈ ascii "0123456789", Printable u := printable_of_mem (by decide)
  exact hdigits u (digit_of_mem_intDigits (intDigits_decimal _) u h)

/-- A letter beyond ASCII. -/
theorem json_dumps_ascii_letter :
    ∃ text, json_dumps printBits (.array [.string "é"]) JSON_ENSURE_ASCII = some text ∧
      ∀ u ∈ text, u.toNat < 0x80 := by
  have htext : json_dumps printBits (.array [.string "é"]) JSON_ENSURE_ASCII
      = some (ascii "[\x22\\u00e9\x22]") := by decide +kernel
  exact ⟨_, htext, json_dumps_ascii (by decide)
    (fun _ _ h => (printable_of_mem_printBits h).2) htext⟩

/-- **Without an indentation a text is one line**, whatever the value is: no byte of it is below
`0x20`, so there is no zero in it either.  A DEL is written as it is. -/
theorem json_dumps_line (hindent : JSON_INDENT flags = 0)
    (hprint : ∀ bits, ∀ u ∈ snprintf_17g bits, 0x20 ≤ u.toNat) {v : Json} {text : List UInt8}
    (htext : json_dumps snprintf_17g v flags = some text) : ∀ u ∈ text, 0x20 ≤ u.toNat := by
  refine PartsHave.json_dumps (P := fun u => 0x20 ≤ u.toNat)
    ⟨fun u hu => hu.1, fun h => absurd hindent (Nat.ne_of_gt h), fun c u hu => ?_, hprint⟩ htext
  rcases (written_escaped flags c).printable with ⟨-, hplain⟩ | hprintable
  · exact (hplain u hu).1
  · exact (hprintable u hu).1

/-- A line break in a string. -/
theorem json_dumps_line_newline :
    ∃ text, json_dumps printBits (.object [("a", .string "\n")]) JSON_COMPACT = some text ∧
      ∀ u ∈ text, 0x20 ≤ u.toNat := by
  have htext : json_dumps printBits (.object [("a", .string "\n")]) JSON_COMPACT
      = some (ascii "\x7b\x22a\x22:\x22\\n\x22\x7d") := by decide +kernel
  exact ⟨_, htext, json_dumps_line (by decide)
    (fun _ _ h => (printable_of_mem_printBits h).1) htext⟩

end

end Headcrab
