/-
# `json_dumps`: the writer of `dump.c`

`json_dumps` writes the text of a value.  Its flags say how: with blanks and line breaks or
without (`JSON_INDENT`, `JSON_COMPACT`), with every character as it is or in ASCII only
(`JSON_ENSURE_ASCII`, `JSON_ESCAPE_SLASH`), and whether a value that is neither an object nor
an array has a text at all (`JSON_ENCODE_ANY`).

A tree lists the pairs of an object in the order in which they are written.  Which order that is
depends on the hash table behind the object, and on two more flags (`JSON_SORT_KEYS`,
`JSON_PRESERVE_ORDER`); the writer of `DumpCells` finds it.

The functions hand bytes to a callback, and return 0 or -1: they are computations that show
bytes and may fail.  The callback of `json_dumps` appends to a buffer, and memory suffices.
How `snprintf` prints a number with `%.17g` is left open.
-/
import Headcrab.Load
import Headcrab.Utf8

namespace Headcrab

/-- `JSON_INDENT(flags)`. -/
def JSON_INDENT (flags : ℕ) : ℕ := flags &&& 0x1F

def JSON_COMPACT : ℕ := 0x20

def JSON_ENSURE_ASCII : ℕ := 0x40

def JSON_SORT_KEYS : ℕ := 0x80

def JSON_PRESERVE_ORDER : ℕ := 0x100

def JSON_ENCODE_ANY : ℕ := 0x200

def JSON_ESCAPE_SLASH : ℕ := 0x400

/-- A computation that hands bytes to the callback; to fail is to return -1. -/
abbrev Dump (α : Type) : Type := Traced UInt8 Unit α

/-- `dump`, the callback. -/
def dump (buffer : List UInt8) : Dump Unit := ⟨buffer, .ok ()⟩

/-- `return -1`. -/
def dumpError {α : Type} : Dump α := .ofExcept (.error ())

/-- A call whose result nobody looks at. -/
def unchecked (x : Dump Unit) : Dump Unit := ⟨x.trace, .ok ()⟩

/-- `for(i = 0; i < n; i++) dump(buffer);` -/
def dumpTimes (buffer : List UInt8) : ℕ → Dump Unit
  | 0 => pure ()
  | n + 1 => do
    dump buffer
    dumpTimes buffer n

def dump_indent (flags depth : ℕ) (space : Bool) : Dump Unit :=
  if 0 < JSON_INDENT flags then do
    dump (ascii "\n")
    dumpTimes (List.replicate (JSON_INDENT flags) ' '.toUInt8) depth
  else if space && !hasFlag flags JSON_COMPACT then dump (ascii " ")
  else pure ()

/-! ## Strings -/

/-- `%04x`. -/
def hex04x (n : ℕ) : List UInt8 := ((Nat.toDigits 16 n).leftpad 4 '0').map Char.toUInt8

/-- A character that is not written as it is. -/
def isEscaped (flags codepoint : ℕ) : Bool :=
  codepoint == '\\'.toNat || codepoint == '\x22'.toNat || codepoint < 0x20 ||
    hasFlag flags JSON_ESCAPE_SLASH && codepoint == '/'.toNat ||
    hasFlag flags JSON_ENSURE_ASCII && 0x7F < codepoint

/-- What is written for it. -/
def escapeText (codepoint : ℕ) : List UInt8 :=
  if codepoint = '\\'.toNat then ascii "\\\\"
  else if codepoint = '\x22'.toNat then ascii "\\\x22"
  else if codepoint = 0x08 then ascii "\\b"
  else if codepoint = 0x0C then ascii "\\f"
  else if codepoint = 0x0A then ascii "\\n"
  else if codepoint = 0x0D then ascii "\\r"
  else if codepoint = 0x09 then ascii "\\t"
  else if codepoint = '/'.toNat then ascii "\\/"
  else if codepoint < 0x10000 then ascii "\\u" ++ hex04x codepoint
  else
    let codepoint := codepoint - 0x10000
    ascii "\\u" ++ hex04x (0xD800 ||| (codepoint &&& 0xffc00) >>> 10) ++ ascii "\\u" ++
      hex04x (0xDC00 ||| codepoint &&& 0x003ff)

lemma length_utf8_iterate {string rest : List UInt8} {x : ℕ}
    (h : utf8_iterate string = some (some x, rest)) : rest.length < string.length := by
  rcases string with _ | ⟨u, us⟩
  · exact absurd h (by simp [utf8_iterate])
  · obtain ⟨c, -, heq⟩ := (utf8_iterate_eq_some_iff (by simp)).mp h
    have hpos := List.length_pos_iff.mpr (String.utf8EncodeChar_ne_nil (c := c))
    rw [heq, List.length_append]
    omega

/-- The inner loop of `dump_string`: the bytes that are written as they are, and the character
that stopped it, with what is behind it. -/
def plainPart (flags : ℕ) (part pos : List UInt8) : Option (List UInt8 × Option (ℕ × List UInt8)) :=
  match _h : utf8_iterate pos with
  | none => none
  | some (none, _) => some (part, none)
  | some (some codepoint, rest) =>
    if isEscaped flags codepoint then some (part, some (codepoint, rest))
    else plainPart flags (part ++ pos.take (pos.length - rest.length)) rest
termination_by pos.length
decreasing_by exact length_utf8_iterate _h

lemma length_plainPart {flags x : ℕ} {part pos part' rest : List UInt8}
    (h : plainPart flags part pos = some (part', some (x, rest))) : rest.length < pos.length := by
  fun_induction plainPart flags part pos with
  | case1 => exact absurd h (by simp)
  | case2 => exact absurd h (by simp)
  | case3 part pos codepoint rest' hget hescaped =>
    simp only [Option.some.injEq, Prod.mk.injEq] at h
    obtain ⟨-, -, rfl⟩ := h
    exact length_utf8_iterate hget
  | case4 part pos codepoint rest' hget hplain ih =>
    exact Nat.lt_trans (ih h) (length_utf8_iterate hget)

/-- The outer loop of `dump_string`. -/
def dumpChars (flags : ℕ) (str : List UInt8) : Dump Unit :=
  match _h : plainPart flags [] str with
  | none => dumpError
  | some (part, none) => if part ≠ [] then dump part else pure ()
  | some (part, some (codepoint, rest)) => do
    if part ≠ [] then dump part
    dump (escapeText codepoint)
    dumpChars flags rest
termination_by str.length
decreasing_by exact length_plainPart _h

def dump_string (flags : ℕ) (str : List UInt8) : Dump Unit := do
  dump (ascii "\x22")
  dumpChars flags str
  dump (ascii "\x22")

/-! ## Values -/

section

variable (snprintf_17g : UInt64 → List UInt8)

/-- `jsonp_dtostr`, with a dot or an exponent in any case, and with a short exponent.  The
decimal point is a dot. -/
def jsonp_dtostr (size : ℕ) (value : UInt64) : Option (List UInt8) :=
  let buffer := snprintf_17g value
  if size ≤ buffer.length then none
  else if '.'.toUInt8 ∉ buffer ∧ 'e'.toUInt8 ∉ buffer ∧ size ≤ buffer.length + 3 then none
  else
    let buffer := if '.'.toUInt8 ∉ buffer ∧ 'e'.toUInt8 ∉ buffer then buffer ++ ascii ".0"
      else buffer
    some <| buffer.takeWhile (· != 'e'.toUInt8) ++
      match buffer.dropWhile (· != 'e'.toUInt8) with
      | e :: start :: rest =>
        (if start = '-'.toUInt8 then [e, start] else [e]) ++ rest.dropWhile (· == '0'.toUInt8)
      | exponent => exponent

def MAX_REAL_STR_LENGTH : ℕ := 100

mutual

/-- `do_dump`, without the marks that detect circular references: a tree has none. -/
def do_dump (flags depth : ℕ) : Json → Dump Unit
  | .null => dump (ascii "null")
  | .true => dump (ascii "true")
  | .false => dump (ascii "false")
  | .integer value => dump (ascii (toString value))
  | .real value =>
    match jsonp_dtostr snprintf_17g MAX_REAL_STR_LENGTH value with
    | none => dumpError
    | some buffer => dump buffer
  | .string value => dump_string flags (utf8Bytes value.toList)
  | .array items => do
    dump (ascii "[")
    if items.isEmpty then dump (ascii "]")
    else
      dump_indent flags (depth + 1) false
      dumpItems flags depth items
      dump (ascii "]")
  | .object fields => do
    dump (ascii "\x7b")
    if fields.isEmpty then dump (ascii "\x7d")
    else
      dump_indent flags (depth + 1) false
      dumpPairs flags depth fields
      dump (ascii "\x7d")

/-- The loop over the values of an array. -/
def dumpItems (flags depth : ℕ) : List Json → Dump Unit
  | [] => pure ()
  | value :: items => do
    do_dump flags (depth + 1) value
    if items.isEmpty then dump_indent flags depth false
    else
      dump (ascii ",")
      dump_indent flags (depth + 1) true
    dumpItems flags depth items

/-- The loop over the pairs of an object; what comes of a key is not looked at. -/
def dumpPairs (flags depth : ℕ) : List (String × Json) → Dump Unit
  | [] => pure ()
  | (key, value) :: fields => do
    unchecked (dump_string flags (utf8Bytes key.toList))
    dump (ascii (if hasFlag flags JSON_COMPACT then ":" else ": "))
    do_dump flags (depth + 1) value
    if fields.isEmpty then dump_indent flags depth false
    else
      dump (ascii ",")
      dump_indent flags (depth + 1) true
    dumpPairs flags depth fields

end

def isContainer : Json → Bool
  | .object _ | .array _ => true
  | _ => false

/-- `json_dumps`; no text is `NULL`. -/
def json_dumps (json : Json) (flags : ℕ) : Option (List UInt8) :=
  if !hasFlag flags JSON_ENCODE_ANY && !isContainer json then none
  else
    match do_dump snprintf_17g flags 0 json with
    | ⟨text, .ok ()⟩ => some text
    | ⟨_, .error ()⟩ => none

end

end Headcrab
