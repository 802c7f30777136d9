/-
# The values that the reader returns

A value of jansson that a program may have is well-formed if its strings and keys have no
zero in them, its integers fit, its reals are finite and no object has a key twice.  What
`json_loads` returns is well-formed (`valid_of_json_loads`).
-/
import Headcrab.Load
import Headcrab.Utf8

namespace Headcrab

/-- A text that a string of C can hold. -/
def ZeroFree (s : String) : Prop := '\x00' ∉ s.toList

mutual

/-- What holds of every value that jansson makes. -/
def Json.Valid : Json → Prop
  | .object fields => (fields.map Prod.fst).Nodup ∧ Json.ValidFields fields
  | .array items => Json.ValidItems items
  | .string value => ZeroFree value
  | .integer value => LLONG_MIN ≤ value ∧ value ≤ LLONG_MAX
  | .real bits => json_real bits ≠ none
  | .true | .false | .null => True

def Json.ValidItems : List Json → Prop
  | [] => True
  | value :: items => value.Valid ∧ Json.ValidItems items

def Json.ValidFields : List (String × Json) → Prop
  | [] => True
  | (key, value) :: fields => (ZeroFree key ∧ value.Valid) ∧ Json.ValidFields fields

end

/-- A token whose value jansson can keep. -/
def Token.Valid : Token → Prop
  | .TOKEN_STRING value => ZeroFree value
  | .TOKEN_INTEGER value => LLONG_MIN ≤ value ∧ value ≤ LLONG_MAX
  | _ => True

/-! ## Bytes -/

namespace Lexer

/-- No zero is kept, and none is saved. -/
structure NoZero (lex : Lexer) : Prop where
  buffer : (0 : UInt8) ∉ lex.buffer
  saved_text : (0 : UInt8) ∉ lex.saved_text
  token : lex.token.Valid

/-- The same, and what has just been read is no zero. -/
def NoZeroGot (x : Got × Lexer) : Prop := x.1 ≠ .byte 0 ∧ NoZero x.2

variable {lex lex' : Lexer} {x : Got × Lexer}

lemma NoZero.error_set (h : NoZero lex) (msg : List UInt8) : NoZero (lex.error_set msg) := by
  obtain ⟨text, heq⟩ := error_set_frame lex msg
  rw [heq]
  exact ⟨h.buffer, h.saved_text, h.token⟩

lemma noZero_stream_get (h : NoZero lex) : NoZeroGot lex.stream_get := by
  obtain ⟨hbuffer, hsaved, htoken⟩ := h
  rw [stream_get]
  split
  · exact ⟨by simp, hbuffer, hsaved, htoken⟩
  · exact ⟨by simp, hbuffer, hsaved, htoken⟩
  · split
    · rename_i c buffer heq
      rw [heq, List.mem_cons, not_or] at hbuffer
      exact ⟨by simpa using Ne.symm hbuffer.1, hbuffer.2, hsaved, htoken⟩
    · rename_i heq
      split
      · exact ⟨by simp, hbuffer, hsaved, htoken⟩
      · rename_i c data hget
        have hc : c ≠ 0 := by
          rcases hdata : lex.data with _ | ⟨d, data'⟩
          · rw [hdata] at hget
            exact absurd hget (by simp [string_get])
          · rw [hdata, string_get] at hget
            split at hget
            · exact absurd hget (by simp)
            · rename_i hd
              rwa [Option.some.inj (Prod.mk.inj hget).1] at hd
        split
        · exact ⟨by simpa using hc, hbuffer, hsaved, htoken⟩
        · rcases hgets : string_gets (utf8_check_first c - 1) data with ⟨cs, rest⟩
          simp only [hgets]
          split
          · rename_i hfull
            rw [Bool.and_eq_true] at hfull
            refine ⟨by simpa using hc, fun hzero => ?_, hsaved, htoken⟩
            exact absurd (utf8_check_full_continues hfull.2 0 hzero).1 (by decide)
          · have hfailed : NoZero { lex with state := .STREAM_STATE_ERROR } :=
              ⟨hbuffer, hsaved, htoken⟩
            exact ⟨by simp, hfailed.error_set _⟩

lemma NoZero.save (h : NoZero lex) {c : UInt8} (hc : c ≠ 0) : NoZero (lex.lex_save c) :=
  ⟨h.buffer, List.not_mem_append h.saved_text (by simpa using Ne.symm hc), h.token⟩

lemma noZero_lex_get_save (h : NoZero lex) : NoZeroGot lex.lex_get_save := by
  have hget := noZero_stream_get h
  rw [lex_get_save]
  split
  · rename_i c lex₁ heq
    rw [heq] at hget
    exact ⟨hget.1, hget.2.save fun hc => hget.1 (congrArg Got.byte hc)⟩
  · rename_i c lex₁ hc heq
    rw [heq] at hget
    exact hget

lemma NoZeroGot.unget (h : NoZeroGot x) : NoZero (x.2.lex_unget_unsave x.1) := by
  obtain ⟨c, lex⟩ := x
  obtain ⟨hne, hbuffer, hsaved, htoken⟩ := h
  cases c with
  | byte c =>
    have hc : (0 : UInt8) ≠ c := fun hc => hne (congrArg Got.byte hc.symm)
    refine ⟨?_, fun hmem => hsaved (List.dropLast_subset _ hmem), htoken⟩
    rw [lex_unget_unsave, stream_unget, List.mem_cons, not_or]
    exact ⟨hc, hbuffer⟩
  | STREAM_STATE_EOF | STREAM_STATE_ERROR => exact ⟨hbuffer, hsaved, htoken⟩

lemma NoZeroGot.saveWhile {test : ℤ → Bool} (h : NoZeroGot x) : NoZeroGot (saveWhile test x) := by
  fun_induction Lexer.saveWhile test x with
  | case1 c lex htest ih => exact ih (noZero_lex_get_save h.2)
  | case2 c lex htest => exact h
  | case3 c lex => exact h

lemma NoZeroGot.skipBlanks (h : NoZeroGot x) : NoZeroGot (skipBlanks x) := by
  fun_induction Lexer.skipBlanks x with
  | case1 c lex hblank ih => exact ih (noZero_stream_get h.2)
  | case2 c lex hblank => exact h
  | case3 c lex => exact h

lemma NoZeroGot.scanHex {i : ℕ} (h : NoZeroGot x) : NoZeroGot (scanHex i x).2 := by
  induction i generalizing x with
  | zero => exact h
  | succ i ih =>
    obtain ⟨c, lex⟩ := x
    rw [Lexer.scanHex]
    split
    · exact ih (noZero_lex_get_save h.2)
    · exact h

lemma NoZeroGot.scanChars (h : NoZeroGot x) : NoZero (scanChars x).2 := by
  fun_induction Lexer.scanChars x with
  | case1 lex => exact h.2
  | case2 lex => exact h.2.error_set _
  | case3 c lex hquote => exact h.2
  | case4 c lex hquote hcontrol => exact h.unget.error_set _
  | case5 c lex hquote hcontrol hslash x hu y hpass ih =>
    exact ih (noZero_lex_get_save (noZero_lex_get_save h.2).2).scanHex
  | case6 c lex hquote hcontrol hslash x hu y hpass =>
    have hy : NoZeroGot y.2 := (noZero_lex_get_save (noZero_lex_get_save h.2).2).scanHex
    exact hy.2.error_set _
  | case7 c lex hquote hcontrol hslash x hu hshort ih =>
    exact ih (noZero_lex_get_save (noZero_lex_get_save h.2).2)
  | case8 c lex hquote hcontrol hslash x hu hshort => exact (noZero_lex_get_save h.2).2.error_set _
  | case9 c lex hquote hcontrol hslash ih => exact ih (noZero_lex_get_save h.2)

/-- What a part of a number leaves, also if it ends in `goto out`. -/
def LeavesNoZero {α : Type} (P : α → Prop) : Except Lexer α → Prop
  | .ok y => P y
  | .error lex => NoZero lex

lemma LeavesNoZero.bind {α β : Type} {P : α → Prop} {Q : β → Prop} {y : Except Lexer α}
    {f : α → Except Lexer β} (hy : LeavesNoZero P y) (hf : ∀ a, P a → LeavesNoZero Q (f a)) :
    LeavesNoZero Q (y >>= f) := by
  rcases y with lex | a
  · exact hy
  · exact hf a hy

lemma NoZeroGot.digits (h : NoZeroGot x) :
    NoZeroGot (Lexer.saveWhile l_isdigit x.2.lex_get_save) :=
  (noZero_lex_get_save h.2).saveWhile

lemma NoZeroGot.get_if (h : NoZeroGot x) (test : Bool) :
    NoZeroGot (if test then x.2.lex_get_save else x) := by
  split
  · exact noZero_lex_get_save h.2
  · exact h

lemma NoZeroGot.scanInteger (h : NoZeroGot x) : LeavesNoZero NoZeroGot (scanInteger x) := by
  have hsign := h.get_if (x.1.is '-')
  rw [Lexer.scanInteger]
  simp only
  generalize (if x.1.is '-' then x.2.lex_get_save else x) = y at hsign
  split
  · have hnext := noZero_lex_get_save hsign.2
    split
    · exact hnext.unget
    · exact hnext
  · split
    · exact hsign.digits
    · exact hsign.unget

lemma NoZeroGot.scanFraction (h : NoZeroGot x) : LeavesNoZero NoZeroGot (scanFraction x) := by
  rw [Lexer.scanFraction]
  split
  · have hread := noZero_stream_get h.2
    split
    · rename_i c lex heq
      rw [heq] at hread
      have hc : c ≠ 0 := fun hc => hread.1 (congrArg Got.byte hc)
      split
      · exact (noZero_lex_get_save (hread.2.save hc)).saveWhile
      · refine ⟨?_, hread.2.saved_text, hread.2.token⟩
        rw [stream_unget, List.mem_cons, not_or]
        exact ⟨Ne.symm hc, hread.2.buffer⟩
    · rename_i c lex hbyte heq
      rw [heq] at hread
      cases c with
      | byte c => exact absurd rfl (hbyte c)
      | STREAM_STATE_EOF | STREAM_STATE_ERROR => exact hread.2
  · exact h

lemma NoZeroGot.scanExponent (h : NoZeroGot x) : LeavesNoZero NoZeroGot (scanExponent x) := by
  rw [Lexer.scanExponent]
  split
  · have hnext := noZero_lex_get_save h.2
    simp only
    generalize x.2.lex_get_save = y at hnext
    have hsign := hnext.get_if (y.1.is '+' || y.1.is '-')
    generalize (if y.1.is '+' || y.1.is '-' then y.2.lex_get_save else y) = z at hsign
    split
    · exact hsign.digits
    · exact hsign.unget
  · exact h

variable {jsonp_strtod : List UInt8 → Option UInt64}

lemma NoZeroGot.scanNumber (h : NoZeroGot x) :
    LeavesNoZero NoZero (scanNumber jsonp_strtod x) := by
  refine h.scanInteger.bind fun y hy => ?_
  have hunget := hy.unget
  simp only
  split
  · split
    · exact hunget.error_set _
    · rename_i hmin
      split
      · exact hunget.error_set _
      · rename_i hmax
        exact ⟨hunget.buffer, hunget.saved_text, Int.not_lt.mp hmin, Int.not_lt.mp hmax⟩
  · refine hy.scanFraction.bind fun z hz => hz.scanExponent.bind fun w hw => ?_
    have hunget' := hw.unget
    split
    · exact hunget'.error_set _
    · exact ⟨hunget'.buffer, hunget'.saved_text, trivial⟩

lemma NoZero.number (h : NoZero lex) {c : UInt8} (hc : c ≠ 0) :
    NoZero (lex.lex_scan_number jsonp_strtod (.byte c)) := by
  have hstart : NoZeroGot (.byte c, { lex with token := .TOKEN_INVALID }) :=
    ⟨by simpa using hc, h.buffer, h.saved_text, trivial⟩
  have hnumber : LeavesNoZero NoZero (scanNumber jsonp_strtod _) := hstart.scanNumber
  rw [lex_scan_number]
  split
  · rename_i heq
    rw [heq] at hnumber
    exact hnumber
  · rename_i heq
    rw [heq] at hnumber
    exact hnumber

end Lexer

/-! ## Strings -/

lemma ofNat_ne_zero {n : ℕ} (h : 0 < n) (hn : n < 256) : UInt8.ofNat n ≠ 0 := by
  intro hzero
  have hnat := congrArg UInt8.toNat hzero
  rw [toNat_ofNat_of_lt hn] at hnat
  exact absurd hnat (Nat.ne_of_gt h)

/-- The bytes of a character other than zero. -/
lemma zero_notMem_utf8_encode {n : ℕ} (h : n ≠ 0) : (0 : UInt8) ∉ utf8_encode n := by
  simp only [utf8_encode, and_0x7C0, and_0xF000, and_0x1C0000, and_0x3F]
  split
  · simpa using Ne.symm (ofNat_ne_zero (by omega) (by omega))
  split
  · simp only [List.mem_cons, List.not_mem_nil, or_false, not_or]
    exact ⟨Ne.symm (ofNat_ne_zero (by omega) (by omega)),
      Ne.symm (ofNat_ne_zero (by omega) (by omega))⟩
  split
  · simp only [List.mem_cons, List.not_mem_nil, or_false, not_or]
    exact ⟨Ne.symm (ofNat_ne_zero (by omega) (by omega)),
      Ne.symm (ofNat_ne_zero (by omega) (by omega)), Ne.symm (ofNat_ne_zero (by omega) (by omega))⟩
  · simp only [List.mem_cons, List.not_mem_nil, or_false, not_or]
    exact ⟨Ne.symm (ofNat_ne_zero (by omega) (by omega)),
      Ne.symm (ofNat_ne_zero (by omega) (by omega)), Ne.symm (ofNat_ne_zero (by omega) (by omega)),
      Ne.symm (ofNat_ne_zero (by omega) (by omega))⟩

lemma shortEscape_ne_zero {e x : UInt8} (h : shortEscape e = some x) : x ≠ 0 := by
  simp only [shortEscape] at h
  split at h
  · rename_i he
    obtain rfl := Option.some.inj h
    rcases he with rfl | rfl | rfl <;> decide
  split at h
  · obtain rfl := Option.some.inj h
    decide
  split at h
  · obtain rfl := Option.some.inj h
    decide
  split at h
  · obtain rfl := Option.some.inj h
    decide
  split at h
  · obtain rfl := Option.some.inj h
    decide
  split at h
  · obtain rfl := Option.some.inj h
    decide
  · exact absurd h (by simp)

/-- No escape makes a zero. -/
lemma zero_notMem_unescape {t p value : List UInt8} (ht : (0 : UInt8) ∉ t) (hp : (0 : UInt8) ∉ p)
    (h : unescape t p = .ok (.ok value)) : (0 : UInt8) ∉ value := by
  fun_induction unescape t p with
  | case1 => exact absurd h (by simp)
  | case2 t us =>
    obtain rfl := Except.ok.inj (Except.ok.inj h)
    exact ht
  | case3 t u us hquote hslash ih =>
    rw [List.mem_cons, not_or] at hp
    exact ih (List.not_mem_append ht (by simpa using hp.1)) hp.2 h
  | case4 => exact absurd h (by simp)
  | case5 t u hquote hslash us ih₂ ih₁ =>
    simp only [List.mem_cons, not_or] at hp
    have hdrop : ∀ k, (0 : UInt8) ∉ us.drop k := fun k hmem => hp.2.2 (List.mem_of_mem_drop hmem)
    rcases hdecode : decode_unicode_escape us with e | n
    · rw [hdecode] at h
      exact absurd h (by simp [bind, Except.bind])
    simp only [hdecode, bind, Except.bind] at h
    split at h
    · split at h
      · rcases hdecode₂ : decode_unicode_escape ((us.drop 4).drop 2) with e | n₂
        · rw [hdecode₂] at h
          exact absurd h (by simp)
        simp only [hdecode₂] at h
        split at h
        · refine ih₂ n n₂ (List.not_mem_append ht (zero_notMem_utf8_encode (by omega))) ?_ h
          rw [List.drop_drop]
          exact hdrop _
        · exact absurd (Except.ok.inj h) (by simp)
      · exact absurd (Except.ok.inj h) (by simp)
    · split at h
      · exact absurd (Except.ok.inj h) (by simp)
      · split at h
        · exact absurd (Except.ok.inj h) (by simp)
        · rename_i hzero
          exact ih₁ n (List.not_mem_append ht (zero_notMem_utf8_encode hzero)) (hdrop 4) h
  | case6 t u hquote hslash e us hu x hshort ih =>
    simp only [List.mem_cons, not_or] at hp
    exact ih (List.not_mem_append ht (by simpa using Ne.symm (shortEscape_ne_zero hshort)))
      hp.2.2 h
  | case7 => exact absurd h (by simp)

/-- A text of bytes that are no zeros has no zero. -/
lemma zeroFree_toText {bytes : List UInt8} (h : (0 : UInt8) ∉ bytes) :
    ZeroFree (toText bytes) := by
  rw [toText, String.fromUTF8?]
  split
  swap
  · simp [ZeroFree]
  rename_i hvalid
  obtain ⟨s, hs⟩ : ∃ s : String, s = .fromUTF8 ⟨bytes.toArray⟩ hvalid := ⟨_, rfl⟩
  have hbytes : utf8Bytes s.toList = bytes := by
    have hdata : s.toByteArray.data = bytes.toArray := congrArg (·.toByteArray.data) hs
    rw [← String.ofList_toList (s := s), String.toByteArray_ofList, List.utf8Encode,
      List.data_toByteArray] at hdata
    exact Array.toList_inj.mpr hdata
  rw [Option.getD_some, ← hs]
  intro hzero
  refine h (hbytes ▸ List.mem_flatMap.mpr ⟨'\x00', hzero, ?_⟩)
  decide

namespace Lexer

variable {jsonp_strtod : List UInt8 → Option UInt64} {lex lex' : Lexer} {x : Got × Lexer}

lemma NoZero.string (h : NoZero lex) (hscan : lex.lex_scan_string = .ok lex') : NoZero lex' := by
  have hstart : NoZero { lex with token := .TOKEN_INVALID } := ⟨h.buffer, h.saved_text, trivial⟩
  have hchars := (noZero_lex_get_save hstart).scanChars
  rw [lex_scan_string] at hscan
  split at hscan
  · rename_i lex₁ heq
    rw [heq] at hchars
    exact Except.ok.inj hscan ▸ hchars
  · rename_i lex₁ heq
    rw [heq] at hchars
    rcases hunescape : unescape [] (lex₁.saved_text.drop 1) with e | (msg | value)
    · rw [hunescape] at hscan
      exact absurd hscan (by simp [bind, Except.bind])
    · rw [hunescape] at hscan
      obtain rfl := Except.ok.inj hscan
      exact hchars.error_set _
    · rw [hunescape] at hscan
      obtain rfl := Except.ok.inj hscan
      refine ⟨hchars.buffer, hchars.saved_text, zeroFree_toText ?_⟩
      exact zero_notMem_unescape (by simp)
        (fun hmem => hchars.saved_text (List.mem_of_mem_drop hmem)) hunescape

lemma valid_wordToken (saved_text : List UInt8) : (wordToken saved_text).Valid := by
  rw [wordToken]
  split
  · trivial
  split
  · trivial
  split
  · trivial
  · trivial

lemma NoZeroGot.scanToken (h : NoZeroGot x) (hscan : scanToken jsonp_strtod x = .ok lex') :
    NoZero lex' := by
  obtain ⟨c, lex⟩ := x
  cases c with
  | STREAM_STATE_EOF | STREAM_STATE_ERROR =>
    obtain rfl := Except.ok.inj hscan
    exact ⟨h.2.buffer, h.2.saved_text, trivial⟩
  | byte b =>
    have hb : b ≠ 0 := fun hb => h.1 (congrArg Got.byte hb)
    have hsave := h.2.save hb
    simp only [Lexer.scanToken] at hscan
    split at hscan
    · obtain rfl := Except.ok.inj hscan
      exact ⟨hsave.buffer, hsave.saved_text, trivial⟩
    · split at hscan
      · exact hsave.string hscan
      · split at hscan
        · obtain rfl := Except.ok.inj hscan
          exact hsave.number hb
        · split at hscan
          · obtain rfl := Except.ok.inj hscan
            have hword : NoZeroGot (Lexer.saveWhile l_isalpha (lex.lex_save b).lex_get_save) :=
              (noZero_lex_get_save hsave).saveWhile
            have hunget := hword.unget
            exact ⟨hunget.buffer, hunget.saved_text, valid_wordToken _⟩
          · obtain rfl := Except.ok.inj hscan
            exact ⟨by simp [lex_save_cached], List.not_mem_append hsave.saved_text hsave.buffer,
              trivial⟩

/-- What `lex_scan` makes of a token is a value that jansson can keep. -/
lemma noZero_lex_scan (h : NoZero lex) (hscan : lex_scan jsonp_strtod lex = .ok lex') :
    NoZero lex' := by
  have hbegin : NoZero { lex with saved_text := [] } := ⟨h.buffer, by simp, h.token⟩
  exact (noZero_stream_get hbegin).skipBlanks.scanToken hscan

end Lexer

/-! ## Values -/

namespace Json

variable {key : String} {value : Json} {items : List Json} {fields : List (String × Json)}

lemma ValidItems.append (h : ValidItems items) (hvalue : value.Valid) :
    ValidItems (items ++ [value]) := by
  induction items with
  | nil => simpa [ValidItems] using hvalue
  | cons v items ih =>
    rw [ValidItems] at h
    rw [List.cons_append, ValidItems]
    exact ⟨h.1, ih h.2⟩

lemma ValidFields.setField (h : ValidFields fields) (hkey : ZeroFree key)
    (hvalue : value.Valid) : ValidFields (setField key value fields) := by
  induction fields with
  | nil =>
    rw [Json.setField, ValidFields]
    exact ⟨⟨hkey, hvalue⟩, h⟩
  | cons f fields ih =>
    obtain ⟨k, v⟩ := f
    rw [ValidFields] at h
    rw [Json.setField]
    split
    · rw [ValidFields]
      exact ⟨⟨hkey, hvalue⟩, h.2⟩
    · rw [ValidFields]
      exact ⟨h.1, ih h.2⟩

end Json

section Parser

open Lexer

variable {jsonp_strtod : List UInt8 → Option UInt64} {flags fuel : ℕ}

/-- What a function of the parser returns. -/
def ReturnsValid (x : Parse (Json × Lexer)) : Prop :=
  Traced.Ensures x fun r => r.1.Valid ∧ NoZero r.2

lemma ensures_lex_scan {lex : Lexer} (h : NoZero lex) :
    Traced.Ensures (liftM (lex_scan jsonp_strtod lex) : Parse Lexer) NoZero :=
  Traced.Ensures.lift fun _ hscan => noZero_lex_scan h hscan

lemma ensures_reject {α : Type} {P : α → Prop} (lex : Lexer) (msg : String) :
    Traced.Ensures (lex.reject msg : Parse α) P :=
  Traced.Ensures.error

section Steps

variable (hvalue : ∀ lex, NoZero lex → ReturnsValid (parse_value jsonp_strtod flags fuel lex))

lemma returnsValid_parse_value
    (hobject : ∀ lex, NoZero lex → ReturnsValid (parse_object jsonp_strtod flags fuel lex))
    (harray : ∀ lex, NoZero lex → ReturnsValid (parse_array jsonp_strtod flags fuel lex))
    {lex : Lexer} (h : NoZero lex) :
    ReturnsValid (parse_value jsonp_strtod flags (fuel + 1) lex) := by
  have htoken := h.token
  rw [parse_value]
  split
  · rename_i value heq
    rw [heq] at htoken
    exact .pure ⟨by rwa [Json.Valid], h⟩
  · rename_i value heq
    rw [heq] at htoken
    exact .pure ⟨by rwa [Json.Valid], h⟩
  · rename_i bits heq
    split
    · rename_i json hjson
      refine .pure ⟨?_, h⟩
      have hbits : json_real bits ≠ none := by simp [hjson]
      rw [json_real] at hjson
      split at hjson
      · exact absurd hjson (by simp)
      · obtain rfl := Option.some.inj hjson
        rwa [Json.Valid]
    · exact .error
  · exact .pure ⟨by simp [Json.Valid], h⟩
  · exact .pure ⟨by simp [Json.Valid], h⟩
  · exact .pure ⟨by simp [Json.Valid], h⟩
  · split
    · exact hobject lex h
    · split
      · exact harray lex h
      · exact ensures_reject _ _
  · exact ensures_reject _ _
  · exact ensures_reject _ _

lemma returnsValid_parse_object
    (hpairs : ∀ fields lex, (fields.map Prod.fst).Nodup → Json.ValidFields fields → NoZero lex →
      ReturnsValid (parse_pairs jsonp_strtod flags fuel fields lex))
    {lex : Lexer} (h : NoZero lex) :
    ReturnsValid (parse_object jsonp_strtod flags (fuel + 1) lex) := by
  rw [parse_object]
  refine (ensures_lex_scan h).bind fun lex₁ h₁ => ?_
  split
  · exact .pure ⟨by simp [Json.Valid, Json.ValidFields], h₁⟩
  · exact hpairs [] lex₁ (by simp) (by simp [Json.ValidFields]) h₁

lemma returnsValid_parse_array
    (helements : ∀ items lex, Json.ValidItems items → NoZero lex →
      ReturnsValid (parse_elements jsonp_strtod flags fuel items lex))
    {lex : Lexer} (h : NoZero lex) :
    ReturnsValid (parse_array jsonp_strtod flags (fuel + 1) lex) := by
  rw [parse_array]
  refine (ensures_lex_scan h).bind fun lex₁ h₁ => ?_
  split
  · exact .pure ⟨by simp [Json.Valid, Json.ValidItems], h₁⟩
  · exact helements [] lex₁ (by simp [Json.ValidItems]) h₁

include hvalue

lemma returnsValid_parse_pairs
    (hpairs : ∀ fields lex, (fields.map Prod.fst).Nodup → Json.ValidFields fields → NoZero lex →
      ReturnsValid (parse_pairs jsonp_strtod flags fuel fields lex))
    {fields : List (String × Json)} {lex : Lexer} (hnodup : (fields.map Prod.fst).Nodup)
    (hfields : Json.ValidFields fields) (h : NoZero lex) :
    ReturnsValid (parse_pairs jsonp_strtod flags (fuel + 1) fields lex) := by
  have htoken := h.token
  rw [parse_pairs]
  split
  swap
  · exact ensures_reject _ _
  rename_i key heq
  rw [heq] at htoken
  refine Traced.Ensures.bind_of_forall fun _ => ?_
  split
  · exact ensures_reject _ _
  refine (ensures_lex_scan h).bind fun lex₁ h₁ => ?_
  split
  · exact ensures_reject _ _
  refine (ensures_lex_scan h₁).bind fun lex₂ h₂ => ?_
  refine (hvalue lex₂ h₂).bind ?_
  rintro ⟨value, lex₃⟩ ⟨hv, h₃⟩
  have hnodup' : ((Json.setField key value fields).map Prod.fst).Nodup :=
    Json.nodup_setField hnodup
  have hfields' := hfields.setField htoken hv
  refine (ensures_lex_scan h₃).bind fun lex₄ h₄ => ?_
  split
  · exact (ensures_lex_scan h₄).bind fun lex₅ h₅ => hpairs _ lex₅ hnodup' hfields' h₅
  · split
    · refine .pure ⟨?_, h₄⟩
      rw [Json.Valid]
      exact ⟨hnodup', hfields'⟩
    · exact ensures_reject _ _

lemma returnsValid_parse_elements
    (helements : ∀ items lex, Json.ValidItems items → NoZero lex →
      ReturnsValid (parse_elements jsonp_strtod flags fuel items lex))
    {items : List Json} {lex : Lexer} (hitems : Json.ValidItems items) (h : NoZero lex) :
    ReturnsValid (parse_elements jsonp_strtod flags (fuel + 1) items lex) := by
  rw [parse_elements]
  split
  · exact ensures_reject _ _
  refine (hvalue lex h).bind ?_
  rintro ⟨elem, lex₁⟩ ⟨hv, h₁⟩
  have hitems' := hitems.append hv
  refine (ensures_lex_scan h₁).bind fun lex₂ h₂ => ?_
  split
  · exact (ensures_lex_scan h₂).bind fun lex₃ h₃ => helements _ lex₃ hitems' h₃
  · split
    · exact .pure ⟨by rwa [Json.Valid], h₂⟩
    · exact ensures_reject _ _

end Steps

lemma parse_valid (jsonp_strtod : List UInt8 → Option UInt64) (flags fuel : ℕ) :
    (∀ lex, NoZero lex → ReturnsValid (parse_value jsonp_strtod flags fuel lex)) ∧
    (∀ lex, NoZero lex → ReturnsValid (parse_object jsonp_strtod flags fuel lex)) ∧
    (∀ fields lex, (fields.map Prod.fst).Nodup → Json.ValidFields fields → NoZero lex →
      ReturnsValid (parse_pairs jsonp_strtod flags fuel fields lex)) ∧
    (∀ lex, NoZero lex → ReturnsValid (parse_array jsonp_strtod flags fuel lex)) ∧
    ∀ items lex, Json.ValidItems items → NoZero lex →
      ReturnsValid (parse_elements jsonp_strtod flags fuel items lex) := by
  induction fuel with
  | zero =>
    refine ⟨fun lex _ => ?_, fun lex _ => ?_, fun fields lex _ _ _ => ?_, fun lex _ => ?_,
      fun items lex _ _ => ?_⟩
    · rw [parse_value]
      exact .error
    · rw [parse_object]
      exact .error
    · rw [parse_pairs]
      exact .error
    · rw [parse_array]
      exact .error
    · rw [parse_elements]
      exact .error
  | succ fuel ih =>
    obtain ⟨hvalue, hobject, hpairs, harray, helements⟩ := ih
    exact ⟨fun lex h => returnsValid_parse_value hobject harray h,
      fun lex h => returnsValid_parse_object hpairs h,
      fun fields lex hnodup hfields h =>
        returnsValid_parse_pairs hvalue hpairs hnodup hfields h,
      fun lex h => returnsValid_parse_array helements h,
      fun items lex hitems h => returnsValid_parse_elements hvalue helements hitems h⟩

/-- **What `json_loads` returns is well-formed**, whatever text it is given. -/
theorem valid_of_json_loads {text : List UInt8} {v : Json}
    (h : json_loads jsonp_strtod text flags = .ok v) : v.Valid := by
  have hinit : NoZero (lex_init text) := ⟨by simp [lex_init], by simp [lex_init], trivial⟩
  have hvalid : Traced.Ensures (parse_json jsonp_strtod flags (3 * text.length + 1) (lex_init text))
      Json.Valid := by
    rw [parse_json]
    refine (ensures_lex_scan hinit).bind fun lex h => ?_
    split
    · exact ensures_reject _ _
    refine ((parse_valid jsonp_strtod flags _).1 lex h).bind ?_
    rintro ⟨result, lex₁⟩ ⟨hv, h₁⟩
    simp only
    split
    · exact .pure hv
    · refine (ensures_lex_scan h₁).bind fun lex₂ _ => ?_
      split
      · exact ensures_reject _ _
      · exact .pure hv
  exact hvalid v h

/-- A key that is there twice, and an escape. -/
def repeatedText : List UInt8 :=
  ascii "\x7b\x22a\x22:[1], \x22a\x22:\x22\\u00e9\x22\x7d"

theorem valid_of_json_loads_repeated :
    ∃ v, json_loads (fun _ => none) repeatedText 0 = .ok v ∧ v.Valid := by
  have hok : (json_loads (fun _ => none) repeatedText 0).toBool = true := by decide +kernel
  rcases h : json_loads (fun _ => none) repeatedText 0 with e | v
  · rw [h] at hok
    exact absurd hok (by simp [Except.toBool])
  · exact ⟨v, rfl, valid_of_json_loads h⟩

end Parser

end Headcrab
