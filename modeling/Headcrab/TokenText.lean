/-
# The text of a token

What the lexer has saved of a token is a piece of the text that it reads, and what is left to
read follows it there: `lex_scan` may skip blanks in front of a token, and takes a character
back that does not belong to it, but saves no other characters than those of the text
(`at_lex_scan`).
-/
import Headcrab.Lexer

namespace Headcrab

namespace Lexer

/-! ## Characters -/

/-- What is saved of a token is followed in the text by what is left to read. -/
def At (p : List UInt8) (lex : Lexer) : Prop :=
  ∃ done, p = done ++ (lex.saved_text ++ (lex.buffer ++ lex.data))

/-- The same, with the character that has just been read in between. -/
def Next (p : List UInt8) : Got × Lexer → Prop
  | (.byte c, lex) => ∃ done, p = done ++ (lex.saved_text ++ c :: (lex.buffer ++ lex.data))
  | (_, lex) => At p lex

/-- The same, with the character that has just been read saved. -/
def Took (p : List UInt8) : Got × Lexer → Prop
  | (.byte c, lex) => At p lex ∧ ∃ s, lex.saved_text = s ++ [c]
  | (_, lex) => At p lex

variable {p : List UInt8} {lex : Lexer} {x : Got × Lexer}

lemma Took.at (h : Took p x) : At p x.2 := by
  obtain ⟨c, lex⟩ := x
  cases c with
  | byte c => exact h.1
  | STREAM_STATE_EOF | STREAM_STATE_ERROR => exact h

lemma At.error_set (h : At p lex) (msg : List UInt8) : At p (lex.error_set msg) := by
  obtain ⟨text, heq⟩ := error_set_frame lex msg
  rw [heq]
  exact h

/-- A token is begun behind what has been read. -/
lemma At.begin (h : At p lex) : At p { lex with saved_text := [] } := by
  obtain ⟨done, rfl⟩ := h
  exact ⟨done ++ lex.saved_text, by simp⟩

lemma next_stream_get (h : At p lex) : Next p lex.stream_get := by
  obtain ⟨done, hp⟩ := h
  rw [stream_get]
  split
  · exact ⟨done, hp⟩
  · exact ⟨done, hp⟩
  · split
    · rename_i c buffer hbuffer
      exact ⟨done, by rw [hp, hbuffer]; rfl⟩
    · rename_i hbuffer
      split
      · exact ⟨done, hp⟩
      · rename_i c data hget
        have hdata := data_of_string_get hget
        split
        · exact ⟨done, by rw [hp, hdata, hbuffer]; rfl⟩
        · rcases hgets : string_gets (utf8_check_first c - 1) data with ⟨cs, rest⟩
          simp only [hgets]
          split
          · rename_i hfull
            rw [Bool.and_eq_true] at hfull
            have hrest := data_of_string_gets hgets (utf8_check_full_tail hfull.2)
            exact ⟨done, by rw [hp, hdata, hrest, hbuffer]; rfl⟩
          · have hfailed : At p { lex with state := .STREAM_STATE_ERROR } := ⟨done, hp⟩
            exact hfailed.error_set _

lemma took_lex_get_save (h : At p lex) : Took p lex.lex_get_save := by
  have hget := next_stream_get h
  rw [lex_get_save]
  split
  · rename_i c lex₁ heq
    rw [heq] at hget
    obtain ⟨done, hp⟩ := hget
    exact ⟨⟨done, by rw [hp, lex_save]; simp⟩, lex₁.saved_text, rfl⟩
  · rename_i c lex₁ hc heq
    rw [heq] at hget
    cases c with
    | byte c => exact absurd rfl (hc c)
    | STREAM_STATE_EOF | STREAM_STATE_ERROR => exact hget

/-- A character is taken back. -/
lemma Took.unget (h : Took p x) : At p (x.2.lex_unget_unsave x.1) := by
  obtain ⟨c, lex⟩ := x
  cases c with
  | byte c =>
    obtain ⟨⟨done, hp⟩, s, hs⟩ := h
    refine ⟨done, ?_⟩
    show p = done ++ (lex.saved_text.dropLast ++ (c :: lex.buffer ++ lex.data))
    rw [hp, hs, List.dropLast_concat]
    simp
  | STREAM_STATE_EOF | STREAM_STATE_ERROR => exact h

lemma Took.saveWhile {test : ℤ → Bool} (h : Took p x) : Took p (saveWhile test x) := by
  fun_induction Lexer.saveWhile test x with
  | case1 c lex htest ih => exact ih (took_lex_get_save h.at)
  | case2 c lex htest => exact h
  | case3 c lex => exact h

/-- A blank in front of a token is not saved. -/
lemma Next.skipBlanks (h : Next p x) (hsaved : x.2.saved_text = []) : Next p (skipBlanks x) := by
  fun_induction Lexer.skipBlanks x with
  | case1 c lex hblank ih =>
    obtain ⟨done, hp⟩ := h
    refine ih (next_stream_get ⟨done ++ [c], ?_⟩) ?_
    · rw [hp, show lex.saved_text = [] from hsaved]
      simp
    · rw [saved_text_stream_get]
      exact hsaved
  | case2 c lex hblank => exact h
  | case3 c lex => exact h

lemma Took.scanHex {i : ℕ} (h : Took p x) : Took p (scanHex i x).2 := by
  induction i generalizing x with
  | zero => exact h
  | succ i ih =>
    obtain ⟨c, lex⟩ := x
    rw [Lexer.scanHex]
    split
    · exact ih (took_lex_get_save h.at)
    · exact h

lemma Took.scanChars (h : Took p x) : At p (scanChars x).2 := by
  fun_induction Lexer.scanChars x with
  | case1 lex => exact h.at
  | case2 lex => exact h.at.error_set _
  | case3 c lex hquote => exact h.at
  | case4 c lex hquote hcontrol => exact h.unget.error_set _
  | case5 c lex hquote hcontrol hslash x hu y hpass ih =>
    exact ih (took_lex_get_save (took_lex_get_save h.at).at).scanHex
  | case6 c lex hquote hcontrol hslash x hu y hpass =>
    have hy : Took p y.2 := (took_lex_get_save (took_lex_get_save h.at).at).scanHex
    exact hy.at.error_set _
  | case7 c lex hquote hcontrol hslash x hu hshort ih =>
    exact ih (took_lex_get_save (took_lex_get_save h.at).at)
  | case8 c lex hquote hcontrol hslash x hu hshort =>
    exact (took_lex_get_save h.at).at.error_set _
  | case9 c lex hquote hcontrol hslash ih => exact ih (took_lex_get_save h.at)

/-! ## Tokens -/

/-- What a part of a number leaves, also if it ends in `goto out`. -/
def Keeps {α : Type} (P : α → Prop) (p : List UInt8) : Except Lexer α → Prop
  | .ok y => P y
  | .error lex => At p lex

lemma Keeps.bind {α β : Type} {P : α → Prop} {Q : β → Prop} {y : Except Lexer α}
    {f : α → Except Lexer β} (hy : Keeps P p y) (hf : ∀ a, P a → Keeps Q p (f a)) :
    Keeps Q p (y >>= f) := by
  rcases y with lex | a
  · exact hy
  · exact hf a hy

lemma took_digits (h : Took p x) : Took p (saveWhile l_isdigit x.2.lex_get_save) :=
  (took_lex_get_save h.at).saveWhile

lemma took_if (test : Bool) (h : Took p x) : Took p (if test then x.2.lex_get_save else x) := by
  split
  · exact took_lex_get_save h.at
  · exact h

lemma scanInteger_keeps (h : Took p x) : Keeps (Took p) p (scanInteger x) := by
  have hsign := took_if (x.1.is '-') h
  rw [scanInteger]
  simp only
  generalize (if x.1.is '-' then x.2.lex_get_save else x) = y at hsign
  split
  · have hnext := took_lex_get_save hsign.at
    split
    · exact hnext.unget
    · exact hnext
  · split
    · exact took_digits hsign
    · exact hsign.unget

lemma scanFraction_keeps (h : Took p x) : Keeps (Took p) p (scanFraction x) := by
  rw [scanFraction]
  split
  · have hread := next_stream_get h.at
    split
    · rename_i c lex heq
      rw [heq] at hread
      obtain ⟨done, hp⟩ := hread
      split
      · have hsaved : At p (lex.lex_save c) := ⟨done, by rw [hp, lex_save]; simp⟩
        exact (took_lex_get_save hsaved).saveWhile
      · exact ⟨done, hp⟩
    · rename_i c lex hbyte heq
      rw [heq] at hread
      cases c with
      | byte c => exact absurd rfl (hbyte c)
      | STREAM_STATE_EOF | STREAM_STATE_ERROR => exact hread
  · exact h

lemma scanExponent_keeps (h : Took p x) : Keeps (Took p) p (scanExponent x) := by
  rw [scanExponent]
  split
  · have hnext := took_lex_get_save h.at
    simp only
    generalize x.2.lex_get_save = y at hnext
    have hsign := took_if (y.1.is '+' || y.1.is '-') hnext
    generalize (if y.1.is '+' || y.1.is '-' then y.2.lex_get_save else y) = z at hsign
    split
    · exact took_digits hsign
    · exact hsign.unget
  · exact h

lemma scanNumber_keeps (jsonp_strtod : List UInt8 → Option UInt64) (h : Took p x) :
    Keeps (At p) p (scanNumber jsonp_strtod x) := by
  refine (scanInteger_keeps h).bind fun y hy => ?_
  simp only
  split
  · split
    · exact hy.unget.error_set _
    · split
      · exact hy.unget.error_set _
      · exact hy.unget
  · refine (scanFraction_keeps hy).bind fun z hz => (scanExponent_keeps hz).bind fun w hw => ?_
    split
    · exact hw.unget.error_set _
    · exact hw.unget

variable {jsonp_strtod : List UInt8 → Option UInt64} {lex' : Lexer}

lemma at_lex_scan_number {c : UInt8} (h : At p lex) (hsaved : lex.saved_text = [c]) :
    At p (lex.lex_scan_number jsonp_strtod (.byte c)) := by
  have htook : Took p (.byte c, { lex with token := .TOKEN_INVALID }) := ⟨h, [], hsaved⟩
  have hkeeps := scanNumber_keeps jsonp_strtod htook
  rw [lex_scan_number]
  split
  · rename_i heq
    rw [heq] at hkeeps
    exact hkeeps
  · rename_i heq
    rw [heq] at hkeeps
    exact hkeeps

lemma at_lex_scan_string (h : At p lex) (hscan : lex.lex_scan_string = .ok lex') : At p lex' := by
  have hstart : At p { lex with token := .TOKEN_INVALID } := h
  have hchars := (took_lex_get_save hstart).scanChars
  rw [lex_scan_string] at hscan
  split at hscan
  · rename_i lex₁ heq
    rw [heq] at hchars
    exact Except.ok.inj hscan ▸ hchars
  · rename_i lex₁ heq
    rw [heq] at hchars
    rcases hunescape : unescape [] (lex₁.saved_text.drop 1) with e | (msg | value)
    · rw [hunescape] at hscan
      exact absurd hscan (by simp [bind, Except.bind])
    · rw [hunescape] at hscan
      obtain rfl := Except.ok.inj hscan
      exact hchars.error_set _
    · rw [hunescape] at hscan
      obtain rfl := Except.ok.inj hscan
      exact hchars

/-- The token that is read next. -/
lemma at_scanToken (h : Next p x) (hsaved : x.2.saved_text = [])
    (hscan : scanToken jsonp_strtod x = .ok lex') : At p lex' := by
  obtain ⟨c, lex⟩ := x
  cases c with
  | STREAM_STATE_EOF | STREAM_STATE_ERROR =>
    obtain rfl := Except.ok.inj hscan
    exact h
  | byte b =>
    obtain ⟨done, hp⟩ := h
    have hone : (lex.lex_save b).saved_text = [b] := by
      rw [lex_save, show lex.saved_text = [] from hsaved]
      rfl
    have hsave : At p (lex.lex_save b) := ⟨done, by rw [hp, lex_save]; simp⟩
    simp only [scanToken] at hscan
    split at hscan
    · obtain rfl := Except.ok.inj hscan
      exact hsave
    · split at hscan
      · exact at_lex_scan_string hsave hscan
      · split at hscan
        · obtain rfl := Except.ok.inj hscan
          exact at_lex_scan_number hsave hone
        · split at hscan
          · obtain rfl := Except.ok.inj hscan
            have hword : Took p (saveWhile l_isalpha (lex.lex_save b).lex_get_save) :=
              (took_lex_get_save hsave).saveWhile
            exact hword.unget
          · obtain rfl := Except.ok.inj hscan
            obtain ⟨done', hp'⟩ := hsave
            exact ⟨done', by rw [hp']; simp [lex_save_cached]⟩

/-- **A token is a piece of the text**, and what is left to read follows it. -/
theorem at_lex_scan (h : At p lex) (hscan : lex_scan jsonp_strtod lex = .ok lex') : At p lex' := by
  have hbegin := next_stream_get h.begin
  have hsaved := saved_text_stream_get { lex with saved_text := [] }
  exact at_scanToken (hbegin.skipBlanks hsaved) ((saved_text_skipBlanks _).trans hsaved) hscan

end Lexer

end Headcrab
