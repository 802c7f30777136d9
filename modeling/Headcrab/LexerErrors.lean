/-
# What the errors of the lexer show

`error_set` puts a short token into the text of an error as it stands.  The lexer sets an error
while a token is read: then the text has a `%` exactly if the saved token is short and has one,
as no message has one (`quoted_error_set`).  After a token that is not invalid there is no error
with a `%` in its text: the only error behind which the lexer goes on is that of a stream that
has failed in a number or a word (`fine_lex_scan`).
-/
import Headcrab.Lexer
import Headcrab.Lib.Printf

namespace Headcrab

open Lexer
open Printf (percent)

/-! ## Messages -/

/-- No digit is a `%`, in small or in capital letters. -/
lemma digitChar_ne_percent (n : ℕ) :
    n.digitChar.toUInt8 ≠ percent ∧ n.digitChar.toUpper.toUInt8 ≠ percent := by
  by_cases hn : n < 16
  · revert n
    decide
  · have hstar : n.digitChar = '*' := by
      unfold Nat.digitChar
      repeat rw [if_neg (by omega)]
    rw [hstar]
    decide

lemma mem_toDigitsCore {b fuel n : ℕ} {ds : List Char} {c : Char}
    (h : c ∈ Nat.toDigitsCore b fuel n ds) : (∃ k, c = Nat.digitChar k) ∨ c ∈ ds := by
  induction fuel generalizing n ds with
  | zero => exact Or.inr h
  | succ fuel ih =>
    rw [Nat.toDigitsCore] at h
    split at h
    · rcases List.mem_cons.mp h with h | h
      · exact Or.inl ⟨_, h⟩
      · exact Or.inr h
    · rcases ih h with h | h
      · exact Or.inl h
      · rcases List.mem_cons.mp h with h | h
        · exact Or.inl ⟨_, h⟩
        · exact Or.inr h

lemma exists_of_mem_toDigits {b n : ℕ} {c : Char} (h : c ∈ Nat.toDigits b n) :
    ∃ k, c = Nat.digitChar k :=
  (mem_toDigitsCore h).resolve_right List.not_mem_nil

lemma percent_notMem_hex (n : ℕ) : percent ∉ hex n := by
  intro h
  obtain ⟨c, hc, hpercent⟩ := List.mem_map.mp h
  obtain ⟨k, rfl⟩ := exists_of_mem_toDigits hc
  exact (digitChar_ne_percent k).1 hpercent

lemma percent_notMem_hex04 (n : ℕ) : percent ∉ hex04 n := by
  intro h
  obtain ⟨c, hc, hpercent⟩ := List.mem_map.mp h
  rcases List.mem_append.mp hc with hc | hc
  · obtain rfl := List.eq_of_mem_replicate hc
    exact absurd hpercent (by decide)
  · obtain ⟨k, rfl⟩ := exists_of_mem_toDigits hc
    exact (digitChar_ne_percent k).2 hpercent

/-- A value that is returned has the property. -/
def Yields {α : Type} (P : α → Prop) (x : Except LoadError α) : Prop := ∀ a, x = .ok a → P a

lemma Yields.ok {α : Type} {P : α → Prop} {a : α} (h : P a) : Yields P (.ok a) := by
  rintro b ⟨⟩
  exact h

lemma Yields.error {α : Type} {P : α → Prop} (e : LoadError) : Yields P (.error e) := by
  rintro a ⟨⟩

lemma Yields.bind {α β : Type} {P : β → Prop} {x : Except LoadError α}
    {f : α → Except LoadError β} (hf : ∀ a, Yields P (f a)) : Yields P (x >>= f) := by
  rcases x with e | a
  · exact .error e
  · exact hf a

/-- No message of `unescape` has a `%`. -/
lemma unescape_message (t p : List UInt8) :
    Yields (fun r => ∀ msg, r = .error msg → percent ∉ msg) (unescape t p) := by
  have hmessage : ∀ msg, percent ∉ msg → Yields
      (fun r : Except (List UInt8) (List UInt8) => ∀ msg, r = .error msg → percent ∉ msg)
      (.ok (.error msg)) := by
    intro msg hmsg
    refine .ok ?_
    rintro msg' ⟨⟩
    exact hmsg
  have hshown : ∀ n, percent ∉ ascii "invalid Unicode '\\u" ++ hex04 n := fun n =>
    List.not_mem_append (by decide) (percent_notMem_hex04 n)
  have hquote : percent ∉ ascii "'" := by decide
  fun_induction unescape t p with
  | case1 | case4 | case7 => exact .error _
  | case2 t us => exact .ok fun msg h => absurd h (by simp)
  | case3 t u us hne hslash ih => exact ih
  | case5 t u hne hslash us ih₂ ih₁ =>
    refine .bind fun value => ?_
    simp only
    split
    · split
      · refine .bind fun value2 => ?_
        split
        · exact ih₂ value value2
        · have hfirst := List.not_mem_append (hshown value) (by decide : percent ∉ ascii "\\u")
          exact hmessage _ (List.not_mem_append
            (List.not_mem_append hfirst (percent_notMem_hex04 value2)) hquote)
      · exact hmessage _ (List.not_mem_append (hshown _) hquote)
    · split
      · exact hmessage _ (List.not_mem_append (hshown _) hquote)
      · split
        · exact hmessage _ (by decide)
        · exact ih₁ value
  | case6 t u hne hslash e us hu x hshort ih => exact ih

/-! ## What the lexer says -/

/-- A short token with a `%`, which an error would show. -/
def Harmful (token : List UInt8) : Prop := token.length ≤ 20 ∧ percent ∈ token

instance (token : List UInt8) : Decidable (Harmful token) := inferInstanceAs (Decidable (_ ∧ _))

namespace Lexer

/-- The text of the error has a `%` exactly if the saved token is short and has one. -/
def Quoted (lex : Lexer) : Prop := percent ∈ lex.text ↔ Harmful lex.saved_text

/-- No error is set, or it is one that shows the saved token. -/
def Sound (lex : Lexer) : Prop := lex.text = [] ∨ Quoted lex

/-- No error is set, or the stream has failed, and the error shows the saved token. -/
def Live (lex : Lexer) : Prop := lex.text = [] ∨ lex.state = .STREAM_STATE_ERROR ∧ Quoted lex

/-- No error is set, or the stream has failed, and the error is harmless. -/
def Clean (lex : Lexer) : Prop :=
  lex.text = [] ∨ lex.state = .STREAM_STATE_ERROR ∧ percent ∉ lex.text

variable {lex lex' : Lexer} {msg : List UInt8}

lemma Live.sound (h : Live lex) : Sound lex := h.imp_right And.right

/-- A lexer that has saved no `%`. -/
lemma Live.clean (h : Live lex) (hsaved : percent ∉ lex.saved_text) : Clean lex := by
  refine h.imp_right fun ⟨hstate, hquoted⟩ => ⟨hstate, fun htext => ?_⟩
  exact hsaved (hquoted.mp htext).2

lemma Clean.notMem (h : Clean lex) : percent ∉ lex.text := by
  rcases h with h | h
  · rw [h]
    exact List.not_mem_nil
  · exact h.2

/-- A token is begun. -/
lemma Clean.live (h : Clean lex) : Live { lex with saved_text := [] } := by
  refine h.imp_right fun ⟨hstate, htext⟩ => ⟨hstate, iff_of_false htext ?_⟩
  exact fun hharm => absurd hharm.2 List.not_mem_nil

/-- The first error shows the saved token, and no other error is set. -/
lemma quoted_error_set (h : Sound lex) (hmsg : percent ∉ msg) : Quoted (lex.error_set msg) := by
  unfold error_set
  split
  · rename_i htext
    exact h.resolve_left htext
  · split
    · show percent ∈ (if _ then _ else _) ↔ Harmful lex.saved_text
      split
      · rename_i hlen
        have hnear : percent ∉ ascii " near '" := by decide
        have hend : percent ∉ ascii "'" := by decide
        simp [Harmful, hlen, hmsg, hnear, hend]
      · rename_i hlen
        exact iff_of_false hmsg fun hharm => hlen hharm.1
    · rename_i hsaved
      have hharmless : ¬ Harmful lex.saved_text := by
        rw [not_not.mp hsaved]
        exact fun hharm => absurd hharm.2 List.not_mem_nil
      split
      · exact iff_of_false hmsg hharmless
      · exact iff_of_false (List.not_mem_append hmsg (by decide)) hharmless

lemma state_error_set : (lex.error_set msg).state = lex.state := by
  obtain ⟨text, h⟩ := error_set_frame lex msg
  rw [h]

@[simp] lemma token_error_set : (lex.error_set msg).token = lex.token := by
  obtain ⟨text, h⟩ := error_set_frame lex msg
  rw [h]

@[simp] lemma token_stream_get (lex : Lexer) : lex.stream_get.2.token = lex.token := by
  obtain ⟨data, buffer, state, text, h⟩ := stream_get_frame lex
  rw [h]

/-! ## Characters -/

/-- While a token is read, no error is set, or the stream has just failed or failed before,
and the error shows the saved token. -/
def Reading (x : Got × Lexer) : Prop :=
  x.2.text = [] ∨
    x.1 = .STREAM_STATE_ERROR ∧ x.2.state = .STREAM_STATE_ERROR ∧ Quoted x.2

lemma Reading.live {x : Got × Lexer} (h : Reading x) : Live x.2 := h.imp_right And.right

/-- Behind a byte that has been read, no error is set. -/
lemma Reading.text_eq_nil {x : Got × Lexer} (h : Reading x) (hx : x.1 ≠ .STREAM_STATE_ERROR) :
    x.2.text = [] :=
  h.resolve_right fun hfailed => hx hfailed.1

lemma reading_stream_get (h : Live lex) : Reading lex.stream_get := by
  rw [stream_get]
  split
  · rename_i hstate
    exact Or.inl (h.resolve_right fun hfailed => by simp [hstate] at hfailed)
  · rename_i hstate
    exact h.imp_right fun hfailed => ⟨rfl, hfailed⟩
  · rename_i hstate
    have htext : lex.text = [] := h.resolve_right fun hfailed => by simp [hstate] at hfailed
    split
    · exact Or.inl htext
    · split
      · exact Or.inl htext
      · split
        · exact Or.inl htext
        · simp only
          split
          · exact Or.inl htext
          · refine Or.inr ⟨rfl, state_error_set, quoted_error_set (Or.inl htext) ?_⟩
            exact List.not_mem_append (by decide) (percent_notMem_hex _)

lemma reading_lex_get_save (h : Live lex) : Reading lex.lex_get_save := by
  have hget := reading_stream_get h
  rw [lex_get_save]
  split
  · rename_i c lex₁ heq
    rw [heq] at hget
    exact Or.inl (hget.text_eq_nil (by simp))
  · rename_i c lex₁ hc heq
    rw [heq] at hget
    exact hget

/-- A character is given back. -/
lemma Reading.unget {x : Got × Lexer} (h : Reading x) : Live (x.2.lex_unget_unsave x.1) := by
  obtain ⟨c, lex⟩ := x
  cases c with
  | byte c => exact Or.inl (h.text_eq_nil (by simp))
  | STREAM_STATE_EOF | STREAM_STATE_ERROR => exact h.live

lemma Reading.saveWhile {test : ℤ → Bool} {x : Got × Lexer} (h : Reading x) :
    Reading (saveWhile test x) := by
  fun_induction Lexer.saveWhile test x with
  | case1 c lex htest ih => exact ih (reading_lex_get_save h.live)
  | case2 c lex htest => exact h
  | case3 c lex => exact h

lemma Reading.skipBlanks {x : Got × Lexer} (h : Reading x) : Reading (skipBlanks x) := by
  fun_induction Lexer.skipBlanks x with
  | case1 c lex hblank ih => exact ih (reading_stream_get h.live)
  | case2 c lex hblank => exact h
  | case3 c lex => exact h

lemma Reading.scanHex {i : ℕ} {x : Got × Lexer} (h : Reading x) : Reading (scanHex i x).2 := by
  induction i generalizing x with
  | zero => exact h
  | succ i ih =>
    obtain ⟨c, lex⟩ := x
    rw [Lexer.scanHex]
    split
    · exact ih (reading_lex_get_save h.live)
    · exact h

/-! ## Strings -/

/-- At the closing quote no error is set; a string that has none is shown. -/
lemma Reading.scanChars {x : Got × Lexer} (h : Reading x) :
    Sound (scanChars x).2 ∧ ((scanChars x).1 = true → (scanChars x).2.text = []) := by
  have hset : ∀ {lex : Lexer} (msg : List UInt8), Live lex → percent ∉ msg →
      Sound (lex.error_set msg) := fun msg hlive hmsg => Or.inr (quoted_error_set hlive.sound hmsg)
  fun_induction Lexer.scanChars x with
  | case1 lex => exact ⟨h.live.sound, fun hclosed => absurd hclosed (by simp)⟩
  | case2 lex => exact ⟨hset _ h.live (by decide), fun hclosed => absurd hclosed (by simp)⟩
  | case3 c lex hquote => exact ⟨h.live.sound, fun _ => h.text_eq_nil (by simp)⟩
  | case4 c lex hquote hcontrol =>
    refine ⟨hset _ h.unget ?_, fun hclosed => absurd hclosed (by simp)⟩
    split
    · decide
    · exact List.not_mem_append (by decide) (percent_notMem_hex _)
  | case5 c lex hquote hcontrol hslash x hu y hpass ih =>
    exact ih (reading_lex_get_save (reading_lex_get_save h.live).live).scanHex
  | case6 c lex hquote hcontrol hslash x hu y hpass =>
    have hy : Reading y.2 := (reading_lex_get_save (reading_lex_get_save h.live).live).scanHex
    exact ⟨hset _ hy.live (by decide), fun hclosed => absurd hclosed (by simp)⟩
  | case7 c lex hquote hcontrol hslash x hu hshort ih =>
    exact ih (reading_lex_get_save (reading_lex_get_save h.live).live)
  | case8 c lex hquote hcontrol hslash x hu hshort =>
    exact ⟨hset _ (reading_lex_get_save h.live).live (by decide),
      fun hclosed => absurd hclosed (by simp)⟩
  | case9 c lex hquote hcontrol hslash ih => exact ih (reading_lex_get_save h.live)

/-! ## The token -/

@[simp] lemma token_lex_get_save (lex : Lexer) : lex.lex_get_save.2.token = lex.token := by
  have hget := token_stream_get lex
  rw [lex_get_save]
  split
  · rename_i heq
    rw [heq] at hget
    exact hget
  · rename_i heq
    rw [heq] at hget
    exact hget

@[simp] lemma token_lex_unget_unsave (lex : Lexer) (c : Got) :
    (lex.lex_unget_unsave c).token = lex.token := by
  cases c <;> rfl

@[simp] lemma token_stream_unget (lex : Lexer) (c : Got) :
    (lex.stream_unget c).token = lex.token := by
  cases c <;> rfl

@[simp] lemma token_saveWhile (test : ℤ → Bool) (x : Got × Lexer) :
    (saveWhile test x).2.token = x.2.token := by
  fun_induction Lexer.saveWhile test x with
  | case1 c lex htest ih => exact ih.trans (token_lex_get_save lex)
  | case2 c lex htest => rfl
  | case3 c lex => rfl

@[simp] lemma token_scanHex (i : ℕ) (x : Got × Lexer) : (scanHex i x).2.2.token = x.2.token := by
  induction i generalizing x with
  | zero => rfl
  | succ i ih =>
    obtain ⟨c, lex⟩ := x
    rw [Lexer.scanHex]
    split
    · exact (ih _).trans (token_lex_get_save lex)
    · rfl

lemma token_scanChars (x : Got × Lexer) : (scanChars x).2.token = x.2.token := by
  fun_induction Lexer.scanChars x with
  | case1 lex => rfl
  | case2 lex => exact token_error_set
  | case3 c lex hquote => rfl
  | case4 c lex hquote hcontrol => simp
  | case5 c lex hquote hcontrol hslash x hu y hpass ih => simpa [y, x] using ih
  | case6 c lex hquote hcontrol hslash x hu y hpass => simp [y, x]
  | case7 c lex hquote hcontrol hslash x hu hshort ih => simpa [x] using ih
  | case8 c lex hquote hcontrol hslash x hu hshort => simp [x]
  | case9 c lex hquote hcontrol hslash ih => simpa using ih

/-- What a token leaves: the error that is set, if there is one, shows it, and it is harmless
unless the token is invalid. -/
def Fine (lex : Lexer) : Prop := Sound lex ∧ (lex.token ≠ .TOKEN_INVALID → Clean lex)

lemma Fine.of_text (h : lex.text = []) : Fine lex := ⟨Or.inl h, fun _ => Or.inl h⟩

lemma Fine.of_invalid (h : Sound lex) (htoken : lex.token = .TOKEN_INVALID) : Fine lex :=
  ⟨h, fun hne => absurd htoken hne⟩

lemma fine_lex_scan_string (h : lex.text = []) : Yields Fine lex.lex_scan_string := by
  have hstart : Reading { lex with token := .TOKEN_INVALID }.lex_get_save :=
    reading_lex_get_save (Or.inl h)
  have hchars := hstart.scanChars
  have htoken := token_scanChars { lex with token := .TOKEN_INVALID }.lex_get_save
  rw [token_lex_get_save] at htoken
  rw [lex_scan_string]
  split
  · rename_i lex₁ heq
    rw [heq] at hchars htoken
    exact .ok (.of_invalid hchars.1 htoken)
  · rename_i lex₁ heq
    rw [heq] at hchars htoken
    have htext : lex₁.text = [] := hchars.2 rfl
    have hmessage := unescape_message [] (lex₁.saved_text.drop 1)
    rcases hunescape : unescape [] (lex₁.saved_text.drop 1) with e | (msg | value)
    · exact .error e
    · have hmsg := hmessage _ hunescape msg rfl
      exact .ok (.of_invalid (Or.inr (quoted_error_set (Or.inl htext) hmsg))
        (token_error_set.trans htoken))
    · exact .ok (.of_text htext)

/-! ## Numbers and words -/

/-- There is no `%` in front of the character that has just been read. -/
def Harmless : Got × Lexer → Prop
  | (.byte c, lex) => ∃ s, lex.saved_text = s ++ [c] ∧ percent ∉ s
  | (_, lex) => percent ∉ lex.saved_text

lemma harmless_lex_get_save (h : percent ∉ lex.saved_text) : Harmless lex.lex_get_save := by
  have hsaved := saved_text_stream_get lex
  rw [lex_get_save]
  split
  · rename_i c lex₁ heq
    rw [heq] at hsaved
    exact ⟨lex.saved_text, by rw [← hsaved]; rfl, h⟩
  · rename_i c lex₁ hc heq
    rw [heq] at hsaved
    cases c with
    | byte c => exact absurd rfl (hc c)
    | STREAM_STATE_EOF | STREAM_STATE_ERROR => exact fun hmem => h (hsaved ▸ hmem)

/-- A character that passes a test is no `%`. -/
lemma Harmless.notMem {x : Got × Lexer} (h : Harmless x) (hx : x.1 ≠ .byte percent) :
    percent ∉ x.2.saved_text := by
  obtain ⟨c, lex⟩ := x
  cases c with
  | byte c =>
    obtain ⟨s, hs, hnot⟩ := h
    show percent ∉ lex.saved_text
    rw [hs]
    refine List.not_mem_append hnot fun hmem => hx ?_
    rw [List.mem_singleton.mp hmem]
  | STREAM_STATE_EOF | STREAM_STATE_ERROR => exact h

lemma Harmless.unget {x : Got × Lexer} (h : Harmless x) :
    percent ∉ (x.2.lex_unget_unsave x.1).saved_text := by
  obtain ⟨c, lex⟩ := x
  cases c with
  | byte c =>
    obtain ⟨s, hs, hnot⟩ := h
    show percent ∉ lex.saved_text.dropLast
    rwa [hs, List.dropLast_concat]
  | STREAM_STATE_EOF | STREAM_STATE_ERROR => exact h

lemma Harmless.saveWhile {test : ℤ → Bool} (htest : test (Got.toInt (.byte percent)) = false)
    {x : Got × Lexer} (h : Harmless x) : Harmless (saveWhile test x) := by
  fun_induction Lexer.saveWhile test x with
  | case1 c lex hpass ih =>
    refine ih (harmless_lex_get_save (h.notMem ?_))
    rintro ⟨⟩
    exact absurd (htest.symm.trans hpass) (by simp)
  | case2 c lex hpass => exact h
  | case3 c lex => exact h

/-- While a number is read. -/
structure Scans (x : Got × Lexer) : Prop where
  reading : Reading x
  harmless : Harmless x
  token : x.2.token = .TOKEN_INVALID

lemma Scans.next {x : Got × Lexer} (h : Scans x) (hx : x.1 ≠ .byte percent) :
    Scans x.2.lex_get_save where
  reading := reading_lex_get_save h.reading.live
  harmless := harmless_lex_get_save (h.harmless.notMem hx)
  token := (token_lex_get_save _).trans h.token

lemma Scans.digits {x : Got × Lexer} (h : Scans x) : Scans (saveWhile l_isdigit x) where
  reading := h.reading.saveWhile
  harmless := h.harmless.saveWhile (by decide)
  token := (token_saveWhile _ _).trans h.token

/-- What a part of a number leaves, also if it ends in `goto out`. -/
def Part {α : Type} (P : α → Prop) : Except Lexer α → Prop
  | .ok x => P x
  | .error lex => Fine lex

lemma Part.bind {α β : Type} {P : α → Prop} {Q : β → Prop} {x : Except Lexer α}
    {f : α → Except Lexer β} (hx : Part P x) (hf : ∀ y, P y → Part Q (f y)) :
    Part Q (x >>= f) := by
  rcases x with lex | y
  · exact hx
  · exact hf y hx

/-- The number ends in front of a character that does not belong to it. -/
lemma Scans.out {x : Got × Lexer} (h : Scans x) : Fine (x.2.lex_unget_unsave x.1) :=
  .of_invalid h.reading.unget.sound ((token_lex_unget_unsave _ _).trans h.token)

lemma is_ne_percent {c : Got} {x : Char} (h : c.is x = true) (hx : x.toUInt8 ≠ percent) :
    c ≠ .byte percent := by
  rintro rfl
  rw [Got.is, beq_iff_eq, Got.byte.injEq] at h
  exact hx h.symm

lemma isdigit_ne_percent {c : Got} (h : l_isdigit c.toInt = true) : c ≠ .byte percent := by
  rintro rfl
  exact absurd h (by decide)

lemma scans_scanInteger {x : Got × Lexer} (h : Scans x) : Part Scans (scanInteger x) := by
  have hsign : Scans (if x.1.is '-' then x.2.lex_get_save else x) := by
    split
    · rename_i hminus
      exact h.next (is_ne_percent hminus (by decide))
    · exact h
  rw [scanInteger]
  simp only
  generalize (if x.1.is '-' then x.2.lex_get_save else x) = y at hsign
  split
  · rename_i hzero
    have hnext := hsign.next (is_ne_percent hzero (by decide))
    split
    · exact hnext.out
    · exact hnext
  · split
    · rename_i hdigit
      exact (hsign.next (isdigit_ne_percent hdigit)).digits
    · exact hsign.out

lemma scans_scanFraction {x : Got × Lexer} (h : Scans x) : Part Scans (scanFraction x) := by
  rw [scanFraction]
  split
  · rename_i hpoint
    have hsaved := h.harmless.notMem (is_ne_percent hpoint (by decide))
    have hread := reading_stream_get h.reading.live
    have htoken := token_stream_get x.2
    have hsame := saved_text_stream_get x.2
    split
    · rename_i c lex heq
      rw [heq] at hread htoken hsame
      have htext : lex.text = [] := hread.text_eq_nil (by simp)
      split
      · rename_i hdigit
        have hnot : percent ∉ (lex.lex_save c).saved_text := by
          refine List.not_mem_append (fun hmem => hsaved (hsame ▸ hmem)) fun hmem => ?_
          exact isdigit_ne_percent hdigit (by rw [List.mem_singleton.mp hmem])
        exact Scans.digits ⟨reading_lex_get_save (Or.inl htext), harmless_lex_get_save hnot,
          (token_lex_get_save _).trans (htoken.trans h.token)⟩
      · exact .of_invalid (Or.inl htext) (htoken.trans h.token)
    · rename_i c lex hbyte heq
      rw [heq] at hread htoken
      refine .of_invalid ?_ ((token_stream_unget _ _).trans (htoken.trans h.token))
      cases c with
      | byte c => exact absurd rfl (hbyte c)
      | STREAM_STATE_EOF | STREAM_STATE_ERROR => exact hread.live.sound
  · exact h

lemma scans_scanExponent {x : Got × Lexer} (h : Scans x) : Part Scans (scanExponent x) := by
  rw [scanExponent]
  split
  · rename_i hletter
    have hnext : Scans x.2.lex_get_save := by
      rcases Bool.or_eq_true_iff.mp hletter with he | he
      · exact h.next (is_ne_percent he (by decide))
      · exact h.next (is_ne_percent he (by decide))
    simp only
    generalize x.2.lex_get_save = y at hnext
    have hsign : Scans (if y.1.is '+' || y.1.is '-' then y.2.lex_get_save else y) := by
      split
      · rename_i hsign
        rcases Bool.or_eq_true_iff.mp hsign with hs | hs
        · exact hnext.next (is_ne_percent hs (by decide))
        · exact hnext.next (is_ne_percent hs (by decide))
      · exact hnext
    generalize (if y.1.is '+' || y.1.is '-' then y.2.lex_get_save else y) = z at hsign
    split
    · rename_i hdigit
      exact (hsign.next (isdigit_ne_percent hdigit)).digits
    · exact hsign.out
  · exact h

lemma fine_scanNumber (jsonp_strtod : List UInt8 → Option UInt64) {x : Got × Lexer}
    (h : Scans x) : Part Fine (scanNumber jsonp_strtod x) := by
  have hset : ∀ (y : Got × Lexer) (msg : String), Scans y → percent ∉ ascii msg →
      Fine ((y.2.lex_unget_unsave y.1).error_set (ascii msg)) := fun y msg hy hmsg =>
    .of_invalid (Or.inr (quoted_error_set hy.reading.unget.sound hmsg))
      (token_error_set.trans ((token_lex_unget_unsave _ _).trans hy.token))
  -- a number that is complete leaves no error, or that of a stream that has failed
  have hdone : ∀ (y : Got × Lexer) (token : Token), Scans y →
      Fine { y.2.lex_unget_unsave y.1 with token := token } := fun y token hy =>
    ⟨hy.reading.unget.sound, fun _ => hy.reading.unget.clean hy.harmless.unget⟩
  refine (scans_scanInteger h).bind fun y hy => ?_
  simp only
  split
  · split
    · exact hset y _ hy (by decide)
    · split
      · exact hset y _ hy (by decide)
      · exact hdone y _ hy
  · refine (scans_scanFraction hy).bind fun z hz => (scans_scanExponent hz).bind fun w hw => ?_
    split
    · exact hset w _ hw (by decide)
    · exact hdone w _ hw

variable {jsonp_strtod : List UInt8 → Option UInt64}

lemma fine_lex_scan_number {c : UInt8} (h : lex.text = []) (hsaved : lex.saved_text = [c]) :
    Fine (lex.lex_scan_number jsonp_strtod (.byte c)) := by
  have hscans : Scans (.byte c, { lex with token := .TOKEN_INVALID }) :=
    ⟨Or.inl h, ⟨[], hsaved, List.not_mem_nil⟩, rfl⟩
  have hpart := fine_scanNumber jsonp_strtod hscans
  rw [lex_scan_number]
  split
  · rename_i heq
    rw [heq] at hpart
    exact hpart
  · rename_i heq
    rw [heq] at hpart
    exact hpart

/-! ## Tokens -/

/-- What the next token leaves, whatever it is. -/
lemma fine_scanToken {x : Got × Lexer} (h : Reading x) (hsaved : x.2.saved_text = []) :
    Yields Fine (scanToken jsonp_strtod x) := by
  obtain ⟨c, lex⟩ := x
  cases c with
  | STREAM_STATE_EOF => exact .ok (.of_text (h.text_eq_nil (by simp)))
  | STREAM_STATE_ERROR => exact .ok (.of_invalid h.live.sound rfl)
  | byte b =>
    have htext : lex.text = [] := h.text_eq_nil (by simp)
    have hone : (lex.lex_save b).saved_text = [b] := by
      rw [lex_save, hsaved]
      rfl
    simp only [scanToken]
    split
    · exact .ok (.of_text htext)
    · split
      · exact fine_lex_scan_string htext
      · split
        · exact .ok (fine_lex_scan_number htext hone)
        · split
          · rename_i halpha
            have hletter : percent ∉ (lex.lex_save b).saved_text := by
              rw [hone, List.mem_singleton]
              rintro rfl
              exact absurd halpha (by decide)
            have hstart : Reading (lex.lex_save b).lex_get_save :=
              reading_lex_get_save (Or.inl htext)
            have hword : Reading (saveWhile l_isalpha (lex.lex_save b).lex_get_save) :=
              hstart.saveWhile
            have hharmless : Harmless (saveWhile l_isalpha (lex.lex_save b).lex_get_save) :=
              (harmless_lex_get_save hletter).saveWhile (by decide)
            exact .ok ⟨hword.unget.sound, fun _ => hword.unget.clean hharmless.unget⟩
          · exact .ok (.of_text htext)

/-- **The next token**, if what is said so far is harmless. -/
lemma fine_lex_scan (h : Clean lex) : Yields Fine (lex_scan jsonp_strtod lex) := by
  refine fine_scanToken (reading_stream_get h.live).skipBlanks ?_
  rw [saved_text_skipBlanks, saved_text_stream_get]

end Lexer

end Headcrab
