/-
# UTF-8 in jansson

jansson reads the strings of a program as UTF-8, with functions of its own: `utf8_check_first`
and `utf8_check_full` look at one sequence, `utf8_iterate` takes one off a string, and
`utf8_check_string` goes through a whole string.  A string of C is the list of its bytes, up
to the zero that ends it.

The sequences that pass are the encodings of the characters (`utf8_iterate_eq_some_iff`), and
a string passes if it is the encoding of a text (`utf8_check_string_iff`): no overlong
sequence, no half of a surrogate pair and nothing beyond the last character is let through.
-/
import Headcrab.Lexer
import Mathlib.Tactic.SplitIfs

namespace Headcrab

/-- The bytes of a text. -/
def utf8Bytes (l : List Char) : List UInt8 := l.flatMap String.utf8EncodeChar

@[simp] lemma utf8Bytes_nil : utf8Bytes [] = [] := rfl

@[simp] lemma utf8Bytes_cons (c : Char) (l : List Char) :
    utf8Bytes (c :: l) = String.utf8EncodeChar c ++ utf8Bytes l := by
  rw [utf8Bytes, List.flatMap_cons, utf8Bytes]

lemma utf8Bytes_append (l l' : List Char) : utf8Bytes (l ++ l') = utf8Bytes l ++ utf8Bytes l' :=
  List.flatMap_append

/-- What `utf8_check_full` stores through `codepoint`. -/
def utf8_value : List UInt8 → ℕ
  | [] => 0
  | u :: us =>
    us.foldl (fun value u => value <<< 6 + (u.toNat &&& 0x3F))
      (if us.length = 1 then u.toNat &&& 0x1F else if us.length = 2 then u.toNat &&& 0xF
        else u.toNat &&& 0x7)

/-- `utf8_iterate`: the code point in front and what is behind it, or `NULL`.  There is none in
front of the end.  The zero that ends the string continues no sequence. -/
def utf8_iterate : List UInt8 → Option (Option ℕ × List UInt8)
  | [] => some (none, [])
  | u :: us =>
    let count := utf8_check_first u
    if count = 0 then none
    else if count = 1 then some (some u.toNat, us)
    else
      let buffer := u :: (us ++ [0, 0, 0]).take (count - 1)
      if utf8_check_full buffer then some (some (utf8_value buffer), us.drop (count - 1)) else none

/-- `utf8_check_string`, with the length that `strlen` finds. -/
def utf8_check_string (string : List UInt8) : Bool :=
  match string with
  | [] => true
  | u :: us =>
    let count := utf8_check_first u
    if count = 0 then false
    else if count = 1 then utf8_check_string us
    else if (u :: us).length < count then false
    else utf8_check_full (u :: us.take (count - 1)) && utf8_check_string (us.drop (count - 1))
termination_by string.length

/-! ## Numbers and their bits -/

lemma and_shiftLeft_shiftRight (n k m : ℕ) : (n &&& m <<< k) >>> k = n >>> k &&& m := by
  rw [Nat.shiftRight_and_distrib, Nat.shiftLeft_shiftRight]

lemma and_0x3F (n : ℕ) : n &&& 0x3F = n % 64 := Nat.and_two_pow_sub_one_eq_mod n 6

lemma and_0x1F (n : ℕ) : n &&& 0x1F = n % 32 := Nat.and_two_pow_sub_one_eq_mod n 5

lemma and_0xF (n : ℕ) : n &&& 0xF = n % 16 := Nat.and_two_pow_sub_one_eq_mod n 4

lemma and_0x7 (n : ℕ) : n &&& 0x7 = n % 8 := Nat.and_two_pow_sub_one_eq_mod n 3

/-- The first bytes of the sequences, as `utf8_encode` computes them. -/
lemma and_0x7C0 (n : ℕ) : (n &&& 0x7C0) >>> 6 = n / 64 % 32 := by
  rw [← and_0x1F, ← show n >>> 6 = n / 64 from Nat.shiftRight_eq_div_pow n 6]
  exact and_shiftLeft_shiftRight n 6 0x1F

lemma and_0xF000 (n : ℕ) : (n &&& 0xF000) >>> 12 = n / 4096 % 16 := by
  rw [← and_0xF, ← show n >>> 12 = n / 4096 from Nat.shiftRight_eq_div_pow n 12]
  exact and_shiftLeft_shiftRight n 12 0xF

lemma and_0x1C0000 (n : ℕ) : (n &&& 0x1C0000) >>> 18 = n / 262144 % 8 := by
  rw [← and_0x7, ← show n >>> 18 = n / 262144 from Nat.shiftRight_eq_div_pow n 18]
  exact and_shiftLeft_shiftRight n 18 0x7

/-! ## Encoding -/

/-- The encoding of jansson is that of the characters. -/
lemma utf8_encode_toNat (c : Char) : utf8_encode c.toNat = String.utf8EncodeChar c := by
  have hc : c.val.toNat = c.toNat := rfl
  simp only [utf8_encode, String.utf8EncodeChar, hc, and_0x7C0, and_0xF000, and_0x1C0000, and_0x3F,
    Nat.add_comm 0x80, Nat.add_comm 0xC0, Nat.add_comm 0xE0, Nat.add_comm 0xF0]
  simp only [Nat.shiftRight_eq_div_pow, Nat.pow_zero, Nat.div_one]
  by_cases h₁ : c.toNat < 0x80
  · rw [if_pos h₁, if_pos (show c.toNat ≤ 0x7F by omega)]
  rw [if_neg h₁, if_neg (show ¬ c.toNat ≤ 0x7F by omega)]
  by_cases h₂ : c.toNat < 0x800
  · rw [if_pos h₂, if_pos (show c.toNat ≤ 0x7FF by omega)]
  rw [if_neg h₂, if_neg (show ¬ c.toNat ≤ 0x7FF by omega)]
  by_cases h₃ : c.toNat < 0x10000
  · rw [if_pos h₃, if_pos (show c.toNat ≤ 0xFFFF by omega)]
  · rw [if_neg h₃, if_neg (show ¬ c.toNat ≤ 0xFFFF by omega)]

/-! ## One sequence -/

/-- `utf8_check_first`, on the number of the byte. -/
lemma utf8_check_first_toNat (u : UInt8) : utf8_check_first u =
    if u.toNat < 0x80 then 1 else if u.toNat < 0xC2 then 0 else if u.toNat ≤ 0xDF then 2
    else if u.toNat ≤ 0xEF then 3 else if u.toNat ≤ 0xF4 then 4 else 0 := by
  simp only [utf8_check_first, UInt8.lt_iff_toNat_lt, UInt8.le_iff_toNat_le, ← UInt8.toNat_inj,
    UInt8.reduceToNat]
  split_ifs <;> omega

lemma utf8_check_first_eq_one {u : UInt8} : utf8_check_first u = 1 ↔ u.toNat < 0x80 := by
  rw [utf8_check_first_toNat]
  constructor
  · intro h
    split_ifs at h <;> omega
  · intro h
    rw [if_pos h]

/-- The first bytes of the longer sequences. -/
lemma utf8_check_first_eq {u : UInt8} {n : ℕ} (h : utf8_check_first u = n + 2) :
    n = 0 ∧ 0xC2 ≤ u.toNat ∧ u.toNat ≤ 0xDF ∨ n = 1 ∧ 0xE0 ≤ u.toNat ∧ u.toNat ≤ 0xEF ∨
      n = 2 ∧ 0xF0 ≤ u.toNat ∧ u.toNat ≤ 0xF4 := by
  rw [utf8_check_first_toNat] at h
  split_ifs at h <;> omega

/-- A byte that continues a sequence. -/
def Continues (u : UInt8) : Prop := 0x80 ≤ u.toNat ∧ u.toNat ≤ 0xBF

lemma utf8_value_two (u a : UInt8) :
    utf8_value [u, a] = u.toNat % 32 * 64 + a.toNat % 64 := by
  simp [utf8_value, and_0x1F, and_0x3F, Nat.shiftLeft_eq]

lemma utf8_value_three (u a b : UInt8) :
    utf8_value [u, a, b] = (u.toNat % 16 * 64 + a.toNat % 64) * 64 + b.toNat % 64 := by
  simp [utf8_value, and_0xF, and_0x3F, Nat.shiftLeft_eq]

lemma utf8_value_four (u a b c : UInt8) :
    utf8_value [u, a, b, c]
      = ((u.toNat % 8 * 64 + a.toNat % 64) * 64 + b.toNat % 64) * 64 + c.toNat % 64 := by
  simp [utf8_value, and_0x7, and_0x3F, Nat.shiftLeft_eq]

lemma utf8_check_full_two (u a : UInt8) : utf8_check_full [u, a] = true ↔
    Continues a ∧ 0x80 ≤ utf8_value [u, a] := by
  rw [utf8_value_two]
  simp [utf8_check_full, Continues, UInt8.le_iff_toNat_le, and_0x1F, and_0x3F, Nat.shiftLeft_eq]
  omega

lemma utf8_check_full_three (u a b : UInt8) : utf8_check_full [u, a, b] = true ↔
    (Continues a ∧ Continues b) ∧ 0x800 ≤ utf8_value [u, a, b] ∧
      ¬ (0xD800 ≤ utf8_value [u, a, b] ∧ utf8_value [u, a, b] ≤ 0xDFFF) := by
  rw [utf8_value_three]
  simp [utf8_check_full, Continues, UInt8.le_iff_toNat_le, and_0xF, and_0x3F, Nat.shiftLeft_eq]
  omega

lemma utf8_check_full_four (u a b c : UInt8) : utf8_check_full [u, a, b, c] = true ↔
    (Continues a ∧ Continues b ∧ Continues c) ∧ 0x10000 ≤ utf8_value [u, a, b, c] ∧
      utf8_value [u, a, b, c] ≤ 0x10FFFF := by
  rw [utf8_value_four]
  simp [utf8_check_full, Continues, UInt8.le_iff_toNat_le, and_0x7, and_0x3F, Nat.shiftLeft_eq]
  omega

/-! ## Characters and sequences -/

lemma toNat_ofNat_of_lt {n : ℕ} (h : n < 256) : (UInt8.ofNat n).toNat = n := by
  rw [UInt8.toNat_ofNat', Nat.mod_eq_of_lt h]

lemma ofNat_eq {n : ℕ} {u : UInt8} (h : n = u.toNat) : UInt8.ofNat n = u := by
  rw [h, UInt8.ofNat_toNat]

/-- Four kinds of characters, by the length of their encodings. -/
lemma utf8EncodeChar_cases (c : Char) :
    c.toNat < 0x80 ∧ String.utf8EncodeChar c = [.ofNat c.toNat] ∨
    0x80 ≤ c.toNat ∧ c.toNat < 0x800 ∧ String.utf8EncodeChar c
      = [.ofNat (c.toNat / 64 % 32 + 0xC0), .ofNat (c.toNat % 64 + 0x80)] ∨
    0x800 ≤ c.toNat ∧ c.toNat < 0x10000 ∧ String.utf8EncodeChar c
      = [.ofNat (c.toNat / 4096 % 16 + 0xE0), .ofNat (c.toNat / 64 % 64 + 0x80),
        .ofNat (c.toNat % 64 + 0x80)] ∨
    0x10000 ≤ c.toNat ∧ c.toNat < 0x110000 ∧ String.utf8EncodeChar c
      = [.ofNat (c.toNat / 262144 % 8 + 0xF0), .ofNat (c.toNat / 4096 % 64 + 0x80),
        .ofNat (c.toNat / 64 % 64 + 0x80), .ofNat (c.toNat % 64 + 0x80)] := by
  have hc : c.val.toNat = c.toNat := rfl
  have hvalid : c.toNat < 0xD800 ∨ 0xDFFF < c.toNat ∧ c.toNat < 0x110000 := c.valid
  rw [String.utf8EncodeChar, hc]
  by_cases h₁ : c.toNat ≤ 0x7F
  · exact Or.inl ⟨by omega, by rw [if_pos h₁]⟩
  by_cases h₂ : c.toNat ≤ 0x7FF
  · exact Or.inr (Or.inl ⟨by omega, by omega, by rw [if_neg h₁, if_pos h₂]⟩)
  by_cases h₃ : c.toNat ≤ 0xFFFF
  · exact Or.inr (Or.inr (Or.inl ⟨by omega, by omega, by rw [if_neg h₁, if_neg h₂, if_pos h₃]⟩))
  · exact Or.inr (Or.inr (Or.inr
      ⟨by omega, by omega, by rw [if_neg h₁, if_neg h₂, if_neg h₃]⟩))

/-- The encoding of a character beyond ASCII passes the checks. -/
lemma utf8EncodeChar_checks {c : Char} (hc : 0x80 ≤ c.toNat) : ∃ u us,
    String.utf8EncodeChar c = u :: us ∧ us ≠ [] ∧ utf8_check_first u = us.length + 1 ∧
      utf8_check_full (u :: us) = true ∧ utf8_value (u :: us) = c.toNat := by
  have hvalid : c.toNat < 0xD800 ∨ 0xDFFF < c.toNat ∧ c.toNat < 0x110000 := c.valid
  rcases utf8EncodeChar_cases c with h | ⟨-, h, heq⟩ | ⟨hlow, h, heq⟩ | ⟨hlow, h, heq⟩
  · omega
  · have hvalue : utf8_value [.ofNat (c.toNat / 64 % 32 + 0xC0), .ofNat (c.toNat % 64 + 0x80)]
        = c.toNat := by
      rw [utf8_value_two, toNat_ofNat_of_lt (by omega), toNat_ofNat_of_lt (by omega)]
      omega
    refine ⟨_, _, heq, by simp, ?_, ?_, hvalue⟩
    · rw [utf8_check_first_toNat, toNat_ofNat_of_lt (by omega), if_neg (by omega),
        if_neg (by omega), if_pos (by omega)]
      rfl
    · rw [utf8_check_full_two, hvalue, Continues, toNat_ofNat_of_lt (by omega)]
      omega
  · have hvalue : utf8_value [.ofNat (c.toNat / 4096 % 16 + 0xE0),
        .ofNat (c.toNat / 64 % 64 + 0x80), .ofNat (c.toNat % 64 + 0x80)] = c.toNat := by
      rw [utf8_value_three, toNat_ofNat_of_lt (by omega), toNat_ofNat_of_lt (by omega),
        toNat_ofNat_of_lt (by omega)]
      omega
    refine ⟨_, _, heq, by simp, ?_, ?_, hvalue⟩
    · rw [utf8_check_first_toNat, toNat_ofNat_of_lt (by omega), if_neg (by omega),
        if_neg (by omega), if_neg (by omega), if_pos (by omega)]
      rfl
    · rw [utf8_check_full_three, hvalue, Continues, Continues, toNat_ofNat_of_lt (by omega),
        toNat_ofNat_of_lt (by omega)]
      omega
  · have hvalue : utf8_value [.ofNat (c.toNat / 262144 % 8 + 0xF0),
        .ofNat (c.toNat / 4096 % 64 + 0x80), .ofNat (c.toNat / 64 % 64 + 0x80),
        .ofNat (c.toNat % 64 + 0x80)] = c.toNat := by
      rw [utf8_value_four, toNat_ofNat_of_lt (by omega), toNat_ofNat_of_lt (by omega),
        toNat_ofNat_of_lt (by omega), toNat_ofNat_of_lt (by omega)]
      omega
    refine ⟨_, _, heq, by simp, ?_, ?_, hvalue⟩
    · rw [utf8_check_first_toNat, toNat_ofNat_of_lt (by omega), if_neg (by omega),
        if_neg (by omega), if_neg (by omega), if_neg (by omega), if_pos (by omega)]
      rfl
    · rw [utf8_check_full_four, hvalue, Continues, Continues, Continues,
        toNat_ofNat_of_lt (by omega), toNat_ofNat_of_lt (by omega), toNat_ofNat_of_lt (by omega)]
      omega

/-- A sequence that passes the checks is the encoding of a character. -/
lemma exists_char_of_checks {u : UInt8} {us : List UInt8} (hus : us ≠ [])
    (hfirst : utf8_check_first u = us.length + 1) (hfull : utf8_check_full (u :: us) = true) :
    ∃ c : Char, c.toNat = utf8_value (u :: us) ∧ String.utf8EncodeChar c = u :: us := by
  obtain ⟨n, hn⟩ : ∃ n, us.length = n + 1 := ⟨us.length - 1, by
    have hpos := List.length_pos_iff.mpr hus
    omega⟩
  rw [hn] at hfirst
  -- a character with this number exists, and the number decides on its encoding
  have hchar : ∀ k : ℕ, k < 0xD800 ∨ 0xDFFF < k ∧ k < 0x110000 → ∃ c : Char, c.toNat = k :=
    fun k hk => ⟨Char.ofNatAux k hk, rfl⟩
  rcases utf8_check_first_eq hfirst with ⟨rfl, hu⟩ | ⟨rfl, hu⟩ | ⟨rfl, hu⟩
  · obtain ⟨a, rfl⟩ := List.length_eq_one_iff.mp hn
    obtain ⟨ha, hvalue⟩ := (utf8_check_full_two u a).mp hfull
    rw [Continues] at ha
    rw [utf8_value_two] at hvalue ⊢
    obtain ⟨c, hc⟩ := hchar (u.toNat % 32 * 64 + a.toNat % 64) (by omega)
    refine ⟨c, hc, ?_⟩
    rcases utf8EncodeChar_cases c with h | ⟨-, h, heq⟩ | h | h
    · omega
    · rw [heq, ofNat_eq (u := u) (by omega), ofNat_eq (u := a) (by omega)]
    · omega
    · omega
  · obtain ⟨a, b, rfl⟩ := List.length_eq_two.mp hn
    obtain ⟨⟨ha, hb⟩, hvalue⟩ := (utf8_check_full_three u a b).mp hfull
    rw [Continues] at ha hb
    rw [utf8_value_three] at hvalue ⊢
    obtain ⟨c, hc⟩ := hchar ((u.toNat % 16 * 64 + a.toNat % 64) * 64 + b.toNat % 64) (by omega)
    refine ⟨c, hc, ?_⟩
    rcases utf8EncodeChar_cases c with h | h | ⟨-, h, heq⟩ | h
    · omega
    · omega
    · rw [heq, ofNat_eq (u := u) (by omega), ofNat_eq (u := a) (by omega),
        ofNat_eq (u := b) (by omega)]
    · omega
  · obtain ⟨a, b, d, rfl⟩ := List.length_eq_three.mp hn
    obtain ⟨⟨ha, hb, hd⟩, hvalue⟩ := (utf8_check_full_four u a b d).mp hfull
    rw [Continues] at ha hb hd
    rw [utf8_value_four] at hvalue ⊢
    obtain ⟨c, hc⟩ := hchar
      (((u.toNat % 8 * 64 + a.toNat % 64) * 64 + b.toNat % 64) * 64 + d.toNat % 64) (by omega)
    refine ⟨c, hc, ?_⟩
    rcases utf8EncodeChar_cases c with h | h | h | ⟨-, h, heq⟩
    · omega
    · omega
    · omega
    · rw [heq, ofNat_eq (u := u) (by omega), ofNat_eq (u := a) (by omega),
        ofNat_eq (u := b) (by omega), ofNat_eq (u := d) (by omega)]

/-- An ASCII byte is the encoding of a character. -/
lemma exists_char_of_byte {u : UInt8} (hu : u.toNat < 0x80) :
    ∃ c : Char, c.toNat = u.toNat ∧ String.utf8EncodeChar c = [u] := by
  obtain ⟨c, hc⟩ : ∃ c : Char, c.toNat = u.toNat := ⟨Char.ofNatAux u.toNat (Or.inl (by omega)), rfl⟩
  refine ⟨c, hc, ?_⟩
  rcases utf8EncodeChar_cases c with ⟨-, heq⟩ | h | h | h
  · rw [heq, ofNat_eq hc]
  · omega
  · omega
  · omega

/-! ## Strings -/

lemma utf8_check_full_continues {u : UInt8} {us : List UInt8}
    (h : utf8_check_full (u :: us) = true) : ∀ a ∈ us, Continues a := by
  intro a ha
  simp only [utf8_check_full, Bool.and_eq_true, List.all_eq_true, decide_eq_true_eq] at h
  exact h.1.1.1.2 a ha

/-- The zero at the end is not taken for a part of a sequence. -/
lemma take_of_continues {us : List UInt8} {k : ℕ}
    (h : ∀ a ∈ (us ++ [0, 0, 0]).take k, Continues a) :
    k ≤ us.length ∧ (us ++ [0, 0, 0]).take k = us.take k := by
  have hle : k ≤ us.length := by
    by_contra hlt
    have hzero : (0 : UInt8) ∈ (us ++ [0, 0, 0]).take k := by
      rw [List.take_append, List.mem_append]
      refine Or.inr ?_
      obtain ⟨n, hn⟩ : ∃ n, k - us.length = n + 1 := ⟨k - us.length - 1, by omega⟩
      rw [hn]
      simp
    exact absurd (h 0 hzero).1 (by decide)
  exact ⟨hle, List.take_append_of_le_length hle⟩

/-- A character is taken off a string as a whole. -/
lemma utf8_iterate_utf8EncodeChar (c : Char) (rest : List UInt8) :
    utf8_iterate (String.utf8EncodeChar c ++ rest) = some (some c.toNat, rest) := by
  by_cases hc : c.toNat < 0x80
  · rcases utf8EncodeChar_cases c with ⟨-, heq⟩ | h | h | h
    · have hfirst : utf8_check_first (.ofNat c.toNat) = 1 := by
        rw [utf8_check_first_eq_one, toNat_ofNat_of_lt (by omega)]
        exact hc
      rw [heq, List.singleton_append, utf8_iterate, hfirst, toNat_ofNat_of_lt (by omega)]
      rfl
    · omega
    · omega
    · omega
  · obtain ⟨u, us, heq, hus, hfirst, hfull, hvalue⟩ := utf8EncodeChar_checks (c := c) (by omega)
    have hpos := List.length_pos_iff.mpr hus
    have htake : (us ++ rest ++ [0, 0, 0]).take us.length = us := by
      rw [List.append_assoc, List.take_left']
      rfl
    rw [heq, List.cons_append, utf8_iterate, hfirst]
    simp only [Nat.add_sub_cancel]
    rw [if_neg (by omega), if_neg (by omega), htake, if_pos hfull, hvalue, List.drop_left']
    rfl

/-- **What `utf8_iterate` takes off a string is one character.** -/
theorem utf8_iterate_eq_some_iff {string rest : List UInt8} {x : Option ℕ} (h : string ≠ []) :
    utf8_iterate string = some (x, rest) ↔
      ∃ c : Char, x = some c.toNat ∧ string = String.utf8EncodeChar c ++ rest := by
  constructor
  swap
  · rintro ⟨c, rfl, rfl⟩
    exact utf8_iterate_utf8EncodeChar c rest
  intro hsome
  rcases string with _ | ⟨u, us⟩
  · exact absurd rfl h
  simp only [utf8_iterate] at hsome
  split at hsome
  · exact absurd hsome (by simp)
  split at hsome
  · rename_i hone
    obtain ⟨hx, rfl⟩ := Prod.mk.inj (Option.some.inj hsome)
    obtain ⟨c, hc, heq⟩ := exists_char_of_byte (utf8_check_first_eq_one.mp hone)
    exact ⟨c, hx.symm.trans (congrArg some hc.symm), by rw [heq]; rfl⟩
  split at hsome
  swap
  · exact absurd hsome (by simp)
  rename_i hzero hone hfull
  obtain ⟨hx, rfl⟩ := Prod.mk.inj (Option.some.inj hsome)
  obtain ⟨hle, htake⟩ := take_of_continues (utf8_check_full_continues hfull)
  rw [htake] at hfull hx
  have hlen : (us.take (utf8_check_first u - 1)).length = utf8_check_first u - 1 :=
    List.length_take_of_le hle
  have hne : us.take (utf8_check_first u - 1) ≠ [] := List.length_pos_iff.mp (by omega)
  obtain ⟨c, hc, heq⟩ := exists_char_of_checks hne (by omega) hfull
  refine ⟨c, hx.symm.trans (congrArg some hc.symm), ?_⟩
  rw [heq, List.cons_append, List.take_append_drop]

lemma utf8_check_string_utf8EncodeChar (c : Char) (rest : List UInt8) :
    utf8_check_string (String.utf8EncodeChar c ++ rest) = utf8_check_string rest := by
  by_cases hc : c.toNat < 0x80
  · rcases utf8EncodeChar_cases c with ⟨-, heq⟩ | h | h | h
    · have hfirst : utf8_check_first (.ofNat c.toNat) = 1 := by
        rw [utf8_check_first_eq_one, toNat_ofNat_of_lt (by omega)]
        exact hc
      rw [heq, List.singleton_append, utf8_check_string]
      simp only [hfirst]
      rfl
    · omega
    · omega
    · omega
  · obtain ⟨u, us, heq, hus, hfirst, hfull, -⟩ := utf8EncodeChar_checks (c := c) (by omega)
    have hpos := List.length_pos_iff.mpr hus
    rw [heq, List.cons_append, utf8_check_string]
    simp only [hfirst, Nat.add_sub_cancel, List.length_cons, List.length_append]
    rw [if_neg (by omega), if_neg (by omega), if_neg (by omega), List.take_left' rfl,
      List.drop_left' rfl, hfull, Bool.true_and]

/-- **A string passes if it is the encoding of a text.** -/
theorem utf8_check_string_iff (string : List UInt8) :
    utf8_check_string string = true ↔ ∃ l : List Char, string = utf8Bytes l := by
  constructor
  swap
  · rintro ⟨l, rfl⟩
    induction l with
    | nil => rw [utf8Bytes_nil, utf8_check_string]
    | cons c l ih => rw [utf8Bytes_cons, utf8_check_string_utf8EncodeChar, ih]
  intro h
  fun_induction utf8_check_string string with
  | case1 => exact ⟨[], rfl⟩
  | case2 u us count hzero => exact absurd h (by simp)
  | case3 u us count hzero hone ih =>
    obtain ⟨l, rfl⟩ := ih h
    obtain ⟨c, -, heq⟩ := exists_char_of_byte (utf8_check_first_eq_one.mp hone)
    exact ⟨c :: l, by rw [utf8Bytes_cons, heq]; rfl⟩
  | case4 u us count hzero hone hshort => exact absurd h (by simp)
  | case5 u us count hzero hone hlong ih =>
    rw [Bool.and_eq_true] at h
    obtain ⟨l, hl⟩ := ih h.2
    rw [List.length_cons] at hlong
    have hlen : (us.take (count - 1)).length = count - 1 := List.length_take_of_le (by omega)
    have hne : us.take (count - 1) ≠ [] := List.length_pos_iff.mp (by omega)
    obtain ⟨c, -, heq⟩ := exists_char_of_checks hne (by omega) h.1
    refine ⟨c :: l, ?_⟩
    rw [utf8Bytes_cons, heq, ← hl, List.cons_append, List.take_append_drop]

end Headcrab
