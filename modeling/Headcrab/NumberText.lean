/-
# Numbers, written and read back

An integer is written in decimal (`integerText`).  For a real, `jsonp_dtostr` takes what
`%.17g` prints, appends `.0` where it would look like an integer, and shortens the exponent
(`jsonp_dtostr_eq_some`); the result is a real for the lexer.
-/
import Headcrab.Dump
import Headcrab.LexerText
import Mathlib.Data.List.TakeWhile

namespace Headcrab

open Lexer

/-! ## Integers -/

/-- The digits of a number. -/
def decimal (n : ℕ) : List UInt8 := (Nat.toDigits 10 n).map Char.toUInt8

/-- One digit. -/
def decimalChar (d : ℕ) : UInt8 := (Nat.digitChar d).toUInt8

lemma decimal_of_lt {n : ℕ} (h : n < 10) : decimal n = [decimalChar n] := by
  rw [decimal, Nat.toDigits_of_lt_base h]
  rfl

lemma decimal_of_le {n : ℕ} (h : 10 ≤ n) :
    decimal n = decimal (n / 10) ++ [decimalChar (n % 10)] := by
  rw [decimal, Nat.toDigits_of_base_le (by decide) h, List.map_append]
  rfl

lemma digit_decimalChar {d : ℕ} (h : d < 10) :
    Digit (decimalChar d) ∧ (decimalChar d).toNat - '0'.toNat = d ∧
      (d ≠ 0 → decimalChar d ≠ '0'.toUInt8) := by
  have hall : ∀ d < 10, decimalChar d ∈ ascii "0123456789" ∧
      (decimalChar d).toNat - '0'.toNat = d ∧ (d ≠ 0 → decimalChar d ≠ '0'.toUInt8) := by decide
  exact hall d h

/-- A positive number does not start with a zero. -/
lemma decimal_cons {n : ℕ} (h : 0 < n) :
    ∃ c ds, decimal n = c :: ds ∧ c ≠ '0'.toUInt8 ∧ Digit c ∧ ∀ d ∈ ds, Digit d := by
  induction n using Nat.strongRecOn with | _ n ih
  by_cases hn : n < 10
  · obtain ⟨hdigit, -, hne⟩ := digit_decimalChar hn
    exact ⟨_, [], decimal_of_lt hn, hne (by omega), hdigit, by simp⟩
  · obtain ⟨c, ds, heq, hc, hdigit, hds⟩ := ih (n / 10) (by omega) (by omega)
    refine ⟨c, ds ++ [decimalChar (n % 10)], ?_, hc, hdigit, ?_⟩
    · rw [decimal_of_le (by omega), heq, List.cons_append]
    · intro d hd
      rcases List.mem_append.mp hd with hd | hd
      · exact hds d hd
      · rw [List.mem_singleton.mp hd]
        exact (digit_decimalChar (Nat.mod_lt _ (by decide))).1

lemma intDigits_decimal (n : ℕ) : IntDigits (decimal n) := by
  rcases Nat.eq_zero_or_pos n with rfl | h
  · exact Or.inl rfl
  · exact Or.inr (decimal_cons h)

lemma digitsValue_decimal (n : ℕ) : digitsValue (decimal n) = n := by
  induction n using Nat.strongRecOn with | _ n ih
  by_cases hn : n < 10
  · rw [decimal_of_lt hn]
    simp only [digitsValue, List.foldl_cons, List.foldl_nil, (digit_decimalChar hn).2.1]
    omega
  · have hlast := (digit_decimalChar (Nat.mod_lt n (show 10 > 0 by decide))).2.1
    have hrest := ih (n / 10) (by omega)
    rw [digitsValue] at hrest
    rw [decimal_of_le (by omega), digitsValue, List.foldl_append, hrest, List.foldl_cons,
      List.foldl_nil, hlast]
    omega

/-- The sign of an integer. -/
def signText (n : ℤ) : List UInt8 := if n < 0 then ascii "-" else []

lemma ascii_toString (n : ℤ) : ascii (toString n) = signText n ++ decimal n.natAbs := by
  rcases n with m | m
  · have hnonneg : ¬ Int.ofNat m < 0 := Int.not_lt.mpr (Int.natCast_nonneg m)
    rw [signText, if_neg hnonneg, List.nil_append, ascii]
    show (m.repr.toList).map _ = _
    rw [Nat.toList_repr]
    rfl
  · rw [signText, if_pos (Int.negSucc_lt_zero m), ascii]
    show (("-" ++ (m + 1).repr).toList).map _ = _
    rw [String.toList_append, List.map_append, Nat.toList_repr]
    rfl

lemma sign_signText (n : ℤ) : Sign (signText n) := by
  rw [signText]
  split
  · exact Or.inr rfl
  · exact Or.inl rfl

/-- The number that is read is the one that was written. -/
lemma integerOf_signText (n : ℤ) : integerOf (signText n ++ decimal n.natAbs) = n := by
  rw [signText]
  split
  · show -(digitsValue (decimal n.natAbs) : ℤ) = n
    rw [digitsValue_decimal]
    omega
  · have hvalue := digitsValue_decimal n.natAbs
    have hminus : '-'.toUInt8 ∉ ascii "0123456789" := by decide
    rw [List.nil_append]
    rcases intDigits_decimal n.natAbs with heq | ⟨c, ds, heq, -, hdigit, -⟩
    · rw [heq] at hvalue ⊢
      show ((digitsValue (ascii "0") : ℕ) : ℤ) = n
      omega
    · rw [heq] at hvalue ⊢
      rw [integerOf, if_neg (by rintro rfl; exact hminus hdigit)]
      omega

/-! ## Reals -/

/-- What `%.17g` prints of a finite number: digits, perhaps with a point in them, and perhaps
an exponent, with its sign and at least one digit that is not zero. -/
def PrintedReal (text : List UInt8) : Prop :=
  text.length ≤ 24 ∧ ∃ sign cs fraction exponent,
    text = sign ++ (cs ++ (fraction ++ exponent)) ∧ Sign sign ∧ IntDigits cs ∧
      Fraction fraction ∧ (exponent = [] ∨ ∃ s ds, exponent = 'e'.toUInt8 :: s :: ds ∧
        s ∈ ascii "+-" ∧ (∀ d ∈ ds, Digit d) ∧ ∃ d ∈ ds, d ≠ '0'.toUInt8)

lemma dropWhile_zeros {ds : List UInt8} (hds : ∀ d ∈ ds, Digit d)
    (hne : ∃ d ∈ ds, d ≠ '0'.toUInt8) : ∃ d es, ds.dropWhile (· == '0'.toUInt8) = d :: es ∧
      Digit d ∧ ∀ d ∈ es, Digit d := by
  have hmem : ∀ d ∈ ds.dropWhile (· == '0'.toUInt8), Digit d := fun d hd =>
    hds d ((List.dropWhile_suffix _).subset hd)
  rcases hdrop : ds.dropWhile (· == '0'.toUInt8) with _ | ⟨d, es⟩
  · obtain ⟨d, hd, hzero⟩ := hne
    have hall := List.dropWhile_eq_nil_iff.mp hdrop d hd
    exact absurd (beq_iff_eq.mp hall) hzero
  · rw [hdrop] at hmem
    refine ⟨d, es, rfl, hmem d (List.mem_cons_self ..), ?_⟩
    intro e he
    exact hmem e (List.mem_cons_of_mem _ he)

/-- The bytes in front of the exponent. -/
def Mantissa (u : UInt8) : Prop := u ∈ ascii "-.0123456789"

lemma Mantissa.ne_e {u : UInt8} (h : Mantissa u) : (u != 'e'.toUInt8) = true := by
  have hall : ∀ u ∈ ascii "-.0123456789", (u != 'e'.toUInt8) = true :=
    List.all_iff_forall_prop.mp (by decide)
  exact hall u h

lemma mantissa_of_digit {u : UInt8} (h : Digit u) : Mantissa u :=
  List.mem_cons_of_mem _ (List.mem_cons_of_mem _ h)

lemma mantissa_of_mem_sign {sign : List UInt8} (h : Sign sign) : ∀ u ∈ sign, Mantissa u := by
  rcases h with rfl | rfl
  · simp
  · have hall : ∀ u ∈ ascii "-", u ∈ ascii "-.0123456789" :=
    List.all_iff_forall_prop.mp (by decide)
    exact hall

lemma digit_of_mem_intDigits {cs : List UInt8} (h : IntDigits cs) : ∀ u ∈ cs, Digit u := by
  rcases h with rfl | ⟨c, ds, rfl, -, hdigit, hds⟩
  · have hall : ∀ u ∈ ascii "0", u ∈ ascii "0123456789" :=
    List.all_iff_forall_prop.mp (by decide)
    exact hall
  · exact List.forall_mem_cons.mpr ⟨hdigit, hds⟩

lemma mantissa_of_mem_fraction {cs : List UInt8} (h : Fraction cs) : ∀ u ∈ cs, Mantissa u := by
  rcases h with rfl | ⟨d, ds, rfl, hdigit, hds⟩
  · simp
  · refine List.forall_mem_cons.mpr ⟨?_, List.forall_mem_cons.mpr
      ⟨mantissa_of_digit hdigit, fun u hu => mantissa_of_digit (hds u hu)⟩⟩
    exact List.mem_cons_of_mem _ (List.mem_cons_self ..)

/-- The two parts into which the text is cut at the exponent. -/
lemma cut_exponent {m exponent : List UInt8} (hm : ∀ u ∈ m, Mantissa u)
    (hexponent : exponent = [] ∨ ∃ rest, exponent = 'e'.toUInt8 :: rest) :
    (m ++ exponent).takeWhile (· != 'e'.toUInt8) = m ∧
      (m ++ exponent).dropWhile (· != 'e'.toUInt8) = exponent := by
  have hpos : ∀ u ∈ m, (u != 'e'.toUInt8) = true := fun u hu => (hm u hu).ne_e
  rw [List.takeWhile_append_of_pos hpos, List.dropWhile_append_of_pos hpos]
  rcases hexponent with rfl | ⟨rest, rfl⟩
  · simp
  · simp

/-- The number with a point, unless there is an exponent. -/
def withPoint (buffer : List UInt8) : List UInt8 :=
  if '.'.toUInt8 ∉ buffer ∧ 'e'.toUInt8 ∉ buffer then buffer ++ ascii ".0" else buffer

/-- The number without the plus and the zeros of its exponent. -/
def shortExponent (buffer : List UInt8) : List UInt8 :=
  buffer.takeWhile (· != 'e'.toUInt8) ++
    match buffer.dropWhile (· != 'e'.toUInt8) with
    | e :: start :: rest =>
      (if start = '-'.toUInt8 then [e, start] else [e]) ++ rest.dropWhile (· == '0'.toUInt8)
    | exponent => exponent

lemma jsonp_dtostr_of_lt {snprintf_17g : UInt64 → List UInt8} {bits : UInt64} {size : ℕ}
    (h : (snprintf_17g bits).length + 3 < size) : jsonp_dtostr snprintf_17g size bits
      = some (shortExponent (withPoint (snprintf_17g bits))) := by
  rw [jsonp_dtostr, if_neg (by omega), if_neg (by omega)]
  rfl

/-- A number is written as a real. -/
lemma jsonp_dtostr_eq_some {snprintf_17g : UInt64 → List UInt8} {bits : UInt64}
    (h : PrintedReal (snprintf_17g bits)) : ∃ sign cs fraction exponent,
      jsonp_dtostr snprintf_17g MAX_REAL_STR_LENGTH bits
        = some (sign ++ (cs ++ (fraction ++ exponent))) ∧
      Sign sign ∧ IntDigits cs ∧ Fraction fraction ∧ Exponent exponent ∧
        fraction ++ exponent ≠ [] := by
  obtain ⟨hlen, sign, cs, fraction, exponent, htext, hsign, hcs, hfraction, hexponent⟩ := h
  have hm : ∀ f : List UInt8, Fraction f → ∀ u ∈ sign ++ (cs ++ f), Mantissa u := by
    intro f hf u hu
    rcases List.mem_append.mp hu with hu | hu
    · exact mantissa_of_mem_sign hsign u hu
    rcases List.mem_append.mp hu with hu | hu
    · exact mantissa_of_digit (digit_of_mem_intDigits hcs u hu)
    · exact mantissa_of_mem_fraction hf u hu
  have hassoc : ∀ f e : List UInt8, sign ++ (cs ++ (f ++ e)) = sign ++ (cs ++ f) ++ e := by simp
  -- neither a point nor an exponent, only if there is none
  have hno : ∀ u ∈ ['.'.toUInt8, 'e'.toUInt8], u ∉ sign ++ cs := by
    have hsigns : ∀ u ∈ ['.'.toUInt8, 'e'.toUInt8], u ∉ ascii "-0123456789" :=
      List.all_iff_forall_prop.mp (by decide)
    intro u hu hmem
    refine hsigns u hu ?_
    rcases List.mem_append.mp hmem with hmem | hmem
    · rcases hsign with rfl | rfl
      · exact absurd hmem (by simp)
      · rw [List.mem_singleton.mp hmem]
        exact List.mem_cons_self ..
    · exact List.mem_cons_of_mem _ (digit_of_mem_intDigits hcs u hmem)
  have hsize : MAX_REAL_STR_LENGTH = 100 := rfl
  rw [jsonp_dtostr_of_lt (by omega), htext, withPoint]
  rcases hexponent with rfl | ⟨s, ds, rfl, hs, hds, hne⟩
  · rcases hfraction with rfl | ⟨d, ds, rfl, hdigit, hds⟩
    · -- an integer for `%.17g`
      have hzero : Fraction (ascii ".0") := 
        Or.inr ⟨'0'.toUInt8, [], rfl, List.mem_cons_self .., by simp⟩
      obtain ⟨htake, hdrop⟩ := cut_exponent (hm _ hzero) (Or.inl rfl)
      rw [List.append_nil] at htake hdrop
      refine ⟨sign, cs, ascii ".0", [], ?_, hsign, hcs, hzero, Or.inl rfl, by decide⟩
      have hplain : '.'.toUInt8 ∉ sign ++ cs ∧ 'e'.toUInt8 ∉ sign ++ cs :=
        ⟨hno _ (List.mem_cons_self ..), hno _ (List.mem_cons_of_mem _ (List.mem_cons_self ..))⟩
      rw [List.append_nil, List.append_nil, if_pos hplain]
      simp only [shortExponent, List.append_nil, List.append_assoc, htake, hdrop]
    · have hpoint : Fraction ('.'.toUInt8 :: d :: ds) := Or.inr ⟨d, ds, rfl, hdigit, hds⟩
      obtain ⟨htake, hdrop⟩ := cut_exponent (hm _ hpoint) (Or.inl rfl)
      rw [List.append_nil] at htake hdrop
      refine ⟨sign, cs, '.'.toUInt8 :: d :: ds, [], ?_, hsign, hcs, hpoint, Or.inl rfl, by simp⟩
      rw [if_neg (by simp)]
      simp only [shortExponent, List.append_nil, htake, hdrop]
  · obtain ⟨htake, hdrop⟩ := cut_exponent (hm _ hfraction) (Or.inr ⟨s :: ds, rfl⟩)
    obtain ⟨d, es, hzeros, hdigit, hes⟩ := dropWhile_zeros hds hne
    refine ⟨sign, cs, fraction, 'e'.toUInt8 :: ((if s = '-'.toUInt8 then ascii "-" else []) ++
      d :: es), ?_, hsign, hcs, hfraction, Or.inr ⟨_, d, es, rfl, ?_, hdigit, hes⟩, by simp⟩
    · rw [if_neg (by simp), shortExponent, hassoc, htake, hdrop]
      simp only [hzeros, hassoc]
      congr 2
      split
      · rename_i hminus
        rw [hminus]
        rfl
      · rfl
    · split
      · exact Or.inr rfl
      · exact Or.inl rfl

/-! ## Reading a real -/

/-- `value == 0`, for a zero of either sign. -/
def isZero (bits : UInt64) : Bool := bits <<< 1 == 0

/-- A number that is not zero but smaller than those with a full mantissa. -/
def isSubnormal (bits : UInt64) : Bool := bits >>> 52 &&& 0x7FF == 0 && !isZero bits

/-- `jsonp_strtod`, over the number that `strtod` returns and whether it sets `errno` to `ERANGE`.
It does so for a number that is too large, and the code takes it for that; but also for one
that is too small for a full mantissa. -/
def jsonp_strtod (strtod : List UInt8 → UInt64 × Bool) (strbuffer : List UInt8) :
    Option UInt64 :=
  let (value, erange) := strtod strbuffer
  if erange && !isZero value then none else some value

/-- A library that prints the bits of a real in decimal, and reads them. -/
def printBits (bits : UInt64) : List UInt8 := decimal bits.toNat

def readBits (text : List UInt8) : UInt64 × Bool :=
  let bits : UInt64 := .ofNat (digitsValue (text.takeWhile (· != '.'.toUInt8)))
  (bits, isSubnormal bits)

lemma length_decimal {n : ℕ} (h : n < 0x10000000000000000) : (decimal n).length ≤ 20 := by
  rw [decimal, List.length_map]
  exact (Nat.length_toDigits_le_iff (by decide) (by decide)).mpr (Nat.lt_of_lt_of_le h (by decide))

end Headcrab
