/-
# Format strings

What the functions of the `printf` family make of a format string: a `%` starts a conversion
specification, with flags, a field width, a precision, a length modifier and a conversion
specifier, and every other character stands for itself.  A specification takes arguments, and
`%%` takes none.  If an argument is missing, or a `%` starts no specification, the behaviour
is undefined.

So a format string is printed as it is, whatever the arguments are, exactly if there is no
`%` in it (`literal_iff`, `printf_of_literal`).
-/
import Mathlib.Data.List.Basic
import Mathlib.Tactic.Common

namespace Printf

def percent : UInt8 := 0x25

/-- A field width or a precision: `*` takes it from an argument. -/
inductive Amount
  | star
  | number (n : ℕ)
deriving DecidableEq, Repr

/-- A conversion specification that takes an argument. -/
structure Directive where
  flags : List UInt8
  width : Option Amount
  precision : Option Amount
  length : List UInt8
  conversion : UInt8
deriving DecidableEq, Repr

/-- The number of arguments that it takes. -/
def Directive.arity (d : Directive) : ℕ :=
  (if d.width = some .star then 1 else 0) + (if d.precision = some .star then 1 else 0) + 1

/-- What a format string is made of. -/
inductive Piece
  | char (c : UInt8)
  | percent
  | directive (d : Directive)
  /-- A `%` that starts no specification. -/
  | undefined
deriving DecidableEq, Repr

/-! ## Reading a format string -/

/-- The characters of an ASCII text. -/
def bytes (s : String) : List UInt8 := s.toList.map Char.toUInt8

def isDigit (c : UInt8) : Bool := 0x30 ≤ c && c ≤ 0x39

def digitsValue (ds : List UInt8) : ℕ := ds.foldl (fun n d => n * 10 + (d.toNat - 0x30)) 0

def readAmount (s : List UInt8) : Option Amount × List UInt8 :=
  match s with
  | [] => (none, [])
  | c :: s' =>
    if c = '*'.toUInt8 then (some .star, s')
    else if isDigit c then (some (.number (digitsValue (s.takeWhile isDigit))), s.dropWhile isDigit)
    else (none, s)

/-- A `.` without a number is a precision of zero. -/
def readPrecision (s : List UInt8) : Option Amount × List UInt8 :=
  match s with
  | [] => (none, [])
  | c :: s' =>
    if c = '.'.toUInt8 then
      let (amount, s'') := readAmount s'
      (some (amount.getD (.number 0)), s'')
    else (none, s)

/-- The length modifiers, the longer ones first. -/
def lengthModifiers : List (List UInt8) := ["hh", "h", "ll", "l", "j", "z", "t", "L"].map bytes

def readLength (s : List UInt8) : List UInt8 × List UInt8 :=
  match lengthModifiers.find? fun m => m.isPrefixOf s with
  | some m => (m, s.drop m.length)
  | none => ([], s)

/-- The conversion specification behind a `%`, and what follows it. -/
def readDirective (s : List UInt8) : Option (Directive × List UInt8) :=
  let flags := s.takeWhile fun c => c ∈ bytes "-+ #0"
  let (width, s) := readAmount (s.drop flags.length)
  let (precision, s) := readPrecision s
  let (length, s) := readLength s
  match s with
  | [] => none
  | c :: s => if c ∈ bytes "diouxXfFeEgGaAcspn" then some (⟨flags, width, precision, length, c⟩, s)
    else none

lemma length_readAmount (s : List UInt8) : (readAmount s).2.length ≤ s.length := by
  rw [readAmount.eq_def]
  split
  · exact Nat.le_refl _
  · split
    · exact Nat.le_succ _
    · split
      · exact (List.dropWhile_sublist _).length_le
      · exact Nat.le_refl _

lemma length_readPrecision (s : List UInt8) : (readPrecision s).2.length ≤ s.length := by
  rw [readPrecision.eq_def]
  split
  · exact Nat.le_refl _
  · split
    · exact Nat.le_succ_of_le (length_readAmount _)
    · exact Nat.le_refl _

lemma length_readLength (s : List UInt8) : (readLength s).2.length ≤ s.length := by
  rw [readLength]
  split
  · rw [List.length_drop]
    exact Nat.sub_le _ _
  · exact Nat.le_refl _

/-- A specification takes off at least its conversion specifier. -/
lemma length_readDirective {s rest : List UInt8} {d : Directive}
    (h : readDirective s = some (d, rest)) : rest.length < s.length := by
  have hflags := List.length_drop (l := s) (i := (s.takeWhile fun c => c ∈ bytes "-+ #0").length)
  have hwidth := length_readAmount (s.drop (s.takeWhile fun c => c ∈ bytes "-+ #0").length)
  have hprecision := length_readPrecision
    (readAmount (s.drop (s.takeWhile fun c => c ∈ bytes "-+ #0").length)).2
  have hlength := length_readLength (readPrecision
    (readAmount (s.drop (s.takeWhile fun c => c ∈ bytes "-+ #0").length)).2).2
  simp only [readDirective] at h
  split at h
  · exact absurd h (by simp)
  · rename_i c s' hs'
    rw [hs', List.length_cons] at hlength
    split at h
    · obtain ⟨-, rfl⟩ := Prod.mk.inj (Option.some.inj h)
      omega
    · exact absurd h (by simp)

/-- The pieces of a format string, up to the first one that is undefined. -/
def pieces (fmt : List UInt8) : List Piece :=
  match fmt with
  | [] => []
  | c :: s =>
    if c ≠ percent then .char c :: pieces s
    else if s.head? = some percent then .percent :: pieces s.tail
    else
      match _hread : readDirective s with
      | some (d, rest) => .directive d :: pieces rest
      | none => [.undefined]
termination_by fmt.length
decreasing_by
  · simp
  · simp only [List.length_tail, List.length_cons]
    omega
  · have hlt := length_readDirective _hread
    simp only [List.length_cons]
    omega

/-! ## Printing -/

section Print

variable {α : Type} (render : Directive → List α → Option (List UInt8))

/-- What is printed for the pieces, given how a directive prints the arguments that it takes;
`none` is undefined behaviour. -/
def print : List Piece → List α → Option (List UInt8)
  | [], _ => some []
  | .char c :: ps, args => (print ps args).map (c :: ·)
  | .percent :: ps, args => (print ps args).map (percent :: ·)
  | .directive d :: ps, args =>
    if args.length < d.arity then none
    else do
      let out ← render d (args.take d.arity)
      let rest ← print ps (args.drop d.arity)
      return out ++ rest
  | .undefined :: _, _ => none

/-- `printf`. -/
def printf (fmt : List UInt8) (args : List α) : Option (List UInt8) :=
  print render (pieces fmt) args

end Print

/-! ## Literal format strings -/

/-- There is no conversion specification in the format string. -/
def Literal (fmt : List UInt8) : Prop := ∀ p ∈ pieces fmt, ∃ c, p = .char c

variable {fmt : List UInt8}

lemma pieces_of_notMem (h : percent ∉ fmt) : pieces fmt = fmt.map .char := by
  induction fmt with
  | nil => rw [pieces, List.map_nil]
  | cons c fmt ih =>
    simp only [List.mem_cons, not_or] at h
    rw [pieces, if_pos (Ne.symm h.1), ih h.2, List.map_cons]

/-- **A format string is literal** exactly if there is no `%` in it. -/
theorem literal_iff (fmt : List UInt8) : Literal fmt ↔ percent ∉ fmt := by
  refine ⟨fun h => ?_, fun h => ?_⟩
  · rw [Literal] at h
    fun_induction pieces fmt with
    | case1 => exact List.not_mem_nil
    | case2 c s hc ih =>
      rw [List.mem_cons, not_or]
      exact ⟨Ne.symm hc, ih fun p hp => h p (List.mem_cons_of_mem _ hp)⟩
    | case3 c s hc hs ih | case4 c s hc hs d rest hread ih | case5 c s hc hs hread =>
      -- the first piece is no character
      obtain ⟨c', hc'⟩ := h _ List.mem_cons_self
      exact absurd hc' (by simp)
  · intro p hp
    rw [pieces_of_notMem h] at hp
    obtain ⟨c, -, rfl⟩ := List.mem_map.mp hp
    exact ⟨c, rfl⟩

/-- **A literal format string is printed as it is.** -/
theorem printf_of_literal {α : Type} (render : Directive → List α → Option (List UInt8))
    (h : Literal fmt) (args : List α) : printf render fmt args = some fmt := by
  rw [printf, pieces_of_notMem ((literal_iff fmt).mp h)]
  clear h
  induction fmt with
  | nil => rfl
  | cons c fmt ih => rw [List.map_cons, print, ih, Option.map_some]

end Printf
