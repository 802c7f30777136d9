/-
# Sequences of blocks

A list is a sequence of blocks for a list of items if it is cut into pieces, one for each
item and in their order, such that every piece is what its item asks for.
-/
import Mathlib.Data.List.Basic
import Mathlib.Tactic.Common

variable {α β : Type}

/-- The second list is a sequence of pieces, one for each item of the first. -/
inductive Blocks (R : α → List β → Prop) : List α → List β → Prop
  | nil : Blocks R [] []
  | cons {a : α} {as : List α} {b bs : List β} : R a b → Blocks R as bs →
      Blocks R (a :: as) (b ++ bs)

namespace Blocks

variable {R : α → List β → Prop}

/-- There is a sequence of blocks for every list of items that have a block each. -/
lemma exists_of_forall (h : ∀ a, ∃ b, R a b) (as : List α) : ∃ bs, Blocks R as bs := by
  induction as with
  | nil => exact ⟨[], .nil⟩
  | cons a as ih =>
    obtain ⟨b, hb⟩ := h a
    obtain ⟨bs, hbs⟩ := ih
    exact ⟨b ++ bs, .cons hb hbs⟩

end Blocks
