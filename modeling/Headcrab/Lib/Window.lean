/-
# Circular windows of a list

A ring buffer keeps a queue in a window of a fixed list that may wrap around its end: the
`len` cells that follow position `start` cyclically.  This file has the two facts that
relate the window to a queue: writing the cell after the window and lengthening it appends,
and moving the start by one and shortening the window drops the first entry.
-/
import Mathlib.Data.List.Rotate
import Mathlib.Data.Nat.ModEq
import Mathlib.Tactic.Common

namespace Window

variable {β : Type*}

/-- The `len` entries of `buf` from position `start` on, cyclically. -/
def window (buf : List β) (start len : ℕ) : List β := (buf.rotate start).take len

@[simp] lemma window_zero (buf : List β) (start : ℕ) : window buf start 0 = [] := by
  simp [window]

lemma length_window {buf : List β} {start len : ℕ} (h : len ≤ buf.length) :
    (window buf start len).length = len := by
  simp [window, h]

lemma getElem_window {buf : List β} {start len k : ℕ} (hk : k < (window buf start len).length)
    (hb : (k + start) % buf.length < buf.length) :
    (window buf start len)[k] = buf[(k + start) % buf.length] := by
  simp [window, List.getElem_rotate]

/-- Two offsets below the length name the same cell only if they are equal. -/
lemma offset_inj {n start i j : ℕ} (hi : i < n) (hj : j < n)
    (h : (i + start) % n = (j + start) % n) : i = j := by
  have h' : i ≡ j [MOD n] := Nat.ModEq.add_right_cancel' start h
  rwa [Nat.ModEq, Nat.mod_eq_of_lt hi, Nat.mod_eq_of_lt hj] at h'

/-- Writing the first cell after the window appends to it. -/
lemma window_push {buf : List β} {start len : ℕ} (hlen : len < buf.length) (v : β) :
    window (buf.set ((start + len) % buf.length) v) start (len + 1)
      = window buf start len ++ [v] := by
  have hpos : 0 < buf.length := by omega
  have hl₁ : (window (buf.set ((start + len) % buf.length) v) start (len + 1)).length = len + 1 :=
    length_window (by simp only [List.length_set]; omega)
  have hl₂ : (window buf start len).length = len := length_window hlen.le
  refine List.ext_getElem (by simp [hl₁, hl₂]) fun k hk₁ hk₂ => ?_
  rw [hl₁] at hk₁
  rw [getElem_window _ (by simpa using Nat.mod_lt _ hpos)]
  simp only [List.length_set, List.getElem_set]
  rcases Nat.lt_succ_iff_lt_or_eq.mp hk₁ with hk | rfl
  · -- an older entry: its cell is not the one written
    have hne : (start + len) % buf.length ≠ (k + start) % buf.length := by
      intro h
      rw [Nat.add_comm start len] at h
      have := offset_inj hlen (by omega) h
      omega
    rw [if_neg hne, List.getElem_append_left (by omega),
      getElem_window _ (Nat.mod_lt _ hpos)]
  · rw [if_pos (by rw [Nat.add_comm]), List.getElem_append_right (by omega)]
    simp

/-- A non-empty window is its first cell followed by the window that starts one later. -/
lemma window_pop {buf : List β} {start len : ℕ} (hlen : len + 1 ≤ buf.length)
    (hstart : start < buf.length) :
    window buf start (len + 1)
      = buf[start] :: window buf ((start + 1) % buf.length) len := by
  have hpos : 0 < buf.length := by omega
  have hl₁ : (window buf start (len + 1)).length = len + 1 := length_window hlen
  have hl₂ : (window buf ((start + 1) % buf.length) len).length = len :=
    length_window (by omega)
  refine List.ext_getElem (by simp [hl₁, hl₂]) fun k hk₁ hk₂ => ?_
  rw [getElem_window _ (Nat.mod_lt _ hpos)]
  cases k with
  | zero => simp [Nat.mod_eq_of_lt hstart]
  | succ k =>
    rw [List.getElem_cons_succ, getElem_window _ (Nat.mod_lt _ hpos)]
    simp only [Nat.add_mod_mod]
    congr 2
    omega

end Window
