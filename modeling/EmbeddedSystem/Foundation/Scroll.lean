import Mathlib.Data.Int.Notation
import Mathlib.Tactic.Common

/-!
# Scrolling a line of cells

A line of `n` cells is shifted while a second line of the same length follows
it in.  The second line adjoins the first at both ends, so the same definition
serves shifts in either direction; a shift by the full length leaves exactly the
second line.
-/

namespace Scroll

variable {α : Type*}

/-- The visible line after a shift by `d`: cell `c` shows what lay `d` cells
further on. -/
def scroll (n d : ℤ) (old new : ℤ → α) (c : ℤ) : α :=
  if c + d < 0 then new (c + d + n)
  else if c + d < n then old (c + d)
  else new (c + d - n)

theorem scroll_zero {n c : ℤ} (h0 : 0 ≤ c) (hn : c < n) (old new : ℤ → α) :
    scroll n 0 old new c = old c := by
  have h1 : ¬ c < 0 := by omega
  simp [scroll, hn, h1]

theorem scroll_length {n c : ℤ} (h0 : 0 ≤ c) (hn : c < n) (old new : ℤ → α) :
    scroll n n old new c = new c := by
  have h1 : ¬ c + n < 0 := by omega
  have h2 : ¬ c + n < n := by omega
  simp [scroll, h1, h2]

theorem scroll_neg_length {n c : ℤ} (hn : c < n) (old new : ℤ → α) :
    scroll n (-n) old new c = new c := by
  have hback : c + -n + n = c := by omega
  rw [scroll, if_pos (by omega), hback]

/-- Shifting a shifted line by `m` more: a cell whose source is still visible
copies it, and the others come from the second line. -/
theorem scroll_add {n d m c : ℤ} (hdir : 0 ≤ d ∧ 0 ≤ m ∨ d ≤ 0 ∧ m ≤ 0)
    (h0 : 0 ≤ c) (hn : c < n) (old new : ℤ → α) :
    scroll n (d + m) old new c =
      if 0 ≤ c + m ∧ c + m < n then scroll n d old new (c + m)
      else new (if c + d + m < 0 then c + d + m + n else c + d + m - n) := by
  by_cases hin : 0 ≤ c + m ∧ c + m < n
  · have hsource : c + (d + m) = c + m + d := by omega
    rw [if_pos hin]
    simp only [scroll, hsource]
  · have hsource : c + (d + m) = c + d + m := by omega
    rw [if_neg hin]
    simp only [scroll, hsource]
    by_cases hneg : c + d + m < 0
    · rw [if_pos hneg, if_pos hneg]
    · rw [if_neg hneg, if_neg hneg, if_neg (by omega)]

end Scroll
