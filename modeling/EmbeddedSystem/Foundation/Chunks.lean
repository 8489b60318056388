import Mathlib.Data.List.TakeDrop
import Mathlib.Tactic.Common

/-!
# Cutting a block into pieces

A loop that passes a block on in pieces of `c`, and takes the rest in one piece as soon
as less than `2 * c` is left.  An empty block has no piece.
-/

namespace Chunks

variable {α : Type*} {c : ℕ} {xs : List α}

/-- The length of the first piece. -/
def first (c n : ℕ) : ℕ := if n < 2 * c then n else c

/-- `n` pieces of `c`, and then the rest. -/
def cut (c : ℕ) : ℕ → List α → List (List α)
  | 0, xs => [xs]
  | n + 1, xs => xs.take c :: cut c n (xs.drop c)

def pieces (c : ℕ) (xs : List α) : List (List α) :=
  if xs.length = 0 then [] else cut c (xs.length / c - 1) xs

@[simp] theorem pieces_nil (c : ℕ) : pieces c ([] : List α) = [] := rfl

theorem first_le (c n : ℕ) : first c n ≤ n := by
  rw [first]
  split <;> omega

theorem first_eq_zero_iff (hc : 0 < c) {n : ℕ} : first c n = 0 ↔ n = 0 := by
  rw [first]
  split <;> omega

/-- The loop takes the first piece, and the others are those of what is left. -/
theorem pieces_eq_cons (hc : 0 < c) (hxs : xs.length ≠ 0) :
    pieces c xs = xs.take (first c xs.length) :: pieces c (xs.drop (first c xs.length)) := by
  by_cases hlast : xs.length < 2 * c
  · have hcount : xs.length / c - 1 = 0 := by
      have hdiv : xs.length / c < 2 := Nat.div_lt_of_lt_mul (Nat.mul_comm 2 c ▸ hlast)
      omega
    simp [pieces, hxs, first, hlast, hcount, cut]
  · have hrest : (xs.drop c).length ≠ 0 := by
      rw [List.length_drop]
      omega
    have hcount : xs.length / c - 1 = (xs.drop c).length / c - 1 + 1 := by
      have hone : 1 ≤ (xs.length - c) / c := (Nat.le_div_iff_mul_le hc).mpr (by omega)
      rw [List.length_drop, Nat.div_eq_sub_div hc (by omega)]
      omega
    rw [pieces, if_neg hxs, hcount, cut, first, if_neg hlast, pieces, if_neg hrest]

/-- Induction over the passes of the loop. -/
theorem pieces_induction (hc : 0 < c) {motive : List α → Prop} (nil : motive [])
    (step : ∀ xs : List α, xs.length ≠ 0 → motive (xs.drop (first c xs.length)) → motive xs)
    (xs : List α) : motive xs := by
  induction h : xs.length using Nat.strongRecOn generalizing xs with
  | ind n ih =>
      by_cases hn : n = 0
      · rw [List.length_eq_zero_iff.mp (h.trans hn)]
        exact nil
      · have hpos := (first_eq_zero_iff hc).not.mpr hn
        refine step xs (h ▸ hn) (ih _ ?_ _ rfl)
        rw [List.length_drop, h]
        omega

theorem flatten_pieces (hc : 0 < c) (xs : List α) : (pieces c xs).flatten = xs := by
  induction xs using pieces_induction hc with
  | nil => rfl
  | step xs hxs ih => rw [pieces_eq_cons hc hxs, List.flatten_cons, ih, List.take_append_drop]

/-- No piece is empty, and none but the only one is shorter than `c`. -/
theorem length_of_mem_pieces (hc : 0 < c) {p : List α} (hp : p ∈ pieces c xs) :
    0 < p.length ∧ p.length < 2 * c ∧ (c ≤ p.length ∨ p = xs) := by
  induction xs using pieces_induction hc with
  | nil => simp at hp
  | step xs hxs ih =>
      rw [pieces_eq_cons hc hxs] at hp
      by_cases hlast : xs.length < 2 * c
      · have hfirst : first c xs.length = xs.length := if_pos hlast
        obtain rfl : p = xs := by simpa [hfirst] using hp
        exact ⟨by omega, hlast, Or.inr rfl⟩
      · have hfirst : first c xs.length = c := if_neg hlast
        rw [hfirst] at hp ih
        rcases List.mem_cons.mp hp with rfl | hp
        · rw [List.length_take]
          omega
        · obtain ⟨hpos, hlt, hlong | rfl⟩ := ih hp
          · exact ⟨hpos, hlt, Or.inl hlong⟩
          · rw [List.length_drop] at hpos hlt ⊢
            exact ⟨hpos, hlt, Or.inl (by omega)⟩

end Chunks
