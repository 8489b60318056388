import Mathlib.Algebra.Order.Ring.Int
import Mathlib.Tactic.Ring

/-!
# Indices that wrap around

Balanced residues modulo `m` model a signed machine integer.  A walk in steps of at
most half the modulus cannot jump over the negative half of the residues, so it stays
within a range exactly when it does so without wrapping: its first index and the
exact sum at its end decide.
-/

namespace Wraparound

variable {m : ℕ} {z d e n k c : ℤ}

theorem bmod_bounds (hm : 0 < m) (z : ℤ) : -(m : ℤ) ≤ 2 * z.bmod m ∧ 2 * z.bmod m < m := by
  have hlow := Int.le_bmod (x := z) hm
  have hhigh := Int.bmod_lt (x := z) hm
  omega

/-- A sum that fits is exact. -/
theorem bmod_add_of_fits (hlow : -(m : ℤ) ≤ 2 * (z.bmod m + d))
    (hhigh : 2 * (z.bmod m + d) < m) : (z + d).bmod m = z.bmod m + d := by
  rw [← Int.bmod_add_bmod]
  exact Int.bmod_eq_of_le_mul_two (by omega) (by omega)

/-- A step from one index to another that is not negative did not wrap. -/
theorem bmod_add_of_nonneg (hz : 0 ≤ z.bmod m) (hd : 0 ≤ d) (hdm : 2 * d ≤ m)
    (hnext : 0 ≤ (z + d).bmod m) : (z + d).bmod m = z.bmod m + d := by
  rcases Nat.eq_zero_or_pos m with rfl | hm
  · simp
  have hbounds := bmod_bounds hm z
  by_contra hne
  have hover : (m : ℤ) ≤ 2 * (z.bmod m + d) := by
    by_contra hfits
    exact hne (bmod_add_of_fits (by omega) (by omega))
  have hwrapped : (z + d).bmod m = z.bmod m + d - m := by
    rw [← Int.bmod_add_bmod, ← Int.sub_bmod_right]
    exact Int.bmod_eq_of_le_mul_two (by omega) (by omega)
  omega

theorem bmod_add_mul_of_nonneg (hn : 0 ≤ n) (hd : 0 ≤ d) (hdm : 2 * d ≤ m)
    (hwalk : ∀ k, 0 ≤ k → k ≤ n → 0 ≤ (z + d * k).bmod m) :
    (z + d * n).bmod m = z.bmod m + d * n := by
  induction n, hn using Int.leInduction with
  | base => simp
  | succ n hn ih =>
      have hbefore := ih fun k h0 hk ↦ hwalk k h0 (by omega)
      have hhere := hwalk n hn (by omega)
      have hnext := hwalk (n + 1) (by omega) le_rfl
      have hsplit : z + d * (n + 1) = z + d * n + d := by ring
      rw [hsplit] at hnext ⊢
      rw [bmod_add_of_nonneg hhere hd hdm hnext, hbefore]
      ring

/-- A walk stays within a range exactly when its start and its exact end do. -/
theorem forall_bmod_iff (hn : 0 ≤ n) (hd : 0 ≤ d) (hdm : 2 * d ≤ m) (hc : 2 * c ≤ m) :
    (∀ k, 0 ≤ k → k ≤ n → 0 ≤ (z + d * k).bmod m ∧ (z + d * k).bmod m < c) ↔
      0 ≤ z.bmod m ∧ z.bmod m + d * n < c := by
  constructor
  · intro hwalk
    have hstart := hwalk 0 le_rfl hn
    have hend := hwalk n hn le_rfl
    rw [bmod_add_mul_of_nonneg hn hd hdm fun k h0 hk ↦ (hwalk k h0 hk).1] at hend
    rw [Int.mul_zero, Int.add_zero] at hstart
    exact ⟨hstart.1, hend.2⟩
  · rintro ⟨hstart, hend⟩ k h0 hk
    have hlow : 0 ≤ d * k := Int.mul_nonneg hd h0
    have hhigh : d * k ≤ d * n := Int.mul_le_mul_of_nonneg_left hk hd
    rw [bmod_add_of_fits (by omega) (by omega)]
    omega

/-- The same for a walk over a grid, `n` steps of `d` and `k` steps of `e`. -/
theorem forall_bmod_grid_iff (hn : 0 ≤ n) (hk : 0 ≤ k) (hd : 0 ≤ d) (he : 0 ≤ e)
    (hdm : 2 * d ≤ m) (hem : 2 * e ≤ m) (hc : 2 * c ≤ m) :
    (∀ a b, 0 ≤ a → a ≤ n → 0 ≤ b → b ≤ k →
        0 ≤ (z + d * a + e * b).bmod m ∧ (z + d * a + e * b).bmod m < c) ↔
      0 ≤ z.bmod m ∧ z.bmod m + d * n + e * k < c := by
  constructor
  · intro hgrid
    have hrows : ∀ a, 0 ≤ a → a ≤ n →
        0 ≤ (z + d * a).bmod m ∧ (z + d * a).bmod m + e * k < c :=
      fun a h0 ha ↦ (forall_bmod_iff hk he hem hc).mp fun b hb hbk ↦ hgrid a b h0 ha hb hbk
    have hend := (hrows n hn le_rfl).2
    have hstart := (hrows 0 le_rfl hn).1
    rw [bmod_add_mul_of_nonneg hn hd hdm fun a h0 ha ↦ (hrows a h0 ha).1] at hend
    rw [Int.mul_zero, Int.add_zero] at hstart
    exact ⟨hstart, hend⟩
  · rintro ⟨hstart, hend⟩ a b ha han hb hbk
    have hcolumns : 0 ≤ e * k := Int.mul_nonneg he hk
    have hrow := (forall_bmod_iff (c := c - e * k) hn hd hdm (by omega)).mpr
      ⟨hstart, by omega⟩ a ha han
    exact (forall_bmod_iff hk he hem hc).mpr ⟨hrow.1, by omega⟩ b hb hbk

end Wraparound
