import EmbeddedSystem.Foundation.InPlace
import EmbeddedSystem.Picture.Access
import Mathlib.Tactic.Linarith
import Mathlib.Tactic.Ring

/-!
# Painting rows

The modes that obey the header draw rows of the picture, each at most once.
For a picture that fits the screen and a buffer that holds it, drawing a list of
rows goes through and changes exactly the words of these rows.
-/

namespace EmbeddedSystem.Picture

open CountedLoop InPlace

theorem position_bounds {w h r j : ℤ} (hr : 0 ≤ r ∧ r < h) (hj : 0 ≤ j ∧ j < w) :
    0 ≤ w * (h - 1 - r) + j ∧ w * (h - 1 - r) + j < w * h := by
  have hup : 0 ≤ w * (h - 1 - r) := Int.mul_nonneg (by omega) (by omega)
  have hdown : 0 ≤ w * r := Int.mul_nonneg (by omega) hr.1
  have hsplit : w * (h - 1 - r) = w * h - w - w * r := by ring
  omega

section Rows

variable (bmp_buff : Bytes) (pixLength pixHeight x y showway : ℤ) (bg : UInt32)

/-- The screen after drawing the rows `rs` of the picture. -/
def painted (rs : List ℤ) (lcd : Framebuffer) : Framebuffer := fun k ↦
  let color := pictureAt bmp_buff pixLength pixHeight (k / 800 - y) (k % 800 - x)
  if k / 800 - y ∈ rs ∧ (0 ≤ k % 800 - x ∧ k % 800 - x < pixLength) ∧ Draws showway bg color
  then color else lcd k

variable {bmp_buff pixLength pixHeight x y showway bg}

theorem painted_word {r j : ℤ} (hx : 0 ≤ x) (hxw : x + pixLength ≤ 800)
    (hj : 0 ≤ j ∧ j < pixLength) (rs : List ℤ) (lcd : Framebuffer) :
    painted bmp_buff pixLength pixHeight x y showway bg rs lcd ((r + y) * 800 + j + x) =
      if r ∈ rs ∧ Draws showway bg (pictureAt bmp_buff pixLength pixHeight r j)
      then pictureAt bmp_buff pixLength pixHeight r j else lcd ((r + y) * 800 + j + x) := by
  have hrow : ((r + y) * 800 + j + x) / 800 - y = r := by omega
  have hcol : ((r + y) * 800 + j + x) % 800 - x = j := by omega
  simp only [painted, hrow, hcol, hj, and_self, true_and]

theorem loop_drawRow_eq_some (hlen : 3 * (pixLength * pixHeight) ≤ bmp_buff.length)
    (hx : 0 ≤ x) (hy : 0 ≤ y) (hxw : x + pixLength ≤ 800) (hyh : y + pixHeight ≤ 480)
    {rs : List ℤ} (hnodup : rs.Nodup) (hrs : ∀ r ∈ rs, 0 ≤ r ∧ r < pixHeight)
    (lcd : Framebuffer) :
    loop rs (drawRow bmp_buff pixLength pixHeight x y showway bg) lcd =
      some (painted bmp_buff pixLength pixHeight x y showway bg rs lcd) := by
  let key : ℤ × ℤ → ℤ := fun c ↦ (c.1 + y) * 800 + c.2 + x
  let value : ℤ × ℤ → Framebuffer → UInt32 := fun c s ↦
    if Draws showway bg (pictureAt bmp_buff pixLength pixHeight c.1 c.2)
    then pictureAt bmp_buff pixLength pixHeight c.1 c.2 else s (key c)
  have hbody : ∀ c ∈ rs ×ˢ up pixLength, ∀ s : Framebuffer,
      (do
        let color ← tmpcolor bmp_buff (pixLength * (pixHeight - 1 - c.1) + c.2)
        cover showway bg (int ((c.1 + y) * 800 + c.2 + x)) color s) =
          some (assign key value s c) := by
    rintro ⟨r, j⟩ hc s
    obtain ⟨hr, hj⟩ := List.mem_product.mp hc
    have hr := hrs r hr
    have hj := mem_up.mp hj
    have hpos := position_bounds hr hj
    have hsmall : pixLength * pixHeight ≤ 800 * 480 :=
      Int.mul_le_mul (by omega) (by omega) (by omega) (by omega)
    have hscreen : OnScreen ((r + y) * 800 + j + x) := by
      simp only [OnScreen, pixel]
      omega
    have hexact : int ((r + y) * 800 + j + x) = (r + y) * 800 + j + x :=
      int_eq_self (by omega) (by omega)
    have hheld : Held bmp_buff (pixLength * (pixHeight - 1 - r) + j) := ⟨hpos.1, by omega⟩
    simp only [tmpcolor_of_held hheld, hexact]
    exact cover_of_onScreen hscreen showway bg _ s
  have hkey : ∀ c d : ℤ × ℤ, 0 ≤ c.2 ∧ c.2 < pixLength → 0 ≤ d.2 ∧ d.2 < pixLength →
      c.1 ≠ d.1 ∨ c.2 ≠ d.2 → Undisturbed key value c d := by
    intro c d hc hd hne
    have hcd : key c ≠ key d := by
      simp only [key]
      omega
    refine ⟨hcd, fun s v ↦ ?_⟩
    simp only [value, Function.update_of_ne (Ne.symm hcd)]
  have hundisturbed : (rs ×ˢ up pixLength).Pairwise (Undisturbed key value) := by
    apply pairwise_product
    · refine List.Pairwise.imp ?_ hnodup
      intro r r' h j hj j' hj'
      exact hkey (r, j) (r', j') (mem_up.mp hj) (mem_up.mp hj') (Or.inl h)
    · intro r _
      refine (pairwise_up pixLength).imp_of_mem ?_
      intro j j' hj hj' h
      exact hkey (r, j) (r, j') (mem_up.mp hj) (mem_up.mp hj') (Or.inr (ne_of_lt h))
  unfold drawRow
  rw [loop_nest, loop_eq_foldl hbody]
  congr 1
  funext k
  by_cases hk : k / 800 - y ∈ rs ∧ 0 ≤ k % 800 - x ∧ k % 800 - x < pixLength
  · have hcell : key (k / 800 - y, k % 800 - x) = k := by
      simp only [key]
      omega
    have hmem : (k / 800 - y, k % 800 - x) ∈ rs ×ˢ up pixLength :=
      List.mem_product.mpr ⟨hk.1, mem_up.mpr hk.2⟩
    have hfold := foldl_assign_of_mem hundisturbed hmem lcd
    rw [hcell] at hfold
    rw [hfold]
    simp only [value, painted, hcell, hk.1, hk.2, and_self, true_and]
  · rw [foldl_assign_of_notMem]
    · simp only [painted]
      rw [if_neg fun h ↦ hk ⟨h.1, h.2.1⟩]
    · rintro ⟨r, j⟩ hc rfl
      obtain ⟨hr, hj⟩ := List.mem_product.mp hc
      have hj := mem_up.mp hj
      have hrow : key (r, j) / 800 - y = r := by
        simp only [key]
        omega
      have hcol : key (r, j) % 800 - x = j := by
        simp only [key]
        omega
      rw [hrow, hcol] at hk
      exact hk ⟨hr, hj⟩

theorem drawNone_eq_some (hlen : 3 * (pixLength * pixHeight) ≤ bmp_buff.length)
    (hx : 0 ≤ x) (hy : 0 ≤ y) (hxw : x + pixLength ≤ 800) (hyh : y + pixHeight ≤ 480)
    (lcd : Framebuffer) :
    drawNone bmp_buff pixLength pixHeight x y showway bg lcd =
      some (painted bmp_buff pixLength pixHeight x y showway bg (up pixHeight) lcd) :=
  loop_drawRow_eq_some hlen hx hy hxw hyh
    ((pairwise_up pixHeight).imp fun h ↦ by omega) (fun _ ↦ mem_up.mp) lcd

end Rows

end EmbeddedSystem.Picture
