import EmbeddedSystem.Foundation.Scroll
import EmbeddedSystem.Picture.Painting

/-!
# The fly animations

Each pass of a fly mode shifts the screen in place by 40 columns or rows and
draws the next strip of the picture into the gap.  A pass visits the cells so
that none is overwritten before it has been copied; hence it carries the screen
scrolled by `d` to the screen scrolled by `d + 40` (by `d - 40` in the other two
directions), and the passes of a whole animation leave the picture.
-/

namespace EmbeddedSystem.Picture

open CountedLoop InPlace Scroll

/-! ## The scrolled screen -/

/-- The screen after its columns moved `d` to the left, with the picture
following in from the side. -/
def movedColumns (d : ℤ) (bmp_buff : Bytes) (lcd : Framebuffer) : Framebuffer := fun k ↦
  if OnScreen k then
    scroll 800 d (fun c ↦ lcd (k / 800 * 800 + c)) (pictureAt bmp_buff 800 480 (k / 800)) (k % 800)
  else lcd k

/-- The screen after its rows moved `d` up, with the picture following in. -/
def movedRows (d : ℤ) (bmp_buff : Bytes) (lcd : Framebuffer) : Framebuffer := fun k ↦
  if OnScreen k then
    scroll 480 d (fun r ↦ lcd (r * 800 + k % 800)) (fun r ↦ pictureAt bmp_buff 800 480 r (k % 800))
      (k / 800)
  else lcd k

def pictureScreen (bmp_buff : Bytes) (lcd : Framebuffer) : Framebuffer := fun k ↦
  if OnScreen k then pictureAt bmp_buff 800 480 (k / 800) (k % 800) else lcd k

theorem onScreen_word {r c : ℤ} (hr : 0 ≤ r ∧ r < 480) (hc : 0 ≤ c ∧ c < 800) :
    OnScreen (r * 800 + c) := by
  simp only [OnScreen, pixel]
  omega

theorem exists_word {k : ℤ} (hk : OnScreen k) :
    (0 ≤ k / 800 ∧ k / 800 < 480) ∧ (0 ≤ k % 800 ∧ k % 800 < 800) ∧
      k / 800 * 800 + k % 800 = k := by
  simp only [OnScreen, pixel] at hk
  omega

theorem word_div {r c : ℤ} (hc : 0 ≤ c ∧ c < 800) : (r * 800 + c) / 800 = r := by omega

theorem word_mod {r c : ℤ} (hc : 0 ≤ c ∧ c < 800) : (r * 800 + c) % 800 = c := by omega

theorem movedColumns_word {r c : ℤ} (hr : 0 ≤ r ∧ r < 480) (hc : 0 ≤ c ∧ c < 800) (d : ℤ)
    (bmp_buff : Bytes) (lcd : Framebuffer) :
    movedColumns d bmp_buff lcd (r * 800 + c) =
      scroll 800 d (fun c ↦ lcd (r * 800 + c)) (pictureAt bmp_buff 800 480 r) c := by
  rw [movedColumns, if_pos (onScreen_word hr hc), word_div hc, word_mod hc]

theorem movedRows_word {r c : ℤ} (hr : 0 ≤ r ∧ r < 480) (hc : 0 ≤ c ∧ c < 800) (d : ℤ)
    (bmp_buff : Bytes) (lcd : Framebuffer) :
    movedRows d bmp_buff lcd (r * 800 + c) =
      scroll 480 d (fun r ↦ lcd (r * 800 + c)) (fun r ↦ pictureAt bmp_buff 800 480 r c) r := by
  rw [movedRows, if_pos (onScreen_word hr hc), word_div hc, word_mod hc]

theorem movedColumns_zero (bmp_buff : Bytes) (lcd : Framebuffer) :
    movedColumns 0 bmp_buff lcd = lcd := by
  funext k
  by_cases hk : OnScreen k
  · obtain ⟨_, hc, hword⟩ := exists_word hk
    rw [movedColumns, if_pos hk, scroll_zero hc.1 hc.2, hword]
  · rw [movedColumns, if_neg hk]

theorem movedRows_zero (bmp_buff : Bytes) (lcd : Framebuffer) :
    movedRows 0 bmp_buff lcd = lcd := by
  funext k
  by_cases hk : OnScreen k
  · obtain ⟨hr, _, hword⟩ := exists_word hk
    rw [movedRows, if_pos hk, scroll_zero hr.1 hr.2, hword]
  · rw [movedRows, if_neg hk]

theorem movedColumns_full {d : ℤ} (hd : d = 800 ∨ d = -800) (bmp_buff : Bytes)
    (lcd : Framebuffer) : movedColumns d bmp_buff lcd = pictureScreen bmp_buff lcd := by
  funext k
  by_cases hk : OnScreen k
  · obtain ⟨_, hc, _⟩ := exists_word hk
    rw [movedColumns, pictureScreen, if_pos hk, if_pos hk]
    rcases hd with rfl | rfl
    · exact scroll_length hc.1 hc.2 _ _
    · exact scroll_neg_length hc.2 _ _
  · rw [movedColumns, pictureScreen, if_neg hk, if_neg hk]

theorem movedRows_full {d : ℤ} (hd : d = 480 ∨ d = -480) (bmp_buff : Bytes)
    (lcd : Framebuffer) : movedRows d bmp_buff lcd = pictureScreen bmp_buff lcd := by
  funext k
  by_cases hk : OnScreen k
  · obtain ⟨hr, _, _⟩ := exists_word hk
    rw [movedRows, pictureScreen, if_pos hk, if_pos hk]
    rcases hd with rfl | rfl
    · exact scroll_length hr.1 hr.2 _ _
    · exact scroll_neg_length hr.2 _ _
  · rw [movedRows, pictureScreen, if_neg hk, if_neg hk]

/-! ## One pass -/

/-- A pass whose order never overwrites a word still to be copied assigns all
its words from the screen before the pass. -/
theorem flyPass_eq_some {bmp_buff : Bytes} {is js : List ℤ} {inside : ℤ → Prop}
    [DecidablePred inside] {dst src bmp : ℤ → ℤ → ℤ} {lcd target : Framebuffer}
    (hdst : ∀ i ∈ is, ∀ j ∈ js, OnScreen (dst i j))
    (hsrc : ∀ i ∈ is, ∀ j ∈ js, inside i → OnScreen (src i j))
    (hbmp : ∀ i ∈ is, ∀ j ∈ js, ¬ inside i → Held bmp_buff (bmp i j))
    (horder : (is ×ˢ js).Pairwise fun c d ↦
      dst c.1 c.2 ≠ dst d.1 d.2 ∧ (inside d.1 → dst c.1 c.2 ≠ src d.1 d.2))
    (htarget : ∀ i ∈ is, ∀ j ∈ js, target (dst i j) =
      if inside i then lcd (src i j) else colorAt bmp_buff (bmp i j).toNat)
    (hrest : ∀ k, (∀ i ∈ is, ∀ j ∈ js, dst i j ≠ k) → target k = lcd k) :
    flyPass bmp_buff is js inside dst src bmp lcd = some target := by
  let key : ℤ × ℤ → ℤ := fun c ↦ dst c.1 c.2
  let value : ℤ × ℤ → Framebuffer → UInt32 := fun c s ↦
    if inside c.1 then s (src c.1 c.2) else colorAt bmp_buff (bmp c.1 c.2).toNat
  have hbody : ∀ c ∈ is ×ˢ js, ∀ s : Framebuffer,
      (do
        let color ← if inside c.1 then peek s (src c.1 c.2) else tmpcolor bmp_buff (bmp c.1 c.2)
        poke (dst c.1 c.2) color s) = some (assign key value s c) := by
    rintro ⟨i, j⟩ hc s
    obtain ⟨hi, hj⟩ := List.mem_product.mp hc
    by_cases hin : inside i
    · simp [hin, peek_of_onScreen (hsrc i hi j hj hin), poke_of_onScreen (hdst i hi j hj),
        assign, key, value]
    · simp [hin, tmpcolor_of_held (hbmp i hi j hj hin), poke_of_onScreen (hdst i hi j hj),
        assign, key, value]
  have hundisturbed : (is ×ˢ js).Pairwise (Undisturbed key value) := by
    refine horder.imp fun {c d} h ↦ ⟨h.1, fun s v ↦ ?_⟩
    by_cases hin : inside d.1
    · simp [value, hin, key, Function.update_of_ne (Ne.symm (h.2 hin))]
    · simp [value, hin]
  rw [flyPass, loop_nest, loop_eq_foldl hbody]
  congr 1
  funext k
  by_cases hk : ∃ c ∈ is ×ˢ js, key c = k
  · obtain ⟨c, hc, rfl⟩ := hk
    obtain ⟨hi, hj⟩ := List.mem_product.mp hc
    rw [foldl_assign_of_mem hundisturbed hc]
    exact (htarget c.1 hi c.2 hj).symm
  · push Not at hk
    rw [foldl_assign_of_notMem value hk]
    exact (hrest k fun i hi j hj ↦ hk (i, j) (List.mem_product.mpr ⟨hi, hj⟩)).symm

/-- A pass over the columns, left to right for `m = 40` and right to left for
`m = -40`, moves the columns `m` further. -/
theorem flyPass_movedColumns {bmp_buff : Bytes} (hlen : 1152000 ≤ bmp_buff.length) {is : List ℤ}
    {d m : ℤ} {inside : ℤ → Prop} [DecidablePred inside] {src bmp : ℤ → ℤ → ℤ}
    (hdir : 0 ≤ d ∧ 0 < m ∧ d + m ≤ 800 ∨ d ≤ 0 ∧ m < 0 ∧ -800 ≤ d + m)
    (hmem : ∀ i, i ∈ is ↔ 0 ≤ i ∧ i < 800)
    (horder : is.Pairwise fun i i' ↦ 0 < m ∧ i < i' ∨ m < 0 ∧ i' < i)
    (hinside : ∀ i, 0 ≤ i → i < 800 → (inside i ↔ 0 ≤ i + m ∧ i + m < 800))
    (hsrc : ∀ i j, src i j = j * 800 + (i + m))
    (hbmp : ∀ i j, 0 ≤ i → i < 800 → ¬ inside i → bmp i j =
      800 * (480 - 1 - j) + (if i + d + m < 0 then i + d + m + 800 else i + d + m - 800))
    (lcd : Framebuffer) :
    flyPass bmp_buff is (up 480) inside (fun i j ↦ j * 800 + i) src bmp
      (movedColumns d bmp_buff lcd) = some (movedColumns (d + m) bmp_buff lcd) := by
  have hdir' : 0 ≤ d ∧ 0 ≤ m ∨ d ≤ 0 ∧ m ≤ 0 := by omega
  apply flyPass_eq_some
  · intro i hi j hj
    exact onScreen_word (mem_up.mp hj) ((hmem i).mp hi)
  · intro i hi j hj hin
    obtain ⟨h0, hn⟩ := (hmem i).mp hi
    rw [hsrc]
    exact onScreen_word (mem_up.mp hj) ((hinside i h0 hn).mp hin)
  · intro i hi j hj hin
    obtain ⟨h0, hn⟩ := (hmem i).mp hi
    obtain ⟨hj0, hjn⟩ := mem_up.mp hj
    rw [hbmp i j h0 hn hin, Held]
    rw [hinside i h0 hn] at hin
    split <;> omega
  · apply pairwise_product
    · refine horder.imp_of_mem fun {i i'} hi hi' h j hj j' hj' ↦ ?_
      have hi := (hmem i).mp hi
      have hi' := (hmem i').mp hi'
      have hj := mem_up.mp hj
      have hj' := mem_up.mp hj'
      refine ⟨by simp only; omega, fun hin ↦ ?_⟩
      have hin := (hinside i' hi'.1 hi'.2).mp hin
      simp only [hsrc]
      omega
    · intro i hi
      refine (pairwise_up 480).imp_of_mem fun {j j'} hj hj' h ↦ ?_
      have hi := (hmem i).mp hi
      refine ⟨by simp only; omega, fun hin ↦ ?_⟩
      have hin := (hinside i hi.1 hi.2).mp hin
      simp only [hsrc]
      omega
  · intro i hi j hj
    have hi := (hmem i).mp hi
    have hj := mem_up.mp hj
    rw [movedColumns_word hj hi, scroll_add hdir' hi.1 hi.2]
    by_cases hin : inside i
    · have hin' := (hinside i hi.1 hi.2).mp hin
      rw [if_pos hin, if_pos hin', hsrc, movedColumns_word hj hin']
    · rw [if_neg hin, if_neg fun h ↦ hin ((hinside i hi.1 hi.2).mpr h),
        hbmp i j hi.1 hi.2 hin, pictureAt]
  · intro k hk
    have hoff : ¬ OnScreen k := by
      intro hon
      obtain ⟨hr, hc, hword⟩ := exists_word hon
      exact hk _ ((hmem _).mpr hc) _ (mem_up.mpr hr) hword
    rw [movedColumns, movedColumns, if_neg hoff, if_neg hoff]

/-- A pass over the rows, downwards for `m = 40` and upwards for `m = -40`,
moves the rows `m` further. -/
theorem flyPass_movedRows {bmp_buff : Bytes} (hlen : 1152000 ≤ bmp_buff.length) {is : List ℤ}
    {d m : ℤ} {inside : ℤ → Prop} [DecidablePred inside] {src bmp : ℤ → ℤ → ℤ}
    (hdir : 0 ≤ d ∧ 0 < m ∧ d + m ≤ 480 ∨ d ≤ 0 ∧ m < 0 ∧ -480 ≤ d + m)
    (hmem : ∀ i, i ∈ is ↔ 0 ≤ i ∧ i < 480)
    (horder : is.Pairwise fun i i' ↦ 0 < m ∧ i < i' ∨ m < 0 ∧ i' < i)
    (hinside : ∀ i, 0 ≤ i → i < 480 → (inside i ↔ 0 ≤ i + m ∧ i + m < 480))
    (hsrc : ∀ i j, src i j = (i + m) * 800 + j)
    (hbmp : ∀ i j, 0 ≤ i → i < 480 → ¬ inside i → bmp i j =
      800 * (480 - 1 - (if i + d + m < 0 then i + d + m + 480 else i + d + m - 480)) + j)
    (lcd : Framebuffer) :
    flyPass bmp_buff is (up 800) inside (fun i j ↦ i * 800 + j) src bmp
      (movedRows d bmp_buff lcd) = some (movedRows (d + m) bmp_buff lcd) := by
  have hdir' : 0 ≤ d ∧ 0 ≤ m ∨ d ≤ 0 ∧ m ≤ 0 := by omega
  apply flyPass_eq_some
  · intro i hi j hj
    exact onScreen_word ((hmem i).mp hi) (mem_up.mp hj)
  · intro i hi j hj hin
    obtain ⟨h0, hn⟩ := (hmem i).mp hi
    rw [hsrc]
    exact onScreen_word ((hinside i h0 hn).mp hin) (mem_up.mp hj)
  · intro i hi j hj hin
    obtain ⟨h0, hn⟩ := (hmem i).mp hi
    obtain ⟨hj0, hjn⟩ := mem_up.mp hj
    rw [hbmp i j h0 hn hin, Held]
    rw [hinside i h0 hn] at hin
    split <;> omega
  · apply pairwise_product
    · refine horder.imp_of_mem fun {i i'} hi hi' h j hj j' hj' ↦ ?_
      have hj := mem_up.mp hj
      have hj' := mem_up.mp hj'
      refine ⟨by simp only; omega, fun _ ↦ ?_⟩
      simp only [hsrc]
      omega
    · intro i hi
      refine (pairwise_up 800).imp_of_mem fun {j j'} hj hj' h ↦ ?_
      have hj := mem_up.mp hj
      have hj' := mem_up.mp hj'
      refine ⟨by simp only; omega, fun _ ↦ ?_⟩
      simp only [hsrc]
      omega
  · intro i hi j hj
    have hi := (hmem i).mp hi
    have hj := mem_up.mp hj
    rw [movedRows_word hi hj, scroll_add hdir' hi.1 hi.2]
    by_cases hin : inside i
    · have hin' := (hinside i hi.1 hi.2).mp hin
      rw [if_pos hin, if_pos hin', hsrc, movedRows_word hin' hj]
    · rw [if_neg hin, if_neg fun h ↦ hin ((hinside i hi.1 hi.2).mpr h),
        hbmp i j hi.1 hi.2 hin, pictureAt]
  · intro k hk
    have hoff : ¬ OnScreen k := by
      intro hon
      obtain ⟨hr, hc, hword⟩ := exists_word hon
      exact hk _ ((hmem _).mpr hr) _ (mem_up.mpr hc) hword
    rw [movedRows, movedRows, if_neg hoff, if_neg hoff]

/-! ## The four animations -/

theorem column_passes : (800 : ℤ) / moveLength = 20 := rfl

theorem row_passes : (480 : ℤ) / moveLength = 12 := rfl

section Passes

variable {bmp_buff : Bytes} (hlen : 1152000 ≤ bmp_buff.length) (lcd : Framebuffer)
include hlen

theorem flyleft_passes {t : ℤ} (ht : 0 ≤ t) (ht' : t ≤ 20) :
    loop (up t) (flyleftPass bmp_buff) lcd = some (movedColumns (40 * t) bmp_buff lcd) := by
  have hstep : ∀ i, 0 ≤ i → i < 20 →
      flyleftPass bmp_buff i (movedColumns (40 * i) bmp_buff lcd) =
        some (movedColumns (40 * (i + 1)) bmp_buff lcd) := by
    intro i hi hi'
    rw [flyleftPass, Int.mul_add, Int.mul_one]
    apply flyPass_movedColumns hlen (by omega) (fun _ ↦ mem_up)
    · exact (pairwise_up 800).imp fun h ↦ by omega
    · intro c h0 hn
      simp only [moveLength]
      omega
    · intro c r
      simp only [moveLength]
      omega
    · intro c r h0 hn hin
      simp only [moveLength] at hin ⊢
      omega
  have hpasses := loop_up_eq_some hstep ht ht'
  rwa [Int.mul_zero, movedColumns_zero] at hpasses

theorem flyright_passes {t : ℤ} (ht : 0 ≤ t) (ht' : t ≤ 20) :
    loop (up t) (flyrightPass bmp_buff) lcd = some (movedColumns (-(40 * t)) bmp_buff lcd) := by
  have hstep : ∀ i, 0 ≤ i → i < 20 →
      flyrightPass bmp_buff i (movedColumns (-(40 * i)) bmp_buff lcd) =
        some (movedColumns (-(40 * (i + 1))) bmp_buff lcd) := by
    intro i hi hi'
    rw [flyrightPass, Int.mul_add, Int.mul_one, Int.neg_add]
    apply flyPass_movedColumns hlen (by omega) (fun _ ↦ mem_down)
    · exact (pairwise_down 800).imp fun h ↦ by omega
    · intro c h0 hn
      simp only [moveLength]
      omega
    · intro c r
      simp only [moveLength]
      omega
    · intro c r h0 hn hin
      simp only [moveLength] at hin ⊢
      omega
  have hpasses := loop_up_eq_some hstep ht ht'
  rwa [Int.mul_zero, Int.neg_zero, movedColumns_zero] at hpasses

theorem flyup_passes {t : ℤ} (ht : 0 ≤ t) (ht' : t ≤ 12) :
    loop (up t) (flyupPass bmp_buff) lcd = some (movedRows (40 * t) bmp_buff lcd) := by
  have hstep : ∀ i, 0 ≤ i → i < 12 →
      flyupPass bmp_buff i (movedRows (40 * i) bmp_buff lcd) =
        some (movedRows (40 * (i + 1)) bmp_buff lcd) := by
    intro i hi hi'
    rw [flyupPass, Int.mul_add, Int.mul_one]
    apply flyPass_movedRows hlen (by omega) (fun _ ↦ mem_up)
    · exact (pairwise_up 480).imp fun h ↦ by omega
    · intro c h0 hn
      simp only [moveLength]
      omega
    · intro c r
      rfl
    · intro c r h0 hn hin
      simp only [moveLength] at hin ⊢
      omega
  have hpasses := loop_up_eq_some hstep ht ht'
  rwa [Int.mul_zero, movedRows_zero] at hpasses

theorem flydown_passes {t : ℤ} (ht : 0 ≤ t) (ht' : t ≤ 12) :
    loop (up t) (flydownPass bmp_buff) lcd = some (movedRows (-(40 * t)) bmp_buff lcd) := by
  have hstep : ∀ i, 0 ≤ i → i < 12 →
      flydownPass bmp_buff i (movedRows (-(40 * i)) bmp_buff lcd) =
        some (movedRows (-(40 * (i + 1))) bmp_buff lcd) := by
    intro i hi hi'
    rw [flydownPass, Int.mul_add, Int.mul_one, Int.neg_add]
    apply flyPass_movedRows hlen (by omega) (fun _ ↦ mem_down)
    · exact (pairwise_down 480).imp fun h ↦ by omega
    · intro c h0 hn
      simp only [moveLength]
      omega
    · intro c r
      simp only [moveLength]
      omega
    · intro c r h0 hn hin
      simp only [moveLength] at hin ⊢
      omega
  have hpasses := loop_up_eq_some hstep ht ht'
  rwa [Int.mul_zero, Int.neg_zero, movedRows_zero] at hpasses

theorem flyleft_eq_some : flyleft bmp_buff lcd = some (pictureScreen bmp_buff lcd) := by
  rw [flyleft, column_passes, flyleft_passes hlen lcd (by omega) (by omega),
    movedColumns_full (by omega)]

theorem flyright_eq_some : flyright bmp_buff lcd = some (pictureScreen bmp_buff lcd) := by
  rw [flyright, column_passes, flyright_passes hlen lcd (by omega) (by omega),
    movedColumns_full (by omega)]

theorem flyup_eq_some : flyup bmp_buff lcd = some (pictureScreen bmp_buff lcd) := by
  rw [flyup, row_passes, flyup_passes hlen lcd (by omega) (by omega), movedRows_full (by omega)]

theorem flydown_eq_some : flydown bmp_buff lcd = some (pictureScreen bmp_buff lcd) := by
  rw [flydown, row_passes, flydown_passes hlen lcd (by omega) (by omega), movedRows_full (by omega)]

end Passes

theorem drawNone_eq_pictureScreen {bmp_buff : Bytes} (hlen : 1152000 ≤ bmp_buff.length)
    (bg : UInt32) (lcd : Framebuffer) :
    drawNone bmp_buff 800 480 0 0 showWaysCoverShading bg lcd =
      some (pictureScreen bmp_buff lcd) := by
  rw [drawNone_eq_some (by omega) le_rfl le_rfl (by omega) (by omega)]
  congr 1
  funext k
  have hdraws : ∀ color, Draws showWaysCoverShading bg color := fun _ ↦ Or.inl rfl
  have hon : OnScreen k ↔ (0 ≤ k / 800 ∧ k / 800 < 480) ∧ (0 ≤ k % 800 ∧ k % 800 < 800) := by
    simp only [OnScreen, pixel]
    omega
  simp only [painted, pictureScreen, hdraws, hon, mem_up, and_true, sub_zero]

/-- After `t` passes each fly mode shows the old screen moved by `40 * t` columns
or rows with the adjoining strip of the picture in the gap, and the whole
animation leaves what drawing the picture at once leaves. -/
theorem fly_modes_scroll_in_the_picture (bmp_buff : Bytes) (hlen : bmp_buff.length = 1152000) :
    (∀ (lcd : Framebuffer) (t : ℤ), 0 ≤ t → t ≤ 20 →
      loop (up t) (flyleftPass bmp_buff) lcd = some (movedColumns (40 * t) bmp_buff lcd) ∧
      loop (up t) (flyrightPass bmp_buff) lcd = some (movedColumns (-(40 * t)) bmp_buff lcd)) ∧
    (∀ (lcd : Framebuffer) (t : ℤ), 0 ≤ t → t ≤ 12 →
      loop (up t) (flyupPass bmp_buff) lcd = some (movedRows (40 * t) bmp_buff lcd) ∧
      loop (up t) (flydownPass bmp_buff) lcd = some (movedRows (-(40 * t)) bmp_buff lcd)) ∧
    ∀ calls : PicCalls, calls.Provides 800 480 bmp_buff → ∀ (w : World) (x y showway : ℤ)
      (bg bg' : UInt32), ∀ animation ∈ [animationModeFlyleft, animationModeFlyright,
        animationModeFlyup, animationModeFlydown],
      showThePic calls x y animation showway bg w =
          some (0, { w with lcd := pictureScreen bmp_buff w.lcd }) ∧
        showThePic calls x y animation showway bg w =
          showThePic calls 0 0 animationModeNone showWaysCoverShading bg' w := by
  have hlen' : 1152000 ≤ bmp_buff.length := by omega
  refine ⟨fun lcd t ht ht' ↦ ⟨flyleft_passes hlen' lcd ht ht', flyright_passes hlen' lcd ht ht'⟩,
    fun lcd t ht ht' ↦ ⟨flyup_passes hlen' lcd ht ht', flydown_passes hlen' lcd ht ht'⟩, ?_⟩
  intro calls hcalls w x y showway bg bg' animation hanimation
  have hanimate : animate bmp_buff 800 480 x y showway bg animation w.lcd =
      some (pictureScreen bmp_buff w.lcd) := by
    simp only [List.mem_cons, List.not_mem_nil, or_false] at hanimation
    rcases hanimation with rfl | rfl | rfl | rfl
    · rw [animate_flyleft, flyleft_eq_some hlen']
    · rw [animate_flyright, flyright_eq_some hlen']
    · rw [animate_flyup, flyup_eq_some hlen']
    · rw [animate_flydown, flydown_eq_some hlen']
  simp only [showThePic_of_provides hcalls, hanimate, animate_none,
    drawNone_eq_pictureScreen hlen', Option.map_some, and_self]

def black : Bytes := List.replicate 1152000 0

def blackCalls : PicCalls := picCalls 800 480 1152000 black 1152054

theorem blackCalls_provides : blackCalls.Provides 800 480 black := by
  have hprovides := provides_picCalls 800 480 1152000 black 1152054
  have hlen : min (UInt32.toNat 1152000) (min (1152054 - 54) 1152000) = 1152000 := by decide
  rwa [black, List.take_replicate, List.take_replicate, hlen] at hprovides

theorem fly_modes_scroll_in_black :
    loop (up 1) (flyleftPass black) (fun _ ↦ 7) = some (movedColumns (40 * 1) black fun _ ↦ 7) ∧
      loop (up 2) (flydownPass black) (fun _ ↦ 7) = some (movedRows (-(40 * 2)) black fun _ ↦ 7) ∧
      showThePic blackCalls 0 0 animationModeFlyup showWaysCoverNoshading 0
          ⟨fun _ ↦ 7, 0, 0, 0, 0⟩ =
        showThePic blackCalls 0 0 animationModeNone showWaysCoverShading 0
          ⟨fun _ ↦ 7, 0, 0, 0, 0⟩ := by
  have h := fly_modes_scroll_in_the_picture black List.length_replicate
  refine ⟨(h.1 _ 1 (by omega) (by omega)).1, (h.2.1 _ 2 (by omega) (by omega)).2, ?_⟩
  exact (h.2.2 blackCalls blackCalls_provides _ 0 0 _ 0 0 animationModeFlyup (by simp)).2

end EmbeddedSystem.Picture
