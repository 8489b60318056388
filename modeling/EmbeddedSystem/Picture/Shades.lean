import EmbeddedSystem.Picture.Painting
import Mathlib.Data.List.Nodup

/-!
# The window shades

The rows are drawn in 15 slats, in the order in which the shades open.  As long as
the products `p * pixHeight` fit into 32 bits, the two roundings in
`p * pixHeight / 15 + i` and `pixHeight / 15` never make two slats overlap or run
past the last row; but only for multiples of 15 do the slats cover the picture, and
otherwise its bottom row is never drawn.
-/

namespace EmbeddedSystem.Picture

open CountedLoop InPlace

/-! ## The row schedule -/

def shadeRows (h : ℤ) : List ℤ :=
  (up (h.tdiv pages) ×ˢ up pages).map fun c ↦ line h c.2 c.1

theorem pages_eq : pages = 15 := rfl

theorem mem_shadeRows {h r : ℤ} :
    r ∈ shadeRows h ↔ ∃ p i : ℤ, (0 ≤ p ∧ p < 15) ∧ (0 ≤ i ∧ i < h.tdiv 15) ∧ line h p i = r := by
  constructor
  · intro hr
    obtain ⟨⟨i, p⟩, hc, rfl⟩ := List.mem_map.mp hr
    obtain ⟨hi, hp⟩ := List.mem_product.mp hc
    exact ⟨p, i, mem_up.mp hp, mem_up.mp hi, rfl⟩
  · rintro ⟨p, i, hp, hi, rfl⟩
    exact List.mem_map.mpr
      ⟨(i, p), List.mem_product.mpr ⟨mem_up.mpr hi, mem_up.mpr hp⟩, rfl⟩

/-- The height up to which the products `p * pixHeight` fit: the last slat has
`p = 14`, and `14 * 153391689 < 2 ^ 31 ≤ 14 * 153391690`. -/
def maxHeight : ℤ := 153391689

theorem line_eq {h p : ℤ} (hh : 0 ≤ h ∧ h ≤ maxHeight) (hp : 0 ≤ p ∧ p < 15) (i : ℤ) :
    line h p i = p * h / 15 + i := by
  have hlow : 0 ≤ p * h := Int.mul_nonneg hp.1 hh.1
  have hhigh : p * h ≤ 14 * maxHeight := Int.mul_le_mul (by omega) hh.2 hh.1 (by decide)
  rw [maxHeight] at hhigh
  rw [line, pages_eq, int_eq_self (by omega) (by omega), Int.tdiv_eq_ediv_of_nonneg hlow]

theorem slat_le {h p p' : ℤ} (hh : 0 ≤ h) (hp : p < p') : p * h / 15 + h / 15 ≤ p' * h / 15 := by
  have hstep : (p + 1) * h ≤ p' * h := Int.mul_le_mul_of_nonneg_right (by omega) hh
  rw [Int.add_mul, Int.one_mul] at hstep
  omega

theorem line_lt_line {h p p' i i' : ℤ} (hh : 0 ≤ h ∧ h ≤ maxHeight) (hp : 0 ≤ p ∧ p < 15)
    (hp' : 0 ≤ p' ∧ p' < 15) (hpp : p < p') (hi : i < h.tdiv 15) (hi' : 0 ≤ i') :
    line h p i < line h p' i' := by
  have hslat := slat_le hh.1 hpp
  rw [Int.tdiv_eq_ediv_of_nonneg hh.1] at hi
  rw [line_eq hh hp, line_eq hh hp']
  omega

theorem line_bounds {h p i : ℤ} (hh : 0 ≤ h ∧ h ≤ maxHeight) (hp : 0 ≤ p ∧ p < 15)
    (hi : 0 ≤ i ∧ i < h.tdiv 15) : 0 ≤ line h p i ∧ line h p i < h := by
  have hslat := slat_le hh.1 hp.2
  have hnonneg : 0 ≤ p * h := Int.mul_nonneg hp.1 hh.1
  rw [Int.tdiv_eq_ediv_of_nonneg hh.1] at hi
  rw [line_eq hh hp]
  omega

theorem bounds_of_mem_shadeRows {h r : ℤ} (hh : 0 ≤ h ∧ h ≤ maxHeight) (hr : r ∈ shadeRows h) :
    0 ≤ r ∧ r < h := by
  obtain ⟨p, i, hp, hi, rfl⟩ := mem_shadeRows.mp hr
  exact line_bounds hh hp hi

theorem nodup_shadeRows {h : ℤ} (hh : 0 ≤ h ∧ h ≤ maxHeight) : (shadeRows h).Nodup := by
  refine List.pairwise_map.mpr (pairwise_product ?_ ?_)
  · refine (pairwise_up _).imp_of_mem fun {i i'} hi hi' hii p hp p' hp' ↦ ?_
    have hp := mem_up.mp hp
    have hp' := mem_up.mp hp'
    obtain ⟨hi0, hi⟩ := mem_up.mp hi
    obtain ⟨hi0', hi'⟩ := mem_up.mp hi'
    rcases Int.lt_trichotomy p p' with hlt | rfl | hlt
    · exact ne_of_lt (line_lt_line hh hp hp' hlt hi hi0')
    · rw [line_eq hh hp, line_eq hh hp]
      omega
    · exact ne_of_gt (line_lt_line hh hp' hp hlt hi' hi0)
  · intro i hi
    obtain ⟨hi0, hi⟩ := mem_up.mp hi
    refine (pairwise_up _).imp_of_mem fun {p p'} hp hp' hpp ↦ ?_
    exact ne_of_lt (line_lt_line hh (mem_up.mp hp) (mem_up.mp hp') hpp hi hi0)

theorem mem_shadeRows_of_dvd {h r : ℤ} (hdvd : 15 ∣ h) (hmax : h ≤ maxHeight)
    (hr : 0 ≤ r ∧ r < h) : r ∈ shadeRows h := by
  obtain ⟨k, rfl⟩ := hdvd
  have hk : 0 < k := by omega
  have hmod := Int.emod_add_mul_ediv r k
  have hslat : 0 ≤ r / k ∧ r / k < 15 :=
    ⟨Int.ediv_nonneg hr.1 hk.le, Int.ediv_lt_of_lt_mul hk hr.2⟩
  refine mem_shadeRows.mpr ⟨r / k, r % k, hslat, ⟨Int.emod_nonneg r hk.ne', ?_⟩, ?_⟩
  · rw [Int.mul_tdiv_cancel_left k (by decide)]
    exact Int.emod_lt_of_pos r hk
  · rw [line_eq (by omega) hslat, show r / k * (15 * k) = 15 * (k * (r / k)) by ring,
      Int.mul_ediv_cancel_left _ (by decide)]
    omega

theorem last_notMem_shadeRows {h : ℤ} (hh : 0 ≤ h ∧ h ≤ maxHeight) (hdvd : ¬ 15 ∣ h) :
    h - 1 ∉ shadeRows h := by
  intro hmem
  obtain ⟨p, i, hp, hi, hline⟩ := mem_shadeRows.mp hmem
  have hlast : p * h ≤ 14 * h := Int.mul_le_mul_of_nonneg_right (by omega) hh.1
  rw [line_eq hh hp] at hline
  rw [Int.tdiv_eq_ediv_of_nonneg hh.1] at hi
  omega

theorem ne_zero_of_pass {h i : ℤ} (hi : i ∈ up (h.tdiv pages)) : h ≠ 0 := by
  rintro rfl
  obtain ⟨h0, hlt⟩ := mem_up.mp hi
  exact absurd (Int.lt_of_le_of_lt h0 hlt) (by decide)

/-- The rows of a slat are consecutive from its top. -/
theorem map_line_eq {h p : ℤ} (hh : 0 ≤ h ∧ h ≤ maxHeight) (hp : 0 ≤ p ∧ p < 15) :
    (up (h.tdiv pages)).map (line h p) = (up (h / 15)).map fun i ↦ p * h / 15 + i := by
  rw [pages_eq, Int.tdiv_eq_ediv_of_nonneg hh.1]
  exact List.map_congr_left fun i _ ↦ line_eq hh hp i

/-! ## What the shades paint -/

section Shades

variable {bmp_buff : Bytes} {w h x y showway : ℤ} {bg : UInt32}

/-- The delay between two passes is computed only for a picture with rows. -/
theorem windowshades_eq_loop (lcd : Framebuffer) :
    windowshades bmp_buff w h x y showway bg lcd =
      loop (shadeRows h) (drawRow bmp_buff w h x y showway bg) lcd := by
  have hbody : ∀ i ∈ up (h.tdiv pages), ∀ s : Framebuffer,
      (do
        let s ← loop (up pages) (fun p ↦ drawRow bmp_buff w h x y showway bg (line h p i)) s
        if h = 0 then none else some s) =
      loop (up pages) (fun p ↦ drawRow bmp_buff w h x y showway bg (line h p i)) s := by
    intro i hi s
    simp [ne_zero_of_pass hi]
  rw [windowshades, loop_congr hbody, loop_nest, shadeRows, loop_map]

theorem windowshades_eq_some (hlen : 3 * (w * h) ≤ bmp_buff.length) (hh : 0 ≤ h)
    (hx : 0 ≤ x) (hy : 0 ≤ y) (hxw : x + w ≤ 800) (hyh : y + h ≤ 480) (lcd : Framebuffer) :
    windowshades bmp_buff w h x y showway bg lcd =
      some (painted bmp_buff w h x y showway bg (shadeRows h) lcd) := by
  rw [windowshades_eq_loop]
  have hheight : 0 ≤ h ∧ h ≤ maxHeight := ⟨hh, by rw [maxHeight]; omega⟩
  exact loop_drawRow_eq_some hlen hx hy hxw hyh (nodup_shadeRows hheight)
    (fun r hr ↦ bounds_of_mem_shadeRows hheight hr) lcd

/-- Leaving out rows makes no difference exactly when the screen shows them
already. -/
theorem painted_eq_painted_iff (hx : 0 ≤ x) (hxw : x + w ≤ 800) {rs all : List ℤ}
    (hsub : ∀ r ∈ rs, r ∈ all) (lcd : Framebuffer) :
    painted bmp_buff w h x y showway bg rs lcd = painted bmp_buff w h x y showway bg all lcd ↔
      ∀ r ∈ all, r ∉ rs → ∀ c, 0 ≤ c → c < w → Draws showway bg (pictureAt bmp_buff w h r c) →
        lcd ((r + y) * 800 + c + x) = pictureAt bmp_buff w h r c := by
  constructor
  · intro heq r hr hnot c h0 hc hdraws
    have hword := congrFun heq ((r + y) * 800 + c + x)
    rw [painted_word hx hxw ⟨h0, hc⟩, painted_word hx hxw ⟨h0, hc⟩, if_neg fun h ↦ hnot h.1,
      if_pos ⟨hr, hdraws⟩] at hword
    exact hword
  · intro hshown
    funext k
    simp only [painted]
    by_cases hrs : k / 800 - y ∈ rs
    · simp only [hrs, hsub _ hrs]
    · rw [if_neg fun h ↦ hrs h.1]
      split
      next hk =>
        obtain ⟨hall, ⟨h0, hc⟩, hdraws⟩ := hk
        have hword := hshown _ hall hrs _ h0 hc hdraws
        rwa [show (k / 800 - y + y) * 800 + (k % 800 - x) + x = k by omega] at hword
      next => rfl

variable (showway bg)

/-- The shades leave the same screen as drawing at once exactly when the screen
shows the rows they miss. -/
theorem windowshades_eq_drawNone_iff (hlen : 3 * (w * h) ≤ bmp_buff.length) (hh : 0 ≤ h)
    (hx : 0 ≤ x) (hy : 0 ≤ y) (hxw : x + w ≤ 800) (hyh : y + h ≤ 480) {calls : PicCalls}
    (hcalls : calls.Provides w h bmp_buff) (world : World) :
    showThePic calls x y animationModeWindowshades showway bg world =
        showThePic calls x y animationModeNone showway bg world ↔
      ∀ r, 0 ≤ r → r < h → r ∉ shadeRows h → ∀ c, 0 ≤ c → c < w →
        Draws showway bg (pictureAt bmp_buff w h r c) →
        world.lcd ((r + y) * 800 + c + x) = pictureAt bmp_buff w h r c := by
  have hsub : ∀ r ∈ shadeRows h, r ∈ up h := by
    intro r hr
    exact mem_up.mpr (bounds_of_mem_shadeRows ⟨hh, by rw [maxHeight]; omega⟩ hr)
  rw [showThePic_of_provides hcalls, showThePic_of_provides hcalls, animate_windowshades,
    animate_none, windowshades_eq_some hlen hh hx hy hxw hyh,
    drawNone_eq_some hlen hx hy hxw hyh]
  simp only [Option.map_some, Option.some.injEq, Prod.mk.injEq, World.mk.injEq, and_true,
    true_and, painted_eq_painted_iff hx hxw hsub, mem_up]
  exact ⟨fun hall r h0 hr ↦ hall r ⟨h0, hr⟩, fun hall r hr ↦ hall r hr.1 hr.2⟩

variable {showway} in
theorem exists_windowshades_ne (hw : 1 ≤ w) (hh : 1 ≤ h) (hx : 0 ≤ x) (hy : 0 ≤ y)
    (hxw : x + w ≤ 800) (hyh : y + h ≤ 480)
    (hshow : showway = showWaysCoverShading ∨ showway = showWaysCoverNoshading)
    (hdvd : ¬ 15 ∣ h) :
    ∃ (bmp_buff : Bytes) (calls : PicCalls) (world : World), bmp_buff.length = 3 * (w * h) ∧
      calls.Provides w h bmp_buff ∧
      showThePic calls x y animationModeWindowshades showway bg world ≠
        showThePic calls x y animationModeNone showway bg world := by
  obtain ⟨b, color, hcolor, hsingle⟩ := exists_single_color bg
  have hpos : 0 ≤ w * h := Int.mul_nonneg (by omega) (by omega)
  have hsmall : w * h ≤ 800 * 480 := Int.mul_le_mul (by omega) (by omega) (by omega) (by omega)
  have hlen : ((List.replicate (3 * (w * h)).toNat b).length : ℤ) = 3 * (w * h) := by
    rw [List.length_replicate]
    omega
  obtain ⟨calls, hcalls⟩ := exists_provides (w := w) (h := h) (by omega) (by omega)
    (List.replicate (3 * (w * h)).toNat b) (by omega)
  refine ⟨_, calls, ⟨fun _ ↦ color + 1, 0, 0, 0, 0⟩, hlen, hcalls, fun heq ↦ ?_⟩
  have hpicture : pictureAt (List.replicate (3 * (w * h)).toNat b) w h (h - 1) 0 = color := by
    have hbounds := position_bounds (w := w) (h := h) (r := h - 1) (j := 0) (by omega) (by omega)
    rw [List.length_replicate] at hlen
    exact hsingle _ _ (by omega)
  have hdraws : Draws showway bg color := hshow.imp id fun hs ↦ ⟨hs, hcolor⟩
  have hshown := (windowshades_eq_drawNone_iff showway bg hlen.ge (by omega) hx hy hxw hyh hcalls
    _).mp heq (h - 1) (by omega) (by omega)
    (last_notMem_shadeRows ⟨by omega, by rw [maxHeight]; omega⟩ hdvd) 0 le_rfl (by omega)
    (hpicture ▸ hdraws)
  rw [hpicture] at hshown
  exact absurd hshown (by simp)

end Shades

/-! ## The schedule of every height -/

/-- Each row is drawn at most once, all are rows of the picture, those of a slat come
in their order from its top, and the delay is not divided by the height zero. -/
structure Scheduled (h : ℤ) : Prop where
  nodup : (shadeRows h).Nodup
  bounds : ∀ r ∈ shadeRows h, 0 ≤ r ∧ r < h
  consecutive : ∀ p, 0 ≤ p → p < 15 →
    (up (h.tdiv pages)).map (line h p) = (up (h / 15)).map fun i ↦ p * h / 15 + i
  delay : ∀ i ∈ up (h.tdiv pages), h ≠ 0

theorem shadeRows_of_neg {h : ℤ} (hh : h < 0) : up (h.tdiv pages) = [] ∧ up (h / 15) = [] := by
  have hnonneg : 0 ≤ (-h).tdiv 15 := Int.tdiv_nonneg (by omega) (by decide)
  rw [Int.neg_tdiv] at hnonneg
  exact ⟨by rw [pages_eq]; exact up_of_nonpos (by omega), up_of_nonpos (by omega)⟩

theorem scheduled_of_le {h : ℤ} (hmax : h ≤ maxHeight) : Scheduled h := by
  by_cases hh : 0 ≤ h
  · exact ⟨nodup_shadeRows ⟨hh, hmax⟩, fun _ ↦ bounds_of_mem_shadeRows ⟨hh, hmax⟩,
      fun _ h0 hp ↦ map_line_eq ⟨hh, hmax⟩ ⟨h0, hp⟩, fun _ ↦ ne_zero_of_pass⟩
  · obtain ⟨hpasses, hslat⟩ := shadeRows_of_neg (h := h) (by omega)
    have hnone : shadeRows h = [] := by
      rw [shadeRows, hpasses]
      rfl
    exact ⟨by simp [hnone], by simp [hnone], fun _ _ _ ↦ by rw [hpasses, hslat]; rfl,
      fun _ ↦ ne_zero_of_pass⟩

/-- The first product that does not fit wraps to a negative one. -/
theorem exists_wrapped_product {h : ℤ} (hmax : maxHeight < h) (hlong : h < 2 ^ 31) :
    ∃ p, 0 < p ∧ p < 15 ∧ int (p * h) < 0 := by
  have hlast : 2 ^ 31 ≤ 14 * h := by
    rw [maxHeight] at hmax
    omega
  have hleast : ∃ p : ℕ, 2 ^ 31 ≤ (p : ℤ) * h := ⟨14, hlast⟩
  have hp := Nat.find_spec hleast
  have hp14 : Nat.find hleast ≤ 14 := Nat.find_min' hleast hlast
  generalize hfind : Nat.find hleast = p at hp hp14
  cases p with
  | zero => simp at hp
  | succ k =>
      have hk : ¬ 2 ^ 31 ≤ (k : ℤ) * h := Nat.find_min hleast (by omega)
      refine ⟨(k + 1 : ℕ), by omega, by omega, ?_⟩
      have hsplit : ((k + 1 : ℕ) : ℤ) * h = k * h + h := by
        push_cast
        ring
      rw [hsplit] at hp ⊢
      simp only [int, Int.bmod]
      omega

/-- From there on a row is negative or, at -14 and above, row 0 once more. -/
theorem not_nodup_of_maxHeight_lt {h : ℤ} (hmax : maxHeight < h) (hlong : h < 2 ^ 31)
    (hbounds : ∀ r ∈ shadeRows h, 0 ≤ r ∧ r < h) : ¬ (shadeRows h).Nodup := by
  intro hnodup
  obtain ⟨p, h0, hp, hwrapped⟩ := exists_wrapped_product hmax hlong
  have hpass : (0 : ℤ) ∈ up (h.tdiv pages) := by
    rw [maxHeight] at hmax
    rw [pages_eq, Int.tdiv_eq_ediv_of_nonneg (by omega), mem_up]
    omega
  have hcell : ∀ q, 0 ≤ q → q < 15 → ((0 : ℤ), q) ∈ up (h.tdiv pages) ×ˢ up pages :=
    fun q hq hq15 ↦ List.mem_product.mpr ⟨hpass, mem_up.mpr ⟨hq, hq15⟩⟩
  have hmem : line h p 0 ∈ shadeRows h := List.mem_map.mpr ⟨_, hcell p h0.le hp, rfl⟩
  have htop : line h p 0 ≤ 0 := by
    have hquotient : 0 ≤ (-int (p * h)).tdiv 15 := Int.tdiv_nonneg (by omega) (by decide)
    rw [Int.neg_tdiv] at hquotient
    rw [line, pages_eq]
    omega
  have hzero : line h p 0 = line h 0 0 := by
    have hrow := (hbounds _ hmem).1
    rw [show line h 0 0 = 0 by simp [line, int]]
    omega
  have hsame := List.inj_on_of_nodup_map hnodup (hcell p h0.le hp) (hcell 0 le_rfl (by decide))
    hzero
  rw [Prod.mk.injEq] at hsame
  omega

/-- The mode draws the rows of the schedule; this one is as it should be exactly while
the products `p * pixHeight` fit, and beyond that rows are negative or repeated. -/
theorem shades_schedule_iff (h : Int32) :
    (∀ (bmp_buff : Bytes) (w x y showway : ℤ) (bg : UInt32) (lcd : Framebuffer),
      windowshades bmp_buff w h.toInt x y showway bg lcd =
        loop (shadeRows h.toInt) (drawRow bmp_buff w h.toInt x y showway bg) lcd) ∧
      (Scheduled h.toInt ↔ h.toInt ≤ 153391689) ∧
      (153391689 < h.toInt → (∀ r ∈ shadeRows h.toInt, 0 ≤ r ∧ r < h.toInt) →
        ¬ (shadeRows h.toInt).Nodup) := by
  have hlong : h.toInt < 2 ^ 31 := h.toInt_lt
  refine ⟨fun _ _ _ _ _ _ lcd ↦ windowshades_eq_loop lcd, ⟨fun hscheduled ↦ ?_, scheduled_of_le⟩,
    fun hmax ↦ not_nodup_of_maxHeight_lt hmax hlong⟩
  by_contra hmax
  exact not_nodup_of_maxHeight_lt (by rw [maxHeight]; omega) hlong hscheduled.bounds
    hscheduled.nodup

/-- The smallest height of which `14 * pixHeight` does not fit. -/
theorem shades_leave_the_picture :
    line 153391690 14 0 = -143165575 ∧ line 153391690 14 0 ∈ shadeRows 153391690 ∧
      ¬ Scheduled 153391690 := by
  have hline : line 153391690 14 0 = -143165575 := by decide
  have hmem : line 153391690 14 0 ∈ shadeRows 153391690 :=
    mem_shadeRows.mpr ⟨14, 0, by decide, by decide, rfl⟩
  refine ⟨hline, hmem, fun h ↦ ?_⟩
  have hrow := (h.bounds _ hmem).1
  rw [hline] at hrow
  exact absurd hrow (by decide)

/-- Whether the shades leave what drawing the picture at once leaves: on a given
screen exactly when it shows the rows they miss, and on every screen and for
every picture exactly when the height is a multiple of 15. -/
theorem windowshades_paint_picture_iff {w h x y showway : ℤ} {bg : UInt32} (hw : 1 ≤ w)
    (hh : 1 ≤ h) (hx : 0 ≤ x) (hy : 0 ≤ y) (hxw : x + w ≤ 800) (hyh : y + h ≤ 480)
    (hshow : showway = showWaysCoverShading ∨ showway = showWaysCoverNoshading) :
    (∀ (bmp_buff : Bytes) (calls : PicCalls) (world : World), bmp_buff.length = 3 * (w * h) →
      calls.Provides w h bmp_buff →
      (showThePic calls x y animationModeWindowshades showway bg world =
          showThePic calls x y animationModeNone showway bg world ↔
        ∀ r, 0 ≤ r → r < h → r ∉ shadeRows h → ∀ c, 0 ≤ c → c < w →
          Draws showway bg (pictureAt bmp_buff w h r c) →
          world.lcd ((r + y) * 800 + c + x) = pictureAt bmp_buff w h r c)) ∧
    ((∀ (bmp_buff : Bytes) (calls : PicCalls) (world : World), bmp_buff.length = 3 * (w * h) →
      calls.Provides w h bmp_buff →
      showThePic calls x y animationModeWindowshades showway bg world =
        showThePic calls x y animationModeNone showway bg world) ↔ 15 ∣ h) := by
  have hiff := fun (bmp_buff : Bytes) (calls : PicCalls) (world : World)
      (hlen : bmp_buff.length = 3 * (w * h)) (hcalls : calls.Provides w h bmp_buff) ↦
    windowshades_eq_drawNone_iff showway bg hlen.ge (by omega) hx hy hxw hyh hcalls world
  refine ⟨hiff, fun hall ↦ ?_, fun hdvd bmp_buff calls world hlen hcalls ↦ ?_⟩
  · by_contra hdvd
    obtain ⟨bmp_buff, calls, world, hlen, hcalls, hne⟩ :=
      exists_windowshades_ne bg hw hh hx hy hxw hyh hshow hdvd
    exact hne (hall bmp_buff calls world hlen hcalls)
  · refine (hiff bmp_buff calls world hlen hcalls).mpr fun r h0 hr hnot ↦ ?_
    exact absurd (mem_shadeRows_of_dvd hdvd (by rw [maxHeight]; omega) ⟨h0, hr⟩) hnot

theorem windowshades_paint_fifteen_rows :
    showThePic (picCalls 2 15 90 (List.replicate 90 7) 144) 0 0 animationModeWindowshades
        showWaysCoverShading 0 ⟨fun _ ↦ 0, 0, 0, 0, 0⟩ =
      showThePic (picCalls 2 15 90 (List.replicate 90 7) 144) 0 0 animationModeNone
        showWaysCoverShading 0 ⟨fun _ ↦ 0, 0, 0, 0, 0⟩ :=
  (windowshades_paint_picture_iff (w := 2) (h := 15) (by omega) (by omega) le_rfl le_rfl
    (by omega) (by omega) (Or.inl rfl)).2.mpr (by omega) (List.replicate 90 7) _ _ (by simp)
    (provides_picCalls 2 15 90 (List.replicate 90 7) 144)

/-- The shades draw nothing of a picture with one row. -/
theorem windowshades_skip_single_row :
    (picCalls 1 1 3 [1, 1, 1] 57).Provides 1 1 [1, 1, 1] ∧
    showThePic (picCalls 1 1 3 [1, 1, 1] 57) 0 0 animationModeWindowshades showWaysCoverShading 0
        ⟨fun _ ↦ 0, 0, 0, 0, 0⟩ ≠
      showThePic (picCalls 1 1 3 [1, 1, 1] 57) 0 0 animationModeNone showWaysCoverShading 0
        ⟨fun _ ↦ 0, 0, 0, 0, 0⟩ := by
  have hcalls := provides_picCalls 1 1 3 [1, 1, 1] 57
  refine ⟨hcalls, fun heq ↦ ?_⟩
  have hshown := (windowshades_eq_drawNone_iff _ _ (by decide) (by decide) le_rfl le_rfl (by decide)
    (by decide) hcalls _).mp heq 0 le_rfl (by decide)
    (last_notMem_shadeRows (h := 1) (by decide) (by omega)) 0 le_rfl (by decide) (Or.inl rfl)
  exact absurd hshown (by decide)

end EmbeddedSystem.Picture
