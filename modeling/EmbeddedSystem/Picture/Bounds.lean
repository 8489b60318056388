import EmbeddedSystem.Picture.Fly
import EmbeddedSystem.Picture.Shades

/-!
# Which headers are safe to draw

The modes draw with the header's width and height or with the constants 800 and
480, from a buffer sized by a third header field and filled from a file of some
length.  Whether each access is in range never depends on what was drawn
before, so the loops can be read off as one condition on these numbers.  Where an
index does not fit, it wraps; but the indices of a block of consecutive rows follow
each other closely, and so its first and its last one decide.
-/

namespace EmbeddedSystem.Picture

open CountedLoop

/-- The rows `top`, ..., `top + n - 1` are read within `avail` bytes and drawn on the
screen: the lowest byte is the first of the bottom row, the lowest word the first of
the top row. -/
def RowsInBounds (w h avail x y showway top n : ℤ) : Prop :=
  (0 ≤ int (3 * (w * (h - top - n))) ∧
    int (3 * (w * (h - top - n))) + 3 * (w * n) ≤ min avail (2 ^ 31)) ∧
  (Covers showway → 0 ≤ int ((top + y) * 800 + x) ∧
    int ((top + y) * 800 + x) + 800 * (n - 1) + (w - 1) < pixel)

def InBounds (w h avail x y animation showway : ℤ) : Prop :=
  (animation = animationModeNone → 0 < w → 0 < h →
    RowsInBounds w h avail x y showway 0 h) ∧
  (animation = animationModeWindowshades → 0 < w → 15 ≤ h →
    ∀ p ∈ up pages, RowsInBounds w h avail x y showway (line h p 0) (h / 15)) ∧
  (animation ∈ [animationModeFlyleft, animationModeFlyright, animationModeFlyup,
      animationModeFlydown] → 3 * pixel ≤ avail)

instance (w h avail x y showway top n : ℤ) :
    Decidable (RowsInBounds w h avail x y showway top n) :=
  inferInstanceAs (Decidable (_ ∧ _))

instance (w h avail x y animation showway : ℤ) :
    Decidable (InBounds w h avail x y animation showway) :=
  inferInstanceAs (Decidable (_ ∧ _))

/-! ## The rows of the picture -/

section Rows

variable {bmp_buff : Bytes} {w h x y showway : ℤ} {bg : UInt32}

/-- The color of a filled position. -/
def colorOf (bmp_buff : Bytes) (q : ℤ) : UInt32 := colorFrom bmp_buff (int (q * 3)).toNat

theorem isSome_loop_drawRow {rs : List ℤ} {lcd : Framebuffer} :
    (loop rs (drawRow bmp_buff w h x y showway bg) lcd).isSome ↔
      ∀ r ∈ rs, ∀ j, 0 ≤ j ∧ j < w → Filled bmp_buff (w * (h - 1 - r) + j) ∧
        (Draws showway bg (colorOf bmp_buff (w * (h - 1 - r) + j)) →
          OnScreen (int ((r + y) * 800 + j + x))) := by
  have hword : ∀ r j lcd, (do
      let color ← tmpcolor bmp_buff (w * (h - 1 - r) + j)
      cover showway bg (int ((r + y) * 800 + j + x)) color lcd).isSome ↔
      Filled bmp_buff (w * (h - 1 - r) + j) ∧
        (Draws showway bg (colorOf bmp_buff (w * (h - 1 - r) + j)) →
          OnScreen (int ((r + y) * 800 + j + x))) := by
    intro r j lcd
    by_cases hfilled : Filled bmp_buff (w * (h - 1 - r) + j)
    · rw [tmpcolor_of_filled hfilled]
      simp only [hfilled, true_and]
      exact isSome_cover
    · simp [tmpcolor_of_not_filled hfilled, hfilled]
  have hrow : ∀ r ∈ rs, ∀ lcd, (drawRow bmp_buff w h x y showway bg r lcd).isSome ↔
      ∀ j ∈ up w, Filled bmp_buff (w * (h - 1 - r) + j) ∧
        (Draws showway bg (colorOf bmp_buff (w * (h - 1 - r) + j)) →
          OnScreen (int ((r + y) * 800 + j + x))) :=
    fun r _ lcd ↦ isSome_loop_iff (fun j _ lcd ↦ hword r j lcd) lcd
  rw [isSome_loop_iff hrow]
  simp only [mem_up]

/-- The bytes of a block follow each other in steps of three. -/
theorem filled_block_iff {top n : ℤ} (hw : 0 < w) (hn : 0 < n) :
    (∀ r, top ≤ r → r < top + n → ∀ j, 0 ≤ j ∧ j < w → Filled bmp_buff (w * (h - 1 - r) + j)) ↔
      0 ≤ int (3 * (w * (h - top - n))) ∧
        int (3 * (w * (h - top - n))) + 3 * (w * n) ≤ min (bmp_buff.length : ℤ) (2 ^ 31) := by
  have hpos : 0 < w * n := Int.mul_pos hw hn
  have hwalk := Wraparound.forall_bmod_iff (m := 2 ^ 32) (z := 3 * (w * (h - top - n))) (d := 3)
    (n := w * n - 1) (c := min (bmp_buff.length : ℤ) (2 ^ 31) - 2) (by omega) (by omega)
    (by omega) (by omega)
  have hblock : (∀ r, top ≤ r → r < top + n → ∀ j, 0 ≤ j ∧ j < w →
      Filled bmp_buff (w * (h - 1 - r) + j)) ↔
      ∀ k, 0 ≤ k → k ≤ w * n - 1 → 0 ≤ (3 * (w * (h - top - n)) + 3 * k).bmod (2 ^ 32) ∧
        (3 * (w * (h - top - n)) + 3 * k).bmod (2 ^ 32) <
          min (bmp_buff.length : ℤ) (2 ^ 31) - 2 := by
    constructor
    · intro hfilled k h0 hk
      have hdiv := Int.emod_add_mul_ediv k w
      have hrow : k / w < n := Int.ediv_lt_of_lt_mul hw (by rw [Int.mul_comm]; omega)
      have hfirst : 0 ≤ k / w := Int.ediv_nonneg h0 hw.le
      have hposition := hfilled (top + n - 1 - k / w) (by omega) (by omega) (k % w)
        ⟨Int.emod_nonneg k hw.ne', Int.emod_lt_of_pos k hw⟩
      rw [Filled, show (w * (h - 1 - (top + n - 1 - k / w)) + k % w) * 3 =
        3 * (w * (h - top - n)) + 3 * (k % w + w * (k / w)) by ring, hdiv, int] at hposition
      omega
    · intro hwalk r htop hbottom j hj
      have hlow : 0 ≤ w * (top + n - 1 - r) := Int.mul_nonneg hw.le (by omega)
      have hhigh : w * (top + n - 1 - r) ≤ w * (n - 1) :=
        Int.mul_le_mul_of_nonneg_left (by omega) hw.le
      rw [show w * (n - 1) = w * n - w by ring] at hhigh
      have hposition := hwalk (w * (top + n - 1 - r) + j) (by omega) (by omega)
      rw [show 3 * (w * (h - top - n)) + 3 * (w * (top + n - 1 - r) + j) =
        (w * (h - 1 - r) + j) * 3 by ring] at hposition
      rw [Filled, int]
      omega
  rw [hblock, hwalk, int]
  omega

/-- The words of a block lie in columns one apart and rows 800 apart. -/
theorem onScreen_block_iff {top n : ℤ} (hw : 0 < w) (hn : 0 < n) :
    (∀ r, top ≤ r → r < top + n → ∀ j, 0 ≤ j ∧ j < w →
        OnScreen (int ((r + y) * 800 + j + x))) ↔
      0 ≤ int ((top + y) * 800 + x) ∧
        int ((top + y) * 800 + x) + 800 * (n - 1) + (w - 1) < pixel := by
  have hgrid := Wraparound.forall_bmod_grid_iff (m := 2 ^ 32) (z := (top + y) * 800 + x)
    (d := 800) (e := 1) (n := n - 1) (k := w - 1) (c := pixel) (by omega) (by omega)
    (by omega) (by omega) (by omega) (by omega) (by decide)
  rw [Int.one_mul] at hgrid
  refine Iff.trans ⟨fun hscreen a b ha han hb hbk ↦ ?_, fun hwords r htop hbottom j hj ↦ ?_⟩ hgrid
  · have hword := hscreen (top + a) (by omega) (by omega) b (by omega)
    rwa [OnScreen, int, show (top + a + y) * 800 + b + x =
      (top + y) * 800 + x + 800 * a + 1 * b by ring] at hword
  · have hword := hwords (r - top) j (by omega) (by omega) (by omega) (by omega)
    rwa [OnScreen, int, show (r + y) * 800 + j + x =
      (top + y) * 800 + x + 800 * (r - top) + 1 * j by ring]

theorem rowsInBounds_iff {top n : ℤ} (hw : 0 < w) (hn : 0 < n) :
    RowsInBounds w h bmp_buff.length x y showway top n ↔
      ∀ r, top ≤ r → r < top + n → ∀ j, 0 ≤ j ∧ j < w → Filled bmp_buff (w * (h - 1 - r) + j) ∧
        (Covers showway → OnScreen (int ((r + y) * 800 + j + x))) := by
  rw [RowsInBounds, ← filled_block_iff hw hn, ← onScreen_block_iff hw hn]
  constructor
  · rintro ⟨hbytes, hwords⟩ r htop hbottom j hj
    exact ⟨hbytes r htop hbottom j hj, fun hcovers ↦ hwords hcovers r htop hbottom j hj⟩
  · intro hall
    exact ⟨fun r htop hbottom j hj ↦ (hall r htop hbottom j hj).1,
      fun hcovers r htop hbottom j hj ↦ (hall r htop hbottom j hj).2 hcovers⟩

/-- Drawing goes through when each row is in a block that is in bounds. -/
theorem isSome_of_rowsInBounds {rs : List ℤ}
    (hrs : ∀ r ∈ rs, 0 < w → ∃ top n, (top ≤ r ∧ r < top + n) ∧
      RowsInBounds w h bmp_buff.length x y showway top n)
    (lcd : Framebuffer) : (loop rs (drawRow bmp_buff w h x y showway bg) lcd).isSome := by
  refine isSome_loop_drawRow.mpr fun r hr j hj ↦ ?_
  obtain ⟨top, n, hrow, hin⟩ := hrs r hr (by omega)
  have hword := (rowsInBounds_iff (by omega) (by omega)).mp hin r hrow.1 hrow.2 j hj
  exact hword.imp_right fun hscreen hdraws ↦ hscreen hdraws.covers

/-- A buffer of one color other than the background shows every overrun. -/
theorem rowsInBounds_of_isSome {rs : List ℤ} {top n : ℤ} {color : UInt32} (hcolor : color ≠ bg)
    (hsingle : ∀ k : ℕ, k + 2 < bmp_buff.length → colorFrom bmp_buff k = color)
    (hw : 0 < w) (hn : 0 < n) (hblock : ∀ r, top ≤ r → r < top + n → r ∈ rs) {lcd : Framebuffer}
    (hsome : (loop rs (drawRow bmp_buff w h x y showway bg) lcd).isSome) :
    RowsInBounds w h bmp_buff.length x y showway top n := by
  refine (rowsInBounds_iff hw hn).mpr fun r htop hbottom j hj ↦ ?_
  obtain ⟨hfilled, hscreen⟩ := isSome_loop_drawRow.mp hsome r (hblock r htop hbottom) j hj
  refine ⟨hfilled, fun hcovers ↦ hscreen ?_⟩
  rw [colorOf, hsingle _ (by have hlast := hfilled.2; have hfirst := hfilled.1; omega)]
  exact hcovers.imp id fun hs ↦ ⟨hs, hcolor⟩

end Rows

/-! ## The fly modes -/

theorem isSome_flyPass {bmp_buff : Bytes} {is js : List ℤ} {inside : ℤ → Prop}
    [DecidablePred inside] {dst src bmp : ℤ → ℤ → ℤ} {lcd : Framebuffer} :
    (flyPass bmp_buff is js inside dst src bmp lcd).isSome ↔
      ∀ i ∈ is, ∀ j ∈ js,
        (if inside i then OnScreen (src i j) else Filled bmp_buff (bmp i j)) ∧
          OnScreen (dst i j) := by
  refine isSome_loop_iff (fun i _ lcd ↦ isSome_loop_iff (fun j _ lcd ↦ ?_) lcd) lcd
  by_cases hin : inside i
  · simp only [hin, if_true]
    by_cases hsrc : OnScreen (src i j)
    · simp [hsrc, peek_of_onScreen hsrc, isSome_poke]
    · simp [hsrc, peek, show ¬ (0 ≤ src i j ∧ src i j < pixel) from hsrc]
  · simp only [hin, if_false]
    by_cases hbmp : Filled bmp_buff (bmp i j)
    · simp [hbmp, tmpcolor_of_filled hbmp, isSome_poke]
    · simp [hbmp, tmpcolor_of_not_filled hbmp]

theorem length_of_fly {bmp_buff : Bytes} {times : List ℤ} {is js : List ℤ} {inside : ℤ → Prop}
    [DecidablePred inside] {dst src : ℤ → ℤ → ℤ} {bmp : ℤ → ℤ → ℤ → ℤ} {lcd : Framebuffer}
    (hsome : (loop times (fun t ↦ flyPass bmp_buff is js inside dst src (bmp t)) lcd).isSome)
    {t i j : ℤ} (ht : t ∈ times) (hi : i ∈ is) (hj : j ∈ js) (hout : ¬ inside i)
    (hlast : bmp t i j = pixel - 1) : 3 * pixel ≤ bmp_buff.length := by
  have hpass := (isSome_loop_iff (fun t _ lcd ↦ isSome_flyPass) lcd).mp hsome t ht i hi j hj
  rw [if_neg hout, hlast] at hpass
  obtain ⟨⟨_, hlt⟩, _⟩ := hpass
  rw [show int ((pixel - 1) * 3) = 3 * pixel - 3 by decide] at hlt
  omega

section Fly

variable {bmp_buff : Bytes} {lcd : Framebuffer}

theorem full_of_pixel (hlen : 3 * pixel ≤ bmp_buff.length) : 1152000 ≤ bmp_buff.length := by
  simp only [pixel] at hlen
  omega

theorem isSome_flyleft : (flyleft bmp_buff lcd).isSome ↔ 3 * pixel ≤ bmp_buff.length := by
  constructor
  · intro hsome
    exact length_of_fly (t := 19) (i := 799) (j := 0) hsome (by simp [moveLength]) (by simp)
      (by simp) (by decide) (by decide)
  · intro hlen
    simp [flyleft_eq_some (full_of_pixel hlen)]

theorem isSome_flyright : (flyright bmp_buff lcd).isSome ↔ 3 * pixel ≤ bmp_buff.length := by
  constructor
  · intro hsome
    exact length_of_fly (t := 0) (i := 39) (j := 0) hsome (by simp [moveLength]) (by simp)
      (by simp) (by decide) (by decide)
  · intro hlen
    simp [flyright_eq_some (full_of_pixel hlen)]

theorem isSome_flyup : (flyup bmp_buff lcd).isSome ↔ 3 * pixel ≤ bmp_buff.length := by
  constructor
  · intro hsome
    exact length_of_fly (t := 0) (i := 440) (j := 799) hsome (by simp [moveLength]) (by simp)
      (by simp) (by decide) (by decide)
  · intro hlen
    simp [flyup_eq_some (full_of_pixel hlen)]

theorem isSome_flydown : (flydown bmp_buff lcd).isSome ↔ 3 * pixel ≤ bmp_buff.length := by
  constructor
  · intro hsome
    exact length_of_fly (t := 11) (i := 0) (j := 799) hsome (by simp [moveLength]) (by simp)
      (by simp) (by decide) (by decide)
  · intro hlen
    simp [flydown_eq_some (full_of_pixel hlen)]

end Fly

/-! ## All modes -/

section Animate

variable {bmp_buff : Bytes} {w h x y animation showway : ℤ} {bg : UInt32}

/-- The rows of the schedule are the blocks of its slats. -/
theorem mem_shadeRows_iff_slat {h r : ℤ} :
    r ∈ shadeRows h ↔ 15 ≤ h ∧ ∃ p ∈ up pages, line h p 0 ≤ r ∧ r < line h p 0 + h / 15 := by
  rw [mem_shadeRows]
  constructor
  · rintro ⟨p, i, hp, hi, rfl⟩
    have hh : 15 ≤ h := by
      by_contra hsmall
      by_cases hneg : h < 0
      · have hquotient : 0 ≤ (-h).tdiv 15 := Int.tdiv_nonneg (by omega) (by decide)
        rw [Int.neg_tdiv] at hquotient
        omega
      · rw [Int.tdiv_eq_ediv_of_nonneg (by omega)] at hi
        omega
    rw [Int.tdiv_eq_ediv_of_nonneg (by omega)] at hi
    refine ⟨hh, p, mem_up.mpr hp, ?_⟩
    simp only [line]
    omega
  · rintro ⟨hh, p, hp, htop, hbottom⟩
    refine ⟨p, r - line h p 0, mem_up.mp hp, ?_, ?_⟩
    · rw [Int.tdiv_eq_ediv_of_nonneg (by omega)]
      omega
    · simp only [line]
      omega

theorem animate_cases (bmp_buff : Bytes) (w h x y animation showway : ℤ) (bg : UInt32)
    (lcd : Framebuffer) :
    (animation = animationModeNone ∧ animate bmp_buff w h x y showway bg animation lcd =
      loop (up h) (drawRow bmp_buff w h x y showway bg) lcd) ∨
    (animation = animationModeWindowshades ∧
      animate bmp_buff w h x y showway bg animation lcd =
        loop (shadeRows h) (drawRow bmp_buff w h x y showway bg) lcd) ∨
    (animation ∈ [animationModeFlyleft, animationModeFlyright, animationModeFlyup,
        animationModeFlydown] ∧
      ((animate bmp_buff w h x y showway bg animation lcd).isSome ↔
        3 * pixel ≤ bmp_buff.length)) ∨
    ((animation < 0 ∨ 5 < animation) ∧
      animate bmp_buff w h x y showway bg animation lcd = some lcd) := by
  by_cases hother : animation < 0 ∨ 5 < animation
  · exact Or.inr (Or.inr (Or.inr ⟨hother, animate_other hother lcd⟩))
  have hmode : animation = animationModeNone ∨ animation = animationModeFlyleft ∨
      animation = animationModeFlyright ∨ animation = animationModeFlyup ∨
      animation = animationModeFlydown ∨ animation = animationModeWindowshades := by
    simp only [animationModeNone, animationModeFlyleft, animationModeFlyright, animationModeFlyup,
      animationModeFlydown, animationModeWindowshades]
    omega
  rcases hmode with rfl | rfl | rfl | rfl | rfl | rfl
  · exact Or.inl ⟨rfl, animate_none lcd⟩
  · exact Or.inr (Or.inr (Or.inl ⟨by simp, by rw [animate_flyleft, isSome_flyleft]⟩))
  · exact Or.inr (Or.inr (Or.inl ⟨by simp, by rw [animate_flyright, isSome_flyright]⟩))
  · exact Or.inr (Or.inr (Or.inl ⟨by simp, by rw [animate_flyup, isSome_flyup]⟩))
  · exact Or.inr (Or.inr (Or.inl ⟨by simp, by rw [animate_flydown, isSome_flydown]⟩))
  · exact Or.inr (Or.inl ⟨rfl, (animate_windowshades lcd).trans (windowshades_eq_loop lcd)⟩)

theorem isSome_animate (hin : InBounds w h bmp_buff.length x y animation showway)
    (lcd : Framebuffer) : (animate bmp_buff w h x y showway bg animation lcd).isSome := by
  obtain ⟨hnone, hshades, hfly⟩ := hin
  rcases animate_cases bmp_buff w h x y animation showway bg lcd with
    ⟨rfl, heq⟩ | ⟨rfl, heq⟩ | ⟨hmode, hiff⟩ | ⟨_, heq⟩
  · rw [heq]
    refine isSome_of_rowsInBounds (fun r hr hw ↦ ?_) lcd
    have hr := mem_up.mp hr
    exact ⟨0, h, by omega, hnone rfl hw (by omega)⟩
  · rw [heq]
    refine isSome_of_rowsInBounds (fun r hr hw ↦ ?_) lcd
    obtain ⟨hh, p, hp, hrow⟩ := mem_shadeRows_iff_slat.mp hr
    exact ⟨line h p 0, h / 15, hrow, hshades rfl hw hh p hp⟩
  · exact hiff.mpr (hfly hmode)
  · rw [heq]
    rfl

theorem inBounds_of_isSome_animate {color : UInt32} (hcolor : color ≠ bg)
    (hsingle : ∀ k : ℕ, k + 2 < bmp_buff.length → colorFrom bmp_buff k = color)
    {lcd : Framebuffer} (hsome : (animate bmp_buff w h x y showway bg animation lcd).isSome) :
    InBounds w h bmp_buff.length x y animation showway := by
  refine ⟨?_, ?_, ?_⟩
  · rintro rfl hw hh
    rw [animate_none] at hsome
    refine rowsInBounds_of_isSome hcolor hsingle hw hh (fun r htop hbottom ↦ ?_) hsome
    exact mem_up.mpr (by omega)
  · rintro rfl hw hh p hp
    rw [animate_windowshades, windowshades_eq_loop] at hsome
    refine rowsInBounds_of_isSome hcolor hsingle hw (by omega) (fun r htop hbottom ↦ ?_) hsome
    exact mem_shadeRows_iff_slat.mpr ⟨hh, p, hp, htop, hbottom⟩
  · intro hmode
    simp only [List.mem_cons, List.not_mem_nil, or_false] at hmode
    rcases hmode with rfl | rfl | rfl | rfl
    · exact isSome_flyleft.mp (animate_flyleft lcd ▸ hsome)
    · exact isSome_flyright.mp (animate_flyright lcd ▸ hsome)
    · exact isSome_flyup.mp (animate_flyup lcd ▸ hsome)
    · exact isSome_flydown.mp (animate_flydown lcd ▸ hsome)

end Animate

/-- The file that the call opens, if it opens one, has this length and shows
these header fields. -/
def PicCalls.Shows (calls : PicCalls) (w h : Int32) (size : UInt32) (len : ℕ) : Prop :=
  ∀ file, calls.bmp = some file → file.length = len ∧
    (readInfoHead file calls.stack).biWidth = w ∧
    (readInfoHead file calls.stack).biHeight = h ∧
    (readInfoHead file calls.stack).biSizeImage = size

theorem picCalls_shows (w h : Int32) (size : UInt32) (pixels : Bytes) {len : ℕ}
    (hlen : len ≤ 54 + pixels.length) : (picCalls w h size pixels len).Shows w h size len := by
  rintro file ⟨⟩
  simp only [picCalls, readInfoHead_take, and_self, and_true, List.length_take, List.length_append,
    length_headerBytes]
  omega

/-- Every call with a header and a file length stays within the buffer and the
screen exactly when these numbers are in bounds. -/
theorem showThePic_in_range_iff (w h : Int32) (size : UInt32) (len : ℕ)
    (x y animation showway : ℤ) (bg : UInt32) :
    (∀ (calls : PicCalls) (world : World), calls.Shows w h size len →
      (showThePic calls x y animation showway bg world).isSome) ↔
    InBounds w.toInt h.toInt (min size.toNat (len - 54) : ℕ) x y animation showway := by
  constructor
  · intro hall
    obtain ⟨b, color, hcolor, hsingle⟩ := exists_single_color bg
    have hshows := picCalls_shows w h size (List.replicate len b) (show len ≤ _ by simp)
    have hsome := hall _ ⟨fun _ ↦ 0, 0, 0, 0, 0⟩ hshows
    have hprovides := provides_picCalls w h size (List.replicate len b) len
    rw [showThePic_of_provides hprovides, Option.isSome_map, List.take_replicate,
      List.take_replicate, Nat.min_eq_left (Nat.sub_le len 54)] at hsome
    have hin := inBounds_of_isSome_animate hcolor
      (fun q hq ↦ hsingle _ q (by simpa using hq)) hsome
    rwa [List.length_replicate] at hin
  · intro hin calls world hshows
    cases hbmp : calls.bmp with
    | none => exact isSome_showThePic_of_not_opened (Or.inl hbmp) ..
    | some file =>
        by_cases hopened : calls.lcd = false ∨ calls.read = false
        · exact isSome_showThePic_of_not_opened (Or.inr hopened) ..
        push Not at hopened
        obtain ⟨rfl, rfl, rfl, rfl⟩ := hshows file hbmp
        have hprovides : calls.Provides _ _ _ := ⟨by simpa using hopened.1,
          by simpa using hopened.2, file, hbmp, rfl, rfl, rfl⟩
        rw [showThePic_of_provides hprovides, Option.isSome_map]
        apply isSome_animate
        rwa [List.length_take, List.length_drop]

/-- A button of 60 x 60 pixels can be drawn at the origin, but not flown in. -/
theorem showThePic_flies_past_a_button :
    (picCalls 60 60 10800 (List.replicate 10800 0) 10854).Shows 60 60 10800 10854 ∧
    showThePic (picCalls 60 60 10800 (List.replicate 10800 0) 10854) 0 0 animationModeFlyleft
      showWaysCoverShading 0 ⟨fun _ ↦ 0, 0, 0, 0, 0⟩ = none := by
  refine ⟨picCalls_shows 60 60 10800 _ (by rw [List.length_replicate]), ?_⟩
  rw [showThePic_of_provides (provides_picCalls 60 60 10800 (List.replicate 10800 0) 10854),
    animate_flyleft, Option.map_eq_none_iff, ← Option.not_isSome_iff_eq_none, isSome_flyleft,
    List.length_take, List.length_take, List.length_replicate]
  decide

end EmbeddedSystem.Picture
