import EmbeddedSystem.Foundation.Wraparound
import EmbeddedSystem.Picture.ShowThePic
import Mathlib.Algebra.Group.Int.Defs
import Mathlib.Algebra.Group.Nat.Defs

/-!
# What one access needs and does

The checked accesses of `showThePic` against their total counterparts: when an
access succeeds, and which word it then assigns.  The modes are afterwards
reasoned about through these lemmas only.
-/

namespace EmbeddedSystem.Picture

open CountedLoop

def OnScreen (k : ℤ) : Prop := 0 ≤ k ∧ k < pixel

instance (k : ℤ) : Decidable (OnScreen k) := inferInstanceAs (Decidable (_ ∧ _))

theorem peek_of_onScreen {k : ℤ} (hk : OnScreen k) (lcd : Framebuffer) :
    peek lcd k = some (lcd k) := if_pos hk

theorem poke_of_onScreen {k : ℤ} (hk : OnScreen k) (color : UInt32) (lcd : Framebuffer) :
    poke k color lcd = some (Function.update lcd k color) := if_pos hk

theorem isSome_poke {k : ℤ} {color : UInt32} {lcd : Framebuffer} :
    (poke k color lcd).isSome ↔ OnScreen k := by
  by_cases hk : OnScreen k
  · simp [poke_of_onScreen hk, hk]
  · simp only [hk, iff_false]
    simp [poke, show ¬ (0 ≤ k ∧ k < pixel) from hk]

theorem int_eq_self {z : ℤ} (hlow : -2 ^ 31 ≤ z) (hhigh : z < 2 ^ 31) : int z = z :=
  Int.bmod_eq_of_le (by omega) (by omega)

theorem int_bounds (z : ℤ) : -2 ^ 31 ≤ int z ∧ int z < 2 ^ 31 := by
  simp only [int, Int.bmod]
  omega

/-- The color of the three bytes from `k` on, zero bytes beyond the end. -/
def colorFrom (bmp_buff : Bytes) (k : ℕ) : UInt32 :=
  (bmp_buff.getD k 0).toUInt32 <<< 0 ||| (bmp_buff.getD (k + 1) 0).toUInt32 <<< 8 |||
    (bmp_buff.getD (k + 2) 0).toUInt32 <<< 16

/-- The color at a position of the pixel buffer. -/
def colorAt (bmp_buff : Bytes) (q : ℕ) : UInt32 := colorFrom bmp_buff (q * 3)

/-- The pixel in column `c` of row `r`, counted from the top, as the modes look
it up: the rows are stored bottom first and without padding. -/
def pictureAt (bmp_buff : Bytes) (pixLength pixHeight r c : ℤ) : UInt32 :=
  colorAt bmp_buff (pixLength * (pixHeight - 1 - r) + c).toNat

/-- The three bytes of position `q` are in the buffer, and their indices are not
negative. -/
def Filled (bmp_buff : Bytes) (q : ℤ) : Prop :=
  0 ≤ int (q * 3) ∧ int (q * 3) + 2 < min (bmp_buff.length : ℤ) (2 ^ 31)

theorem bmpByte_eq {bmp_buff : Bytes} {k : ℤ} (h0 : 0 ≤ k) (hk : k < bmp_buff.length) :
    bmpByte bmp_buff k = some (bmp_buff.getD k.toNat 0) := by
  have hlt : k.toNat < bmp_buff.length := by omega
  simp [bmpByte, h0, hlt]

theorem bmpByte_eq_none {bmp_buff : Bytes} {k : ℤ} (hk : ¬ (0 ≤ k ∧ k < bmp_buff.length)) :
    bmpByte bmp_buff k = none := by
  by_cases h0 : 0 ≤ k
  · have hge : bmp_buff.length ≤ k.toNat := by omega
    simp [bmpByte, hge]
  · simp [bmpByte, h0]

/-- The index of a later byte of a position, unless it wraps to a negative one. -/
theorem int_add_eq {q d : ℤ} (h0 : 0 ≤ int (q * 3)) (hd : 0 ≤ d ∧ d ≤ 2)
    (hnext : 0 ≤ int (q * 3 + d)) : int (q * 3 + d) = int (q * 3) + d :=
  Wraparound.bmod_add_of_nonneg h0 hd.1 (by omega) hnext

theorem tmpcolor_of_filled {bmp_buff : Bytes} {q : ℤ} (hq : Filled bmp_buff q) :
    tmpcolor bmp_buff q = some (colorFrom bmp_buff (int (q * 3)).toNat) := by
  obtain ⟨h0, hlen⟩ := hq
  have h1 : int (q * 3 + 1) = int (q * 3) + 1 :=
    Wraparound.bmod_add_of_fits (by unfold int at *; omega) (by unfold int at *; omega)
  have h2 : int (q * 3 + 2) = int (q * 3) + 2 :=
    Wraparound.bmod_add_of_fits (by unfold int at *; omega) (by unfold int at *; omega)
  have hnat1 : (int (q * 3) + 1).toNat = (int (q * 3)).toNat + 1 := by omega
  have hnat2 : (int (q * 3) + 2).toNat = (int (q * 3)).toNat + 2 := by omega
  rw [tmpcolor, h1, h2, bmpByte_eq (by omega) (by omega), bmpByte_eq (by omega) (by omega),
    bmpByte_eq (by omega) (by omega), hnat1, hnat2]
  rfl

theorem tmpcolor_of_not_filled {bmp_buff : Bytes} {q : ℤ} (hq : ¬ Filled bmp_buff q) :
    tmpcolor bmp_buff q = none := by
  by_cases h0 : 0 ≤ int (q * 3)
  · have hlast : bmpByte bmp_buff (int (q * 3 + 2)) = none := by
      apply bmpByte_eq_none
      rintro ⟨hpos, hlt⟩
      rw [int_add_eq h0 (by omega) hpos] at hlt
      have hhigh := (int_bounds (q * 3 + 2)).2
      rw [int_add_eq h0 (by omega) hpos] at hhigh
      exact hq ⟨h0, by omega⟩
    rw [tmpcolor, hlast]
    cases bmpByte bmp_buff (int (q * 3)) <;> cases bmpByte bmp_buff (int (q * 3 + 1)) <;> rfl
  · have hfirst : bmpByte bmp_buff (int (q * 3)) = none := by
      apply bmpByte_eq_none
      omega
    rw [tmpcolor, hfirst]
    rfl

/-- Position `q` is in the buffer, and its indices fit. -/
def Held (bmp_buff : Bytes) (q : ℤ) : Prop :=
  0 ≤ q ∧ q * 3 + 2 < min (bmp_buff.length : ℤ) (2 ^ 31)

theorem tmpcolor_of_held {bmp_buff : Bytes} {q : ℤ} (hq : Held bmp_buff q) :
    tmpcolor bmp_buff q = some (colorAt bmp_buff q.toNat) := by
  obtain ⟨h0, hlen⟩ := hq
  have hexact : int (q * 3) = q * 3 := int_eq_self (by omega) (by omega)
  have hfilled : Filled bmp_buff q := by
    rw [Filled, hexact]
    omega
  rw [tmpcolor_of_filled hfilled, hexact, colorAt, show (q * 3).toNat = q.toNat * 3 by omega]

/-- The show way assigns this color to its word. -/
def Draws (showway : ℤ) (backgroundcolor color : UInt32) : Prop :=
  showway = showWaysCoverShading ∨ showway = showWaysCoverNoshading ∧ color ≠ backgroundcolor

instance (showway : ℤ) (bg color : UInt32) : Decidable (Draws showway bg color) :=
  inferInstanceAs (Decidable (_ ∨ _))

def Covers (showway : ℤ) : Prop :=
  showway = showWaysCoverShading ∨ showway = showWaysCoverNoshading

instance (showway : ℤ) : Decidable (Covers showway) := inferInstanceAs (Decidable (_ ∨ _))

theorem Draws.covers {showway : ℤ} {bg color : UInt32} (h : Draws showway bg color) :
    Covers showway := h.imp id And.left

theorem cover_eq_ite (showway : ℤ) (bg : UInt32) (k : ℤ) (color : UInt32) (lcd : Framebuffer) :
    cover showway bg k color lcd =
      if Draws showway bg color then poke k color lcd else some lcd := by
  have hne : showWaysCoverNoshading ≠ showWaysCoverShading := by decide
  by_cases h1 : showway = showWaysCoverShading
  · simp [cover, Draws, h1]
  · by_cases h2 : showway = showWaysCoverNoshading
    · simp [cover, Draws, h2, hne]
    · simp [cover, Draws, h1, h2]

theorem isSome_cover {showway : ℤ} {bg : UInt32} {k : ℤ} {color : UInt32} {lcd : Framebuffer} :
    (cover showway bg k color lcd).isSome ↔ (Draws showway bg color → OnScreen k) := by
  rw [cover_eq_ite]
  by_cases h : Draws showway bg color
  · simp [h, isSome_poke]
  · simp [h]

theorem cover_of_onScreen {k : ℤ} (hk : OnScreen k) (showway : ℤ) (bg color : UInt32)
    (lcd : Framebuffer) :
    cover showway bg k color lcd =
      some (Function.update lcd k (if Draws showway bg color then color else lcd k)) := by
  rw [cover_eq_ite]
  by_cases h : Draws showway bg color
  · simp [h, poke_of_onScreen hk]
  · simp [h]

/-! ## Selecting the mode -/

section Modes

variable {bmp_buff : Bytes} {pixLength pixHeight x y showway : ℤ} {bg : UInt32}

theorem loop_select_of_notMem {σ : Type*} {blocks : List (ℤ × (σ → Option σ))} {a : ℤ}
    (h : a ∉ blocks.map Prod.fst) (s : σ) :
    loop blocks (fun b s ↦ if a = b.1 then b.2 s else some s) s = some s := by
  induction blocks with
  | nil => rfl
  | cons b blocks ih =>
      simp only [List.map_cons, List.mem_cons, not_or] at h
      rw [loop_cons, if_neg h.1, Option.bind_some, ih h.2]

theorem loop_select {σ : Type*} {blocks : List (ℤ × (σ → Option σ))}
    (hnodup : (blocks.map Prod.fst).Nodup) {a : ℤ} {f : σ → Option σ} (h : (a, f) ∈ blocks)
    (s : σ) : loop blocks (fun b s ↦ if a = b.1 then b.2 s else some s) s = f s := by
  induction blocks with
  | nil => simp at h
  | cons b blocks ih =>
      obtain ⟨hb, hrest⟩ := List.nodup_cons.mp hnodup
      rcases List.mem_cons.mp h with rfl | hmem
      · rw [loop_cons, if_pos rfl]
        change (f s).bind _ = f s
        cases f s with
        | none => rfl
        | some t => exact loop_select_of_notMem hb t
      · have hne : a ≠ b.1 := by
          rintro rfl
          exact hb (List.mem_map.mpr ⟨_, hmem, rfl⟩)
        rw [loop_cons, if_neg hne, Option.bind_some, ih hrest hmem]

theorem nodup_modeBlocks :
    ((modeBlocks bmp_buff pixLength pixHeight x y showway bg).map Prod.fst).Nodup := by
  change [animationModeNone, animationModeFlyleft, animationModeFlyright, animationModeFlyup,
    animationModeFlydown, animationModeWindowshades].Nodup
  decide

theorem animate_none (lcd : Framebuffer) :
    animate bmp_buff pixLength pixHeight x y showway bg animationModeNone lcd =
      drawNone bmp_buff pixLength pixHeight x y showway bg lcd :=
  loop_select nodup_modeBlocks (by simp [modeBlocks]) lcd

theorem animate_flyleft (lcd : Framebuffer) :
    animate bmp_buff pixLength pixHeight x y showway bg animationModeFlyleft lcd =
      flyleft bmp_buff lcd :=
  loop_select nodup_modeBlocks (by simp [modeBlocks]) lcd

theorem animate_flyright (lcd : Framebuffer) :
    animate bmp_buff pixLength pixHeight x y showway bg animationModeFlyright lcd =
      flyright bmp_buff lcd :=
  loop_select nodup_modeBlocks (by simp [modeBlocks]) lcd

theorem animate_flyup (lcd : Framebuffer) :
    animate bmp_buff pixLength pixHeight x y showway bg animationModeFlyup lcd =
      flyup bmp_buff lcd :=
  loop_select nodup_modeBlocks (by simp [modeBlocks]) lcd

theorem animate_flydown (lcd : Framebuffer) :
    animate bmp_buff pixLength pixHeight x y showway bg animationModeFlydown lcd =
      flydown bmp_buff lcd :=
  loop_select nodup_modeBlocks (by simp [modeBlocks]) lcd

theorem animate_windowshades (lcd : Framebuffer) :
    animate bmp_buff pixLength pixHeight x y showway bg animationModeWindowshades lcd =
      windowshades bmp_buff pixLength pixHeight x y showway bg lcd :=
  loop_select nodup_modeBlocks (by simp [modeBlocks]) lcd

theorem animate_other {animation : ℤ} (h : animation < 0 ∨ 5 < animation) (lcd : Framebuffer) :
    animate bmp_buff pixLength pixHeight x y showway bg animation lcd = some lcd := by
  apply loop_select_of_notMem
  simp only [modeBlocks, List.map_cons, List.map_nil, List.mem_cons, List.not_mem_nil, or_false,
    animationModeNone, animationModeFlyleft, animationModeFlyright, animationModeFlyup,
    animationModeFlydown, animationModeWindowshades]
  omega

end Modes

/-! ## A call that gets to draw -/

/-- Both devices open, the reads succeed, and this is what they give. -/
structure PicCalls.Provides (calls : PicCalls) (pixLength pixHeight : ℤ) (bmp_buff : Bytes) :
    Prop where
  lcd : calls.lcd = true
  read : calls.read = true
  file : ∃ file, calls.bmp = some file ∧
    (readInfoHead file calls.stack).biWidth.toInt = pixLength ∧
    (readInfoHead file calls.stack).biHeight.toInt = pixHeight ∧
    (file.drop 54).take (readInfoHead file calls.stack).biSizeImage.toNat = bmp_buff

theorem showThePic_of_provides {calls : PicCalls} {pixLength pixHeight : ℤ} {bmp_buff : Bytes}
    (h : calls.Provides pixLength pixHeight bmp_buff) (x y animation showway : ℤ) (bg : UInt32)
    (w : World) :
    showThePic calls x y animation showway bg w =
      (animate bmp_buff pixLength pixHeight x y showway bg animation w.lcd).map
        fun lcd ↦ (0, { w with lcd := lcd }) := by
  obtain ⟨file, hfile, rfl, rfl, rfl⟩ := h.file
  simp [showThePic, hfile, h.lcd, h.read]

theorem isSome_showThePic_of_not_opened {calls : PicCalls}
    (h : calls.bmp = none ∨ calls.lcd = false ∨ calls.read = false)
    (x y animation showway : ℤ) (bg : UInt32) (w : World) :
    (showThePic calls x y animation showway bg w).isSome := by
  cases hbmp : calls.bmp with
  | none => simp [showThePic, hbmp]
  | some file =>
      rcases h with h | h | h
      · simp [h] at hbmp
      · simp [showThePic, hbmp, h]
      · by_cases hl : calls.lcd = false <;> simp [showThePic, hbmp, h, hl]

/-- A call on the file with these header fields and pixels, cut to `len` bytes. -/
def picCalls (w h : Int32) (size : UInt32) (pixels : Bytes) (len : ℕ) : PicCalls where
  bmp := some ((headerBytes 54 w h size ++ pixels).take len)
  lcd := true
  read := true
  stack := (headerBytes 54 w h size).drop 14

theorem provides_picCalls (w h : Int32) (size : UInt32) (pixels : Bytes) (len : ℕ) :
    (picCalls w h size pixels len).Provides w.toInt h.toInt
      ((pixels.take (len - 54)).take size.toNat) := by
  refine ⟨rfl, rfl, _, rfl, ?_⟩
  have hdrop : (headerBytes 54 w h size ++ pixels).drop 54 = pixels :=
    List.drop_left' (length_headerBytes 54 w h size)
  simp only [picCalls, readInfoHead_take, List.drop_take, hdrop, and_self]

theorem exists_provides {w h : ℤ} (hw : 0 ≤ w ∧ w < 2 ^ 31) (hh : 0 ≤ h ∧ h < 2 ^ 31)
    (bmp_buff : Bytes) (hlen : bmp_buff.length < 2 ^ 32) :
    ∃ calls : PicCalls, calls.Provides w h bmp_buff := by
  refine ⟨picCalls (.ofInt w) (.ofInt h) (.ofNat bmp_buff.length) bmp_buff
    (54 + bmp_buff.length), ?_⟩
  have hprovides := provides_picCalls (.ofInt w) (.ofInt h) (.ofNat bmp_buff.length) bmp_buff
    (54 + bmp_buff.length)
  rw [Int32.toInt_ofInt_of_le (by omega) hw.2, Int32.toInt_ofInt_of_le (by omega) hh.2,
    UInt32.toNat_ofNat_of_lt' hlen, Nat.add_sub_cancel_left, List.take_take, Nat.min_self,
    List.take_length] at hprovides
  exact hprovides

/-- A color other than the background, and the byte a buffer of that color
consists of. -/
theorem exists_single_color (bg : UInt32) : ∃ (b : UInt8) (color : UInt32), color ≠ bg ∧
    ∀ n k : ℕ, k + 2 < n → colorFrom (List.replicate n b) k = color := by
  have hconst : ∀ (b : UInt8) (n k : ℕ), k + 2 < n → colorFrom (List.replicate n b) k =
      (b.toUInt32 <<< 0 ||| b.toUInt32 <<< 8 ||| b.toUInt32 <<< 16) := by
    intro b n k hk
    have hget : ∀ i < n, (List.replicate n b).getD i 0 = b := by
      intro i hi
      simp [hi]
    rw [colorFrom, hget _ (by omega), hget _ (by omega), hget _ hk]
  by_cases hbg : bg = 0
  · exact ⟨1, 0x010101, by rw [hbg]; decide, hconst 1⟩
  · exact ⟨0, 0, Ne.symm hbg, hconst 0⟩

end EmbeddedSystem.Picture
