import EmbeddedSystem.Picture.Painting

/-!
# Decoding against the format

An uncompressed 24-bit bottom-up bitmap stores its pixel rows from `bfOffBits`
on, bottom row first, each padded to a multiple of four bytes, and its size
field may be zero.  `showThePic` reads unpadded rows from byte 54 and as many
bytes as the size field says.  The two readings agree exactly where these
differences do not show.
-/

namespace EmbeddedSystem.Picture

open CountedLoop

/-! ## The format -/

/-- The bytes from one stored row to the next. -/
def stride (w : ℤ) : ℤ := (3 * w + 3) / 4 * 4

structure WellFormed (file : Bytes) (w h off size : ℤ) : Prop where
  magic : (BitMapFileHeader.ofBytes file).bfType = (66, 77)
  offBits : (BitMapFileHeader.ofBytes file).bfOffBits.toNat = off
  headers : 14 + ((BitMapInfoHeader.ofBytes (file.drop 14)).biSize.toNat : ℤ) ≤ off
  infoSize : 40 ≤ (BitMapInfoHeader.ofBytes (file.drop 14)).biSize.toNat
  width : (BitMapInfoHeader.ofBytes (file.drop 14)).biWidth.toInt = w
  height : (BitMapInfoHeader.ofBytes (file.drop 14)).biHeight.toInt = h
  planes : (BitMapInfoHeader.ofBytes (file.drop 14)).biPlanes = 1
  bitCount : (BitMapInfoHeader.ofBytes (file.drop 14)).biBitCount = 24
  compression : (BitMapInfoHeader.ofBytes (file.drop 14)).biCompression = 0
  sizeImage : (BitMapInfoHeader.ofBytes (file.drop 14)).biSizeImage.toNat = size
  padded : size = 0 ∨ size = stride w * h
  pixels : off + stride w * h ≤ file.length

/-- The color that the file gives column `j` of row `i` from the top, as
0x00RRGGBB. -/
def fileColor (file : Bytes) (w h off i j : ℤ) : UInt32 :=
  let p := (off + stride w * (h - 1 - i) + 3 * j).toNat
  .ofNat (65536 * byteAt file (p + 2) + 256 * byteAt file (p + 1) + byteAt file p)

def decoded (file : Bytes) (w h off x y showway : ℤ) (bg : UInt32) (lcd : Framebuffer) :
    Framebuffer := fun k ↦
  let color := fileColor file w h off (k / 800 - y) (k % 800 - x)
  if (0 ≤ k / 800 - y ∧ k / 800 - y < h) ∧ (0 ≤ k % 800 - x ∧ k % 800 - x < w) ∧
    Draws showway bg color
  then color else lcd k

/-! ## Colors -/

theorem shifted_bytes (b g r : UInt8) :
    b.toUInt32 <<< 0 ||| g.toUInt32 <<< 8 ||| r.toUInt32 <<< 16 =
      UInt32.ofNat (65536 * r.toNat + 256 * g.toNat + b.toNat) := by
  have hb : b.toNat < 2 ^ 8 := b.toNat_lt
  have hg : g.toNat < 2 ^ 8 := g.toNat_lt
  have hr : r.toNat < 2 ^ 8 := r.toNat_lt
  have hg' : g.toNat <<< 8 = 256 * g.toNat := by rw [Nat.shiftLeft_eq, Nat.mul_comm]
  have hr' : r.toNat <<< 16 = 65536 * r.toNat := by rw [Nat.shiftLeft_eq, Nat.mul_comm]
  have hlow := Nat.shiftLeft_add_eq_or_of_lt hb g.toNat
  have hhigh := Nat.shiftLeft_add_eq_or_of_lt
    (show g.toNat <<< 8 + b.toNat < 2 ^ 16 by omega) r.toNat
  rw [Nat.or_comm] at hlow hhigh
  apply UInt32.toNat.inj
  rw [UInt32.toNat_ofNat_of_lt' (by simp only [UInt32.size]; omega), UInt32.toNat_or,
    UInt32.toNat_or, UInt32.toNat_shiftLeft, UInt32.toNat_shiftLeft, UInt32.toNat_shiftLeft]
  simp only [UInt8.toNat_toUInt32, UInt32.toNat_zero, UInt32.reduceToNat, Nat.reduceMod,
    Nat.shiftLeft_zero]
  rw [Nat.mod_eq_of_lt (by omega), Nat.mod_eq_of_lt (by omega), Nat.mod_eq_of_lt (by omega),
    ← hlow, ← hhigh]
  omega

theorem colorAt_eq (bmp_buff : Bytes) (q : ℕ) :
    colorAt bmp_buff q = .ofNat (65536 * byteAt bmp_buff (q * 3 + 2) +
      256 * byteAt bmp_buff (q * 3 + 1) + byteAt bmp_buff (q * 3)) :=
  shifted_bytes _ _ _

theorem three_mul_le_stride {w : ℤ} : 3 * w ≤ stride w := by
  rw [stride]
  omega

theorem packed_le_stored {w h : ℤ} (hh : 0 ≤ h) : 3 * (w * h) ≤ stride w * h := by
  rw [← Int.mul_assoc]
  exact Int.mul_le_mul_of_nonneg_right three_mul_le_stride hh

theorem stride_eq_iff {w : ℤ} : stride w = 3 * w ↔ 4 ∣ w := by
  rw [stride]
  omega

/-! ## Where the readings agree -/

section Agree

variable {file : Bytes} {w h size x y showway : ℤ} {bg : UInt32}

theorem stored_position {i j : ℤ} (hi : 0 ≤ i ∧ i < h) (hj : 0 ≤ j ∧ j < w) :
    0 ≤ stride w * (h - 1 - i) ∧ stride w * (h - 1 - i) + 3 * w ≤ stride w * h := by
  have hle : 3 * w ≤ stride w := three_mul_le_stride
  have hup : 0 ≤ stride w * (h - 1 - i) := Int.mul_nonneg (by omega) (by omega)
  have hdown : 0 ≤ stride w * i := Int.mul_nonneg (by omega) hi.1
  have hsplit : stride w * (h - 1 - i) = stride w * h - stride w - stride w * i := by ring
  omega

theorem unpadded_position {i j : ℤ} (hpad : 4 ∣ w ∨ h = 1) (hi : 0 ≤ i ∧ i < h)
    (hj : 0 ≤ j ∧ j < w) :
    ∃ q : ℕ, (q : ℤ) = w * (h - 1 - i) + j ∧ stride w * (h - 1 - i) + 3 * j = 3 * q := by
  have hpos := position_bounds hi hj
  refine ⟨(w * (h - 1 - i) + j).toNat, by omega, ?_⟩
  rw [Int.toNat_of_nonneg hpos.1, Int.mul_add, ← Int.mul_assoc]
  rcases hpad with hdvd | rfl
  · rw [stride_eq_iff.mpr hdvd]
  · rw [show (1 : ℤ) - 1 - i = 0 by omega, Int.mul_zero, Int.mul_zero]

theorem pictureAt_eq_fileColor {i j : ℤ} (hpad : 4 ∣ w ∨ h = 1) (hi : 0 ≤ i ∧ i < h)
    (hj : 0 ≤ j ∧ j < w) :
    pictureAt ((file.drop 54).take (stride w * h).toNat) w h i j =
      fileColor file w h 54 i j := by
  obtain ⟨q, hq, hstored⟩ := unpadded_position hpad hi hj
  have hrows := stored_position hi hj
  have hbyte : ∀ k < 3, byteAt ((file.drop 54).take (stride w * h).toNat) (q * 3 + k) =
      byteAt file ((54 + stride w * (h - 1 - i) + 3 * j).toNat + k) := by
    intro k hk
    rw [byteAt_take (by omega), byteAt_drop]
    congr 1
    omega
  rw [pictureAt, ← hq, Int.toNat_natCast, colorAt_eq, fileColor, hbyte 2 (by omega),
    hbyte 1 (by omega), show q * 3 = q * 3 + 0 from rfl, hbyte 0 (by omega)]
  rfl

theorem painted_eq_decoded (hpad : 4 ∣ w ∨ h = 1) (lcd : Framebuffer) :
    painted ((file.drop 54).take (stride w * h).toNat) w h x y showway bg (up h) lcd =
      decoded file w h 54 x y showway bg lcd := by
  funext k
  simp only [painted, decoded, mem_up]
  by_cases hcell : (0 ≤ k / 800 - y ∧ k / 800 - y < h) ∧ 0 ≤ k % 800 - x ∧ k % 800 - x < w
  · rw [pictureAt_eq_fileColor hpad hcell.1 hcell.2]
  · rw [if_neg fun hk ↦ hcell ⟨hk.1, hk.2.1⟩, if_neg fun hk ↦ hcell ⟨hk.1, hk.2.1⟩]

theorem WellFormed.provides {off : ℤ} (hfile : WellFormed file w h off size) (hw : 0 < w)
    (hh : 0 < h) (stack : Bytes) :
    PicCalls.Provides ⟨some file, true, true, stack⟩ w h ((file.drop 54).take size.toNat) := by
  have hrows := stored_position (w := w) (h := h) (i := 0) (j := 0) (by omega) (by omega)
  have hoff := hfile.headers
  have hinfo := hfile.infoSize
  have hpixels := hfile.pixels
  refine ⟨rfl, rfl, file, rfl, ?_⟩
  rw [readInfoHead_of_le (by omega), hfile.width, hfile.height, ← hfile.sizeImage]
  exact ⟨rfl, rfl, rfl⟩

end Agree

/-! ## Where they differ -/

/-- Bytes that are zero but for one. -/
def marked (m n : ℕ) : Bytes := List.replicate m 0 ++ 1 :: List.replicate n 0

def markedFile (w h : Int32) (off size : UInt32) (m n : ℕ) : Bytes :=
  headerBytes off w h size ++ marked m n

theorem length_marked (m n : ℕ) : (marked m n).length = m + (n + 1) := by simp [marked]

theorem byteAt_marked (m n k : ℕ) :
    byteAt (marked m n) k = if k = m then 1 else 0 := by
  rcases Nat.lt_trichotomy k m with hlt | rfl | hgt
  · rw [marked, byteAt_append_left (by simpa using hlt), if_neg (by omega)]
    simp [byteAt, hlt]
  · simp [marked, byteAt]
  · obtain ⟨d, rfl⟩ := Nat.exists_eq_add_of_lt hgt
    rw [if_neg (by omega)]
    by_cases hd : d < n <;> simp [marked, byteAt, Nat.add_assoc, hd]

theorem drop_markedFile (w h : Int32) (off size : UInt32) (m n : ℕ) :
    (markedFile w h off size m n).drop 54 = marked m n :=
  List.drop_left' (length_headerBytes off w h size)

theorem wellFormed_headerBytes (w h : Int32) (off size : UInt32) (pixels : Bytes)
    (hoff : 54 ≤ off.toNat)
    (hpadded : (size.toNat : ℤ) = 0 ∨ size.toNat = stride w.toInt * h.toInt)
    (hpixels : off.toNat + stride w.toInt * h.toInt ≤ 54 + pixels.length) :
    WellFormed (headerBytes off w h size ++ pixels) w.toInt h.toInt off.toNat size.toNat := by
  have hinfo := infoHeader_headerBytes off w h size pixels
  rw [← List.drop_append_of_le_length (by simp)] at hinfo
  constructor
  · rw [fileHeader_headerBytes]
  · rw [fileHeader_headerBytes]
  · rw [hinfo]
    exact Int.ofNat_le.mpr hoff
  · rw [hinfo]
    exact le_of_eq rfl
  · rw [hinfo]
  · rw [hinfo]
  · rw [hinfo]
  · rw [hinfo]
  · rw [hinfo]
  · rw [hinfo]
  · exact hpadded
  · simpa using hpixels

theorem wellFormed_markedFile {w h off size : ℤ} (hw : 0 ≤ w ∧ w < 2 ^ 31)
    (hh : 0 ≤ h ∧ h < 2 ^ 31) (hoff : 54 ≤ off ∧ off < 2 ^ 32) (hsize : 0 ≤ size ∧ size < 2 ^ 32)
    (hpadded : size = 0 ∨ size = stride w * h) {m n : ℕ} (hn : off + stride w * h ≤ n) :
    WellFormed (markedFile (.ofInt w) (.ofInt h) (.ofNat off.toNat) (.ofNat size.toNat) m n)
      w h off size := by
  have hw' : (Int32.ofInt w).toInt = w := Int32.toInt_ofInt_of_le (by omega) hw.2
  have hh' : (Int32.ofInt h).toInt = h := Int32.toInt_ofInt_of_le (by omega) hh.2
  have hoff' : ((UInt32.ofNat off.toNat).toNat : ℤ) = off := by
    rw [UInt32.toNat_ofNat_of_lt' (by simp only [UInt32.size]; omega)]
    omega
  have hsize' : ((UInt32.ofNat size.toNat).toNat : ℤ) = size := by
    rw [UInt32.toNat_ofNat_of_lt' (by simp only [UInt32.size]; omega)]
    omega
  have hfile := wellFormed_headerBytes (.ofInt w) (.ofInt h) (.ofNat off.toNat)
    (.ofNat size.toNat) (marked m n) (by omega) (by rwa [hw', hh', hsize']) (by
      rw [hw', hh', hoff', length_marked]
      omega)
  rwa [hw', hh', hoff', hsize'] at hfile

section Differ

variable {w h off size x y showway : ℤ} {bg : UInt32}

theorem decoded_word {file : Bytes} {r j : ℤ} (hx : 0 ≤ x) (hxw : x + w ≤ 800)
    (hr : 0 ≤ r ∧ r < h) (hj : 0 ≤ j ∧ j < w) (lcd : Framebuffer) :
    decoded file w h off x y showway bg lcd ((r + y) * 800 + j + x) =
      if Draws showway bg (fileColor file w h off r j) then fileColor file w h off r j
      else lcd ((r + y) * 800 + j + x) := by
  have hrow : ((r + y) * 800 + j + x) / 800 - y = r := by omega
  have hcol : ((r + y) * 800 + j + x) % 800 - x = j := by omega
  simp only [decoded, hrow, hcol, hr, hj, and_self, true_and]

theorem eq_of_drawn_eq (hcovers : Covers showway) {c d e : UInt32} (hc : c ≠ e) (hd : d ≠ e)
    (h : (if Draws showway bg c then c else e) = if Draws showway bg d then d else e) :
    c = d := by
  by_cases hdc : Draws showway bg c
  · rw [if_pos hdc] at h
    split at h
    · exact h
    · exact absurd h hc
  · by_cases hdd : Draws showway bg d
    · rw [if_neg hdc, if_pos hdd] at h
      exact absurd h.symm hd
    · have hback : ∀ color, ¬ Draws showway bg color → color = bg := by
        intro color hnot
        by_contra hne
        exact hnot (hcovers.imp id fun hs ↦ ⟨hs, hne⟩)
      rw [hback c hdc, hback d hdd]

theorem pictureAt_marked {m n size : ℕ} {r : ℤ} (hm : (m : ℤ) = 3 * (w * (h - 1 - r)))
    (hsize : m + 3 ≤ size) :
    pictureAt ((marked m n).take size) w h r 0 = 1 := by
  have hbyte : ∀ k < 3, byteAt ((marked m n).take size)
      ((w * (h - 1 - r) + 0).toNat * 3 + k) = if k = 0 then 1 else 0 := by
    intro k hk
    rw [byteAt_take (by omega), byteAt_marked]
    by_cases hk0 : k = 0
    · rw [if_pos hk0, if_pos (by omega)]
    · rw [if_neg hk0, if_neg (by omega)]
  rw [pictureAt, colorAt_eq, hbyte 2 (by omega), hbyte 1 (by omega), ← Nat.add_zero (_ * 3),
    hbyte 0 (by omega)]
  rfl

theorem fileColor_marked {w' h' : Int32} {off' size' : UInt32} {m n : ℕ} {i j : ℤ}
    (hstart : 54 ≤ off + stride w * (h - 1 - i) + 3 * j)
    (hskip : ∀ k : ℤ, 0 ≤ k ∧ k < 3 → off + stride w * (h - 1 - i) + 3 * j + k ≠ 54 + m) :
    fileColor (markedFile w' h' off' size' m n) w h off i j = 0 := by
  have hbyte : ∀ k : ℕ, k < 3 → byteAt (markedFile w' h' off' size' m n)
      ((off + stride w * (h - 1 - i) + 3 * j).toNat + k) = 0 := by
    intro k hk
    have hne := hskip k (by omega)
    have hmarked := byteAt_marked m n ((off + stride w * (h - 1 - i) + 3 * j).toNat + k - 54)
    rwa [← drop_markedFile w' h' off' size', byteAt_drop, if_neg (by omega),
      Nat.add_sub_cancel' (by omega)] at hmarked
  rw [fileColor, hbyte 2 (by omega), hbyte 1 (by omega), ← Nat.add_zero (Int.toNat _),
    hbyte 0 (by omega)]
  rfl

/-- A byte that the format skips and the decoder reads makes a difference. -/
theorem exists_misread (bg : UInt32) (hw : 0 < w) (hh : 0 < h) (hx : 0 ≤ x) (hy : 0 ≤ y)
    (hxw : x + w ≤ 800) (hyh : y + h ≤ 480) (hcovers : Covers showway)
    (hoff : 54 ≤ off ∧ off < 2 ^ 32) (hsize : size = stride w * h) {m : ℕ} {r : ℤ}
    (hr : 0 ≤ r ∧ r < h) (hm : (m : ℤ) = 3 * (w * (h - 1 - r)))
    (hskip : ∀ i j, 0 ≤ i ∧ i < h → 0 ≤ j ∧ j < w → ∀ k : ℤ, 0 ≤ k ∧ k < 3 →
      off + stride w * (h - 1 - i) + 3 * j + k ≠ 54 + m) :
    ∃ file, WellFormed file w h off size ∧ ∀ stack, ∃ world,
      showThePic ⟨some file, true, true, stack⟩ x y animationModeNone showway bg world ≠
        some (0, { world with lcd := decoded file w h off x y showway bg world.lcd }) := by
  have hpos := position_bounds hr (j := 0) (w := w) (by omega)
  have hrows := stored_position (w := w) hr (j := 0) (by omega)
  have hpacked : 3 * (w * h) ≤ stride w * h := packed_le_stored (by omega)
  have hsmall : stride w * h ≤ 3 * 800 * 480 :=
    Int.mul_le_mul (by simp only [stride]; omega) (by omega) (by omega) (by omega)
  let n := (off + stride w * h).toNat
  let file := markedFile (.ofInt w) (.ofInt h) (.ofNat off.toNat) (.ofNat size.toNat) m n
  have hfile : WellFormed file w h off size := wellFormed_markedFile (by omega) (by omega) hoff
    (by omega) (Or.inr hsize) (by omega)
  refine ⟨file, hfile, fun stack ↦ ⟨⟨fun _ ↦ 2, 0, 0, 0, 0⟩, fun heq ↦ ?_⟩⟩
  have hprovides := hfile.provides hw hh stack
  rw [show file.drop 54 = marked m n from drop_markedFile ..] at hprovides
  have hlen : 3 * (w * h) ≤ ((marked m n).take size.toNat).length := by
    rw [List.length_take, length_marked]
    omega
  rw [showThePic_of_provides hprovides, animate_none, drawNone_eq_some hlen hx hy hxw hyh] at heq
  simp only [Option.map_some, Option.some.injEq, Prod.mk.injEq, World.mk.injEq, and_true,
    true_and] at heq
  have hword := congrFun heq ((r + y) * 800 + 0 + x)
  rw [painted_word hx hxw (by omega), decoded_word hx hxw hr (by omega),
    pictureAt_marked hm (by omega),
    fileColor_marked (by omega) (hskip r 0 hr (by omega))] at hword
  simp only [mem_up, hr, and_self, true_and] at hword
  exact absurd (eq_of_drawn_eq hcovers (by decide) (by decide) hword) (by decide)

theorem drawNone_nil (hw : 0 < w) (hh : 0 < h) (lcd : Framebuffer) :
    drawNone [] w h x y showway bg lcd = none := by
  have hrows : up h = 0 :: (up h).tail := by
    rw [up, show h.toNat = (h - 1).toNat + 1 by omega, List.range_succ_eq_map]
    rfl
  have hcols : up w = 0 :: (up w).tail := by
    rw [up, show w.toNat = (w - 1).toNat + 1 by omega, List.range_succ_eq_map]
    rfl
  have hnone : tmpcolor [] (w * (h - 1 - 0) + 0) = none := by
    refine tmpcolor_of_not_filled fun hfilled ↦ ?_
    have h0 := hfilled.1
    have hlt := hfilled.2
    simp only [List.length_nil, Int.natCast_zero] at hlt
    omega
  rw [drawNone, hrows, loop_cons, drawRow, hcols, loop_cons, hnone]
  rfl

end Differ

/-- Every well-formed file with this geometry is decoded as the format says
exactly when its pixels start at byte 54, its size field is not zero, and its
rows need no padding or there is only one. -/
theorem decodes_iff {w h off size x y showway : ℤ} {bg : UInt32} (hw : 0 < w) (hh : 0 < h)
    (hx : 0 ≤ x) (hy : 0 ≤ y) (hxw : x + w ≤ 800) (hyh : y + h ≤ 480)
    (hcovers : Covers showway) (hoff : 54 ≤ off ∧ off < 2 ^ 32)
    (hsize : size = 0 ∨ size = stride w * h) :
    (∀ file, WellFormed file w h off size → ∀ stack world,
      showThePic ⟨some file, true, true, stack⟩ x y animationModeNone showway bg world =
        some (0, { world with lcd := decoded file w h off x y showway bg world.lcd })) ↔
    off = 54 ∧ size ≠ 0 ∧ (4 ∣ w ∨ h = 1) := by
  have hlast := stored_position (w := w) (h := h) (i := h - 1) (j := 0) (by omega) (by omega)
  constructor
  · intro hall
    have hsize0 : size ≠ 0 := by
      rintro rfl
      have hfile := wellFormed_markedFile (w := w) (h := h) (by omega) (by omega) hoff
        (by omega) hsize (m := 0) (n := (off + stride w * h).toNat) (by omega)
      have hsome := hall _ hfile [] ⟨fun _ ↦ 0, 0, 0, 0, 0⟩
      rw [showThePic_of_provides (hfile.provides hw hh []), animate_none, Int.toNat_zero,
        List.take_zero, drawNone_nil hw hh] at hsome
      exact absurd hsome (by simp)
    have hfull : size = stride w * h := hsize.resolve_left hsize0
    have hoff54 : off = 54 := by
      by_contra hne
      obtain ⟨file, hfile, hdiffer⟩ := exists_misread bg hw hh hx hy hxw hyh hcovers hoff
        hfull (m := 0) (r := h - 1) (by omega) (by simp) fun i j hi hj k hk ↦ by
          have hpos := stored_position hi hj
          omega
      obtain ⟨world, hne⟩ := hdiffer []
      exact hne (hall file hfile [] world)
    refine ⟨hoff54, hsize0, ?_⟩
    · by_contra hpad
      push Not at hpad
      have hmore : 3 * w < stride w := by
        rw [stride]
        omega
      obtain ⟨file, hfile, hdiffer⟩ := exists_misread bg hw hh hx hy hxw hyh hcovers hoff
        hfull (m := (3 * w).toNat) (r := h - 2) (by omega)
        (by rw [show h - 1 - (h - 2) = 1 by omega]; omega) fun i j hi hj k hk ↦ by
          by_cases hbottom : i = h - 1
          · subst hbottom
            rw [show h - 1 - (h - 1) = 0 by omega, Int.mul_zero]
            omega
          · have hup : stride w * 1 ≤ stride w * (h - 1 - i) :=
              Int.mul_le_mul_of_nonneg_left (by omega) (by omega)
            omega
      obtain ⟨world, hne⟩ := hdiffer []
      exact hne (hall file hfile [] world)
  · rintro ⟨rfl, hsize0, hpad⟩ file hfile stack world
    have hfull : size = stride w * h := hsize.resolve_left hsize0
    have hpixels := hfile.pixels
    have hpacked : 3 * (w * h) ≤ stride w * h := packed_le_stored (by omega)
    have hlen : 3 * (w * h) ≤ ((file.drop 54).take size.toNat).length := by
      simp only [List.length_take, List.length_drop]
      omega
    rw [showThePic_of_provides (hfile.provides hw hh stack), animate_none,
      drawNone_eq_some hlen hx hy hxw hyh, hfull, painted_eq_decoded hpad]
    rfl

theorem decodes_four_columns :
    showThePic ⟨some (headerBytes 54 4 2 24 ++ List.replicate 24 7), true, true, []⟩ 0 0
        animationModeNone showWaysCoverShading 0 ⟨fun _ ↦ 0, 0, 0, 0, 0⟩ =
      some (0, ⟨decoded (headerBytes 54 4 2 24 ++ List.replicate 24 7) 4 2 54 0 0
        showWaysCoverShading 0 fun _ ↦ 0, 0, 0, 0, 0⟩) :=
  (decodes_iff (w := 4) (h := 2) (by omega) (by omega) le_rfl le_rfl (by omega) (by omega)
    (Or.inl rfl) (by omega) (Or.inr (show (24 : ℤ) = stride 4 * 2 from rfl))).mpr
    ⟨rfl, by omega, Or.inl (by omega)⟩ _
    (wellFormed_headerBytes 4 2 54 24 _ (by decide) (Or.inr rfl) (by decide)) _ _

/-- Of two columns, padded to eight bytes a row, the top row is read from the
padding of the bottom row. -/
theorem misreads_two_columns :
    WellFormed (headerBytes 54 2 2 16 ++ [1, 2, 3, 4, 5, 6, 0, 0, 7, 8, 9, 10, 11, 12, 0, 0])
      2 2 54 16 ∧
    showThePic ⟨some (headerBytes 54 2 2 16 ++ [1, 2, 3, 4, 5, 6, 0, 0, 7, 8, 9, 10, 11, 12, 0, 0]),
        true, true, []⟩ 0 0 animationModeNone showWaysCoverShading 0 ⟨fun _ ↦ 0, 0, 0, 0, 0⟩ ≠
      some (0, ⟨decoded
        (headerBytes 54 2 2 16 ++ [1, 2, 3, 4, 5, 6, 0, 0, 7, 8, 9, 10, 11, 12, 0, 0])
        2 2 54 0 0 showWaysCoverShading 0 fun _ ↦ 0, 0, 0, 0, 0⟩) := by
  have hfile : WellFormed
      (headerBytes 54 2 2 16 ++ [1, 2, 3, 4, 5, 6, 0, 0, 7, 8, 9, 10, 11, 12, 0, 0]) 2 2 54 16 :=
    wellFormed_headerBytes 2 2 54 16 _ (by decide) (Or.inr rfl) (by decide)
  refine ⟨hfile, fun heq ↦ ?_⟩
  rw [showThePic_of_provides (hfile.provides (by omega) (by omega) []), animate_none,
    drawNone_eq_some (by decide) le_rfl le_rfl (by omega) (by omega)] at heq
  simp only [Option.map_some, Option.some.injEq, Prod.mk.injEq, World.mk.injEq, and_true,
    true_and] at heq
  exact absurd (congrFun heq 0) (by decide)

end EmbeddedSystem.Picture
