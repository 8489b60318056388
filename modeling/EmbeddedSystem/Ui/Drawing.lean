import EmbeddedSystem.Foundation.Layers
import EmbeddedSystem.Picture.Decode
import EmbeddedSystem.Picture.Fly
import EmbeddedSystem.Picture.Shades
import EmbeddedSystem.Ui.BackButton

/-!
# The drawing calls of the pages

What `pichandler.c` draws for the pages, each function as its call of `showThePic`, and what
such a call leaves on the screen: a layer with the pixels of its file.
-/

namespace EmbeddedSystem.Ui

open CountedLoop Layers Picture

/-! ## The calls -/

/-- The files that the pages open. -/
inductive PicPath
  | picture (path : Bytes)
  | material (m : Material)
  /-- `../material/pic_choice.bmp` -/
  | picChoice
  | welcome
  | videoBacground
  | play
  | playWhite
  /-- `../material/end.bmp` -/
  | endPicture
  | voiceRecognition
  | listenning
  | recognizing
  | recognitionFailed
  deriving DecidableEq, Repr

/-- The arguments of a call of `showThePic`. -/
structure DrawCall where
  bmpPath : PicPath
  x : ℤ
  y : ℤ
  animation : ℤ
  showway : ℤ
  backgroundcolor : UInt32
  deriving DecidableEq, Repr

def ShowCall.draw (c : ShowCall) : DrawCall :=
  ⟨.material c.bmpPath, c.x, c.y, c.animation, c.showway, c.backgroundcolor⟩

def showPicMenue (x y : ℤ) : DrawCall :=
  ⟨.picChoice, x, y, animationModeWindowshades, showWaysCoverShading, 0x00ffffff⟩

def showWelcome (x y : ℤ) : DrawCall :=
  ⟨.welcome, x, y, animationModeWindowshades, showWaysCoverShading, 0xffffffff⟩

def showVideoBac : DrawCall :=
  ⟨.videoBacground, 0, 0, animationModeWindowshades, showWaysCoverShading, 0x00ffffff⟩

def showVideoPlay : DrawCall :=
  ⟨.playWhite, 370, 420, animationModeWindowshades, showWaysCoverShading, 0x00ffffff⟩

def showVideoPause : DrawCall :=
  ⟨.material .pauseWhite, 370, 420, animationModeWindowshades, showWaysCoverShading, 0x00ffffff⟩

def showMusicPause : DrawCall :=
  ⟨.material .pause, 370, 420, animationModeWindowshades, showWaysCoverNoshading, 0x00ffffff⟩

def showMusicPlay : DrawCall :=
  ⟨.play, 370, 420, animationModeWindowshades, showWaysCoverNoshading, 0x00ffffff⟩

def showEnd (x y : ℤ) : DrawCall :=
  ⟨.endPicture, x, y, animationModeWindowshades, showWaysCoverShading, 0x00ffffff⟩

def showRecognitionFailed (x y : ℤ) : DrawCall :=
  ⟨.recognitionFailed, x, y, animationModeWindowshades, showWaysCoverNoshading, 0x00ffffff⟩

def showVoiceBackground (x y : ℤ) : DrawCall :=
  ⟨.voiceRecognition, x, y, animationModeWindowshades, showWaysCoverShading, 0x00ffffff⟩

def showStatusVoiceListening (x y : ℤ) : DrawCall :=
  ⟨.listenning, x, y, animationModeWindowshades, showWaysCoverNoshading, 0x00ffffff⟩

def showStatusVoiceRecognizing (x y : ℤ) : DrawCall :=
  ⟨.recognizing, x, y, animationModeWindowshades, showWaysCoverNoshading, 0x00ffffff⟩

/-- `showThePic(shownPic, 0, 0, animation, SHOW_WAYS_COVER_SHADING, 0x00ffffff)` -/
def showShownPic (shownPic : Bytes) (animation : ℤ) : DrawCall :=
  ⟨.picture shownPic, 0, 0, animation, showWaysCoverShading, 0x00ffffff⟩

/-- What the pages get from outside: the names that the slots of `getDir` read as for the album,
the files, and what the local `InfoHead` of `showThePic` held before.  `/dev/fb0` opens, and the
pixels can be read. -/
structure AlbumEnv where
  bmpFiles : List Bytes
  disk : PicPath → Option Bytes
  stack : Bytes

def DrawCall.exec (env : AlbumEnv) (c : DrawCall) (w : World) : Option World :=
  (showThePic ⟨env.disk c.bmpPath, true, true, env.stack⟩ c.x c.y c.animation c.showway
    c.backgroundcolor w).map Prod.snd

/-! ## The files -/

/-- A bitmap of `w` times `h` points with 24 bits each and no compression, whose pixels follow
the headers in rows without padding.  The size field is filled in; it may be rounded up. -/
structure PicFile (w h : ℤ) where
  file : Picture.Bytes
  magic : (BitMapFileHeader.ofBytes file).bfType = (66, 77)
  offBits : (BitMapFileHeader.ofBytes file).bfOffBits = 54
  infoSize : (BitMapInfoHeader.ofBytes (file.drop 14)).biSize = 40
  width : (BitMapInfoHeader.ofBytes (file.drop 14)).biWidth.toInt = w
  height : (BitMapInfoHeader.ofBytes (file.drop 14)).biHeight.toInt = h
  planes : (BitMapInfoHeader.ofBytes (file.drop 14)).biPlanes = 1
  bitCount : (BitMapInfoHeader.ofBytes (file.drop 14)).biBitCount = 24
  compression : (BitMapInfoHeader.ofBytes (file.drop 14)).biCompression = 0
  wide : 0 < w
  tall : 0 < h
  unpadded : 4 ∣ w
  sizeImage : stride w * h ≤ (BitMapInfoHeader.ofBytes (file.drop 14)).biSizeImage.toNat
  filled : 54 + stride w * h ≤ file.length

namespace PicFile

variable {w h : ℤ}

/-- The well-formed files with this geometry that are decoded as the format says. -/
def ofWellFormed {file : Picture.Bytes} {size : ℤ} (hfile : WellFormed file w h 54 size)
    (hsize : size ≠ 0) (hw : 0 < w) (hh : 0 < h) (hpad : 4 ∣ w) : PicFile w h where
  file := file
  magic := hfile.magic
  offBits := UInt32.toNat.inj (Int.ofNat.inj hfile.offBits)
  infoSize := by
    have hheaders := hfile.headers
    have hinfo := hfile.infoSize
    exact UInt32.toNat.inj (show _ = 40 by omega)
  width := hfile.width
  height := hfile.height
  planes := hfile.planes
  bitCount := hfile.bitCount
  compression := hfile.compression
  wide := hw
  tall := hh
  unpadded := hpad
  sizeImage := by rw [hfile.sizeImage, hfile.padded.resolve_left hsize]
  filled := hfile.pixels

/-- The color that the file gives column `j` of row `i` from the top. -/
def color (p : PicFile w h) (i j : ℤ) : UInt32 :=
  fileColor p.file w h (BitMapFileHeader.ofBytes p.file).bfOffBits.toNat i j

/-- What `showThePic` reads into `bmp_buff`. -/
def pixels (p : PicFile w h) : Picture.Bytes :=
  (p.file.drop 54).take (BitMapInfoHeader.ofBytes (p.file.drop 14)).biSizeImage.toNat

theorem le_length_pixels (p : PicFile w h) : stride w * h ≤ p.pixels.length := by
  have hsize := p.sizeImage
  have hfilled := p.filled
  rw [pixels, List.length_take, List.length_drop]
  omega

theorem packed_le_length (p : PicFile w h) : 3 * (w * h) ≤ p.pixels.length :=
  (packed_le_stored p.tall.le).trans p.le_length_pixels

theorem provides (p : PicFile w h) (stack : Picture.Bytes) :
    PicCalls.Provides ⟨some p.file, true, true, stack⟩ w h p.pixels := by
  have hheaders : 54 ≤ p.file.length := by
    have hfilled := p.filled
    have hpacked := packed_le_stored (w := w) p.tall.le
    have harea : 0 ≤ w * h := Int.mul_nonneg p.wide.le p.tall.le
    omega
  refine ⟨rfl, rfl, p.file, rfl, ?_⟩
  rw [readInfoHead_of_le hheaders]
  exact ⟨p.width, p.height, rfl⟩

/-- The file is read as the format says. -/
theorem pictureAt_eq (p : PicFile w h) {i j : ℤ} (hi : 0 ≤ i ∧ i < h) (hj : 0 ≤ j ∧ j < w) :
    pictureAt p.pixels w h i j = p.color i j := by
  obtain ⟨q, hq, hstored⟩ := unpadded_position (Or.inl p.unpadded) hi hj
  have hrows := stored_position hi hj
  have hsize := p.sizeImage
  have hbyte : ∀ k < 3, byteAt p.pixels (q * 3 + k) =
      byteAt p.file ((54 + stride w * (h - 1 - i) + 3 * j).toNat + k) := by
    intro k hk
    rw [pixels, byteAt_take (by omega), byteAt_drop]
    congr 1
    omega
  have hoff : ((BitMapFileHeader.ofBytes p.file).bfOffBits.toNat : ℤ) = 54 := by
    rw [p.offBits]
    rfl
  rw [pictureAt, ← hq, Int.toNat_natCast, colorAt_eq, color, fileColor, hoff,
    hbyte 2 (by omega), hbyte 1 (by omega), show q * 3 = q * 3 + 0 from rfl, hbyte 0 (by omega)]
  rfl

end PicFile

/-! ## Pictures as layers -/

/-- A layer of screen words alone. -/
def Within (layer : Layer ℤ UInt32) : Prop := ∀ k, (layer k).isSome → OnScreen k

/-- All words of the screen in the colors of the file. -/
def pictureLayer (p : PicFile 800 480) : Layer ℤ UInt32 := fun k ↦
  if OnScreen k then some (p.color (k / 800) (k % 800)) else none

theorem pictureScreen_eq_paint (p : PicFile 800 480) (lcd : Framebuffer) :
    pictureScreen p.pixels lcd = paint (pictureLayer p) lcd := by
  funext k
  unfold pictureScreen paint pictureLayer
  split
  next hk =>
    obtain ⟨hrow, hcol, -⟩ := exists_word hk
    rw [p.pictureAt_eq hrow hcol, Option.getD_some]
  next => rfl

theorem pictureLayer_covers {layer : Layer ℤ UInt32} (h : Within layer) (p : PicFile 800 480) :
    Covers (pictureLayer p) layer := by
  intro k hk
  simp [pictureLayer, h k hk]

theorem within_pictureLayer (p : PicFile 800 480) : Within (pictureLayer p) := by
  intro k hk
  by_contra hoff
  simp [pictureLayer, hoff] at hk

/-- The picture at its place, without the points that the way of showing leaves out. -/
def placedLayer {w h : ℤ} (p : PicFile w h) (x y showway : ℤ) (bg : UInt32) :
    Layer ℤ UInt32 := fun k ↦
  let color := p.color (k / 800 - y) (k % 800 - x)
  if (0 ≤ k / 800 - y ∧ k / 800 - y < h) ∧ (0 ≤ k % 800 - x ∧ k % 800 - x < w) ∧
    Draws showway bg color
  then some color else none

theorem painted_eq_paint {w h : ℤ} (p : PicFile w h) (x y showway : ℤ) (bg : UInt32)
    {rs : List ℤ} (hrs : ∀ r, r ∈ rs ↔ 0 ≤ r ∧ r < h) (lcd : Framebuffer) :
    painted p.pixels w h x y showway bg rs lcd = paint (placedLayer p x y showway bg) lcd := by
  funext k
  simp only [painted, paint, placedLayer, hrs]
  by_cases hcell : (0 ≤ k / 800 - y ∧ k / 800 - y < h) ∧ 0 ≤ k % 800 - x ∧ k % 800 - x < w
  · rw [p.pictureAt_eq hcell.1 hcell.2]
    split <;> rfl
  · rw [if_neg fun hk ↦ hcell ⟨hk.1, hk.2.1⟩, if_neg fun hk ↦ hcell ⟨hk.1, hk.2.1⟩]
    rfl

/-- The file of a call with the window shades, which draws within the screen.  The slats are
fifteen, and leave no row out. -/
structure ButtonFile (env : AlbumEnv) (c : DrawCall) where
  width : ℤ
  height : ℤ
  pic : PicFile width height
  onDisk : env.disk c.bmpPath = some pic.file
  shades : c.animation = animationModeWindowshades
  slats : 15 ∣ height
  left : 0 ≤ c.x
  top : 0 ≤ c.y
  right : c.x + width ≤ 800
  bottom : c.y + height ≤ 480

namespace ButtonFile

variable {env : AlbumEnv} {c : DrawCall}

def layer (b : ButtonFile env c) : Layer ℤ UInt32 :=
  placedLayer b.pic c.x c.y c.showway c.backgroundcolor

/-- Words under the picture. -/
theorem layer_of_below (b : ButtonFile env c) {k : ℤ} (h : b.height ≤ k / 800 - c.y) :
    b.layer k = none := if_neg fun hk ↦ Int.not_lt.mpr h hk.1.2

theorem mem_rows (b : ButtonFile env c) (r : ℤ) :
    r ∈ shadeRows b.height ↔ 0 ≤ r ∧ r < b.height := by
  have htop := b.top
  have hbottom := b.bottom
  have hmax : b.height ≤ maxHeight := by
    rw [maxHeight]
    omega
  exact ⟨bounds_of_mem_shadeRows ⟨b.pic.tall.le, hmax⟩, mem_shadeRows_of_dvd b.slats hmax⟩

theorem exec_eq (b : ButtonFile env c) (w : World) :
    c.exec env w = some { w with lcd := paint b.layer w.lcd } := by
  rw [DrawCall.exec, b.onDisk, showThePic_of_provides (b.pic.provides env.stack), b.shades,
    animate_windowshades, windowshades_eq_some b.pic.packed_le_length b.pic.tall.le b.left b.top
      b.right b.bottom, painted_eq_paint b.pic c.x c.y c.showway c.backgroundcolor b.mem_rows]
  rfl

theorem within (b : ButtonFile env c) : Within b.layer := by
  intro k hk
  have htop := b.top
  have hbottom := b.bottom
  simp only [layer, placedLayer] at hk
  split at hk
  next hcell =>
    simp only [OnScreen, pixel]
    omega
  next => cases hk

/-- The picture fills the screen and hides everything on it. -/
structure Fills (b : ButtonFile env c) : Prop where
  width : b.width = 800
  height : b.height = 480
  showway : c.showway = showWaysCoverShading

theorem Fills.covers {b : ButtonFile env c} (h : b.Fills) {layer : Layer ℤ UInt32}
    (hlayer : Within layer) : Layers.Covers b.layer layer := by
  intro k hk
  have hon := hlayer k hk
  have hleft := b.left
  have htop := b.top
  have hright := b.right
  have hbottom := b.bottom
  rw [h.width] at hright
  rw [h.height] at hbottom
  simp only [OnScreen, pixel] at hon
  have hrow : 0 ≤ k / 800 - c.y ∧ k / 800 - c.y < b.height := by
    rw [h.height]
    omega
  have hcolumn : 0 ≤ k % 800 - c.x ∧ k % 800 - c.x < b.width := by
    rw [h.width]
    omega
  have hdraws : Draws c.showway c.backgroundcolor
      (b.pic.color (k / 800 - c.y) (k % 800 - c.x)) := Or.inl h.showway
  rw [ButtonFile.layer, placedLayer, if_pos ⟨hrow, hcolumn, hdraws⟩]
  rfl

end ButtonFile

/-- A file that is not there: `showThePic` gives up before it draws. -/
theorem DrawCall.exec_of_missing {env : AlbumEnv} {c : DrawCall}
    (h : env.disk c.bmpPath = none) (w : World) : c.exec env w = some w := by
  rw [DrawCall.exec, h]
  rfl

end EmbeddedSystem.Ui
