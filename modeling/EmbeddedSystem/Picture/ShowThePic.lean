import EmbeddedSystem.Foundation.CountedLoop
import EmbeddedSystem.Picture.Header
import Mathlib.Algebra.Group.Nat.Defs
import Mathlib.Logic.Function.Basic

/-!
# `showThePic`

The function draws a bitmap file on the 800 x 480 framebuffer, at once or with
one of five animations.  A run of the function gives `none` when it uses a byte
of `bmp_buff` that `read` did not return, touches a framebuffer word outside the
screen, or divides by zero; otherwise it gives the returned code and what it
left behind.  As on the target, `int` and `long` have 32 bits, so that an index
that does not fit wraps around, and the `char`s of the pixel buffer are unsigned.
-/

namespace EmbeddedSystem.Picture

open CountedLoop

def animationModeNone : ℤ := 0
def animationModeFlyleft : ℤ := 1
def animationModeFlyright : ℤ := 2
def animationModeFlyup : ℤ := 3
def animationModeFlydown : ℤ := 4
def animationModeWindowshades : ℤ := 5

def showWaysCoverNoshading : ℤ := 11
def showWaysCoverShading : ℤ := 12

def pixel : ℤ := 800 * 480

abbrev Framebuffer := ℤ → UInt32

/-- The `int` or `long` with the value `z` modulo `2 ^ 32`. -/
def int (z : ℤ) : ℤ := z.bmod (2 ^ 32)

/-! ## Checked accesses -/

def peek (lcd : Framebuffer) (k : ℤ) : Option UInt32 :=
  if 0 ≤ k ∧ k < pixel then some (lcd k) else none

def poke (k : ℤ) (color : UInt32) (lcd : Framebuffer) : Option Framebuffer :=
  if 0 ≤ k ∧ k < pixel then some (Function.update lcd k color) else none

def bmpByte (bmp_buff : Bytes) (k : ℤ) : Option UInt8 :=
  if 0 ≤ k then bmp_buff[k.toNat]? else none

/-- `bmp_buff[q * 3] << 0 | bmp_buff[q * 3 + 1] << 8 | bmp_buff[q * 3 + 2] << 16` -/
def tmpcolor (bmp_buff : Bytes) (q : ℤ) : Option UInt32 := do
  let blue ← bmpByte bmp_buff (int (q * 3))
  let green ← bmpByte bmp_buff (int (q * 3 + 1))
  let red ← bmpByte bmp_buff (int (q * 3 + 2))
  some (blue.toUInt32 <<< 0 ||| green.toUInt32 <<< 8 ||| red.toUInt32 <<< 16)

def cover (showway : ℤ) (backgroundcolor : UInt32) (k : ℤ) (color : UInt32)
    (lcd : Framebuffer) : Option Framebuffer :=
  if showway = showWaysCoverShading then poke k color lcd
  else if showway = showWaysCoverNoshading then
    if color ≠ backgroundcolor then poke k color lcd else some lcd
  else some lcd

/-! ## The animation modes -/

section Modes

variable (bmp_buff : Bytes) (pixLength pixHeight x y showway : ℤ) (backgroundcolor : UInt32)

/-- The innermost loop of the modes that obey the header: picture row `row`,
counted from the top, is read from the bottom-up bitmap. -/
def drawRow (row : ℤ) : Framebuffer → Option Framebuffer :=
  loop (up pixLength) fun j lcd ↦ do
    let color ← tmpcolor bmp_buff (pixLength * (pixHeight - 1 - row) + j)
    cover showway backgroundcolor (int ((row + y) * 800 + j + x)) color lcd

def drawNone : Framebuffer → Option Framebuffer :=
  loop (up pixHeight) fun i ↦
    drawRow bmp_buff pixLength pixHeight x y showway backgroundcolor i

def pages : ℤ := 15

/-- `int line = p * pixHeight / pages + i`, where only the product may wrap -/
def line (p i : ℤ) : ℤ := (int (p * pixHeight)).tdiv pages + i

def windowshades : Framebuffer → Option Framebuffer :=
  loop (up (pixHeight.tdiv pages)) fun i lcd ↦ do
    let lcd ← loop (up pages) (fun p ↦
      drawRow bmp_buff pixLength pixHeight x y showway backgroundcolor (line pixHeight p i)) lcd
    -- usleep(200000 * pages / pixHeight)
    if pixHeight = 0 then none else some lcd

def moveLength : ℤ := 40

/-- One pass of a fly mode over the screen words `dst i j`: inside the screen
they take over the word `src i j`, in the vacated strip the picture's `bmp i j`.
These are all small numbers, which do not wrap. -/
def flyPass (is js : List ℤ) (inside : ℤ → Prop) [DecidablePred inside]
    (dst src bmp : ℤ → ℤ → ℤ) : Framebuffer → Option Framebuffer :=
  loop is fun i ↦ loop js fun j lcd ↦ do
    let color ← if inside i then peek lcd (src i j) else tmpcolor bmp_buff (bmp i j)
    poke (dst i j) color lcd

def flyleftPass (times : ℤ) : Framebuffer → Option Framebuffer :=
  flyPass bmp_buff (up 800) (up 480) (fun i ↦ i + moveLength ≤ 799)
    (fun i j ↦ j * 800 + i)
    (fun i j ↦ j * 800 + i + moveLength)
    (fun i j ↦ 800 * (480 - 1 - j) + i + (times + 1) * moveLength - 800)

def flyrightPass (times : ℤ) : Framebuffer → Option Framebuffer :=
  flyPass bmp_buff (down 800) (up 480) (fun i ↦ i - moveLength ≥ 0)
    (fun i j ↦ j * 800 + i)
    (fun i j ↦ j * 800 + i - moveLength)
    (fun i j ↦ 800 * (480 - 1 - j) + i - (times + 1) * moveLength + 800)

def flyupPass (times : ℤ) : Framebuffer → Option Framebuffer :=
  flyPass bmp_buff (up 480) (up 800) (fun i ↦ i + moveLength < 480)
    (fun i j ↦ i * 800 + j)
    (fun i j ↦ (i + moveLength) * 800 + j)
    (fun i j ↦ 800 * (959 - i - (times + 1) * moveLength) + j)

def flydownPass (times : ℤ) : Framebuffer → Option Framebuffer :=
  flyPass bmp_buff (down 480) (up 800) (fun i ↦ i - moveLength ≥ 0)
    (fun i j ↦ i * 800 + j)
    (fun i j ↦ (i - moveLength) * 800 + j)
    (fun i j ↦ 800 * ((times + 1) * moveLength - i - 1) + j)

def flyleft : Framebuffer → Option Framebuffer :=
  loop (up (800 / moveLength)) (flyleftPass bmp_buff)

def flyright : Framebuffer → Option Framebuffer :=
  loop (up (800 / moveLength)) (flyrightPass bmp_buff)

def flyup : Framebuffer → Option Framebuffer :=
  loop (up (480 / moveLength)) (flyupPass bmp_buff)

def flydown : Framebuffer → Option Framebuffer :=
  loop (up (480 / moveLength)) (flydownPass bmp_buff)

def modeBlocks : List (ℤ × (Framebuffer → Option Framebuffer)) :=
  [(animationModeNone, drawNone bmp_buff pixLength pixHeight x y showway backgroundcolor),
    (animationModeFlyleft, flyleft bmp_buff),
    (animationModeFlyright, flyright bmp_buff),
    (animationModeFlyup, flyup bmp_buff),
    (animationModeFlydown, flydown bmp_buff),
    (animationModeWindowshades,
      windowshades bmp_buff pixLength pixHeight x y showway backgroundcolor)]

/-- The drawing part of `showThePic`, `if (animation == MODE) { ... }` for each
mode in the order of the source; other values of `animation` draw nothing. -/
def animate (animation : ℤ) : Framebuffer → Option Framebuffer :=
  loop (modeBlocks bmp_buff pixLength pixHeight x y showway backgroundcolor) fun block lcd ↦
    if animation = block.1 then block.2 lcd else some lcd

end Modes

/-! ## The whole call -/

/-- What one call of `showThePic` gets from outside: the contents of the file
that `open(bmpPath)` opens, whether `/dev/fb0` opens, whether the `read` of the
pixels succeeds (after a failed `malloc` it does not), and what the local
`InfoHead` held before. -/
structure PicCalls where
  bmp : Option Bytes
  lcd : Bool
  read : Bool
  stack : Bytes

/-- The screen, and how many descriptors of bitmap files and of `/dev/fb0`,
pixel buffers and screen mappings the process holds. -/
structure World where
  lcd : Framebuffer
  bmpFds : ℕ
  lcdFds : ℕ
  buffers : ℕ
  mappings : ℕ

def showThePic (calls : PicCalls) (x y animation showway : ℤ) (backgroundcolor : UInt32)
    (w : World) : Option (ℤ × World) :=
  match calls.bmp with
  | none => some (-1, w)
  | some file =>
    let w := { w with bmpFds := w.bmpFds + 1 }
    -- this exit closes lcdFd, which is -1, and keeps bmp_fd
    if calls.lcd = false then some (-1, w) else
    let w := { w with lcdFds := w.lcdFds + 1 }
    let infoHead := readInfoHead file calls.stack
    let w := { w with buffers := w.buffers + 1 }
    if calls.read = false then some (-1, { w with bmpFds := w.bmpFds - 1 }) else
    -- lseek(bmp_fd, 54, SEEK_SET), then a read of biSizeImage bytes
    let bmp_buff := (file.drop 54).take infoHead.biSizeImage.toNat
    let w := { w with bmpFds := w.bmpFds - 1, mappings := w.mappings + 1 }
    (animate bmp_buff infoHead.biWidth.toInt infoHead.biHeight.toInt x y showway backgroundcolor
      animation w.lcd).map fun lcd ↦
        (0, { w with lcd := lcd, buffers := w.buffers - 1, mappings := w.mappings - 1,
                     lcdFds := w.lcdFds - 1 })

end EmbeddedSystem.Picture
