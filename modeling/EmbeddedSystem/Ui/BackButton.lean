import EmbeddedSystem.Picture.Shades
import EmbeddedSystem.Ui.System

/-!
# Back buttons, drawn and tapped

Each page draws a button in the top right corner, and its handler compares the touch with
bounds of its own.  Here the rectangle of the drawing code is set against these bounds.
-/

namespace EmbeddedSystem.Ui

open Picture Runs

/-! ## The drawing code -/

/-- The files of `../material` that the buttons are drawn from. -/
inductive Material
  | back
  | musicBackground
  | prev
  | pause
  | next
  | prevWhite
  | pauseWhite
  | nextWhite
  | backWhite
  | returnWhite
  deriving DecidableEq, Repr

/-- The arguments of a call of `showThePic`. -/
structure ShowCall where
  bmpPath : Material
  x : ℤ
  y : ℤ
  animation : ℤ
  showway : ℤ
  backgroundcolor : UInt32
  deriving DecidableEq, Repr

def showBackButton (x y : ℤ) : List ShowCall :=
  [⟨.back, 740 - x, y, animationModeWindowshades, showWaysCoverNoshading, 0x00ffffff⟩]

def showMusicButtons (x y distance : ℤ) : List ShowCall :=
  [⟨.musicBackground, 0, 0, animationModeWindowshades, showWaysCoverShading, 0x00ffffff⟩,
    ⟨.prev, 310 - distance, 420 - y, animationModeWindowshades, showWaysCoverNoshading,
      0x00ffffff⟩,
    ⟨.pause, 370, 420 - y, animationModeWindowshades, showWaysCoverNoshading, 0x00ffffff⟩,
    ⟨.next, 430 + distance, 420 - y, animationModeWindowshades, showWaysCoverNoshading,
      0x00ffffff⟩,
    ⟨.back, 740 - x, y, animationModeWindowshades, showWaysCoverNoshading, 0x00ffffff⟩]

def showVideoButtons (x y distance : ℤ) : List ShowCall :=
  [⟨.prevWhite, 310 - distance, 420 - y, animationModeWindowshades, showWaysCoverShading,
      0x00ffffff⟩,
    ⟨.pauseWhite, 370, 420 - y, animationModeWindowshades, showWaysCoverShading, 0x00ffffff⟩,
    ⟨.nextWhite, 430 + distance, 420 - y, animationModeWindowshades, showWaysCoverShading,
      0x00ffffff⟩,
    ⟨.backWhite, x, y, animationModeWindowshades, showWaysCoverShading, 0x00ffffff⟩,
    ⟨.returnWhite, 740, 0, animationModeWindowshades, showWaysCoverShading, 0x00ffffff⟩]

/-- The point is in the rectangle of a bitmap of this size. -/
def ShowCall.Covers (c : ShowCall) (width height a b : ℤ) : Prop :=
  (c.x ≤ a ∧ a < c.x + width) ∧ c.y ≤ b ∧ b < c.y + height

/-- Outside its rectangle a bitmap leaves the screen as it was. -/
theorem covers_of_changed {c : ShowCall} {bmp_buff : List UInt8} {width height a b : ℤ}
    {lcd lcd' : Framebuffer} (hlen : 3 * (width * height) ≤ bmp_buff.length)
    (hheight : 0 ≤ height) (hx : 0 ≤ c.x) (hy : 0 ≤ c.y) (hxw : c.x + width ≤ 800)
    (hyh : c.y + height ≤ 480) (ha : 0 ≤ a ∧ a < 800)
    (hdraw : windowshades bmp_buff width height c.x c.y c.showway c.backgroundcolor lcd =
      some lcd')
    (hchanged : lcd' (b * 800 + a) ≠ lcd (b * 800 + a)) : c.Covers width height a b := by
  rw [windowshades_eq_some hlen hheight hx hy hxw hyh lcd, Option.some_inj] at hdraw
  have hrow : (b * 800 + a) / 800 = b := by omega
  have hcol : (b * 800 + a) % 800 = a := by omega
  rw [← hdraw] at hchanged
  simp only [painted, hrow, hcol, ne_eq, ite_eq_right_iff, Classical.not_imp] at hchanged
  obtain ⟨⟨hshaded, hwide, -⟩, -⟩ := hchanged
  have hhigh := bounds_of_mem_shadeRows ⟨hheight, by rw [maxHeight]; omega⟩ hshaded
  unfold ShowCall.Covers
  omega

/-! ## The pages -/

inductive ButtonPage
  | album
  | media (m : MediaPage)
  | voice
  deriving DecidableEq, Repr

def ButtonPage.uiStatus : ButtonPage → UiStatus
  | .album => .uiPic
  | .media m => m.uiStatus
  | .voice => .uiVoice

/-- The buttons that `proc_pic`, `proc_music`, `proc_video` and `proc_voice` draw on entry. -/
def ButtonPage.buttons : ButtonPage → List ShowCall
  | .album => showBackButton 0 0
  | .media .music => showMusicButtons 0 0 60
  | .media .video => showVideoButtons 0 0 60
  | .voice => showBackButton 0 0

/-- The bitmap in the top right corner. -/
def ButtonPage.backBitmap : ButtonPage → Material
  | .album => .back
  | .media .music => .back
  | .media .video => .returnWhite
  | .voice => .back

def ButtonPage.OnBackButton (p : ButtonPage) (width height a b : ℤ) : Prop :=
  ∃ c ∈ p.buttons, c.bmpPath = p.backBitmap ∧ c.Covers width height a b

theorem onBackButton_iff {p : ButtonPage} {width height a b : ℤ} :
    p.OnBackButton width height a b ↔
      (740 ≤ a ∧ a < 740 + width) ∧ 0 ≤ b ∧ b < height := by
  unfold ButtonPage.OnBackButton ShowCall.Covers
  obtain _ | (_ | _) | _ := p <;>
    simp [ButtonPage.buttons, ButtonPage.backBitmap, showBackButton, showMusicButtons,
      showVideoButtons]

/-! ## A tap -/

/-- The words after a tap at `(a, b)`, and after the `usleep(100)` of a media page. -/
def tapped (a b : ℤ) (w : Words) : Words :=
  let d := dispatch a b 0 0 w
  if d.back then { d.apply w with uiStatus := .uiMain } else d.apply w

/-- A tap is a step of the touch thread, with a second one when it sleeps. -/
theorem run_of_tap {s : Sys} (htouch : s.touch = .idle) (hmain : s.main ≠ .ended) (a b : ℤ) :
    run step s (.touch a b 0 0 :: if (dispatch a b 0 0 s.words).back then [.resume] else []) =
      some { s with words := tapped a b s.words } := by
  cases hback : (dispatch a b 0 0 s.words).back with
  | true => simp [run, step, tapped, htouch, hmain, hback, Sys.setUi]
  | false => simp [run, step, tapped, htouch, hmain, hback]

/-- In the top rows the handler of a media page has its back button alone. -/
theorem procTsMedia_of_top (assign : MediaStatus → Assigns) (backX a : ℤ) {b : ℤ} (hb : b < 60)
    (status : MediaStatus) :
    procTsMedia assign backX a b status =
      if a > backX then { assign .stop with back := true } else {} := by
  have hhigh : ¬ b > 420 := by omega
  simp [procTsMedia, hb, hhigh]

theorem procTsPic_of_corner {a b : ℤ} {status : PicStatus} (hstatus : status ≠ .picMenue)
    (hb : b < 60) :
    procTsPic a b 0 0 status =
      if a > 740 then { picStatus := some .picNull, uiStatus := some .uiMain } else {} := by
  have hhigh : ¬ b > 60 := by omega
  simp [procTsPic, hstatus, hb, hhigh]

/-- The part of the button's columns that the handler of the page takes. -/
def ButtonPage.Takes (a : ℤ) : ButtonPage → Prop
  | .album => 740 < a
  | .media .music => 740 < a
  | .media .video => 760 < a
  | .voice => False

/-- For a bitmap of any width, and of no more than 60 rows: the button of the album and of the
music page is live but for its first column, that of the video page but for its first 21
columns, and that of the voice page nowhere. -/
theorem back_button_live_iff {p : ButtonPage} {width height a b : ℤ} {w : Words}
    (hheight : height ≤ 60) (hui : w.uiStatus = p.uiStatus)
    (hmenue : p = .album → w.picStatus ≠ .picMenue) (hon : p.OnBackButton width height a b) :
    (tapped a b w).uiStatus = .uiMain ↔ p.Takes a := by
  obtain ⟨hcolumn, hrow⟩ := onBackButton_iff.mp hon
  have hb : b < 60 := by omega
  unfold tapped
  cases p with
  | album =>
      have hdispatch : dispatch a b 0 0 w = procTsPic a b 0 0 w.picStatus := by
        rw [dispatch, hui]
        rfl
      rw [hdispatch, procTsPic_of_corner (hmenue rfl) hb, ButtonPage.Takes]
      split <;> simp_all [Assigns.apply, ButtonPage.uiStatus]
  | media m =>
      cases m with
      | music =>
          rw [dispatch_of_uiMusic hui, procTsMusic, procTsMedia_of_top _ _ _ hb, ButtonPage.Takes]
          split <;> simp_all [Assigns.apply, ButtonPage.uiStatus, MediaPage.uiStatus]
      | video =>
          rw [dispatch_of_uiVideo hui, procTsVideo, procTsMedia_of_top _ _ _ hb, ButtonPage.Takes]
          split <;> simp_all [Assigns.apply, ButtonPage.uiStatus, MediaPage.uiStatus]
  | voice =>
      have hdispatch : dispatch a b 0 0 w = {} := by
        rw [dispatch, hui]
        exact if_neg fun h ↦ by omega
      simp [hdispatch, Assigns.apply, hui, ButtonPage.uiStatus, ButtonPage.Takes]

/-- In the middle of the album's button. -/
theorem album_button_live :
    (tapped 770 30 ⟨.uiPic, .picPlay, .null, .null⟩).uiStatus = .uiMain :=
  (back_button_live_iff (p := .album) (show (60 : ℤ) ≤ 60 by decide) rfl (by decide)
    (show ButtonPage.album.OnBackButton 60 60 770 30 from onBackButton_iff.mpr (by decide))).mpr
      (show 740 < (770 : ℤ) by decide)

/-- The voice page's button does nothing, and the others have a dead corner. -/
theorem back_buttons_dead :
    (ButtonPage.voice.OnBackButton 60 60 770 30 ∧
      (tapped 770 30 ⟨.uiVoice, .picPlay, .null, .null⟩).uiStatus ≠ .uiMain) ∧
    (ButtonPage.album.OnBackButton 60 60 740 0 ∧
      (tapped 740 0 ⟨.uiPic, .picPlay, .null, .null⟩).uiStatus ≠ .uiMain) ∧
    ((ButtonPage.media .music).OnBackButton 60 60 740 0 ∧
      (tapped 740 0 ⟨.uiMusic, .picPlay, .null, .null⟩).uiStatus ≠ .uiMain) ∧
    (ButtonPage.media .video).OnBackButton 60 60 760 59 ∧
      (tapped 760 59 ⟨.uiVideo, .picPlay, .null, .null⟩).uiStatus ≠ .uiMain :=
  ⟨⟨onBackButton_iff.mpr (by decide), by decide⟩, ⟨onBackButton_iff.mpr (by decide), by decide⟩,
    ⟨onBackButton_iff.mpr (by decide), by decide⟩, onBackButton_iff.mpr (by decide), by decide⟩

end EmbeddedSystem.Ui
