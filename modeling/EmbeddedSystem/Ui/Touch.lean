import Mathlib.Data.Int.Notation
import Mathlib.Tactic.Common

/-!
# The touch handlers

The touch thread and the main thread share four status words.  At the release of
a touch `ts_pthread` calls the handler of the page that `ui_status` names, and
the handler assigns some of the words.  Coordinates and movements are integers,
and the quotient of a movement truncates as in C.
-/

namespace EmbeddedSystem.Ui

/-- `enum _UI` -/
inductive UiStatus
  | uiMain
  | uiPic
  | uiMusic
  | uiVoice
  | uiVideo
  | uiEnd
  deriving DecidableEq, Repr

/-- `enum _PIC` -/
inductive PicStatus
  | picMenue
  | picPlay
  | picNextWindowshade
  | picNextFlyleft
  | picNextFtydown
  | picPrevWindowshade
  | picPrevFlyright
  | picPrevFlyup
  | picPlaySequential
  | picPlayShuffle
  | picNull
  deriving DecidableEq, Repr

/-- `enum _MUSIC` and `enum _VIDEO`, which have the same enumerators in the same
order; `proc_video` stores `MUSIC_PLAY` in `video_status`. -/
inductive MediaStatus
  | play
  | pause
  | hold
  | stop
  | next
  | prev
  | conti
  | start
  | null
  deriving DecidableEq, Repr

structure Words where
  uiStatus : UiStatus
  picStatus : PicStatus
  musicStatus : MediaStatus
  videoStatus : MediaStatus
  deriving DecidableEq, Repr

/-- The assignments that a handler makes.  After those of a media page's back
button come `usleep(100)` and `ui_status = UI_MAIN`. -/
structure Assigns where
  uiStatus : Option UiStatus := none
  picStatus : Option PicStatus := none
  musicStatus : Option MediaStatus := none
  videoStatus : Option MediaStatus := none
  back : Bool := false
  deriving DecidableEq, Repr

def Assigns.apply (d : Assigns) (w : Words) : Words where
  uiStatus := d.uiStatus.getD w.uiStatus
  picStatus := d.picStatus.getD w.picStatus
  musicStatus := d.musicStatus.getD w.musicStatus
  videoStatus := d.videoStatus.getD w.videoStatus

def procTsMain (a b : ℤ) : Assigns :=
  if a ≥ 440 ∧ a ≤ 520 ∧ b ≥ 285 ∧ b ≤ 365 then
    { uiStatus := some .uiPic, picStatus := some .picPlay }
  else if a ≥ 280 ∧ a ≤ 360 ∧ b ≥ 285 ∧ b ≤ 365 then { uiStatus := some .uiMusic }
  else if a ≥ 120 ∧ a ≤ 200 ∧ b ≥ 285 ∧ b ≤ 365 then { uiStatus := some .uiVideo }
  else if a ≥ 720 ∧ a ≤ 800 ∧ b ≥ 0 ∧ b ≤ 80 then { uiStatus := some .uiEnd }
  else if a ≥ 605 ∧ a ≤ 685 ∧ b ≥ 285 ∧ b ≤ 365 then { uiStatus := some .uiVoice }
  else if a ≥ 740 ∧ b ≤ 60 then { uiStatus := some .uiEnd }
  else {}

def procTsPic (a b moveX moveY : ℤ) (picStatus : PicStatus) : Assigns :=
  if picStatus ≠ .picMenue then
    if moveX = 0 ∧ moveY = 0 then
      if a > 400 ∧ b > 60 then { picStatus := some .picNextWindowshade }
      else if a < 400 ∧ b > 60 then { picStatus := some .picPrevWindowshade }
      else if a > 740 ∧ b < 60 then { picStatus := some .picNull, uiStatus := some .uiMain }
      else {}
    else if moveX = 0 ∧ moveY ≠ 0 then
      if moveY > 0 then { picStatus := some .picPrevFlyup }
      else { picStatus := some .picNextFtydown }
    else if moveX ≠ 0 ∧ moveY ≠ 0 then
      let slope := moveY.tdiv moveX
      if slope ≥ -1 ∧ slope < 1 ∧ moveX > 0 then { picStatus := some .picPrevFlyright }
      else if (slope ≥ 1 ∨ slope < -1) ∧ moveY > 0 then { picStatus := some .picPrevFlyup }
      else if slope ≥ -1 ∧ slope < 1 ∧ moveX < 0 then { picStatus := some .picNextFlyleft }
      else if (slope ≥ 1 ∨ slope < -1) ∧ moveY < 0 then { picStatus := some .picNextFtydown }
      else {}
    else if moveX ≠ 0 ∧ moveY = 0 then
      if moveX > 0 then { picStatus := some .picPrevFlyright }
      else { picStatus := some .picNextFlyleft }
    else {}
  else
    if a < 400 ∧ b > 165 ∧ b < 315 ∧ picStatus = .picMenue then
      { picStatus := some .picPlaySequential }
    else if a > 400 ∧ b > 165 ∧ b < 315 ∧ picStatus = .picMenue then
      { picStatus := some .picPlayShuffle }
    else { picStatus := some .picNull }

/-- The common text of `proc_ts_music` and `proc_ts_video`: `backX` is the left
edge of the back button, and `assign` the assignment to the page's word. -/
def procTsMedia (assign : MediaStatus → Assigns) (backX a b : ℤ) (status : MediaStatus) :
    Assigns :=
  if a > 370 ∧ a < 430 ∧ b > 420 ∧ b < 480 ∧ status = .null then assign .start
  else if a > 370 ∧ a < 430 ∧ b > 420 ∧ b < 480 ∧ status = .play then assign .hold
  else if a > 370 ∧ a < 430 ∧ b > 420 ∧ b < 480 ∧ status = .pause then assign .conti
  else if a > backX ∧ b < 60 then { assign .stop with back := true }
  else if a > 250 ∧ a < 310 ∧ b > 420 ∧ b < 480 then assign .prev
  else if a > 490 ∧ a < 550 ∧ b > 420 ∧ b < 480 then assign .next
  else {}

def procTsVideo (a b : ℤ) (videoStatus : MediaStatus) : Assigns :=
  procTsMedia (fun c ↦ { videoStatus := some c }) 760 a b videoStatus

def procTsMusic (a b : ℤ) (musicStatus : MediaStatus) : Assigns :=
  procTsMedia (fun c ↦ { musicStatus := some c }) 740 a b musicStatus

def procTsVoice (a b : ℤ) : Assigns :=
  if a < 60 ∧ b < 60 then { uiStatus := some .uiMain } else {}

/-- The `switch (ui_status)` of `ts_pthread`. -/
def dispatch (a b moveX moveY : ℤ) (w : Words) : Assigns :=
  match w.uiStatus with
  | .uiMain => procTsMain a b
  | .uiPic => procTsPic a b moveX moveY w.picStatus
  | .uiVideo => procTsVideo a b w.videoStatus
  | .uiMusic => procTsMusic a b w.musicStatus
  | .uiVoice => procTsVoice a b
  | .uiEnd => {}

theorem dispatch_of_uiMusic {w : Words} (h : w.uiStatus = .uiMusic) (a b moveX moveY : ℤ) :
    dispatch a b moveX moveY w = procTsMusic a b w.musicStatus := by
  rw [dispatch, h]

theorem dispatch_of_uiVideo {w : Words} (h : w.uiStatus = .uiVideo) (a b moveX moveY : ℤ) :
    dispatch a b moveX moveY w = procTsVideo a b w.videoStatus := by
  rw [dispatch, h]

/-! ## What a handler can assign -/

theorem procTsMain_words (a b : ℤ) :
    (procTsMain a b).musicStatus = none ∧ (procTsMain a b).videoStatus = none ∧
      (procTsMain a b).back = false := by
  unfold procTsMain
  split_ifs <;> exact ⟨rfl, rfl, rfl⟩

theorem procTsPic_words (a b moveX moveY : ℤ) (status : PicStatus) :
    (procTsPic a b moveX moveY status).musicStatus = none ∧
      (procTsPic a b moveX moveY status).videoStatus = none ∧
      (procTsPic a b moveX moveY status).back = false := by
  unfold procTsPic
  dsimp only
  split_ifs <;> exact ⟨rfl, rfl, rfl⟩

theorem procTsMedia_cases (assign : MediaStatus → Assigns) (backX a b : ℤ)
    (status : MediaStatus) :
    (∃ c, c ≠ .stop ∧ c ≠ .null ∧ procTsMedia assign backX a b status = assign c) ∨
      procTsMedia assign backX a b status = { assign .stop with back := true } ∨
      procTsMedia assign backX a b status = {} := by
  unfold procTsMedia
  split_ifs
  · exact Or.inl ⟨.start, by decide, by decide, rfl⟩
  · exact Or.inl ⟨.hold, by decide, by decide, rfl⟩
  · exact Or.inl ⟨.conti, by decide, by decide, rfl⟩
  · exact Or.inr (Or.inl rfl)
  · exact Or.inl ⟨.prev, by decide, by decide, rfl⟩
  · exact Or.inl ⟨.next, by decide, by decide, rfl⟩
  · exact Or.inr (Or.inr rfl)

theorem procTsMusic_words (a b : ℤ) (status : MediaStatus) :
    (procTsMusic a b status).uiStatus = none ∧ (procTsMusic a b status).picStatus = none ∧
      (procTsMusic a b status).videoStatus = none := by
  rcases procTsMedia_cases (fun c ↦ { musicStatus := some c }) 740 a b status with
    ⟨c, _, _, h⟩ | h | h <;> rw [procTsMusic, h] <;> exact ⟨rfl, rfl, rfl⟩

theorem procTsVideo_words (a b : ℤ) (status : MediaStatus) :
    (procTsVideo a b status).uiStatus = none ∧ (procTsVideo a b status).picStatus = none ∧
      (procTsVideo a b status).musicStatus = none := by
  rcases procTsMedia_cases (fun c ↦ { videoStatus := some c }) 760 a b status with
    ⟨c, _, _, h⟩ | h | h <;> rw [procTsVideo, h] <;> exact ⟨rfl, rfl, rfl⟩

theorem procTsVoice_words (a b : ℤ) :
    (procTsVoice a b).picStatus = none ∧ (procTsVoice a b).musicStatus = none ∧
      (procTsVoice a b).videoStatus = none ∧ (procTsVoice a b).back = false := by
  unfold procTsVoice
  split_ifs <;> exact ⟨rfl, rfl, rfl, rfl⟩

end EmbeddedSystem.Ui
