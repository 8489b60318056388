import EmbeddedSystem.Foundation.Runs
import EmbeddedSystem.Ui.Player

/-!
# The two threads

The main thread runs one page function after the other, and each page function
is a loop around a `switch` on its status word; the touch thread calls the
handlers.  A step of the system is one access of a thread to the shared words,
one action of a page, or an event of a player process.
-/

namespace EmbeddedSystem.Ui

abbrev Bytes := List UInt8

/-! ## Program points -/

inductive MediaPage
  | music
  | video
  deriving DecidableEq, Repr

/-- Where the main thread is in a page function: before the loop, at the test of
`ui_status`, at the `switch`, in the arm of `c`, and at the arm's write to the
status word. -/
inductive LoopPc (κ : Type)
  | entry
  | test
  | switch
  | act (c : κ)
  | followUp (c : κ)
  deriving DecidableEq, Repr

/-- Where the main thread is in `proc_voice`: `command` holds a text from the
exchange with the server to the end of the comparisons. -/
inductive VoicePc
  | entry
  | test
  | exchange
  | compare (command : Bytes)
  deriving DecidableEq, Repr

inductive MainPc
  | select
  | procMain
  | procPic (pc : LoopPc PicStatus)
  | procMedia (m : MediaPage) (pc : LoopPc MediaStatus)
  | procVoice (pc : VoicePc)
  | ended
  deriving DecidableEq, Repr

/-- The touch thread waits for a release, or is in the `usleep(100)` of a back
button. -/
inductive TouchPc
  | idle
  | back
  deriving DecidableEq, Repr

structure Sys where
  words : Words
  touch : TouchPc
  main : MainPc
  madplay : Player
  mplayer : Player
  deriving DecidableEq, Repr

def init : Sys where
  words := ⟨.uiMain, .picPlay, .null, .null⟩
  touch := .idle
  main := .select
  madplay := ⟨[], []⟩
  mplayer := ⟨[], []⟩

/-! ## The parts that belong to a media page -/

def MediaPage.uiStatus : MediaPage → UiStatus
  | .music => .uiMusic
  | .video => .uiVideo

def MediaPage.arm : MediaPage → MediaStatus → List Stmt
  | .music => musicArm
  | .video => videoArm

def MediaPage.followUp : MediaPage → MediaStatus → Option MediaStatus
  | .music => musicFollowUp
  | .video => videoFollowUp

def Words.media (w : Words) : MediaPage → MediaStatus
  | .music => w.musicStatus
  | .video => w.videoStatus

def Words.setMedia (w : Words) (c : MediaStatus) : MediaPage → Words
  | .music => { w with musicStatus := c }
  | .video => { w with videoStatus := c }

def Sys.player (s : Sys) : MediaPage → Player
  | .music => s.madplay
  | .video => s.mplayer

def Sys.setPlayer (s : Sys) (p : Player) : MediaPage → Sys
  | .music => { s with madplay := p }
  | .video => { s with mplayer := p }

/-! ## Steps -/

/-- The next point of a page's loop, `none` when the page function returns. -/
def LoopPc.next {κ : Type} (isOpen : Bool) (word : κ) : LoopPc κ → Option (LoopPc κ)
  | .entry => some .test
  | .test => if isOpen then some .switch else none
  | .switch => some (.act word)
  | .act c => some (.followUp c)
  | .followUp _ => some .test

def LoopPc.write {κ : Type} (followUp : κ → Option κ) : LoopPc κ → Option κ
  | .followUp c => followUp c
  | _ => none

def LoopPc.stmts {κ : Type} (arm : κ → List Stmt) : LoopPc κ → List Stmt
  | .act c => arm c
  | _ => []

def page : UiStatus → MainPc
  | .uiMain => .procMain
  | .uiVideo => .procMedia .video .entry
  | .uiPic => .procPic .entry
  | .uiMusic => .procMedia .music .entry
  | .uiVoice => .procVoice .entry
  | .uiEnd => .ended

/-- 播放音乐, 打开相册, 关闭程序 and 播放视频, as the source file encodes them. -/
def playMusicText : Bytes :=
  [0xE6, 0x92, 0xAD, 0xE6, 0x94, 0xBE, 0xE9, 0x9F, 0xB3, 0xE4, 0xB9, 0x90]

def openAlbumText : Bytes :=
  [0xE6, 0x89, 0x93, 0xE5, 0xBC, 0x80, 0xE7, 0x9B, 0xB8, 0xE5, 0x86, 0x8C]

def closeProgramText : Bytes :=
  [0xE5, 0x85, 0xB3, 0xE9, 0x97, 0xAD, 0xE7, 0xA8, 0x8B, 0xE5, 0xBA, 0x8F]

def playVideoText : Bytes :=
  [0xE6, 0x92, 0xAD, 0xE6, 0x94, 0xBE, 0xE8, 0xA7, 0x86, 0xE9, 0xA2, 0x91]

def voiceTarget (command : Bytes) : Option UiStatus :=
  if command = playMusicText then some .uiMusic
  else if command = openAlbumText then some .uiPic
  else if command = closeProgramText then some .uiEnd
  else if command = playVideoText then some .uiVideo
  else none

def Sys.setUi (s : Sys) (u : UiStatus) : Sys :=
  { s with words := { s.words with uiStatus := u } }

def mainStep (s : Sys) : Option Sys :=
  match s.main with
  | .select => some { s with main := page s.words.uiStatus }
  | .procMain => some (if s.words.uiStatus = .uiMain then s else { s with main := .select })
  | .procPic pc =>
    some { s with
      main := (pc.next (s.words.uiStatus = .uiPic) s.words.picStatus).elim .select .procPic
      words := { s.words with
        picStatus := (pc.write picFollowUp).getD s.words.picStatus } }
  | .procMedia m pc =>
    some ({ s with
      main := (pc.next (s.words.uiStatus = m.uiStatus) (s.words.media m)).elim .select
        (.procMedia m)
      words := s.words.setMedia ((pc.write m.followUp).getD (s.words.media m)) m }.setPlayer
        ((s.player m).execArm (pc.stmts m.arm)) m)
  | .procVoice .entry => some { s with main := .procVoice .test }
  | .procVoice .test =>
    some { s with
      main := if s.words.uiStatus = .uiVoice then .procVoice .exchange else .select }
  | .procVoice .exchange => none
  | .procVoice (.compare command) =>
    some { s.setUi ((voiceTarget command).getD s.words.uiStatus) with main := .procVoice .test }
  | .ended => none

inductive Label
  | touch (a b moveX moveY : ℤ)
  /-- The touch thread wakes in a back button and writes `ui_status`. -/
  | resume
  | main
  /-- `sendFileAndGetString` returns with this text in `command`. -/
  | exchange (command : Bytes)
  | deliver (m : MediaPage) (i : ℕ)
  | exit (m : MediaPage) (i : ℕ)
  deriving DecidableEq, Repr

def step (s : Sys) : Label → Option Sys
  | .touch a b moveX moveY =>
    if s.touch = .idle ∧ s.main ≠ .ended then
      let d := dispatch a b moveX moveY s.words
      some { s with words := d.apply s.words, touch := if d.back then .back else .idle }
    else none
  | .resume =>
    if s.touch = .back ∧ s.main ≠ .ended then
      some { s.setUi .uiMain with touch := .idle }
    else none
  | .main => mainStep s
  | .exchange command =>
    if s.main = .procVoice .exchange then
      some { s with main := .procVoice (.compare command) }
    else none
  | .deliver m i => ((s.player m).deliver i).map fun p ↦ s.setPlayer p m
  | .exit m i => ((s.player m).exit i).map fun p ↦ s.setPlayer p m

/-- What a step with each label needs and does. -/
inductive StepChange (s : Sys) : Label → Sys → Prop
  | touched (a b moveX moveY : ℤ) (htouch : s.touch = .idle) (hmain : s.main ≠ .ended) :
      StepChange s (.touch a b moveX moveY)
        { s with
          words := (dispatch a b moveX moveY s.words).apply s.words
          touch := if (dispatch a b moveX moveY s.words).back then .back else .idle }
  | resumed (htouch : s.touch = .back) (hmain : s.main ≠ .ended) :
      StepChange s .resume { s.setUi .uiMain with touch := .idle }
  | main {t : Sys} (ht : mainStep s = some t) : StepChange s .main t
  | exchanged (command : Bytes) (hmain : s.main = .procVoice .exchange) :
      StepChange s (.exchange command) { s with main := .procVoice (.compare command) }
  | delivered (m : MediaPage) (i : ℕ) (p : Player) (hp : (s.player m).deliver i = some p) :
      StepChange s (.deliver m i) (s.setPlayer p m)
  | exited (m : MediaPage) (i : ℕ) (p : Player) (hp : (s.player m).exit i = some p) :
      StepChange s (.exit m i) (s.setPlayer p m)

theorem stepChange_step {s t : Sys} {l : Label} (h : step s l = some t) : StepChange s l t := by
  cases l with
  | touch a b moveX moveY =>
      obtain ⟨⟨htouch, hmain⟩, ht⟩ := Option.ite_none_right_eq_some.mp h
      cases ht
      exact .touched a b moveX moveY htouch hmain
  | resume =>
      obtain ⟨⟨htouch, hmain⟩, ht⟩ := Option.ite_none_right_eq_some.mp h
      cases ht
      exact .resumed htouch hmain
  | main => exact .main h
  | exchange command =>
      obtain ⟨hmain, ht⟩ := Option.ite_none_right_eq_some.mp h
      cases ht
      exact .exchanged command hmain
  | deliver m i =>
      obtain ⟨p, hp, rfl⟩ := Option.map_eq_some_iff.mp h
      exact .delivered m i p hp
  | exit m i =>
      obtain ⟨p, hp, rfl⟩ := Option.map_eq_some_iff.mp h
      exact .exited m i p hp

/-! ## What the steps do to a page -/

def Assigns.media (d : Assigns) : MediaPage → Option MediaStatus
  | .music => d.musicStatus
  | .video => d.videoStatus

theorem apply_media (d : Assigns) (w : Words) (m : MediaPage) :
    (d.apply w).media m = (d.media m).getD (w.media m) := by
  cases m <;> rfl

theorem dispatch_media {w : Words} {m : MediaPage} (h : w.uiStatus ≠ m.uiStatus)
    (a b moveX moveY : ℤ) : (dispatch a b moveX moveY w).media m = none := by
  have hmain := procTsMain_words a b
  have hpic := procTsPic_words a b moveX moveY w.picStatus
  have hvoice := procTsVoice_words a b
  unfold dispatch
  cases hui : w.uiStatus with
  | uiMain => cases m <;> simp [Assigns.media, hmain]
  | uiPic => cases m <;> simp [Assigns.media, hpic]
  | uiVoice => cases m <;> simp [Assigns.media, hvoice]
  | uiEnd => cases m <;> rfl
  | uiMusic =>
      cases m with
      | music => exact absurd hui h
      | video => exact (procTsMusic_words a b w.musicStatus).2.2
  | uiVideo =>
      cases m with
      | video => exact absurd hui h
      | music => exact (procTsVideo_words a b w.videoStatus).2.2

/-- The handler of a media page leaves `ui_status` alone until it has slept. -/
theorem dispatch_uiStatus {w : Words} {m : MediaPage} (h : w.uiStatus = m.uiStatus)
    (a b moveX moveY : ℤ) : (dispatch a b moveX moveY w).uiStatus = none := by
  cases m with
  | music =>
      rw [dispatch_of_uiMusic h]
      exact (procTsMusic_words a b w.musicStatus).1
  | video =>
      rw [dispatch_of_uiVideo h]
      exact (procTsVideo_words a b w.videoStatus).1

def Sys.mediaPc (s : Sys) (m : MediaPage) : Option (LoopPc MediaStatus) :=
  match s.main with
  | .procMedia m' pc => if m' = m then some pc else none
  | _ => none

def Sys.picPc (s : Sys) : Option (LoopPc PicStatus) :=
  match s.main with
  | .procPic pc => some pc
  | _ => none

/-- The text that `proc_voice` is about to compare. -/
def Sys.command (s : Sys) : Option Bytes :=
  match s.main with
  | .procVoice (.compare command) => some command
  | _ => none

@[simp] theorem player_setPlayer (s : Sys) (p : Player) (m m' : MediaPage) :
    (s.setPlayer p m).player m' = if m = m' then p else s.player m' := by
  cases m <;> cases m' <;> rfl

@[simp] theorem words_setPlayer (s : Sys) (p : Player) (m : MediaPage) :
    (s.setPlayer p m).words = s.words := by
  cases m <;> rfl

@[simp] theorem main_setPlayer (s : Sys) (p : Player) (m : MediaPage) :
    (s.setPlayer p m).main = s.main := by
  cases m <;> rfl

@[simp] theorem media_setMedia (w : Words) (c : MediaStatus) (m m' : MediaPage) :
    (w.setMedia c m).media m' = if m = m' then c else w.media m' := by
  cases m <;> cases m' <;> rfl

@[simp] theorem uiStatus_setMedia (w : Words) (c : MediaStatus) (m : MediaPage) :
    (w.setMedia c m).uiStatus = w.uiStatus := by
  cases m <;> rfl

/-- What a step of the main thread does to a media page. -/
inductive LoopChange (m : MediaPage) (s t : Sys) : Prop
  | loop (pc : LoopPc MediaStatus) (hs : s.mediaPc m = some pc)
      (ht : t.mediaPc m = pc.next (s.words.uiStatus = m.uiStatus) (s.words.media m))
      (hui : t.words.uiStatus = s.words.uiStatus)
      (hword : t.words.media m = (pc.write mediaFollowUp).getD (s.words.media m))
      (hplayer : t.player m = (s.player m).execArm (pc.stmts mediaArm)) : LoopChange m s t
  | entered (hs : s.mediaPc m = none) (ht : t.mediaPc m = some .entry)
      (hui : s.words.uiStatus = m.uiStatus) (hwords : t.words = s.words)
      (hplayer : t.player m = s.player m) : LoopChange m s t
  | elsewhere (hs : s.mediaPc m = none) (ht : t.mediaPc m = none)
      (hword : t.words.media m = s.words.media m)
      (hplayer : t.player m = s.player m) : LoopChange m s t

/-- What a step can do to the words, the point and the player of a media page. -/
inductive MediaChange (m : MediaPage) (s t : Sys) : Label → Prop
  | loop (pc : LoopPc MediaStatus) (hs : s.mediaPc m = some pc)
      (ht : t.mediaPc m = pc.next (s.words.uiStatus = m.uiStatus) (s.words.media m))
      (hui : t.words.uiStatus = s.words.uiStatus)
      (hword : t.words.media m = (pc.write mediaFollowUp).getD (s.words.media m))
      (hplayer : t.player m = (s.player m).execArm (pc.stmts mediaArm)) : MediaChange m s t .main
  | entered (hs : s.mediaPc m = none) (ht : t.mediaPc m = some .entry)
      (hui : s.words.uiStatus = m.uiStatus) (hwords : t.words = s.words)
      (hplayer : t.player m = s.player m) : MediaChange m s t .main
  | elsewhere {l : Label} (hs : s.mediaPc m = none) (ht : t.mediaPc m = none)
      (hword : t.words.media m = s.words.media m)
      (hplayer : t.player m = s.player m) : MediaChange m s t l
  | touched {a b moveX moveY : ℤ} (ht : t.mediaPc m = s.mediaPc m)
      (hwords : t.words = (dispatch a b moveX moveY s.words).apply s.words)
      (hplayer : t.player m = s.player m) : MediaChange m s t (.touch a b moveX moveY)
  | resumed (ht : t.mediaPc m = s.mediaPc m) (hui : t.words.uiStatus = .uiMain)
      (hword : t.words.media m = s.words.media m)
      (hplayer : t.player m = s.player m) : MediaChange m s t .resume
  | event {l : Label} (ht : t.mediaPc m = s.mediaPc m) (hwords : t.words = s.words)
      (hprocs : (s.player m).procs = [] → (t.player m).procs = []) : MediaChange m s t l

theorem mediaPc_eq_some {s : Sys} {m : MediaPage} {pc : LoopPc MediaStatus} :
    s.mediaPc m = some pc ↔ s.main = .procMedia m pc := by
  cases hmain : s.main with
  | procMedia m' pc' =>
      by_cases hm : m' = m
      · subst hm
        simp [Sys.mediaPc, hmain]
      · simp [Sys.mediaPc, hmain, hm]
  | _ => simp [Sys.mediaPc, hmain]

theorem mediaPc_of_page (s : Sys) (u : UiStatus) (m : MediaPage) :
    Sys.mediaPc { s with main := page u } m = if u = m.uiStatus then some .entry else none := by
  cases u <;> cases m <;> rfl

theorem mediaArm_eq (m : MediaPage) : m.arm = mediaArm := by
  cases m <;> rfl

theorem mediaFollowUp_eq (m : MediaPage) : m.followUp = mediaFollowUp := by
  cases m <;> rfl

theorem media_setUi (s : Sys) (u : UiStatus) (m : MediaPage) :
    (s.setUi u).words.media m = s.words.media m := by
  cases m <;> rfl

theorem loopChange_mainStep {s t : Sys} (h : mainStep s = some t) (m : MediaPage) :
    LoopChange m s t := by
  unfold mainStep at h
  cases hmain : s.main with
  | select =>
      simp only [hmain, Option.some.injEq] at h
      subst h
      have hs : s.mediaPc m = none := by simp [Sys.mediaPc, hmain]
      by_cases hui : s.words.uiStatus = m.uiStatus
      · exact .entered hs (by rw [mediaPc_of_page, if_pos hui]) hui rfl (by cases m <;> rfl)
      · exact .elsewhere hs (by rw [mediaPc_of_page, if_neg hui]) rfl (by cases m <;> rfl)
  | procMain =>
      simp only [hmain, Option.some.injEq] at h
      subst h
      have hs : s.mediaPc m = none := by simp [Sys.mediaPc, hmain]
      split
      · exact .elsewhere hs hs rfl rfl
      · exact .elsewhere hs rfl rfl (by cases m <;> rfl)
  | procPic pc =>
      simp only [hmain, Option.some.injEq] at h
      subst h
      have hs : s.mediaPc m = none := by simp [Sys.mediaPc, hmain]
      refine .elsewhere hs ?_ (by cases m <;> rfl) (by cases m <;> rfl)
      cases pc.next (s.words.uiStatus = .uiPic) s.words.picStatus <;> rfl
  | procMedia m' pc =>
      simp only [hmain, Option.some.injEq] at h
      subst h
      by_cases hm : m' = m
      · subst hm
        refine .loop pc (mediaPc_eq_some.mpr hmain) ?_ (by simp) ?_ ?_
        · cases hnext : pc.next (s.words.uiStatus = m'.uiStatus) (s.words.media m') with
          | none => simp [Sys.mediaPc]
          | some pc' => simp [Sys.mediaPc]
        · simp [mediaFollowUp_eq]
        · simp [mediaArm_eq]
      · refine .elsewhere (by simp [Sys.mediaPc, hmain, hm]) ?_ (by simp [hm]) (by
          simp only [player_setPlayer, hm, if_false]
          cases m <;> rfl)
        cases hnext : pc.next (s.words.uiStatus = m'.uiStatus) (s.words.media m') with
        | none => simp [Sys.mediaPc]
        | some pc' => simp [Sys.mediaPc, hm]
  | procVoice pc =>
      have hs : s.mediaPc m = none := by simp [Sys.mediaPc, hmain]
      cases pc with
      | entry =>
          simp only [hmain, Option.some.injEq] at h
          subst h
          exact .elsewhere hs rfl rfl (by cases m <;> rfl)
      | test =>
          simp only [hmain, Option.some.injEq] at h
          subst h
          refine .elsewhere hs ?_ rfl (by cases m <;> rfl)
          by_cases hui : s.words.uiStatus = .uiVoice <;> simp [Sys.mediaPc, hui]
      | exchange => simp [hmain] at h
      | compare command =>
          simp only [hmain, Option.some.injEq] at h
          subst h
          exact .elsewhere hs rfl (media_setUi s _ m) (by cases m <;> rfl)
  | ended => simp [hmain] at h

theorem mediaChange_mainStep {s t : Sys} (h : mainStep s = some t) (m : MediaPage) :
    MediaChange m s t .main := by
  cases loopChange_mainStep h m with
  | loop pc hs ht hui hword hplayer => exact .loop pc hs ht hui hword hplayer
  | entered hs ht hui hwords hplayer => exact .entered hs ht hui hwords hplayer
  | elsewhere hs ht hword hplayer => exact .elsewhere hs ht hword hplayer

/-- The spec of `step` for a media page. -/
theorem mediaChange_step {s t : Sys} {l : Label} (h : step s l = some t) (m : MediaPage) :
    MediaChange m s t l := by
  cases stepChange_step h with
  | touched a b moveX moveY => exact .touched rfl rfl (by cases m <;> rfl)
  | resumed => exact .resumed rfl rfl (media_setUi s _ m) (by cases m <;> rfl)
  | main ht => exact mediaChange_mainStep ht m
  | exchanged command hmain =>
      exact .elsewhere (by simp [Sys.mediaPc, hmain]) rfl rfl (by cases m <;> rfl)
  | delivered m' i p hp =>
      refine .event (by simp [Sys.mediaPc]) (words_setPlayer s p m') fun hnil ↦ ?_
      rw [player_setPlayer]
      split
      next hm => exact Player.procs_of_deliver hp (hm ▸ hnil)
      next => exact hnil
  | exited m' i p hp =>
      refine .event (by simp [Sys.mediaPc]) (words_setPlayer s p m') fun hnil ↦ ?_
      rw [player_setPlayer]
      split
      next hm => exact Player.procs_of_exit hp (hm ▸ hnil)
      next => exact hnil

/-- The main thread's point is moved by its own steps and by the end of an exchange. -/
theorem main_of_step {s t : Sys} {l : Label} (h : step s l = some t) (hl : l ≠ .main) :
    t.main = s.main ∨ ∃ command, t.main = .procVoice (.compare command) := by
  cases stepChange_step h with
  | touched a b moveX moveY => exact Or.inl rfl
  | resumed => exact Or.inl rfl
  | main ht => exact absurd rfl hl
  | exchanged command => exact Or.inr ⟨command, rfl⟩
  | delivered m i p => exact Or.inl (main_setPlayer s p m)
  | exited m i p => exact Or.inl (main_setPlayer s p m)

/-! ## What the steps write -/

/-- The main thread writes `ui_status` when it compares a reply, and `pic_status` at the
end of an arm of `proc_pic`. -/
theorem words_mainStep {s t : Sys} (h : mainStep s = some t) :
    t.words.uiStatus = (s.command.bind voiceTarget).getD s.words.uiStatus ∧
      t.words.picStatus = (s.picPc.bind fun pc ↦ pc.write picFollowUp).getD s.words.picStatus := by
  unfold mainStep at h
  cases hmain : s.main with
  | select =>
      simp only [hmain, Option.some.injEq] at h
      simp [← h, Sys.command, Sys.picPc, hmain]
  | procMain =>
      simp only [hmain, Option.some.injEq] at h
      rw [← h]
      split <;> simp [Sys.command, Sys.picPc, hmain]
  | procPic pc =>
      simp only [hmain, Option.some.injEq] at h
      simp [← h, Sys.command, Sys.picPc, hmain]
  | procMedia m pc =>
      simp only [hmain, Option.some.injEq] at h
      cases m <;> simp [← h, Sys.command, Sys.picPc, hmain, Words.setMedia]
  | procVoice pc =>
      cases pc with
      | exchange => simp [hmain] at h
      | _ =>
          simp only [hmain, Option.some.injEq] at h
          simp [← h, Sys.command, Sys.picPc, hmain, Sys.setUi]
  | ended => simp [hmain] at h

/-- What a step does to `ui_status` and `pic_status`. -/
inductive WordsChange (s t : Sys) : Label → Prop
  | touched (a b moveX moveY : ℤ)
      (ht : t.words = (dispatch a b moveX moveY s.words).apply s.words) :
      WordsChange s t (.touch a b moveX moveY)
  | resumed (ht : t.words = { s.words with uiStatus := .uiMain }) : WordsChange s t .resume
  | main (hui : t.words.uiStatus = (s.command.bind voiceTarget).getD s.words.uiStatus)
      (hpic : t.words.picStatus =
        (s.picPc.bind fun pc ↦ pc.write picFollowUp).getD s.words.picStatus) :
      WordsChange s t .main
  | exchanged {command : Bytes} (ht : t.words = s.words) : WordsChange s t (.exchange command)
  | delivered {m : MediaPage} {i : ℕ} (ht : t.words = s.words) : WordsChange s t (.deliver m i)
  | exited {m : MediaPage} {i : ℕ} (ht : t.words = s.words) : WordsChange s t (.exit m i)

theorem wordsChange_step {s t : Sys} {l : Label} (h : step s l = some t) : WordsChange s t l := by
  cases stepChange_step h with
  | touched a b moveX moveY => exact .touched a b moveX moveY rfl
  | resumed => exact .resumed rfl
  | main ht =>
      obtain ⟨hui, hpic⟩ := words_mainStep ht
      exact .main hui hpic
  | exchanged command => exact .exchanged rfl
  | delivered m i p => exact .delivered (words_setPlayer s p m)
  | exited m i p => exact .exited (words_setPlayer s p m)

end EmbeddedSystem.Ui
