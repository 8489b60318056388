import EmbeddedSystem.Ui.Progress
import Mathlib.Logic.Function.Basic

/-!
# The play and pause icons

The media pages draw the icon in the middle of the bottom row twice over: with their other
buttons on entry, where it is always the pause icon, and in the handler, next to the command
that the handler writes.  Here the icon is a history of the run, set against the status word.
-/

namespace EmbeddedSystem.Ui

open Runs

inductive Icon
  | play
  | pause
  deriving DecidableEq, Repr

/-- The icon that the handler of a media page draws: `showMusicPlay` or `showMusicPause`, and
`showVideoPlay` or `showVideoPause` on the video page. -/
def tapIcon (backX a b : ℤ) (status : MediaStatus) : Option Icon :=
  if a > 370 ∧ a < 430 ∧ b > 420 ∧ b < 480 ∧ status = .null then some .play
  else if a > 370 ∧ a < 430 ∧ b > 420 ∧ b < 480 ∧ status = .play then some .pause
  else if a > 370 ∧ a < 430 ∧ b > 420 ∧ b < 480 ∧ status = .pause then some .play
  else if a > backX ∧ b < 60 then none
  else if a > 250 ∧ a < 310 ∧ b > 420 ∧ b < 480 then some .play
  else if a > 490 ∧ a < 550 ∧ b > 420 ∧ b < 480 then some .play
  else none

def MediaPage.backX : MediaPage → ℤ
  | .music => 740
  | .video => 760

/-- The icons that were drawn last on the two pages. -/
abbrev Icons := MediaPage → Icon

/-- What the touch thread draws in the `switch (ui_status)`. -/
def touchIcons (a b : ℤ) (w : Words) (icons : Icons) : Icons :=
  match w.uiStatus with
  | .uiMusic =>
    Function.update icons .music
      ((tapIcon MediaPage.music.backX a b w.musicStatus).getD (icons .music))
  | .uiVideo =>
    Function.update icons .video
      ((tapIcon MediaPage.video.backX a b w.videoStatus).getD (icons .video))
  | _ => icons

def recordIcons (s : Sys) (l : Label) (icons : Icons) : Icons :=
  match l, s.main with
  | .touch a b _ _, _ => touchIcons a b s.words icons
  -- showMusicButtons and showVideoButtons draw pause.bmp and pause_white.bmp
  | .main, .procMedia m .entry => Function.update icons m .pause
  | _, _ => icons

/-- The icon that belongs to a value of the status word. -/
def MediaStatus.icon : MediaStatus → Icon
  | .play => .play
  | .start => .play
  | .next => .play
  | .prev => .play
  | .conti => .play
  | .null => .pause
  | .pause => .pause
  | .hold => .pause
  | .stop => .pause

/-- The main thread executes no command of a media page. -/
def Sys.between (s : Sys) : Bool :=
  match s.main with
  | .procMedia _ .test => true
  | .procMedia _ .switch => true
  | .procMedia _ _ => false
  | _ => true

/-- A touch comes when the page that it is for is shown, and not while a media page
executes a command. -/
def Unhurried (s : Sys) : Label → Prop
  | .touch _ _ _ _ => s.OnPage ∧ s.between
  | _ => True

instance (s : Sys) : ∀ l, Decidable (Unhurried s l)
  | .touch _ _ _ _ => inferInstanceAs (Decidable (_ ∧ _))
  | .resume => .isTrue trivial
  | .main => .isTrue trivial
  | .exchange _ => .isTrue trivial
  | .deliver _ _ => .isTrue trivial
  | .exit _ _ => .isTrue trivial

/-! ## The handler -/

theorem procTsMedia_icon (assign : MediaStatus → Assigns) (backX a b : ℤ)
    (status : MediaStatus) :
    (∃ c, procTsMedia assign backX a b status = assign c ∧
      tapIcon backX a b status = some c.icon) ∨
    (procTsMedia assign backX a b status = { assign .stop with back := true } ∧
      tapIcon backX a b status = none) ∨
    (procTsMedia assign backX a b status = {} ∧ tapIcon backX a b status = none) := by
  unfold procTsMedia tapIcon
  split_ifs
  · exact Or.inl ⟨.start, rfl, rfl⟩
  · exact Or.inl ⟨.hold, rfl, rfl⟩
  · exact Or.inl ⟨.conti, rfl, rfl⟩
  · exact Or.inr (Or.inl ⟨rfl, rfl⟩)
  · exact Or.inl ⟨.prev, rfl, rfl⟩
  · exact Or.inl ⟨.next, rfl, rfl⟩
  · exact Or.inr (Or.inr ⟨rfl, rfl⟩)

/-- The three things that a touch can do on the page that is shown: a command with its icon,
the way back, or nothing. -/
theorem tap_cases {w : Words} {m : MediaPage} (hui : w.uiStatus = m.uiStatus)
    (a b moveX moveY : ℤ) (icons : Icons) :
    let d := dispatch a b moveX moveY w
    (∃ c : MediaStatus, d.media m = some c ∧ touchIcons a b w icons m = c.icon ∧ d.back = false) ∨
    (d.media m = some .stop ∧ d.back = true) ∨
    (d.media m = none ∧ touchIcons a b w icons m = icons m ∧ d.back = false) := by
  cases m with
  | music =>
      have hicons : touchIcons a b w icons .music =
          (tapIcon 740 a b w.musicStatus).getD (icons .music) := by
        simp [touchIcons, hui, MediaPage.uiStatus, MediaPage.backX]
      rw [dispatch_of_uiMusic hui, hicons, procTsMusic]
      obtain ⟨c, hc, hicon⟩ | ⟨hback, -⟩ | ⟨hnone, hicon⟩ :=
        procTsMedia_icon (fun c ↦ { musicStatus := some c }) 740 a b w.musicStatus
      · exact Or.inl ⟨c, by rw [hc]; rfl, by rw [hicon]; rfl, by rw [hc]⟩
      · exact Or.inr (Or.inl ⟨by rw [hback]; rfl, by rw [hback]⟩)
      · exact Or.inr (Or.inr ⟨by rw [hnone]; rfl, by rw [hicon]; rfl, by rw [hnone]⟩)
  | video =>
      have hicons : touchIcons a b w icons .video =
          (tapIcon 760 a b w.videoStatus).getD (icons .video) := by
        simp [touchIcons, hui, MediaPage.uiStatus, MediaPage.backX]
      rw [dispatch_of_uiVideo hui, hicons, procTsVideo]
      obtain ⟨c, hc, hicon⟩ | ⟨hback, -⟩ | ⟨hnone, hicon⟩ :=
        procTsMedia_icon (fun c ↦ { videoStatus := some c }) 760 a b w.videoStatus
      · exact Or.inl ⟨c, by rw [hc]; rfl, by rw [hicon]; rfl, by rw [hc]⟩
      · exact Or.inr (Or.inl ⟨by rw [hback]; rfl, by rw [hback]⟩)
      · exact Or.inr (Or.inr ⟨by rw [hnone]; rfl, by rw [hicon]; rfl, by rw [hnone]⟩)

/-! ## The invariant -/

/-- Nothing plays on a page that is left or has not been used. -/
def Resting (c : MediaStatus) : Prop := c = .null ∨ c = .stop

theorem icon_of_resting {c : MediaStatus} (h : Resting c) : c.icon = .pause := by
  obtain rfl | rfl := h <;> rfl

theorem resting_followUp {c : MediaStatus} (h : Resting c) :
    Resting ((mediaFollowUp c).getD c) := by
  obtain rfl | rfl := h <;> exact Or.inl rfl

theorem icon_followUp (c : MediaStatus) : ((mediaFollowUp c).getD c).icon = c.icon := by
  cases c <;> rfl

/-- The page is drawn, its handler is the one that is called, and no back button sleeps. -/
def Open (m : MediaPage) (s : Sys) : Prop := s.touch = .idle ∧ s.words.uiStatus = m.uiStatus

instance (m : MediaPage) (s : Sys) : Decidable (Open m s) := inferInstanceAs (Decidable (_ ∧ _))

structure IconsFit (m : MediaPage) (s : Sys) (icons : Icons) : Prop where
  away : s.mediaPc m = none ∨ s.mediaPc m = some .entry → Resting (s.words.media m)
  arm : ∀ c, s.mediaPc m = some (.act c) ∨ s.mediaPc m = some (.followUp c) →
    c = s.words.media m
  shown : ∀ pc, s.mediaPc m = some pc → pc ≠ .entry → Open m s →
    icons m = (s.words.media m).icon
  closing : ∀ pc, s.mediaPc m = some pc → pc ≠ .entry → ¬ Open m s →
    Resting (s.words.media m)

section Step

variable {m : MediaPage} {s t : Sys} {icons icons' : Icons}

theorem iconsFit_of_away (hpc : t.mediaPc m = none ∨ t.mediaPc m = some .entry)
    (hrest : Resting (t.words.media m)) : IconsFit m t icons := by
  constructor
  · exact fun _ ↦ hrest
  · intro c hc
    obtain hc | hc := hc <;> simp [hc] at hpc
  · intro pc hin hne
    obtain hpc | hpc := hpc <;> simp_all
  · exact fun _ _ _ _ ↦ hrest

theorem iconsFit_of_inside {pc : LoopPc MediaStatus} (hpc : t.mediaPc m = some pc)
    (hne : pc ≠ .entry) (harm : ∀ c, pc = .act c ∨ pc = .followUp c → c = t.words.media m)
    (hshown : Open m t → icons m = (t.words.media m).icon)
    (hclosing : ¬ Open m t → Resting (t.words.media m)) : IconsFit m t icons := by
  constructor
  · intro haway
    obtain haway | haway := haway <;> simp_all
  · intro c hc
    simpa [hpc] using harm c (by simpa [hpc] using hc)
  · exact fun _ _ _ ↦ hshown
  · exact fun _ _ _ ↦ hclosing

theorem recordIcons_of_pc {pc : LoopPc MediaStatus} (hmain : s.main = .procMedia m pc)
    (hne : pc ≠ .entry) : recordIcons s .main icons = icons := by
  cases pc <;> simp_all [recordIcons]

/-- A step of the page's loop. -/
theorem iconsFit_loop (h : IconsFit m s icons) {pc : LoopPc MediaStatus}
    (hs : s.mediaPc m = some pc)
    (ht : t.mediaPc m = pc.next (s.words.uiStatus = m.uiStatus) (s.words.media m))
    (hui : t.words.uiStatus = s.words.uiStatus) (htouch : t.touch = s.touch)
    (hword : t.words.media m = (pc.write mediaFollowUp).getD (s.words.media m)) :
    IconsFit m t (recordIcons s .main icons) := by
  have hmain := mediaPc_eq_some.mp hs
  have hopen : Open m t ↔ Open m s := by rw [Open, Open, hui, htouch]
  cases pc with
  | entry =>
      have hrest : Resting (t.words.media m) := by
        rw [hword]
        exact h.away (Or.inr hs)
      have hicon : recordIcons s .main icons m = .pause := by simp [recordIcons, hmain]
      exact iconsFit_of_inside ht (by simp) (by simp)
        (fun _ ↦ hicon.trans (icon_of_resting hrest).symm) fun _ ↦ hrest
  | test =>
      have hkept : t.words.media m = s.words.media m := hword
      rw [recordIcons_of_pc hmain (by simp)]
      by_cases hshown : s.words.uiStatus = m.uiStatus
      · have hnext : t.mediaPc m = some .switch := by simpa [LoopPc.next, hshown] using ht
        refine iconsFit_of_inside hnext (by simp) (by simp) ?_ ?_
        · rw [hopen, hkept]
          exact h.shown _ hs (by simp)
        · rw [hopen, hkept]
          exact h.closing _ hs (by simp)
      · have hnext : t.mediaPc m = none := by simpa [LoopPc.next, hshown] using ht
        refine iconsFit_of_away (Or.inl hnext) ?_
        rw [hkept]
        exact h.closing _ hs (by simp) fun hOpen ↦ hshown hOpen.2
  | switch =>
      have hkept : t.words.media m = s.words.media m := hword
      rw [recordIcons_of_pc hmain (by simp)]
      refine iconsFit_of_inside ht (by simp) (by simp [hkept]) ?_ ?_
      · rw [hopen, hkept]
        exact h.shown _ hs (by simp)
      · rw [hopen, hkept]
        exact h.closing _ hs (by simp)
  | act c =>
      have hkept : t.words.media m = s.words.media m := hword
      have hc := h.arm c (Or.inl hs)
      rw [recordIcons_of_pc hmain (by simp)]
      refine iconsFit_of_inside ht (by simp) (by simp [hkept, hc]) ?_ ?_
      · rw [hopen, hkept]
        exact h.shown _ hs (by simp)
      · rw [hopen, hkept]
        exact h.closing _ hs (by simp)
  | followUp c =>
      have hc := h.arm c (Or.inr hs)
      have hwritten : t.words.media m = (mediaFollowUp c).getD c := by rw [hword, ← hc]; rfl
      rw [recordIcons_of_pc hmain (by simp)]
      refine iconsFit_of_inside ht (by simp) (by simp) ?_ ?_
      · rw [hopen, hwritten, icon_followUp, hc]
        exact h.shown _ hs (by simp)
      · rw [hopen, hwritten]
        intro hclosed
        exact resting_followUp (hc ▸ h.closing _ hs (by simp) hclosed)

/-- A step that leaves the page, its word and its icon alone. -/
theorem iconsFit_congr (h : IconsFit m s icons) (hpc : t.mediaPc m = s.mediaPc m)
    (hword : t.words.media m = s.words.media m) (hopen : Open m t ↔ Open m s) :
    IconsFit m t icons := by
  constructor
  · rw [hpc, hword]
    exact h.away
  · rw [hpc, hword]
    exact h.arm
  · rw [hpc, hword, hopen]
    exact h.shown
  · rw [hpc, hword, hopen]
    exact h.closing

theorem mediaPc_of_onPage (h : s.OnPage) :
    (∃ pc, s.mediaPc m = some pc) ↔ s.words.uiStatus = m.uiStatus := by
  constructor
  · rintro ⟨pc, hs⟩
    rw [Sys.OnPage, mediaPc_eq_some.mp hs, MainPc.page] at h
    exact (Option.some.inj h).symm
  · intro hui
    rw [Sys.OnPage, hui] at h
    cases hmain : s.main with
    | procMedia m' pc =>
        have hsame : m' = m := by
          rw [hmain] at h
          cases m <;> cases m' <;> first | rfl | cases h
        exact ⟨pc, mediaPc_eq_some.mpr (hsame ▸ hmain)⟩
    | _ => rw [hmain] at h; cases m <;> cases h

/-- A touch of a user who waits for the page. -/
theorem iconsFit_touch (h : IconsFit m s icons) {a b moveX moveY : ℤ}
    (hl : Unhurried s (.touch a b moveX moveY)) (hidle : s.touch = .idle)
    (hpc : t.mediaPc m = s.mediaPc m)
    (hwords : t.words = (dispatch a b moveX moveY s.words).apply s.words)
    (htouch : t.touch = if (dispatch a b moveX moveY s.words).back then .back else .idle) :
    IconsFit m t (recordIcons s (.touch a b moveX moveY) icons) := by
  obtain ⟨honPage, hbetween⟩ := hl
  have hrecord : recordIcons s (.touch a b moveX moveY) icons = touchIcons a b s.words icons := by
    simp [recordIcons]
  have hword : t.words.media m =
      ((dispatch a b moveX moveY s.words).media m).getD (s.words.media m) := by
    rw [hwords, apply_media]
  rw [hrecord]
  by_cases hui : s.words.uiStatus = m.uiStatus
  · obtain ⟨pc, hs⟩ := (mediaPc_of_onPage honPage).mpr hui
    have hpcs : pc = .test ∨ pc = .switch := by
      rw [Sys.between, mediaPc_eq_some.mp hs] at hbetween
      cases pc <;> simp at hbetween ⊢
    have hne : pc ≠ .entry := by
      rintro rfl
      simp at hpcs
    have harm : ∀ c, pc = .act c ∨ pc = .followUp c → c = t.words.media m := by
      intro c hc
      obtain rfl | rfl := hpcs <;> simp at hc
    have hui' : t.words.uiStatus = m.uiStatus := by
      rw [hwords, Assigns.apply, dispatch_uiStatus hui, Option.getD_none, hui]
    have hcases := tap_cases hui a b moveX moveY icons
    obtain ⟨c, hc, hicon, hback⟩ | ⟨hstop, hback⟩ | ⟨hnone, hicon, hback⟩ := hcases
    · have hOpen : Open m t := ⟨by rw [htouch, hback]; rfl, hui'⟩
      refine iconsFit_of_inside (hpc.trans hs) hne harm (fun _ ↦ ?_) fun hnot ↦ absurd hOpen hnot
      rw [hicon, hword, hc, Option.getD_some]
    · have hclosed : ¬ Open m t := fun hOpen ↦ by simp [Open, htouch, hback] at hOpen
      refine iconsFit_of_inside (hpc.trans hs) hne harm (fun hOpen ↦ absurd hOpen hclosed)
        fun _ ↦ ?_
      rw [hword, hstop, Option.getD_some]
      exact Or.inr rfl
    · have hOpen : Open m t := ⟨by rw [htouch, hback]; rfl, hui'⟩
      refine iconsFit_of_inside (hpc.trans hs) hne harm (fun _ ↦ ?_) fun hnot ↦ absurd hOpen hnot
      rw [hicon, hword, hnone, Option.getD_none]
      exact h.shown pc hs hne ⟨hidle, hui⟩
  · have hs : s.mediaPc m = none := by
      rw [Option.eq_none_iff_forall_ne_some]
      exact fun pc hpc ↦ hui ((mediaPc_of_onPage honPage).mp ⟨pc, hpc⟩)
    refine iconsFit_of_away (Or.inl (hpc.trans hs)) ?_
    rw [hword, dispatch_media hui, Option.getD_none]
    exact h.away (Or.inl hs)

theorem iconsFit_player (h : IconsFit m s icons) (p : Player) (m' : MediaPage) :
    IconsFit m (s.setPlayer p m') icons := by
  have hpc : (s.setPlayer p m').mediaPc m = s.mediaPc m := by simp [Sys.mediaPc]
  refine iconsFit_congr h hpc (by rw [words_setPlayer]) ?_
  rw [Open, Open, touch_setPlayer, words_setPlayer]

theorem iconsFit_step (h : IconsFit m s icons) {l : Label} (hl : Unhurried s l)
    (hstep : step s l = some t) : IconsFit m t (recordIcons s l icons) := by
  cases stepChange_step hstep with
  | touched a b moveX moveY htouch hmain => exact iconsFit_touch h hl htouch rfl rfl rfl
  | resumed htouch hmain =>
      refine iconsFit_congr h rfl (media_setUi s _ m) ?_
      have hclosed : ¬ Open m s := by simp [Open, htouch]
      have hother : ¬ Open m { s.setUi .uiMain with touch := .idle } := by
        rintro ⟨-, hui⟩
        cases m <;> cases hui
      exact iff_of_false hother hclosed
  | main ht =>
      cases loopChange_mainStep ht m with
      | loop pc hs htpc hui hword => exact iconsFit_loop h hs htpc hui (touch_mainStep ht) hword
      | entered hs htpc hui hwords =>
          refine iconsFit_of_away (Or.inr htpc) ?_
          rw [hwords]
          exact h.away (Or.inl hs)
      | elsewhere hs htpc hword =>
          refine iconsFit_of_away (Or.inl htpc) ?_
          rw [hword]
          exact h.away (Or.inl hs)
  | exchanged command hmain =>
      refine iconsFit_of_away (Or.inl rfl) (h.away (Or.inl ?_))
      simp [Sys.mediaPc, hmain]
  | delivered m' i p => exact iconsFit_player h p m'
  | exited m' i p => exact iconsFit_player h p m'

end Step

/-- In every run whose touches wait for the page and for its command, the icon of a media page
is the one that belongs to its status word, as long as the page is shown and not being left. -/
theorem icons_agree {ls : List Label} {s : Sys} {icons icons' : Icons}
    (hunhurried : Meets step Unhurried init ls)
    (hrun : run (withHistory step recordIcons) (init, icons) ls = some (s, icons'))
    (m : MediaPage) {pc : LoopPc MediaStatus} (hpc : s.mediaPc m = some pc) (hne : pc ≠ .entry)
    (hopen : Open m s) : icons' m = (s.words.media m).icon := by
  have hinit : IconsFit m init icons := by
    refine iconsFit_of_away (Or.inl rfl) ?_
    cases m <;> exact Or.inl rfl
  have hstep : ∀ (p : Sys × Icons) l (q : Sys × Icons), IconsFit m p.1 p.2 → Unhurried p.1 l →
      withHistory step recordIcons p l = some q → IconsFit m q.1 q.2 := by
    rintro ⟨u, i⟩ l ⟨v, i'⟩ hfit hl hq
    obtain ⟨hv, rfl⟩ := withHistory_eq_some.mp hq
    exact iconsFit_step hfit hl hv
  have hfit := invariant_of_meets hstep hinit (meets_withHistory hunhurried) hrun
  exact hfit.shown pc hpc hne hopen

/-- Onto the music page, and a tap on its middle button. -/
def startMusic : List Label :=
  [.main, .touch 320 320 0 0, .main, .main, .main, .main, .touch 400 450 0 0, .main, .main,
    .main]

def musicStarted : Sys × Icons :=
  (run (withHistory step recordIcons) (init, fun _ ↦ .pause) startMusic).get (by decide +kernel)

theorem icons_agree_of_start : musicStarted.2 .music = .play := by
  have hrun : (run (withHistory step recordIcons) (init, fun _ ↦ .pause) startMusic).isSome := by
    decide +kernel
  exact icons_agree (by decide +kernel) (Option.some_get hrun).symm .music
    (mediaPc_eq_some.mpr (show musicStarted.1.main = .procMedia .music .test by decide +kernel))
    (by decide) (show Open .music musicStarted.1 by decide +kernel)

-- a tap on the next song while the pause command is executed: the song is held, and the icon
-- says that it plays
example :
    (run (withHistory step recordIcons) (init, fun _ ↦ .pause)
      (startMusic ++ [.main, .touch 400 450 0 0, .main, .touch 520 450 0 0, .main, .main])).map
        (fun p ↦ (p.1.words.musicStatus, p.2 .music)) = some (.pause, .play) := by
  decide +kernel

end EmbeddedSystem.Ui
