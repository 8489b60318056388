import EmbeddedSystem.Ui.System

/-!
# Leaving a media page

The back button writes the stop command and, after a short sleep, the page word;
the page's loop tests the page word first.  The page leaves no player behind
when the page word is written only once the loop has no process left or is about
to execute the stop.
-/

namespace EmbeddedSystem.Ui

open Runs

def MediaStatus.Silences (c : MediaStatus) (procs : List Proc) : Prop :=
  c = .stop ∨ (c ≠ .start ∧ c ≠ .next ∧ c ≠ .prev) ∧ procs = []

instance (c : MediaStatus) (procs : List Proc) : Decidable (c.Silences procs) :=
  inferInstanceAs (Decidable (_ ∨ _))

/-- The loop leaves no process if it runs on to its next test and then returns. -/
def Quiet (word : MediaStatus) (procs : List Proc) : LoopPc MediaStatus → Prop
  | .entry => procs = []
  | .test => procs = []
  | .switch => word.Silences procs
  | .act c => c.Silences procs
  | .followUp _ => procs = []

instance (word : MediaStatus) (procs : List Proc) :
    (pc : LoopPc MediaStatus) → Decidable (Quiet word procs pc)
  | .entry => inferInstanceAs (Decidable (procs = []))
  | .test => inferInstanceAs (Decidable (procs = []))
  | .switch => inferInstanceAs (Decidable (word.Silences procs))
  | .act c => inferInstanceAs (Decidable (c.Silences procs))
  | .followUp _ => inferInstanceAs (Decidable (procs = []))

def QuietAt (m : MediaPage) (s : Sys) : Prop :=
  ∀ pc ∈ s.mediaPc m, Quiet (s.words.media m) (s.player m).procs pc

instance (m : MediaPage) (s : Sys) : Decidable (QuietAt m s) :=
  match h : s.mediaPc m with
  | none => .isTrue (by simp [QuietAt, h])
  | some pc => decidable_of_iff (Quiet (s.words.media m) (s.player m).procs pc)
      (by simp [QuietAt, h])

/-- The back button writes `ui_status` only when the loop it ends is quiet. -/
def LeavesQuietly (s : Sys) (l : Label) : Prop :=
  l = .resume → QuietAt .music s ∧ QuietAt .video s

instance (s : Sys) (l : Label) : Decidable (LeavesQuietly s l) :=
  inferInstanceAs (Decidable (_ → _))

theorem procs_execArm_iff (c : MediaStatus) (p : Player) :
    (p.execArm (mediaArm c)).procs = [] ↔ c.Silences p.procs := by
  cases c <;> simp [mediaArm, Player.execArm, Player.exec, Player.play, Player.stop,
    Player.pause, Player.conti, MediaStatus.Silences]

/-- No process exists outside the page, and inside it the loop is quiet as soon
as the page word is another. -/
def Silent (m : MediaPage) (s : Sys) : Prop :=
  match s.mediaPc m with
  | none => (s.player m).procs = []
  | some pc => s.words.uiStatus = m.uiStatus ∨ Quiet (s.words.media m) (s.player m).procs pc

theorem silent_of_mediaPc_none {m : MediaPage} {s : Sys} (h : s.mediaPc m = none) :
    Silent m s ↔ (s.player m).procs = [] := by
  rw [Silent, h]

theorem silent_of_mediaPc_some {m : MediaPage} {s : Sys} {pc : LoopPc MediaStatus}
    (h : s.mediaPc m = some pc) : Silent m s ↔
      s.words.uiStatus = m.uiStatus ∨ Quiet (s.words.media m) (s.player m).procs pc := by
  rw [Silent, h]

theorem Quiet.of_nil {word : MediaStatus} {procs procs' : List Proc}
    {pc : LoopPc MediaStatus} (h : procs = [] → procs' = []) (hq : Quiet word procs pc) :
    Quiet word procs' pc := by
  cases pc with
  | entry => exact h hq
  | test => exact h hq
  | switch => exact hq.imp id (And.imp_right h)
  | act c => exact hq.imp id (And.imp_right h)
  | followUp c => exact h hq

theorem silent_loop {m : MediaPage} {s t : Sys} {pc : LoopPc MediaStatus}
    (hs : s.mediaPc m = some pc)
    (ht : t.mediaPc m = pc.next (s.words.uiStatus = m.uiStatus) (s.words.media m))
    (hui : t.words.uiStatus = s.words.uiStatus)
    (hplayer : t.player m = (s.player m).execArm (pc.stmts mediaArm)) (h : Silent m s) :
    Silent m t := by
  rw [silent_of_mediaPc_some hs] at h
  cases pc with
  | entry =>
      rw [silent_of_mediaPc_some ht, hui, hplayer]
      exact h
  | test =>
      by_cases hopen : s.words.uiStatus = m.uiStatus
      · have ht' : t.mediaPc m = some .switch := by simp [ht, LoopPc.next, hopen]
        rw [silent_of_mediaPc_some ht', hui]
        exact Or.inl hopen
      · rw [silent_of_mediaPc_none (by simp [ht, LoopPc.next, hopen]), hplayer]
        exact h.resolve_left hopen
  | switch =>
      rw [silent_of_mediaPc_some ht, hui, hplayer]
      exact h
  | act c =>
      rw [silent_of_mediaPc_some ht, hui, hplayer]
      exact h.imp id (procs_execArm_iff c (s.player m)).mpr
  | followUp c =>
      rw [silent_of_mediaPc_some ht, hui, hplayer]
      exact h

theorem silent_step {m : MediaPage} {s t : Sys} {l : Label} (h : Silent m s)
    (hquiet : l = .resume → QuietAt m s) (hstep : step s l = some t) : Silent m t := by
  cases mediaChange_step hstep m with
  | loop pc hs ht hui _ hplayer => exact silent_loop hs ht hui hplayer h
  | entered _ ht hui hwords _ =>
      rw [silent_of_mediaPc_some ht, hwords]
      exact Or.inl hui
  | elsewhere hs ht _ hplayer =>
      rw [silent_of_mediaPc_none hs] at h
      rw [silent_of_mediaPc_none ht, hplayer, h]
  | touched ht hwords hplayer =>
      cases hs : s.mediaPc m with
      | none =>
          rw [silent_of_mediaPc_none hs] at h
          rw [silent_of_mediaPc_none (ht.trans hs), hplayer, h]
      | some pc =>
          rw [silent_of_mediaPc_some hs] at h
          rw [silent_of_mediaPc_some (ht.trans hs), hplayer, hwords, apply_media]
          by_cases hopen : s.words.uiStatus = m.uiStatus
          · exact Or.inl (by simp [Assigns.apply, dispatch_uiStatus hopen, hopen])
          · rw [dispatch_media hopen]
            exact Or.inr (h.resolve_left hopen)
  | resumed ht _ hword hplayer =>
      cases hs : s.mediaPc m with
      | none =>
          rw [silent_of_mediaPc_none hs] at h
          rw [silent_of_mediaPc_none (ht.trans hs), hplayer, h]
      | some pc =>
          rw [silent_of_mediaPc_some (ht.trans hs), hplayer, hword]
          exact Or.inr (hquiet rfl pc hs)
  | event ht hwords hprocs =>
      cases hs : s.mediaPc m with
      | none =>
          rw [silent_of_mediaPc_none hs] at h
          rw [silent_of_mediaPc_none (ht.trans hs)]
          exact hprocs h
      | some pc =>
          rw [silent_of_mediaPc_some hs] at h
          rw [silent_of_mediaPc_some (ht.trans hs), hwords]
          exact h.imp id (Quiet.of_nil hprocs)

/-- In every run in which the back button ends only quiet loops, no player
process exists while the main thread is outside its page. -/
theorem left_pages_are_silent {ls : List Label} {t : Sys}
    (hquiet : Meets step LeavesQuietly init ls) (hrun : run step init ls = some t) :
    (t.mediaPc .music = none → t.madplay.procs = []) ∧
      (t.mediaPc .video = none → t.mplayer.procs = []) := by
  have hstep : ∀ s l u, (Silent .music s ∧ Silent .video s) → LeavesQuietly s l →
      step s l = some u → Silent .music u ∧ Silent .video u := by
    rintro s l u ⟨hmusic, hvideo⟩ hl hu
    exact ⟨silent_step hmusic (fun h ↦ (hl h).1) hu, silent_step hvideo (fun h ↦ (hl h).2) hu⟩
  have hinit : Silent .music init ∧ Silent .video init := ⟨rfl, rfl⟩
  obtain ⟨hmusic, hvideo⟩ := invariant_of_meets hstep hinit hquiet hrun
  exact ⟨fun h ↦ (silent_of_mediaPc_none h).mp hmusic, fun h ↦ (silent_of_mediaPc_none h).mp hvideo⟩

/-- Open the music page, start a song, and touch the back button. -/
def playAndBack : List Label :=
  [.main, .touch 300 300 0 0, .main, .main, .main, .touch 400 450 0 0, .main, .main, .main, .main,
    .touch 780 30 0 0]

theorem left_music_page_is_silent :
    ((run step init (playAndBack ++ [.main, .main, .resume, .main, .main, .main])).get
      (by decide)).madplay.procs = [] :=
  (left_pages_are_silent (by decide) (Option.some_get _).symm).1 (by decide)

/-- Back at the test of the page word, the loop returns before it reads the stop
command. -/
theorem left_music_page_plays_on :
    (run step init (playAndBack ++ [.resume, .main])).map (fun t ↦ (t.main, t.madplay.procs)) =
      some (.select, [.running]) := by decide

end EmbeddedSystem.Ui
