import EmbeddedSystem.Ui.System

/-!
# The two ways into the album

A tap on the main page and a voice command both write `UI_PIC`, but only the tap also
writes `PIC_PLAY`; and the album leaves other values in `pic_status`.
-/

namespace EmbeddedSystem.Ui

open Runs

/-- When the step writes `UI_PIC`, it leaves `pic_status` at `PIC_PLAY`. -/
def OpensWithPlay (s : Sys) (l : Label) : Prop :=
  ∀ t ∈ step s l, s.words.uiStatus ≠ .uiPic → t.words.uiStatus = .uiPic →
    t.words.picStatus = .picPlay

instance (s : Sys) (l : Label) : Decidable (OpensWithPlay s l) :=
  inferInstanceAs (Decidable (∀ t ∈ step s l, s.words.uiStatus ≠ .uiPic →
    t.words.uiStatus = .uiPic → t.words.picStatus = .picPlay))

/-- Whether the album's handler or its loop has written to `pic_status` since the start
or the last tap on the album's button. -/
def used (s : Sys) : Label → Bool → Bool
  | .touch a b moveX moveY, h =>
    match s.words.uiStatus with
    | .uiPic => h || (dispatch a b moveX moveY s.words).picStatus.isSome
    | .uiMain => h && (dispatch a b moveX moveY s.words).uiStatus ≠ some .uiPic
    | _ => h
  | .main, h => h || (s.picPc.bind fun pc ↦ pc.write picFollowUp).isSome
  | _, h => h

/-- No voice command opens the album after such a write. -/
def VoiceOpensUnused (p : Sys × Bool) (l : Label) : Prop :=
  l = .main → p.1.words.uiStatus ≠ .uiPic → p.1.command.bind voiceTarget = some .uiPic →
    p.2 = false

/-- The only writes of `PIC_PLAY` are those of the tap. -/
def Tracks (p : Sys × Bool) : Prop := p.1.words.picStatus = .picPlay ↔ p.2 = false

theorem procTsPic_picStatus (a b moveX moveY : ℤ) (status : PicStatus) :
    ∀ c ∈ (procTsPic a b moveX moveY status).picStatus, c ≠ .picPlay := by
  unfold procTsPic
  dsimp only
  split_ifs <;> simp

theorem procTsMain_picStatus (a b : ℤ) :
    (procTsMain a b).picStatus =
      if (procTsMain a b).uiStatus = some .uiPic then some .picPlay else none := by
  unfold procTsMain
  split_ifs <;> simp_all

theorem picFollowUp_ne (c : PicStatus) : ∀ w ∈ picFollowUp c, w ≠ .picPlay := by
  cases c <;> simp [picFollowUp]

/-! ## The history -/

theorem tracks_touch {s : Sys} {h : Bool} (htracks : Tracks (s, h)) (a b moveX moveY : ℤ) :
    (dispatch a b moveX moveY s.words).picStatus.getD s.words.picStatus = .picPlay ↔
      used s (.touch a b moveX moveY) h = false := by
  have hpic := procTsPic_picStatus a b moveX moveY s.words.picStatus
  have hmain := procTsMain_picStatus a b
  unfold used Tracks at *
  cases hui : s.words.uiStatus with
  | uiPic =>
      simp only [dispatch, hui]
      cases hc : (procTsPic a b moveX moveY s.words.picStatus).picStatus with
      | none => simpa using htracks
      | some c => simpa using hpic c hc
  | uiMain =>
      simp only [dispatch, hui, hmain]
      split
      next htap => simp [htap]
      next htap => simpa [htap] using htracks
  | uiVoice => simpa [dispatch, hui, (procTsVoice_words a b).1] using htracks
  | uiMusic => simpa [dispatch, hui, (procTsMusic_words a b s.words.musicStatus).2.1] using htracks
  | uiVideo => simpa [dispatch, hui, (procTsVideo_words a b s.words.videoStatus).2.1] using htracks
  | uiEnd => simpa [dispatch, hui] using htracks

theorem tracks_step {p q : Sys × Bool} {l : Label} (h : Tracks p)
    (hstep : withHistory step used p l = some q) : Tracks q := by
  obtain ⟨s, b⟩ := p
  obtain ⟨t, b'⟩ := q
  obtain ⟨hsys, hb⟩ := withHistory_eq_some.mp hstep
  dsimp only at hsys hb
  subst hb
  cases wordsChange_step hsys with
  | touched a b moveX moveY ht =>
      rw [Tracks, ht]
      exact tracks_touch h a b moveX moveY
  | resumed ht =>
      rw [Tracks, ht]
      exact h
  | main _ hpic =>
      change t.words.picStatus = .picPlay ↔ used s .main b = false
      rw [hpic, used]
      cases hc : s.picPc.bind fun pc ↦ pc.write picFollowUp with
      | none => simpa [Tracks] using h
      | some c =>
          obtain ⟨pc, -, hwrite⟩ := Option.bind_eq_some_iff.mp hc
          have hne : c ≠ .picPlay := by
            cases pc with
            | followUp d => exact picFollowUp_ne d c hwrite
            | _ => simp [LoopPc.write] at hwrite
          simpa using hne
  | exchanged ht | delivered ht | exited ht =>
      rw [Tracks, ht]
      exact h

/-! ## The ways in -/

/-- A handler that opens the album is the one of the main page. -/
theorem picStatus_of_dispatch {w : Words} {a b moveX moveY : ℤ} (hbefore : w.uiStatus ≠ .uiPic)
    (h : (dispatch a b moveX moveY w).uiStatus = some .uiPic) :
    (dispatch a b moveX moveY w).picStatus = some .picPlay := by
  cases hui : w.uiStatus with
  | uiMain =>
      simp only [dispatch, hui] at h ⊢
      rw [procTsMain_picStatus, if_pos h]
  | uiPic => exact absurd hui hbefore
  | uiVoice =>
      simp only [dispatch, hui, procTsVoice] at h
      split_ifs at h
      cases h
  | uiMusic => simp [dispatch, hui, (procTsMusic_words a b w.musicStatus).1] at h
  | uiVideo => simp [dispatch, hui, (procTsVideo_words a b w.videoStatus).1] at h
  | uiEnd => simp [dispatch, hui] at h

theorem opensWithPlay_of_ne_main {l : Label} (h : l ≠ .main) (s : Sys) : OpensWithPlay s l := by
  intro t hstep hbefore hafter
  cases wordsChange_step hstep with
  | touched a b moveX moveY ht =>
      rw [ht] at hafter ⊢
      change (dispatch a b moveX moveY s.words).uiStatus.getD s.words.uiStatus = .uiPic at hafter
      change (dispatch a b moveX moveY s.words).picStatus.getD s.words.picStatus = .picPlay
      cases hd : (dispatch a b moveX moveY s.words).uiStatus with
      | none => exact absurd (by simpa [hd] using hafter) hbefore
      | some u =>
          obtain rfl : u = .uiPic := by simpa [hd] using hafter
          rw [picStatus_of_dispatch hbefore hd]
          rfl
  | resumed ht =>
      rw [ht] at hafter
      cases hafter
  | main => exact absurd rfl h
  | exchanged ht | delivered ht | exited ht =>
      rw [ht] at hafter
      exact absurd hafter hbefore

theorem main_of_command {s : Sys} {command : Bytes} (h : s.command = some command) :
    s.main = .procVoice (.compare command) := by
  unfold Sys.command at h
  split at h
  next hmain => rw [hmain, Option.some.inj h]
  next => cases h

theorem opensWithPlay_main_iff {s : Sys} {b : Bool} (h : Tracks (s, b)) :
    OpensWithPlay s .main ↔ VoiceOpensUnused (s, b) .main := by
  have hpic : ∀ t, mainStep s = some t → s.command.bind voiceTarget = some .uiPic →
      t.words.picStatus = s.words.picStatus := by
    intro t ht hvoice
    obtain ⟨command, hcommand, -⟩ := Option.bind_eq_some_iff.mp hvoice
    have hnone : s.picPc = none := by rw [Sys.picPc, main_of_command hcommand]
    rw [(words_mainStep ht).2, hnone]
    rfl
  constructor
  · intro hopens _ hbefore hvoice
    obtain ⟨command, hcommand, -⟩ := Option.bind_eq_some_iff.mp hvoice
    obtain ⟨t, ht⟩ : ∃ t, mainStep s = some t := by
      rw [mainStep, main_of_command hcommand]
      exact ⟨_, rfl⟩
    have hafter : t.words.uiStatus = .uiPic := by
      rw [(words_mainStep ht).1, hvoice, Option.getD_some]
    exact h.mp ((hpic t ht hvoice).symm.trans (hopens t ht hbefore hafter))
  · intro hvoices t ht hbefore hafter
    have hvoice : s.command.bind voiceTarget = some .uiPic := by
      rw [(words_mainStep ht).1] at hafter
      cases hc : s.command.bind voiceTarget with
      | none => exact absurd (by simpa [hc] using hafter) hbefore
      | some u =>
          rw [hc, Option.getD_some] at hafter
          rw [hafter]
    exact (hpic t ht hvoice).trans (h.mpr (hvoices rfl hbefore hvoice))

theorem opensWithPlay_iff {p : Sys × Bool} (h : Tracks p) (l : Label) :
    OpensWithPlay p.1 l ↔ VoiceOpensUnused p l := by
  by_cases hl : l = .main
  · subst hl
    exact opensWithPlay_main_iff h
  · exact iff_of_true (opensWithPlay_of_ne_main hl p.1) fun hmain ↦ absurd hmain hl

/-- Every step of a run that opens the album leaves `pic_status` at `PIC_PLAY` exactly
when every voice command that opens it finds `pic_status` unused. -/
theorem album_opens_with_play_iff (ls : List Label) :
    Meets step OpensWithPlay init ls ↔
      Meets (withHistory step used) VoiceOpensUnused (init, false) ls := by
  have hguard : ∀ p l, Tracks p → (OpensWithPlay p.1 l ↔ VoiceOpensUnused p l) :=
    fun _ l h ↦ opensWithPlay_iff h l
  have hinit : Tracks (init, false) := iff_of_true rfl rfl
  exact meets_withHistory_iff hguard (fun _ _ _ ↦ tracks_step) hinit ls

/-- Look at the album, go back from it, and wait for the server. -/
def albumThenVoice : List Label :=
  [.main, .touch 480 300 0 0, .main, .main, .main, .main, .main, .main, .main,
    .touch 780 30 0 0, .touch 780 30 0 0, .main, .main, .touch 640 300 0 0, .main, .main, .main,
    .main]

/-- The voice command 打开相册 opens the album with `PIC_NULL`. -/
theorem voice_opens_album_with_null :
    ¬ Meets step OpensWithPlay init (albumThenVoice ++ [.exchange openAlbumText, .main]) ∧
      (run step init (albumThenVoice ++ [.exchange openAlbumText, .main])).map
        (fun t ↦ (t.words.uiStatus, t.words.picStatus)) = some (.uiPic, .picNull) := by
  decide

end EmbeddedSystem.Ui
