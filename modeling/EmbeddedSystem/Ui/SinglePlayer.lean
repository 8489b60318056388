import EmbeddedSystem.Ui.Remote

/-!
# One player at a time

A start does not stop what may be playing.  It is given only in the status that says
that nothing is, and from there to its execution no other arm of the loop can play.
-/

namespace EmbeddedSystem.Ui

open Runs

/-- At most one process, and none in the statuses from which a start is executed. -/
structure Remote.Single (r : Remote) : Prop where
  atMostOne : r.player.procs.length ≤ 1
  noneYet : r.status = .null ∨ r.status = .start → r.player.procs = []

theorem single_asked {c c' : MediaStatus} {p : Player} (hasks : Asks c c')
    (h : Remote.Single ⟨c, p⟩) : Remote.Single ⟨c', p⟩ := by
  refine ⟨h.atMostOne, fun hc' ↦ ?_⟩
  obtain (rfl | rfl | rfl) | ⟨rfl, -⟩ | ⟨-, rfl⟩ | ⟨-, rfl⟩ := hasks
  · exact absurd hc' (by simp)
  · exact absurd hc' (by simp)
  · exact absurd hc' (by simp)
  · exact h.noneYet (Or.inl rfl)
  · exact absurd hc' (by simp)
  · exact absurd hc' (by simp)

theorem single_executed {c w : MediaStatus} {p : Player} (hwrite : mediaFollowUp c = some w)
    (h : Remote.Single ⟨c, p⟩) : Remote.Single ⟨w, p.execArm (mediaArm c)⟩ := by
  obtain ⟨hone, hnone⟩ := h
  cases c with
  | null => cases hwrite
  | pause => cases hwrite
  | play => cases hwrite
  | start =>
      cases hwrite
      have hprocs : p.procs = [] := hnone (Or.inr rfl)
      exact ⟨by simp [mediaArm, Player.execArm, Player.exec, Player.play, hprocs], by simp⟩
  | next =>
      cases hwrite
      exact ⟨Nat.le_refl 1, by simp⟩
  | prev =>
      cases hwrite
      exact ⟨Nat.le_refl 1, by simp⟩
  | stop =>
      cases hwrite
      exact ⟨Nat.zero_le 1, fun _ ↦ rfl⟩
  | hold =>
      cases hwrite
      exact ⟨hone, by simp⟩
  | conti =>
      cases hwrite
      exact ⟨hone, by simp⟩

theorem single_of_fewer {c : MediaStatus} {p q : Player} (h : Remote.Single ⟨c, p⟩)
    (hlength : q.procs.length ≤ p.procs.length) : Remote.Single ⟨c, q⟩ := by
  refine ⟨Nat.le_trans hlength h.atMostOne, fun hc ↦ ?_⟩
  have hnone : p.procs = [] := h.noneYet hc
  simpa [hnone] using hlength

theorem single_step {m : MediaPage} {s t : Sys} {l : Label} (h : (s.remote m).Single)
    (hstep : step s l = some t) : (t.remote m).Single := by
  cases (remoteChange_step (m := m) hstep).1 with
  | still hsame => rwa [hsame]
  | asked hasks hs ht =>
      rw [ht]
      exact single_asked hasks (hs ▸ h)
  | executed _ hwrite hs ht =>
      rw [ht]
      exact single_executed hwrite (hs ▸ h)
  | delivered hp ht =>
      rw [ht]
      obtain ⟨k, -, rfl⟩ := Option.map_eq_some_iff.mp hp
      exact single_of_fewer h (by simp)
  | exited hp ht =>
      rw [ht]
      obtain ⟨-, hq⟩ := Option.ite_none_right_eq_some.mp hp
      cases hq
      exact single_of_fewer h (List.length_eraseIdx_le _ _)

theorem mediaFollowUp_of_null_inHand {c : MediaStatus}
    (h : mediaFollowUp c ≠ none → MediaStatus.null = c ∨ Overrides .null) :
    mediaFollowUp c = none := by
  by_contra hc
  obtain rfl | hoverrides := h hc
  · exact hc rfl
  · simp [Overrides] at hoverrides

/-- When the word says that nothing plays, so does the status. -/
theorem statusAt_null {pc : Option (LoopPc MediaStatus)} (h : InHandAt .null pc) :
    statusAt .null pc = .null := by
  unfold statusAt
  split
  next c => rw [if_pos (mediaFollowUp_of_null_inHand h)]
  next c =>
    rw [mediaFollowUp_of_null_inHand h]
    rfl
  next => rfl

/-- In every reachable state there is at most one process of each player, and none of
a player whose status word is null. -/
theorem at_most_one_player {ls : List Label} {t : Sys} (hrun : run step init ls = some t) :
    t.madplay.procs.length ≤ 1 ∧ t.mplayer.procs.length ≤ 1 ∧
      (t.words.musicStatus = .null → t.madplay.procs = []) ∧
      (t.words.videoStatus = .null → t.mplayer.procs = []) := by
  have hsingle : ∀ m, (t.remote m).Single := by
    intro m
    have hinit : (init.remote m).Single := by
      cases m <;> exact ⟨Nat.zero_le 1, fun _ ↦ rfl⟩
    exact invariant (fun _ _ _ ↦ single_step) hinit hrun
  have hinHand : ∀ m, InHand m t := by
    intro m
    have hinit : InHand m init := by
      cases m <;> trivial
    exact invariant (fun _ _ _ h hstep ↦ (remoteChange_step hstep).2 h) hinit hrun
  have hnull : ∀ m, t.words.media m = .null → (t.player m).procs = [] := by
    intro m hword
    have hin := hinHand m
    rw [InHand, hword] at hin
    have hstatus : (t.remote m).status = .null := by
      rw [Sys.remote, hword, statusAt_null hin]
    exact (hsingle m).noneYet (Or.inl hstatus)
  exact ⟨(hsingle .music).atMostOne, (hsingle .video).atMostOne, hnull .music, hnull .video⟩

/-- Two songs, one after the other. -/
def startAndNext : List Label :=
  [.main, .touch 300 300 0 0, .main, .main, .main, .touch 400 450 0 0, .main, .main, .main, .main,
    .touch 520 450 0 0, .main, .main, .main, .main]

theorem at_most_one_player_after_next :
    ((run step init startAndNext).get (by decide)).madplay.procs.length ≤ 1 :=
  (at_most_one_player (Option.some_get _).symm).1

end EmbeddedSystem.Ui
