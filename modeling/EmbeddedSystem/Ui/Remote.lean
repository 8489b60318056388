import EmbeddedSystem.Ui.System

/-!
# The remote control

For a media page the two threads together act as one control: it is in one status,
which the touch handler moves by the commands it may give there, and the loop by
executing a command with the player.  A command that is overwritten never was one.
-/

namespace EmbeddedSystem.Ui

structure Remote where
  status : MediaStatus
  player : Player
  deriving DecidableEq, Repr

/-- The commands that a handler gives whatever the status is. -/
def Overrides (c : MediaStatus) : Prop := c = .stop ∨ c = .next ∨ c = .prev

/-- A handler that finds one status may replace it by another. -/
def Asks (c c' : MediaStatus) : Prop :=
  Overrides c' ∨ c = .null ∧ c' = .start ∨ c = .play ∧ c' = .hold ∨ c = .pause ∧ c' = .conti

theorem overrides_of_asks {c c' : MediaStatus} (h : Asks c c') (hc : mediaFollowUp c ≠ none) :
    Overrides c' := by
  obtain h | ⟨rfl, -⟩ | ⟨rfl, -⟩ | ⟨rfl, -⟩ := h
  · exact h
  · exact absurd rfl hc
  · exact absurd rfl hc
  · exact absurd rfl hc

theorem Overrides.mediaFollowUp_ne {c : MediaStatus} (h : Overrides c) :
    mediaFollowUp c ≠ none := by
  obtain rfl | rfl | rfl := h <;> decide

theorem asks_procTsMedia (assign : MediaStatus → Assigns) (backX a b : ℤ) (c : MediaStatus) :
    (∃ c', Asks c c' ∧ procTsMedia assign backX a b c = assign c') ∨
      procTsMedia assign backX a b c = { assign .stop with back := true } ∨
      procTsMedia assign backX a b c = {} := by
  unfold procTsMedia
  split_ifs with hstart hhold hconti
  · exact Or.inl ⟨.start, Or.inr (Or.inl ⟨hstart.2.2.2.2, rfl⟩), rfl⟩
  · exact Or.inl ⟨.hold, Or.inr (Or.inr (Or.inl ⟨hhold.2.2.2.2, rfl⟩)), rfl⟩
  · exact Or.inl ⟨.conti, Or.inr (Or.inr (Or.inr ⟨hconti.2.2.2.2, rfl⟩)), rfl⟩
  · exact Or.inr (Or.inl rfl)
  · exact Or.inl ⟨.prev, by simp [Asks, Overrides], rfl⟩
  · exact Or.inl ⟨.next, by simp [Asks, Overrides], rfl⟩
  · exact Or.inr (Or.inr rfl)

theorem asks_dispatch (w : Words) (m : MediaPage) (a b moveX moveY : ℤ) :
    ∀ c ∈ (dispatch a b moveX moveY w).media m, Asks (w.media m) c := by
  by_cases hopen : w.uiStatus = m.uiStatus
  · intro c hc
    cases m with
    | music =>
        rw [dispatch_of_uiMusic hopen] at hc
        rcases asks_procTsMedia (fun c ↦ { musicStatus := some c }) 740 a b w.musicStatus with
          ⟨c', hasks, h⟩ | h | h <;> simp [procTsMusic, h, Assigns.media] at hc
        · exact hc ▸ hasks
        · exact hc ▸ Or.inl (Or.inl rfl)
    | video =>
        rw [dispatch_of_uiVideo hopen] at hc
        rcases asks_procTsMedia (fun c ↦ { videoStatus := some c }) 760 a b w.videoStatus with
          ⟨c', hasks, h⟩ | h | h <;> simp [procTsVideo, h, Assigns.media] at hc
        · exact hc ▸ hasks
        · exact hc ▸ Or.inl (Or.inl rfl)
  · rw [dispatch_media hopen]
    simp

/-- The status is the word, except that in an arm with a write at its end it is the
arm's command, and after the arm's action what will be written. -/
def statusAt (word : MediaStatus) : Option (LoopPc MediaStatus) → MediaStatus
  | some (.act c) => if mediaFollowUp c = none then word else c
  | some (.followUp c) => (mediaFollowUp c).getD word
  | _ => word

/-- In such an arm the word is the command, unless a handler has given another. -/
def InHandAt (word : MediaStatus) : Option (LoopPc MediaStatus) → Prop
  | some (.act c) => mediaFollowUp c ≠ none → word = c ∨ Overrides word
  | some (.followUp c) => mediaFollowUp c ≠ none → word = c ∨ Overrides word
  | _ => True

def Sys.remote (s : Sys) (m : MediaPage) : Remote :=
  ⟨statusAt (s.words.media m) (s.mediaPc m), s.player m⟩

def InHand (m : MediaPage) (s : Sys) : Prop := InHandAt (s.words.media m) (s.mediaPc m)

/-! ## What a step does to the control -/

theorem inHandAt_asked {word c : MediaStatus} {pc : Option (LoopPc MediaStatus)}
    (h : InHandAt word pc) (hasks : Asks word c) : InHandAt c pc := by
  have hoverrides : ∀ d, mediaFollowUp d ≠ none → (word = d ∨ Overrides word) → Overrides c := by
    rintro d hd (rfl | hword)
    · exact overrides_of_asks hasks hd
    · exact overrides_of_asks hasks hword.mediaFollowUp_ne
  unfold InHandAt at h ⊢
  split at h
  next d => exact fun hd ↦ Or.inr (hoverrides d hd (h hd))
  next d => exact fun hd ↦ Or.inr (hoverrides d hd (h hd))
  next => trivial

theorem statusAt_asked {word c : MediaStatus} (pc : Option (LoopPc MediaStatus))
    (hasks : Asks word c) :
    statusAt c pc = statusAt word pc ∨ Asks (statusAt word pc) (statusAt c pc) := by
  unfold statusAt
  split
  next d =>
    by_cases hd : mediaFollowUp d = none
    · rw [if_pos hd, if_pos hd]
      exact Or.inr hasks
    · rw [if_neg hd, if_neg hd]
      exact Or.inl rfl
  next d =>
    cases mediaFollowUp d with
    | none => exact Or.inr hasks
    | some w => exact Or.inl rfl
  next => exact Or.inr hasks

theorem inHandAt_next {word : MediaStatus} {pc : LoopPc MediaStatus} (isOpen : Bool)
    (h : InHandAt word (some pc)) :
    InHandAt ((pc.write mediaFollowUp).getD word) (pc.next isOpen word) := by
  cases pc with
  | entry => trivial
  | test => cases isOpen <;> trivial
  | switch => exact fun _ ↦ Or.inl rfl
  | act c => exact h
  | followUp c => trivial

/-- Only an action with a write after it changes the status or the player. -/
theorem statusAt_next (word : MediaStatus) (pc : LoopPc MediaStatus) (isOpen : Bool) (p : Player) :
    (statusAt ((pc.write mediaFollowUp).getD word) (pc.next isOpen word) =
        statusAt word (some pc) ∧ p.execArm (pc.stmts mediaArm) = p) ∨
      ∃ c w, pc = .act c ∧ mediaFollowUp c = some w ∧ statusAt word (some pc) = c ∧
        statusAt ((pc.write mediaFollowUp).getD word) (pc.next isOpen word) = w := by
  cases pc with
  | entry => exact Or.inl ⟨rfl, rfl⟩
  | test => cases isOpen <;> exact Or.inl ⟨rfl, rfl⟩
  | switch => exact Or.inl ⟨by simp [LoopPc.next, LoopPc.write, statusAt], rfl⟩
  | act c =>
      cases hc : mediaFollowUp c with
      | none =>
          refine Or.inl ⟨by simp [LoopPc.next, LoopPc.write, statusAt, hc], ?_⟩
          cases c <;> first | rfl | simp [mediaFollowUp] at hc
      | some w =>
          exact Or.inr ⟨c, w, rfl, hc, by simp [statusAt, hc],
            by simp [LoopPc.next, LoopPc.write, statusAt, hc]⟩
  | followUp c => exact Or.inl ⟨rfl, rfl⟩

inductive RemoteChange (m : MediaPage) (s t : Sys) : Label → Prop
  | still {l : Label} (h : t.remote m = s.remote m) : RemoteChange m s t l
  | asked {a b moveX moveY : ℤ} {c c' : MediaStatus} (hasks : Asks c c')
      (hs : s.remote m = ⟨c, s.player m⟩) (ht : t.remote m = ⟨c', s.player m⟩) :
      RemoteChange m s t (.touch a b moveX moveY)
  | executed {c w : MediaStatus} (hpc : s.mediaPc m = some (.act c))
      (hwrite : mediaFollowUp c = some w) (hs : s.remote m = ⟨c, s.player m⟩)
      (ht : t.remote m = ⟨w, (s.player m).execArm (mediaArm c)⟩) : RemoteChange m s t .main
  | delivered {i : ℕ} {p : Player} (hp : (s.player m).deliver i = some p)
      (ht : t.remote m = ⟨(s.remote m).status, p⟩) : RemoteChange m s t (.deliver m i)
  | exited {i : ℕ} {p : Player} (hp : (s.player m).exit i = some p)
      (ht : t.remote m = ⟨(s.remote m).status, p⟩) : RemoteChange m s t (.exit m i)

theorem still_of_eq {m : MediaPage} {s t : Sys} {l : Label} (hpc : t.mediaPc m = s.mediaPc m)
    (hword : t.words.media m = s.words.media m) (hplayer : t.player m = s.player m) :
    RemoteChange m s t l ∧ (InHand m s → InHand m t) := by
  refine ⟨.still ?_, fun h ↦ ?_⟩
  · rw [Sys.remote, Sys.remote, hpc, hword, hplayer]
  · rwa [InHand, hpc, hword]

theorem remoteChange_mainStep {m : MediaPage} {s t : Sys} (h : mainStep s = some t) :
    RemoteChange m s t .main ∧ (InHand m s → InHand m t) := by
  cases loopChange_mainStep h m with
  | loop pc hs ht _ hword hplayer =>
      refine ⟨?_, fun hin ↦ ?_⟩
      · rcases statusAt_next (s.words.media m) pc (s.words.uiStatus = m.uiStatus) (s.player m) with
          ⟨hsame, hidle⟩ | ⟨c, w, rfl, hwrite, hbefore, hafter⟩
        · refine .still ?_
          rw [Sys.remote, Sys.remote, hplayer, hidle, ht, hword, hsame, hs]
        · refine .executed hs hwrite ?_ ?_
          · rw [Sys.remote, hs, hbefore]
          · rw [Sys.remote, ht, hword, hafter, hplayer]
            rfl
      · rw [InHand, hs] at hin
        rw [InHand, ht, hword]
        exact inHandAt_next _ hin
  | entered hs ht _ hwords hplayer =>
      refine ⟨.still ?_, fun _ ↦ ?_⟩
      · rw [Sys.remote, Sys.remote, ht, hs, hwords, hplayer]
        rfl
      · rw [InHand, ht]
        trivial
  | elsewhere hs ht hword hplayer => exact still_of_eq (ht.trans hs.symm) hword hplayer

/-- The threads refine the control. -/
theorem remoteChange_step {m : MediaPage} {s t : Sys} {l : Label} (h : step s l = some t) :
    RemoteChange m s t l ∧ (InHand m s → InHand m t) := by
  cases stepChange_step h with
  | touched a b moveX moveY =>
      have hplayer : ∀ u, Sys.player { s with
          words := (dispatch a b moveX moveY s.words).apply s.words, touch := u } m =
          s.player m := by
        cases m <;> exact fun _ ↦ rfl
      cases hd : (dispatch a b moveX moveY s.words).media m with
      | none => exact still_of_eq rfl (by rw [apply_media, hd]; rfl) (hplayer _)
      | some c =>
          have hasks : Asks (s.words.media m) c := asks_dispatch s.words m a b moveX moveY c hd
          have hword : ((dispatch a b moveX moveY s.words).apply s.words).media m = c := by
            rw [apply_media, hd, Option.getD_some]
          refine ⟨?_, fun hin ↦ ?_⟩
          · rcases statusAt_asked (s.mediaPc m) hasks with hsame | hasked
            · refine .still ?_
              rw [Sys.remote, hplayer, hword]
              exact congrArg (Remote.mk · (s.player m)) hsame
            · refine .asked hasked rfl ?_
              rw [Sys.remote, hplayer, hword]
              rfl
          · rw [InHand, hword]
            exact inHandAt_asked hin hasks
  | resumed => exact still_of_eq rfl (media_setUi s _ m) (by cases m <;> rfl)
  | main ht => exact remoteChange_mainStep ht
  | exchanged command hmain =>
      exact still_of_eq (by simp [Sys.mediaPc, hmain]) rfl (by cases m <;> rfl)
  | delivered m' i p hp =>
      by_cases hm : m' = m
      · subst hm
        refine ⟨.delivered hp (by simp [Sys.remote, Sys.mediaPc]), fun hin ↦ ?_⟩
        simpa [InHand, Sys.mediaPc] using hin
      · exact still_of_eq (by simp [Sys.mediaPc]) (by simp) (by simp [hm])
  | exited m' i p hp =>
      by_cases hm : m' = m
      · subst hm
        refine ⟨.exited hp (by simp [Sys.remote, Sys.mediaPc]), fun hin ↦ ?_⟩
        simpa [InHand, Sys.mediaPc] using hin
      · exact still_of_eq (by simp [Sys.mediaPc]) (by simp) (by simp [hm])

end EmbeddedSystem.Ui
