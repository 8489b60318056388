import EmbeddedSystem.Ui.Remote

/-!
# Playing and pausing

The status of a media page is what the program takes the player to do.  It is right
about the player that the `killall` commands still under way will leave, as long as
no song ends by itself and none of these commands overtakes the last one or meets a
player that was started after it.
-/

namespace EmbeddedSystem.Ui

open Runs

/-- The processes once each pending `killall` has taken effect in its turn. -/
def Player.settled (p : Player) : List Proc :=
  p.pending.getLast?.elim p.procs fun k ↦ p.procs.map fun _ ↦ k.effect

/-- The processes that go with a status, `none` if any do. -/
def expected : MediaStatus → Option (List Proc)
  | .play | .hold => some [.running]
  | .pause | .conti => some [.stopped]
  | .null | .start => some []
  | .stop | .next | .prev => none

def Remote.Agrees (r : Remote) : Prop := ∀ procs ∈ expected r.status, r.player.settled = procs

/-- The action of the arm plays a file. -/
def StartsSong (pc : Option (LoopPc MediaStatus)) : Prop :=
  pc = some (.act .start) ∨ pc = some (.act .next) ∨ pc = some (.act .prev)

/-- No song ends by itself except before a command that stops it anyway; a `killall`
that takes effect before the last one leaves one of the same kind for the end; and a
song is started only when the last `killall` is not one that stops. -/
def Orderly (m : MediaPage) (s : Sys) : Label → Prop
  | .main => StartsSong (s.mediaPc m) → (s.player m).pending.getLast? ≠ some .stop
  | .deliver m' i =>
    m' = m → ∀ k ∈ ((s.player m).pending.eraseIdx i).getLast?,
      (s.player m).pending.getLast? = some k
  | .exit m' _ => m' = m → expected (s.remote m).status = none
  | _ => True

instance (m : MediaPage) (s : Sys) : ∀ l, Decidable (Orderly m s l)
  | .main => inferInstanceAs (Decidable ((_ ∨ _ ∨ _) → ¬ (_ = _)))
  | .deliver m' i => inferInstanceAs (Decidable (m' = m →
    ∀ k ∈ ((s.player m).pending.eraseIdx i).getLast?, (s.player m).pending.getLast? = some k))
  | .exit m' _ => inferInstanceAs (Decidable (m' = m → _ = _))
  | .touch .. | .resume | .exchange _ => .isTrue trivial

theorem Player.settled_of_pending {p : Player} (h : p.pending = []) : p.settled = p.procs := by
  rw [settled, h]
  rfl

theorem Player.settled_play {p : Player} (h : p.procs = [])
    (hlast : p.pending.getLast? ≠ some .stop) : p.play.settled = [.running] := by
  cases hk : p.pending.getLast? with
  | none => simp [settled, play, hk, h]
  | some k =>
      cases k with
      | stop => exact absurd hk hlast
      | cont => simp [settled, play, hk, h, Killall.effect]

theorem Player.procs_of_settled_nil {p : Player} (h : p.settled = []) : p.procs = [] := by
  unfold settled at h
  cases hk : p.pending.getLast? with
  | none => simpa [hk] using h
  | some k => simpa [hk] using h

theorem Player.length_settled (p : Player) : p.settled.length = p.procs.length := by
  unfold settled
  cases p.pending.getLast? <;> simp

theorem Player.settled_signalled {p : Player} (k : Killall) (h : p.settled.length = 1) :
    ({ p with pending := p.pending ++ [k] } : Player).settled = [k.effect] := by
  rw [length_settled] at h
  obtain ⟨x, hx⟩ := List.length_eq_one_iff.mp h
  simp [settled, hx]

theorem Player.settled_deliver {p q : Player} {i : ℕ} (h : p.deliver i = some q)
    (hlast : ∀ k ∈ (p.pending.eraseIdx i).getLast?, p.pending.getLast? = some k) :
    q.settled = p.settled := by
  obtain ⟨k, hk, rfl⟩ := Option.map_eq_some_iff.mp h
  cases hrest : (p.pending.eraseIdx i).getLast? with
  | some k' => simp [settled, hrest, hlast k' hrest]
  | none =>
      have hnil : p.pending.eraseIdx i = [] := List.getLast?_eq_none_iff.mp hrest
      have hlt : i < p.pending.length := (List.getElem?_eq_some_iff.mp hk).1
      have hone : p.pending.length = 1 := by
        have hlength := congrArg List.length hnil
        rw [List.length_eraseIdx_of_lt hlt, List.length_nil] at hlength
        omega
      obtain ⟨k', hk'⟩ := List.length_eq_one_iff.mp hone
      obtain rfl : i = 0 := by omega
      obtain rfl : k' = k := by simpa [hk'] using hk
      simp [settled, hk']

/-- An arm's action leaves what its write then states. -/
theorem agrees_executed {c w : MediaStatus} {p : Player} (hwrite : mediaFollowUp c = some w)
    (h : Remote.Agrees ⟨c, p⟩)
    (hlast : StartsSong (some (.act c)) → p.pending.getLast? ≠ some .stop) :
    Remote.Agrees ⟨w, p.execArm (mediaArm c)⟩ := by
  intro procs hprocs
  cases c with
  | null => cases hwrite
  | pause => cases hwrite
  | play => cases hwrite
  | start =>
      cases hwrite
      cases hprocs
      have hprocs : p.procs = [] := Player.procs_of_settled_nil (h [] rfl)
      exact Player.settled_play hprocs (hlast (by simp [StartsSong]))
  | next =>
      cases hwrite
      cases hprocs
      exact Player.settled_play (p := p.stop) rfl (hlast (by simp [StartsSong]))
  | prev =>
      cases hwrite
      cases hprocs
      exact Player.settled_play (p := p.stop) rfl (hlast (by simp [StartsSong]))
  | stop =>
      cases hwrite
      cases hprocs
      rw [← List.length_eq_zero_iff, Player.length_settled]
      rfl
  | hold =>
      cases hwrite
      cases hprocs
      exact Player.settled_signalled .stop (by rw [h [.running] rfl]; rfl)
  | conti =>
      cases hwrite
      cases hprocs
      exact Player.settled_signalled .cont (by rw [h [.stopped] rfl]; rfl)

theorem agrees_asked {c c' : MediaStatus} {p : Player} (hasks : Asks c c')
    (h : Remote.Agrees ⟨c, p⟩) : Remote.Agrees ⟨c', p⟩ := by
  obtain (rfl | rfl | rfl) | ⟨rfl, rfl⟩ | ⟨rfl, rfl⟩ | ⟨rfl, rfl⟩ := hasks
  · exact fun _ h ↦ absurd h (by simp [expected])
  · exact fun _ h ↦ absurd h (by simp [expected])
  · exact fun _ h ↦ absurd h (by simp [expected])
  · exact h
  · exact h
  · exact h

theorem agrees_step {m : MediaPage} {s t : Sys} {l : Label} (h : (s.remote m).Agrees)
    (hl : Orderly m s l) (hstep : step s l = some t) : (t.remote m).Agrees := by
  cases (remoteChange_step (m := m) hstep).1 with
  | still hsame => rwa [hsame]
  | asked hasks hs ht =>
      rw [ht]
      exact agrees_asked hasks (hs ▸ h)
  | executed hpc hwrite hs ht =>
      rw [ht]
      exact agrees_executed hwrite (hs ▸ h) (hpc ▸ hl)
  | delivered hp ht =>
      intro procs hprocs
      rw [ht] at hprocs ⊢
      exact (Player.settled_deliver hp (hl rfl)).trans (h procs hprocs)
  | exited hp ht =>
      intro procs hprocs
      rw [ht, hl rfl] at hprocs
      cases hprocs

/-- In every run that is orderly for a media page, at the start of an iteration of its
loop, with no `killall` under way, the status word is right about the player. -/
theorem status_agrees_with_player {m : MediaPage} {ls : List Label} {t : Sys}
    (horderly : Meets step (Orderly m) init ls) (hrun : run step init ls = some t)
    (htest : t.mediaPc m = some .test) (hpending : (t.player m).pending = []) :
    (t.words.media m = .play → (t.player m).procs = [.running]) ∧
      (t.words.media m = .pause → (t.player m).procs = [.stopped]) ∧
      (t.words.media m = .null → (t.player m).procs = []) := by
  have hinit : (init.remote m).Agrees := by
    cases m <;> exact fun procs hprocs ↦ Option.some.inj hprocs
  have hagrees : (t.remote m).Agrees :=
    invariant_of_meets (fun _ _ _ ↦ agrees_step) hinit horderly hrun
  have hremote : t.remote m = ⟨t.words.media m, t.player m⟩ := by
    rw [Sys.remote, htest]
    rfl
  rw [hremote, Remote.Agrees] at hagrees
  simp only [Player.settled_of_pending hpending] at hagrees
  refine ⟨fun h ↦ ?_, fun h ↦ ?_, fun h ↦ ?_⟩
  · exact hagrees _ (by rw [h]; rfl)
  · exact hagrees _ (by rw [h]; rfl)
  · exact hagrees _ (by rw [h]; rfl)

/-- Open the music page, start a song and pause it. -/
def playAndPause : List Label :=
  [.main, .touch 300 300 0 0, .main, .main, .main, .touch 400 450 0 0, .main, .main, .main, .main,
    .touch 400 450 0 0, .main, .main, .main, .main]

def paused : Sys := (run step init (playAndPause ++ [.deliver .music 0])).get (by decide)

theorem status_agrees_when_paused : paused.madplay.procs = [.stopped] := by
  have hrun : run step init (playAndPause ++ [.deliver .music 0]) = some paused :=
    (Option.some_get _).symm
  exact (status_agrees_with_player (m := .music) (by decide) hrun (by decide) (by decide)).2.1
    (by decide)

/-- The song ends by itself, and the status is still `MUSIC_PLAY`. -/
theorem status_plays_on_after_song :
    (run step init [.main, .touch 300 300 0 0, .main, .main, .main, .touch 400 450 0 0, .main,
      .main, .main, .main, .exit .music 0]).map
        (fun t ↦ (t.mediaPc .music, t.words.musicStatus, t.madplay)) =
      some (some .test, .play, ⟨[], []⟩) := by decide

/-- Of a pause and a resumption after it, the pause takes effect last. -/
example : (run step init (playAndPause ++ [.touch 400 450 0 0, .main, .main, .main, .main,
    .deliver .music 1, .deliver .music 0])).map
      (fun t ↦ (t.words.musicStatus, t.madplay)) = some (.play, ⟨[.stopped], []⟩) := by decide

end EmbeddedSystem.Ui
