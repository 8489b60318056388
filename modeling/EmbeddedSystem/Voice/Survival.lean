import EmbeddedSystem.Voice.Server

/-!
# Getting back to `accept`

What the outside can do to the server in the course of a connection, and which
descriptors are open when it accepts the next one.
-/

namespace EmbeddedSystem.Voice.Server

open Runs

/-- How many more descriptors are open than at the first `accept`. -/
structure Descriptors where
  connections : ℤ
  streams : ℤ
  deriving DecidableEq, Repr

def firstAccept : Descriptors := ⟨0, 0⟩

/-- `fclose(fp)` and `close(con_fd)` end a request; `file_p` is not closed. -/
def track (s : Server) : Label → Descriptors → Descriptors
  | .accept true, d => { d with connections := d.connections + 1 }
  | .fopen (some _), d => { d with streams := d.streams + 1 }
  | .readResult true, d => if s.resultTxt.isSome then { d with streams := d.streams + 1 } else d
  | .close, d => ⟨d.connections - 1, d.streams - 1⟩
  | _, d => d

def Alive (s : Server) : Prop := s.pc ≠ .spin ∧ s.pc ≠ .killed

instance (s : Server) : Decidable s.Alive := inferInstanceAs (Decidable (_ ∧ _))

/-- `accept` succeeds, nothing arrives for a stream that could not be opened,
`result.txt` is there, and the client has not gone before its reply. -/
def Survivable (s : Server) : Label → Prop
  | .accept ok => ok
  | .recv result => s.pc = .recvFile → s.fileP = none → result.getD [] = []
  | .readResult opened => opened ∧ s.resultTxt.isSome
  | .sigpipe => False
  | _ => True

instance (s : Server) : ∀ l, Decidable (s.Survivable l)
  | .accept ok => inferInstanceAs (Decidable (ok = true))
  | .recv result =>
    inferInstanceAs (Decidable (s.pc = .recvFile → s.fileP = none → result.getD [] = []))
  | .readResult opened => inferInstanceAs (Decidable (opened = true ∧ s.resultTxt.isSome = true))
  | .sigpipe => .isFalse id
  | .fopen _ | .asrSample _ | .send | .sendError | .close => .isTrue trivial

def opensStream : Label → Bool
  | .fopen (some _) => true
  | _ => false

/-- Moreover `fopen` gives no stream, which would remain open. -/
def Gentle (s : Server) (l : Label) : Prop := s.Survivable l ∧ opensStream l = false

instance (s : Server) (l : Label) : Decidable (s.Gentle l) := inferInstanceAs (Decidable (_ ∧ _))

/-! ## Staying alive -/

theorem alive_stored_iff (s : Server) (chunk : Bytes) :
    (s.stored chunk).Alive ↔ s.fileP ≠ none := by
  cases hfile : s.fileP with
  | none => simp [stored, hfile, Alive]
  | some file =>
      rw [stored_eq hfile, Alive]
      dsimp only
      split <;> simp

theorem alive_received_iff (s : Server) (result : Option Bytes) :
    (s.received result).Alive ↔ (s.fileP = none → result.getD [] = []) := by
  unfold received
  split
  next hempty => simp [Alive, hempty]
  next hsome =>
    rw [alive_stored_iff]
    tauto

theorem alive_resultRead_iff (s : Server) (opened : Bool) :
    (s.resultRead opened).Alive ↔ opened ∧ s.resultTxt.isSome := by
  unfold resultRead
  split
  next hresult => simp [Alive, hresult]
  next hnone =>
    simp only [Alive, ne_eq, not_true_eq_false, and_false, false_iff, not_and]
    rintro rfl
    cases hresult : s.resultTxt with
    | none => simp
    | some r => exact absurd hresult (hnone r rfl)

theorem alive_step_iff {s t : Server} {l : Label} (hstep : s.step l = some t) :
    t.Alive ↔ s.Survivable l := by
  cases change_of_step hstep with
  | accept ok hpc ht =>
      subst ht
      cases ok <;> simp [Alive, accepted, Survivable]
  | recvSize result hpc ht =>
      subst ht
      simp [Alive, sized, Survivable, hpc]
  | recvFile result hpc ht =>
      subst ht
      rw [alive_received_iff, Survivable]
      simp [hpc]
  | fopen capacity hpc ht =>
      subst ht
      simp [Alive, opened, Survivable]
  | asrSample outcome hpc ht =>
      subst ht
      simp [Alive, recognised, Survivable]
  | readResult opened hpc ht =>
      subst ht
      exact alive_resultRead_iff s opened
  | send hpc ht =>
      subst ht
      simp [Alive, Survivable]
  | leave _ pc hl hnext ht =>
      clear ht
      obtain ⟨rfl, -, rfl⟩ | ⟨rfl, -, rfl⟩ | ⟨rfl, -, rfl⟩ := leave_of_step hl hstep <;>
        simp [Alive, Survivable]

theorem step_of_not_alive {s : Server} (h : ¬ s.Alive) (l : Label) : s.step l = none := by
  have hpc : s.pc = .spin ∨ s.pc = .killed := by
    rw [Alive] at h
    tauto
  rcases hpc with hpc | hpc <;> cases l <;> simp [step, hpc]

/-! ## The descriptors -/

/-- The connections that are open in the course of a request. -/
def serving : ServerPc → ℤ
  | .accept | .spin | .killed => 0
  | _ => 1

def reading : ServerPc → ℤ
  | .send | .close => 1
  | _ => 0

theorem pc_received {s : Server} {result : Option Bytes}
    (h : s.fileP = none → result.getD [] = []) :
    (s.received result).pc = .asrSample ∨ (s.received result).pc = .recvFile := by
  unfold received
  split
  next => exact Or.inl rfl
  next hsome =>
    obtain ⟨file, hfile⟩ := Option.ne_none_iff_exists'.mp fun hnone ↦ hsome (h hnone)
    rw [stored_eq hfile]
    dsimp only
    split
    · exact Or.inl rfl
    · exact Or.inr rfl

theorem descriptors_step {p q : Server × Descriptors} {l : Label} (hl : p.1.Survivable l)
    (hstep : withHistory step track p l = some q) :
    q.2.connections - serving q.1.pc = p.2.connections - serving p.1.pc ∧
      q.2.streams - reading q.1.pc =
        p.2.streams - reading p.1.pc + if opensStream l then 1 else 0 := by
  obtain ⟨s, d⟩ := p
  obtain ⟨t, d'⟩ := q
  obtain ⟨hserver, hd⟩ := withHistory_eq_some.mp hstep
  dsimp only at hl hserver hd ⊢
  subst hd
  cases change_of_step hserver with
  | accept ok hpc ht =>
      subst ht
      obtain rfl : ok = true := hl
      simp [track, accepted, hpc, serving, reading, opensStream]
  | recvSize result hpc ht =>
      subst ht
      simp [track, sized, hpc, serving, reading, opensStream]
  | recvFile result hpc ht =>
      subst ht
      rcases pc_received (hl hpc) with h | h <;>
        simp [track, h, hpc, serving, reading, opensStream]
  | fopen capacity hpc ht =>
      subst ht
      cases capacity <;>
        simp [track, opened, hpc, serving, reading, opensStream]
  | asrSample outcome hpc ht =>
      subst ht
      simp [track, recognised, hpc, serving, reading, opensStream]
  | readResult opened hpc ht =>
      subst ht
      obtain ⟨rfl, hresult⟩ := hl
      obtain ⟨r, hr⟩ := Option.isSome_iff_exists.mp hresult
      simp [track, resultRead, hr, hpc, serving, reading, opensStream]
  | send hpc ht =>
      subst ht
      simp [track, hpc, serving, reading, opensStream]
  | leave _ pc hleave hnext ht =>
      clear ht
      obtain ⟨rfl, hpc, rfl⟩ | ⟨rfl, hpc, rfl⟩ | ⟨rfl, hpc, rfl⟩ := leave_of_step hleave hserver
      · simp [track, hpc, serving, reading, opensStream]
      · exact absurd hl id
      · simp [track, hpc, serving, reading, opensStream]

/-- Back at `accept`, each connection is closed, and each stream that `fopen` gave
for a recording is still open. -/
theorem descriptors_at_accept {s t : Server} {d : Descriptors} {ls : List Label}
    (hs : s.pc = .accept) (ht : t.pc = .accept) (halive : Meets step Survivable s ls)
    (hrun : run (withHistory step track) (s, firstAccept) ls = some (t, d)) :
    d = ⟨0, ls.countP opensStream⟩ := by
  have hmeets : Meets (withHistory step track) (fun p ↦ p.1.Survivable) (s, firstAccept) ls :=
    meets_withHistory halive
  have hconnections : d.connections - serving t.pc = 0 - serving s.pc + ls.countP fun _ ↦ false :=
    countP_of_meets (f := fun p ↦ p.2.connections - serving p.1.pc)
      (fun p l q hl hq ↦ by simpa using (descriptors_step hl hq).1) hmeets hrun
  have hstreams : d.streams - reading t.pc = 0 - reading s.pc + ls.countP opensStream :=
    countP_of_meets (f := fun p ↦ p.2.streams - reading p.1.pc)
      (fun p l q hl hq ↦ (descriptors_step hl hq).2) hmeets hrun
  obtain ⟨connections, streams⟩ := d
  simp only [hs, ht, serving, reading, List.countP_false, Function.const_apply]
    at hconnections hstreams
  rw [Descriptors.mk.injEq]
  omega

/-! ## Getting back -/

/-- The steps to the next `accept` when no recording arrives. -/
def remaining : ServerPc → ℕ
  | .accept | .spin | .killed => 0
  | .recvSize => 7
  | .openFile => 6
  | .recvFile => 5
  | .asrSample => 4
  | .readResult => 3
  | .send => 2
  | .close => 1

def Streamless (s : Server) : Prop := s.Alive ∧ (s.pc = .recvFile → s.fileP = none)

theorem streamless_step {s t : Server} {l : Label} (h : s.Streamless) (hl : s.Gentle l)
    (hstep : s.step l = some t) : t.Streamless := by
  refine ⟨(alive_step_iff hstep).mpr hl.1, ?_⟩
  cases change_of_step hstep with
  | accept ok hpc ht =>
      subst ht
      cases ok <;> simp [accepted]
  | recvSize result hpc ht =>
      subst ht
      simp [sized]
  | recvFile result hpc ht =>
      subst ht
      simp [received, hl.1 hpc (h.2 hpc)]
  | fopen capacity hpc ht =>
      subst ht
      cases capacity with
      | none => exact fun _ ↦ rfl
      | some B => exact absurd hl.2 (by simp [opensStream])
  | asrSample outcome hpc ht =>
      subst ht
      simp [recognised]
  | readResult opened hpc ht =>
      subst ht
      unfold resultRead
      split <;> simp
  | send hpc ht =>
      subst ht
      simp
  | leave _ pc hleave hnext ht =>
      subst ht
      obtain rfl | rfl | rfl := hnext <;> simp

theorem remaining_step {s t : Server} {l : Label} (h : s.Streamless) (hl : s.Gentle l)
    (hstep : s.step l = some t) (hs : s.pc ≠ .accept) :
    remaining s.pc = remaining t.pc + 1 := by
  cases change_of_step hstep with
  | accept ok hpc ht => exact absurd hpc hs
  | recvSize result hpc ht =>
      subst ht
      simp [hpc, remaining, sized]
  | recvFile result hpc ht =>
      subst ht
      simp [hpc, remaining, received, hl.1 hpc (h.2 hpc)]
  | fopen capacity hpc ht =>
      subst ht
      simp [hpc, remaining, opened]
  | asrSample outcome hpc ht =>
      subst ht
      simp [hpc, remaining, recognised]
  | readResult opened hpc ht =>
      subst ht
      obtain ⟨r, hr⟩ := Option.isSome_iff_exists.mp hl.1.2
      simp [hpc, remaining, resultRead, hl.1.1, hr]
  | send hpc ht =>
      subst ht
      simp [hpc, remaining]
  | leave _ pc hleave hnext ht =>
      clear ht
      obtain ⟨rfl, hpc, rfl⟩ | ⟨rfl, hpc, rfl⟩ | ⟨rfl, hpc, rfl⟩ := leave_of_step hleave hstep
      · simp [hpc, remaining]
      · exact absurd hl.1 id
      · simp [hpc, remaining]

theorem exists_step {s : Server} (h : s.Alive) : ∃ l, (s.step l).isSome := by
  cases hpc : s.pc with
  | accept => exact ⟨.accept true, by simp [step, hpc]⟩
  | spin => exact absurd hpc h.1
  | recvSize => exact ⟨.recv none, by simp [step, hpc]⟩
  | openFile => exact ⟨.fopen none, by simp [step, hpc]⟩
  | recvFile => exact ⟨.recv none, by simp [step, hpc]⟩
  | asrSample => exact ⟨.asrSample none, by simp [step, hpc]⟩
  | readResult => exact ⟨.readResult true, by simp [step, hpc]⟩
  | send => exact ⟨.send, by simp [step, hpc]⟩
  | close => exact ⟨.close, by simp [step, hpc]⟩
  | killed => exact absurd hpc h.2

theorem accept_of_remaining {s : Server} (h : s.Alive) (hzero : remaining s.pc = 0) :
    s.pc = .accept := by
  cases hpc : s.pc with
  | accept => rfl
  | spin => exact absurd hpc h.1
  | killed => exact absurd hpc h.2
  | _ => simp [hpc, remaining] at hzero

theorem streamless_of_accept {s : Server} (h : s.pc = .accept) : s.Streamless := by
  simp [Streamless, Alive, h]

theorem back_of_gentle {s t : Server} {ls : List Label} (h : s.Streamless)
    (hgentle : Meets step Gentle s ls) (hrun : run step s ls = some t)
    (hlength : ls.length = remaining s.pc) : t.pc = .accept := by
  have hstreamless : t.Streamless :=
    invariant_of_meets (fun _ _ _ ↦ streamless_step) h hgentle hrun
  have hdescends : ∀ (s : Server) (l : Label) (t : Server) (n : ℕ), s.Streamless → s.Gentle l →
      s.step l = some t → remaining s.pc = n + 1 → remaining t.pc = n := by
    intro s l t n hs hl hstep hn
    have haccept : s.pc ≠ .accept := fun hpc ↦ by simp [hpc, remaining] at hn
    have := remaining_step hs hl hstep haccept
    omega
  have hzero : remaining t.pc = 0 :=
    rank_eq_zero_of_meets (fun _ _ _ ↦ streamless_step) hdescends h hgentle hrun hlength
  exact accept_of_remaining hstreamless.1 hzero

/-- A run that comes to `accept`, or to a point from which it never will, has ended
well exactly when all its steps were gentle; and from wherever gentle steps lead,
further ones lead back to `accept`. -/
theorem back_at_accept_iff {s t : Server} {d : Descriptors} {ls : List Label}
    (hs : s.pc = .accept)
    (hrun : run (withHistory step track) (s, firstAccept) ls = some (t, d)) :
    (t.pc = .accept ∨ ¬ t.Alive →
      (t.pc = .accept ∧ d = firstAccept ↔ Meets step Gentle s ls)) ∧
    (Meets step Gentle s ls → t.Alive ∧ (∃ l, (t.step l).isSome) ∧
      ∀ more u, more.length = remaining t.pc → Meets step Gentle t more →
        run step t more = some u → u.pc = .accept) := by
  have hserver : run step s ls = some t := run_of_withHistory hrun
  have hstreamless : s.Streamless := streamless_of_accept hs
  have halive : t.Alive ↔ Meets step Survivable s ls :=
    good_iff_meets (fun _ _ _ _ ↦ alive_step_iff) (fun _ l h ↦ step_of_not_alive h l)
      hstreamless.1 hserver
  have hgentle : Meets step Gentle s ls ↔
      Meets step Survivable s ls ∧ ∀ l ∈ ls, opensStream l = false := meets_and_forall hserver
  refine ⟨fun hend ↦ ?_, fun hmeets ↦ ?_⟩
  · rw [hgentle]
    constructor
    · rintro ⟨ht, hd⟩
      have hsurvives := halive.mp (streamless_of_accept ht).1
      rw [descriptors_at_accept hs ht hsurvives hrun] at hd
      have hcount : ls.countP opensStream = 0 := by
        have := (Descriptors.mk.inj hd).2
        omega
      exact ⟨hsurvives, fun l hl ↦ by simpa using List.countP_eq_zero.mp hcount l hl⟩
    · rintro ⟨hsurvives, hclosed⟩
      have ht : t.pc = .accept := hend.resolve_right fun h ↦ h (halive.mpr hsurvives)
      have hcount : ls.countP opensStream = 0 :=
        List.countP_eq_zero.mpr fun l hl ↦ by simp [hclosed l hl]
      rw [descriptors_at_accept hs ht hsurvives hrun, hcount]
      exact ⟨ht, rfl⟩
  · have ht : t.Streamless :=
      invariant_of_meets (fun _ _ _ ↦ streamless_step) hstreamless hmeets hserver
    exact ⟨ht.1, exists_step ht.1, fun more u hlength hmore hu ↦ back_of_gentle ht hmore hu hlength⟩

/-- A request for which `fopen` fails, and whose client sends no recording. -/
def bareRequest : List Label :=
  [.accept true, .recv (some [49, 10]), .fopen none, .recv (some []), .asrSample (some ⟨[], by
    decide, by decide⟩), .readResult true, .send, .close]

def servedBare : Server × Descriptors :=
  (run (withHistory step track) (started, firstAccept) bareRequest).get (by decide)

theorem back_at_accept_after_bare_request :
    servedBare.1.pc = .accept ∧ servedBare.2 = firstAccept := by
  have hrun : (run (withHistory step track) (started, firstAccept) bareRequest).isSome := by
    decide
  exact ((back_at_accept_iff rfl (Option.some_get hrun).symm).1 (Or.inl (by decide))).mpr
    (by decide)

/-- An ordinary request leaves a stream open; and a client that does not wait for
its reply ends the server. -/
theorem server_leaks_and_dies :
    (run (withHistory step track) (started, firstAccept)
      [.accept true, .recv (some [49, 10]), .fopen (some 1), .recv (some [7]),
        .asrSample (some ⟨[], by decide, by decide⟩), .readResult true, .send, .close]).map
          (fun p ↦ (p.1.pc, p.2)) = some (.accept, ⟨0, 1⟩) ∧
    (run (withHistory step track) (started, firstAccept)
      [.accept true, .recv (some [49, 10]), .fopen (some 1), .recv (some [7]),
        .asrSample (some ⟨[], by decide, by decide⟩), .readResult true, .sigpipe]).map
          (fun p ↦ p.1.pc) = some .killed := by
  decide

example : (step started (.accept false)).map (fun s ↦ s.pc) = some .spin := by decide

end EmbeddedSystem.Voice.Server
