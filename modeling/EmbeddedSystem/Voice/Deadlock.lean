import EmbeddedSystem.Voice.Upload

/-!
# Waiting for each other

At the end of its file the client waits for the reply, and the server leaves its
receive loop after a `recv` that gave it something.  Whatever the cuts in the
stream, the bytes that the server still waits for are on the way or still to send,
unless a `send` lost some or the recording is empty.
-/

namespace EmbeddedSystem.Voice.Link

open Runs

/-- Each party is in a `recv` that only the other could end. -/
def Deadlocked (s : Link) : Prop :=
  s.client.pc = .recvReply ∧ (s.server.pc = .recvSize ∨ s.server.pc = .recvFile) ∧
    s.inFlight = [] ∧ s.closed = false

instance (s : Link) : Decidable s.Deadlocked :=
  inferInstanceAs (Decidable (_ ∧ (_ ∨ _) ∧ _ ∧ _))

/-- Each `send` accepts all it is given, and the server's total remains an `int`. -/
def SendsWhole (s : Link) : Label → Prop
  | .send accepted => accepted = some s.client.sendBuff.length
  | .recv n => s.server.pc = .recvFile → s.server.totalLen + n < 2 ^ 31
  | _ => True

/-! ## The invariant -/

def ahead (s : Link) : ℤ := s.inFlight.length + s.client.rest.length

def HeaderAhead (s : Link) : Prop :=
  if s.client.pc = .sendSize then s.inFlight = [] ∧ s.client.rest = s.client.recording
  else ∃ sent, s.inFlight = sizeHeader (toInt s.client.recording.length) ++ sent ∧
    sent.length + s.client.rest.length = s.client.recording.length

/-- What the server waits for is ahead of it. -/
def Supplied (s : Link) : Prop :=
  match s.server.pc with
  | .recvSize => s.HeaderAhead
  | .openFile => 0 < s.ahead ∧ s.server.fileSize ≤ s.ahead
  | .recvFile =>
    0 < s.ahead ∧ s.server.fileSize ≤ s.server.totalLen + s.ahead ∧ 0 ≤ s.server.totalLen
  | _ => True

structure Flowing (recording : Bytes) (s : Link) : Prop where
  recording : s.client.recording = recording
  finished : s.client.pc = .recvReply → s.client.rest = []
  supplied : s.Supplied

theorem not_deadlocked_of_flowing {recording : Bytes} {s : Link}
    (h : s.closed = false → Flowing recording s) : ¬ s.Deadlocked := by
  rintro ⟨hclient, hserver, hflight, hclosed⟩
  obtain ⟨-, hfinished, hsupplied⟩ := h hclosed
  have hnone : s.ahead = 0 := by simp [ahead, hflight, hfinished hclient]
  rcases hserver with hpc | hpc
  · rw [Supplied, hpc] at hsupplied
    change s.HeaderAhead at hsupplied
    rw [HeaderAhead, if_neg (by simp [hclient]), hflight] at hsupplied
    obtain ⟨sent, hsent, -⟩ := hsupplied
    obtain ⟨pad, hheader, -⟩ := sizeHeader_eq (toInt s.client.recording.length)
    simp [hheader] at hsent
  · rw [Supplied, hpc] at hsupplied
    exact absurd hnone hsupplied.1.ne'

theorem flowing_connect (server : Server) (recording : Bytes) :
    Flowing recording (connect server recording) where
  recording := rfl
  finished := fun h ↦ absurd h (by simp [connect])
  supplied := by simp [Supplied, connect, Server.accepted, HeaderAhead]

/-! ## The client's steps -/

theorem Supplied.of_client {s t : Link} (h : s.Supplied) (hserver : t.server = s.server)
    (hahead : s.ahead ≤ t.ahead) (hheader : s.HeaderAhead → t.HeaderAhead) : t.Supplied := by
  unfold Supplied at h ⊢
  rw [hserver]
  split at h
  next => exact hheader h
  next => exact ⟨h.1.trans_le hahead, h.2.trans hahead⟩
  next => exact ⟨h.1.trans_le hahead, by omega, h.2.2⟩
  next => trivial

theorem flowing_send {recording : Bytes} {s : Link} (h : Flowing recording s)
    (hbuff : s.client.sendBuff ≠ []) :
    Flowing recording { s with
      client := s.client.afterSend, inFlight := s.inFlight ++ s.client.sendBuff } := by
  obtain ⟨hrecording, hfinished, hsupplied⟩ := h
  cases hpc : s.client.pc with
  | sendSize =>
      simp only [Client.afterSend, Client.sendBuff, hpc]
      refine ⟨hrecording, fun h ↦ absurd h (by simp), hsupplied.of_client rfl ?_ ?_⟩
      · simp only [ahead, List.length_append]
        omega
      · intro hheader
        rw [HeaderAhead, if_pos hpc] at hheader
        rw [HeaderAhead, if_neg (by simp)]
        refine ⟨[], ?_, ?_⟩
        · rw [hheader.1, List.nil_append, List.append_nil, Client.fileSize]
        · simp [hheader.2]
  | sendFile =>
      simp only [Client.afterSend, Client.sendBuff, hpc]
      refine ⟨hrecording, fun h ↦ absurd h (by simp), hsupplied.of_client rfl ?_ ?_⟩
      · simp only [ahead, List.length_append, List.length_take, List.length_drop]
        omega
      · intro hheader
        rw [HeaderAhead, if_neg (by simp [hpc])] at hheader ⊢
        obtain ⟨sent, hflight, hlength⟩ := hheader
        refine ⟨sent ++ s.client.rest.take 2048, ?_, ?_⟩
        · rw [hflight, List.append_assoc]
        · simp only [List.length_append, List.length_take, List.length_drop]
          omega
  | recvReply => exact absurd (by simp [Client.sendBuff, hpc]) hbuff

theorem flowing_overSending {recording : Bytes} {s : Link} (h : Flowing recording s)
    (hpc : s.client.pc = .sendFile) (hrest : s.client.rest = []) :
    Flowing recording { s with client := { s.client with pc := .recvReply } } := by
  refine ⟨h.recording, fun _ ↦ hrest, h.supplied.of_client rfl le_rfl fun hheader ↦ ?_⟩
  rw [HeaderAhead, if_neg (by simp [hpc])] at hheader
  rw [HeaderAhead, if_neg (by simp)]
  exact hheader

/-! ## The server's steps -/

theorem toInt_natCast_bounds (n : ℕ) :
    -2 ^ 31 ≤ toInt n ∧ toInt n < 2 ^ 31 ∧ toInt n ≤ n := by
  simp only [toInt, Int.bmod]
  omega

/-- The size that the server reads, from however much of the header, is no more than
the length of the recording. -/
theorem announced_le (recording : Bytes) (k : ℕ) :
    toInt ((sscanfInt ((sizeHeader (toInt recording.length)).take k)).getD 0) ≤
      recording.length := by
  obtain ⟨hlow, hhigh, hle⟩ := toInt_natCast_bounds recording.length
  obtain ⟨hmin, hmax⟩ := sscanfInt_sizeHeader_take_le (toInt recording.length) k
  have hfits : ∀ v : ℤ, -2 ^ 31 ≤ v → v < 2 ^ 31 → toInt v = v := by
    intro v hlow hhigh
    simp only [toInt, Int.bmod]
    omega
  rw [hfits _ (by omega) (by omega)]
  omega

theorem flowing_recvSize {recording : Bytes} {s : Link} {n : ℕ} (h : Flowing recording s)
    (hrecording : recording ≠ []) (hpc : s.server.pc = .recvSize)
    (hn : 0 < n ∧ n ≤ s.inFlight.length) (hfull : n ≤ 2048) :
    Flowing recording { s with
      inFlight := s.inFlight.drop n, server := s.server.sized (some (s.inFlight.take n)) } := by
  obtain ⟨rfl, hfinished, hsupplied⟩ := h
  have hheader : s.HeaderAhead := by
    rwa [Supplied, hpc] at hsupplied
  have hclient : s.client.pc ≠ .sendSize := by
    intro hclient
    rw [HeaderAhead, if_pos hclient] at hheader
    rw [hheader.1] at hn
    exact absurd (hn.1.trans_le hn.2) (by simp)
  rw [HeaderAhead, if_neg hclient] at hheader
  obtain ⟨sent, hflight, hlength⟩ := hheader
  obtain ⟨-, -, hsize⟩ := sizeHeader_eq (toInt s.client.recording.length)
  have hread : s.inFlight.take n = (sizeHeader (toInt s.client.recording.length)).take n := by
    rw [hflight, List.take_append_of_le_length (hfull.trans hsize)]
  have hahead : (s.client.recording.length : ℤ) ≤
      ((s.inFlight.drop n).length : ℤ) + s.client.rest.length := by
    rw [List.length_drop, hflight, List.length_append]
    omega
  have hpos : 0 < s.client.recording.length := List.length_pos_iff.mpr hrecording
  refine ⟨rfl, hfinished, ?_, ?_⟩
  · change 0 < ((s.inFlight.drop n).length : ℤ) + s.client.rest.length
    omega
  · change toInt ((sscanfInt (s.inFlight.take n)).getD 0) ≤ _
    rw [hread]
    exact (announced_le s.client.recording n).trans hahead

theorem flowing_recvFile {recording : Bytes} {s : Link} {n : ℕ} (h : Flowing recording s)
    (hpc : s.server.pc = .recvFile) (hn : 0 < n ∧ n ≤ s.inFlight.length)
    (htotal : s.server.totalLen + n < 2 ^ 31) :
    Flowing recording { s with
      inFlight := s.inFlight.drop n, server := s.server.stored (s.inFlight.take n) } := by
  obtain ⟨hrecording, hfinished, hsupplied⟩ := h
  rw [Supplied, hpc] at hsupplied
  obtain ⟨-, hsize, hnonneg⟩ := hsupplied
  refine ⟨hrecording, hfinished, ?_⟩
  have hcount : (s.inFlight.take n).length = n := by
    rw [List.length_take]
    omega
  have hsum : toInt (s.server.totalLen + n) = s.server.totalLen + n :=
    Int.bmod_eq_of_le (by omega) (by omega)
  have hahead : ((s.inFlight.drop n).length : ℤ) + s.client.rest.length = s.ahead - n := by
    rw [ahead, List.length_drop]
    omega
  cases hfile : s.server.fileP with
  | none => simp [Supplied, Server.stored, hfile]
  | some file =>
      rw [Server.stored_eq hfile, hcount, hsum]
      by_cases hdone : s.server.fileSize ≤ s.server.totalLen + n
      · rw [if_pos hdone]
        trivial
      · rw [if_neg hdone]
        change 0 < ((s.inFlight.drop n).length : ℤ) + s.client.rest.length ∧
          s.server.fileSize ≤ s.server.totalLen + n +
            (((s.inFlight.drop n).length : ℤ) + s.client.rest.length) ∧
          0 ≤ s.server.totalLen + n
        rw [hahead]
        omega

theorem flowing_local {recording : Bytes} {s : Link} {t : Server} {l : Server.Label}
    (h : Flowing recording s) (hl : isLocal l) (hstep : s.server.step l = some t) :
    Flowing recording { s with server := t } := by
  refine ⟨h.recording, h.finished, ?_⟩
  cases Server.change_of_step hstep with
  | accept ok hpc ht => cases hl
  | recvSize result hpc ht => cases hl
  | recvFile result hpc ht => cases hl
  | fopen capacity hpc ht =>
      subst ht
      have hsupplied := h.supplied
      rw [Supplied, hpc] at hsupplied
      obtain ⟨hpos, hsize⟩ := hsupplied
      exact ⟨hpos, by simpa [Server.opened, ahead] using hsize, le_rfl⟩
  | asrSample outcome hpc ht =>
      subst ht
      trivial
  | readResult opened hpc ht =>
      subst ht
      unfold Server.resultRead
      split <;> trivial
  | send hpc ht =>
      subst ht
      trivial
  | leave _ pc hl hnext ht =>
      subst ht
      obtain rfl | rfl | rfl := hnext <;> trivial

theorem flowing_step {recording : Bytes} {s t : Link} {l : Label} (hrecording : recording ≠ [])
    (h : s.closed = false → Flowing recording s) (hwhole : SendsWhole s l)
    (hstep : step s l = some t) : t.closed = false → Flowing recording t := by
  intro hopen
  cases change_of_step hstep with
  | send accepted hclosed hbuff hle =>
      have haccepted : accepted = some s.client.sendBuff.length := hwhole
      rw [haccepted, Option.getD_some, List.take_length]
      exact flowing_send (h hclosed) hbuff
  | overSending hclosed hpc hrest => exact flowing_overSending (h hclosed) hpc hrest
  | disconnect => cases hopen
  | recv n u hn hu =>
      have hcount : (s.inFlight.take n).length = n := by
        rw [List.length_take]
        omega
      cases Server.change_of_step hu with
      | recvSize _ hpc ht =>
          subst ht
          have hfull : n ≤ 2048 := by
            obtain ⟨hfull, -⟩ := Option.ite_none_left_eq_some.mp hu
            rwa [Option.getD_some, hcount, not_lt] at hfull
          exact flowing_recvSize (h hopen) hrecording hpc hn hfull
      | recvFile _ hpc ht =>
          subst ht
          have hne : s.inFlight.take n ≠ [] := by
            rw [← List.length_pos_iff, hcount]
            exact hn.1
          rw [Server.received, Option.getD_some, if_neg hne]
          exact flowing_recvFile (h hopen) hpc hn (hwhole hpc)
      | leave _ pc hl hnext ht => simp at hl
  | recvEnd u hclosed => exact absurd (hclosed.symm.trans hopen) (by decide)
  | server l u hl hu => exact flowing_local (h hopen) hl hu

/-! ## The deadlock -/

/-- With nothing to send: the server's first `recv` takes all of the header. -/
def uploadNothing : List Label :=
  [.send (some 2048), .overSending, .recv 2048, .server (.fopen (some Server.oneByte))]

theorem length_sizeHeader_zero : (sizeHeader 0).length = 2048 := by
  decide +kernel

theorem deadlocked_uploadNothing (server : Server) :
    Meets step SendsWhole (connect server []) uploadNothing ∧
      ∃ t, run step (connect server []) uploadNothing = some t ∧ t.Deadlocked := by
  let u : Server := (server.accepted true).sized (some (sizeHeader 0))
  let s₁ : Link := ⟨⟨.sendFile, [], []⟩, sizeHeader 0, false, server.accepted true⟩
  let s₂ : Link := ⟨⟨.recvReply, [], []⟩, sizeHeader 0, false, server.accepted true⟩
  let s₃ : Link := ⟨⟨.recvReply, [], []⟩, [], false, u⟩
  let s₄ : Link := ⟨⟨.recvReply, [], []⟩, [], false, u.opened (some Server.oneByte)⟩
  have hzero : (connect server []).client.fileSize = 0 := by
    simp [connect, Client.fileSize, toInt]
  have hbuff : (connect server []).client.sendBuff = sizeHeader 0 := congrArg sizeHeader hzero
  have hne : sizeHeader 0 ≠ [] := by
    rw [← List.length_pos_iff, length_sizeHeader_zero]
    decide
  have hall : (sizeHeader 0).take 2048 = sizeHeader 0 :=
    List.take_of_length_le length_sizeHeader_zero.le
  have h₁ : step (connect server []) (.send (some 2048)) = some s₁ := by
    rw [step, hbuff, if_pos ⟨rfl, hne, length_sizeHeader_zero.ge⟩, Option.getD_some, hall]
    rfl
  have h₂ : step s₁ .overSending = some s₂ := rfl
  have h₃ : step s₂ (.recv 2048) = some s₃ := by
    have hdrop : (sizeHeader 0).drop 2048 = [] :=
      List.drop_eq_nil_of_le length_sizeHeader_zero.le
    rw [step, if_pos ⟨by decide, length_sizeHeader_zero.ge⟩]
    simp [s₂, s₃, u, hall, hdrop, Server.step, Server.accepted, length_sizeHeader_zero]
  have h₄ : step s₃ (.server (.fopen (some Server.oneByte))) = some s₄ := rfl
  refine ⟨?_, s₄, ?_, rfl, Or.inr rfl, rfl, rfl⟩
  · rw [uploadNothing, meets_cons_of_step h₁, meets_cons_of_step h₂, meets_cons_of_step h₃,
      meets_cons_of_step h₄]
    refine ⟨?_, trivial, fun hpc ↦ absurd hpc (by simp [s₂, Server.accepted]), trivial, trivial⟩
    rw [SendsWhole, hbuff, length_sizeHeader_zero]
  · rw [uploadNothing, run_cons, h₁, Option.bind_some, run_cons, h₂, Option.bind_some, run_cons,
      h₃, Option.bind_some, run_cons, h₄, Option.bind_some, run_nil]

/-- While each `send` accepts all it is given, whatever the cuts in the stream, the
two never wait for each other, unless there is nothing to send. -/
theorem never_deadlocked_iff (server : Server) (recording : Bytes) :
    (∀ ls t, Meets step SendsWhole (connect server recording) ls →
      run step (connect server recording) ls = some t → ¬ t.Deadlocked) ↔ recording ≠ [] := by
  constructor
  · rintro hnever rfl
    obtain ⟨hwhole, t, hrun, hdead⟩ := deadlocked_uploadNothing server
    exact hnever _ t hwhole hrun hdead
  · intro hrecording ls t hwhole hrun
    exact not_deadlocked_of_flowing (invariant_of_meets (fun _ _ _ ↦ flowing_step hrecording)
      (fun _ ↦ flowing_connect server recording) hwhole hrun)

example : ((run step (connect .started [1]) [.send (some 2048), .send (some 0), .overSending,
    .recv 2048, .server (.fopen (some 1))]).map fun t ↦ decide t.Deadlocked) = some true := by
  decide +kernel

/-- An empty recording, with every byte of the header sent and received. -/
theorem empty_recording_deadlocks :
    ∃ t, run step (connect .started []) [.send (some 2048), .overSending, .recv 2048,
      .server (.fopen (some 1))] = some t ∧ t.Deadlocked :=
  (deadlocked_uploadNothing .started).2

end EmbeddedSystem.Voice.Link
