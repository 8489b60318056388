import EmbeddedSystem.Voice.Server

/-!
# The upload

The client `sendFileAndGetString` sends a header with the size and then the
recording; the server takes its first `recv` for the header.  Between them is a
stream of bytes without boundaries.
-/

namespace EmbeddedSystem.Voice

open Runs

/-- Where `sendFileAndGetString` is, once connected and recorded. -/
inductive ClientPc
  | sendSize
  | sendFile
  | recvReply
  deriving DecidableEq, Repr

/-- The client with its file, and what `fread` has not read of it. -/
structure Client where
  pc : ClientPc
  recording : Bytes
  rest : Bytes
  deriving DecidableEq, Repr

namespace Client

/-- `file_size = ftell(file_p)` -/
def fileSize (c : Client) : ℤ := toInt c.recording.length

def sendBuff (c : Client) : Bytes :=
  match c.pc with
  | .sendSize => sizeHeader c.fileSize
  | .sendFile => c.rest.take 2048
  | .recvReply => []

/-- The client after a `send`, of which it only prints the result. -/
def afterSend (c : Client) : Client :=
  match c.pc with
  | .sendSize => { c with pc := .sendFile }
  | .sendFile => { c with rest := c.rest.drop 2048 }
  | .recvReply => c

/-- What it has passed to `send` of the recording. -/
def passed (c : Client) : Bytes := c.recording.take (c.recording.length - c.rest.length)

end Client

/-- A client, a server, and the bytes on the way from one to the other. -/
structure Link where
  client : Client
  inFlight : Bytes
  closed : Bool
  server : Server
  deriving DecidableEq, Repr

namespace Link

inductive Label
  /-- The client's `send` accepts so many bytes, or fails. -/
  | send (accepted : Option ℕ)
  /-- `fread` finds the end of the file. -/
  | overSending
  | disconnect
  | recv (n : ℕ)
  /-- The server's `recv` finds the end of the stream. -/
  | recvEnd
  | server (l : Server.Label)
  deriving DecidableEq, Repr

def isLocal : Server.Label → Bool
  | .accept _ => false
  | .recv _ => false
  | _ => true

def step (s : Link) : Label → Option Link
  | .send accepted =>
    if s.closed = false ∧ s.client.sendBuff ≠ [] ∧
        accepted.getD 0 ≤ s.client.sendBuff.length then
      some { s with
        client := s.client.afterSend
        inFlight := s.inFlight ++ s.client.sendBuff.take (accepted.getD 0) }
    else none
  | .overSending =>
    if s.closed = false ∧ s.client.pc = .sendFile ∧ s.client.rest = [] then
      some { s with client := { s.client with pc := .recvReply } }
    else none
  | .disconnect => if s.closed = false then some { s with closed := true } else none
  | .recv n =>
    if 0 < n ∧ n ≤ s.inFlight.length then
      (s.server.step (.recv (some (s.inFlight.take n)))).map fun t ↦
        { s with inFlight := s.inFlight.drop n, server := t }
    else none
  | .recvEnd =>
    if s.closed = true ∧ s.inFlight = [] then
      (s.server.step (.recv (some []))).map fun t ↦ { s with server := t }
    else none
  | .server l =>
    if isLocal l then (s.server.step l).map fun t ↦ { s with server := t } else none

/-- What a step with each label needs and does. -/
inductive Change (s : Link) : Label → Link → Prop
  | send (accepted : Option ℕ) (hclosed : s.closed = false) (hbuff : s.client.sendBuff ≠ [])
      (hle : accepted.getD 0 ≤ s.client.sendBuff.length) :
      Change s (.send accepted)
        { s with
          client := s.client.afterSend
          inFlight := s.inFlight ++ s.client.sendBuff.take (accepted.getD 0) }
  | overSending (hclosed : s.closed = false) (hpc : s.client.pc = .sendFile)
      (hrest : s.client.rest = []) :
      Change s .overSending { s with client := { s.client with pc := .recvReply } }
  | disconnect (hclosed : s.closed = false) : Change s .disconnect { s with closed := true }
  | recv (n : ℕ) (u : Server) (hn : 0 < n ∧ n ≤ s.inFlight.length)
      (hu : s.server.step (.recv (some (s.inFlight.take n))) = some u) :
      Change s (.recv n) { s with inFlight := s.inFlight.drop n, server := u }
  | recvEnd (u : Server) (hclosed : s.closed = true) (hflight : s.inFlight = [])
      (hu : s.server.step (.recv (some [])) = some u) :
      Change s .recvEnd { s with server := u }
  | server (l : Server.Label) (u : Server) (hl : isLocal l) (hu : s.server.step l = some u) :
      Change s (.server l) { s with server := u }

theorem change_of_step {s t : Link} {l : Label} (h : step s l = some t) : Change s l t := by
  cases l with
  | send accepted =>
      obtain ⟨⟨hclosed, hbuff, hle⟩, ht⟩ := Option.ite_none_right_eq_some.mp h
      cases ht
      exact .send accepted hclosed hbuff hle
  | overSending =>
      obtain ⟨⟨hclosed, hpc, hrest⟩, ht⟩ := Option.ite_none_right_eq_some.mp h
      cases ht
      exact .overSending hclosed hpc hrest
  | disconnect =>
      obtain ⟨hclosed, ht⟩ := Option.ite_none_right_eq_some.mp h
      cases ht
      exact .disconnect hclosed
  | recv n =>
      obtain ⟨hn, hmap⟩ := Option.ite_none_right_eq_some.mp h
      obtain ⟨u, hu, rfl⟩ := Option.map_eq_some_iff.mp hmap
      exact .recv n u hn hu
  | recvEnd =>
      obtain ⟨⟨hclosed, hflight⟩, hmap⟩ := Option.ite_none_right_eq_some.mp h
      obtain ⟨u, hu, rfl⟩ := Option.map_eq_some_iff.mp hmap
      exact .recvEnd u hclosed hflight hu
  | server l =>
      obtain ⟨hl, hmap⟩ := Option.ite_none_right_eq_some.mp h
      obtain ⟨u, hu, rfl⟩ := Option.map_eq_some_iff.mp hmap
      exact .server l u hl hu

/-- The server has accepted a client that has a recording to send. -/
def connect (server : Server) (recording : Bytes) : Link :=
  ⟨⟨.sendSize, recording, recording⟩, [], false, server.accepted true⟩

/-- The header goes out at least with its digits, and each part of the recording in
full; the first `recv` takes the header and leaves the recording; and the client
stays until it has sent it. -/
def KeepsFraming (s : Link) : Label → Prop
  | .send accepted =>
    if s.client.pc = .sendSize then (printInt s.client.fileSize).length ≤ accepted.getD 0
    else accepted = some s.client.sendBuff.length
  | .recv n => s.server.pc = .recvSize → s.inFlight.drop n = s.client.passed
  | .disconnect => s.client.rest = []
  | _ => True

instance (s : Link) : ∀ l, Decidable (KeepsFraming s l)
  | .send accepted => inferInstanceAs (Decidable
      (if s.client.pc = .sendSize then (printInt s.client.fileSize).length ≤ accepted.getD 0
      else accepted = some s.client.sendBuff.length))
  | .recv n => inferInstanceAs (Decidable
      (s.server.pc = .recvSize → s.inFlight.drop n = s.client.passed))
  | .disconnect => inferInstanceAs (Decidable (s.client.rest = []))
  | .overSending | .recvEnd | .server _ => .isTrue trivial

/-! ## The invariant -/

/-- Once the size has arrived, the bytes of the recording are in order in what is
written, in flight and still to send. -/
structure InOrder (s : Link) : Prop where
  size : s.server.fileSize = s.client.recording.length
  sent : s.client.pc = .sendSize → s.closed = true
  order : s.server.written ++ (s.inFlight ++ s.client.rest) = s.client.recording

def HeaderFirst (s : Link) : Prop :=
  if s.client.pc = .sendSize then s.inFlight = [] ∧ s.client.passed = []
  else ∃ k, (printInt s.client.fileSize).length ≤ k ∧
    s.inFlight = (sizeHeader s.client.fileSize).take k ++ s.client.passed

def Arriving (s : Link) : Prop :=
  match s.server.pc with
  | .recvSize => s.server.written = [] ∧ s.HeaderFirst
  | .openFile => s.server.written = [] ∧ s.InOrder
  | .recvFile => s.server.totalLen = s.server.written.length ∧ s.InOrder
  | .asrSample => s.server.written = s.client.recording
  | _ => True

structure Framed (recording : Bytes) (s : Link) : Prop where
  recording : s.client.recording = recording
  suffix : s.client.rest <:+ s.client.recording
  complete : s.closed = true → s.client.rest = []
  arriving : s.Arriving

theorem passed_append_rest {c : Client} (h : c.rest <:+ c.recording) :
    c.passed ++ c.rest = c.recording :=
  List.suffix_iff_eq_append.mp h

section Framed

variable {recording : Bytes} {s : Link}

theorem Framed.at_recvSize (h : Framed recording s) (hpc : s.server.pc = .recvSize) :
    s.server.written = [] ∧ s.HeaderFirst := by
  have harriving := h.arriving
  rwa [Arriving, hpc] at harriving

theorem Framed.at_recvFile (h : Framed recording s) (hpc : s.server.pc = .recvFile) :
    s.server.totalLen = s.server.written.length ∧ s.InOrder := by
  have harriving := h.arriving
  rwa [Arriving, hpc] at harriving

end Framed

theorem framed_connect (server : Server) (recording : Bytes) :
    Framed recording (connect server recording) where
  recording := rfl
  suffix := List.suffix_rfl
  complete := fun h ↦ absurd h (by simp [connect])
  arriving := by simp [Arriving, connect, Server.accepted, HeaderFirst, Client.passed]

/-! ## The client's steps -/

theorem Arriving.of_client {s t : Link} (h : s.Arriving) (hserver : t.server = s.server)
    (hrecording : t.client.recording = s.client.recording)
    (hheader : s.HeaderFirst → t.HeaderFirst) (horder : s.InOrder → t.InOrder) :
    t.Arriving := by
  unfold Arriving at h ⊢
  rw [hserver, hrecording]
  split at h
  next => exact h.imp_right hheader
  next => exact h.imp_right horder
  next => exact h.imp_right horder
  next => exact h
  next => trivial

theorem passed_drop {c : Client} (h : c.rest <:+ c.recording) (n : ℕ) :
    ({ c with rest := c.rest.drop n } : Client).passed = c.passed ++ c.rest.take n := by
  have hdrop : c.rest.drop n <:+ c.recording := (List.drop_suffix n c.rest).trans h
  have happend : ({ c with rest := c.rest.drop n } : Client).passed ++ c.rest.drop n =
      c.recording := passed_append_rest hdrop
  rw [← List.append_left_inj (c.rest.drop n), happend, List.append_assoc,
    List.take_append_drop, passed_append_rest h]

theorem framed_sendSize {recording : Bytes} {s : Link} {k : ℕ} (h : Framed recording s)
    (hpc : s.client.pc = .sendSize) (hclosed : s.closed = false)
    (hk : (printInt s.client.fileSize).length ≤ k) :
    Framed recording { s with
      client := s.client.afterSend
      inFlight := s.inFlight ++ s.client.sendBuff.take k } := by
  have hafter : s.client.afterSend = { s.client with pc := .sendFile } := by
    simp [Client.afterSend, hpc]
  have hbuff : s.client.sendBuff = sizeHeader s.client.fileSize := by
    simp [Client.sendBuff, hpc]
  rw [hafter, hbuff]
  refine ⟨h.recording, h.suffix, h.complete, h.arriving.of_client rfl rfl ?_ ?_⟩
  · intro hheader
    rw [HeaderFirst, if_pos hpc] at hheader
    obtain ⟨hflight, hpassed⟩ := hheader
    rw [HeaderFirst, if_neg (by simp)]
    refine ⟨k, hk, ?_⟩
    change s.inFlight ++ _ = _ ++ s.client.passed
    rw [hflight, hpassed, List.nil_append, List.append_nil]
    rfl
  · intro horder
    exact absurd (horder.sent hpc) (by simp [hclosed])

theorem framed_sendFile {recording : Bytes} {s : Link} (h : Framed recording s)
    (hpc : s.client.pc = .sendFile) :
    Framed recording { s with
      client := s.client.afterSend
      inFlight := s.inFlight ++ s.client.sendBuff } := by
  have hafter : s.client.afterSend = { s.client with rest := s.client.rest.drop 2048 } := by
    simp [Client.afterSend, hpc]
  have hbuff : s.client.sendBuff = s.client.rest.take 2048 := by
    simp [Client.sendBuff, hpc]
  rw [hafter, hbuff]
  refine ⟨h.recording, (List.drop_suffix _ _).trans h.suffix, ?_,
    h.arriving.of_client rfl rfl ?_ ?_⟩
  · intro hclosed
    rw [h.complete hclosed, List.drop_nil]
  · intro hheader
    have hne : s.client.pc ≠ .sendSize := by simp [hpc]
    rw [HeaderFirst, if_neg hne] at hheader ⊢
    obtain ⟨k, hk, hflight⟩ := hheader
    refine ⟨k, hk, ?_⟩
    rw [hflight, passed_drop h.suffix, List.append_assoc]
    rfl
  · intro horder
    refine ⟨horder.size, horder.sent, ?_⟩
    rw [List.append_assoc, List.take_append_drop]
    exact horder.order

/-! ## The server's steps -/

theorem toInt_natCast {n : ℕ} (h : n < 2 ^ 31) : toInt n = n :=
  Int.bmod_eq_of_le (by omega) (by omega)

theorem fileSize_eq {recording : Bytes} {s : Link} (h : Framed recording s)
    (hsize : recording.length < 2 ^ 31) : s.client.fileSize = s.client.recording.length :=
  toInt_natCast (by rwa [h.recording])

theorem sscanfInt_header {recording : Bytes} {s : Link} {k : ℕ} (h : Framed recording s)
    (hsize : recording.length < 2 ^ 31) (hk : (printInt s.client.fileSize).length ≤ k) :
    sscanfInt ((sizeHeader s.client.fileSize).take k) = some (s.client.recording.length : ℤ) := by
  rw [fileSize_eq h hsize] at hk ⊢
  have hlt : s.client.recording.length < 2 ^ 31 := h.recording ▸ hsize
  exact sscanfInt_sizeHeader_take (by omega) hk

theorem framed_recvSize {recording : Bytes} {s : Link} {n : ℕ} (h : Framed recording s)
    (hsize : recording.length < 2 ^ 31) (hpc : s.server.pc = .recvSize)
    (hn : 0 < n ∧ n ≤ s.inFlight.length) (hdrop : s.inFlight.drop n = s.client.passed) :
    Framed recording { s with
      inFlight := s.inFlight.drop n, server := s.server.sized (some (s.inFlight.take n)) } := by
  obtain ⟨hwritten, hheader⟩ := h.at_recvSize hpc
  refine ⟨h.recording, h.suffix, h.complete, hwritten, ?_⟩
  by_cases hclient : s.client.pc = .sendSize
  · rw [HeaderFirst, if_pos hclient] at hheader
    rw [hheader.1] at hn
    exact absurd (hn.1.trans_le hn.2) (by simp)
  · rw [HeaderFirst, if_neg hclient] at hheader
    obtain ⟨k, hk, hflight⟩ := hheader
    have hlt : s.client.recording.length < 2 ^ 31 := h.recording ▸ hsize
    have htake : s.inFlight.take n = (sizeHeader s.client.fileSize).take k := by
      rw [← List.append_left_inj s.client.passed, ← hflight, ← hdrop, List.take_append_drop]
    refine ⟨?_, fun hpc ↦ absurd hpc hclient, ?_⟩
    · change toInt ((sscanfInt (s.inFlight.take n)).getD 0) = _
      rw [htake, sscanfInt_header h hsize hk]
      exact toInt_natCast hlt
    · change s.server.written ++ (s.inFlight.drop n ++ s.client.rest) = _
      rw [hwritten, hdrop, List.nil_append, passed_append_rest h.suffix]

/-- The first `recv` at the end of a stream: there was nothing to send. -/
theorem framed_recvSize_end {recording : Bytes} {s : Link} (h : Framed recording s)
    (hsize : recording.length < 2 ^ 31) (hpc : s.server.pc = .recvSize)
    (hclosed : s.closed = true) (hflight : s.inFlight = []) :
    Framed recording { s with server := s.server.sized (some []) } := by
  obtain ⟨hwritten, hheader⟩ := h.at_recvSize hpc
  refine ⟨h.recording, h.suffix, h.complete, hwritten, ?_⟩
  have hrest := h.complete hclosed
  by_cases hclient : s.client.pc = .sendSize
  · rw [HeaderFirst, if_pos hclient] at hheader
    have hrecording : s.client.recording = [] := by
      rw [← passed_append_rest h.suffix, hheader.2, hrest, List.append_nil]
    refine ⟨?_, fun _ ↦ hclosed, ?_⟩
    · change toInt ((sscanfInt []).getD 0) = _
      rw [hrecording]
      rfl
    · change s.server.written ++ (s.inFlight ++ s.client.rest) = _
      rw [hwritten, hflight, hrest, hrecording]
      rfl
  · rw [HeaderFirst, if_neg hclient] at hheader
    obtain ⟨k, hk, hparts⟩ := hheader
    have hnil := (List.append_eq_nil_iff.mp (hparts.symm.trans hflight)).1
    have hread := sscanfInt_header h hsize hk
    rw [hnil] at hread
    cases hread

theorem framed_opened {recording : Bytes} {s : Link} (h : Framed recording s)
    (hpc : s.server.pc = .openFile) (capacity : Option ℕ+) :
    Framed recording { s with server := s.server.opened capacity } := by
  have harriving := h.arriving
  rw [Arriving, hpc] at harriving
  obtain ⟨hwritten, horder⟩ := harriving
  refine ⟨h.recording, h.suffix, h.complete, ?_, horder.size, horder.sent, horder.order⟩
  change (0 : ℤ) = s.server.written.length
  rw [hwritten]
  rfl

theorem framed_stored {recording chunk flight : Bytes} {s : Link} (h : Framed recording s)
    (hsize : recording.length < 2 ^ 31) (hpc : s.server.pc = .recvFile)
    (hflight : s.inFlight = chunk ++ flight) :
    Framed recording { s with inFlight := flight, server := s.server.stored chunk } := by
  obtain ⟨htotal, horder⟩ := h.at_recvFile hpc
  refine ⟨h.recording, h.suffix, h.complete, ?_⟩
  have hwritten : s.server.written ++ chunk ++ (flight ++ s.client.rest) =
      s.client.recording := by
    rw [← horder.order, hflight, List.append_assoc, List.append_assoc]
  have hlengths := congrArg List.length hwritten
  rw [List.length_append, h.recording] at hlengths
  have hlen : toInt (s.server.totalLen + chunk.length) = (s.server.written ++ chunk).length := by
    rw [htotal, ← Int.natCast_add, ← List.length_append]
    exact toInt_natCast (by omega)
  cases hfile : s.server.fileP with
  | none => simp [Arriving, Server.stored, hfile]
  | some file =>
      rw [Server.stored_eq hfile]
      by_cases hdone : s.server.fileSize ≤ toInt (s.server.totalLen + chunk.length)
      · rw [if_pos hdone]
        change s.server.written ++ chunk = s.client.recording
        rw [horder.size, hlen, Int.ofNat_le, h.recording] at hdone
        have hnone : flight ++ s.client.rest = [] :=
          List.eq_nil_of_length_eq_zero (by omega)
        rwa [hnone, List.append_nil] at hwritten
      · rw [if_neg hdone]
        exact ⟨hlen, horder.size, horder.sent, hwritten⟩

theorem framed_recvFile_end {recording : Bytes} {s : Link} (h : Framed recording s)
    (hpc : s.server.pc = .recvFile) (hclosed : s.closed = true) (hflight : s.inFlight = []) :
    Framed recording { s with server := s.server.received (some []) } := by
  have horder := (h.at_recvFile hpc).2.order
  refine ⟨h.recording, h.suffix, h.complete, ?_⟩
  change s.server.written = s.client.recording
  rw [← horder, hflight, h.complete hclosed, List.append_nil, List.append_nil]

theorem framed_local {recording : Bytes} {s : Link} {t : Server} {l : Server.Label}
    (h : Framed recording s) (hl : isLocal l) (hstep : s.server.step l = some t) :
    Framed recording { s with server := t } := by
  cases Server.change_of_step hstep with
  | accept ok hpc ht => cases hl
  | recvSize result hpc ht => cases hl
  | recvFile result hpc ht => cases hl
  | fopen capacity hpc ht =>
      subst ht
      exact framed_opened h hpc capacity
  | asrSample outcome hpc ht =>
      subst ht
      exact ⟨h.recording, h.suffix, h.complete, trivial⟩
  | readResult opened hpc ht =>
      subst ht
      refine ⟨h.recording, h.suffix, h.complete, ?_⟩
      unfold Server.resultRead
      split <;> trivial
  | send hpc ht =>
      subst ht
      exact ⟨h.recording, h.suffix, h.complete, trivial⟩
  | leave _ pc hl hnext ht =>
      subst ht
      refine ⟨h.recording, h.suffix, h.complete, ?_⟩
      obtain rfl | rfl | rfl := hnext <;> trivial

theorem framed_step {recording : Bytes} {s t : Link} {l : Label}
    (hsize : recording.length < 2 ^ 31) (h : Framed recording s) (hkeeps : KeepsFraming s l)
    (hstep : step s l = some t) : Framed recording t := by
  cases change_of_step hstep with
  | send accepted hclosed hbuff hle =>
      cases hpc : s.client.pc with
      | sendSize =>
          rw [KeepsFraming, if_pos hpc] at hkeeps
          exact framed_sendSize h hpc hclosed hkeeps
      | sendFile =>
          rw [KeepsFraming, if_neg (by simp [hpc])] at hkeeps
          rw [hkeeps, Option.getD_some, List.take_length]
          exact framed_sendFile h hpc
      | recvReply => exact absurd (by simp [Client.sendBuff, hpc]) hbuff
  | overSending hclosed hpc hrest =>
      refine ⟨h.recording, h.suffix, h.complete, h.arriving.of_client rfl rfl ?_ ?_⟩
      · intro hheader
        rw [HeaderFirst, if_neg (by simp [hpc])] at hheader
        exact hheader
      · intro horder
        exact ⟨horder.size, fun hpc ↦ absurd hpc (by simp), horder.order⟩
  | disconnect hclosed =>
      exact ⟨h.recording, h.suffix, fun _ ↦ hkeeps,
        h.arriving.of_client rfl rfl id fun horder ↦ ⟨horder.size, fun _ ↦ rfl, horder.order⟩⟩
  | recv n u hn hu =>
      cases Server.change_of_step hu with
      | recvSize _ hpc ht =>
          subst ht
          exact framed_recvSize h hsize hpc hn (hkeeps hpc)
      | recvFile _ hpc ht =>
          subst ht
          have hne : s.inFlight.take n ≠ [] := by
            rw [← List.length_pos_iff, List.length_take]
            omega
          rw [Server.received, Option.getD_some, if_neg hne]
          exact framed_stored h hsize hpc (List.take_append_drop n s.inFlight).symm
      | leave _ pc hl hnext ht => simp at hl
  | recvEnd u hclosed hflight hu =>
      cases Server.change_of_step hu with
      | recvSize _ hpc ht =>
          subst ht
          exact framed_recvSize_end h hsize hpc hclosed hflight
      | recvFile _ hpc ht =>
          subst ht
          exact framed_recvFile_end h hpc hclosed hflight
      | leave _ pc hl hnext ht => simp at hl
  | server l u hl hu => exact framed_local h hl hu

/-- In every run that keeps the framing, when the server starts `asr_sample` it has
written the recording, whatever the sizes of the pieces. -/
theorem upload_is_recording {server : Server} {recording : Bytes} {ls : List Label} {t : Link}
    (hsize : recording.length < 2 ^ 31)
    (hkeeps : Meets step KeepsFraming (connect server recording) ls)
    (hrun : run step (connect server recording) ls = some t)
    (hpc : t.server.pc = .asrSample) : t.server.written = recording := by
  have hframed : Framed recording t :=
    invariant_of_meets (fun _ _ _ ↦ framed_step hsize) (framed_connect server recording)
      hkeeps hrun
  have harriving := hframed.arriving
  rw [Arriving, hpc] at harriving
  exact harriving.trans hframed.recording

def uploadThree : List Label :=
  [.send (some 2048), .recv 2048, .send (some 3), .server (.fopen (some Server.oneByte)), .recv 1,
    .recv 2]

def uploaded : Link := (run step (connect .started [1, 2, 3]) uploadThree).get (by decide +kernel)

theorem upload_of_three : uploaded.server.written = [1, 2, 3] := by
  have hrun : (run step (connect .started [1, 2, 3]) uploadThree).isSome := by decide +kernel
  exact upload_is_recording (by decide) (by decide +kernel) (Option.some_get hrun).symm
    (by decide +kernel)

/-- When the first `recv` returns one byte of the header, the others are taken for the
recording. -/
theorem upload_of_cut_header :
    (run step (connect .started [1, 2, 3])
      [.send (some 2048), .recv 1, .server (.fopen (some 1)), .recv 4]).map
        (fun t ↦ (t.server.pc, t.server.written)) = some (.asrSample, [10, 0, 0, 0]) := by
  decide +kernel

end Link

end EmbeddedSystem.Voice
