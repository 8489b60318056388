import EmbeddedSystem.Recognition.Audio
import EmbeddedSystem.Recognition.Result
import EmbeddedSystem.Ui.Reply
import EmbeddedSystem.Voice.Answer
import EmbeddedSystem.Voice.Tail
import EmbeddedSystem.Voice.Upload

/-!
# One request, from the recording to the command

The client, the server and, where the server calls `system`, the `asr_sample` that it waits
for.  The child opens the file as the server has left it, with what is still in the buffer
of the stream missing, and the server goes on with the `result.txt` that the child leaves.
-/

namespace EmbeddedSystem.Recognition

open BlockStream Runs Voice

structure Exchange where
  link : Link
  sample : Option (Sample × Sample.Log)
  deriving DecidableEq, Repr

namespace Exchange

inductive Label
  | link (l : Link.Label)
  /-- `system` starts the child. -/
  | fork
  | sample (l : SampleLabel)
  /-- `system` returns. -/
  | reap
  deriving DecidableEq, Repr

/-- The step of the server that the child takes the place of. -/
def isAsrSample : Link.Label → Bool
  | .server (.asrSample _) => true
  | _ => false

/-- If the child opens the recording, it finds what the server's file holds. -/
def Opens (s : Exchange) : SampleLabel → Prop
  | .openPcm (some file) => file = s.link.server.recvFile
  | _ => True

instance (s : Exchange) (l : SampleLabel) : Decidable (s.Opens l) :=
  match l with
  | .openPcm (some file) => inferInstanceAs (Decidable (file = s.link.server.recvFile))
  | .openPcm none | .login _ | .openGrammar _ | .allocGrammar _ | .buildGrammar _ | .built _
  | .callback | .waitGrammar | .checkGrammar | .allocPcm _ | .sessionBegin _ _
  | .audioWrite _ _ | .audioLast _ _ | .getResult _ _ _ | .openResult _ | .sessionEnd
  | .logout => .isTrue trivial

def forked (s : Exchange) : Exchange :=
  { s with sample := some (Sample.start s.link.server.resultTxt, Sample.Log.empty) }

/-- The server has waited for a child that ended like `t`. -/
def reaped (s : Exchange) (t : Sample) : Exchange :=
  { s with link := { s.link with
      server := { s.link.server with pc := .readResult, resultTxt := t.resultTxt } } }

def connect (server : Server) (recording : Bytes) : Exchange :=
  ⟨Link.connect server recording, none⟩

def Ended (t : Sample) : Prop := t.pc = .exited ∨ t.pc = .killed

instance (t : Sample) : Decidable (Ended t) := inferInstanceAs (Decidable (_ ∨ _))

variable (rawtext : Bytes → Option Bytes)

def step (s : Exchange) : Label → Option Exchange
  | .link l =>
    if isAsrSample l then none else (s.link.step l).map fun link ↦ { s with link := link }
  | .fork =>
    if s.link.server.pc = .asrSample ∧ s.sample = none then some s.forked else none
  | .sample l =>
    if s.Opens l then
      (s.sample.bind fun p ↦ Sample.logged rawtext p l).map fun q ↦ { s with sample := some q }
    else none
  | .reap =>
    s.sample.bind fun p ↦
      if s.link.server.pc = .asrSample ∧ Ended p.1 then some (s.reaped p.1) else none

/-- What a step with each label needs and does. -/
inductive Change (s : Exchange) : Label → Exchange → Prop
  | link (l : Link.Label) (link : Link) (hl : isAsrSample l = false)
      (hlink : s.link.step l = some link) : Change s (.link l) { s with link := link }
  | fork (hpc : s.link.server.pc = .asrSample) (hnone : s.sample = none) :
      Change s .fork s.forked
  | sample (l : SampleLabel) (p q : Sample × Sample.Log) (hp : s.sample = some p)
      (hopens : s.Opens l) (hq : Sample.logged rawtext p l = some q) :
      Change s (.sample l) { s with sample := some q }
  | reap (p : Sample × Sample.Log) (hp : s.sample = some p) (hpc : s.link.server.pc = .asrSample)
      (hend : Ended p.1) : Change s .reap (s.reaped p.1)

variable {rawtext}

theorem change_of_step {s t : Exchange} {l : Label} (h : s.step rawtext l = some t) :
    Change rawtext s l t := by
  cases l with
  | link l =>
      obtain ⟨hl, h⟩ := Option.ite_none_left_eq_some.mp h
      obtain ⟨link, hlink, rfl⟩ := Option.map_eq_some_iff.mp h
      exact .link l link (by simpa using hl) hlink
  | fork =>
      obtain ⟨⟨hpc, hnone⟩, ht⟩ := Option.ite_none_right_eq_some.mp h
      exact Option.some.inj ht ▸ .fork hpc hnone
  | sample l =>
      obtain ⟨hopens, h⟩ := Option.ite_none_right_eq_some.mp h
      obtain ⟨q, hq, rfl⟩ := Option.map_eq_some_iff.mp h
      obtain ⟨p, hp, hq⟩ := Option.bind_eq_some_iff.mp hq
      exact .sample l p q hp hopens hq
  | reap =>
      obtain ⟨p, hp, h⟩ := Option.bind_eq_some_iff.mp h
      obtain ⟨⟨hpc, hend⟩, ht⟩ := Option.ite_none_right_eq_some.mp h
      exact Option.some.inj ht ▸ .reap p hp hpc hend

/-- The server has all of the request. -/
def Behind (server : Server) : Prop :=
  server.pc ∈ [.asrSample, .readResult, .send, .close, .accept, .killed]

theorem behind_recv {s t : Server} {result : Option Bytes} (h : Behind s) :
    s.step (.recv result) ≠ some t := by
  intro hstep
  cases Server.change_of_step hstep with
  | recvSize _ hpc ht => simp [Behind, hpc] at h
  | recvFile _ hpc ht => simp [Behind, hpc] at h
  | leave _ pc hl hnext ht => simp at hl

/-- Then the link leaves the server alone, or the server reads the result, replies or closes. -/
theorem behind_link {s t : Link} {l : Link.Label} (h : Behind s.server) (hstep : s.step l = some t)
    (hl : isAsrSample l = false) :
    t.server = s.server ∨
      (s.server.pc = .readResult ∧ ∃ opened, t.server = s.server.resultRead opened) ∨
      (s.server.pc = .send ∨ s.server.pc = .close) ∧
        ∃ pc, (pc = .close ∨ pc = .killed ∨ pc = .accept) ∧
          t.server = { s.server with pc := pc } := by
  cases Link.change_of_step hstep with
  | send accepted hclosed hbuff hle => exact Or.inl rfl
  | overSending hclosed hclient hrest => exact Or.inl rfl
  | disconnect hclosed => exact Or.inl rfl
  | recv n u hn hu => exact absurd hu (behind_recv h)
  | recvEnd u hclosed hflight hu => exact absurd hu (behind_recv h)
  | server l u hlocal hu =>
      cases Server.change_of_step hu with
      | accept ok hpc ht => cases hlocal
      | recvSize _ hpc ht => cases hlocal
      | recvFile _ hpc ht => cases hlocal
      | fopen capacity hpc ht => simp [Behind, hpc] at h
      | asrSample outcome hpc ht => simp [isAsrSample] at hl
      | readResult opened hpc ht => exact Or.inr (Or.inl ⟨hpc, opened, ht⟩)
      | send hpc ht => exact Or.inr (Or.inr ⟨Or.inl hpc, .close, Or.inl rfl, ht⟩)
      | leave _ pc hleave hnext ht =>
          refine Or.inr (Or.inr ⟨?_, pc, hnext, ht⟩)
          obtain ⟨-, hpc, -⟩ | ⟨-, hpc, -⟩ | ⟨-, hpc, -⟩ := Server.leave_of_step hleave hu
          · exact Or.inl hpc
          · exact Or.inl hpc
          · exact Or.inr hpc

/-! ## The child in the place of a step of the server -/

/-- What the server has and will have of the child. -/
structure Child (rawtext : Bytes → Option Bytes) (server : Server) (p : Sample × Sample.Log) :
    Prop where
  behind : Behind server
  resulting : server.pc = .asrSample → Sample.Resulting rawtext server.resultTxt p.1 p.2
  ended : server.pc ≠ .asrSample → Ended p.1
  read : server.pc = .readResult → ∀ own ∈ p.1.outcome rawtext p.2, server.resultTxt = some own
  replied : server.pc = .send → ∀ own ∈ p.1.outcome rawtext p.2, IsWord own.text →
    server.needTosendString = own.text

def Waiting (rawtext : Bytes → Option Bytes) (s : Exchange) : Prop :=
  match s.sample with
  | none => s.link.server.pc ∉ [.readResult, .send]
  | some p => Child rawtext s.link.server p

variable {s t : Exchange}

theorem child_forked {server : Server} (hpc : server.pc = .asrSample) :
    Child rawtext server (Sample.start server.resultTxt, Sample.Log.empty) where
  behind := by simp [Behind, hpc]
  resulting := fun _ ↦ Sample.resulting_early rfl rfl rfl (by simp [Sample.start])
  ended := fun hne ↦ absurd hpc hne
  read := by simp [hpc]
  replied := by simp [hpc]

theorem child_read {server : Server} {p : Sample × Sample.Log} (h : Child rawtext server p)
    (hpc : server.pc = .readResult) (opened : Bool) :
    Child rawtext (server.resultRead opened) p := by
  have hended : Ended p.1 := h.ended (by simp [hpc])
  have hkilled : Child rawtext { server with pc := .killed } p :=
    ⟨by simp [Behind], by simp, fun _ ↦ hended, by simp, by simp⟩
  cases opened with
  | false => exact hkilled
  | true =>
      cases hresult : server.resultTxt with
      | none => simpa [Server.resultRead, hresult] using hkilled
      | some r =>
          have hread : server.resultRead true = { server with
              pc := .send
              needTosendString := (word r.text).getD server.needTosendString } := by
            simp [Server.resultRead, hresult]
          rw [hread]
          refine ⟨by simp [Behind], by simp, fun _ ↦ hended, by simp, ?_⟩
          intro _ own hown hword
          obtain rfl : r = own := Option.some.inj (hresult.symm.trans (h.read hpc own hown))
          rw [word_of_isWord hword, Option.getD_some]

theorem child_link {link link' : Link} {l : Link.Label} {p : Sample × Sample.Log}
    (h : Child rawtext link.server p) (hl : isAsrSample l = false)
    (hstep : link.step l = some link') : Child rawtext link'.server p := by
  obtain heq | ⟨hpc, opened, heq⟩ | ⟨hpc, pc, hnext, heq⟩ := behind_link h.behind hstep hl
  · exact heq ▸ h
  · exact heq ▸ child_read h hpc opened
  · have hended : Ended p.1 := h.ended (by obtain hpc | hpc := hpc <;> simp [hpc])
    rw [heq]
    obtain rfl | rfl | rfl := hnext <;>
      exact ⟨by simp [Behind], by simp, fun _ ↦ hended, by simp, by simp⟩

/-- Without a child the server has no result. -/
theorem no_result_link {link link' : Link} {l : Link.Label}
    (h : link.server.pc ∉ [.readResult, .send]) (hl : isAsrSample l = false)
    (hstep : link.step l = some link') : link'.server.pc ∉ [.readResult, .send] := by
  have hserver : ∀ k u, link.server.step k = some u → isAsrSample (.server k) = false →
      u.pc ∉ [.readResult, .send] := by
    intro k u hu hk
    cases Server.change_of_step hu with
    | accept ok hpc ht => cases ok <;> simp [ht, Server.accepted]
    | recvSize result hpc ht => simp [ht, Server.sized]
    | recvFile result hpc ht =>
        have hnot := Server.not_replying_received link.server result
        simpa [ht] using not_or.mp hnot
    | fopen capacity hpc ht => simp [ht, Server.opened]
    | asrSample outcome hpc ht => simp [isAsrSample] at hk
    | readResult opened hpc ht => simp [hpc] at h
    | send hpc ht => simp [hpc] at h
    | leave _ pc hleave hnext ht => obtain rfl | rfl | rfl := hnext <;> simp [ht]
  cases Link.change_of_step hstep with
  | send accepted hclosed hbuff hle => exact h
  | overSending hclosed hclient hrest => exact h
  | disconnect hclosed => exact h
  | recv n u hn hu => exact hserver _ u hu rfl
  | recvEnd u hclosed hflight hu => exact hserver _ u hu rfl
  | server k u hlocal hu => exact hserver k u hu hl

theorem waiting_step {l : Label} (h : s.Waiting rawtext) (hstep : s.step rawtext l = some t) :
    t.Waiting rawtext := by
  cases change_of_step hstep with
  | link l link hl hlink =>
      cases hsample : s.sample with
      | none =>
          simp only [Waiting, hsample] at h ⊢
          exact no_result_link h hl hlink
      | some p =>
          simp only [Waiting, hsample] at h ⊢
          exact child_link h hl hlink
  | fork hpc hnone => exact child_forked hpc
  | sample l p q hp hopens hq =>
      simp only [Waiting, hp] at h ⊢
      obtain ⟨hq, hlog⟩ := withHistory_eq_some.mp hq
      by_cases hpc : s.link.server.pc = .asrSample
      · refine ⟨h.behind, fun _ ↦ ?_, fun hne ↦ absurd hpc hne, by simp [hpc], by simp [hpc]⟩
        exact hlog ▸ Sample.resulting_step (h.resulting hpc) (Sample.change_of_step hq)
      · rw [Sample.step_of_ended (h.ended hpc)] at hq
        cases hq
  | reap p hp hpc hend =>
      simp only [Waiting, hp, reaped] at h ⊢
      refine ⟨by simp [Behind], by simp, fun _ ↦ hend, ?_, by simp⟩
      intro _ own hown
      have hresult := Sample.resultTxt_of_ended (h.resulting hpc) hend
      simpa [show p.1.outcome rawtext p.2 = some own from hown] using hresult

/-- The child in the place of the server's step: whatever it and the engine do, the link goes
through one of the runs that it has by itself. -/
theorem link_run_of_run {server : Server} {recording : Bytes} {ls : List Label}
    (hrun : run (step rawtext) (connect server recording) ls = some t) :
    ∃ ks, run Link.step (Link.connect server recording) ks = some t.link := by
  have hstep : ∀ (s : Exchange) (u : Link) (l : Label) (t : Exchange),
      s.link = u ∧ s.Waiting rawtext → s.step rawtext l = some t →
        ∃ ks v, run Link.step u ks = some v ∧ t.link = v ∧ t.Waiting rawtext := by
    rintro s u l t ⟨rfl, hwaiting⟩ hstep
    have hnext := waiting_step hwaiting hstep
    cases change_of_step hstep with
    | link l link hl hlink => exact ⟨[l], link, by simp [hlink], rfl, hnext⟩
    | fork hpc hnone => exact ⟨[], s.link, rfl, rfl, hnext⟩
    | sample l p q hp hopens hq => exact ⟨[], s.link, rfl, rfl, hnext⟩
    | reap p hp hpc hend =>
        simp only [Waiting, hp] at hwaiting
        have hserver := Sample.server_step_of_ended hpc (hwaiting.resulting hpc) hend
        refine ⟨[.server (.asrSample (p.1.outcome rawtext p.2))], (s.reaped p.1).link, ?_, rfl,
          hnext⟩
        simp [Link.step, Link.isLocal, hserver, reaped]
  have hstart : (connect server recording).link = Link.connect server recording ∧
      (connect server recording).Waiting rawtext :=
    ⟨rfl, by simp [Waiting, connect, Link.connect, Server.accepted]⟩
  obtain ⟨ks, v, hks, rfl, -⟩ := run_of_simulation hstep hstart hrun
  exact ⟨ks, hks⟩

/-- A request for the album, with a recording of three bytes, of which the third is still in
the server's buffer. -/
def albumRequest : List Label :=
  Link.uploadThree.map .link ++ .fork :: (Sample.heard [1, 2] Ui.openAlbumText).map .sample ++
    [.reap, .link (.server (.readResult true))]

def albumAsked : Exchange :=
  (run (step some) (connect .started [1, 2, 3]) albumRequest).get (by decide +kernel)

theorem run_albumRequest :
    run (step some) (connect .started [1, 2, 3]) albumRequest = some albumAsked :=
  (Option.some_get _).symm

theorem link_run_of_albumRequest :
    ∃ ks, run Link.step (Link.connect .started [1, 2, 3]) ks = some albumAsked.link :=
  link_run_of_run run_albumRequest

/-! ## What the engine hears -/

/-- The upload keeps its framing, and the server's file can be opened. -/
def KeepsRequest (s : Exchange) : Label → Prop
  | .link (.server (.fopen capacity)) => capacity.isSome
  | .link l => s.link.KeepsFraming l
  | _ => True

/-- The file holds all of the recording but its last block. -/
def Stored (recording : Bytes) (server : Server) : Prop :=
  Behind server ∧ ∃ file, server.fileP = some file ∧
    server.recvFile = recording.take (passedOn file.capacity recording.length)

structure Uploading (recording : Bytes) (s : Exchange) : Prop where
  framed : Link.Framed recording s.link
  tracked : s.link.server.Tracked
  opened : s.link.server.pc ∈ [.recvFile, .asrSample] → s.link.server.fileP.isSome
  child : ∀ p ∈ s.sample, Stored recording s.link.server ∧ p.1.Sending p.2 ∧
    ∀ file ∈ p.2.recording, file = s.link.server.recvFile

theorem stored_link {recording : Bytes} {link link' : Link} {l : Link.Label}
    (h : Stored recording link.server) (hl : isAsrSample l = false)
    (hstep : link.step l = some link') :
    Stored recording link'.server ∧ link'.server.recvFile = link.server.recvFile := by
  obtain ⟨hbehind, hfile⟩ := h
  obtain heq | ⟨hpc, opened, heq⟩ | ⟨hpc, pc, hnext, heq⟩ := behind_link hbehind hstep hl
  · rw [heq]
    exact ⟨⟨hbehind, hfile⟩, rfl⟩
  · rw [heq]
    unfold Server.resultRead
    split
    next => exact ⟨⟨by simp [Behind], hfile⟩, rfl⟩
    next => exact ⟨⟨by simp [Behind], hfile⟩, rfl⟩
  · rw [heq]
    obtain rfl | rfl | rfl := hnext <;> exact ⟨⟨by simp [Behind], hfile⟩, rfl⟩

theorem tracked_link {link link' : Link} {l : Link.Label} (h : link.server.Tracked)
    (hstep : link.step l = some link') : link'.server.Tracked := by
  cases Link.change_of_step hstep with
  | send accepted hclosed hbuff hle => exact h
  | overSending hclosed hclient hrest => exact h
  | disconnect hclosed => exact h
  | recv n u hn hu => exact Server.tracked_step h hu
  | recvEnd u hclosed hflight hu => exact Server.tracked_step h hu
  | server k u hlocal hu => exact Server.tracked_step h hu

theorem opened_received {server : Server} (h : server.fileP.isSome) (result : Option Bytes) :
    (server.received result).fileP.isSome := by
  unfold Server.received Server.stored
  split
  next => exact h
  next =>
    split
    next hnone => simp [hnone] at h
    next => rfl

theorem opened_link {link link' : Link} {l : Link.Label}
    (h : link.server.pc ∈ [.recvFile, .asrSample] → link.server.fileP.isSome)
    (hopen : ∀ capacity, l = .server (.fopen capacity) → capacity.isSome)
    (hl : isAsrSample l = false) (hstep : link.step l = some link') :
    link'.server.pc ∈ [.recvFile, .asrSample] → link'.server.fileP.isSome := by
  have hrecv : ∀ result u, link.server.step (.recv result) = some u →
      u.pc ∈ [.recvFile, .asrSample] → u.fileP.isSome := by
    intro result u hu
    cases Server.change_of_step hu with
    | recvSize result hpc ht => simp [ht, Server.sized]
    | recvFile result hpc ht => exact fun _ ↦ ht ▸ opened_received (h (by simp [hpc])) result
    | leave _ pc hleave hnext ht => simp at hleave
  cases Link.change_of_step hstep with
  | send accepted hclosed hbuff hle => exact h
  | overSending hclosed hclient hrest => exact h
  | disconnect hclosed => exact h
  | recv n u hn hu => exact hrecv _ u hu
  | recvEnd u hclosed hflight hu => exact hrecv _ u hu
  | server k u hlocal hu =>
      cases Server.change_of_step hu with
      | accept ok hpc ht => cases hlocal
      | recvSize result hpc ht => cases hlocal
      | recvFile result hpc ht => cases hlocal
      | fopen capacity hpc ht =>
          intro
          simpa [ht, Server.opened] using hopen capacity rfl
      | asrSample outcome hpc ht => simp [isAsrSample] at hl
      | readResult opened hpc ht =>
          simp only [ht, Server.resultRead]
          split <;> simp
      | send hpc ht => simp [ht]
      | leave _ pc hleave hnext ht => obtain rfl | rfl | rfl := hnext <;> simp [ht]

theorem stored_of_asrSample {recording : Bytes} {link : Link}
    (hframed : Link.Framed recording link)
    (htracked : link.server.Tracked) (hopened : link.server.fileP.isSome)
    (hpc : link.server.pc = .asrSample) : Stored recording link.server := by
  obtain ⟨file, hfile⟩ := Option.isSome_iff_exists.mp hopened
  have hwritten : link.server.written = recording := by
    have harriving := hframed.arriving
    rw [Link.Arriving, hpc] at harriving
    exact harriving.trans hframed.recording
  rw [Server.Tracked, hpc] at htracked
  exact ⟨by simp [Behind, hpc], file, hfile, hwritten ▸ htracked.recvFile_eq_take hfile⟩

theorem recording_record (s : Sample) (l : SampleLabel) (log : Sample.Log) :
    (s.record l log).recording = log.recording ∨
      ∃ file, l = .openPcm (some file) ∧ (s.record l log).recording = some file := by
  cases l with
  | openPcm file =>
      cases file with
      | none => exact Or.inl rfl
      | some file => exact Or.inr ⟨file, rfl, rfl⟩
  | _ => exact Or.inl rfl

theorem uploading_step {recording : Bytes} {l : Label} (hsize : recording.length < 2 ^ 31)
    (h : Uploading recording s) (hkeeps : s.KeepsRequest l) (hstep : s.step rawtext l = some t) :
    Uploading recording t := by
  cases change_of_step hstep with
  | link l link hl hlink =>
      have hframing : s.link.KeepsFraming l := by
        cases l with
        | server k => trivial
        | _ => exact hkeeps
      have hopen : ∀ capacity, l = .server (.fopen capacity) → capacity.isSome := by
        rintro capacity rfl
        exact hkeeps
      refine ⟨Link.framed_step hsize h.framed hframing hlink, tracked_link h.tracked hlink,
        opened_link h.opened hopen hl hlink, ?_⟩
      intro p hp
      obtain ⟨hstored, hsending, hfile⟩ := h.child p hp
      obtain ⟨hstored', hrecvFile⟩ := stored_link hstored hl hlink
      exact ⟨hstored', hsending, hrecvFile ▸ hfile⟩
  | fork hpc hnone =>
      refine ⟨h.framed, h.tracked, h.opened, ?_⟩
      intro p hp
      obtain rfl : _ = p := Option.some.inj hp
      have hstored := stored_of_asrSample h.framed h.tracked (h.opened (by simp [hpc])) hpc
      refine ⟨hstored, Sample.sending_early ⟨rfl, rfl, rfl⟩ (by simp [Sample.start]), ?_⟩
      simp [Sample.Log.empty]
  | sample l p q hp hopens hq =>
      refine ⟨h.framed, h.tracked, h.opened, ?_⟩
      intro p' hp'
      obtain rfl : q = p' := Option.some.inj hp'
      obtain ⟨hstored, hsending, hfile⟩ := h.child p hp
      obtain ⟨hq, hlog⟩ := withHistory_eq_some.mp hq
      refine ⟨hstored, hlog ▸ Sample.sending_step hsending (Sample.change_of_step hq), ?_⟩
      rw [← hlog]
      obtain hsame | ⟨file, rfl, hnew⟩ := recording_record p.1 l p.2
      · exact hsame ▸ hfile
      · intro file' hfile'
        obtain rfl : file = file' := Option.some.inj (hnew.symm.trans hfile')
        exact hopens
  | reap p hp hpc hend =>
      refine ⟨⟨h.framed.recording, h.framed.suffix, h.framed.complete, trivial⟩, trivial,
        by simp [reaped], ?_⟩
      intro p' hp'
      obtain ⟨⟨-, hstored⟩, hsending, hfile⟩ := h.child p' hp'
      exact ⟨⟨by simp [Behind, reaped], hstored⟩, hsending, hfile⟩

theorem uploading_connect (server : Server) (recording : Bytes) :
    Uploading recording (connect server recording) where
  framed := Link.framed_connect server recording
  tracked := by simp [connect, Link.connect, Server.accepted, Server.Tracked]
  opened := by simp [connect, Link.connect, Server.accepted]
  child := by simp [connect]

instance (s : Exchange) : ∀ l, Decidable (s.KeepsRequest l)
  | .link (.server (.fopen capacity)) => inferInstanceAs (Decidable (capacity.isSome = true))
  | .link (.server (.accept _)) | .link (.server (.recv _)) | .link (.server (.asrSample _))
  | .link (.server (.readResult _)) | .link (.server .send) | .link (.server .sendError)
  | .link (.server .sigpipe) | .link (.server .close) => .isTrue trivial
  | .link (.send accepted) => inferInstanceAs (Decidable (s.link.KeepsFraming (.send accepted)))
  | .link (.recv n) => inferInstanceAs (Decidable (s.link.KeepsFraming (.recv n)))
  | .link .disconnect => inferInstanceAs (Decidable (s.link.KeepsFraming .disconnect))
  | .link .overSending | .link .recvEnd | .fork | .sample _ | .reap => .isTrue trivial

/-- In every run, when the server replies the child has ended; and if the child understood one
word, then a client that takes in the reply conclusively does what the word says. -/
theorem command_is_understood {server : Server} {recording : Bytes} {ls : List Label}
    (hrun : run (step rawtext) (connect server recording) ls = some t)
    (hpc : t.link.server.pc = .send) :
    ∃ p, t.sample = some p ∧ Ended p.1 ∧
      ∀ own ∈ p.1.outcome rawtext p.2, IsWord own.text →
        ∀ (r : Ui.Reply) (d : Ui.Delivery) (ui : Ui.Sys) (command : Bytes),
          r.text = t.link.server.needTosendString → Ui.Conclusive r d →
          ui.main = .procVoice .exchange →
            Ui.uiAfter ui (Ui.sendFileAndGetString r d command).2 =
              some ((Ui.voiceTarget own.text).getD ui.words.uiStatus) := by
  have hstart : (connect server recording).Waiting rawtext := by
    simp [Waiting, connect, Link.connect, Server.accepted]
  have hwaiting : t.Waiting rawtext := invariant (fun _ _ _ ↦ waiting_step) hstart hrun
  unfold Waiting at hwaiting
  cases hsample : t.sample with
  | none => simp [hsample, hpc] at hwaiting
  | some p =>
      rw [hsample] at hwaiting
      refine ⟨p, rfl, hwaiting.ended (by simp [hpc]), ?_⟩
      intro own hown hword r d ui command hreply hconclusive hui
      have htext : r.text = own.text := hreply.trans (hwaiting.replied hpc own hown hword)
      rw [Ui.uiAfter_eq hui, Ui.voiceTarget_of_conclusive hconclusive, htext]

def albumReply : Ui.Reply :=
  ⟨Ui.openAlbumText, List.replicate 2035 0, by decide, by rw [List.length_replicate]; rfl⟩

def wholeReply : Ui.Delivery := ⟨2048, 2048, by decide, by decide, by decide⟩

theorem album_is_understood : ∃ p, albumAsked.sample = some p ∧ Ended p.1 ∧
    Ui.uiAfter Ui.waiting
      (Ui.sendFileAndGetString albumReply wholeReply (List.replicate 2048 0)).2 = some .uiPic := by
  have hpc : albumAsked.link.server.pc = .send := by decide +kernel
  have hown : albumAsked.sample.map (fun p ↦ p.1.outcome some p.2) =
      some (some ⟨Ui.openAlbumText, by decide, by decide⟩) := by decide +kernel
  have hsent : albumAsked.link.server.needTosendString = Ui.openAlbumText := by decide +kernel
  have hword : IsWord Ui.openAlbumText := by decide +kernel
  obtain ⟨p, hp, hend, hunderstood⟩ := command_is_understood run_albumRequest hpc
  rw [hp, Option.map_some, Option.some_inj] at hown
  exact ⟨p, hp, hend, hunderstood _ hown hword albumReply wholeReply Ui.waiting _ hsent.symm
    (Or.inl (by decide)) rfl⟩

end Exchange

end EmbeddedSystem.Recognition
