import EmbeddedSystem.Recognition.AsrSample

/-!
# The audio that the engine is given

The blocks that `run_asr` writes are the recording cut into pieces, in order and marked as
the first and the following ones.  It writes the last block, which is empty, when it has
written all pieces or the engine has reported the end of speech.
-/

namespace EmbeddedSystem.Recognition

open Runs Voice Chunks

/-- Pieces of a recording as `run_asr` marks them. -/
def marked (pieces : List Bytes) : List (Bytes × AudioStatus) :=
  pieces.mapIdx fun i piece ↦ (piece, if i = 0 then .sampleFirst else .sampleContinue)

theorem marked_concat (pieces : List Bytes) (piece : Bytes) :
    marked (pieces ++ [piece]) =
      marked pieces ++ [(piece, if pieces = [] then .sampleFirst else .sampleContinue)] := by
  simp [marked, List.mapIdx_append]

namespace Sample

namespace Log

def writes (log : Log) : List (Bytes × AudioStatus) := log.calls.filterMap Event.write

def sessions (log : Log) : List ℕ := log.calls.filterMap Event.begins

/-- The pieces of the recording. -/
def pieces (log : Log) : List Bytes := Chunks.pieces 6400 (log.recording.getD [])

/-- The engine has reported the end of speech. -/
def Spoken (log : Log) : Prop :=
  ∃ session samples status, Event.audioWrite session samples status 0 .afterSpeech ∈ log.calls

/-- A block was not accepted. -/
def Failed (log : Log) : Prop :=
  ∃ session samples status errcode epStatus, errcode ≠ 0 ∧ status ≠ .sampleLast ∧
    Event.audioWrite session samples status errcode epStatus ∈ log.calls

/-- These pieces have been written, and nothing else. -/
def Sent (log : Log) (sent : List Bytes) : Prop :=
  sent <+: log.pieces ∧ log.writes = marked sent

/-- The audio has been written up to its last block. -/
def Closed (log : Log) (sent : List Bytes) : Prop :=
  sent <+: log.pieces ∧ log.writes = marked sent ++ [([], .sampleLast)] ∧
    (sent = log.pieces ∨ log.Spoken)

/-- Before a session begins. -/
def Early (log : Log) (s : Sample) : Prop :=
  log.writes = [] ∧ log.sessions = [] ∧ s.pcmCount = 0

end Log

/-- The loop has sent these pieces and has the others left. -/
structure Left (s : Sample) (log : Log) (sent : List Bytes) : Prop where
  data : s.pcmData = log.recording
  size : s.pcmCount + s.pcmSize = (log.recording.getD []).length
  started : s.pcmCount = 0 ↔ sent = []
  rest : sent ++ Chunks.pieces 6400 ((log.recording.getD []).drop s.pcmCount) = log.pieces

/-- What has been written when `main` is at each of its points. -/
def Sending (s : Sample) (log : Log) : Prop :=
  match s.pc with
  | .login | .openGrammar | .allocGrammar | .buildGrammar | .waitGrammar | .checkGrammar
  | .openPcm => log.Early s
  | .allocPcm => log.Early s ∧ s.fPcm = log.recording
  | .sessionBegin => (log.writes = [] ∧ log.sessions = []) ∧ s.Left log []
  | .audioWrite => ∃ sent, log.writes = marked sent ∧ s.Left log sent ∧ s.len ≠ 0
  | .audioLast => ∃ sent, log.Sent sent ∧ (sent = log.pieces ∨ log.Spoken)
  | .getResult | .openResult | .killed => ∃ sent, log.Closed sent
  | .sessionEnd | .logout | .exited =>
    (∃ sent, log.Closed sent) ∨ ∃ sent, log.Sent sent ∧ (log.Failed ∨ log.sessions = [])

variable {rawtext : Bytes → Option Bytes} {s t : Sample} {log : Log}

theorem len_le (s : Sample) : s.len ≤ s.pcmSize := first_le 6400 s.pcmSize

theorem len_eq_zero_iff (s : Sample) : s.len = 0 ↔ s.pcmSize = 0 := first_eq_zero_iff (by decide)

theorem Left.sent_le {sent : List Bytes} (h : s.Left log sent) : sent <+: log.pieces :=
  h.rest ▸ List.prefix_append _ _

/-- The next block is the next piece. -/
theorem Left.rest_eq {sent : List Bytes} (h : s.Left log sent) (hlen : s.len ≠ 0) :
    Chunks.pieces 6400 ((log.recording.getD []).drop s.pcmCount) =
      s.block :: Chunks.pieces 6400 ((log.recording.getD []).drop (s.pcmCount + s.len)) := by
  have hleft : ((log.recording.getD []).drop s.pcmCount).length = s.pcmSize := by
    rw [List.length_drop, ← h.size, Nat.add_sub_cancel_left]
  have hsome : ((log.recording.getD []).drop s.pcmCount).length ≠ 0 :=
    hleft ▸ (len_eq_zero_iff s).not.mp hlen
  rw [pieces_eq_cons (by decide) hsome, hleft, List.drop_drop, block, len, h.data]

theorem sending_nextAudio {sent : List Bytes} (hwrites : log.writes = marked sent)
    (h : s.Left log sent) : Sending s.nextAudio log := by
  by_cases hlen : s.len = 0
  · have hpc : s.nextAudio.pc = .audioLast := if_pos hlen
    have hall : sent = log.pieces := by
      have hcount := h.size
      rw [(len_eq_zero_iff s).mp hlen, Nat.add_zero] at hcount
      rw [← h.rest, hcount, List.drop_length, pieces_nil, List.append_nil]
    rw [Sending, hpc]
    exact ⟨sent, ⟨h.sent_le, hwrites⟩, Or.inl hall⟩
  · have hpc : s.nextAudio.pc = .audioWrite := if_neg hlen
    rw [Sending, hpc]
    exact ⟨sent, hwrites, ⟨h.data, h.size, h.started, h.rest⟩, hlen⟩

theorem sending_written {sent : List Bytes} (hwrites : log.writes = marked sent)
    (h : s.Left log sent) (hlen : s.len ≠ 0) (errcode : ℤ) (epStatus : EpStatus) :
    Sending (s.written errcode epStatus) (s.record (.audioWrite errcode epStatus) log) := by
  set log' := s.record (.audioWrite errcode epStatus) log with hlog
  have hcall : log'.calls =
      log.calls ++ [.audioWrite s.sessionId s.block s.audStat errcode epStatus] := rfl
  have hstatus : s.audStat = if sent = [] then .sampleFirst else .sampleContinue := by
    rw [audStat]
    exact if_congr h.started rfl rfl
  have hwrites' : log'.writes = marked (sent ++ [s.block]) := by
    rw [Log.writes, hcall, List.filterMap_append, marked_concat, ← hwrites, hstatus]
    rfl
  have hrest : (sent ++ [s.block]) ++
      Chunks.pieces 6400 ((log'.recording.getD []).drop (s.pcmCount + s.len)) = log'.pieces := by
    rw [List.append_assoc, List.singleton_append]
    exact (h.rest_eq hlen).symm ▸ h.rest
  have hstart : sent ++ [s.block] <+: log'.pieces := hrest ▸ List.prefix_append _ _
  by_cases herr : errcode = 0
  · have hle := len_le s
    have hleft : { s with
        pcmCount := s.pcmCount + s.len, pcmSize := s.pcmSize - s.len, errcode := errcode }.Left log'
          (sent ++ [s.block]) := by
      refine ⟨h.data, ?_, ?_, hrest⟩
      · have hsize := h.size
        show s.pcmCount + s.len + (s.pcmSize - s.len) = (log.recording.getD []).length
        omega
      · simp [hlen]
    by_cases hep : epStatus = .afterSpeech
    · have hspoken : log'.Spoken :=
        ⟨s.sessionId, s.block, s.audStat, by simp [hcall, herr, hep]⟩
      rw [written, if_neg (not_not.mpr herr), if_pos hep]
      exact ⟨_, ⟨hstart, hwrites'⟩, Or.inr hspoken⟩
    · rw [written, if_neg (not_not.mpr herr), if_neg hep]
      exact sending_nextAudio hwrites' hleft
  · have hfailed : log'.Failed := by
      refine ⟨s.sessionId, s.block, s.audStat, errcode, epStatus, herr, ?_, by simp [hcall]⟩
      rw [hstatus]
      split <;> decide
    rw [written, if_pos herr]
    exact Or.inr ⟨_, ⟨hstart, hwrites'⟩, Or.inl hfailed⟩

/-- After the last block only the results are left. -/
theorem sending_nextResult (h : ∃ sent, log.Closed sent) :
    Sending (nextResult rawtext s) log := by
  unfold nextResult
  split
  · exact h
  · split
    next => exact Or.inl h
    next =>
      split
      next => exact h
      next => exact h

theorem closed_record {sent : List Bytes} (h : log.Sent sent)
    (hend : sent = log.pieces ∨ log.Spoken) (errcode : ℤ) (epStatus : EpStatus) :
    (s.record (.audioLast errcode epStatus) log).Closed sent := by
  obtain ⟨hstart, hwrites⟩ := h
  refine ⟨hstart, ?_, hend.imp id ?_⟩
  · rw [← hwrites]
    simp [Log.writes, record, event, Event.write]
  · rintro ⟨session, samples, status, hmem⟩
    exact ⟨session, samples, status, List.mem_append_left _ hmem⟩

/-! ## The steps that send no audio -/

theorem writes_record {l : SampleLabel} (h : ∀ e ∈ s.event l, e.write = none) :
    (s.record l log).writes = log.writes := by
  cases he : s.event l with
  | none => simp [Log.writes, record, he]
  | some e => simp [Log.writes, record, he, h e he]

theorem sessions_record {l : SampleLabel} (h : ∀ e ∈ s.event l, e.begins = none) :
    (s.record l log).sessions = log.sessions := by
  cases he : s.event l with
  | none => simp [Log.sessions, record, he]
  | some e => simp [Log.sessions, record, he, h e he]

theorem Log.Spoken.record (h : log.Spoken) (s : Sample) (l : SampleLabel) :
    (s.record l log).Spoken := by
  obtain ⟨session, samples, status, hmem⟩ := h
  exact ⟨session, samples, status, List.mem_append_left _ hmem⟩

theorem Log.Failed.record (h : log.Failed) (s : Sample) (l : SampleLabel) :
    (s.record l log).Failed := by
  obtain ⟨session, samples, status, errcode, epStatus, herr, hlast, hmem⟩ := h
  exact ⟨session, samples, status, errcode, epStatus, herr, hlast, List.mem_append_left _ hmem⟩

theorem Log.Closed.record {sent : List Bytes} (h : log.Closed sent) {l : SampleLabel}
    (hrecording : (s.record l log).recording = log.recording)
    (hwrite : ∀ e ∈ s.event l, e.write = none) : (s.record l log).Closed sent := by
  have hpieces : (s.record l log).pieces = log.pieces := by rw [pieces, pieces, hrecording]
  rw [Log.Closed, hpieces, writes_record hwrite]
  exact ⟨h.1, h.2.1, h.2.2.imp id fun hspoken ↦ hspoken.record s l⟩

theorem Log.Sent.record {sent : List Bytes} (h : log.Sent sent) {l : SampleLabel}
    (hrecording : (s.record l log).recording = log.recording)
    (hwrite : ∀ e ∈ s.event l, e.write = none) : (s.record l log).Sent sent := by
  have hpieces : (s.record l log).pieces = log.pieces := by rw [pieces, pieces, hrecording]
  rw [Log.Sent, hpieces, writes_record hwrite]
  exact h

theorem Log.Early.record (h : log.Early s) {l : SampleLabel}
    (hwrite : ∀ e ∈ s.event l, e.write = none) (hbegins : ∀ e ∈ s.event l, e.begins = none)
    (hcount : t.pcmCount = s.pcmCount) : (s.record l log).Early t := by
  rw [Log.Early, writes_record hwrite, sessions_record hbegins, hcount]
  exact h

theorem sending_early (h : log.Early s)
    (hpc : s.pc ∈ [.login, .openGrammar, .allocGrammar, .buildGrammar, .waitGrammar,
      .checkGrammar, .openPcm, .sessionEnd, .logout, .exited]) : Sending s log := by
  have hended : (∃ sent, log.Closed sent) ∨
      ∃ sent, log.Sent sent ∧ (log.Failed ∨ log.sessions = []) :=
    Or.inr ⟨[], ⟨List.nil_prefix, h.1⟩, Or.inr h.2.1⟩
  simp only [List.mem_cons, List.not_mem_nil, or_false] at hpc
  obtain hpc | hpc | hpc | hpc | hpc | hpc | hpc | hpc | hpc | hpc := hpc <;> rw [Sending, hpc]
  all_goals first | exact h | exact hended

/-- When only the end of the session and the logout are left. -/
theorem sending_ended {l : SampleLabel} (h : (∃ sent, log.Closed sent) ∨
      ∃ sent, log.Sent sent ∧ (log.Failed ∨ log.sessions = []))
    (hpc : t.pc = .logout ∨ t.pc = .exited)
    (hrecording : (s.record l log).recording = log.recording)
    (hwrite : ∀ e ∈ s.event l, e.write = none) (hbegins : ∀ e ∈ s.event l, e.begins = none) :
    Sending t (s.record l log) := by
  have hended : (∃ sent, (s.record l log).Closed sent) ∨ ∃ sent, (s.record l log).Sent sent ∧
      ((s.record l log).Failed ∨ (s.record l log).sessions = []) := by
    rw [sessions_record hbegins]
    refine h.imp ?_ ?_
    · rintro ⟨sent, hclosed⟩
      exact ⟨sent, hclosed.record hrecording hwrite⟩
    · rintro ⟨sent, hsent, hwhy⟩
      exact ⟨sent, hsent.record hrecording hwrite, hwhy.imp (fun hf ↦ hf.record s l) id⟩
  obtain hpc | hpc := hpc <;> rw [Sending, hpc] <;> exact hended

/-- No step of the engine's thread matters here. -/
theorem sending_thread (h : Sending s log) (callback : Callback) (asrData : UserData) :
    Sending { s with callback := callback, asrData := asrData } log := by
  cases hpc : s.pc <;> simp only [Sending, hpc] at h ⊢
  case sessionBegin => exact ⟨h.1, h.2.data, h.2.size, h.2.started, h.2.rest⟩
  case audioWrite =>
    obtain ⟨sent, hwrites, hs, hlen⟩ := h
    exact ⟨sent, hwrites, ⟨hs.data, hs.size, hs.started, hs.rest⟩, hlen⟩
  all_goals exact h

theorem sending_step {l : SampleLabel} (h : Sending s log) (hchange : Change rawtext s t l) :
    Sending t (s.record l log) := by
  cases hchange with
  | login ret hpc ht =>
      rw [Sending, hpc] at h
      subst ht
      refine sending_early (Log.Early.record h (by simp [event, Event.write])
        (by simp [event, Event.begins]) rfl) ?_
      simp only [loggedIn]
      split <;> decide
  | prepare l pc grmFile grmContent hlog hpc hnext ht =>
      have hearly : log.Early s := by
        simp only [List.mem_cons, List.not_mem_nil, or_false] at hpc
        obtain hpc | hpc | hpc | hpc := hpc <;> rw [Sending, hpc] at h <;> exact h
      subst ht
      rw [hlog]
      refine sending_early (s := { s with pc := pc, grmFile := grmFile, grmContent := grmContent })
        hearly ?_
      simp only [List.mem_cons, List.not_mem_nil, or_false] at hnext ⊢
      tauto
  | buildGrammar ret hpc ht =>
      rw [Sending, hpc] at h
      subst ht
      refine sending_early (Log.Early.record h (by simp [event, Event.write])
        (by simp [event, Event.begins]) rfl) ?_
      simp only [grammarAsked]
      split <;> decide
  | thread l callback asrData hlog hasked ht =>
      subst ht
      rw [hlog]
      exact sending_thread h callback asrData
  | openPcm file hpc ht =>
      rw [Sending, hpc] at h
      subst ht
      have hearly : (s.record (.openPcm file) log).Early (s.pcmOpened file) :=
        Log.Early.record h (by simp [event]) (by simp [event]) rfl
      cases file with
      | none => exact sending_early hearly (by simp [pcmOpened])
      | some file => exact ⟨hearly, rfl⟩
  | allocPcm ok hlog hpc ht =>
      rw [Sending, hpc] at h
      subst ht
      obtain ⟨hearly, hfile⟩ := h
      cases ok with
      | false =>
          exact sending_early (Log.Early.record hearly (by simp [event]) (by simp [event]) rfl)
            (by simp [pcmRead])
      | true =>
          rw [hlog]
          refine ⟨⟨hearly.1, hearly.2.1⟩, hfile, ?_, ?_, ?_⟩
          · simp [pcmRead, hearly.2.2, hfile]
          · simp [pcmRead, hearly.2.2]
          · simp [pcmRead, hearly.2.2, Log.pieces]
  | sessionBegin session errcode hpc ht =>
      rw [Sending, hpc] at h
      subst ht
      obtain ⟨⟨hwrites, hsessions⟩, hleft⟩ := h
      have hwrites' : (s.record (.sessionBegin session errcode) log).writes = marked [] := by
        rw [writes_record (by simp [event, Event.write]), hwrites]
        rfl
      cases session with
      | none =>
          refine Or.inr ⟨[], ⟨List.nil_prefix, hwrites'⟩, Or.inr ?_⟩
          rw [sessions_record (by simp [event, Event.begins]), hsessions]
      | some id =>
          exact sending_nextAudio hwrites' ⟨hleft.data, hleft.size, hleft.started, hleft.rest⟩
  | audioWrite errcode epStatus hpc ht =>
      rw [Sending, hpc] at h
      subst ht
      obtain ⟨sent, hwrites, hleft, hlen⟩ := h
      exact sending_written hwrites hleft hlen errcode epStatus
  | audioLast errcode epStatus hpc ht =>
      rw [Sending, hpc] at h
      subst ht
      obtain ⟨sent, hsent, hend⟩ := h
      exact sending_nextResult ⟨sent, closed_record hsent hend errcode epStatus⟩
  | getResult result rssStatus errcode hpc ht =>
      rw [Sending, hpc] at h
      subst ht
      obtain ⟨sent, hclosed⟩ := h
      exact sending_nextResult ⟨sent, hclosed.record rfl (by simp [event, Event.write])⟩
  | openResult ok hlog hpc ht =>
      rw [Sending, hpc] at h
      subst ht
      rw [hlog]
      cases ok with
      | false => exact h
      | true => exact Or.inl h
  | sessionEnd hpc ht =>
      rw [Sending, hpc] at h
      subst ht
      exact sending_ended h (Or.inl rfl) rfl (by simp [event, Event.write])
        (by simp [event, Event.begins])
  | logout hpc ht =>
      rw [Sending, hpc] at h
      subst ht
      exact sending_ended h (Or.inr rfl) rfl (by simp [event, Event.write])
        (by simp [event, Event.begins])

theorem sending_of_run {r : Option Recognised} {ls : List SampleLabel}
    (hrun : run (logged rawtext) (start r, Log.empty) ls = some (t, log)) : Sending t log := by
  have hstart : Sending (start r) Log.empty := sending_early ⟨rfl, rfl, rfl⟩ (by simp [start])
  have hstep : ∀ (p : Sample × Log) (l : SampleLabel) (q : Sample × Log), Sending p.1 p.2 →
      logged rawtext p l = some q → Sending q.1 q.2 := by
    intro p l q hp hq
    obtain ⟨hq, hlog⟩ := withHistory_eq_some.mp hq
    exact hlog ▸ sending_step hp (change_of_step hq)
  have hinv : Sending (t, log).1 (t, log).2 := invariant hstep hstart hrun
  exact hinv

theorem sent_or_closed (h : Sending s log) : ∃ sent, log.Sent sent ∨ log.Closed sent := by
  have hearly : log.writes = [] → ∃ sent, log.Sent sent ∨ log.Closed sent :=
    fun hwrites ↦ ⟨[], Or.inl ⟨List.nil_prefix, hwrites⟩⟩
  have hended : ((∃ sent, log.Closed sent) ∨
      ∃ sent, log.Sent sent ∧ (log.Failed ∨ log.sessions = [])) →
        ∃ sent, log.Sent sent ∨ log.Closed sent := by
    rintro (⟨sent, hclosed⟩ | ⟨sent, hsent, -⟩)
    · exact ⟨sent, Or.inr hclosed⟩
    · exact ⟨sent, Or.inl hsent⟩
  cases hpc : s.pc <;> simp only [Sending, hpc] at h
  case allocPcm => exact hearly h.1.1
  case sessionBegin => exact hearly h.1.1
  case audioWrite =>
    obtain ⟨sent, hwrites, hleft, -⟩ := h
    exact ⟨sent, Or.inl ⟨hleft.sent_le, hwrites⟩⟩
  case audioLast =>
    obtain ⟨sent, hsent, -⟩ := h
    exact ⟨sent, Or.inl hsent⟩
  case sessionEnd | logout | exited => exact hended h
  case getResult | openResult | killed =>
    obtain ⟨sent, hclosed⟩ := h
    exact ⟨sent, Or.inr hclosed⟩
  all_goals exact hearly h.1

theorem map_fst_marked (pieces : List Bytes) : (marked pieces).map Prod.fst = pieces := by
  apply List.ext_getElem <;> simp [marked]

theorem audio_of_sending (h : Sending s log) :
    (∃ sent, log.Sent sent ∨ log.Closed sent) ∧
      (log.writes.map Prod.fst).flatten <+: log.recording.getD [] ∧
      (∀ w ∈ log.writes, w.1.length < 12800) ∧
      (s.pc = .exited →
        (log.writes.map Prod.fst).flatten = log.recording.getD [] ∧
            log.writes.getLast? = some ([], .sampleLast) ∨
          log.Spoken ∨ log.Failed ∨ log.sessions = []) := by
  obtain ⟨sent, hsent⟩ := sent_or_closed h
  have hflat : (log.writes.map Prod.fst).flatten = sent.flatten := by
    obtain ⟨-, hwrites⟩ | ⟨-, hwrites, -⟩ := hsent <;> simp [hwrites, map_fst_marked]
  have hstart : sent <+: log.pieces := hsent.elim And.left And.left
  have hall : log.pieces.flatten = log.recording.getD [] := flatten_pieces (by decide) _
  refine ⟨⟨sent, hsent⟩, ?_, ?_, ?_⟩
  · rw [hflat, ← hall]
    obtain ⟨rest, hrest⟩ := hstart
    rw [← hrest, List.flatten_append]
    exact List.prefix_append _ _
  · have hshort : ∀ piece ∈ sent, piece.length < 12800 := fun piece hpiece ↦
      (length_of_mem_pieces (by decide) (hstart.subset hpiece)).2.1
    have hmarked : ∀ w ∈ marked sent, w.1.length < 12800 := fun w hw ↦
      hshort w.1 (map_fst_marked sent ▸ List.mem_map_of_mem hw)
    intro w hw
    obtain ⟨-, hwrites⟩ | ⟨-, hwrites, -⟩ := hsent
    · exact hmarked w (hwrites ▸ hw)
    · rw [hwrites, List.mem_append, List.mem_singleton] at hw
      rcases hw with hw | rfl
      · exact hmarked w hw
      · decide
  · intro hpc
    rw [Sending, hpc] at h
    obtain ⟨sent', -, hwrites, hsent' | hspoken⟩ | ⟨-, -, hwhy⟩ := h
    · refine Or.inl ⟨?_, ?_⟩
      · simp [hwrites, map_fst_marked, hsent', hall]
      · simp [hwrites]
    · exact Or.inr (Or.inl hspoken)
    · exact Or.inr (Or.inr hwhy)

/-- Whatever the engine answers and whenever it calls back, the blocks written are the first
pieces of the recording, marked as they should be, and the last block follows them when these
are all the pieces or the end of speech was reported.  So the audio is a beginning of the
recording, and all of it, if the run has ended without the last block being missed. -/
theorem audio_is_recording {r : Option Recognised} {ls : List SampleLabel}
    (hrun : run (logged rawtext) (start r, Log.empty) ls = some (t, log)) :
    (∃ sent, log.Sent sent ∨ log.Closed sent) ∧
      (log.writes.map Prod.fst).flatten <+: log.recording.getD [] ∧
      (∀ w ∈ log.writes, w.1.length < 12800) ∧
      (t.pc = .exited →
        (log.writes.map Prod.fst).flatten = log.recording.getD [] ∧
            log.writes.getLast? = some ([], .sampleLast) ∨
          log.Spoken ∨ log.Failed ∨ log.sessions = []) :=
  audio_of_sending (sending_of_run hrun)

theorem audio_of_heard : (heardRun.2.writes.map Prod.fst).flatten <+: [7, 8, 9] := by
  have hrecording : heardRun.2.recording.getD [] = [7, 8, 9] := by decide +kernel
  exact hrecording ▸ (audio_is_recording run_heard).2.1

end Sample

end EmbeddedSystem.Recognition
