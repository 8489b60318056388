import EmbeddedSystem.Foundation.Runs
import EmbeddedSystem.Recognition.Recorder

/-!
# The recorder holds what it uses

The recorder's own order of opening and closing is safe whatever the device answers and however
the two threads interleave; what is left to its callers is when to ask it and when to free it.
-/

namespace EmbeddedSystem.Recognition

open Runs Voice

namespace Recorder

/-! ## What is held -/

/-- The device, the buffer and the thread of a recorder that is open; what is left of the
buffer is what is left of the count. -/
structure Running (s : Recorder) : Prop where
  device : s.waveinHdl
  buffer : ∃ buf, s.audiobuf = some buf ∧ buf.length = s.periodBytes
  mono : s.nChannels = 1 ∧ 8 ∣ s.bitsPerFrame
  thread : s.thread.isSome
  place : ∀ count offset, s.thread = some (.reading count offset) →
    count ≤ s.periodFrames ∧ offset = (s.periodFrames - count) * (s.bitsPerFrame / 8)

/-- Nothing, or nothing but the device. -/
structure Closed (s : Recorder) (device : Bool) : Prop where
  device : s.waveinHdl = device
  buffer : s.audiobuf = none
  thread : s.thread = none

/-- What the caller holds at each point. -/
def HeldAt (s : Recorder) : RecorderPc → Prop
  | .outside =>
    RecordState.ready.toNat ≤ s.state.toNat ∧ s.Running ∨ s.state = .created ∧ s.Closed false
  | .pcmOpen fmt => fmt.nChannels = 1 ∧ 8 ∣ fmt.wBitsPerSample ∧ s.state = .created ∧ s.Closed false
  | .setParams fmt =>
    fmt.nChannels = 1 ∧ 8 ∣ fmt.wBitsPerSample ∧ s.state = .created ∧ s.Closed true
  | .prepareBuffer =>
    s.nChannels = 1 ∧ 8 ∣ s.bitsPerFrame ∧ s.state = .created ∧ s.Closed true
  | .createThread =>
    s.nChannels = 1 ∧ 8 ∣ s.bitsPerFrame ∧ s.state = .created ∧ s.waveinHdl ∧
      (∃ buf, s.audiobuf = some buf ∧ buf.length = s.periodBytes) ∧ s.thread = none
  | .setReady => s.Running
  | .pcmStart => RecordState.ready.toNat ≤ s.state.toNat ∧ s.Running
  | .setStopping _ => RecordState.ready.toNat ≤ s.state.toNat ∧ s.Running
  | .pcmDrop _ => RecordState.ready.toNat ≤ s.state.toNat ∧ s.Running
  | .setClosing => RecordState.ready.toNat ≤ s.state.toNat ∧ s.Running
  | .cancel => s.Running
  | .join => s.Running
  | .pcmClose => s.thread = none
  | .destroyed => s.Closed false

def Held (s : Recorder) : Prop := s.HeldAt s.main

theorem Held.at {s : Recorder} (h : s.Held) {pc : RecorderPc} (hmain : s.main = pc) :
    s.HeldAt pc :=
  hmain ▸ h

structure Safe (s : Recorder) : Prop where
  sound : s.faulted = false
  held : s.Held

/-- The calls of `speech_recognizer.c` open a device of one channel and whole bytes. -/
def Mono : RecorderLabel → Prop
  | .openRecorder fmt => fmt.nChannels = 1 ∧ 8 ∣ fmt.wBitsPerSample
  | _ => True

/-- A recorder is asked whether it has stopped while it is open, and destroyed after that. -/
def Careful (s : Recorder) : RecorderLabel → Prop
  | .isRecordStopped => RecordState.ready.toNat ≤ s.state.toNat
  | .destroyRecorder => s.state.toNat < RecordState.ready.toNat
  | _ => True

instance : DecidablePred Mono
  | .openRecorder fmt => inferInstanceAs (Decidable (fmt.nChannels = 1 ∧ 8 ∣ fmt.wBitsPerSample))
  | .startRecord | .stopRecord | .closeRecorder | .isRecordStopped | .destroyRecorder
  | .pcmOpen _ | .setParams _ | .malloc _ | .pthreadCreate _ | .setReady | .pcmStart _
  | .setStopping | .pcmDrop _ | .setClosing | .cancel | .join | .pcmClose | .go | .readi _
  | .callbackStops | .callbackDrops _ | .callbackReturns | .cancelled => .isTrue trivial

/-! ## The thread's steps -/

section Thread

variable {s t : Recorder} {pc : RecordPc} {l : RecorderLabel}

theorem periodBytes_eq (h : 8 ∣ s.bitsPerFrame) :
    s.periodBytes = s.periodFrames * (s.bitsPerFrame / 8) :=
  Nat.mul_div_assoc _ h

theorem running_of_resting (h : s.Running) {pc' : RecordPc}
    (hrest : ∀ count offset, pc' ≠ .reading count offset) :
    Running { s with thread := some pc' } :=
  ⟨h.device, h.buffer, h.mono, rfl, fun count offset heq ↦
    absurd (Option.some.inj heq) (hrest count offset)⟩

/-- A read stays in the buffer. -/
theorem store_of_running (h : s.Running) {count offset r : ℕ} {buf bytes : Bytes}
    (hthread : s.thread = some (.reading count offset)) (hbuf : s.audiobuf = some buf)
    (hr : r ≤ count) (hbytes : bytes.length = r * s.frameBytes) :
    offset + bytes.length ≤ buf.length ∧
      offset + r * s.bitsPerFrame / 8 = (s.periodFrames - (count - r)) * (s.bitsPerFrame / 8) ∧
      bytes.length = r * (s.bitsPerFrame / 8) := by
  obtain ⟨buf', hbuf', hlength⟩ := h.buffer
  obtain rfl : buf = buf' := Option.some.inj (hbuf.symm.trans hbuf')
  obtain ⟨hone, hdvd⟩ := h.mono
  obtain ⟨hcount, hoffset⟩ := h.place count offset hthread
  have hframe : s.frameBytes = s.bitsPerFrame / 8 := by rw [frameBytes, hone, Nat.one_mul]
  have hmoved : offset + r * (s.bitsPerFrame / 8) =
      (s.periodFrames - (count - r)) * (s.bitsPerFrame / 8) := by
    rw [hoffset, ← Nat.add_mul]
    congr 1
    omega
  rw [hframe] at hbytes
  refine ⟨?_, by rw [Nat.mul_div_assoc _ hdvd]; exact hmoved, hbytes⟩
  rw [hbytes, hlength, periodBytes_eq hdvd, hmoved]
  exact Nat.mul_le_mul_right _ (Nat.sub_le _ _)

theorem running_beginRead (h : s.Running) : Running { s with thread := some s.beginRead } := by
  unfold beginRead
  rw [if_pos h.device]
  split
  · exact running_of_resting h fun _ _ ↦ nofun
  · refine ⟨h.device, h.buffer, h.mono, rfl, fun count offset heq ↦ ?_⟩
    cases heq
    simp

theorem length_store {buf buf' bytes : Bytes} {offset : ℕ}
    (h : store buf offset bytes = some buf') : buf'.length = buf.length := by
  obtain ⟨hle, heq⟩ := Option.ite_none_right_eq_some.mp h
  rw [← Option.some.inj heq]
  simp
  omega

/-- A step of the thread leaves the caller where it is; it may end a recording, no more. -/
structure Spared (s t : Recorder) : Prop where
  main : t.main = s.main
  faulted : t.faulted = s.faulted
  ready : RecordState.ready.toNat ≤ s.state.toNat → RecordState.ready.toNat ≤ t.state.toNat

theorem go_running (h : s.Running) (ht : s.go pc = some t) : t.Running ∧ Spared s t := by
  cases pc with
  | top =>
      refine Option.some.inj ht ▸ ⟨?_, rfl, rfl, id⟩
      split <;> exact running_of_resting h fun _ _ ↦ nofun
  | notClosing =>
      refine Option.some.inj ht ▸ ⟨?_, rfl, rfl, id⟩
      split
      · exact running_of_resting h fun _ _ ↦ nofun
      · exact running_beginRead h
  | sleeping => exact Option.some.inj ht ▸ ⟨running_beginRead h, rfl, rfl, id⟩
  | stopping =>
      cases Option.some.inj ht
      exact ⟨⟨h.device, h.buffer, h.mono, rfl, fun _ _ ↦ nofun⟩, rfl, rfl,
        fun _ ↦ RecordState.ready_le_stopping⟩
  | _ => cases ht

/-- A read of the device, where it is asked for what is left of the buffer. -/
theorem running_readOnce (h : s.Running) {count offset : ℕ} {a : ReadAnswer}
    (hthread : s.thread = some (.reading count offset))
    (ht : s.readOnce count offset a = some t) :
    ∃ buf pc', t = { s with audiobuf := buf, thread := some pc' } ∧ t.Running := by
  cases a with
  | frames r bytes =>
      obtain ⟨⟨hr, hbytes⟩, ht⟩ := Option.ite_none_right_eq_some.mp ht
      obtain ⟨buf, hbuf, hlength⟩ := h.buffer
      obtain ⟨hfits, hmoved, -⟩ := store_of_running h hthread hbuf hr hbytes
      have hcount := (h.place count offset hthread).1
      obtain ⟨buf', hstore⟩ : ∃ buf', store buf offset bytes = some buf' := ⟨_, if_pos hfits⟩
      simp only [hbuf, Option.bind_some, hstore] at ht
      refine ⟨_, _, (Option.some.inj ht).symm, Option.some.inj ht ▸ ?_⟩
      refine ⟨h.device, ⟨buf', rfl, (length_store hstore).trans hlength⟩, h.mono, rfl,
        fun count' offset' heq ↦ ?_⟩
      simp only [Option.some.injEq] at heq
      split at heq
      · cases heq
      · cases heq
        exact ⟨(Nat.sub_le _ _).trans hcount, hmoved⟩
  | error e resume prepare =>
      refine ⟨_, _, (Option.some.inj ht).symm, Option.some.inj ht ▸ ?_⟩
      split
      · exact ⟨h.device, h.buffer, h.mono, rfl, fun count' offset' heq ↦
          h.place count' offset' (hthread.trans heq)⟩
      · exact running_of_resting h fun _ _ ↦ nofun

theorem threadStep_running (h : s.Running) (hthread : s.thread = some pc)
    (ht : s.threadStep pc l = some t) : t.Running ∧ Spared s t := by
  cases l with
  | go => exact go_running h ht
  | readi a =>
      cases pc with
      | reading count offset =>
          simp only [threadStep, if_pos h.device] at ht
          obtain ⟨buf, pc', rfl, hrunning⟩ := running_readOnce h hthread ht
          exact ⟨hrunning, rfl, rfl, id⟩
      | _ => cases ht
  | callbackStops =>
      obtain ⟨-, ht⟩ := Option.ite_none_right_eq_some.mp ht
      split at ht
      · exact Option.some.inj ht ▸ ⟨h, rfl, rfl, id⟩
      · cases ht
        exact ⟨running_of_resting h fun _ _ ↦ nofun, rfl, rfl, id⟩
  | callbackDrops ret =>
      obtain ⟨-, ht⟩ := Option.ite_none_right_eq_some.mp ht
      rw [if_pos h.device] at ht
      cases ht
      refine ⟨⟨h.device, h.buffer, h.mono, rfl, fun _ _ ↦ nofun⟩, rfl, rfl, fun hready ↦ ?_⟩
      split
      · exact le_refl _
      · exact hready
  | callbackReturns =>
      obtain ⟨-, ht⟩ := Option.ite_none_right_eq_some.mp ht
      cases ht
      exact ⟨running_of_resting h fun _ _ ↦ nofun, rfl, rfl, id⟩
  | cancelled =>
      obtain ⟨-, ht⟩ := Option.ite_none_right_eq_some.mp ht
      cases ht
      exact ⟨running_of_resting h fun _ _ ↦ nofun, rfl, rfl, id⟩
  | _ => cases ht

end Thread

/-! ## The caller's steps -/

section Main

variable {s t : Recorder} {l : RecorderLabel}

theorem Closed.moved {device : Bool} (h : s.Closed device) (pc : RecorderPc) :
    Closed { s with main := pc } device :=
  ⟨h.device, h.buffer, h.thread⟩

theorem Running.moved (h : s.Running) (pc : RecorderPc) (cancelled : Bool) (state : RecordState) :
    Running { s with main := pc, cancelled := cancelled, state := state } :=
  ⟨h.device, h.buffer, h.mono, h.thread, h.place⟩

theorem Running.not_closed (h : s.Running) {device : Bool} : ¬ s.Closed device :=
  fun hclosed ↦ by simpa [hclosed.thread] using h.thread

theorem held_failed (hstate : s.state = .created) (hthread : s.thread = none) : s.failed.Held :=
  .inr ⟨hstate, rfl, rfl, hthread⟩

theorem running_of_ready (h : s.Held) (hmain : s.main = .outside)
    (hready : RecordState.ready.toNat ≤ s.state.toNat) : s.Running := by
  rcases h.at hmain with ⟨-, h⟩ | ⟨hstate, -⟩
  · exact h
  · rw [hstate] at hready
    exact absurd hready (by decide)

theorem closed_of_not_ready (h : s.Held) (hmain : s.main = .outside)
    (hready : ¬ RecordState.ready.toNat ≤ s.state.toNat) : s.state = .created ∧ s.Closed false := by
  exact (h.at hmain).resolve_left fun h ↦ hready h.1

theorem safe_openRecorder (h : s.Safe) (hmain : s.main = .outside) {fmt : WaveFormat}
    (hmono : Mono (.openRecorder fmt)) : (s.openRecorder fmt).Safe := by
  unfold openRecorder
  split
  next => exact h
  next hready =>
    obtain ⟨hstate, hclosed⟩ := closed_of_not_ready h.held hmain hready
    exact ⟨h.sound, hmono.1, hmono.2, hstate, hclosed.moved _⟩

theorem safe_startRecord (h : s.Safe) (hmain : s.main = .outside) : s.startRecord.Safe := by
  unfold startRecord
  split
  next => exact h
  next hready =>
    rw [not_lt] at hready
    have hrunning := running_of_ready h.held hmain hready
    split
    · exact h
    · exact ⟨h.sound, hready, hrunning.moved _ s.cancelled s.state⟩

theorem safe_stopRecord (h : s.Safe) (hmain : s.main = .outside) : s.stopRecord.Safe := by
  unfold stopRecord
  split
  next => exact h
  next hrecording =>
    have hready := RecordState.ready_le_recording.trans (not_lt.mp hrecording)
    have hrunning := running_of_ready h.held hmain hready
    exact ⟨h.sound, hready, hrunning.moved _ s.cancelled s.state⟩

theorem safe_closeRecorder (h : s.Safe) (hmain : s.main = .outside) : s.closeRecorder.Safe := by
  unfold closeRecorder
  split
  next => exact h
  next hready =>
    rw [not_lt] at hready
    have hrunning := running_of_ready h.held hmain hready
    split <;> exact ⟨h.sound, hready, hrunning.moved _ s.cancelled s.state⟩

theorem safe_isRecordStopped (h : s.Safe) (hmain : s.main = .outside)
    (hready : RecordState.ready.toNat ≤ s.state.toNat) : s.isRecordStopped.Safe := by
  rw [isRecordStopped, if_pos (.inr (running_of_ready h.held hmain hready).device)]
  exact h

theorem safe_destroyRecorder (h : s.Safe) (hmain : s.main = .outside)
    (hready : s.state.toNat < RecordState.ready.toNat) : s.destroyRecorder.Safe := by
  obtain ⟨-, hclosed⟩ := closed_of_not_ready h.held hmain (not_le.mpr hready)
  have hnone : ¬ s.thread.isSome := by simp [hclosed.thread]
  rw [destroyRecorder, if_neg hnone]
  exact ⟨h.sound, hclosed.moved _⟩

theorem safe_pcmOpened (h : s.Safe) {fmt : WaveFormat} (hmain : s.main = .pcmOpen fmt) (ret : ℤ) :
    (s.pcmOpened fmt ret).Safe := by
  obtain ⟨hone, hdvd, hstate, hclosed⟩ := h.held.at hmain
  unfold pcmOpened
  split
  · exact ⟨h.sound, held_failed hstate hclosed.thread⟩
  · exact ⟨h.sound, hone, hdvd, hstate, rfl, hclosed.buffer, hclosed.thread⟩

theorem safe_paramsSet (h : s.Safe) {fmt : WaveFormat} (hmain : s.main = .setParams fmt)
    (frames : Option ℕ) : (s.onDevice (s.paramsSet fmt frames)).Safe := by
  obtain ⟨hone, hdvd, hstate, hclosed⟩ := h.held.at hmain
  rw [onDevice, if_pos hclosed.device]
  cases frames with
  | none => exact ⟨h.sound, held_failed hstate hclosed.thread⟩
  | some n => exact ⟨h.sound, hone, hdvd, hstate, hclosed.device, hclosed.buffer, hclosed.thread⟩

theorem safe_bufferPrepared (h : s.Safe) (hmain : s.main = .prepareBuffer) {block : Option Bytes}
    (hlength : ∀ b ∈ block, b.length = s.periodBytes) : (s.bufferPrepared block).Safe := by
  obtain ⟨hone, hdvd, hstate, hclosed⟩ := h.held.at hmain
  cases block with
  | none => exact ⟨h.sound, held_failed hstate hclosed.thread⟩
  | some block =>
      have hbuffer := hlength block rfl
      exact ⟨h.sound, hone, hdvd, hstate, hclosed.device, ⟨block, rfl, hbuffer⟩, hclosed.thread⟩

theorem safe_threadCreated (h : s.Safe) (hmain : s.main = .createThread) (ret : ℤ) :
    (s.threadCreated ret).Safe := by
  obtain ⟨hone, hdvd, hstate, hdevice, hbuffer, hthread⟩ := h.held.at hmain
  unfold threadCreated
  split
  · exact ⟨h.sound, hdevice, hbuffer, ⟨hone, hdvd⟩, rfl, fun _ _ ↦ nofun⟩
  · exact ⟨h.sound, held_failed hstate hthread⟩

theorem safe_pcmStarted (h : s.Safe) (hmain : s.main = .pcmStart) (ret : ℤ) :
    (s.onDevice (s.pcmStarted ret)).Safe := by
  obtain ⟨hready, hrunning⟩ := h.held.at hmain
  rw [onDevice, if_pos hrunning.device]
  unfold pcmStarted
  split
  · exact ⟨h.sound, .inl ⟨RecordState.ready_le_recording, hrunning.moved _ s.cancelled _⟩⟩
  · exact ⟨h.sound, .inl ⟨hready, hrunning.moved _ s.cancelled s.state⟩⟩

theorem safe_pcmDropped (h : s.Safe) {closes : Bool} (hmain : s.main = .pcmDrop closes) (ret : ℤ) :
    (s.onDevice (s.pcmDropped closes ret)).Safe := by
  obtain ⟨hready, hrunning⟩ := h.held.at hmain
  rw [onDevice, if_pos hrunning.device]
  have hready' : RecordState.ready.toNat ≤
      (if ret = 0 then RecordState.ready else s.state).toNat := by
    split
    · exact le_refl _
    · exact hready
  cases closes with
  | false => exact ⟨h.sound, .inl ⟨hready', hrunning.moved _ s.cancelled _⟩⟩
  | true => exact ⟨h.sound, hready', hrunning.moved _ s.cancelled _⟩

theorem safe_threadCancelled (h : s.Safe) (hmain : s.main = .cancel) : s.threadCancelled.Safe := by
  have hrunning : s.Running := h.held.at hmain
  rw [threadCancelled, if_pos hrunning.thread]
  exact ⟨h.sound, hrunning.moved _ _ s.state⟩

theorem mainStep_safe (h : s.Safe) (hmono : Mono l) (hcareful : s.Careful l)
    (ht : s.mainStep l = some t) : t.Safe := by
  cases l with
  | openRecorder fmt =>
      obtain ⟨hmain, heq⟩ := Option.ite_none_right_eq_some.mp ht
      exact Option.some.inj heq ▸ safe_openRecorder h hmain hmono
  | startRecord =>
      obtain ⟨hmain, heq⟩ := Option.ite_none_right_eq_some.mp ht
      exact Option.some.inj heq ▸ safe_startRecord h hmain
  | stopRecord =>
      obtain ⟨hmain, heq⟩ := Option.ite_none_right_eq_some.mp ht
      exact Option.some.inj heq ▸ safe_stopRecord h hmain
  | closeRecorder =>
      obtain ⟨hmain, heq⟩ := Option.ite_none_right_eq_some.mp ht
      exact Option.some.inj heq ▸ safe_closeRecorder h hmain
  | isRecordStopped =>
      obtain ⟨hmain, heq⟩ := Option.ite_none_right_eq_some.mp ht
      exact Option.some.inj heq ▸ safe_isRecordStopped h hmain hcareful
  | destroyRecorder =>
      obtain ⟨hmain, heq⟩ := Option.ite_none_right_eq_some.mp ht
      exact Option.some.inj heq ▸ safe_destroyRecorder h hmain hcareful
  | pcmOpen ret =>
      simp only [mainStep] at ht
      split at ht
      next fmt hmain =>
        exact Option.some.inj ht ▸ safe_pcmOpened h hmain ret
      next => cases ht
  | setParams frames =>
      simp only [mainStep] at ht
      split at ht
      next fmt hmain =>
        exact Option.some.inj ht ▸ safe_paramsSet h hmain frames
      next => cases ht
  | malloc block =>
      obtain ⟨⟨hmain, hlength⟩, heq⟩ := Option.ite_none_right_eq_some.mp ht
      exact Option.some.inj heq ▸ safe_bufferPrepared h hmain hlength
  | pthreadCreate ret =>
      obtain ⟨hmain, heq⟩ := Option.ite_none_right_eq_some.mp ht
      exact Option.some.inj heq ▸ safe_threadCreated h hmain ret
  | setReady =>
      obtain ⟨hmain, heq⟩ := Option.ite_none_right_eq_some.mp ht
      have hrunning : s.Running := h.held.at hmain
      exact Option.some.inj heq ▸ ⟨h.sound, .inl ⟨le_refl _, hrunning.moved _ s.cancelled _⟩⟩
  | pcmStart ret =>
      obtain ⟨hmain, heq⟩ := Option.ite_none_right_eq_some.mp ht
      exact Option.some.inj heq ▸ safe_pcmStarted h hmain ret
  | setStopping =>
      simp only [mainStep] at ht
      split at ht
      next closes hmain =>
        obtain ⟨-, hrunning⟩ := h.held.at hmain
        exact Option.some.inj ht ▸
          ⟨h.sound, RecordState.ready_le_stopping, hrunning.moved _ s.cancelled _⟩
      next => cases ht
  | pcmDrop ret =>
      simp only [mainStep] at ht
      split at ht
      next closes hmain =>
        exact Option.some.inj ht ▸ safe_pcmDropped h hmain ret
      next => cases ht
  | setClosing =>
      obtain ⟨hmain, heq⟩ := Option.ite_none_right_eq_some.mp ht
      obtain ⟨-, hrunning⟩ := h.held.at hmain
      exact Option.some.inj heq ▸ ⟨h.sound, hrunning.moved _ s.cancelled _⟩
  | cancel =>
      obtain ⟨hmain, heq⟩ := Option.ite_none_right_eq_some.mp ht
      exact Option.some.inj heq ▸ safe_threadCancelled h hmain
  | join =>
      obtain ⟨⟨hmain, -⟩, heq⟩ := Option.ite_none_right_eq_some.mp ht
      exact Option.some.inj heq ▸ ⟨h.sound, rfl⟩
  | pcmClose =>
      obtain ⟨hmain, heq⟩ := Option.ite_none_right_eq_some.mp ht
      have hjoined : s.thread = none := h.held.at hmain
      exact Option.some.inj heq ▸ ⟨h.sound, .inr ⟨rfl, rfl, rfl, hjoined⟩⟩
  | _ => cases ht

end Main

/-! ## Runs -/

section Runs

variable {s t : Recorder} {l : RecorderLabel} {ls : List RecorderLabel}

/-- A step is one of the thread or, where the thread has none, one of the caller. -/
theorem step_cases (h : s.step l = some t) :
    s.faulted = false ∧
      ((∃ pc, s.thread = some pc ∧ s.threadStep pc l = some t) ∨ s.mainStep l = some t) := by
  unfold step at h
  split at h
  next => cases h
  next hfaulted =>
    refine ⟨by simpa using hfaulted, ?_⟩
    split at h
    next u hu =>
      obtain ⟨pc, hthread, hpc⟩ := Option.bind_eq_some_iff.mp hu
      exact .inl ⟨pc, hthread, Option.some.inj h ▸ hpc⟩
    next => exact .inr h

/-- The thread runs only where the caller holds what the thread needs. -/
theorem running_of_thread (h : s.Held) (hthread : s.thread.isSome) : s.Running := by
  have hopen : ¬ s.thread = none := by simpa [Option.isSome_iff_ne_none] using hthread
  cases hmain : s.main <;> simp only [Held, HeldAt, hmain] at h
  case outside => exact h.elim And.right fun h ↦ absurd h.2.thread hopen
  case pcmOpen | setParams | prepareBuffer => exact absurd h.2.2.2.thread hopen
  case createThread => exact absurd h.2.2.2.2.2 hopen
  case setReady | cancel | join => exact h
  case pcmStart | setStopping | pcmDrop | setClosing => exact h.2
  case pcmClose => exact absurd h hopen
  case destroyed => exact absurd h.thread hopen

/-- What the caller holds does not depend on where the thread is. -/
theorem held_of_spared (h : s.Held) (hrunning : s.Running) (ht : t.Running)
    (hspared : Spared s t) : t.Held := by
  have hmain' := hspared.main
  cases hmain : s.main <;> simp only [Held, HeldAt, hmain', hmain] at h ⊢
  case outside =>
    exact .inl ⟨hspared.ready (h.resolve_right fun h ↦ hrunning.not_closed h.2).1, ht⟩
  case pcmOpen | setParams | prepareBuffer => exact absurd h.2.2.2 hrunning.not_closed
  case createThread => exact absurd hrunning.thread (by simp [h.2.2.2.2.2])
  case setReady | cancel | join => exact ht
  case pcmStart | setStopping | pcmDrop | setClosing => exact ⟨hspared.ready h.1, ht⟩
  case pcmClose => exact absurd hrunning.thread (by simp [h])
  case destroyed => exact absurd h hrunning.not_closed

theorem safe_step (h : s.Safe) (hmono : Mono l) (hcareful : s.Careful l)
    (hstep : s.step l = some t) : t.Safe := by
  rcases step_cases hstep with ⟨-, ⟨pc, hthread, hpc⟩ | hmain⟩
  · have hrunning := running_of_thread h.held (hthread ▸ rfl)
    obtain ⟨ht, hspared⟩ := threadStep_running hrunning hthread hpc
    exact ⟨hspared.faulted.trans h.sound, held_of_spared h.held hrunning ht hspared⟩
  · exact mainStep_safe h hmono hcareful hmain

theorem faulted_of_careless (h : s.Safe) (hcareless : ¬ s.Careful l)
    (hstep : s.step l = some t) : ¬ t.faulted = false := by
  rcases step_cases hstep with ⟨-, ⟨pc, hthread, hpc⟩ | hmain⟩
  · cases l <;> first | exact absurd trivial hcareless | cases hpc
  · cases l with
    | isRecordStopped =>
        obtain ⟨houtside, heq⟩ := Option.ite_none_right_eq_some.mp hmain
        obtain ⟨hstate, hclosed⟩ := closed_of_not_ready h.held houtside hcareless
        rw [isRecordStopped, if_neg (by simp [hstate, hclosed.device])] at heq
        cases heq
        exact nofun
    | destroyRecorder =>
        obtain ⟨houtside, heq⟩ := Option.ite_none_right_eq_some.mp hmain
        have hrunning := running_of_ready h.held houtside (not_lt.mp hcareless)
        rw [destroyRecorder, if_pos hrunning.thread] at heq
        cases heq
        exact nofun
    | _ => exact absurd trivial hcareless

theorem safe_create : create.Safe := ⟨rfl, .inr ⟨rfl, rfl, rfl, rfl⟩⟩

theorem sound_iff_meets (hmono : ∀ l ∈ ls, Mono l) (hrun : run step create ls = some s) :
    s.faulted = false ↔ Meets step Careful create ls := by
  have hmet (s : Recorder) (l : RecorderLabel) (t : Recorder) (h : s.Safe) (hl : Mono l)
      (hguard : s.Careful l) (hstep : s.step l = some t) : t.Safe := safe_step h hl hguard hstep
  have hforever (s : Recorder) (l : RecorderLabel) (t : Recorder) (hbad : ¬ s.faulted = false)
      (hstep : s.step l = some t) : ¬ t.faulted = false := absurd (step_cases hstep).1 hbad
  exact good_iff_meets_of_forever (fun _ h ↦ h.sound) hmet (fun _ _ _ h ↦ faulted_of_careless h)
    hforever safe_create hmono hrun

theorem safe_of_run (hmono : ∀ l ∈ ls, Mono l) (hrun : run step create ls = some s)
    (hsound : s.faulted = false) : s.Safe := by
  have hcareful := (meets_and_forall hrun).mpr ⟨(sound_iff_meets hmono hrun).mp hsound, hmono⟩
  exact invariant_of_meets (fun s l t h hl ↦ safe_step h hl.2 hl.1) safe_create hcareful hrun

/-- A recorder is in order as long as it is asked whether it has stopped only while it is open,
and destroyed only while it is not; then its device, its buffer and its thread are there
together, while it is open, and gone when it is destroyed. -/
theorem recorder_safe_iff (hmono : ∀ l ∈ ls, Mono l) (hrun : run step create ls = some s) :
    (s.faulted = false ↔ Meets step Careful create ls) ∧
      (s.faulted = false →
        (s.main = .outside →
          (s.thread.isSome ↔ RecordState.ready.toNat ≤ s.state.toNat) ∧
            s.waveinHdl = s.thread.isSome ∧ s.audiobuf.isSome = s.thread.isSome) ∧
        (s.main = .destroyed →
          s.thread = none ∧ s.waveinHdl = false ∧ s.audiobuf = none)) := by
  refine ⟨sound_iff_meets hmono hrun, fun hsound ↦ ?_⟩
  have hheld := (safe_of_run hmono hrun hsound).held
  constructor
  · intro hmain
    rcases hheld.at hmain with ⟨hready, hrunning⟩ | ⟨hstate, hclosed⟩
    · obtain ⟨buf, hbuf, -⟩ := hrunning.buffer
      rw [hrunning.thread, hrunning.device, hbuf]
      exact ⟨⟨fun _ ↦ hready, fun _ ↦ rfl⟩, rfl, rfl⟩
    · rw [hclosed.thread, hclosed.device, hclosed.buffer, hstate]
      exact ⟨by decide, rfl, rfl⟩
  · intro hmain
    obtain ⟨hdevice, hbuffer, hthread⟩ := hheld.at hmain
    exact ⟨hthread, hdevice, hbuffer⟩

/-- Opened, with one block read and passed on in two reads around an overrun, and a part of the
next. -/
def listening : List RecorderLabel :=
  [.openRecorder ⟨1, 16⟩, .pcmOpen 0, .setParams (some 2), .malloc (some [0, 0, 0, 0]),
    .pthreadCreate 0, .go, .setReady, .go, .startRecord, .pcmStart 0, .go,
    .readi (.frames 1 [1, 2]), .readi (.error .epipe 0 0), .readi (.frames 1 [3, 4]),
    .callbackReturns, .go, .go, .readi (.frames 1 [5, 6])]

/-- Closed while the thread reads, and destroyed. -/
def leaving : List RecorderLabel :=
  [.isRecordStopped, .closeRecorder, .setStopping, .pcmDrop 0, .setClosing, .cancel, .cancelled,
    .join, .pcmClose, .destroyRecorder]

theorem safe_while_listening :
    run step create (listening ++ leaving) =
        some ⟨.destroyed, none, true, false, .created, false, none, 1, 16, 2⟩ ∧
      Meets step Careful create (listening ++ leaving) :=
  ⟨rfl, (recorder_safe_iff (by decide) rfl).1.mp rfl⟩

-- `open_recorder` returns 0 when it fails, too: `sr_uninit` then asks without a device
example : (run step create [.openRecorder ⟨1, 16⟩, .pcmOpen (-2), .isRecordStopped]).map
    (·.faulted) = some true := rfl

end Runs

end Recorder

end EmbeddedSystem.Recognition
