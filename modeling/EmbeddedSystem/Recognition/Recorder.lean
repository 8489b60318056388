import EmbeddedSystem.Voice.Text

/-!
# The recorder

The recorder of a microphone: the calls that open, start, stop and close it, and the thread
that reads the device into a buffer and passes each full buffer on.  The thread begins when
the recorder is opened and is cancelled and joined when it is closed.  A step of either is a
system call with what it stores, or one access to the state that the other may change.
-/

namespace EmbeddedSystem.Recognition

open Voice

/-- `RECORD_STATE_CREATED` and so on, in the order that the comparisons rely on -/
inductive RecordState
  | created
  | closing
  | ready
  | stopping
  | recording
  deriving DecidableEq, Repr

def RecordState.toNat : RecordState → ℕ
  | .created => 0
  | .closing => 1
  | .ready => 2
  | .stopping => 3
  | .recording => 4

theorem RecordState.ready_le_stopping :
    RecordState.ready.toNat ≤ RecordState.stopping.toNat := Nat.le_succ 2

theorem RecordState.ready_le_recording :
    RecordState.ready.toNat ≤ RecordState.recording.toNat := by decide

/-- The part of `WAVEFORMATEX` that the recorder takes in. -/
structure WaveFormat where
  nChannels : ℕ
  wBitsPerSample : ℕ
  deriving DecidableEq, Repr

/-- Where the caller is: outside, or before the system call or the store that the constructor
is named after. -/
inductive RecorderPc
  | outside
  | pcmOpen (fmt : WaveFormat)
  | setParams (fmt : WaveFormat)
  | prepareBuffer
  | createThread
  | setReady
  | pcmStart
  /-- in `stop_record`, called for itself or by `close_recorder` -/
  | setStopping (closes : Bool)
  | pcmDrop (closes : Bool)
  | setClosing
  | cancel
  | join
  | pcmClose
  | destroyed
  deriving DecidableEq, Repr

/-- Where `record_thread_proc` is; `offset` is how far `data` is into the buffer. -/
inductive RecordPc
  | top
  /-- between the two questions for the state -/
  | notClosing
  | sleeping
  | reading (count offset : ℕ)
  | callback
  /-- in a `stop_record` of the callback -/
  | stopping
  | dropping
  | ended
  deriving DecidableEq, Repr

/-- Where `pthread_cancel` takes effect. -/
def RecordPc.waits : RecordPc → Bool
  | .sleeping | .reading _ _ | .callback | .dropping => true
  | .top | .notClosing | .stopping | .ended => false

/-- `struct recorder`, with the points of the two threads: an allocated buffer with what is in
it, a thread until it is joined. -/
structure Recorder where
  main : RecorderPc
  thread : Option RecordPc
  cancelled : Bool
  /-- it has used what it does not have, or has been freed with what it has -/
  faulted : Bool
  state : RecordState
  waveinHdl : Bool
  audiobuf : Option Bytes
  nChannels : ℕ
  bitsPerFrame : ℕ
  periodFrames : ℕ
  deriving DecidableEq, Repr

/-- `-EAGAIN` and so on -/
inductive PcmError
  | eagain
  | epipe
  | estrpipe
  | other
  deriving DecidableEq, Repr

/-- The answer of `snd_pcm_readi`: frames, or an error with the answers of
`snd_pcm_resume` and `snd_pcm_prepare` to it. -/
inductive ReadAnswer
  | frames (r : ℕ) (bytes : Bytes)
  | error (e : PcmError) (resume prepare : ℤ)
  deriving DecidableEq, Repr

inductive RecorderLabel
  | openRecorder (fmt : WaveFormat)
  | startRecord
  | stopRecord
  | closeRecorder
  | isRecordStopped
  | destroyRecorder
  | pcmOpen (ret : ℤ)
  /-- `set_params` with the period of the device, or without one it can use -/
  | setParams (frames : Option ℕ)
  | malloc (block : Option Bytes)
  | pthreadCreate (ret : ℤ)
  | setReady
  | pcmStart (ret : ℤ)
  | setStopping
  | pcmDrop (ret : ℤ)
  | setClosing
  | cancel
  | join
  | pcmClose
  /-- the recording thread goes on, without the device -/
  | go
  | readi (a : ReadAnswer)
  | callbackStops
  | callbackDrops (ret : ℤ)
  | callbackReturns
  /-- the cancelled thread ends where it waits -/
  | cancelled
  deriving DecidableEq, Repr

namespace Recorder

/-- `create_recorder` -/
def create : Recorder := ⟨.outside, none, false, false, .created, false, none, 0, 0, 0⟩

/-- `period_frames * bits_per_frame / 8` -/
def periodBytes (s : Recorder) : ℕ := s.periodFrames * s.bitsPerFrame / 8

/-- What the device stores of a frame. -/
def frameBytes (s : Recorder) : ℕ := s.nChannels * (s.bitsPerFrame / 8)

def fault (s : Recorder) : Recorder := { s with faulted := true }

/-! ## The calls -/

/-- The exit of `open_recorder_internal` on an error. -/
def failed (s : Recorder) : Recorder :=
  { s with main := .outside, waveinHdl := false, audiobuf := none }

def openRecorder (s : Recorder) (fmt : WaveFormat) : Recorder :=
  if RecordState.ready.toNat ≤ s.state.toNat then s else { s with main := .pcmOpen fmt }

def pcmOpened (s : Recorder) (fmt : WaveFormat) (ret : ℤ) : Recorder :=
  if ret < 0 then s.failed else { s with main := .setParams fmt, waveinHdl := true }

def paramsSet (s : Recorder) (fmt : WaveFormat) (frames : Option ℕ) : Recorder :=
  match frames with
  -- what `set_hwparams` has stored by then is not read
  | none => s.failed
  | some n => { s with
      main := .prepareBuffer
      nChannels := fmt.nChannels
      bitsPerFrame := fmt.wBitsPerSample
      periodFrames := n }

def bufferPrepared (s : Recorder) (block : Option Bytes) : Recorder :=
  match block with
  | none => s.failed
  | some block => { s with main := .createThread, audiobuf := some block }

def threadCreated (s : Recorder) (ret : ℤ) : Recorder :=
  if ret = 0 then { s with main := .setReady, thread := some .top, cancelled := false }
  else s.failed

def startRecord (s : Recorder) : Recorder :=
  if s.state.toNat < RecordState.ready.toNat then s
  else if s.state = .recording then s
  else { s with main := .pcmStart }

def pcmStarted (s : Recorder) (ret : ℤ) : Recorder :=
  if ret = 0 then { s with main := .outside, state := .recording }
  else { s with main := .outside }

def stopRecord (s : Recorder) : Recorder :=
  if s.state.toNat < RecordState.recording.toNat then s
  else { s with main := .setStopping false }

def pcmDropped (s : Recorder) (closes : Bool) (ret : ℤ) : Recorder :=
  { s with
    main := if closes then .setClosing else .outside
    state := if ret = 0 then .ready else s.state }

def closeRecorder (s : Recorder) : Recorder :=
  if s.state.toNat < RecordState.ready.toNat then s
  else if s.state = .recording then { s with main := .setStopping true }
  else { s with main := .setClosing }

/-- `pthread_cancel` -/
def threadCancelled (s : Recorder) : Recorder :=
  if s.thread.isSome then { s with main := .join, cancelled := true } else s.fault

def closed (s : Recorder) : Recorder :=
  { s with main := .outside, state := .created, waveinHdl := false, audiobuf := none }

/-- `is_record_stopped` asks the device when the state does not tell. -/
def isRecordStopped (s : Recorder) : Recorder :=
  if s.state = .recording ∨ s.waveinHdl then s else s.fault

/-- `free(rec)`, of an open recorder or a closed one. -/
def destroyRecorder (s : Recorder) : Recorder :=
  if s.thread.isSome then s.fault else { s with main := .destroyed }

/-! ## The thread -/

def beginRead (s : Recorder) : RecordPc :=
  if s.waveinHdl then (if s.periodFrames = 0 then .callback else .reading s.periodFrames 0)
  else .ended

def go (s : Recorder) (pc : RecordPc) : Option Recorder :=
  match pc with
  | .top => some { s with thread := some (if s.state = .closing then .ended else .notClosing) }
  | .notClosing =>
    let next := if s.state.toNat < RecordState.recording.toNat then .sleeping else s.beginRead
    some { s with thread := some next }
  | .sleeping => some { s with thread := some s.beginRead }
  | .stopping => some { s with thread := some .dropping, state := .stopping }
  | _ => none

/-- `xrun_recovery` does not fail; `-EAGAIN` is no matter for it. -/
def recovers : PcmError → ℤ → ℤ → Bool
  | .eagain, _, _ => true
  | .epipe, _, prepare => 0 ≤ prepare
  | .estrpipe, resume, prepare => 0 ≤ resume ∨ 0 ≤ prepare
  | .other, _, _ => false

/-- The device stores into the buffer. -/
def store (buf : Bytes) (offset : ℕ) (bytes : Bytes) : Option Bytes :=
  if offset + bytes.length ≤ buf.length then
    some (buf.take offset ++ bytes ++ buf.drop (offset + bytes.length))
  else none

/-- One pass of the loop of `pcm_read`.  The device delivers no more than it was asked for. -/
def readOnce (s : Recorder) (count offset : ℕ) : ReadAnswer → Option Recorder
  | .frames r bytes =>
    if r ≤ count ∧ bytes.length = r * s.frameBytes then
      match s.audiobuf.bind fun buf ↦ store buf offset bytes with
      | none => some s.fault
      | some buf =>
        let next := if count - r = 0 then .callback
          else .reading (count - r) (offset + r * s.bitsPerFrame / 8)
        some { s with audiobuf := some buf, thread := some next }
    else none
  | .error e resume prepare =>
    let next := if recovers e resume prepare then .reading count offset else .ended
    some { s with thread := some next }

def threadStep (s : Recorder) (pc : RecordPc) : RecorderLabel → Option Recorder
  | .go => s.go pc
  | .readi a =>
    match pc with
    | .reading count offset => if s.waveinHdl then s.readOnce count offset a else some s.fault
    | _ => none
  | .callbackStops =>
    if pc = .callback then
      some (if s.state.toNat < RecordState.recording.toNat then s
        else { s with thread := some .stopping })
    else none
  | .callbackDrops ret =>
    if pc = .dropping then
      if s.waveinHdl then
        some { s with
          thread := some .callback
          state := if ret = 0 then .ready else s.state }
      else some s.fault
    else none
  | .callbackReturns => if pc = .callback then some { s with thread := some .top } else none
  | .cancelled => if s.cancelled ∧ pc.waits then some { s with thread := some .ended } else none
  | _ => none

/-! ## The steps -/

/-- The device must be open where it is used. -/
def onDevice (s t : Recorder) : Recorder := if s.waveinHdl then t else s.fault

def mainStep (s : Recorder) : RecorderLabel → Option Recorder
  | .openRecorder fmt => if s.main = .outside then some (s.openRecorder fmt) else none
  | .startRecord => if s.main = .outside then some s.startRecord else none
  | .stopRecord => if s.main = .outside then some s.stopRecord else none
  | .closeRecorder => if s.main = .outside then some s.closeRecorder else none
  | .isRecordStopped => if s.main = .outside then some s.isRecordStopped else none
  | .destroyRecorder => if s.main = .outside then some s.destroyRecorder else none
  | .pcmOpen ret =>
    match s.main with
    | .pcmOpen fmt => some (s.pcmOpened fmt ret)
    | _ => none
  | .setParams frames =>
    match s.main with
    | .setParams fmt => some (s.onDevice (s.paramsSet fmt frames))
    | _ => none
  | .malloc block =>
    if s.main = .prepareBuffer ∧ (∀ b ∈ block, b.length = s.periodBytes) then
      some (s.bufferPrepared block)
    else none
  | .pthreadCreate ret => if s.main = .createThread then some (s.threadCreated ret) else none
  | .setReady =>
    if s.main = .setReady then some { s with main := .outside, state := .ready } else none
  | .pcmStart ret => if s.main = .pcmStart then some (s.onDevice (s.pcmStarted ret)) else none
  | .setStopping =>
    match s.main with
    | .setStopping closes => some { s with main := .pcmDrop closes, state := .stopping }
    | _ => none
  | .pcmDrop ret =>
    match s.main with
    | .pcmDrop closes => some (s.onDevice (s.pcmDropped closes ret))
    | _ => none
  | .setClosing =>
    if s.main = .setClosing then some { s with main := .cancel, state := .closing } else none
  | .cancel => if s.main = .cancel then some s.threadCancelled else none
  | .join =>
    -- pthread_join waits for the thread
    if s.main = .join ∧ s.thread = some .ended then
      some { s with main := .pcmClose, thread := none }
    else none
  | .pcmClose => if s.main = .pcmClose then some s.closed else none
  | _ => none

def step (s : Recorder) (l : RecorderLabel) : Option Recorder :=
  if s.faulted then none
  else
    match s.thread.bind fun pc ↦ s.threadStep pc l with
    | some t => some t
    | none => s.mainStep l

end Recorder

end EmbeddedSystem.Recognition
