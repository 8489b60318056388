import EmbeddedSystem.Foundation.Chunks
import EmbeddedSystem.Recognition.Engine
import EmbeddedSystem.Voice.Server

/-!
# The recognition of one recording

`asr_sample` logs in, builds the grammar and waits for the callback that tells of it, then
passes the recording to the engine and writes what was understood into `result.txt`.  The
engine calls `build_grm_cb` from a thread of its own: each of its stores is a step that may
fall between any two steps of `main`.
-/

namespace EmbeddedSystem.Recognition

open Runs Voice

def ascii (text : String) : Bytes := text.toList.map fun c ↦ c.toNat.toUInt8

/-- The `info` of a grammar that was built; `build_grm_cb` passes it to `snprintf` as the
format, so it must not hold a `%`. -/
structure GrammarId where
  text : Bytes
  plain : 0 ∉ text ∧ 37 ∉ text
  deriving DecidableEq, Repr

/-- What the engine tells `build_grm_cb`. -/
structure Built where
  ecode : ℤ
  info : Option GrammarId
  deriving DecidableEq, Repr

/-- How far `build_grm_cb` is: not called, at the store that the constructor is named
after, or back. -/
inductive Callback
  | idle
  | buildFini (b : Built)
  | errcode (b : Built)
  | grammarId (b : Built)
  | returned (b : Built)
  deriving DecidableEq, Repr

structure UserData where
  buildFini : Bool
  errcode : ℤ
  grammarId : Bytes
  deriving DecidableEq, Repr

/-- The call or the test that `main` is at. -/
inductive SamplePc
  | login
  | openGrammar
  | allocGrammar
  | buildGrammar
  | waitGrammar
  | checkGrammar
  | openPcm
  | allocPcm
  | sessionBegin
  | audioWrite
  | audioLast
  | getResult
  | openResult
  | sessionEnd
  | logout
  | exited
  | killed
  deriving DecidableEq, Repr

/-- The variables of `main`, `build_grammar` and `run_asr`, an open stream with what its
file holds and a block with its contents, and `result.txt`. -/
structure Sample where
  pc : SamplePc
  callback : Callback
  asrData : UserData
  grmFile : Option Bytes
  grmContent : Option Bytes
  fPcm : Option Bytes
  pcmData : Option Bytes
  pcmCount : ℕ
  pcmSize : ℕ
  sessionId : Option ℕ
  rssStatus : RecStatus
  recRslt : Option Bytes
  errcode : ℤ
  tmp : Option Recognised
  resultTxt : Option Recognised
  deriving DecidableEq, Repr

/-- The answers that `main` gets, and the two steps of the engine's thread. -/
inductive SampleLabel
  | login (ret : ℤ)
  | openGrammar (file : Option Bytes)
  | allocGrammar (ok : Bool)
  | buildGrammar (ret : ℤ)
  /-- The engine calls `build_grm_cb`. -/
  | built (b : Built)
  /-- The next store of `build_grm_cb`. -/
  | callback
  | waitGrammar
  | checkGrammar
  | openPcm (file : Option Bytes)
  | allocPcm (ok : Bool)
  | sessionBegin (session : Option ℕ) (errcode : ℤ)
  | audioWrite (errcode : ℤ) (epStatus : EpStatus)
  | audioLast (errcode : ℤ) (epStatus : EpStatus)
  | getResult (result : Option Bytes) (rssStatus : RecStatus) (errcode : ℤ)
  | openResult (ok : Bool)
  | sessionEnd
  | logout
  deriving DecidableEq, Repr

/-- `grm_build_params` -/
def grmBuildParams : Bytes :=
  (ascii ("engine_type = local, \t\tasr_res_path = fo|res/asr/common.jet, sample_rate = 16000, " ++
    "\t\tgrm_build_path = res/asr/GrmBuilld, ")).take 1022

def asrParamsHead : Bytes :=
  ascii ("engine_type = local, \t\tasr_res_path = fo|res/asr/common.jet, sample_rate = 16000, " ++
    "\t\tgrm_build_path = res/asr/GrmBuilld, local_grammar = ")

def asrParamsTail : Bytes := ascii ", \t\tresult_type = xml, result_encoding = UTF-8, "

/-- `asr_params` -/
def asrParams (grammarId : Bytes) : Bytes :=
  (asrParamsHead ++ grammarId ++ asrParamsTail).take 1022

namespace Sample

def start (resultTxt : Option Recognised) : Sample :=
  ⟨.login, .idle, ⟨false, 0, []⟩, none, none, none, none, 0, 0, none, .incomplete, none, -1, none,
    resultTxt⟩

/-- `build_grm_cb` may be called from the moment `main` is in `QISRBuildGrammar`. -/
def Asked (s : Sample) : Prop :=
  s.pc ∉ [.login, .openGrammar, .allocGrammar, .exited, .killed]

instance (s : Sample) : Decidable s.Asked := inferInstanceAs (Decidable (¬ _))

/-! ## The callback -/

/-- The next store; the identifier is stored only with a grammar that was built. -/
def stored (s : Sample) : Option Sample :=
  match s.callback with
  | .idle | .returned _ => none
  | .buildFini b =>
    some { s with callback := .errcode b, asrData := { s.asrData with buildFini := true } }
  | .errcode b =>
    some { s with callback := .grammarId b, asrData := { s.asrData with errcode := b.ecode } }
  | .grammarId b =>
    match b.ecode, b.info with
    | 0, some info => some { s with
        callback := .returned b
        asrData := { s.asrData with grammarId := info.text.take 30 } }
    | _, _ => some { s with callback := .returned b }

/-! ## `main` and `build_grammar` -/

def loggedIn (s : Sample) (ret : ℤ) : Sample :=
  { s with pc := if ret = 0 then .openGrammar else .logout }

def grammarOpened (s : Sample) (file : Option Bytes) : Sample :=
  { s with pc := if file.isSome then .allocGrammar else .logout, grmFile := file }

def grammarRead (s : Sample) (ok : Bool) : Sample :=
  if ok then { s with pc := .buildGrammar, grmContent := s.grmFile, grmFile := none }
  else { s with pc := .logout, grmFile := none }

def grammarAsked (s : Sample) (ret : ℤ) : Sample :=
  { s with pc := if ret = 0 then .waitGrammar else .logout, grmContent := none }

def waited (s : Sample) : Sample :=
  { s with pc := if s.asrData.buildFini then .checkGrammar else .waitGrammar }

def checked (s : Sample) : Sample :=
  { s with pc := if s.asrData.errcode = 0 then .openPcm else .logout }

/-! ## `run_asr` -/

def pcmOpened (s : Sample) (file : Option Bytes) : Sample :=
  { s with pc := if file.isSome then .allocPcm else .sessionEnd, fPcm := file }

def pcmRead (s : Sample) (ok : Bool) : Sample :=
  let size := (s.fPcm.getD []).length
  if ok then { s with pc := .sessionBegin, pcmSize := size, pcmData := s.fPcm, fPcm := none }
  else { s with pc := .sessionEnd, pcmSize := size, fPcm := none }

/-- The `len` of the next block. -/
def len (s : Sample) : ℕ := Chunks.first 6400 s.pcmSize

def block (s : Sample) : Bytes := ((s.pcmData.getD []).drop s.pcmCount).take s.len

def audStat (s : Sample) : AudioStatus :=
  if s.pcmCount = 0 then .sampleFirst else .sampleContinue

/-- The head of the loop that writes the audio. -/
def nextAudio (s : Sample) : Sample :=
  { s with pc := if s.len = 0 then .audioLast else .audioWrite }

def begun (s : Sample) (session : Option ℕ) (errcode : ℤ) : Sample :=
  if session.isSome then { s with sessionId := session, errcode := errcode }.nextAudio
  else { s with pc := .sessionEnd, sessionId := session, errcode := errcode, pcmData := none }

def written (s : Sample) (errcode : ℤ) (epStatus : EpStatus) : Sample :=
  if errcode ≠ 0 then { s with pc := .sessionEnd, errcode := errcode, pcmData := none }
  else
    let t := { s with
      pcmCount := s.pcmCount + s.len, pcmSize := s.pcmSize - s.len, errcode := errcode }
    if epStatus = .afterSpeech then { t with pc := .audioLast } else t.nextAudio

/-- `strcpy(tmp, result)`, unless it goes over the end of `tmp`. -/
def copied (result : Bytes) : Option Recognised :=
  if hshort : (cString result).length < 2048 then
    some ⟨cString result, fun h ↦ by simpa using List.mem_takeWhile_imp h, hshort⟩
  else none

/-- The head of the loop that gets the results and what follows it: `rawtext` is the text
under the `rawtext` element of the result, without which `node` or its child is `NULL`. -/
def nextResult (rawtext : Bytes → Option Bytes) (s : Sample) : Sample :=
  if s.rssStatus ≠ .complete ∧ s.errcode = 0 then { s with pc := .getResult }
  else
    match s.recRslt with
    | none => { s with pc := .sessionEnd }
    | some recRslt =>
      match (rawtext recRslt).bind copied with
      | none => { s with pc := .killed }
      | some tmp => { s with pc := .openResult, tmp := some tmp }

/-- The answer to the last block is not looked at. -/
def closed (rawtext : Bytes → Option Bytes) (s : Sample) : Sample :=
  nextResult rawtext { s with pcmData := none }

def resultGot (rawtext : Bytes → Option Bytes) (s : Sample) (result : Option Bytes)
    (rssStatus : RecStatus) (errcode : ℤ) : Sample :=
  nextResult rawtext { s with recRslt := result, rssStatus := rssStatus, errcode := errcode }

/-- `fprintf` to no file is a crash. -/
def resultOpened (s : Sample) (ok : Bool) : Sample :=
  if ok then { s with pc := .sessionEnd, resultTxt := s.tmp } else { s with pc := .killed }

/-! ## The steps -/

variable (rawtext : Bytes → Option Bytes)

/-- What `main` does next from the point `pc` on. -/
def goOn (s : Sample) (pc : SamplePc) (t : Sample) : Option Sample :=
  if s.pc = pc then some t else none

def step (s : Sample) : SampleLabel → Option Sample
  | .login ret => s.goOn .login (s.loggedIn ret)
  | .openGrammar file => s.goOn .openGrammar (s.grammarOpened file)
  | .allocGrammar ok => s.goOn .allocGrammar (s.grammarRead ok)
  | .buildGrammar ret => s.goOn .buildGrammar (s.grammarAsked ret)
  | .built b =>
    if s.Asked ∧ s.callback = .idle then some { s with callback := .buildFini b } else none
  | .callback => if s.Asked then s.stored else none
  | .waitGrammar => s.goOn .waitGrammar s.waited
  | .checkGrammar => s.goOn .checkGrammar s.checked
  | .openPcm file => s.goOn .openPcm (s.pcmOpened file)
  | .allocPcm ok => s.goOn .allocPcm (s.pcmRead ok)
  | .sessionBegin session errcode => s.goOn .sessionBegin (s.begun session errcode)
  | .audioWrite errcode epStatus => s.goOn .audioWrite (s.written errcode epStatus)
  | .audioLast _ _ => s.goOn .audioLast (s.closed rawtext)
  | .getResult result rssStatus errcode =>
    s.goOn .getResult (s.resultGot rawtext result rssStatus errcode)
  | .openResult ok => s.goOn .openResult (s.resultOpened ok)
  | .sessionEnd => s.goOn .sessionEnd { s with pc := .logout }
  | .logout => s.goOn .logout { s with pc := .exited }

/-! ## The calls made -/

/-- The call of a step, and its answer. -/
def event (s : Sample) : SampleLabel → Option Event
  | .login ret => some (.login ret)
  | .buildGrammar ret => some (.buildGrammar (s.grmContent.getD []) grmBuildParams ret)
  | .sessionBegin session _ => some (.sessionBegin (asrParams s.asrData.grammarId) session)
  | .audioWrite errcode epStatus =>
    some (.audioWrite s.sessionId s.block s.audStat errcode epStatus)
  | .audioLast errcode epStatus =>
    some (.audioWrite s.sessionId [] .sampleLast errcode epStatus)
  | .getResult result rssStatus errcode =>
    some (.getResult s.sessionId result rssStatus errcode)
  | .sessionEnd => some (.sessionEnd s.sessionId)
  | .logout => some .logout
  | _ => none

/-- The recording that was opened, and the calls so far. -/
structure Log where
  recording : Option Bytes
  calls : List Event
  deriving DecidableEq, Repr

def Log.empty : Log := ⟨none, []⟩

def record (s : Sample) (l : SampleLabel) (log : Log) : Log :=
  ⟨match l with
    | .openPcm (some file) => some file
    | _ => log.recording,
    log.calls ++ (s.event l).toList⟩

/-- The program with what it has opened and called. -/
def logged : Sample × Log → SampleLabel → Option (Sample × Log) :=
  withHistory (step rawtext) record

/-! ## The effect of a step -/

/-- What a step does, by the point it is taken at.  The steps that only prepare the grammar
go together, and so do those of the engine's thread. -/
inductive Change (s t : Sample) : SampleLabel → Prop
  | login (ret : ℤ) (hpc : s.pc = .login) (ht : t = s.loggedIn ret) : Change s t (.login ret)
  | prepare (l : SampleLabel) (pc : SamplePc) (grmFile grmContent : Option Bytes)
      (hlog : ∀ log, s.record l log = log)
      (hpc : s.pc ∈ [.openGrammar, .allocGrammar, .waitGrammar, .checkGrammar])
      (hnext : pc ∈ [.allocGrammar, .buildGrammar, .waitGrammar, .checkGrammar, .openPcm, .logout])
      (ht : t = { s with pc := pc, grmFile := grmFile, grmContent := grmContent }) : Change s t l
  | buildGrammar (ret : ℤ) (hpc : s.pc = .buildGrammar) (ht : t = s.grammarAsked ret) :
      Change s t (.buildGrammar ret)
  | thread (l : SampleLabel) (callback : Callback) (asrData : UserData)
      (hlog : ∀ log, s.record l log = log) (hasked : s.Asked)
      (ht : t = { s with callback := callback, asrData := asrData }) : Change s t l
  | openPcm (file : Option Bytes) (hpc : s.pc = .openPcm) (ht : t = s.pcmOpened file) :
      Change s t (.openPcm file)
  | allocPcm (ok : Bool) (hlog : ∀ log, s.record (.allocPcm ok) log = log) (hpc : s.pc = .allocPcm)
      (ht : t = s.pcmRead ok) : Change s t (.allocPcm ok)
  | sessionBegin (session : Option ℕ) (errcode : ℤ) (hpc : s.pc = .sessionBegin)
      (ht : t = s.begun session errcode) : Change s t (.sessionBegin session errcode)
  | audioWrite (errcode : ℤ) (epStatus : EpStatus) (hpc : s.pc = .audioWrite)
      (ht : t = s.written errcode epStatus) : Change s t (.audioWrite errcode epStatus)
  | audioLast (errcode : ℤ) (epStatus : EpStatus) (hpc : s.pc = .audioLast)
      (ht : t = s.closed rawtext) : Change s t (.audioLast errcode epStatus)
  | getResult (result : Option Bytes) (rssStatus : RecStatus) (errcode : ℤ)
      (hpc : s.pc = .getResult) (ht : t = s.resultGot rawtext result rssStatus errcode) :
      Change s t (.getResult result rssStatus errcode)
  | openResult (ok : Bool) (hlog : ∀ log, s.record (.openResult ok) log = log)
      (hpc : s.pc = .openResult) (ht : t = s.resultOpened ok) : Change s t (.openResult ok)
  | sessionEnd (hpc : s.pc = .sessionEnd) (ht : t = { s with pc := .logout }) :
      Change s t .sessionEnd
  | logout (hpc : s.pc = .logout) (ht : t = { s with pc := .exited }) : Change s t .logout

theorem goOn_eq_some {s t u : Sample} {pc : SamplePc} :
    s.goOn pc t = some u ↔ s.pc = pc ∧ u = t := by
  rw [goOn, Option.ite_none_right_eq_some, Option.some.injEq, eq_comm (a := t)]

theorem record_of_event {s : Sample} {l : SampleLabel} (hevent : s.event l = none)
    (hopen : ∀ file, l ≠ .openPcm (some file)) (log : Log) : s.record l log = log := by
  have hrecording : (s.record l log).recording = log.recording := by simp only [record]
  have hcalls : (s.record l log).calls = log.calls := by simp [record, hevent]
  cases log
  exact congrArg₂ Log.mk hrecording hcalls

/-- The engine's thread writes to `asrData` only. -/
theorem stored_eq {s t : Sample} (h : s.stored = some t) :
    ∃ callback asrData, t = { s with callback := callback, asrData := asrData } := by
  unfold stored at h
  split at h
  next => cases h
  next => cases h
  next => exact ⟨_, _, (Option.some.inj h).symm⟩
  next => exact ⟨_, _, (Option.some.inj h).symm⟩
  next =>
    split at h
    next => exact ⟨_, _, (Option.some.inj h).symm⟩
    next => exact ⟨_, s.asrData, (Option.some.inj h).symm⟩

/-- Where the audio loop goes on. -/
theorem nextAudio_eq (s : Sample) :
    ∃ pc, s.nextAudio = { s with pc := pc } ∧ (pc = .audioWrite ∨ pc = .audioLast) := by
  refine ⟨_, rfl, ?_⟩
  split <;> simp

theorem begun_eq (s : Sample) (session : Option ℕ) (errcode : ℤ) :
    ∃ pc pcmData, s.begun session errcode = { s with
        pc := pc, sessionId := session, errcode := errcode, pcmData := pcmData } ∧
      (pc = .sessionEnd ∧ pcmData = none ∨
        (pc = .audioWrite ∨ pc = .audioLast) ∧ pcmData = s.pcmData) := by
  cases session with
  | none => exact ⟨.sessionEnd, none, rfl, by simp⟩
  | some id =>
      obtain ⟨pc, heq, hpc⟩ := nextAudio_eq { s with sessionId := some id, errcode := errcode }
      exact ⟨pc, s.pcmData, heq, Or.inr ⟨hpc, rfl⟩⟩

theorem written_eq (s : Sample) (errcode : ℤ) (epStatus : EpStatus) :
    ∃ pc count size pcmData, s.written errcode epStatus = { s with
        pc := pc, pcmCount := count, pcmSize := size, errcode := errcode, pcmData := pcmData } ∧
      (pc = .sessionEnd ∧ pcmData = none ∨
        (pc = .audioWrite ∨ pc = .audioLast) ∧ pcmData = s.pcmData) := by
  simp only [written]
  split
  next => exact ⟨.sessionEnd, s.pcmCount, s.pcmSize, none, rfl, by simp⟩
  next =>
    split
    next => exact ⟨.audioLast, _, _, s.pcmData, rfl, by simp⟩
    next =>
      obtain ⟨pc, heq, hpc⟩ := nextAudio_eq { s with
        pcmCount := s.pcmCount + s.len, pcmSize := s.pcmSize - s.len, errcode := errcode }
      exact ⟨pc, _, _, s.pcmData, heq, Or.inr ⟨hpc, rfl⟩⟩

/-- Where the loop that gets the results goes on, and what follows it. -/
theorem nextResult_eq (s : Sample) :
    ∃ pc tmp, nextResult rawtext s = { s with pc := pc, tmp := tmp } ∧
      (pc = .getResult ∧ s.rssStatus ≠ .complete ∨ pc ∈ [.openResult, .sessionEnd, .killed]) := by
  unfold nextResult
  split
  next h => exact ⟨.getResult, s.tmp, rfl, Or.inl ⟨rfl, h.1⟩⟩
  next =>
    split
    next => exact ⟨.sessionEnd, s.tmp, rfl, Or.inr (by simp)⟩
    next =>
      split
      next => exact ⟨.killed, s.tmp, rfl, Or.inr (by simp)⟩
      next tmp htmp => exact ⟨.openResult, some tmp, rfl, Or.inr (by simp)⟩

variable {rawtext}

theorem change_of_step {s t : Sample} {l : SampleLabel} (h : s.step rawtext l = some t) :
    Change rawtext s t l := by
  cases l with
  | login ret => exact .login ret (goOn_eq_some.mp h).1 (goOn_eq_some.mp h).2
  | openGrammar file =>
      obtain ⟨hpc, ht⟩ := goOn_eq_some.mp h
      refine .prepare _ _ file s.grmContent (record_of_event rfl (by simp)) (by simp [hpc]) ?_ ht
      split <;> decide
  | allocGrammar ok =>
      obtain ⟨hpc, ht⟩ := goOn_eq_some.mp h
      cases ok with
      | false =>
          exact .prepare _ .logout none s.grmContent (record_of_event rfl (by simp))
            (by simp [hpc]) (by decide) ht
      | true =>
          exact .prepare _ .buildGrammar none s.grmFile (record_of_event rfl (by simp))
            (by simp [hpc]) (by decide) ht
  | buildGrammar ret => exact .buildGrammar ret (goOn_eq_some.mp h).1 (goOn_eq_some.mp h).2
  | built b =>
      obtain ⟨⟨hasked, -⟩, ht⟩ := Option.ite_none_right_eq_some.mp h
      exact .thread _ (.buildFini b) s.asrData (record_of_event rfl (by simp)) hasked
        (Option.some.inj ht).symm
  | callback =>
      obtain ⟨hasked, ht⟩ := Option.ite_none_right_eq_some.mp h
      obtain ⟨callback, asrData, ht⟩ := stored_eq ht
      exact .thread _ callback asrData (record_of_event rfl (by simp)) hasked ht
  | waitGrammar =>
      obtain ⟨hpc, ht⟩ := goOn_eq_some.mp h
      refine .prepare _ _ s.grmFile s.grmContent (record_of_event rfl (by simp)) (by simp [hpc])
        ?_ ht
      split <;> decide
  | checkGrammar =>
      obtain ⟨hpc, ht⟩ := goOn_eq_some.mp h
      refine .prepare _ _ s.grmFile s.grmContent (record_of_event rfl (by simp)) (by simp [hpc])
        ?_ ht
      split <;> decide
  | openPcm file => exact .openPcm file (goOn_eq_some.mp h).1 (goOn_eq_some.mp h).2
  | allocPcm ok =>
      exact .allocPcm ok (record_of_event rfl (by simp)) (goOn_eq_some.mp h).1 (goOn_eq_some.mp h).2
  | sessionBegin session errcode =>
      exact .sessionBegin session errcode (goOn_eq_some.mp h).1 (goOn_eq_some.mp h).2
  | audioWrite errcode epStatus =>
      exact .audioWrite errcode epStatus (goOn_eq_some.mp h).1 (goOn_eq_some.mp h).2
  | audioLast errcode epStatus =>
      exact .audioLast errcode epStatus (goOn_eq_some.mp h).1 (goOn_eq_some.mp h).2
  | getResult result rssStatus errcode =>
      exact .getResult result rssStatus errcode (goOn_eq_some.mp h).1 (goOn_eq_some.mp h).2
  | openResult ok =>
      exact .openResult ok (record_of_event rfl (by simp)) (goOn_eq_some.mp h).1
        (goOn_eq_some.mp h).2
  | sessionEnd => exact .sessionEnd (goOn_eq_some.mp h).1 (goOn_eq_some.mp h).2
  | logout => exact .logout (goOn_eq_some.mp h).1 (goOn_eq_some.mp h).2

/-- A program that has ended is gone. -/
theorem step_of_ended {s : Sample} (hend : s.pc = .exited ∨ s.pc = .killed)
    (l : SampleLabel) : s.step rawtext l = none := by
  have hpc : s.pc ∈ [.login, .openGrammar, .allocGrammar, .exited, .killed] := by
    obtain hpc | hpc := hend <;> simp [hpc]
  cases l with
  | built b => exact if_neg fun h ↦ h.1 hpc
  | callback => exact if_neg fun h ↦ h hpc
  | _ => obtain hpc | hpc := hend <;> exact if_neg (by simp [hpc])

/-- A run on a short recording, in which the engine hears `text`. -/
def heard (recording text : Bytes) : List SampleLabel :=
  [.login 0, .openGrammar (some [35]), .allocGrammar true, .buildGrammar 0,
    .built ⟨0, some ⟨[99, 97, 108, 108], by decide⟩⟩, .callback, .callback, .callback,
    .waitGrammar, .checkGrammar, .openPcm (some recording), .allocPcm true,
    .sessionBegin (some 1) 0, .audioWrite 0 .inSpeech, .audioLast 0 .inSpeech,
    .getResult (some text) .complete 0, .openResult true, .sessionEnd, .logout]

def heardRun : Sample × Log :=
  (run (logged some) (start none, Log.empty) (heard [7, 8, 9] [65])).get (by decide +kernel)

theorem run_heard :
    run (logged some) (start none, Log.empty) (heard [7, 8, 9] [65]) = some heardRun :=
  (Option.some_get _).symm

end Sample

end EmbeddedSystem.Recognition
