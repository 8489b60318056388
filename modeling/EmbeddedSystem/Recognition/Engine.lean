import EmbeddedSystem.Foundation.Runs
import EmbeddedSystem.Voice.Text

/-!
# The recogniser's library

The calls that the programs make of the recogniser, each with what it was given and what
it answered, and the order of calls that its manual asks for: `MSPLogin` before all others
and `MSPLogout` after them, one session at a time, audio that opens with a first block and
closes with a last one, no more audio once the end of speech is reported, results until
they are complete, and each session that was begun ended once and not used after that.
-/

namespace EmbeddedSystem.Recognition

open Runs Voice

/-- `MSP_AUDIO_SAMPLE_FIRST`, `_CONTINUE` and `_LAST` -/
inductive AudioStatus
  | sampleFirst
  | sampleContinue
  | sampleLast
  deriving DecidableEq, Repr

/-- `MSP_EP_LOOKING_FOR_SPEECH` and so on -/
inductive EpStatus
  | lookingForSpeech
  | inSpeech
  | afterSpeech
  | timeout
  | error
  | maxSpeech
  | idle
  deriving DecidableEq, Repr

/-- `MSP_REC_STATUS_SUCCESS` and so on -/
inductive RecStatus
  | success
  | noMatch
  | incomplete
  | nonSpeechDetected
  | speechDetected
  | complete
  | maxCpuTime
  | maxSpeech
  | stopped
  | rejected
  | noSpeechFound
  deriving DecidableEq, Repr

/-- A call and its answer.  A session is known by the string that the engine gave for it;
the programs pass `NULL` where they have none. -/
inductive Event
  | login (ret : ℤ)
  | buildGrammar (content params : Bytes) (ret : ℤ)
  | sessionBegin (params : Bytes) (session : Option ℕ)
  | audioWrite (session : Option ℕ) (samples : Bytes) (status : AudioStatus) (errcode : ℤ)
      (epStatus : EpStatus)
  | getResult (session : Option ℕ) (result : Option Bytes) (rsltStatus : RecStatus)
      (errcode : ℤ)
  | sessionEnd (session : Option ℕ)
  | logout
  deriving DecidableEq, Repr

/-- The block of a call, and how it is marked. -/
def Event.write : Event → Option (Bytes × AudioStatus)
  | .audioWrite _ samples status _ _ => some (samples, status)
  | _ => none

def Event.begins : Event → Option ℕ
  | .sessionBegin _ session => session
  | _ => none

/-! ## The manual -/

/-- How far a session is: with no audio yet, in its audio, told of the end of speech, after
its last block, and with all its results. -/
inductive Phase
  | begun
  | listening
  | spoken
  | closed
  | done
  deriving DecidableEq, Repr

/-- What a block does to a session, if it is in order. -/
def Phase.write (p : Phase) (status : AudioStatus) (epStatus : EpStatus) : Option Phase :=
  match p, status with
  | .begun, .sampleFirst | .listening, .sampleContinue =>
    some (if epStatus = .afterSpeech then .spoken else .listening)
  | .listening, .sampleLast | .spoken, .sampleLast => some .closed
  | _, _ => none

def Phase.result (p : Phase) (rsltStatus : RecStatus) : Option Phase :=
  match p with
  | .begun | .done => none
  | p => some (if rsltStatus = .complete then .done else p)

structure Engine where
  loggedIn : Bool
  session : Option (ℕ × Phase)
  deriving DecidableEq, Repr

namespace Engine

def fresh : Engine := ⟨false, none⟩

/-- A call that fails leaves the session as far as it is. -/
def advance (e : Engine) (session : Option ℕ) (next : Phase → Option Phase) (errcode : ℤ) :
    Option Engine :=
  match e.session with
  | some (id, p) =>
    if session = some id then
      (next p).map fun q ↦ { e with session := some (id, if errcode = 0 then q else p) }
    else none
  | none => none

/-- The state after a call, if the manual allows the call. -/
def obey (e : Engine) : Event → Option Engine
  | .login ret => if e.loggedIn then none else some { e with loggedIn := ret = 0 }
  | .buildGrammar _ _ _ => if e.loggedIn then some e else none
  | .sessionBegin _ session =>
    if e.loggedIn ∧ e.session = none then
      some { e with session := session.map fun id ↦ (id, .begun) }
    else none
  | .audioWrite session _ status errcode epStatus =>
    e.advance session (fun p ↦ p.write status epStatus) errcode
  | .getResult session _ rsltStatus errcode =>
    e.advance session (fun p ↦ p.result rsltStatus) errcode
  | .sessionEnd session =>
    if session.isSome ∧ e.session.map Prod.fst = session then some { e with session := none }
    else none
  | .logout =>
    if e.loggedIn ∧ e.session = none then some { e with loggedIn := false } else none

/-- The calls are in the order that the manual asks for. -/
def Obeyed (log : List Event) : Prop := (run obey fresh log).isSome

instance (log : List Event) : Decidable (Obeyed log) := inferInstanceAs (Decidable (_ = true))

theorem advance_eq {e : Engine} {id : ℕ} {p q : Phase} {next : Phase → Option Phase}
    (hsession : e.session = some (id, p)) (hnext : next p = some q) (errcode : ℤ) :
    e.advance (some id) next errcode =
      some { e with session := some (id, if errcode = 0 then q else p) } := by
  simp [advance, hsession, hnext]

theorem advance_eq_some {e f : Engine} {session : Option ℕ} {next : Phase → Option Phase}
    {errcode : ℤ} : e.advance session next errcode = some f ↔
      ∃ id p q, e.session = some (id, p) ∧ session = some id ∧ next p = some q ∧
        f = { e with session := some (id, if errcode = 0 then q else p) } := by
  obtain ⟨loggedIn, held⟩ := e
  cases held with
  | none => simp [advance]
  | some held =>
      obtain ⟨id, p⟩ := held
      simp only [advance, Option.ite_none_right_eq_some, Option.map_eq_some_iff]
      constructor
      · rintro ⟨hid, q, hq, hf⟩
        exact ⟨id, p, q, rfl, hid, hq, hf.symm⟩
      · rintro ⟨_, _, q, ⟨rfl, rfl⟩, hid, hq, hf⟩
        exact ⟨hid, q, hq, hf.symm⟩

/-- A session has no audio yet. -/
def Silent (e : Engine) : Prop := ∀ id p, e.session = some (id, p) → p = .begun

/-- Only a first block ends the silence. -/
theorem silent_of_obey {e f : Engine} {call : Event} (he : e.Silent) (h : e.obey call = some f) :
    (call.write = none ∧ f.Silent) ∨ ∃ samples, call.write = some (samples, .sampleFirst) := by
  cases call with
  | login ret =>
      obtain ⟨-, hf⟩ := Option.ite_none_left_eq_some.mp h
      exact Or.inl ⟨rfl, Option.some.inj hf ▸ he⟩
  | buildGrammar content params ret =>
      obtain ⟨-, hf⟩ := Option.ite_none_right_eq_some.mp h
      exact Or.inl ⟨rfl, Option.some.inj hf ▸ he⟩
  | sessionBegin params session =>
      obtain ⟨-, hf⟩ := Option.ite_none_right_eq_some.mp h
      refine Or.inl ⟨rfl, ?_⟩
      rintro id p hid
      cases session with
      | none => simp [← Option.some.inj hf] at hid
      | some id' =>
          simp only [← Option.some.inj hf, Option.map_some, Option.some.injEq] at hid
          exact (Prod.mk.inj hid).2.symm
  | audioWrite session samples status errcode epStatus =>
      obtain ⟨id, p, q, hsession, -, hnext, -⟩ := advance_eq_some.mp h
      rw [he id p hsession] at hnext
      cases status with
      | sampleFirst => exact Or.inr ⟨samples, rfl⟩
      | sampleContinue => cases hnext
      | sampleLast => cases hnext
  | getResult session result rsltStatus errcode =>
      obtain ⟨id, p, q, hsession, -, hnext, -⟩ := advance_eq_some.mp h
      rw [he id p hsession] at hnext
      cases hnext
  | sessionEnd session =>
      obtain ⟨-, hf⟩ := Option.ite_none_right_eq_some.mp h
      exact Or.inl ⟨rfl, by simp [← Option.some.inj hf, Silent]⟩
  | logout =>
      obtain ⟨-, hf⟩ := Option.ite_none_right_eq_some.mp h
      exact Or.inl ⟨rfl, Option.some.inj hf ▸ he⟩

/-- An obedient program opens its audio with a first block. -/
theorem first_of_obeyed {e : Engine} (he : e.Silent) {log : List Event}
    (hrun : (run obey e log).isSome) {samples : Bytes} {status : AudioStatus}
    (hhead : (log.filterMap Event.write).head? = some (samples, status)) :
    status = .sampleFirst := by
  induction log generalizing e with
  | nil => simp at hhead
  | cons call log ih =>
      cases h : e.obey call with
      | none => simp [h] at hrun
      | some f =>
          rcases silent_of_obey he h with ⟨hwrite, hf⟩ | ⟨samples', hwrite⟩
          · rw [List.filterMap_cons_none hwrite] at hhead
            exact ih hf (by simpa [h] using hrun) hhead
          · simp only [List.filterMap_cons_some hwrite, List.head?_cons, Option.some.injEq] at hhead
            exact (Prod.mk.inj hhead).2.symm

/-- Each call of an obedient program is allowed where it is made. -/
theorem exists_obey_of_mem {e : Engine} {log : List Event} (hrun : (run obey e log).isSome)
    {call : Event} (hcall : call ∈ log) : ∃ f : Engine, (f.obey call).isSome := by
  induction log generalizing e with
  | nil => cases hcall
  | cons first log ih =>
      cases h : e.obey first with
      | none => simp [h] at hrun
      | some f =>
          obtain rfl | hrest := List.mem_cons.mp hcall
          · exact ⟨e, by rw [h]; rfl⟩
          · exact ih (by simpa [h] using hrun) hrest

end Engine

end EmbeddedSystem.Recognition
