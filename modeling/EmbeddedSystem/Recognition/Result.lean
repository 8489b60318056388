import EmbeddedSystem.Recognition.AsrSample

/-!
# The text in `result.txt`

Only the last result that the engine gives counts, also when it is `NULL` and an earlier
one was not.  Without a text in it the file stays as it was, so for the server a run of
`asr_sample` is one step that leaves a new text there or none.
-/

namespace EmbeddedSystem.Recognition

open Runs Voice

/-- The result that a call gave, which may be `NULL`. -/
def Event.result : Event → Option (Option Bytes)
  | .getResult _ result _ _ => some result
  | _ => none

namespace Sample

def Log.lastResult (log : Log) : Option Bytes := (log.calls.filterMap Event.result).getLast?.join

/-- The text of the last result, if it has one that fits. -/
def Log.understood (rawtext : Bytes → Option Bytes) (log : Log) : Option Recognised :=
  (log.lastResult.bind rawtext).bind copied

variable {rawtext : Bytes → Option Bytes} {r : Option Recognised} {s t : Sample} {log : Log}

theorem lastResult_record {l : SampleLabel} (h : ∀ e ∈ s.event l, e.result = none) :
    (s.record l log).lastResult = log.lastResult := by
  cases he : s.event l with
  | none => simp [Log.lastResult, record, he]
  | some e => simp [Log.lastResult, record, he, h e he]

theorem lastResult_getResult (s : Sample) (result : Option Bytes) (rssStatus : RecStatus)
    (errcode : ℤ) (log : Log) :
    (s.record (.getResult result rssStatus errcode) log).lastResult = result := by
  simp [Log.lastResult, record, event, Event.result]

/-- What `main` knows of the result and what is in the file, at each of its points. -/
def Resulting (rawtext : Bytes → Option Bytes) (r : Option Recognised) (s : Sample) (log : Log) :
    Prop :=
  s.recRslt = log.lastResult ∧
    match s.pc with
    | .getResult => s.resultTxt = r
    | .openResult =>
      s.resultTxt = r ∧ s.tmp = log.understood rawtext ∧ (log.understood rawtext).isSome
    | .sessionEnd | .logout | .exited =>
      s.resultTxt = (log.understood rawtext <|> r) ∧
        (log.lastResult.isSome → (log.understood rawtext).isSome)
    | .killed => s.resultTxt = r ∧ log.lastResult.isSome
    | _ => s.resultTxt = r ∧ s.recRslt = none

/-- Before the results, or after a run that did not come to them. -/
theorem resulting_early (hresult : s.recRslt = log.lastResult) (hfile : s.resultTxt = r)
    (hnone : s.recRslt = none) (hpc : s.pc ∉ [.getResult, .openResult, .killed]) :
    Resulting rawtext r s log := by
  have hlast : log.lastResult = none := hresult ▸ hnone
  have hunderstood : log.understood rawtext = none := by simp [Log.understood, hlast]
  refine ⟨hresult, ?_⟩
  have hended : s.resultTxt = (log.understood rawtext <|> r) ∧
      (log.lastResult.isSome → (log.understood rawtext).isSome) := by
    simp [hunderstood, hlast, hfile]
  cases h : s.pc <;> simp only [h, List.mem_cons, List.not_mem_nil, or_false, not_or] at hpc ⊢
  case sessionEnd | logout | exited => exact hended
  case getResult | openResult | killed => simp at hpc
  all_goals exact ⟨hfile, hnone⟩

theorem resulting_nextResult (hresult : s.recRslt = log.lastResult) (hfile : s.resultTxt = r) :
    Resulting rawtext r (nextResult rawtext s) log := by
  unfold nextResult
  split
  · exact ⟨hresult, hfile⟩
  · split
    next hrslt => exact resulting_early hresult hfile hrslt (by simp)
    next recRslt hrslt =>
      have hlast : log.lastResult = some recRslt := hresult ▸ hrslt
      have hunderstood : log.understood rawtext = (rawtext recRslt).bind copied := by
        rw [Log.understood, hlast, Option.bind_some]
      split
      next => exact ⟨hresult, hfile, by rw [hlast, Option.isSome_some]⟩
      next tmp htmp =>
        have hsome : log.understood rawtext = some tmp := hunderstood.trans htmp
        exact ⟨hresult, hfile, hsome.symm, by rw [hsome, Option.isSome_some]⟩

/-- The points before the results. -/
theorem Resulting.early (h : Resulting rawtext r s log)
    (hpc : s.pc ∉ [.getResult, .openResult, .sessionEnd, .logout, .exited, .killed]) :
    s.resultTxt = r ∧ s.recRslt = none := by
  obtain ⟨-, h⟩ := h
  cases hs : s.pc <;> simp only [hs, List.mem_cons, List.not_mem_nil, or_false, not_or] at h hpc
  case getResult | openResult | sessionEnd | logout | exited | killed => simp at hpc
  all_goals exact h

theorem resulting_record_early {l : SampleLabel} (h : Resulting rawtext r s log)
    (hs : s.pc ∉ [.getResult, .openResult, .sessionEnd, .logout, .exited, .killed])
    (hevent : ∀ e ∈ s.event l, e.result = none) (hrslt : t.recRslt = s.recRslt)
    (hfile : t.resultTxt = s.resultTxt) (hpc : t.pc ∉ [.getResult, .openResult, .killed]) :
    Resulting rawtext r t (s.record l log) := by
  obtain ⟨hold, hnone⟩ := h.early hs
  have hresult : t.recRslt = (s.record l log).lastResult := by
    rw [lastResult_record hevent, hrslt, h.1]
  exact resulting_early hresult (hfile.trans hold) (hrslt.trans hnone) hpc

theorem nextAudio_pc (s : Sample) : s.nextAudio.pc ∉ [.getResult, .openResult, .killed] := by
  simp only [nextAudio]
  split <;> decide

theorem resulting_ended {l : SampleLabel} (hresult : t.recRslt = log.lastResult)
    (h : t.resultTxt = (log.understood rawtext <|> r) ∧
      (log.lastResult.isSome → (log.understood rawtext).isSome))
    (hpc : t.pc = .logout ∨ t.pc = .exited) (hevent : ∀ e ∈ s.event l, e.result = none) :
    Resulting rawtext r t (s.record l log) := by
  rw [Resulting, lastResult_record hevent, Log.understood, lastResult_record hevent]
  refine ⟨hresult, ?_⟩
  obtain hpc | hpc := hpc <;> rw [hpc] <;> exact h

theorem resulting_step {l : SampleLabel} (h : Resulting rawtext r s log)
    (hchange : Change rawtext s t l) : Resulting rawtext r t (s.record l log) := by
  cases hchange with
  | login ret hpc ht =>
      subst ht
      refine resulting_record_early h (by simp [hpc]) (by simp [event, Event.result]) rfl rfl ?_
      simp only [loggedIn]
      split <;> decide
  | prepare l pc grmFile grmContent hlog hpc hnext ht =>
      have hs : s.pc ∉ [.getResult, .openResult, .sessionEnd, .logout, .exited, .killed] := by
        simp only [List.mem_cons, List.not_mem_nil, or_false] at hpc
        obtain hpc | hpc | hpc | hpc := hpc <;> simp [hpc]
      obtain ⟨hold, hnone⟩ := h.early hs
      subst ht
      rw [hlog]
      refine resulting_early h.1 hold hnone ?_
      simp only [List.mem_cons, List.not_mem_nil, or_false] at hnext
      obtain rfl | rfl | rfl | rfl | rfl | rfl := hnext <;> simp
  | buildGrammar ret hpc ht =>
      subst ht
      refine resulting_record_early h (by simp [hpc]) (by simp [event, Event.result]) rfl rfl ?_
      simp only [grammarAsked]
      split <;> decide
  | thread l callback asrData hlog hasked ht =>
      rw [hlog, ht]
      exact h
  | openPcm file hpc ht =>
      subst ht
      refine resulting_record_early h (by simp [hpc]) (by simp [event]) rfl rfl ?_
      simp only [pcmOpened]
      split <;> decide
  | allocPcm ok hlog hpc ht =>
      subst ht
      cases ok <;>
        exact resulting_record_early h (by simp [hpc]) (by simp [event]) rfl rfl (by simp [pcmRead])
  | sessionBegin session errcode hpc ht =>
      subst ht
      have hevent : ∀ e ∈ s.event (.sessionBegin session errcode), e.result = none := by
        simp [event, Event.result]
      cases session with
      | none => exact resulting_record_early h (by simp [hpc]) hevent rfl rfl (by simp [begun])
      | some id => exact resulting_record_early h (by simp [hpc]) hevent rfl rfl (nextAudio_pc _)
  | audioWrite errcode epStatus hpc ht =>
      subst ht
      have hevent : ∀ e ∈ s.event (.audioWrite errcode epStatus), e.result = none := by
        simp [event, Event.result]
      refine resulting_record_early h (by simp [hpc]) hevent ?_ ?_ ?_ <;> simp only [written]
      · split
        next => rfl
        next => split <;> rfl
      · split
        next => rfl
        next => split <;> rfl
      · split
        next => simp
        next =>
          split
          next => simp
          next => exact nextAudio_pc _
  | audioLast errcode epStatus hpc ht =>
      obtain ⟨hold, -⟩ := h.early (by simp [hpc])
      subst ht
      refine resulting_nextResult ?_ hold
      rw [lastResult_record (by simp [event, Event.result])]
      exact h.1
  | getResult result rssStatus errcode hpc ht =>
      have hold := h.2
      rw [hpc] at hold
      subst ht
      exact resulting_nextResult (lastResult_getResult s result rssStatus errcode log).symm hold
  | openResult ok hlog hpc ht =>
      obtain ⟨hresult, hopen⟩ := h
      rw [hpc] at hopen
      obtain ⟨hold, htmp, hsome⟩ := hopen
      have hlast : log.lastResult.isSome := by
        cases hl : log.lastResult with
        | none => simp [Log.understood, hl] at hsome
        | some result => rfl
      obtain ⟨tmp, hunderstood⟩ := Option.isSome_iff_exists.mp hsome
      subst ht
      rw [hlog]
      cases ok with
      | false => exact ⟨hresult, hold, hlast⟩
      | true =>
          refine ⟨hresult, ?_, fun _ ↦ hsome⟩
          rw [hunderstood]
          exact htmp.trans hunderstood
  | sessionEnd hpc ht =>
      have hlate := h.2
      rw [hpc] at hlate
      subst ht
      exact resulting_ended h.1 hlate (Or.inl rfl) (by simp [event, Event.result])
  | logout hpc ht =>
      have hlate := h.2
      rw [hpc] at hlate
      subst ht
      exact resulting_ended h.1 hlate (Or.inr rfl) (by simp [event, Event.result])

theorem resulting_of_run {ls : List SampleLabel}
    (hrun : run (logged rawtext) (start r, Log.empty) ls = some (t, log)) :
    Resulting rawtext r t log := by
  have hstart : Resulting rawtext r (start r) Log.empty :=
    resulting_early rfl rfl rfl (by simp [start])
  have hstep : ∀ (p : Sample × Log) (l : SampleLabel) (q : Sample × Log),
      Resulting rawtext r p.1 p.2 → logged rawtext p l = some q → Resulting rawtext r q.1 q.2 := by
    intro p l q hp hq
    obtain ⟨hq, hlog⟩ := withHistory_eq_some.mp hq
    exact hlog ▸ resulting_step hp (change_of_step hq)
  have hinv : Resulting rawtext r (t, log).1 (t, log).2 := invariant hstep hstart hrun
  exact hinv

/-- What the run leaves for the server. -/
def outcome (rawtext : Bytes → Option Bytes) (s : Sample) (log : Log) : Option Recognised :=
  if s.pc = .exited then log.understood rawtext else none

theorem resultTxt_of_ended (h : Resulting rawtext r s log)
    (hend : s.pc = .exited ∨ s.pc = .killed) :
    s.resultTxt = (s.outcome rawtext log <|> r) := by
  obtain ⟨-, h⟩ := h
  rw [outcome]
  obtain hpc | hpc := hend <;> rw [hpc] at h ⊢
  · rw [if_pos rfl, h.1]
  · rw [if_neg (by decide), h.1]
    rfl

/-- So a program that has ended is one step of the server. -/
theorem server_step_of_ended {server : Server} (hserver : server.pc = .asrSample)
    (h : Resulting rawtext server.resultTxt s log) (hend : s.pc = .exited ∨ s.pc = .killed) :
    server.step (.asrSample (s.outcome rawtext log)) =
      some { server with pc := .readResult, resultTxt := s.resultTxt } := by
  rw [resultTxt_of_ended h hend]
  exact if_pos hserver

/-- Whatever the engine answers and whenever it calls back, a run that has ended is one step
of the server, with the text of the last result or without one: a run that got a result but
no text of it that fits has crashed. -/
theorem finished_run_is_server_step {server : Server} {ls : List SampleLabel}
    (hserver : server.pc = .asrSample)
    (hrun : run (logged rawtext) (start server.resultTxt, Log.empty) ls = some (t, log))
    (hend : t.pc = .exited ∨ t.pc = .killed) :
    server.step (.asrSample (t.outcome rawtext log)) =
        some { server with pc := .readResult, resultTxt := t.resultTxt } ∧
      (t.pc = .exited → log.lastResult.isSome → (log.understood rawtext).isSome) := by
  have h := resulting_of_run hrun
  refine ⟨server_step_of_ended hserver h hend, fun hpc ↦ ?_⟩
  obtain ⟨-, h⟩ := h
  rw [hpc] at h
  exact h.2

def listening : Server := { Server.started with pc := .asrSample }

def letterA : Recognised := ⟨[65], by decide, by decide⟩

theorem heard_is_server_step : listening.step (.asrSample (some letterA)) =
    some { listening with pc := .readResult, resultTxt := some letterA } := by
  have hrun : run (logged some) (start listening.resultTxt, Log.empty) (heard [7, 8, 9] [65]) =
      some (heardRun.1, heardRun.2) := run_heard
  have hpc : heardRun.1.pc = .exited := by decide +kernel
  have houtcome : heardRun.1.outcome some heardRun.2 = some letterA := by decide +kernel
  have hfile : heardRun.1.resultTxt = some letterA := by decide +kernel
  have hstep := (finished_run_is_server_step rfl hrun (Or.inl hpc)).1
  rwa [houtcome, hfile] at hstep

end Sample

end EmbeddedSystem.Recognition
