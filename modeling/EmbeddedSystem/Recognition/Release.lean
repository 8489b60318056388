import EmbeddedSystem.Recognition.Audio

/-!
# What the recognition holds

On every path through `build_grammar` and `run_asr`, those on which something fails
included, the files are closed, the blocks freed and the session ended once before the
program ends.
-/

namespace EmbeddedSystem.Recognition

open Runs Voice

def Event.ends : Event → Option ℕ
  | .sessionEnd session => session
  | _ => none

namespace Sample

def Log.ended (log : Log) : List ℕ := log.calls.filterMap Event.ends

/-- Where `main` is while it holds each of its files and blocks. -/
structure Holds (s : Sample) : Prop where
  grmFile : s.grmFile.isSome → s.pc = .allocGrammar
  grmContent : s.grmContent.isSome → s.pc = .buildGrammar
  fPcm : s.fPcm.isSome → s.pc = .allocPcm
  pcmData : s.pcmData.isSome → s.pc ∈ [.sessionBegin, .audioWrite, .audioLast]

/-- The sessions begun and ended when `main` is at each of its points. -/
def Balanced (s : Sample) (log : Log) : Prop :=
  match s.pc with
  | .audioWrite | .audioLast | .getResult | .openResult | .sessionEnd =>
    log.sessions = s.sessionId.toList ∧ log.ended = []
  | .logout | .exited => log.ended = log.sessions ∧ log.sessions.length ≤ 1
  | .killed => True
  | _ => log.sessions = [] ∧ log.ended = [] ∧ s.sessionId = none

variable {rawtext : Bytes → Option Bytes} {s t : Sample} {log : Log}

theorem holds_step {l : SampleLabel} (h : s.Holds) (hstep : s.step rawtext l = some t) :
    t.Holds := by
  obtain ⟨hfile, hcontent, hpcm, hdata⟩ := h
  cases l with
  | login ret =>
      obtain ⟨hpc, rfl⟩ := goOn_eq_some.mp hstep
      constructor <;> simp_all [loggedIn]
  | openGrammar file =>
      obtain ⟨hpc, rfl⟩ := goOn_eq_some.mp hstep
      constructor <;> simp_all [grammarOpened]
  | allocGrammar ok =>
      obtain ⟨hpc, rfl⟩ := goOn_eq_some.mp hstep
      cases ok <;> constructor <;> simp_all [grammarRead]
  | buildGrammar ret =>
      obtain ⟨hpc, rfl⟩ := goOn_eq_some.mp hstep
      constructor <;> simp_all [grammarAsked]
  | built b =>
      obtain ⟨-, ht⟩ := Option.ite_none_right_eq_some.mp hstep
      cases ht
      exact ⟨hfile, hcontent, hpcm, hdata⟩
  | callback =>
      obtain ⟨-, ht⟩ := Option.ite_none_right_eq_some.mp hstep
      obtain ⟨callback, asrData, rfl⟩ := stored_eq ht
      exact ⟨hfile, hcontent, hpcm, hdata⟩
  | waitGrammar =>
      obtain ⟨hpc, rfl⟩ := goOn_eq_some.mp hstep
      constructor <;> simp_all [waited]
  | checkGrammar =>
      obtain ⟨hpc, rfl⟩ := goOn_eq_some.mp hstep
      constructor <;> simp_all [checked]
  | openPcm file =>
      obtain ⟨hpc, rfl⟩ := goOn_eq_some.mp hstep
      constructor <;> simp_all [pcmOpened]
  | allocPcm ok =>
      obtain ⟨hpc, rfl⟩ := goOn_eq_some.mp hstep
      cases ok <;> constructor <;> simp_all [pcmRead]
  | sessionBegin session errcode =>
      obtain ⟨hpc, rfl⟩ := goOn_eq_some.mp hstep
      obtain ⟨pc, pcmData, heq, hnext⟩ := begun_eq s session errcode
      rw [heq]
      obtain ⟨rfl, rfl⟩ | ⟨rfl | rfl, rfl⟩ := hnext <;> constructor <;> simp_all
  | audioWrite errcode epStatus =>
      obtain ⟨hpc, rfl⟩ := goOn_eq_some.mp hstep
      obtain ⟨pc, count, size, pcmData, heq, hnext⟩ := written_eq s errcode epStatus
      rw [heq]
      obtain ⟨rfl, rfl⟩ | ⟨rfl | rfl, rfl⟩ := hnext <;> constructor <;> simp_all
  | audioLast errcode epStatus =>
      obtain ⟨hpc, rfl⟩ := goOn_eq_some.mp hstep
      obtain ⟨pc, tmp, heq, hnext⟩ := nextResult_eq rawtext { s with pcmData := none }
      rw [closed, heq]
      constructor <;> simp_all
  | getResult result rssStatus errcode =>
      obtain ⟨hpc, rfl⟩ := goOn_eq_some.mp hstep
      obtain ⟨pc, tmp, heq, hnext⟩ := nextResult_eq rawtext
        { s with recRslt := result, rssStatus := rssStatus, errcode := errcode }
      rw [resultGot, heq]
      constructor <;> simp_all
  | openResult ok =>
      obtain ⟨hpc, rfl⟩ := goOn_eq_some.mp hstep
      cases ok <;> constructor <;> simp_all [resultOpened]
  | sessionEnd =>
      obtain ⟨hpc, rfl⟩ := goOn_eq_some.mp hstep
      constructor <;> simp_all
  | logout =>
      obtain ⟨hpc, rfl⟩ := goOn_eq_some.mp hstep
      constructor <;> simp_all

theorem ended_record {l : SampleLabel} (h : ∀ e ∈ s.event l, e.ends = none) :
    (s.record l log).ended = log.ended := by
  cases he : s.event l with
  | none => simp [Log.ended, record, he]
  | some e => simp [Log.ended, record, he, h e he]

/-- A call that neither begins nor ends a session, between two points that agree. -/
theorem balanced_quiet {l : SampleLabel} (hbegins : ∀ e ∈ s.event l, e.begins = none)
    (hends : ∀ e ∈ s.event l, e.ends = none) (h : Balanced t log) :
    Balanced t (s.record l log) := by
  have hsessions : (s.record l log).sessions = log.sessions := sessions_record hbegins
  have hended : (s.record l log).ended = log.ended := ended_record hends
  cases hpc : t.pc <;> simp only [Balanced, hpc, hsessions, hended] at h ⊢ <;> exact h

/-- Without a session so far. -/
theorem balanced_early (h : log.sessions = [] ∧ log.ended = [] ∧ s.sessionId = none)
    (hpc : s.pc ∉ [.audioWrite, .audioLast, .getResult, .openResult]) : Balanced s log := by
  obtain ⟨hsessions, hended, hid⟩ := h
  cases hs : s.pc <;> simp only [hs, List.mem_cons, List.not_mem_nil, or_false, not_or] at hpc
  case audioWrite | audioLast | getResult | openResult => simp at hpc
  all_goals simp [Balanced, hs, hsessions, hended, hid]

/-- With a session, or with the attempt at one. -/
theorem balanced_session (h : log.sessions = s.sessionId.toList ∧ log.ended = [])
    (hpc : s.pc ∈ [.audioWrite, .audioLast, .getResult, .openResult, .sessionEnd, .killed]) :
    Balanced s log := by
  simp only [List.mem_cons, List.not_mem_nil, or_false] at hpc
  obtain hpc | hpc | hpc | hpc | hpc | hpc := hpc <;> rw [Balanced, hpc]
  all_goals first | exact h | trivial

theorem balanced_step {l : SampleLabel} (h : Balanced s log) (hchange : Change rawtext s t l) :
    Balanced t (s.record l log) := by
  cases hchange with
  | login ret hpc ht =>
      rw [Balanced, hpc] at h
      subst ht
      refine balanced_quiet (by simp [event, Event.begins]) (by simp [event, Event.ends])
        (balanced_early h ?_)
      simp only [loggedIn]
      split <;> simp
  | prepare l pc grmFile grmContent hlog hpc hnext ht =>
      have hearly : log.sessions = [] ∧ log.ended = [] ∧ s.sessionId = none := by
        simp only [List.mem_cons, List.not_mem_nil, or_false] at hpc
        obtain hpc | hpc | hpc | hpc := hpc <;> rw [Balanced, hpc] at h <;> exact h
      subst ht
      rw [hlog]
      refine balanced_early hearly ?_
      simp only [List.mem_cons, List.not_mem_nil, or_false] at hnext
      obtain rfl | rfl | rfl | rfl | rfl | rfl := hnext <;> simp
  | buildGrammar ret hpc ht =>
      rw [Balanced, hpc] at h
      subst ht
      refine balanced_quiet (by simp [event, Event.begins]) (by simp [event, Event.ends])
        (balanced_early h ?_)
      simp only [grammarAsked]
      split <;> simp
  | thread l callback asrData hlog hasked ht =>
      rw [hlog, ht]
      exact h
  | openPcm file hpc ht =>
      rw [Balanced, hpc] at h
      subst ht
      refine balanced_quiet (by simp [event]) (by simp [event]) (balanced_early h ?_)
      simp only [pcmOpened]
      split <;> simp
  | allocPcm ok hlog hpc ht =>
      rw [Balanced, hpc] at h
      subst ht
      rw [hlog]
      cases ok <;> exact balanced_early h (by simp [pcmRead])
  | sessionBegin session errcode hpc ht =>
      rw [Balanced, hpc] at h
      obtain ⟨hsessions, hended, -⟩ := h
      obtain ⟨pc, pcmData, heq, hnext⟩ := begun_eq s session errcode
      have hsessions' : (s.record (.sessionBegin session errcode) log).sessions =
          session.toList := by
        have hcalls : (s.record (.sessionBegin session errcode) log).calls =
            log.calls ++ [.sessionBegin (asrParams s.asrData.grammarId) session] := rfl
        rw [Log.sessions, hcalls, List.filterMap_append, ← Log.sessions, hsessions]
        cases session <;> rfl
      have hended' : (s.record (.sessionBegin session errcode) log).ended = [] := by
        rw [ended_record (by simp [event, Event.ends]), hended]
      rw [ht, heq]
      refine balanced_session ⟨hsessions', hended'⟩ ?_
      obtain ⟨rfl, -⟩ | ⟨rfl | rfl, -⟩ := hnext <;> simp
  | audioWrite errcode epStatus hpc ht =>
      rw [Balanced, hpc] at h
      obtain ⟨pc, count, size, pcmData, heq, hnext⟩ := written_eq s errcode epStatus
      rw [ht, heq]
      refine balanced_quiet (by simp [event, Event.begins]) (by simp [event, Event.ends])
        (balanced_session h ?_)
      obtain ⟨rfl, -⟩ | ⟨rfl | rfl, -⟩ := hnext <;> simp
  | audioLast errcode epStatus hpc ht =>
      rw [Balanced, hpc] at h
      obtain ⟨pc, tmp, heq, hnext⟩ := nextResult_eq rawtext { s with pcmData := none }
      rw [ht, closed, heq]
      refine balanced_quiet (by simp [event, Event.begins]) (by simp [event, Event.ends])
        (balanced_session h ?_)
      simp only [List.mem_cons, List.not_mem_nil, or_false] at hnext
      obtain ⟨rfl, -⟩ | rfl | rfl | rfl := hnext <;> simp
  | getResult result rssStatus errcode hpc ht =>
      rw [Balanced, hpc] at h
      obtain ⟨pc, tmp, heq, hnext⟩ := nextResult_eq rawtext
        { s with recRslt := result, rssStatus := rssStatus, errcode := errcode }
      rw [ht, resultGot, heq]
      refine balanced_quiet (by simp [event, Event.begins]) (by simp [event, Event.ends])
        (balanced_session h ?_)
      simp only [List.mem_cons, List.not_mem_nil, or_false] at hnext
      obtain ⟨rfl, -⟩ | rfl | rfl | rfl := hnext <;> simp
  | openResult ok hlog hpc ht =>
      rw [Balanced, hpc] at h
      subst ht
      rw [hlog]
      cases ok <;> exact balanced_session h (by simp [resultOpened])
  | sessionEnd hpc ht =>
      rw [Balanced, hpc] at h
      obtain ⟨hsessions, hended⟩ := h
      have hsessions' : (s.record .sessionEnd log).sessions = s.sessionId.toList := by
        rw [sessions_record (by simp [event, Event.begins]), hsessions]
      have hended' : (s.record .sessionEnd log).ended = s.sessionId.toList := by
        have hcalls : (s.record .sessionEnd log).calls =
            log.calls ++ [.sessionEnd s.sessionId] := rfl
        rw [Log.ended, hcalls, List.filterMap_append, ← Log.ended, hended]
        cases s.sessionId <;> rfl
      subst ht
      refine ⟨hended'.trans hsessions'.symm, ?_⟩
      rw [hsessions']
      cases s.sessionId <;> simp
  | logout hpc ht =>
      rw [Balanced, hpc] at h
      subst ht
      exact balanced_quiet (by simp [event, Event.begins]) (by simp [event, Event.ends]) h

/-- Whatever the engine answers and whatever fails, a run that ends has closed its files, freed
its blocks, and ended its session once if it began one. -/
theorem exit_releases {r : Option Recognised} {ls : List SampleLabel}
    (hrun : run (logged rawtext) (start r, Log.empty) ls = some (t, log))
    (hexited : t.pc = .exited) :
    (t.grmFile = none ∧ t.grmContent = none ∧ t.fPcm = none ∧ t.pcmData = none) ∧
      log.ended = log.sessions ∧ log.sessions.length ≤ 1 := by
  have hholds : t.Holds :=
    invariant (fun _ _ _ ↦ holds_step) (by constructor <;> simp [start]) (run_of_withHistory hrun)
  have hstep : ∀ (p : Sample × Log) (l : SampleLabel) (q : Sample × Log), Balanced p.1 p.2 →
      logged rawtext p l = some q → Balanced q.1 q.2 := by
    intro p l q hp hq
    obtain ⟨hq, hlog⟩ := withHistory_eq_some.mp hq
    exact hlog ▸ balanced_step hp (change_of_step hq)
  have hstart : Balanced (start r, Log.empty).1 (start r, Log.empty).2 := ⟨rfl, rfl, rfl⟩
  have hbalanced : Balanced (t, log).1 (t, log).2 := invariant hstep hstart hrun
  rw [Balanced, hexited] at hbalanced
  obtain ⟨hfile, hcontent, hpcm, hdata⟩ := hholds
  rw [hexited] at hfile hcontent hpcm hdata
  exact ⟨⟨by simpa using hfile, by simpa using hcontent, by simpa using hpcm,
    by simpa using hdata⟩, hbalanced⟩

theorem heard_releases : heardRun.2.ended = heardRun.2.sessions ∧ heardRun.2.sessions.length ≤ 1 :=
  (exit_releases run_heard (by decide +kernel)).2

end Sample

end EmbeddedSystem.Recognition
