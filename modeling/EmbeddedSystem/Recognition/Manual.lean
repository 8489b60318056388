import EmbeddedSystem.Recognition.Audio

/-!
# The recognition keeps to the manual

The calls of `asr_sample` are in the order that the engine's manual asks for, whatever the
engine answers, with three exceptions: the last block of an empty recording is written where
the first one should be, `run_asr` ends a session also where it got none, and `main` logs
out also after a login that failed.
-/

namespace EmbeddedSystem.Recognition.Sample

open Runs Voice

variable {rawtext : Bytes → Option Bytes} {s t : Sample} {log : Log} {e : Engine}

/-- The last block of a recording without any audio has been written. -/
def Log.EmptyClosed (log : Log) : Prop :=
  log.recording = some [] ∧ ([], .sampleLast) ∈ log.writes

/-- A session was ended without one, or `main` logged out without being logged in. -/
def Log.Unpaired (log : Log) : Prop :=
  Event.sessionEnd none ∈ log.calls ∨ ∃ ret, ret ≠ 0 ∧ log.calls = [.login ret, .logout]

/-- `main` and the engine agree on the session and on how far it is. -/
def Holding (s : Sample) (e : Engine) (p : Phase) : Prop :=
  ∃ id, s.sessionId = some id ∧ e = ⟨true, some (id, p)⟩

/-- The state of the engine when `main` is at each of its points. -/
def Agrees (s : Sample) (log : Log) (e : Engine) : Prop :=
  match s.pc with
  | .login => (e = .fresh ∧ s.sessionId = none ∧ s.pcmCount = 0) ∧ log.calls = []
  | .openGrammar | .allocGrammar | .buildGrammar | .waitGrammar | .checkGrammar | .openPcm =>
    e = ⟨true, none⟩ ∧ s.sessionId = none ∧ s.pcmCount = 0
  | .allocPcm =>
    (e = ⟨true, none⟩ ∧ s.sessionId = none ∧ s.pcmCount = 0) ∧
      ∃ file, s.fPcm = some file ∧ log.recording = some file
  | .sessionBegin =>
    (e = ⟨true, none⟩ ∧ s.pcmCount = 0) ∧
      ∃ file, s.pcmSize = file.length ∧ log.recording = some file
  | .audioWrite => s.Holding e (if s.pcmCount = 0 then .begun else .listening) ∧ s.len ≠ 0
  | .audioLast =>
    s.Holding e .listening ∨ s.Holding e .spoken ∨ s.Holding e .begun ∧ log.recording = some []
  | .getResult => s.Holding e .listening ∨ s.Holding e .spoken ∨ s.Holding e .closed
  | .openResult | .sessionEnd => e.loggedIn ∧ e.session.map Prod.fst = s.sessionId
  | .logout => e.session = none ∧ (e.loggedIn ∨ ∃ ret, ret ≠ 0 ∧ log.calls = [.login ret])
  | .exited => e = .fresh
  | .killed => True

/-- `main` is behind its last block. -/
def After (s : Sample) : Prop :=
  s.pc ∈ [.getResult, .openResult, .sessionEnd, .logout, .exited, .killed]

/-- The manual has been left in one of the three ways. -/
def Astray (s : Sample) (log : Log) : Prop :=
  log.EmptyClosed ∧ s.After ∨ Event.sessionEnd none ∈ log.calls ∨
    s.pc = .exited ∧ ∃ ret, ret ≠ 0 ∧ log.calls = [.login ret, .logout]

/-- The engine has been obeyed so far, or the manual has been left. -/
def Obedient (s : Sample) (log : Log) : Prop :=
  (∃ e, run Engine.obey .fresh log.calls = some e ∧ s.Agrees log e) ∨ s.Astray log

theorem calls_record (s : Sample) (l : SampleLabel) (log : Log) :
    (s.record l log).calls = log.calls ++ (s.event l).toList := rfl

theorem run_record (h : run Engine.obey .fresh log.calls = some e) (s : Sample)
    (l : SampleLabel) :
    run Engine.obey .fresh (s.record l log).calls = run Engine.obey e (s.event l).toList := by
  rw [calls_record, run_append, h, Option.bind_some]

/-- A step without a call leaves the engine as it is. -/
theorem obedient_quiet {l : SampleLabel} (h : run Engine.obey .fresh log.calls = some e)
    (hevent : s.event l = none) (hagrees : t.Agrees (s.record l log) e) :
    t.Obedient (s.record l log) :=
  Or.inl ⟨e, by rw [run_record h, hevent, Option.toList_none, run_nil], hagrees⟩

theorem obedient_call {l : SampleLabel} {call : Event} {f : Engine}
    (h : run Engine.obey .fresh log.calls = some e) (hevent : s.event l = some call)
    (hobey : e.obey call = some f) (hagrees : t.Agrees (s.record l log) f) :
    t.Obedient (s.record l log) :=
  Or.inl ⟨f, by rw [run_record h, hevent, Option.toList_some, run_cons, hobey]; rfl, hagrees⟩

theorem holding_advance {p q : Phase} (h : s.Holding e p) (next : Phase → Option Phase)
    (hnext : next p = some q) (errcode : ℤ) :
    ∃ f, e.advance s.sessionId next errcode = some f ∧
      s.Holding f (if errcode = 0 then q else p) := by
  obtain ⟨id, hid, rfl⟩ := h
  exact ⟨_, hid ▸ Engine.advance_eq rfl hnext errcode, id, hid, rfl⟩

theorem Holding.session_eq {p : Phase} (h : s.Holding e p) :
    e.loggedIn ∧ e.session.map Prod.fst = s.sessionId := by
  obtain ⟨id, hid, rfl⟩ := h
  exact ⟨rfl, hid.symm⟩

theorem agrees_nextAudio {p : Phase} (h : s.Holding e p)
    (hwrite : s.len ≠ 0 → p = if s.pcmCount = 0 then .begun else .listening)
    (hlast : s.len = 0 → p = .listening ∨ p = .begun ∧ log.recording = some []) :
    s.nextAudio.Agrees log e := by
  by_cases hlen : s.len = 0
  · have hpc : s.nextAudio.pc = .audioLast := if_pos hlen
    rw [Agrees, hpc]
    obtain rfl | ⟨rfl, hempty⟩ := hlast hlen
    · exact Or.inl h
    · exact Or.inr (Or.inr ⟨h, hempty⟩)
  · have hpc : s.nextAudio.pc = .audioWrite := if_neg hlen
    rw [Agrees, hpc]
    exact ⟨hwrite hlen ▸ h, hlen⟩

theorem after_nextResult (s : Sample) : (nextResult rawtext s).After := by
  obtain ⟨pc, tmp, heq, hpc⟩ := nextResult_eq rawtext s
  simp only [List.mem_cons, List.not_mem_nil, or_false] at hpc
  obtain ⟨hpc, -⟩ | hpc | hpc | hpc := hpc <;> simp [After, heq, hpc]

theorem after_step {l : SampleLabel} (h : s.After) (hchange : Change rawtext s t l) : t.After := by
  cases hchange with
  | prepare l pc grmFile grmContent hlog hpc hnext ht =>
      simp only [After, List.mem_cons, List.not_mem_nil, or_false] at h hpc
      obtain hpc | hpc | hpc | hpc := hpc <;> simp [hpc] at h
  | thread l callback asrData hlog hasked ht => exact ht ▸ h
  | getResult result rssStatus errcode hpc ht => exact ht ▸ after_nextResult _
  | openResult ok hlog hpc ht => cases ok <;> simp [ht, resultOpened, After]
  | sessionEnd hpc ht => simp [ht, After]
  | logout hpc ht => simp [ht, After]
  | _ => simp_all [After]

theorem agrees_nextResult {p : Phase} (h : s.Holding e p)
    (hresult : s.rssStatus ≠ .complete → p = .listening ∨ p = .spoken ∨ p = .closed) :
    (nextResult rawtext s).Agrees log e := by
  obtain ⟨pc, tmp, heq, hpc⟩ := nextResult_eq rawtext s
  simp only [List.mem_cons, List.not_mem_nil, or_false] at hpc
  rw [heq]
  obtain ⟨rfl, hrss⟩ | rfl | rfl | rfl := hpc
  · obtain rfl | rfl | rfl := hresult hrss
    · exact Or.inl h
    · exact Or.inr (Or.inl h)
    · exact Or.inr (Or.inr h)
  · exact h.session_eq
  · exact h.session_eq
  · trivial

theorem recording_of_after {l : SampleLabel} (h : s.After) (hchange : Change rawtext s t l)
    (log : Log) : (s.record l log).recording = log.recording := by
  cases hchange with
  | openPcm file hpc ht => simp [After, hpc] at h
  | prepare l pc grmFile grmContent hlog hpc hnext ht => rw [hlog]
  | thread l callback asrData hlog hasked ht => rw [hlog]
  | _ => rfl

theorem agrees_early (hpc : s.pc ∈ [.openGrammar, .allocGrammar, .buildGrammar, .waitGrammar,
      .checkGrammar, .openPcm, .sessionEnd, .logout]) (hsession : s.sessionId = none)
    (hcount : s.pcmCount = 0) : s.Agrees log ⟨true, none⟩ := by
  simp only [List.mem_cons, List.not_mem_nil, or_false] at hpc
  obtain hpc | hpc | hpc | hpc | hpc | hpc | hpc | hpc := hpc <;> rw [Agrees, hpc]
  all_goals
    first
    | exact ⟨rfl, hsession, hcount⟩
    | exact ⟨rfl, hsession.symm⟩
    | exact ⟨rfl, Or.inl rfl⟩

theorem agrees_thread (h : s.Agrees log e) (callback : Callback) (asrData : UserData) :
    Agrees { s with callback := callback, asrData := asrData } log e := h

/-- There is no way back. -/
theorem astray_step {l : SampleLabel} (h : s.Astray log) (hstep : s.step rawtext l = some t) :
    t.Astray (s.record l log) := by
  have hchange := change_of_step hstep
  obtain ⟨⟨hrecording, hlast⟩, hafter⟩ | hend | ⟨hpc, -⟩ := h
  · refine Or.inl ⟨⟨?_, ?_⟩, after_step hafter hchange⟩
    · rw [recording_of_after hafter hchange log, hrecording]
    · rw [Log.writes, calls_record, List.filterMap_append]
      exact List.mem_append_left _ hlast
  · exact Or.inr (Or.inl (List.mem_append_left _ hend))
  · rw [step_of_ended (Or.inl hpc)] at hstep
    cases hstep

theorem obedient_step {l : SampleLabel} (h : s.Obedient log) (hstep : s.step rawtext l = some t) :
    t.Obedient (s.record l log) := by
  rcases h with ⟨e, hrun, hagrees⟩ | hastray
  · cases change_of_step hstep with
    | login ret hpc ht =>
        rw [Agrees, hpc] at hagrees
        obtain ⟨⟨rfl, hsession, hcount⟩, hcalls⟩ := hagrees
        subst ht
        by_cases hret : ret = 0
        · have hobey : Engine.fresh.obey (.login ret) = some ⟨true, none⟩ := by
            simp [Engine.obey, Engine.fresh, hret]
          exact obedient_call hrun rfl hobey
            (agrees_early (by simp [loggedIn, hret]) hsession hcount)
        · have hobey : Engine.fresh.obey (.login ret) = some ⟨false, none⟩ := by
            simp [Engine.obey, Engine.fresh, hret]
          have hpc' : (s.loggedIn ret).pc = .logout := if_neg hret
          refine obedient_call hrun rfl hobey ?_
          rw [Agrees, hpc']
          exact ⟨rfl, Or.inr ⟨ret, hret, by rw [calls_record, hcalls]; rfl⟩⟩
    | prepare l pc grmFile grmContent hlog hpc hnext ht =>
        obtain ⟨rfl, hsession, hcount⟩ :
            e = ⟨true, none⟩ ∧ s.sessionId = none ∧ s.pcmCount = 0 := by
          simp only [List.mem_cons, List.not_mem_nil, or_false] at hpc
          obtain hpc | hpc | hpc | hpc := hpc <;> rw [Agrees, hpc] at hagrees <;> exact hagrees
        subst ht
        rw [hlog]
        refine Or.inl ⟨_, hrun, agrees_early ?_ hsession hcount⟩
        simp only [List.mem_cons, List.not_mem_nil, or_false] at hnext ⊢
        tauto
    | buildGrammar ret hpc ht =>
        rw [Agrees, hpc] at hagrees
        obtain ⟨rfl, hsession, hcount⟩ := hagrees
        subst ht
        refine obedient_call hrun rfl rfl (agrees_early ?_ hsession hcount)
        simp only [grammarAsked]
        split <;> decide
    | thread l callback asrData hlog hasked ht =>
        subst ht
        rw [hlog]
        exact Or.inl ⟨e, hrun, agrees_thread hagrees callback asrData⟩
    | openPcm file hpc ht =>
        rw [Agrees, hpc] at hagrees
        obtain ⟨rfl, hsession, hcount⟩ := hagrees
        subst ht
        refine obedient_quiet hrun rfl ?_
        cases file with
        | none => exact agrees_early (by simp [pcmOpened]) hsession hcount
        | some file => exact ⟨⟨rfl, hsession, hcount⟩, file, rfl, rfl⟩
    | allocPcm ok hlog hpc ht =>
        rw [Agrees, hpc] at hagrees
        obtain ⟨⟨rfl, hsession, hcount⟩, file, hfile, hrecording⟩ := hagrees
        subst ht
        refine obedient_quiet hrun rfl ?_
        cases ok with
        | false => exact agrees_early (by simp [pcmRead]) hsession hcount
        | true => exact ⟨⟨rfl, hcount⟩, file, by simp [pcmRead, hfile], hrecording⟩
    | sessionBegin session errcode hpc ht =>
        rw [Agrees, hpc] at hagrees
        obtain ⟨⟨rfl, hcount⟩, file, hsize, hrecording⟩ := hagrees
        subst ht
        refine obedient_call hrun rfl rfl ?_
        cases session with
        | none => exact ⟨rfl, rfl⟩
        | some id =>
            refine agrees_nextAudio (p := .begun) ⟨id, rfl, rfl⟩ (fun _ ↦ by simp [hcount]) ?_
            intro hlen
            have hzero : s.pcmSize = 0 := (len_eq_zero_iff s).mp hlen
            have hempty : file = [] := List.length_eq_zero_iff.mp (hsize ▸ hzero)
            exact Or.inr ⟨rfl, hempty ▸ hrecording⟩
    | audioWrite errcode epStatus hpc ht =>
        rw [Agrees, hpc] at hagrees
        obtain ⟨hholding, hlen⟩ := hagrees
        subst ht
        have hnext : (if s.pcmCount = 0 then Phase.begun else .listening).write s.audStat epStatus =
            some (if epStatus = .afterSpeech then .spoken else .listening) := by
          rw [audStat]
          split <;> rfl
        obtain ⟨f, hobey, hf⟩ := holding_advance hholding (fun p ↦ p.write s.audStat epStatus)
          hnext errcode
        refine obedient_call hrun rfl hobey ?_
        by_cases herr : errcode = 0
        · rw [if_pos herr] at hf
          by_cases hep : epStatus = .afterSpeech
          · rw [if_pos hep] at hf
            rw [written, if_neg (not_not.mpr herr), if_pos hep]
            exact Or.inr (Or.inl hf)
          · rw [if_neg hep] at hf
            rw [written, if_neg (not_not.mpr herr), if_neg hep]
            exact agrees_nextAudio hf (fun _ ↦ by simp [hlen]) fun _ ↦ Or.inl rfl
        · rw [written, if_pos herr]
          exact hf.session_eq
    | audioLast errcode epStatus hpc ht =>
        rw [Agrees, hpc] at hagrees
        subst ht
        have hclosed : ∀ p, s.Holding e p → p = .listening ∨ p = .spoken →
            Obedient (s.closed rawtext) (s.record (.audioLast errcode epStatus) log) := by
          intro p hholding hp
          have hnext : p.write .sampleLast epStatus = some .closed := by
            obtain rfl | rfl := hp <;> rfl
          obtain ⟨f, hobey, hf⟩ := holding_advance hholding
            (fun p ↦ p.write .sampleLast epStatus) hnext errcode
          refine obedient_call hrun rfl hobey (agrees_nextResult hf fun _ ↦ ?_)
          split
          · exact Or.inr (Or.inr rfl)
          · exact hp.imp id Or.inl
        obtain hholding | hholding | ⟨-, hempty⟩ := hagrees
        · exact hclosed _ hholding (Or.inl rfl)
        · exact hclosed _ hholding (Or.inr rfl)
        · refine Or.inr (Or.inl ⟨⟨hempty, ?_⟩, after_nextResult _⟩)
          simp [Log.writes, record, event, Event.write]
    | getResult result rssStatus errcode hpc ht =>
        rw [Agrees, hpc] at hagrees
        subst ht
        obtain ⟨p, hholding, hp⟩ :
            ∃ p, s.Holding e p ∧ (p = .listening ∨ p = .spoken ∨ p = .closed) := by
          obtain h | h | h := hagrees
          · exact ⟨_, h, Or.inl rfl⟩
          · exact ⟨_, h, Or.inr (Or.inl rfl)⟩
          · exact ⟨_, h, Or.inr (Or.inr rfl)⟩
        have hnext : p.result rssStatus = some (if rssStatus = .complete then .done else p) := by
          obtain rfl | rfl | rfl := hp <;> rfl
        obtain ⟨f, hobey, hf⟩ := holding_advance hholding (fun p ↦ p.result rssStatus) hnext errcode
        refine obedient_call hrun rfl hobey (agrees_nextResult hf fun hrss ↦ ?_)
        rw [if_neg hrss, ite_self]
        exact hp
    | openResult ok hlog hpc ht =>
        rw [Agrees, hpc] at hagrees
        subst ht
        refine obedient_quiet hrun rfl ?_
        cases ok with
        | false => trivial
        | true => exact hagrees
    | sessionEnd hpc ht =>
        rw [Agrees, hpc] at hagrees
        subst ht
        obtain ⟨hlogged, hsession⟩ := hagrees
        cases hid : s.sessionId with
        | none =>
            refine Or.inr (Or.inr (Or.inl ?_))
            simp [calls_record, event, hid]
        | some id =>
            have hcall : s.event .sessionEnd = some (.sessionEnd (some id)) := by simp [event, hid]
            exact obedient_call hrun hcall (if_pos ⟨rfl, hsession.trans hid⟩)
              ⟨rfl, Or.inl hlogged⟩
    | logout hpc ht =>
        rw [Agrees, hpc] at hagrees
        subst ht
        obtain ⟨hsession, hlogged | ⟨ret, hret, hcalls⟩⟩ := hagrees
        · refine obedient_call hrun rfl (if_pos ⟨hlogged, hsession⟩) ?_
          rw [hsession]
          exact rfl
        · refine Or.inr (Or.inr (Or.inr ⟨rfl, ret, hret, ?_⟩))
          rw [calls_record, hcalls]
          rfl
  · exact Or.inr (astray_step hastray hstep)

theorem obedient_of_run {r : Option Recognised} {ls : List SampleLabel}
    (hrun : run (logged rawtext) (start r, Log.empty) ls = some (t, log)) : t.Obedient log := by
  have hstart : (start r).Obedient Log.empty := Or.inl ⟨.fresh, rfl, ⟨rfl, rfl, rfl⟩, rfl⟩
  have hstep : ∀ (p : Sample × Log) (l : SampleLabel) (q : Sample × Log), p.1.Obedient p.2 →
      logged rawtext p l = some q → q.1.Obedient q.2 := by
    intro p l q hp hq
    obtain ⟨hq, hlog⟩ := withHistory_eq_some.mp hq
    exact hlog ▸ obedient_step hp hq
  have hinv : (t, log).1.Obedient (t, log).2 := invariant hstep hstart hrun
  exact hinv

/-- The audio of an empty recording has no first block. -/
theorem writes_of_emptyClosed (hsending : Sending s log) (h : log.EmptyClosed) :
    log.writes = [([], .sampleLast)] := by
  obtain ⟨hrecording, hlast⟩ := h
  have hnil : ∀ sent, sent <+: log.pieces → sent = [] := by
    intro sent hsent
    rwa [Log.pieces, hrecording, Option.getD_some, Chunks.pieces_nil, List.prefix_nil] at hsent
  obtain ⟨sent, ⟨hsent, hwrites⟩ | ⟨hsent, hwrites, -⟩⟩ := sent_or_closed hsending
  · rw [hwrites, hnil sent hsent] at hlast
    cases hlast
  · rw [hwrites, hnil sent hsent]
    rfl

theorem not_obeyed_of_unpaired (h : log.Unpaired) : ¬ Engine.Obeyed log.calls := by
  intro hobeyed
  obtain hend | ⟨ret, hret, hcalls⟩ := h
  · obtain ⟨e, he⟩ := Engine.exists_obey_of_mem hobeyed hend
    simp [Engine.obey] at he
  · rw [Engine.Obeyed, hcalls] at hobeyed
    simp [Engine.obey, Engine.fresh, hret] at hobeyed

theorem Astray.unpaired (h : s.Astray log) (hempty : ¬ log.EmptyClosed) : log.Unpaired := by
  obtain ⟨hclosed, -⟩ | hend | ⟨-, hlogin⟩ := h
  · exact absurd hclosed hempty
  · exact Or.inl hend
  · exact Or.inr hlogin

/-- A recording that cannot be opened: the session that is ended is `NULL`. -/
example : ((run (logged some) (start none, Log.empty)
    [.login 0, .openGrammar (some [35]), .allocGrammar true, .buildGrammar 0, .built ⟨0, none⟩,
      .callback, .callback, .waitGrammar, .checkGrammar, .openPcm none, .sessionEnd]).map
        fun p ↦ decide (Engine.Obeyed p.2.calls)) = some false := by decide +kernel

end EmbeddedSystem.Recognition.Sample
