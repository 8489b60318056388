import EmbeddedSystem.Recognition.AsrSample

/-!
# The grammar of a session

`build_grm_cb` sets `build_fini` first, then `errcode` and then the identifier, while `main`
goes on as soon as it sees `build_fini`.  As long as `main` looks at the other two only after
they are stored, a session begins only with a grammar that was built, under its identifier;
otherwise one can begin without a grammar.
-/

namespace EmbeddedSystem.Recognition

open Runs Voice

/-- What `build_grm_cb` makes of the identifier. -/
def Built.grammarId (b : Built) : Bytes :=
  if b.ecode = 0 then (b.info.map fun info ↦ info.text.take 30).getD [] else []

/-- What `asr_data` holds when the callback is so far. -/
def Callback.asrData : Callback → UserData
  | .idle | .buildFini _ => ⟨false, 0, []⟩
  | .errcode _ => ⟨true, 0, []⟩
  | .grammarId b => ⟨true, b.ecode, []⟩
  | .returned b => ⟨true, b.ecode, b.grammarId⟩

/-- The callback has still to store `errcode`. -/
def Callback.owesErrcode : Callback → Bool
  | .errcode _ => true
  | _ => false

/-- The callback has still to store the identifier. -/
def Callback.owesGrammarId : Callback → Bool
  | .errcode _ | .grammarId _ => true
  | _ => false

theorem Built.grammarId_length (b : Built) : b.grammarId.length ≤ 30 := by
  unfold grammarId
  split
  · cases b.info with
    | none => simp
    | some info => simp
  · simp

/-- The parameters are never cut off. -/
theorem asrParams_eq {grammarId : Bytes} (h : grammarId.length ≤ 30) :
    asrParams grammarId = asrParamsHead ++ grammarId ++ asrParamsTail := by
  have hhead : asrParamsHead.length = 136 := by decide +kernel
  have htail : asrParamsTail.length = 48 := by decide +kernel
  apply List.take_of_length_le
  rw [List.length_append, List.length_append, hhead, htail]
  omega

namespace Sample

/-- `main` does not look at `errcode` and at the identifier while they are to be stored. -/
def Undisturbed (s : Sample) : SampleLabel → Prop
  | .checkGrammar => s.callback.owesErrcode = false
  | .sessionBegin _ _ => s.callback.owesGrammarId = false
  | _ => True

instance (s : Sample) : ∀ l, Decidable (s.Undisturbed l)
  | .checkGrammar => inferInstanceAs (Decidable (s.callback.owesErrcode = false))
  | .sessionBegin _ _ => inferInstanceAs (Decidable (s.callback.owesGrammarId = false))
  | .login _ | .openGrammar _ | .allocGrammar _ | .buildGrammar _ | .built _ | .callback
  | .waitGrammar | .openPcm _ | .allocPcm _ | .audioWrite _ _ | .audioLast _ _
  | .getResult _ _ _ | .openResult _ | .sessionEnd | .logout => .isTrue trivial

/-- The grammar was built, and the callback has said so. -/
def Told (s : Sample) : Prop :=
  ∃ b, (s.callback = .grammarId b ∨ s.callback = .returned b) ∧ b.ecode = 0

/-- Each session so far is for the grammar that was built. -/
def Log.Granted (log : Log) (s : Sample) : Prop :=
  ∀ params session, Event.sessionBegin params session ∈ log.calls →
    ∃ b, s.callback = .returned b ∧ b.ecode = 0 ∧
      params = asrParamsHead ++ b.grammarId ++ asrParamsTail

structure Published (s : Sample) (log : Log) : Prop where
  data : s.asrData = s.callback.asrData
  waited : s.pc = .checkGrammar → s.asrData.buildFini
  told : s.pc ∈ [.openPcm, .allocPcm, .sessionBegin] → s.Told
  granted : log.Granted s

variable {rawtext : Bytes → Option Bytes} {s t : Sample} {log : Log}

theorem stored_data (hdata : s.asrData = s.callback.asrData) (h : s.stored = some t) :
    t.asrData = t.callback.asrData ∧ t.pc = s.pc ∧ ∃ b,
      s.callback = .buildFini b ∧ t.callback = .errcode b ∨
        s.callback = .errcode b ∧ t.callback = .grammarId b ∨
        s.callback = .grammarId b ∧ t.callback = .returned b := by
  unfold stored at h
  split at h
  next => cases h
  next => cases h
  next b hb =>
    cases h
    exact ⟨by simp [hdata, hb, Callback.asrData], rfl, b, Or.inl ⟨hb, rfl⟩⟩
  next b hb =>
    cases h
    exact ⟨by simp [hdata, hb, Callback.asrData], rfl, b, Or.inr (Or.inl ⟨hb, rfl⟩)⟩
  next b hb =>
    split at h
    next hecode hinfo =>
      cases h
      exact ⟨by simp [hdata, hb, Callback.asrData, Built.grammarId, hecode, hinfo], rfl, b,
        Or.inr (Or.inr ⟨hb, rfl⟩)⟩
    next hnot =>
      cases h
      have hid : b.grammarId = [] := by
        unfold Built.grammarId
        split
        next hecode =>
          cases hinfo : b.info with
          | none => rfl
          | some info => exact absurd hinfo (hnot info hecode)
        next => rfl
      exact ⟨by simp [hdata, hb, Callback.asrData, hid], rfl, b, Or.inr (Or.inr ⟨hb, rfl⟩)⟩

/-- A step of `main` that leaves the callback alone. -/
theorem published_main {l : SampleLabel} (h : Published s log) (hdata : t.asrData = s.asrData)
    (hcallback : t.callback = s.callback) (hwaited : t.pc = .checkGrammar → t.asrData.buildFini)
    (htold : t.pc ∈ [.openPcm, .allocPcm, .sessionBegin] → s.Told)
    (hevent : ∀ params session, s.event l ≠ some (.sessionBegin params session)) :
    Published t (s.record l log) where
  data := by rw [hdata, hcallback, h.data]
  waited := hwaited
  told := by
    intro hpc
    obtain ⟨b, hb, hecode⟩ := htold hpc
    exact ⟨b, hcallback ▸ hb, hecode⟩
  granted := by
    intro params session hmem
    have hcalls : (s.record l log).calls = log.calls ++ (s.event l).toList := rfl
    rw [hcalls, List.mem_append, Option.mem_toList] at hmem
    obtain ⟨b, hb, hgrant⟩ := h.granted params session (hmem.resolve_right (hevent params session))
    exact ⟨b, hcallback ▸ hb, hgrant⟩

/-- A step of the callback, which is not back yet. -/
theorem published_thread {l : SampleLabel} (h : Published s log) (hlog : s.record l log = log)
    (hdata : t.asrData = t.callback.asrData) (hpc : t.pc = s.pc)
    (hfini : s.asrData.buildFini → t.asrData.buildFini) (htold : s.Told → t.Told)
    (hback : ∀ b, s.callback ≠ .returned b) : Published t (s.record l log) where
  data := hdata
  waited := fun hcheck ↦ hfini (h.waited (hpc ▸ hcheck))
  told := fun hlate ↦ htold (h.told (hpc ▸ hlate))
  granted := by
    intro params session hmem
    obtain ⟨b, hb, -⟩ := h.granted params session (hlog ▸ hmem)
    exact absurd hb (hback b)

theorem told_of_check (h : Published s log) (hpc : s.pc = .checkGrammar)
    (howes : s.callback.owesErrcode = false) (hecode : s.asrData.errcode = 0) : s.Told := by
  have hfini := h.waited hpc
  rw [h.data] at hfini hecode
  cases hc : s.callback with
  | idle => simp [hc, Callback.asrData] at hfini
  | buildFini b => simp [hc, Callback.asrData] at hfini
  | errcode b => simp [hc, Callback.owesErrcode] at howes
  | grammarId b =>
      rw [hc] at hecode
      exact ⟨b, Or.inl hc, hecode⟩
  | returned b =>
      rw [hc] at hecode
      exact ⟨b, Or.inr hc, hecode⟩

theorem published_step {l : SampleLabel} (h : Published s log) (hundisturbed : Undisturbed s l)
    (hstep : s.step rawtext l = some t) : Published t (s.record l log) := by
  cases l with
  | built b =>
      obtain ⟨⟨-, hidle⟩, ht⟩ := Option.ite_none_right_eq_some.mp hstep
      cases ht
      refine published_thread h (record_of_event rfl (by simp) log) ?_ rfl id ?_ (by simp [hidle])
      · rw [h.data, hidle]
        rfl
      · rintro ⟨b', hb | hb, -⟩ <;> rw [hidle] at hb <;> cases hb
  | callback =>
      obtain ⟨-, ht⟩ := Option.ite_none_right_eq_some.mp hstep
      obtain ⟨hdata, hpc, b, hnext⟩ := stored_data h.data ht
      refine published_thread h (record_of_event rfl (by simp) log) hdata hpc ?_ ?_ ?_
      · intro
        rw [hdata]
        obtain ⟨-, hb⟩ | ⟨-, hb⟩ | ⟨-, hb⟩ := hnext <;> rw [hb] <;> rfl
      · rintro ⟨b', hb', hecode⟩
        obtain ⟨hb, -⟩ | ⟨hb, -⟩ | ⟨hb, hback⟩ := hnext <;> rw [hb] at hb'
        · simp at hb'
        · simp at hb'
        · obtain rfl : b = b' := by simpa using hb'
          exact ⟨b, Or.inr hback, hecode⟩
      · intro b' hback
        obtain ⟨hb, -⟩ | ⟨hb, -⟩ | ⟨hb, -⟩ := hnext <;> simp [hb] at hback
  | login ret =>
      obtain ⟨hpc, rfl⟩ := goOn_eq_some.mp hstep
      refine published_main h rfl rfl ?_ ?_ (by simp [event]) <;> simp only [loggedIn] <;>
        split <;> simp
  | openGrammar file =>
      obtain ⟨hpc, rfl⟩ := goOn_eq_some.mp hstep
      refine published_main h rfl rfl ?_ ?_ (by simp [event]) <;> simp only [grammarOpened] <;>
        split <;> simp
  | allocGrammar ok =>
      obtain ⟨hpc, rfl⟩ := goOn_eq_some.mp hstep
      cases ok <;> exact published_main h rfl rfl (by simp [grammarRead]) (by simp [grammarRead])
        (by simp [event])
  | buildGrammar ret =>
      obtain ⟨hpc, rfl⟩ := goOn_eq_some.mp hstep
      refine published_main h rfl rfl ?_ ?_ (by simp [event]) <;> simp only [grammarAsked] <;>
        split <;> simp
  | waitGrammar =>
      obtain ⟨hpc, rfl⟩ := goOn_eq_some.mp hstep
      refine published_main h rfl rfl ?_ ?_ (by simp [event]) <;> simp only [waited] <;>
        split <;> simp_all
  | checkGrammar =>
      obtain ⟨hpc, rfl⟩ := goOn_eq_some.mp hstep
      refine published_main h rfl rfl ?_ ?_ (by simp [event])
      · simp only [checked]
        split <;> simp
      · simp only [checked]
        split
        next hecode => exact fun _ ↦ told_of_check h hpc hundisturbed hecode
        next => simp
  | openPcm file =>
      obtain ⟨hpc, rfl⟩ := goOn_eq_some.mp hstep
      have htold := h.told (by simp [hpc])
      refine published_main h rfl rfl ?_ (fun _ ↦ htold) (by simp [event])
      simp only [pcmOpened]
      split <;> simp
  | allocPcm ok =>
      obtain ⟨hpc, rfl⟩ := goOn_eq_some.mp hstep
      have htold := h.told (by simp [hpc])
      cases ok <;>
        exact published_main h rfl rfl (by simp [pcmRead]) (fun _ ↦ htold) (by simp [event])
  | sessionBegin session errcode =>
      obtain ⟨hpc, rfl⟩ := goOn_eq_some.mp hstep
      obtain ⟨b, hb, hecode⟩ := h.told (by simp [hpc])
      have howes : s.callback.owesGrammarId = false := hundisturbed
      have hback : s.callback = .returned b :=
        hb.resolve_left fun hb ↦ by simp [hb, Callback.owesGrammarId] at howes
      obtain ⟨pc, pcmData, heq, hnext⟩ := begun_eq s session errcode
      have hid : s.asrData.grammarId = b.grammarId := by rw [h.data, hback, Callback.asrData]
      rw [heq]
      refine ⟨h.data, ?_, ?_, ?_⟩
      · obtain ⟨rfl, -⟩ | ⟨rfl | rfl, -⟩ := hnext <;> simp
      · obtain ⟨rfl, -⟩ | ⟨rfl | rfl, -⟩ := hnext <;> simp
      · intro params session' hmem
        have hcalls : (s.record (.sessionBegin session errcode) log).calls =
            log.calls ++ [.sessionBegin (asrParams s.asrData.grammarId) session] := rfl
        rw [hcalls, List.mem_append, List.mem_singleton] at hmem
        rcases hmem with hmem | hnew
        · exact h.granted params session' hmem
        · refine ⟨b, hback, hecode, ?_⟩
          rw [(Event.sessionBegin.inj hnew).1, hid, asrParams_eq b.grammarId_length]
  | audioWrite errcode epStatus =>
      obtain ⟨hpc, rfl⟩ := goOn_eq_some.mp hstep
      obtain ⟨pc, count, size, pcmData, heq, hnext⟩ := written_eq s errcode epStatus
      rw [heq]
      refine published_main h rfl rfl ?_ ?_ (by simp [event]) <;>
        obtain ⟨rfl, -⟩ | ⟨rfl | rfl, -⟩ := hnext <;> simp
  | audioLast errcode epStatus =>
      obtain ⟨hpc, rfl⟩ := goOn_eq_some.mp hstep
      obtain ⟨pc, tmp, heq, hnext⟩ := nextResult_eq rawtext { s with pcmData := none }
      rw [closed, heq]
      simp only [List.mem_cons, List.not_mem_nil, or_false] at hnext
      refine published_main h rfl rfl ?_ ?_ (by simp [event]) <;>
        obtain ⟨rfl, -⟩ | rfl | rfl | rfl := hnext <;> simp
  | getResult result rssStatus errcode =>
      obtain ⟨hpc, rfl⟩ := goOn_eq_some.mp hstep
      obtain ⟨pc, tmp, heq, hnext⟩ := nextResult_eq rawtext
        { s with recRslt := result, rssStatus := rssStatus, errcode := errcode }
      rw [resultGot, heq]
      simp only [List.mem_cons, List.not_mem_nil, or_false] at hnext
      refine published_main h rfl rfl ?_ ?_ (by simp [event]) <;>
        obtain ⟨rfl, -⟩ | rfl | rfl | rfl := hnext <;> simp
  | openResult ok =>
      obtain ⟨hpc, rfl⟩ := goOn_eq_some.mp hstep
      cases ok <;> exact published_main h rfl rfl (by simp [resultOpened]) (by simp [resultOpened])
        (by simp [event])
  | sessionEnd =>
      obtain ⟨hpc, rfl⟩ := goOn_eq_some.mp hstep
      exact published_main h rfl rfl (by simp) (by simp) (by simp [event])
  | logout =>
      obtain ⟨hpc, rfl⟩ := goOn_eq_some.mp hstep
      exact published_main h rfl rfl (by simp) (by simp) (by simp [event])

theorem published_start (r : Option Recognised) : Published (start r) Log.empty where
  data := rfl
  waited := by simp [start]
  told := by simp [start]
  granted := by simp [Log.Granted, Log.empty]

/-- In every run in which `main` looks at `errcode` and at the identifier only after they are
stored, each session is for a grammar that the engine has built, under the identifier that it
gave. -/
theorem sessions_have_grammar {r : Option Recognised} {ls : List SampleLabel}
    (hundisturbed : Meets (step rawtext) Undisturbed (start r) ls)
    (hrun : run (logged rawtext) (start r, Log.empty) ls = some (t, log)) : log.Granted t := by
  have hstep : ∀ (p : Sample × Log) (l : SampleLabel) (q : Sample × Log), Published p.1 p.2 →
      Undisturbed p.1 l → logged rawtext p l = some q → Published q.1 q.2 := by
    intro p l q hp hl hq
    obtain ⟨hq, hlog⟩ := withHistory_eq_some.mp hq
    exact hlog ▸ published_step hp hl hq
  have hstart : Published (start r, Log.empty).1 (start r, Log.empty).2 := published_start r
  have hend : Published (t, log).1 (t, log).2 :=
    invariant_of_meets hstep hstart (meets_withHistory hundisturbed) hrun
  exact hend.granted

theorem session_of_heard :
    ∃ b, heardRun.1.callback = .returned b ∧ b.grammarId = [99, 97, 108, 108] := by
  have hgranted : heardRun.2.Granted heardRun.1 :=
    sessions_have_grammar
      (show Meets (step some) Undisturbed (start none) (heard [7, 8, 9] [65]) by decide +kernel)
      run_heard
  have hmem : Event.sessionBegin (asrParams [99, 97, 108, 108]) (some 1) ∈ heardRun.2.calls := by
    decide +kernel
  obtain ⟨b, hb, -, hparams⟩ := hgranted _ _ hmem
  refine ⟨b, hb, ?_⟩
  rw [asrParams_eq (by decide)] at hparams
  exact (List.append_cancel_left (List.append_cancel_right hparams)).symm

-- the grammar could not be built, but `main` looks at `errcode` before the callback has
-- stored it: a session begins, with no grammar
example :
    (run (logged some) (start none, Log.empty)
      [.login 0, .openGrammar (some [35]), .allocGrammar true, .buildGrammar 0,
        .built ⟨23300, none⟩, .callback, .waitGrammar, .checkGrammar, .callback, .callback,
        .openPcm (some [7, 8, 9]), .allocPcm true, .sessionBegin (some 1) 0]).map
        (fun p ↦ p.2.calls.getLast?) = some (some (.sessionBegin (asrParams []) (some 1))) := by
  decide +kernel

end Sample

end EmbeddedSystem.Recognition
