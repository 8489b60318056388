import EmbeddedSystem.Recognition.RecorderSafe

/-!
# What the recorder passes on

The device may answer a read with fewer frames than it was asked for, with none or with an
overrun; the thread goes on where it was, so that the blocks it passes on are the audio.
-/

namespace EmbeddedSystem.Recognition

open Runs Voice

namespace Recorder

/-- The bytes that the device delivered to the thread, and the blocks that the callback was
given. -/
structure Capture where
  delivered : Bytes
  blocks : List Bytes
  deriving DecidableEq, Repr

def record (s : Recorder) (l : RecorderLabel) (h : Capture) : Capture :=
  match l with
  | .pthreadCreate ret => if ret = 0 then ⟨[], []⟩ else h
  | .readi (.frames _ bytes) => { h with delivered := h.delivered ++ bytes }
  | .callbackReturns => { h with blocks := h.blocks ++ s.audiobuf.toList }
  | _ => h

/-- What was delivered since the last block. -/
def Rest (period : ℕ) (audiobuf : Option Bytes) (rest : Bytes) : RecordPc → Prop
  | .reading _ offset => ∃ buf, audiobuf = some buf ∧ rest = buf.take offset
  | .callback | .stopping | .dropping => audiobuf = some rest
  | .ended => rest.length ≤ period
  | .top | .notClosing | .sleeping => rest = []

/-- The blocks are what was delivered, cut at the period. -/
structure Captured (s : Recorder) (h : Capture) (pc : RecordPc) : Prop where
  rest : ∃ rest, h.delivered = h.blocks.flatten ++ rest ∧ Rest s.periodBytes s.audiobuf rest pc
  length : ∀ b ∈ h.blocks, b.length = s.periodBytes

section Blocks

variable {s t : Recorder} {l : RecorderLabel} {ls : List RecorderLabel}

theorem length_rest (h : s.Running) {pc : RecordPc} (hthread : s.thread = some pc) {rest : Bytes}
    (hrest : Rest s.periodBytes s.audiobuf rest pc) : rest.length ≤ s.periodBytes := by
  obtain ⟨buf, hbuf, hlength⟩ := h.buffer
  have hwhole (hrest : s.audiobuf = some rest) : rest.length ≤ s.periodBytes := by
    rw [← hlength, Option.some.inj (hbuf.symm.trans hrest)]
  cases pc with
  | reading count offset =>
      obtain ⟨buf', hbuf', rfl⟩ := hrest
      rw [List.length_take, ← hlength, Option.some.inj (hbuf.symm.trans hbuf')]
      exact Nat.min_le_right _ _
  | callback => exact hwhole hrest
  | stopping => exact hwhole hrest
  | dropping => exact hwhole hrest
  | ended => exact hrest
  | top => simp [show rest = [] from hrest]
  | notClosing => simp [show rest = [] from hrest]
  | sleeping => simp [show rest = [] from hrest]

theorem rest_beginRead (h : s.Running) : Rest s.periodBytes s.audiobuf [] s.beginRead := by
  obtain ⟨buf, hbuf, hlength⟩ := h.buffer
  unfold beginRead
  rw [if_pos h.device]
  split
  next hnone =>
    rw [periodBytes, hnone, Nat.zero_mul, Nat.zero_div] at hlength
    exact hbuf.trans (congrArg some (List.length_eq_zero_iff.mp hlength))
  next => exact ⟨buf, hbuf, rfl⟩

/-- A read puts what it delivers behind what the buffer has. -/
theorem take_store {buf buf' bytes : Bytes} {offset : ℕ}
    (h : store buf offset bytes = some buf') :
    buf'.take (offset + bytes.length) = buf.take offset ++ bytes := by
  obtain ⟨hle, heq⟩ := Option.ite_none_right_eq_some.mp h
  rw [← Option.some.inj heq]
  refine List.take_left' ?_
  simp
  omega

theorem captured_go (h : s.Running) {g : Capture} {pc : RecordPc} (hcaptured : Captured s g pc)
    (ht : s.go pc = some t) : ∃ pc', t.thread = some pc' ∧ Captured t g pc' := by
  obtain ⟨⟨rest, hdelivered, hrest⟩, hlength⟩ := hcaptured
  cases pc with
  | top =>
      cases ht
      obtain rfl : rest = [] := hrest
      refine ⟨_, rfl, ⟨[], hdelivered, ?_⟩, hlength⟩
      split
      · exact Nat.zero_le _
      · rfl
  | notClosing =>
      cases ht
      obtain rfl : rest = [] := hrest
      have hbegin := rest_beginRead h
      refine ⟨_, rfl, ⟨[], hdelivered, ?_⟩, hlength⟩
      split
      · rfl
      · exact hbegin
  | sleeping =>
      cases ht
      obtain rfl : rest = [] := hrest
      have hbegin := rest_beginRead h
      exact ⟨_, rfl, ⟨[], hdelivered, hbegin⟩, hlength⟩
  | stopping =>
      cases ht
      exact ⟨_, rfl, ⟨rest, hdelivered, hrest⟩, hlength⟩
  | _ => cases ht

theorem captured_readOnce (h : s.Running) {g : Capture} {count offset : ℕ} {a : ReadAnswer}
    (hthread : s.thread = some (.reading count offset))
    (hcaptured : Captured s g (.reading count offset)) (ht : s.readOnce count offset a = some t) :
    ∃ pc', t.thread = some pc' ∧ Captured t (record s (.readi a) g) pc' := by
  obtain ⟨⟨rest, hdelivered, buf, hbuf, rfl⟩, hlength⟩ := hcaptured
  cases a with
  | frames r bytes =>
      obtain ⟨⟨hr, hbytes⟩, ht⟩ := Option.ite_none_right_eq_some.mp ht
      obtain ⟨hfits, hmoved, hframes⟩ := store_of_running h hthread hbuf hr hbytes
      obtain ⟨buf', hstore⟩ : ∃ buf', store buf offset bytes = some buf' := ⟨_, if_pos hfits⟩
      have htake := take_store hstore
      have hperiod : buf'.length = s.periodBytes := by
        obtain ⟨b, hb, hperiod⟩ := h.buffer
        rwa [length_store hstore, Option.some.inj (hbuf.symm.trans hb)]
      simp only [hbuf, Option.bind_some, hstore] at ht
      cases ht
      refine ⟨_, rfl, ⟨buf.take offset ++ bytes, ?_, ?_⟩, hlength⟩
      · simp only [record, hdelivered, List.append_assoc]
      · have hbits : bytes.length = r * s.bitsPerFrame / 8 := by
          rw [hframes, Nat.mul_div_assoc _ h.mono.2]
        split
        next hdone =>
          -- the last read fills the buffer
          have hend : offset + bytes.length = buf'.length := by
            rw [hbits, hmoved, hdone, Nat.sub_zero, hperiod, periodBytes_eq h.mono.2]
          rw [hend, List.take_length] at htake
          exact congrArg some htake
        next =>
          rw [hbits] at htake
          exact ⟨buf', rfl, htake.symm⟩
  | error e resume prepare =>
      cases ht
      refine ⟨_, rfl, ⟨buf.take offset, hdelivered, ?_⟩, hlength⟩
      split
      · exact ⟨buf, hbuf, rfl⟩
      · exact length_rest h hthread ⟨buf, hbuf, rfl⟩

theorem captured_threadStep (h : s.Running) {g : Capture} {pc : RecordPc}
    (hthread : s.thread = some pc) (hcaptured : Captured s g pc)
    (ht : s.threadStep pc l = some t) :
    ∃ pc', t.thread = some pc' ∧ Captured t (record s l g) pc' := by
  cases l with
  | go => exact captured_go h hcaptured ht
  | readi a =>
      cases pc with
      | reading count offset =>
          simp only [threadStep, if_pos h.device] at ht
          exact captured_readOnce h hthread hcaptured ht
      | _ => cases ht
  | callbackStops =>
      obtain ⟨rfl, heq⟩ := Option.ite_none_right_eq_some.mp ht
      split at heq
      · cases heq
        exact ⟨_, hthread, hcaptured⟩
      · cases heq
        exact ⟨_, rfl, hcaptured.rest, hcaptured.length⟩
  | callbackDrops ret =>
      obtain ⟨rfl, heq⟩ := Option.ite_none_right_eq_some.mp ht
      rw [if_pos h.device] at heq
      cases heq
      exact ⟨_, rfl, hcaptured.rest, hcaptured.length⟩
  | callbackReturns =>
      obtain ⟨rfl, heq⟩ := Option.ite_none_right_eq_some.mp ht
      cases heq
      obtain ⟨⟨rest, hdelivered, hrest⟩, hlength⟩ := hcaptured
      have hbuf : s.audiobuf = some rest := hrest
      obtain ⟨buf, hbuf', hperiod⟩ := h.buffer
      obtain rfl : buf = rest := Option.some.inj (hbuf'.symm.trans hbuf)
      refine ⟨_, rfl, ⟨[], ?_, rfl⟩, fun b hb ↦ ?_⟩
      · simp [record, hdelivered, hbuf]
      · simp only [record, hbuf, Option.toList_some, List.mem_append, List.mem_singleton] at hb
        rcases hb with hb | rfl
        · exact hlength b hb
        · exact hperiod
  | cancelled =>
      obtain ⟨-, heq⟩ := Option.ite_none_right_eq_some.mp ht
      cases heq
      obtain ⟨⟨rest, hdelivered, hrest⟩, hlength⟩ := hcaptured
      exact ⟨_, rfl, ⟨rest, hdelivered, length_rest h hthread hrest⟩, hlength⟩
  | _ => cases ht

/-- What the thread uses. -/
structure Kept (s t : Recorder) : Prop where
  thread : t.thread = s.thread
  audiobuf : t.audiobuf = s.audiobuf
  periodBytes : t.periodBytes = s.periodBytes

theorem Kept.refl (s : Recorder) : Kept s s := ⟨rfl, rfl, rfl⟩

theorem Kept.ite {u : Recorder} {c : Prop} [Decidable c] (ht : Kept s t) (hu : Kept s u) :
    Kept s (if c then t else u) := by
  split
  · exact ht
  · exact hu

/-- The caller makes a thread, joins it, or leaves it what it uses. -/
theorem mainStep_cases (h : s.Held) (ht : s.mainStep l = some t) :
    (l = .pthreadCreate 0 ∧ t.thread = some .top) ∨ t.thread = none ∨ Kept s t := by
  cases l with
  | openRecorder fmt =>
      obtain ⟨-, heq⟩ := Option.ite_none_right_eq_some.mp ht
      have hkept : Kept s (s.openRecorder fmt) := .ite (.refl s) ⟨rfl, rfl, rfl⟩
      exact .inr (.inr (Option.some.inj heq ▸ hkept))
  | startRecord =>
      obtain ⟨-, heq⟩ := Option.ite_none_right_eq_some.mp ht
      have hkept : Kept s s.startRecord := .ite (.refl s) (.ite (.refl s) ⟨rfl, rfl, rfl⟩)
      exact .inr (.inr (Option.some.inj heq ▸ hkept))
  | stopRecord =>
      obtain ⟨-, heq⟩ := Option.ite_none_right_eq_some.mp ht
      have hkept : Kept s s.stopRecord := .ite (.refl s) ⟨rfl, rfl, rfl⟩
      exact .inr (.inr (Option.some.inj heq ▸ hkept))
  | closeRecorder =>
      obtain ⟨-, heq⟩ := Option.ite_none_right_eq_some.mp ht
      have hkept : Kept s s.closeRecorder := .ite (.refl s) (.ite ⟨rfl, rfl, rfl⟩ ⟨rfl, rfl, rfl⟩)
      exact .inr (.inr (Option.some.inj heq ▸ hkept))
  | isRecordStopped =>
      obtain ⟨-, heq⟩ := Option.ite_none_right_eq_some.mp ht
      have hkept : Kept s s.isRecordStopped := .ite (.refl s) ⟨rfl, rfl, rfl⟩
      exact .inr (.inr (Option.some.inj heq ▸ hkept))
  | destroyRecorder =>
      obtain ⟨-, heq⟩ := Option.ite_none_right_eq_some.mp ht
      have hkept : Kept s s.destroyRecorder := .ite ⟨rfl, rfl, rfl⟩ ⟨rfl, rfl, rfl⟩
      exact .inr (.inr (Option.some.inj heq ▸ hkept))
  | pcmOpen ret =>
      simp only [mainStep] at ht
      split at ht
      next fmt hmain =>
        obtain ⟨-, -, -, hclosed⟩ := h.at hmain
        cases ht
        unfold pcmOpened
        split <;> exact .inr (.inl hclosed.thread)
      next => cases ht
  | setParams frames =>
      simp only [mainStep] at ht
      split at ht
      next fmt hmain =>
        obtain ⟨-, -, -, hclosed⟩ := h.at hmain
        rw [onDevice, if_pos hclosed.device] at ht
        cases ht
        cases frames <;> exact .inr (.inl hclosed.thread)
      next => cases ht
  | malloc block =>
      obtain ⟨⟨hmain, -⟩, heq⟩ := Option.ite_none_right_eq_some.mp ht
      obtain ⟨-, -, -, hclosed⟩ := h.at hmain
      cases heq
      cases block <;> exact .inr (.inl hclosed.thread)
  | pthreadCreate ret =>
      obtain ⟨hmain, heq⟩ := Option.ite_none_right_eq_some.mp ht
      obtain ⟨-, -, -, -, -, hnone⟩ := h.at hmain
      cases heq
      unfold threadCreated
      split
      next hret =>
        exact .inl ⟨congrArg _ hret, rfl⟩
      next => exact .inr (.inl hnone)
  | setReady =>
      obtain ⟨-, heq⟩ := Option.ite_none_right_eq_some.mp ht
      exact .inr (.inr (Option.some.inj heq ▸ ⟨rfl, rfl, rfl⟩))
  | pcmStart ret =>
      obtain ⟨-, heq⟩ := Option.ite_none_right_eq_some.mp ht
      have hkept : Kept s (s.pcmStarted ret) := .ite ⟨rfl, rfl, rfl⟩ ⟨rfl, rfl, rfl⟩
      exact .inr (.inr (Option.some.inj heq ▸ .ite hkept ⟨rfl, rfl, rfl⟩))
  | setStopping =>
      simp only [mainStep] at ht
      split at ht
      · exact .inr (.inr (Option.some.inj ht ▸ ⟨rfl, rfl, rfl⟩))
      · cases ht
  | pcmDrop ret =>
      simp only [mainStep] at ht
      split at ht
      next closes _ =>
        have hkept : Kept s (s.pcmDropped closes ret) := ⟨rfl, rfl, rfl⟩
        exact .inr (.inr (Option.some.inj ht ▸ .ite hkept ⟨rfl, rfl, rfl⟩))
      next => cases ht
  | setClosing =>
      obtain ⟨-, heq⟩ := Option.ite_none_right_eq_some.mp ht
      exact .inr (.inr (Option.some.inj heq ▸ ⟨rfl, rfl, rfl⟩))
  | cancel =>
      obtain ⟨-, heq⟩ := Option.ite_none_right_eq_some.mp ht
      have hkept : Kept s s.threadCancelled := .ite ⟨rfl, rfl, rfl⟩ ⟨rfl, rfl, rfl⟩
      exact .inr (.inr (Option.some.inj heq ▸ hkept))
  | join =>
      obtain ⟨-, heq⟩ := Option.ite_none_right_eq_some.mp ht
      exact .inr (.inl (Option.some.inj heq ▸ rfl))
  | pcmClose =>
      obtain ⟨hmain, heq⟩ := Option.ite_none_right_eq_some.mp ht
      have hjoined : s.thread = none := h.at hmain
      exact .inr (.inl (Option.some.inj heq ▸ hjoined))
  | _ => cases ht

theorem record_mainStep {g : Capture} (ht : s.mainStep l = some t) (hl : l ≠ .pthreadCreate 0) :
    record s l g = g := by
  cases l with
  | pthreadCreate ret => exact if_neg fun hret ↦ hl (congrArg _ hret)
  | readi a => cases ht
  | callbackReturns => cases ht
  | _ => rfl

theorem captured_mainStep (h : s.Held) {g : Capture}
    (hcaptured : ∀ pc, s.thread = some pc → Captured s g pc) (ht : s.mainStep l = some t) :
    ∀ pc, t.thread = some pc → Captured t (record s l g) pc := by
  intro pc hthread
  by_cases hl : l = .pthreadCreate 0
  · subst hl
    obtain ⟨-, heq⟩ := Option.ite_none_right_eq_some.mp ht
    cases heq
    cases hthread
    exact ⟨⟨[], rfl, rfl⟩, fun b hb ↦ absurd hb List.not_mem_nil⟩
  · rw [record_mainStep ht hl]
    rcases mainStep_cases h ht with ⟨hcreate, -⟩ | hnone | hkept
    · exact absurd hcreate hl
    · exact absurd (hnone.symm.trans hthread) nofun
    · obtain ⟨⟨rest, hdelivered, hrest⟩, hlength⟩ := hcaptured pc (hkept.thread ▸ hthread)
      refine ⟨⟨rest, hdelivered, ?_⟩, hkept.periodBytes ▸ hlength⟩
      rw [hkept.audiobuf, hkept.periodBytes]
      exact hrest

/-- In order, with the blocks of the thread that runs. -/
def Heard (p : Recorder × Capture) : Prop :=
  p.1.Safe ∧ ∀ pc, p.1.thread = some pc → Captured p.1 p.2 pc

theorem heard_create : Heard (create, ⟨[], []⟩) :=
  ⟨safe_create, fun pc hthread ↦ absurd (hthread : none = some pc) nofun⟩

theorem heard_step {p q : Recorder × Capture} (h : Heard p) (hmono : Mono l)
    (hcareful : p.1.Careful l) (hstep : withHistory step record p l = some q) : Heard q := by
  obtain ⟨ht, hg⟩ := withHistory_eq_some.mp hstep
  refine ⟨safe_step h.1 hmono hcareful ht, ?_⟩
  rw [← hg]
  rcases step_cases ht with ⟨-, ⟨pc, hthread, hpc⟩ | hmain⟩
  · have hrunning := running_of_thread h.1.held (hthread ▸ rfl)
    obtain ⟨pc', hpc', hcaptured⟩ := captured_threadStep hrunning hthread (h.2 pc hthread) hpc
    intro pc'' hpc''
    exact Option.some.inj (hpc'.symm.trans hpc'') ▸ hcaptured
  · exact captured_mainStep h.1.held h.2 hmain

/-- While the recorder runs, the blocks that the callback was given and at most a period more
are what the device has delivered: nothing is lost, doubled or out of its place, and each
block is a whole period. -/
theorem blocks_are_recording (hmono : ∀ l ∈ ls, Mono l) {g : Capture}
    (hrun : run (withHistory step record) (create, ⟨[], []⟩) ls = some (s, g))
    (hsound : s.faulted = false) (hthread : s.thread.isSome) :
    ∃ rest, g.delivered = g.blocks.flatten ++ rest ∧ rest.length ≤ s.periodBytes ∧
      ∀ b ∈ g.blocks, b.length = s.periodBytes := by
  have hplain := run_of_withHistory hrun
  have hguard : Meets (withHistory step record) (fun p l ↦ p.1.Careful l ∧ Mono l)
      (create, ⟨[], []⟩) ls :=
    meets_withHistory ((meets_and_forall hplain).mpr
      ⟨(sound_iff_meets hmono hplain).mp hsound, hmono⟩)
  obtain ⟨hsafe, hcaptured⟩ := invariant_of_meets
    (fun p l q h hl hq ↦ heard_step h hl.2 hl.1 hq) heard_create hguard hrun
  obtain ⟨pc, hpc⟩ := Option.isSome_iff_exists.mp hthread
  obtain ⟨⟨rest, hdelivered, hrest⟩, hlength⟩ := hcaptured pc hpc
  have hrunning := running_of_thread hsafe.held hthread
  exact ⟨rest, hdelivered, length_rest hrunning hpc hrest, hlength⟩

theorem blocks_while_listening :
    ∃ s, run (withHistory step record) (create, ⟨[], []⟩) listening =
        some (s, ⟨[1, 2, 3, 4, 5, 6], [[1, 2, 3, 4]]⟩) ∧
      ∃ rest, ([1, 2, 3, 4, 5, 6] : Bytes) = [[1, 2, 3, 4]].flatten ++ rest ∧
        rest.length ≤ s.periodBytes ∧
        ∀ b ∈ ([[1, 2, 3, 4]] : List Bytes), b.length = s.periodBytes := by
  have hrun : run (withHistory step record) (create, ⟨[], []⟩) listening =
      some (⟨.outside, some (.reading 1 2), false, false, .recording, true, some [5, 6, 3, 4],
        1, 16, 2⟩, ⟨[1, 2, 3, 4, 5, 6], [[1, 2, 3, 4]]⟩) := rfl
  exact ⟨_, hrun, blocks_are_recording (by decide) hrun rfl rfl⟩

end Blocks

end Recorder

end EmbeddedSystem.Recognition
