import Mathlib.Data.Int.Notation
import Mathlib.Logic.Basic
import Mathlib.Tactic.Common

/-!
# Runs of a labelled partial step function

A system is a step function `σ → ℓ → Option σ`, where a label that is not
enabled gives `none`, and a run is the list of its labels.  The invariant rules
of this file are the only inductions over runs: a safety result supplies its
step lemma and cites them.
-/

namespace Runs

variable {σ ℓ γ : Type*}

/-- Execute the labels in order; the run stops at the first label that is not
enabled. -/
def run (step : σ → ℓ → Option σ) : σ → List ℓ → Option σ
  | s, [] => some s
  | s, l :: ls => (step s l).bind fun t ↦ run step t ls

@[simp] theorem run_nil (step : σ → ℓ → Option σ) (s : σ) : run step s [] = some s := rfl

@[simp] theorem run_cons (step : σ → ℓ → Option σ) (s : σ) (l : ℓ) (ls : List ℓ) :
    run step s (l :: ls) = (step s l).bind fun t ↦ run step t ls := rfl

theorem run_append (step : σ → ℓ → Option σ) (s : σ) (ks ls : List ℓ) :
    run step s (ks ++ ls) = (run step s ks).bind fun t ↦ run step t ls := by
  induction ks generalizing s with
  | nil => rfl
  | cons k ks ih => simp [ih, Option.bind_assoc]

/-- Each step of the run meets `guard` in the state it starts from. -/
def Meets (step : σ → ℓ → Option σ) (guard : σ → ℓ → Prop) : σ → List ℓ → Prop
  | _, [] => True
  | s, l :: ls => guard s l ∧
      match step s l with
      | some t => Meets step guard t ls
      | none => True

instance Meets.decide (step : σ → ℓ → Option σ) (guard : σ → ℓ → Prop)
    [∀ s l, Decidable (guard s l)] : ∀ s ls, Decidable (Meets step guard s ls)
  | _, [] => .isTrue trivial
  | s, l :: ls =>
    match h : step s l with
    | some t =>
      have := Meets.decide step guard t ls
      decidable_of_iff (guard s l ∧ Meets step guard t ls) (by simp [Meets, h])
    | none => decidable_of_iff (guard s l) (by simp [Meets, h])

theorem meets_cons_of_step {step : σ → ℓ → Option σ} {guard : σ → ℓ → Prop} {s t : σ} {l : ℓ}
    (h : step s l = some t) (ls : List ℓ) :
    Meets step guard s (l :: ls) ↔ guard s l ∧ Meets step guard t ls := by
  simp [Meets, h]

theorem meets_true (step : σ → ℓ → Option σ) (s : σ) (ls : List ℓ) :
    Meets step (fun _ _ ↦ True) s ls := by
  induction ls generalizing s with
  | nil => trivial
  | cons l ls ih =>
      refine ⟨trivial, ?_⟩
      cases step s l with
      | none => trivial
      | some t => exact ih t

/-- What every guarded step preserves holds at the end of every guarded run. -/
theorem invariant_of_meets {step : σ → ℓ → Option σ} {guard : σ → ℓ → Prop} {inv : σ → Prop}
    (hstep : ∀ s l t, inv s → guard s l → step s l = some t → inv t)
    {s t : σ} {ls : List ℓ} (hs : inv s) (hguard : Meets step guard s ls)
    (hrun : run step s ls = some t) : inv t := by
  induction ls generalizing s with
  | nil => exact Option.some.inj hrun ▸ hs
  | cons l ls ih =>
      obtain ⟨u, hu, hrest⟩ := Option.bind_eq_some_iff.mp hrun
      obtain ⟨hl, hls⟩ := (meets_cons_of_step hu ls).mp hguard
      exact ih (hstep s l u hs hl hu) hls hrest

theorem invariant {step : σ → ℓ → Option σ} {inv : σ → Prop}
    (hstep : ∀ s l t, inv s → step s l = some t → inv t)
    {s t : σ} {ls : List ℓ} (hs : inv s) (hrun : run step s ls = some t) : inv t :=
  invariant_of_meets (fun s l t hi _ ↦ hstep s l t hi) hs (meets_true step s ls) hrun

/-- If the guard says exactly when a step from an invariant state succeeds, a
run succeeds exactly when all its steps meet the guard. -/
theorem isSome_run_iff {step : σ → ℓ → Option σ} {guard : σ → ℓ → Prop} {inv : σ → Prop}
    (hsafe : ∀ s l, inv s → ((step s l).isSome ↔ guard s l))
    (hstep : ∀ s l t, inv s → step s l = some t → inv t)
    {s : σ} (hs : inv s) (ls : List ℓ) :
    (run step s ls).isSome ↔ Meets step guard s ls := by
  induction ls generalizing s with
  | nil => simp [Meets]
  | cons l ls ih =>
      cases h : step s l with
      | none =>
          have hl : ¬ guard s l := by
            rw [← hsafe s l hs, h]
            simp
          simp [Meets, h, hl]
      | some t =>
          have hl : guard s l := by
            rw [← hsafe s l hs, h]
            rfl
          rw [meets_cons_of_step h]
          simpa [h, hl] using ih (hstep s l t hs h)

/-- If a good state remains good exactly in the steps that meet the guard, and no
step leaves a bad one, a run ends in a good state exactly when all its steps meet
the guard. -/
theorem good_iff_meets {step : σ → ℓ → Option σ} {guard : σ → ℓ → Prop} {good : σ → Prop}
    (hstep : ∀ s l t, good s → step s l = some t → (good t ↔ guard s l))
    (hstuck : ∀ s l, ¬ good s → step s l = none)
    {s t : σ} {ls : List ℓ} (hs : good s) (hrun : run step s ls = some t) :
    good t ↔ Meets step guard s ls := by
  induction ls generalizing s with
  | nil => simpa [Meets, ← Option.some.inj hrun] using hs
  | cons l ls ih =>
      obtain ⟨u, hu, hrest⟩ := Option.bind_eq_some_iff.mp hrun
      rw [meets_cons_of_step hu]
      by_cases hl : guard s l
      · have hgood : good u := (hstep s l u hs hu).mpr hl
        rw [ih hgood hrest, and_iff_right hl]
      · have hbad : ¬ good u := fun h ↦ hl ((hstep s l u hs hu).mp h)
        have hend : u = t := by
          cases ls with
          | nil => exact Option.some.inj hrest
          | cons l' ls => simp [hstuck u l' hbad] at hrest
        simp [← hend, hbad, hl]

/-- If a step with an allowed label keeps the invariant when it meets the guard and ends what
is good when it does not, and what has ended stays so, then a run of allowed labels ends in a
good state exactly when all its steps meet the guard. -/
theorem good_iff_meets_of_forever {step : σ → ℓ → Option σ} {guard : σ → ℓ → Prop}
    {allowed : ℓ → Prop} {inv good : σ → Prop} (hgood : ∀ s, inv s → good s)
    (hmet : ∀ s l t, inv s → allowed l → guard s l → step s l = some t → inv t)
    (hmissed : ∀ s l t, inv s → ¬ guard s l → step s l = some t → ¬ good t)
    (hforever : ∀ s l t, ¬ good s → step s l = some t → ¬ good t)
    {s t : σ} {ls : List ℓ} (hs : inv s) (hall : ∀ l ∈ ls, allowed l)
    (hrun : run step s ls = some t) : good t ↔ Meets step guard s ls := by
  induction ls generalizing s with
  | nil => simpa [Meets, ← Option.some.inj hrun] using hgood s hs
  | cons l ls ih =>
      obtain ⟨u, hu, hrest⟩ := Option.bind_eq_some_iff.mp hrun
      obtain ⟨hallowed, hlater⟩ := List.forall_mem_cons.mp hall
      rw [meets_cons_of_step hu]
      by_cases hl : guard s l
      · rw [ih (hmet s l u hs hallowed hl hu) hlater hrest, and_iff_right hl]
      · have hbad : ¬ good t := invariant hforever (hmissed s l u hs hl hu) hrest
        simp [hl, hbad]

/-- If each step of one system is matched by a run of another, so is each run. -/
theorem run_of_simulation {τ κ : Type*} {step : σ → ℓ → Option σ} {step' : τ → κ → Option τ}
    {rel : σ → τ → Prop}
    (hstep : ∀ s u l t, rel s u → step s l = some t → ∃ ks v, run step' u ks = some v ∧ rel t v)
    {s t : σ} {u : τ} {ls : List ℓ} (h : rel s u) (hrun : run step s ls = some t) :
    ∃ ks v, run step' u ks = some v ∧ rel t v := by
  induction ls generalizing s u with
  | nil => exact ⟨[], u, rfl, Option.some.inj hrun ▸ h⟩
  | cons l ls ih =>
      obtain ⟨s', hs', hrest⟩ := Option.bind_eq_some_iff.mp hrun
      obtain ⟨ks, u', hks, hrel⟩ := hstep s u l s' h hs'
      obtain ⟨ks', v, hks', hend⟩ := ih hrel hrest
      refine ⟨ks ++ ks', v, ?_, hend⟩
      rw [run_append, hks, Option.bind_some, hks']

/-- A system that follows each guarded step of another with one of its own follows its runs. -/
theorem exists_run_of_lockstep {τ : Type*} {step : σ → ℓ → Option σ} {step' : τ → ℓ → Option τ}
    {guard : σ → ℓ → Prop} {rel : σ → τ → Prop}
    (hstep : ∀ s u l t, rel s u → guard s l → step s l = some t → ∃ v, step' u l = some v ∧ rel t v)
    {s t : σ} {u : τ} {ls : List ℓ} (h : rel s u) (hguard : Meets step guard s ls)
    (hrun : run step s ls = some t) : ∃ v, run step' u ls = some v ∧ rel t v := by
  induction ls generalizing s u with
  | nil => exact ⟨u, rfl, Option.some.inj hrun ▸ h⟩
  | cons l ls ih =>
      obtain ⟨s', hs', hrest⟩ := Option.bind_eq_some_iff.mp hrun
      obtain ⟨hl, hls⟩ := (meets_cons_of_step hs' ls).mp hguard
      obtain ⟨u', hu', hrel⟩ := hstep s u l s' h hl hs'
      obtain ⟨v, hv, hend⟩ := ih hrel hls hrest
      exact ⟨v, by rw [run_cons, hu', Option.bind_some, hv], hend⟩

/-- A measure that each guarded step raises by one if its label counts. -/
theorem countP_of_meets {step : σ → ℓ → Option σ} {guard : σ → ℓ → Prop} {f : σ → ℤ}
    {counts : ℓ → Bool}
    (hstep : ∀ s l t, guard s l → step s l = some t → f t = f s + if counts l then 1 else 0)
    {s t : σ} {ls : List ℓ} (hguard : Meets step guard s ls) (hrun : run step s ls = some t) :
    f t = f s + ls.countP counts := by
  induction ls generalizing s with
  | nil => simp [← Option.some.inj hrun]
  | cons l ls ih =>
      obtain ⟨u, hu, hrest⟩ := Option.bind_eq_some_iff.mp hrun
      obtain ⟨hl, hls⟩ := (meets_cons_of_step hu ls).mp hguard
      rw [ih hls hrest, hstep s l u hl hu, List.countP_cons]
      split <;> omega

/-- A rank that each guarded step lowers by one, as long as it is not zero. -/
theorem rank_eq_zero_of_meets {step : σ → ℓ → Option σ} {guard : σ → ℓ → Prop} {inv : σ → Prop}
    {rank : σ → ℕ} (hinv : ∀ s l t, inv s → guard s l → step s l = some t → inv t)
    (hrank : ∀ s l t n, inv s → guard s l → step s l = some t → rank s = n + 1 → rank t = n)
    {s t : σ} {ls : List ℓ} (hs : inv s) (hguard : Meets step guard s ls)
    (hrun : run step s ls = some t) (hlength : ls.length = rank s) : rank t = 0 := by
  induction ls generalizing s with
  | nil => rw [← Option.some.inj hrun, ← hlength, List.length_nil]
  | cons l ls ih =>
      obtain ⟨u, hu, hrest⟩ := Option.bind_eq_some_iff.mp hrun
      obtain ⟨hl, hls⟩ := (meets_cons_of_step hu ls).mp hguard
      exact ih (hinv s l u hs hl hu) hls hrest (hrank s l u _ hs hl hu hlength.symm).symm

/-- A rank that each guarded step lowers by one if its label counts, until it is zero. -/
theorem rank_eq_sub_countP {step : σ → ℓ → Option σ} {guard : σ → ℓ → Prop} {inv : σ → Prop}
    {rank : σ → ℕ} {counts : ℓ → Bool}
    (hinv : ∀ s l t, inv s → guard s l → step s l = some t → inv t)
    (hrank : ∀ s l t, inv s → guard s l → step s l = some t →
      rank t = rank s - if counts l then 1 else 0)
    {s t : σ} {ls : List ℓ} (hs : inv s) (hguard : Meets step guard s ls)
    (hrun : run step s ls = some t) : rank t = rank s - ls.countP counts := by
  induction ls generalizing s with
  | nil => simp [← Option.some.inj hrun]
  | cons l ls ih =>
      obtain ⟨u, hu, hrest⟩ := Option.bind_eq_some_iff.mp hrun
      obtain ⟨hl, hls⟩ := (meets_cons_of_step hu ls).mp hguard
      rw [ih (hinv s l u hs hl hu) hls hrest, hrank s l u hs hl hu, List.countP_cons]
      omega

/-- A step that is enabled until the rank is zero brings it there. -/
theorem exists_run_replicate {step : σ → ℓ → Option σ} {inv : σ → Prop} {rank : σ → ℕ} {l : ℓ}
    (hstep : ∀ s n, inv s → rank s = n + 1 → ∃ t, step s l = some t ∧ inv t ∧ rank t = n)
    {s : σ} (hs : inv s) :
    ∃ t, run step s (List.replicate (rank s) l) = some t ∧ inv t ∧ rank t = 0 := by
  induction h : rank s generalizing s with
  | zero => exact ⟨s, rfl, hs, h⟩
  | succ n ih =>
      obtain ⟨u, hu, hinv, hrank⟩ := hstep s n hs h
      obtain ⟨t, ht, hdone⟩ := ih hinv hrank
      refine ⟨t, ?_, hdone⟩
      rw [List.replicate_succ, run_cons, hu, Option.bind_some, ht]

/-- The part of a guard that is about the labels alone. -/
theorem meets_and_forall {step : σ → ℓ → Option σ} {guard : σ → ℓ → Prop} {allowed : ℓ → Prop}
    {s t : σ} {ls : List ℓ} (hrun : run step s ls = some t) :
    Meets step (fun s l ↦ guard s l ∧ allowed l) s ls ↔
      Meets step guard s ls ∧ ∀ l ∈ ls, allowed l := by
  induction ls generalizing s with
  | nil => simp [Meets]
  | cons l ls ih =>
      obtain ⟨u, hu, hrest⟩ := Option.bind_eq_some_iff.mp hrun
      rw [meets_cons_of_step hu, meets_cons_of_step hu, ih hrest, List.forall_mem_cons]
      tauto

/-! ## History variables -/

/-- Run the system together with a history that each step may extend but
cannot influence. -/
def withHistory (step : σ → ℓ → Option σ) (record : σ → ℓ → γ → γ) :
    σ × γ → ℓ → Option (σ × γ) :=
  fun p l ↦ (step p.1 l).map fun t ↦ (t, record p.1 l p.2)

@[simp] theorem withHistory_eq_some {step : σ → ℓ → Option σ} {record : σ → ℓ → γ → γ}
    {p q : σ × γ} {l : ℓ} :
    withHistory step record p l = some q ↔
      step p.1 l = some q.1 ∧ record p.1 l p.2 = q.2 := by
  obtain ⟨t, h⟩ := q
  simp [withHistory]

theorem run_of_withHistory {step : σ → ℓ → Option σ} {record : σ → ℓ → γ → γ} {s t : σ} {g h : γ}
    {ls : List ℓ} (hrun : run (withHistory step record) (s, g) ls = some (t, h)) :
    run step s ls = some t := by
  induction ls generalizing s g with
  | nil => exact congrArg _ (Prod.mk.inj (Option.some.inj hrun)).1
  | cons l ls ih =>
      obtain ⟨⟨u, g'⟩, hu, hrest⟩ := Option.bind_eq_some_iff.mp hrun
      exact Option.bind_eq_some_iff.mpr ⟨u, (withHistory_eq_some.mp hu).1, ih hrest⟩

theorem meets_withHistory {step : σ → ℓ → Option σ} {record : σ → ℓ → γ → γ}
    {guard : σ → ℓ → Prop} {s : σ} {g : γ} {ls : List ℓ} (h : Meets step guard s ls) :
    Meets (withHistory step record) (fun p ↦ guard p.1) (s, g) ls := by
  induction ls generalizing s g with
  | nil => trivial
  | cons l ls ih =>
      obtain ⟨hl, hls⟩ := h
      refine ⟨hl, ?_⟩
      cases hstep : step s l with
      | none => simp [withHistory, hstep]
      | some t =>
          rw [hstep] at hls
          simpa [withHistory, hstep] using ih hls

/-- Two guards that agree where the history says what it should are met by the same
runs. -/
theorem meets_withHistory_iff {step : σ → ℓ → Option σ} {record : σ → ℓ → γ → γ}
    {guard : σ → ℓ → Prop} {guard' : σ × γ → ℓ → Prop} {inv : σ × γ → Prop}
    (hguard : ∀ p l, inv p → (guard p.1 l ↔ guard' p l))
    (hstep : ∀ p l q, inv p → withHistory step record p l = some q → inv q)
    {s : σ} {g : γ} (h : inv (s, g)) (ls : List ℓ) :
    Meets step guard s ls ↔ Meets (withHistory step record) guard' (s, g) ls := by
  induction ls generalizing s g with
  | nil => exact Iff.rfl
  | cons l ls ih =>
      have hl := hguard (s, g) l h
      cases ht : step s l with
      | none => simpa [Meets, withHistory, ht] using hl
      | some t =>
          have hq : withHistory step record (s, g) l = some (t, record s l g) :=
            withHistory_eq_some.mpr ⟨ht, rfl⟩
          rw [meets_cons_of_step ht, meets_cons_of_step hq, hl, ih (hstep _ l _ h hq)]

end Runs
