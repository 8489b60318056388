import EmbeddedSystem.Ui.System

/-!
# The page follows the status

The main thread looks at `ui_status` between its actions.  While nobody changes the word, a
rank counts the steps that it still needs to the page which the word names.  Once the word
is `UI_END`, this page is the end of the program, unless a write is under way: that of a
back button whose thread sleeps, or that of a reply of the voice server.
-/

namespace EmbeddedSystem.Ui

open Runs

/-- The page that the main thread is in. -/
def MainPc.page : MainPc → Option UiStatus
  | .select => none
  | .procMain => some .uiMain
  | .procPic _ => some .uiPic
  | .procMedia m _ => some m.uiStatus
  | .procVoice _ => some .uiVoice
  | .ended => some .uiEnd

def Sys.OnPage (s : Sys) : Prop := s.main.page = some s.words.uiStatus

instance (s : Sys) : Decidable s.OnPage := inferInstanceAs (Decidable (_ = _))

/-- How many steps a page function with a loop needs to return, once the word has changed. -/
def LoopPc.leaving {κ : Type} : LoopPc κ → ℕ
  | .test => 1
  | .entry => 2
  | .followUp _ => 2
  | .act _ => 3
  | .switch => 4

def MainPc.leaving : MainPc → ℕ
  | .select => 0
  | .procMain => 1
  | .procPic pc => pc.leaving
  | .procMedia _ pc => pc.leaving
  | .procVoice .entry => 2
  | .procVoice .test => 1
  | .procVoice .exchange => 2
  | .procVoice (.compare _) => 2
  | .ended => 0

/-- The steps of the main thread to the page that `ui_status` names. -/
def Sys.rank (s : Sys) : ℕ := if s.OnPage then 0 else s.main.leaving + 1

/-- Neither the main thread nor a reply that it waits for is about to write another page
into `ui_status`. -/
structure Settled (s : Sys) : Prop where
  command : (s.command.bind voiceTarget).getD s.words.uiStatus = s.words.uiStatus
  exchange : s.main = .procVoice .exchange → s.words.uiStatus = .uiVoice
  ended : s.main = .ended → s.words.uiStatus = .uiEnd

theorem rank_eq_zero_iff {s : Sys} : s.rank = 0 ↔ s.OnPage := by
  unfold Sys.rank
  split <;> simp_all

theorem rank_le_five (s : Sys) : s.rank ≤ 5 := by
  have hloop : ∀ {κ : Type} (pc : LoopPc κ), pc.leaving ≤ 4 := by
    intro κ pc
    cases pc <;> simp [LoopPc.leaving]
  unfold Sys.rank
  split
  next => exact Nat.zero_le 5
  next =>
    cases hmain : s.main with
    | procPic pc => exact Nat.succ_le_succ (hloop pc)
    | procMedia m pc => exact Nat.succ_le_succ (hloop pc)
    | procVoice pc => cases pc <;> simp [MainPc.leaving]
    | _ => simp [MainPc.leaving]

/-! ## A step of the main thread -/

theorem next_of_open {κ : Type} (word : κ) (pc : LoopPc κ) :
    ∃ pc', pc.next true word = some pc' := by
  cases pc <;> exact ⟨_, rfl⟩

/-- A loop whose page is not shown any more comes nearer to its end. -/
theorem leaving_next {κ : Type} (word : κ) (pc : LoopPc κ) :
    pc.next false word = none ∧ pc.leaving = 1 ∨
      ∃ pc', pc.next false word = some pc' ∧ pc.leaving = pc'.leaving + 1 := by
  cases pc with
  | test => exact Or.inl ⟨rfl, rfl⟩
  | entry => exact Or.inr ⟨.test, rfl, rfl⟩
  | switch => exact Or.inr ⟨.act word, rfl, rfl⟩
  | act c => exact Or.inr ⟨.followUp c, rfl, rfl⟩
  | followUp c => exact Or.inr ⟨.test, rfl, rfl⟩

theorem page_page (u : UiStatus) : (page u).page = some u := by
  cases u <;> rfl

theorem rank_of_onPage {s : Sys} (h : s.main.page = some s.words.uiStatus) : s.rank = 0 :=
  if_pos h

theorem rank_of_not_onPage {s : Sys} (h : s.main.page ≠ some s.words.uiStatus) :
    s.rank = s.main.leaving + 1 := if_neg h

theorem rank_of_select {s : Sys} (h : s.main = .select) : s.rank = 1 := by
  rw [rank_of_not_onPage (by simp [h, MainPc.page]), h]
  rfl

/-- The steps of the page functions with a status word. -/
theorem rank_of_loop {κ : Type} {f : LoopPc κ → MainPc} {u : UiStatus}
    (hpage : ∀ pc, (f pc).page = some u) (hleaving : ∀ pc, (f pc).leaving = pc.leaving)
    {s t : Sys} {pc : LoopPc κ} {word : κ} (hs : s.main = f pc)
    (ht : t.main = (pc.next (s.words.uiStatus = u) word).elim .select f)
    (hui : t.words.uiStatus = s.words.uiStatus) : t.rank = s.rank - 1 := by
  by_cases hshown : s.words.uiStatus = u
  · obtain ⟨pc', hnext⟩ := next_of_open word pc
    have hmain : t.main = f pc' := by simpa [hshown, hnext] using ht
    rw [rank_of_onPage (by rw [hmain, hpage, hui, hshown]),
      rank_of_onPage (by rw [hs, hpage, hshown])]
  · have hother : s.rank = pc.leaving + 1 := by
      rw [rank_of_not_onPage (by rw [hs, hpage]; simpa using Ne.symm hshown), hs, hleaving]
    obtain ⟨hnext, hone⟩ | ⟨pc', hnext, hless⟩ := leaving_next word pc
    · have hmain : t.main = .select := by simpa [hshown, hnext] using ht
      rw [rank_of_select hmain, hother, hone]
    · have hmain : t.main = f pc' := by simpa [hshown, hnext] using ht
      rw [rank_of_not_onPage (by rw [hmain, hpage, hui]; simpa using Ne.symm hshown), hmain,
        hleaving, hother, hless]
      rfl

theorem rank_mainStep {s t : Sys} (ht : mainStep s = some t)
    (hui : t.words.uiStatus = s.words.uiStatus) : t.rank = s.rank - 1 := by
  unfold mainStep at ht
  cases hmain : s.main with
  | select =>
      simp only [hmain, Option.some.injEq] at ht
      rw [rank_of_select hmain, rank_of_onPage (by rw [hui, ← ht]; exact page_page _)]
  | procMain =>
      simp only [hmain, Option.some.injEq] at ht
      split at ht
      next hshown =>
        subst ht
        rw [rank_of_onPage (by rw [hmain, hshown]; rfl)]
      next hshown =>
        have hother : s.rank = 2 := by
          rw [rank_of_not_onPage (by rw [hmain]; simpa [MainPc.page] using Ne.symm hshown), hmain]
          rfl
        rw [rank_of_select (by rw [← ht]), hother]
  | procPic pc =>
      simp only [hmain, Option.some.injEq] at ht
      exact rank_of_loop (fun _ ↦ rfl) (fun _ ↦ rfl) hmain (by rw [← ht]) hui
  | procMedia m pc =>
      simp only [hmain, Option.some.injEq] at ht
      exact rank_of_loop (fun _ ↦ rfl) (fun _ ↦ rfl) hmain (by rw [← ht, main_setPlayer]) hui
  | procVoice pc =>
      have hback : t.main = .procVoice .test → (MainPc.procVoice pc).leaving = 2 →
          t.rank = s.rank - 1 := by
        intro htest hleaving
        by_cases hshown : s.words.uiStatus = .uiVoice
        · rw [rank_of_onPage (by rw [htest, hui, hshown]; rfl),
            rank_of_onPage (by rw [hmain, hshown]; rfl)]
        · have hne : some UiStatus.uiVoice ≠ some s.words.uiStatus := by
            simpa using Ne.symm hshown
          rw [rank_of_not_onPage (by rwa [htest, hui]), htest,
            rank_of_not_onPage (by rwa [hmain]), hmain, hleaving]
          rfl
      cases pc with
      | entry =>
          simp only [hmain, Option.some.injEq] at ht
          exact hback (by rw [← ht]) rfl
      | compare command =>
          simp only [hmain, Option.some.injEq] at ht
          exact hback (by rw [← ht]) rfl
      | exchange => simp [hmain] at ht
      | test =>
          simp only [hmain, Option.some.injEq] at ht
          subst ht
          by_cases hshown : s.words.uiStatus = .uiVoice
          · rw [rank_of_onPage (by simp [hshown, MainPc.page]),
              rank_of_onPage (by rw [hmain, hshown]; rfl)]
          · have hne : s.main.page ≠ some s.words.uiStatus := by
              simpa [hmain, MainPc.page] using Ne.symm hshown
            rw [rank_of_select (by simp [hshown]), rank_of_not_onPage hne, hmain]
            rfl
  | ended => simp [hmain] at ht

/-- Where the main thread gets to by itself. -/
theorem main_mainStep {s t : Sys} (ht : mainStep s = some t) :
    (∀ command, t.main ≠ .procVoice (.compare command)) ∧
      (t.main = .procVoice .exchange → s.words.uiStatus = .uiVoice) ∧
      (t.main = .ended → s.words.uiStatus = .uiEnd) := by
  unfold mainStep at ht
  cases hmain : s.main with
  | select =>
      simp only [hmain, Option.some.injEq] at ht
      subst ht
      cases s.words.uiStatus <;> simp [page]
  | procMain =>
      simp only [hmain, Option.some.injEq] at ht
      subst ht
      split <;> simp [hmain]
  | procPic pc =>
      simp only [hmain, Option.some.injEq] at ht
      subst ht
      cases pc.next (s.words.uiStatus = .uiPic) s.words.picStatus <;> simp
  | procMedia m pc =>
      simp only [hmain, Option.some.injEq] at ht
      subst ht
      rw [main_setPlayer]
      cases pc.next (s.words.uiStatus = m.uiStatus) (s.words.media m) <;> simp
  | procVoice pc =>
      cases pc with
      | exchange => simp [hmain] at ht
      | test =>
          simp only [hmain, Option.some.injEq] at ht
          subst ht
          by_cases hshown : s.words.uiStatus = .uiVoice <;> simp [hshown]
      | _ =>
          simp only [hmain, Option.some.injEq] at ht
          subst ht
          simp
  | ended => simp [hmain] at ht

theorem settled_mainStep {s t : Sys} (h : Settled s) (ht : mainStep s = some t) :
    Settled t ∧ t.words.uiStatus = s.words.uiStatus := by
  have hui : t.words.uiStatus = s.words.uiStatus := (words_mainStep ht).1.trans h.command
  obtain ⟨hcompare, hexchange, hended⟩ := main_mainStep ht
  have hcommand : t.command = none := by
    unfold Sys.command
    split
    next command hmain => exact absurd hmain (hcompare command)
    next => rfl
  exact ⟨⟨by simp [hcommand], fun hmain ↦ hui.trans (hexchange hmain),
    fun hmain ↦ hui.trans (hended hmain)⟩, hui⟩

/-- The main thread waits in an exchange alone. -/
theorem exists_mainStep {s : Sys} (hexchange : s.main ≠ .procVoice .exchange)
    (hended : s.main ≠ .ended) : ∃ t, mainStep s = some t := by
  unfold mainStep
  cases hmain : s.main with
  | procVoice pc =>
      cases pc with
      | exchange => exact absurd hmain hexchange
      | _ => exact ⟨_, rfl⟩
  | ended => exact absurd hmain hended
  | _ => exact ⟨_, rfl⟩

/-! ## Steps of others -/

/-- No step that the label can stand for changes `ui_status`. -/
def KeepsStatus (s : Sys) (l : Label) : Prop :=
  ∀ t ∈ step s l, t.words.uiStatus = s.words.uiStatus

instance (s : Sys) (l : Label) : Decidable (KeepsStatus s l) :=
  inferInstanceAs (Decidable (∀ t ∈ step s l, _))

def Label.isMain : Label → Bool
  | .main => true
  | _ => false

theorem rank_congr_of_page {s t : Sys} (hpage : t.main.page = s.main.page)
    (hleaving : t.main.leaving = s.main.leaving) (hui : t.words.uiStatus = s.words.uiStatus) :
    t.rank = s.rank := by
  by_cases hshown : s.main.page = some s.words.uiStatus
  · rw [rank_of_onPage hshown, rank_of_onPage (by rwa [hpage, hui])]
  · rw [rank_of_not_onPage hshown, rank_of_not_onPage (by rwa [hpage, hui]), hleaving]

theorem rank_congr {s t : Sys} (hmain : t.main = s.main)
    (hui : t.words.uiStatus = s.words.uiStatus) : t.rank = s.rank :=
  rank_congr_of_page (congrArg MainPc.page hmain) (congrArg MainPc.leaving hmain) hui

theorem settled_congr {s t : Sys} (h : Settled s) (hmain : t.main = s.main)
    (hui : t.words.uiStatus = s.words.uiStatus) : Settled t := by
  have hcommand : t.command = s.command := by simp only [Sys.command, hmain]
  constructor
  · rw [hcommand, hui]
    exact h.command
  · rw [hmain, hui]
    exact h.exchange
  · rw [hmain, hui]
    exact h.ended

theorem rank_step {s t : Sys} {l : Label} (hstep : step s l = some t)
    (hui : t.words.uiStatus = s.words.uiStatus) :
    t.rank = s.rank - if l.isMain then 1 else 0 := by
  cases stepChange_step hstep with
  | touched a b moveX moveY htouch hmain => exact rank_congr rfl hui
  | resumed htouch hmain => exact rank_congr rfl hui
  | main ht => exact rank_mainStep ht hui
  | exchanged command hmain =>
      -- the answer is compared as many steps before the page is left as it is waited for
      exact rank_congr_of_page (by rw [hmain]; rfl) (by rw [hmain]; rfl) hui
  | delivered m i p => exact rank_congr (main_setPlayer s p m) hui
  | exited m i p => exact rank_congr (main_setPlayer s p m) hui

/-- While no step changes `ui_status`, the main thread is on the page it names from the moment
on that it has taken `rank` steps, at most five, whatever is touched, replied or played in the
meantime; and in a settled state it can take them alone. -/
theorem page_follows_status (s : Sys) :
    s.rank ≤ 5 ∧
    (∀ ls t, Meets step KeepsStatus s ls → run step s ls = some t →
      t.words.uiStatus = s.words.uiStatus ∧ (t.OnPage ↔ s.rank ≤ ls.countP Label.isMain)) ∧
    (Settled s → ∃ t, run step s (List.replicate s.rank .main) = some t ∧
      t.words.uiStatus = s.words.uiStatus ∧ t.OnPage) := by
  refine ⟨rank_le_five s, fun ls t hkeeps hrun ↦ ?_, fun h ↦ ?_⟩
  · have hkept : ∀ u l v, u.words.uiStatus = s.words.uiStatus → KeepsStatus u l →
        step u l = some v → v.words.uiStatus = s.words.uiStatus :=
      fun u l v hu hl hv ↦ (hl v hv).trans hu
    have hlower : ∀ u l v, u.words.uiStatus = s.words.uiStatus → KeepsStatus u l →
        step u l = some v → v.rank = u.rank - if l.isMain then 1 else 0 :=
      fun u l v _ hl hv ↦ rank_step hv (hl v hv)
    have hrank := rank_eq_sub_countP hkept hlower rfl hkeeps hrun
    refine ⟨invariant_of_meets hkept rfl hkeeps hrun, ?_⟩
    rw [← rank_eq_zero_iff, hrank]
    omega
  · have hstep : ∀ u n, (Settled u ∧ u.words.uiStatus = s.words.uiStatus) → u.rank = n + 1 →
        ∃ v, step u .main = some v ∧ (Settled v ∧ v.words.uiStatus = s.words.uiStatus) ∧
          v.rank = n := by
      rintro u n ⟨hu, hs⟩ hrank
      have hnot : ¬ u.OnPage := fun hpage ↦ by
        rw [rank_eq_zero_iff.mpr hpage] at hrank
        cases hrank
      obtain ⟨v, hv⟩ := exists_mainStep
        (fun hmain ↦ hnot (by rw [Sys.OnPage, hmain, hu.exchange hmain]; rfl))
        (fun hmain ↦ hnot (by rw [Sys.OnPage, hmain, hu.ended hmain]; rfl))
      obtain ⟨hsettled, hui⟩ := settled_mainStep hu hv
      exact ⟨v, hv, ⟨hsettled, hui.trans hs⟩,
        by rw [rank_mainStep hv hui, hrank, Nat.add_sub_cancel]⟩
    obtain ⟨t, ht, ⟨-, hui⟩, hrank⟩ := exists_run_replicate hstep ⟨h, rfl⟩
    exact ⟨t, ht, hui, rank_eq_zero_iff.mp hrank⟩

/-- A song has just been started, and the voice page is about to be shown. -/
def leavingMusic : Sys :=
  { init with
    words := ⟨.uiVoice, .picPlay, .start, .null⟩
    main := .procMedia .music .switch }

/-- Touches beside the back button, and a reply that names no page, on the way there. -/
def touchedMeanwhile : List Label :=
  [.main, .touch 400 10 0 0, .main, .main, .touch 400 10 0 0, .main, .main, .main, .main,
    .exchange [], .main]

theorem leavingMusic_gets_to_voice :
    (∃ t, run step leavingMusic touchedMeanwhile = some t ∧ t.OnPage) ∧
      ∃ t, run step leavingMusic (List.replicate 5 .main) = some t ∧ t.OnPage := by
  have hsettled : Settled leavingMusic :=
    ⟨rfl, fun h ↦ absurd h (by decide), fun h ↦ absurd h (by decide)⟩
  obtain ⟨-, hmeanwhile, halone⟩ := page_follows_status leavingMusic
  have hsome : (run step leavingMusic touchedMeanwhile).isSome := by decide +kernel
  obtain ⟨t, ht⟩ := Option.isSome_iff_exists.mp hsome
  refine ⟨⟨t, ht, (hmeanwhile _ t (by decide +kernel) ht).2.mpr (by decide)⟩, ?_⟩
  obtain ⟨u, hu, -, hpage⟩ := halone hsettled
  exact ⟨u, hu, hpage⟩

/-! ## The end of the program -/

/-- Nothing that is under way can write `ui_status`: no reply, and no back button that sleeps. -/
def EndFinal (s : Sys) : Prop := Settled s ∧ (s.touch = .idle ∨ s.main = .ended)

theorem touch_mainStep {s t : Sys} (ht : mainStep s = some t) : t.touch = s.touch := by
  unfold mainStep at ht
  cases hmain : s.main with
  | procMain =>
      simp only [hmain, Option.some.injEq] at ht
      subst ht
      split <;> rfl
  | procMedia m pc =>
      simp only [hmain, Option.some.injEq] at ht
      subst ht
      cases m <;> rfl
  | procVoice pc =>
      cases pc <;> simp only [hmain, Option.some.injEq, reduceCtorEq] at ht <;> subst ht <;> rfl
  | _ => simp only [hmain, Option.some.injEq, reduceCtorEq] at ht <;> subst ht <;> rfl

theorem touch_setPlayer (s : Sys) (p : Player) (m : MediaPage) :
    (s.setPlayer p m).touch = s.touch := by
  cases m <;> rfl

theorem endFinal_congr {s t : Sys} (h : EndFinal s) (hmain : t.main = s.main)
    (hui : t.words.uiStatus = s.words.uiStatus) (htouch : t.touch = s.touch) : EndFinal t :=
  ⟨settled_congr h.1 hmain hui, by rw [hmain, htouch]; exact h.2⟩

theorem endFinal_step {s t : Sys} {l : Label} (hui : s.words.uiStatus = .uiEnd) (h : EndFinal s)
    (hstep : step s l = some t) :
    (t.words.uiStatus = .uiEnd ∧ EndFinal t) ∧ t.rank = s.rank - if l.isMain then 1 else 0 := by
  obtain ⟨hsettled, hidle⟩ := h
  cases stepChange_step hstep with
  | touched a b moveX moveY htouch hmain =>
      -- the touch thread has no case for `UI_END`
      have hnothing : dispatch a b moveX moveY s.words = {} := by rw [dispatch, hui]
      have hkept : (dispatch a b moveX moveY s.words).apply s.words = s.words := by
        rw [hnothing]
        rfl
      rw [hkept, hnothing]
      exact ⟨⟨hui, endFinal_congr ⟨hsettled, hidle⟩ rfl rfl htouch.symm⟩, rank_congr rfl rfl⟩
  | resumed htouch hmain => simp [htouch, hmain] at hidle
  | main ht =>
      obtain ⟨hsettled', hui'⟩ := settled_mainStep hsettled ht
      have hrunning : s.main ≠ .ended := fun hmain ↦ by simp [mainStep, hmain] at ht
      refine ⟨⟨hui'.trans hui, hsettled', Or.inl ?_⟩, rank_mainStep ht hui'⟩
      rw [touch_mainStep ht]
      exact hidle.resolve_right hrunning
  | exchanged command hmain =>
      have hvoice := hsettled.exchange hmain
      rw [hui] at hvoice
      cases hvoice
  | delivered m i p =>
      have hmain := main_setPlayer s p m
      have hwords := congrArg Words.uiStatus (words_setPlayer s p m)
      exact ⟨⟨hwords.trans hui, endFinal_congr ⟨hsettled, hidle⟩ hmain hwords
        (touch_setPlayer s p m)⟩, rank_congr hmain hwords⟩
  | exited m i p =>
      have hmain := main_setPlayer s p m
      have hwords := congrArg Words.uiStatus (words_setPlayer s p m)
      exact ⟨⟨hwords.trans hui, endFinal_congr ⟨hsettled, hidle⟩ hmain hwords
        (touch_setPlayer s p m)⟩, rank_congr hmain hwords⟩

theorem onPage_iff_ended {s : Sys} (hui : s.words.uiStatus = .uiEnd) :
    s.OnPage ↔ s.main = .ended := by
  unfold Sys.OnPage
  rw [hui]
  cases hmain : s.main with
  | procMedia m pc => cases m <;> simp [MainPc.page, MediaPage.uiStatus]
  | _ => simp [MainPc.page]

/-- A write under way takes `UI_END` back in some run. -/
theorem exists_run_of_not_endFinal {s : Sys} (hui : s.words.uiStatus = .uiEnd)
    (h : ¬ EndFinal s) : ∃ ls t, run step s ls = some t ∧ t.words.uiStatus ≠ .uiEnd := by
  have hfound : ∀ ls u, u ≠ .uiEnd → (run step s ls).map (fun t ↦ t.words.uiStatus) = some u →
      ∃ ls t, run step s ls = some t ∧ t.words.uiStatus ≠ .uiEnd := by
    intro ls u hu hrun
    obtain ⟨t, ht, rfl⟩ := Option.map_eq_some_iff.mp hrun
    exact ⟨ls, t, ht, hu⟩
  by_cases hexchange : s.main = .procVoice .exchange
  · refine hfound [.exchange openAlbumText, .main] .uiPic (by decide) ?_
    simp [step, hexchange, mainStep, Sys.setUi, show voiceTarget openAlbumText = some .uiPic by rfl]
  by_cases hcommand : (s.command.bind voiceTarget).getD s.words.uiStatus = s.words.uiStatus
  · have hpending : ¬ (s.touch = .idle ∨ s.main = .ended) := fun hidle ↦
      h ⟨⟨hcommand, fun hmain ↦ absurd hmain hexchange, fun _ ↦ hui⟩, hidle⟩
    push Not at hpending
    have hback : s.touch = .back := by
      cases htouch : s.touch with
      | idle => exact absurd htouch hpending.1
      | back => rfl
    refine hfound [.resume] .uiMain (by decide) ?_
    simp [step, hback, hpending.2, Sys.setUi]
  · cases hmain : s.main with
    | procVoice pc =>
        cases pc with
        | compare command =>
            rw [hui] at hcommand
            refine hfound [.main] _ hcommand ?_
            simp [step, hmain, mainStep, Sys.setUi, Sys.command, hui]
        | _ => simp [Sys.command, hmain] at hcommand
    | _ => simp [Sys.command, hmain] at hcommand

/-- `UI_END` is for good exactly when no write of a reply or of a sleeping back button is under
way; then the program has ended after exactly `rank` steps of the main thread, whatever is
touched in the meantime. -/
theorem end_is_final_iff {s : Sys} (hui : s.words.uiStatus = .uiEnd) :
    ((∀ ls t, run step s ls = some t → t.words.uiStatus = .uiEnd) ↔ EndFinal s) ∧
      (EndFinal s → ∀ ls t, run step s ls = some t →
        (t.main = .ended ↔ s.rank ≤ ls.countP Label.isMain)) := by
  have hkept : ∀ u l v, u.words.uiStatus = .uiEnd ∧ EndFinal u → step u l = some v →
      v.words.uiStatus = .uiEnd ∧ EndFinal v :=
    fun u l v hu hv ↦ (endFinal_step hu.1 hu.2 hv).1
  refine ⟨⟨fun hall ↦ ?_, fun h ls t hrun ↦ ?_⟩, fun h ls t hrun ↦ ?_⟩
  · by_contra hnot
    obtain ⟨ls, t, hrun, hne⟩ := exists_run_of_not_endFinal hui hnot
    exact hne (hall ls t hrun)
  · exact (invariant hkept ⟨hui, h⟩ hrun).1
  · have hlower : ∀ u l v, u.words.uiStatus = .uiEnd ∧ EndFinal u → True → step u l = some v →
        v.rank = u.rank - if l.isMain then 1 else 0 :=
      fun u l v hu _ hv ↦ (endFinal_step hu.1 hu.2 hv).2
    have hend := invariant hkept ⟨hui, h⟩ hrun
    have hrank := rank_eq_sub_countP (fun u l v hu _ hv ↦ hkept u l v hu hv) hlower ⟨hui, h⟩
      (meets_true step s ls) hrun
    rw [← onPage_iff_ended hend.1, ← rank_eq_zero_iff, hrank]
    omega

/-- The shutdown button has just been touched on the main page. -/
def closing : Sys :=
  { init with
    words := { init.words with uiStatus := .uiEnd }
    main := .procMain }

/-- Two steps later the program has ended, with a touch in between. -/
theorem closing_ends :
    ∃ t, run step closing [.main, .touch 400 450 0 0, .main] = some t ∧ t.main = .ended := by
  have hsome : (run step closing [.main, .touch 400 450 0 0, .main]).isSome := by decide +kernel
  obtain ⟨t, ht⟩ := Option.isSome_iff_exists.mp hsome
  have hfinal : EndFinal closing :=
    ⟨⟨rfl, fun h ↦ absurd h (by decide), fun h ↦ absurd h (by decide)⟩, Or.inl rfl⟩
  exact ⟨t, ht, ((end_is_final_iff (s := closing) rfl).2 hfinal _ t ht).mpr (by decide)⟩

/-- Into the exchange of the voice page, and back to the main page by a touch. -/
def leaveVoice : List Label :=
  [.main, .touch 640 320 0 0, .main, .main, .main, .main, .touch 30 30 0 0]

-- the reply to a request that was left opens the album after the shutdown button; and a back
-- button that sleeps takes back the reply that closes the program
example :
    (run step init (leaveVoice ++ [.touch 760 30 0 0])).map (fun s ↦ s.words.uiStatus) =
        some .uiEnd ∧
      (run step init (leaveVoice ++ [.touch 760 30 0 0, .exchange openAlbumText, .main])).map
        (fun s ↦ s.words.uiStatus) = some .uiPic ∧
      (run step init (leaveVoice ++ [.touch 320 320 0 0, .touch 770 30 0 0,
        .exchange closeProgramText, .main])).map (fun s ↦ s.words.uiStatus) = some .uiEnd ∧
      (run step init (leaveVoice ++ [.touch 320 320 0 0, .touch 770 30 0 0,
        .exchange closeProgramText, .main, .resume])).map (fun s ↦ s.words.uiStatus) =
        some .uiMain := by
  decide +kernel

end EmbeddedSystem.Ui
