import EmbeddedSystem.Foundation.Mailbox
import EmbeddedSystem.Ui.System

/-!
# Lost commands

A status word is a mailbox with one slot: the touch handlers post commands, the
page's `switch` takes them, and most arms end by overwriting the word.  A
command is lost when it arrives between the `switch` and that write, and only
then.
-/

namespace EmbeddedSystem.Ui

open Runs Mailbox

/-- The arm that the loop is in. -/
def LoopPc.arm {κ : Type} : LoopPc κ → Option κ
  | .act c => some c
  | .followUp c => some c
  | _ => none

/-- The status word of a page, as the two threads use it. -/
structure PageWord (κ : Type) where
  uiStatus : UiStatus
  /-- The enumerator that is no command. -/
  null : κ
  followUp : κ → Option κ
  assigned : Assigns → Option κ
  pc : Sys → Option (LoopPc κ)

def picWord : PageWord PicStatus where
  uiStatus := .uiPic
  null := .picNull
  followUp := picFollowUp
  assigned := Assigns.picStatus
  pc := Sys.picPc

def mediaWord (m : MediaPage) : PageWord MediaStatus where
  uiStatus := m.uiStatus
  null := .null
  followUp := mediaFollowUp
  assigned d := d.media m
  pc s := s.mediaPc m

section Words

variable {κ : Type} [DecidableEq κ] (p : PageWord κ)

/-- What a step does to the word as a mailbox.  Commands are posted by the
handler of the open page. -/
def PageWord.event (s : Sys) : Label → Event κ
  | .touch a b moveX moveY =>
    match p.assigned (dispatch a b moveX moveY s.words) with
    | none => .quiet
    | some c => if s.words.uiStatus = p.uiStatus ∧ c ≠ p.null then .post c else .clear
  | .main =>
    match p.pc s with
    | some .switch => .take
    | some (.followUp c) => if (p.followUp c).isSome then .replace else .quiet
    | _ => .quiet
  | _ => .quiet

/-- The loop is between its `switch` and the write at the end of an arm. -/
def PageWord.Busy (s : Sys) : Prop :=
  ∃ c ∈ (p.pc s).bind LoopPc.arm, (p.followUp c).isSome

instance (s : Sys) : Decidable (p.Busy s) :=
  decidable_of_iff (((p.pc s).bind LoopPc.arm).any fun c ↦ (p.followUp c).isSome)
    (by simp [PageWord.Busy, Option.any_eq_true])

/-- The main thread moves into a page function and out of it by the steps of its
loop alone. -/
def PageWord.Moves : Prop :=
  ∀ s l t, step s l = some t →
    p.pc t = p.pc s ∨ p.pc t = none ∨ p.pc t = some .entry ∨
      l = .main ∧ ∃ pc isOpen word, p.pc s = some pc ∧ p.pc t = pc.next isOpen word

variable {p}

theorem PageWord.busy_of_replace {s : Sys} {l : Label} (h : p.event s l = .replace) :
    p.Busy s := by
  cases l with
  | touch a b moveX moveY =>
      simp only [event] at h
      split at h
      · simp at h
      · split at h <;> simp at h
  | main =>
      simp only [event] at h
      split at h
      · simp at h
      next c hat =>
        by_cases hwrites : (p.followUp c).isSome
        · exact ⟨c, by simp [hat, LoopPc.arm], hwrites⟩
        · simp [hwrites] at h
      · simp at h
  | _ => simp [event] at h

theorem PageWord.take_of_busy (hmoves : p.Moves) {s t : Sys} {l : Label}
    (hstep : step s l = some t) (ht : p.Busy t) : p.Busy s ∨ p.event s l = .take := by
  obtain ⟨c, hc, hwrites⟩ := ht
  rcases hmoves s l t hstep with hsame | hnone | hentry | ⟨rfl, pc, isOpen, word, hs, hnext⟩
  · exact Or.inl ⟨c, hsame ▸ hc, hwrites⟩
  · simp [hnone] at hc
  · simp [hentry, LoopPc.arm] at hc
  · cases pc with
    | entry => simp [hnext, LoopPc.next, LoopPc.arm] at hc
    | test => cases isOpen <;> simp [hnext, LoopPc.next, LoopPc.arm] at hc
    | switch => exact Or.inr (by simp [event, hs])
    | act d =>
        have hd : d = c := by simpa [hnext, LoopPc.next, LoopPc.arm] using hc
        exact Or.inl ⟨c, by simp [hs, hd, LoopPc.arm], hwrites⟩
    | followUp d => simp [hnext, LoopPc.next, LoopPc.arm] at hc

theorem PageWord.lost_eq_nil (hmoves : p.Moves) {s t : Sys} (hs : p.pc s = none)
    {m : Monitor κ} {ls : List Label} (hfree : Meets step (PostsOnlyWhenFree p.event p.Busy) s ls)
    (hrun : run (monitored step p.event) (s, .fresh) ls = some (t, m)) : m.lost = [] := by
  have hidle : ¬ p.Busy s := by
    rintro ⟨c, hc, _⟩
    simp [hs] at hc
  exact Mailbox.lost_eq_nil (fun _ _ h ↦ PageWord.busy_of_replace h)
    (fun _ _ _ h ht ↦ PageWord.take_of_busy hmoves h ht) hidle hfree hrun

end Words

/-! ## The three words -/

theorem mediaWord_moves (m : MediaPage) : (mediaWord m).Moves := by
  intro s l t hstep
  cases mediaChange_step hstep m with
  | loop pc hs ht =>
      exact Or.inr (Or.inr (Or.inr ⟨rfl, pc, _, _, hs, ht⟩))
  | entered _ ht => exact Or.inr (Or.inr (Or.inl ht))
  | elsewhere _ ht => exact Or.inr (Or.inl ht)
  | touched ht => exact Or.inl ht
  | resumed ht => exact Or.inl ht
  | event ht => exact Or.inl ht

theorem picPc_of_page (s : Sys) (u : UiStatus) :
    Sys.picPc { s with main := page u } = if u = .uiPic then some .entry else none := by
  cases u <;> rfl

theorem picPc_mainStep {s t : Sys} (h : mainStep s = some t) :
    t.picPc = s.picPc ∨ t.picPc = none ∨ t.picPc = some .entry ∨
      ∃ pc isOpen word, s.picPc = some pc ∧ t.picPc = pc.next isOpen word := by
  unfold mainStep at h
  cases hmain : s.main with
  | select =>
      simp only [hmain, Option.some.injEq] at h
      subst h
      rw [picPc_of_page]
      split
      · exact Or.inr (Or.inr (Or.inl rfl))
      · exact Or.inr (Or.inl rfl)
  | procMain =>
      simp only [hmain, Option.some.injEq] at h
      subst h
      split
      · exact Or.inl rfl
      · exact Or.inr (Or.inl rfl)
  | procPic pc =>
      simp only [hmain, Option.some.injEq] at h
      subst h
      refine Or.inr (Or.inr (Or.inr ⟨pc, s.words.uiStatus = .uiPic, s.words.picStatus,
        by simp [Sys.picPc, hmain], ?_⟩))
      cases pc.next (s.words.uiStatus = .uiPic) s.words.picStatus <;> rfl
  | procMedia m pc =>
      simp only [hmain, Option.some.injEq] at h
      subst h
      refine Or.inr (Or.inl ?_)
      cases hnext : pc.next (s.words.uiStatus = m.uiStatus) (s.words.media m) <;>
        simp [Sys.picPc]
  | procVoice pc =>
      refine Or.inr (Or.inl ?_)
      cases pc with
      | entry =>
          simp only [hmain, Option.some.injEq] at h
          subst h
          rfl
      | test =>
          simp only [hmain, Option.some.injEq] at h
          subst h
          by_cases hui : s.words.uiStatus = .uiVoice <;> simp [Sys.picPc, hui]
      | exchange => simp [hmain] at h
      | compare command =>
          simp only [hmain, Option.some.injEq] at h
          subst h
          rfl
  | ended => simp [hmain] at h

theorem picWord_moves : picWord.Moves := by
  intro s l t hstep
  by_cases hl : l = .main
  · subst hl
    rcases picPc_mainStep hstep with h | h | h | h
    · exact Or.inl h
    · exact Or.inr (Or.inl h)
    · exact Or.inr (Or.inr (Or.inl h))
    · exact Or.inr (Or.inr (Or.inr ⟨rfl, h⟩))
  · rcases main_of_step hstep hl with hsame | ⟨command, hvoice⟩
    · exact Or.inl (by simp [picWord, Sys.picPc, hsame])
    · exact Or.inr (Or.inl (by simp [picWord, Sys.picPc, hvoice]))

/-- In every run in which no command is posted to a page's word between the
`switch` of the page and the write that ends the arm, no command of that page is
overwritten unread. -/
theorem commands_are_read (ls : List Label) (t : Sys) :
    (∀ mail : Monitor PicStatus,
      Meets step (PostsOnlyWhenFree picWord.event picWord.Busy) init ls →
      run (monitored step picWord.event) (init, .fresh) ls = some (t, mail) → mail.lost = []) ∧
    ∀ (m : MediaPage) (mail : Monitor MediaStatus),
      Meets step (PostsOnlyWhenFree (mediaWord m).event (mediaWord m).Busy) init ls →
      run (monitored step (mediaWord m).event) (init, .fresh) ls = some (t, mail) →
      mail.lost = [] :=
  ⟨fun _ hfree hrun ↦ PageWord.lost_eq_nil picWord_moves rfl hfree hrun,
    fun m _ hfree hrun ↦ PageWord.lost_eq_nil (mediaWord_moves m) rfl hfree hrun⟩

/-- Open the album up to the arm that shows the current picture. -/
def openAlbum : List Label :=
  [.main, .touch 480 300 0 0, .main, .main, .main, .main, .main]

/-- Let the picture be drawn, start the slide show, and swipe. -/
def watchAlbum : List Label :=
  openAlbum ++ [.main, .main, .touch 100 200 0 0, .main, .main, .touch 100 100 50 0, .main, .main,
    .main, .main, .main]

def watchedAlbum : Sys × Monitor PicStatus :=
  (run (monitored step picWord.event) (init, .fresh) watchAlbum).get (by decide)

theorem swipe_after_drawing_is_read : watchedAlbum.2.lost = [] :=
  (commands_are_read watchAlbum watchedAlbum.1).1 watchedAlbum.2 (by decide)
    (Option.some_get (show (run _ _ watchAlbum).isSome by decide)).symm

/-- A swipe while the picture is drawn is overwritten by `PIC_MENUE`. -/
theorem swipe_while_drawing_is_lost :
    (run (monitored step picWord.event) (init, .fresh)
      (openAlbum ++ [.touch 100 100 50 0, .main, .main])).map (fun p ↦ p.2.lost) =
      some [.picPrevFlyright] := by decide

end EmbeddedSystem.Ui
