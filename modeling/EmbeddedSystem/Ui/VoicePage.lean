import EmbeddedSystem.Ui.System

/-!
# Leaving the voice page

`proc_voice` tests `ui_status` before the exchange with the server, and writes it after
the exchange without another test.
-/

namespace EmbeddedSystem.Ui

open Runs

/-- Whether the back button of the voice page has been touched since the main thread
last chose a page, and the pages that it chose then. -/
structure Departure where
  left : Bool
  chosen : List MainPc
  deriving DecidableEq, Repr

def Departure.none : Departure := ⟨false, []⟩

def depart (s : Sys) : Label → Departure → Departure
  | .touch a b moveX moveY, h =>
    { h with left := h.left || (s.words.uiStatus = .uiVoice &&
        (dispatch a b moveX moveY s.words).uiStatus = some .uiMain) }
  | .main, h =>
    if s.main = .select then
      ⟨false, if h.left then page s.words.uiStatus :: h.chosen else h.chosen⟩
    else h
  | _, h => h

/-- Until the main thread has chosen a page, no reply is a command, and no other touch
opens a page. -/
def LeftAlone (p : Sys × Departure) : Label → Prop
  | .touch a b moveX moveY =>
    p.2.left → ∀ u ∈ (dispatch a b moveX moveY p.1.words).uiStatus, u = .uiMain
  | .main => p.2.left → ∀ command ∈ p.1.command, voiceTarget command = Option.none
  | _ => True

instance (p : Sys × Departure) : ∀ l, Decidable (LeftAlone p l)
  | .touch a b moveX moveY => inferInstanceAs (Decidable (p.2.left = true →
      ∀ u ∈ (dispatch a b moveX moveY p.1.words).uiStatus, u = .uiMain))
  | .main => inferInstanceAs (Decidable (p.2.left = true →
      ∀ command ∈ p.1.command, voiceTarget command = Option.none))
  | .resume | .exchange _ | .deliver _ _ | .exit _ _ => .isTrue trivial

structure Departed (p : Sys × Departure) : Prop where
  still : p.2.left → p.1.words.uiStatus = .uiMain
  chosen : ∀ pg ∈ p.2.chosen, pg = .procMain

theorem departed_touch {s t : Sys} {d : Departure} {a b moveX moveY : ℤ} (h : Departed (s, d))
    (hl : LeftAlone (s, d) (.touch a b moveX moveY))
    (ht : t.words = (dispatch a b moveX moveY s.words).apply s.words) :
    Departed (t, depart s (.touch a b moveX moveY) d) := by
  refine ⟨fun hleft ↦ ?_, h.chosen⟩
  dsimp only
  rw [ht]
  change (dispatch a b moveX moveY s.words).uiStatus.getD s.words.uiStatus = .uiMain
  cases hui : (dispatch a b moveX moveY s.words).uiStatus with
  | none =>
      have hbefore : d.left := by simpa [depart, hui] using hleft
      exact h.still hbefore
  | some u =>
      by_cases hbefore : d.left
      · exact hl hbefore u hui
      · have hback : s.words.uiStatus = .uiVoice ∧ u = .uiMain := by
          simpa [depart, hui, hbefore] using hleft
        exact hback.2

theorem chosen_select {s : Sys} {d : Departure} (h : Departed (s, d)) :
    ∀ pg ∈ (if d.left then page s.words.uiStatus :: d.chosen else d.chosen), pg = .procMain := by
  cases hleft : d.left with
  | false => exact h.chosen
  | true =>
      have hmain : s.words.uiStatus = .uiMain := h.still hleft
      rw [if_pos rfl, hmain]
      exact List.forall_mem_cons.mpr ⟨rfl, h.chosen⟩

theorem departed_main {s t : Sys} {d : Departure} (h : Departed (s, d))
    (hl : LeftAlone (s, d) .main)
    (hui : t.words.uiStatus = (s.command.bind voiceTarget).getD s.words.uiStatus) :
    Departed (t, depart s .main d) := by
  by_cases hselect : s.main = .select
  · rw [depart, if_pos hselect]
    exact ⟨fun hleft ↦ absurd hleft (by simp), chosen_select h⟩
  · rw [depart, if_neg hselect]
    refine ⟨fun hleft ↦ ?_, h.chosen⟩
    have hnone : s.command.bind voiceTarget = Option.none :=
      Option.bind_eq_none_iff.mpr (hl hleft)
    dsimp only
    rw [hui, hnone]
    exact h.still hleft

theorem departed_step {p q : Sys × Departure} {l : Label} (h : Departed p) (hl : LeftAlone p l)
    (hstep : withHistory step depart p l = some q) : Departed q := by
  obtain ⟨s, d⟩ := p
  obtain ⟨t, d'⟩ := q
  obtain ⟨hsys, hd⟩ := withHistory_eq_some.mp hstep
  dsimp only at hsys hd
  subst hd
  cases wordsChange_step hsys with
  | touched a b moveX moveY ht => exact departed_touch h hl ht
  | resumed ht => exact ⟨fun _ ↦ congrArg Words.uiStatus ht, h.chosen⟩
  | main hui _ => exact departed_main h hl hui
  | exchanged ht | delivered ht | exited ht =>
      exact ⟨fun hleft ↦ (congrArg Words.uiStatus ht).trans (h.still hleft), h.chosen⟩

/-- If no command and no other touch comes between the back button of the voice page and
the choice of the next page, `ui_status` remains `UI_MAIN` and that page is `proc_main`. -/
theorem left_voice_page_leads_to_main {ls : List Label} {p : Sys × Departure}
    (halone : Meets (withHistory step depart) LeftAlone (init, .none) ls)
    (hrun : run (withHistory step depart) (init, .none) ls = some p) :
    (p.2.left → p.1.words.uiStatus = .uiMain) ∧ ∀ pg ∈ p.2.chosen, pg = .procMain := by
  have hinit : Departed (init, .none) := ⟨fun h ↦ absurd h (by decide), by simp [Departure.none]⟩
  obtain ⟨hstill, hchosen⟩ := invariant_of_meets (fun _ _ _ ↦ departed_step) hinit halone hrun
  exact ⟨hstill, hchosen⟩

/-- Open the voice page, touch its back button, and then get this reply. -/
def backBeforeReply (command : Bytes) : List Label :=
  [.main, .touch 640 300 0 0, .main, .main, .main, .main, .touch 30 30 0 0, .exchange command,
    .main, .main, .main]

def leftQuietly : Sys × Departure :=
  (run (withHistory step depart) (init, .none) (backBeforeReply [])).get (by decide)

theorem left_quietly_leads_to_main : leftQuietly.2.chosen.head (by decide) = .procMain := by
  have hrun : run (withHistory step depart) (init, .none) (backBeforeReply []) =
      some leftQuietly := (Option.some_get _).symm
  exact (left_voice_page_leads_to_main (by decide) hrun).2 _ (List.head_mem _)

/-- The reply 关闭程序 ends the program after the back button. -/
theorem late_reply_ends_program :
    (run (withHistory step depart) (init, .none) (backBeforeReply closeProgramText)).map
      (fun p ↦ (p.1.main, p.2)) = some (.ended, ⟨false, [.ended]⟩) := by decide

end EmbeddedSystem.Ui
