import EmbeddedSystem.Ui.System
import EmbeddedSystem.Voice.Text

/-!
# The reply in the command buffer

`sendFileAndGetString` puts what one `recv` gives into the buffer of `proc_voice`, over
what an earlier exchange or nothing at all has left there, and returns 0.  Then
`proc_voice` compares the text in the buffer with its four commands.
-/

namespace EmbeddedSystem.Ui

open Runs Voice

/-- The server's 2048 bytes: a text, its NUL, and what follows in the server's array. -/
structure Reply where
  text : Bytes
  padding : Bytes
  noNul : 0 ∉ text
  size : text.length + 1 + padding.length = 2048
  deriving DecidableEq, Repr

def Reply.bytes (r : Reply) : Bytes := r.text ++ 0 :: r.padding

/-- How many bytes of the reply arrive before the stream ends or fails, and how many of
them the client's `recv` returns: none only if none arrive. -/
structure Delivery where
  arrived : ℕ
  first : ℕ
  within : arrived ≤ 2048
  cut : first ≤ arrived
  blocks : first = 0 → arrived = 0
  deriving DecidableEq, Repr

/-- The value that `sendFileAndGetString` returns, and `retureString` after its
`recv(socke_fd, retureString, 2048, 0)`. -/
def sendFileAndGetString (r : Reply) (d : Delivery) (retureString : Bytes) : ℤ × Bytes :=
  (0, r.bytes.take d.first ++ retureString.drop d.first)

/-- `ui_status` after `proc_voice` has compared this buffer. -/
def uiAfter (s : Sys) (command : Bytes) : Option UiStatus :=
  (run step s [.exchange (cString command), .main]).map fun t ↦ t.words.uiStatus

/-- A reply that arrives decides as its text says; otherwise there is an error, and
`ui_status` stays. -/
def DecidesByText (r : Reply) (d : Delivery) (s : Sys) (command : Bytes) : Prop :=
  if d.arrived = 2048 then
    uiAfter s (sendFileAndGetString r d command).2 =
      some ((voiceTarget r.text).getD s.words.uiStatus)
  else
    (sendFileAndGetString r d command).1 ≠ 0 ∧
      uiAfter s (sendFileAndGetString r d command).2 = some s.words.uiStatus

def commands : List Bytes := [playMusicText, openAlbumText, closeProgramText, playVideoText]

/-- The `recv` returns the text with its NUL, or bytes with which no command begins. -/
def Conclusive (r : Reply) (d : Delivery) : Prop :=
  r.text.length < d.first ∨ ∀ c ∈ commands, ¬ r.text.take d.first <+: c

theorem uiAfter_eq {s : Sys} (hmain : s.main = .procVoice .exchange) (command : Bytes) :
    uiAfter s command = some ((voiceTarget (cString command)).getD s.words.uiStatus) := by
  simp [uiAfter, run, step, hmain, mainStep, Sys.setUi]

theorem voiceTarget_eq_none {command : Bytes} (h : command ∉ commands) :
    voiceTarget command = none := by
  simp only [commands, List.mem_cons, List.not_mem_nil, or_false, not_or] at h
  simp [voiceTarget, h]

theorem voiceTarget_of_mem {command : Bytes} (h : command ∈ commands) :
    ∃ u, voiceTarget command = some u ∧ u ≠ .uiMain := by
  simp only [commands, List.mem_cons, List.not_mem_nil, or_false] at h
  obtain rfl | rfl | rfl | rfl := h
  · exact ⟨.uiMusic, by decide⟩
  · exact ⟨.uiPic, by decide⟩
  · exact ⟨.uiEnd, by decide⟩
  · exact ⟨.uiVideo, by decide⟩

theorem commands_bytes : ∀ c ∈ commands, c.length = 12 ∧ ∀ b ∈ c, 2 ≤ b := by decide +kernel

/-! ## The text in the buffer -/

section Buffer

variable {r : Reply} {d : Delivery}

theorem cString_of_text_taken (h : r.text.length < d.first) (command : Bytes) :
    cString (sendFileAndGetString r d command).2 = r.text := by
  obtain ⟨n, hn⟩ := Nat.exists_eq_add_of_lt h
  have hne : ∀ b ∈ r.text, b ≠ 0 := fun b hb ↦ ne_of_mem_of_not_mem hb r.noNul
  have hrest : d.first - r.text.length = n + 1 := by omega
  have htake : r.bytes.take d.first = r.text ++ 0 :: r.padding.take n := by
    rw [Reply.bytes, List.take_append, List.take_of_length_le h.le, hrest, List.take_succ_cons]
  rw [sendFileAndGetString, htake, List.append_assoc, cString_append hne]
  simp [cString]

theorem cString_of_text_cut (h : d.first ≤ r.text.length) (command : Bytes) :
    cString (sendFileAndGetString r d command).2 =
      r.text.take d.first ++ cString (command.drop d.first) := by
  have hne : ∀ b ∈ r.text.take d.first, b ≠ 0 :=
    fun b hb ↦ ne_of_mem_of_not_mem (List.mem_of_mem_take hb) r.noNul
  rw [sendFileAndGetString, Reply.bytes, List.take_append_of_le_length h, cString_append hne]

/-- Then the buffer decides as the text does. -/
theorem voiceTarget_of_conclusive (h : Conclusive r d) (command : Bytes) :
    voiceTarget (cString (sendFileAndGetString r d command).2) = voiceTarget r.text := by
  by_cases htaken : r.text.length < d.first
  · rw [cString_of_text_taken htaken]
  · have hnone : ∀ tail, voiceTarget (r.text.take d.first ++ tail) = none := fun tail ↦
      voiceTarget_eq_none fun hmem ↦
        (h.resolve_left htaken) _ hmem (List.prefix_append _ tail)
    rw [cString_of_text_cut (not_lt.mp htaken), hnone]
    have htext := hnone (r.text.drop d.first)
    rw [List.take_append_drop] at htext
    exact htext.symm

/-- Otherwise some contents of the buffer make a command of it, and others do not. -/
theorem exists_of_not_conclusive (h : ¬ Conclusive r d) :
    ∃ old old', old.length = 2048 ∧ old'.length = 2048 ∧
      cString (sendFileAndGetString r d old).2 ∈ commands ∧
      cString (sendFileAndGetString r d old').2 ∉ commands := by
  rw [Conclusive, not_or, not_lt] at h
  obtain ⟨hcut, h⟩ := h
  push Not at h
  obtain ⟨c, hc, hprefix⟩ := h
  obtain ⟨hlength, hbytes⟩ := commands_bytes c hc
  have htake : (r.text.take d.first).length = d.first := List.length_take_of_le hcut
  have hfirst : d.first ≤ 12 := by
    rw [← htake, ← hlength]
    exact hprefix.length_le
  refine ⟨c ++ List.replicate 2036 0, List.replicate 2048 1, ?_, List.length_replicate, ?_, ?_⟩
  · rw [List.length_append, hlength, List.length_replicate]
  · have hne : ∀ b ∈ c.drop d.first, b ≠ 0 := by
      intro b hb hzero
      exact absurd (hbytes b (List.mem_of_mem_drop hb)) (by simp [hzero])
    have hdrop : (c ++ List.replicate 2036 0).drop d.first =
        c.drop d.first ++ List.replicate 2036 (0 : UInt8) :=
      List.drop_append_of_le_length (hlength ▸ hfirst)
    have hzeros : ∀ n, cString (List.replicate n 0) = [] := by
      intro n
      cases n <;> simp [cString, List.replicate_succ]
    have htext : r.text.take d.first = c.take d.first := by
      rw [List.prefix_iff_eq_take.mp hprefix, htake]
    rw [cString_of_text_cut hcut, hdrop, cString_append hne, hzeros, List.append_nil, htext,
      List.take_append_drop]
    exact hc
  · intro hmem
    have hone : (1 : UInt8) ∈ cString (sendFileAndGetString r d (List.replicate 2048 1)).2 := by
      rw [cString_of_text_cut hcut, List.drop_replicate]
      refine List.mem_append_right _ ?_
      obtain ⟨n, hn⟩ : ∃ n, 2048 - d.first = n + 1 := ⟨2047 - d.first, by omega⟩
      simp [cString, hn, List.replicate_succ]
    exact absurd ((commands_bytes _ hmem).2 1 hone) (by decide)

end Buffer

/-- Leave `proc_voice` waiting for the server, with `ui_status` as after the back button. -/
def waiting : Sys := { init with main := .procVoice .exchange }

theorem uiAfter_waiting_of_mem {command : Bytes} (h : cString command ∈ commands) :
    uiAfter waiting command ≠ some .uiMain := by
  obtain ⟨u, hu, hne⟩ := voiceTarget_of_mem h
  rw [uiAfter_eq rfl, hu]
  simpa using hne

theorem uiAfter_waiting_of_notMem {command : Bytes} (h : cString command ∉ commands) :
    uiAfter waiting command = some .uiMain := by
  rw [uiAfter_eq rfl, voiceTarget_eq_none h]
  rfl

/-- Whatever the buffer held, the reply decides exactly when all of it arrives and the
`recv` is conclusive; and the buffer has no part in it exactly when the `recv` is. -/
theorem reply_decides_iff (r : Reply) (d : Delivery) :
    ((∀ s old, s.main = .procVoice .exchange → old.length = 2048 → DecidesByText r d s old) ↔
      d.arrived = 2048 ∧ Conclusive r d) ∧
    ((∀ s old old', s.main = .procVoice .exchange → old.length = 2048 → old'.length = 2048 →
      uiAfter s (sendFileAndGetString r d old).2 = uiAfter s (sendFileAndGetString r d old').2) ↔
        Conclusive r d) := by
  have hsame : (∀ old old', old.length = 2048 → old'.length = 2048 →
      uiAfter waiting (sendFileAndGetString r d old).2 =
        uiAfter waiting (sendFileAndGetString r d old').2) → Conclusive r d := by
    intro hsame
    by_contra hnot
    obtain ⟨old, old', hold, hold', hmem, hnotMem⟩ := exists_of_not_conclusive hnot
    have heq := hsame old old' hold hold'
    rw [uiAfter_waiting_of_notMem hnotMem] at heq
    exact uiAfter_waiting_of_mem hmem heq
  refine ⟨⟨fun h ↦ ?_, ?_⟩, fun h ↦ hsame fun old old' ↦ h waiting old old' rfl, ?_⟩
  · have harrived : d.arrived = 2048 := by
      by_contra hnot
      have hdecides := h waiting (List.replicate 2048 0) rfl List.length_replicate
      rw [DecidesByText, if_neg hnot] at hdecides
      exact hdecides.1 rfl
    refine ⟨harrived, hsame fun old old' hold hold' ↦ ?_⟩
    have hdecides := h waiting old rfl hold
    have hdecides' := h waiting old' rfl hold'
    rw [DecidesByText, if_pos harrived] at hdecides hdecides'
    rw [hdecides, hdecides']
  · rintro ⟨harrived, hconclusive⟩ s old hs -
    rw [DecidesByText, if_pos harrived, uiAfter_eq hs, voiceTarget_of_conclusive hconclusive]
  · intro hconclusive s old old' hs _ _
    rw [uiAfter_eq hs, uiAfter_eq hs, voiceTarget_of_conclusive hconclusive,
      voiceTarget_of_conclusive hconclusive]

def silence : Reply := ⟨[], List.replicate 2047 0, by decide, by rw [List.length_replicate]; rfl⟩

def nothing : Delivery := ⟨0, 0, by decide, by decide, by decide⟩

/-- The connection breaks before the reply, and the buffer still holds the command of
an earlier exchange: the program ends. -/
theorem broken_connection_ends_program :
    (sendFileAndGetString silence nothing (closeProgramText ++ List.replicate 2036 0)).1 = 0 ∧
      uiAfter { waiting with words := { init.words with uiStatus := .uiVoice } }
        (sendFileAndGetString silence nothing (closeProgramText ++ List.replicate 2036 0)).2 =
        some .uiEnd := by
  decide +kernel

end EmbeddedSystem.Ui
