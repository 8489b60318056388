import EmbeddedSystem.Voice.Server

/-!
# Whose text is sent

`result.txt` is never removed, so it holds the text of the last request that had
one.  The history of a run records what the recogniser made of each request, and
what was sent as its reply.
-/

namespace EmbeddedSystem.Voice.Server

open Runs

structure Request where
  outcome : Option Recognised
  reply : Option Bytes
  deriving DecidableEq, Repr

/-- The requests of a run, the last one first. -/
abbrev History := List Request

def Request.Answers (r : Request) (earlier : History) (reply : Bytes) : Prop :=
  match r.outcome with
  | some own => reply = own.text
  | none => ∀ e ∈ earlier, ∀ old ∈ e.outcome, reply ≠ old.text

def Fresh : History → Prop
  | [] => True
  | r :: earlier => (∀ reply ∈ r.reply, r.Answers earlier reply) ∧ Fresh earlier

def record (s : Server) : Label → History → History
  | .asrSample outcome, log => ⟨outcome, none⟩ :: log
  | .send, r :: earlier => { r with reply := some (cString s.needTosendString) } :: earlier
  | _, log => log

/-- The recogniser's text is one word; and it ends without a text only while no
request had one. -/
def Answerable (p : Server × History) : Label → Prop
  | .asrSample (some own) => IsWord own.text
  | .asrSample none => ∀ e ∈ p.2, e.outcome = none
  | _ => True

instance (p : Server × History) : ∀ l, Decidable (Answerable p l)
  | .asrSample (some own) => inferInstanceAs (Decidable (IsWord own.text))
  | .asrSample none => inferInstanceAs (Decidable (∀ e ∈ p.2, e.outcome = none))
  | .accept _ | .recv _ | .fopen _ | .readResult _ | .send | .sendError | .sigpipe | .close =>
    .isTrue trivial

def InProgress (s : Server) : History → Prop
  | [] => False
  | r :: earlier =>
    match r.outcome with
    | some own =>
      IsWord own.text ∧ (s.pc = .readResult → s.resultTxt = some own) ∧
        (s.pc = .send → s.needTosendString = own.text)
    | none => ∀ e ∈ earlier, e.outcome = none

def Sound (p : Server × History) : Prop :=
  Fresh p.2 ∧ (p.1.pc = .readResult ∨ p.1.pc = .send → InProgress p.1 p.2)

theorem cString_eq_self {s : Bytes} (h : 0 ∉ s) : cString s = s :=
  List.takeWhile_eq_self_iff.mpr fun b hb ↦ by simpa using ne_of_mem_of_not_mem hb h

theorem fresh_recognised {log : History} (h : Fresh log) (outcome : Option Recognised) :
    Fresh (⟨outcome, none⟩ :: log) :=
  ⟨fun _ hreply ↦ absurd hreply (by simp), h⟩

theorem fresh_sent {s : Server} {r : Request} {earlier : History} (h : Fresh (r :: earlier))
    (hpc : s.pc = .send) (hprogress : InProgress s (r :: earlier)) :
    Fresh ({ r with reply := some (cString s.needTosendString) } :: earlier) := by
  refine ⟨?_, h.2⟩
  intro reply hreply
  obtain rfl : cString s.needTosendString = reply := Option.some.inj hreply
  obtain ⟨outcome, answered⟩ := r
  cases outcome with
  | some own =>
      have hbuffer : s.needTosendString = own.text := hprogress.2.2 hpc
      change cString s.needTosendString = own.text
      rw [hbuffer, cString_eq_self own.noNul]
  | none =>
      intro e he old hold
      rw [hprogress e he] at hold
      cases hold

theorem not_replying_received (s : Server) (result : Option Bytes) :
    ¬ ((s.received result).pc = .readResult ∨ (s.received result).pc = .send) := by
  unfold received stored
  split
  · simp
  · split
    · simp
    · dsimp only
      split <;> simp

theorem inProgress_resultRead {s : Server} {log : History} (h : InProgress s log)
    (hpc : s.pc = .readResult) (opened : Bool) : InProgress (s.resultRead opened) log := by
  cases log with
  | nil => exact h
  | cons r earlier =>
      obtain ⟨outcome, reply⟩ := r
      cases outcome with
      | none => exact h
      | some own =>
          obtain ⟨hword, hresult, -⟩ := h
          cases opened with
          | false => exact ⟨hword, by simp [resultRead], by simp [resultRead]⟩
          | true =>
              refine ⟨hword, ?_, ?_⟩ <;> simp [resultRead, hresult hpc, word_of_isWord hword]

theorem sound_step {p q : Server × History} {l : Label} (h : Sound p) (hanswer : Answerable p l)
    (hstep : withHistory step record p l = some q) : Sound q := by
  obtain ⟨s, log⟩ := p
  obtain ⟨t, log'⟩ := q
  obtain ⟨hstep, rfl⟩ := withHistory_eq_some.mp hstep
  obtain ⟨hfresh, hprogress⟩ := h
  cases change_of_step hstep with
  | accept ok hpc ht =>
      subst ht
      exact ⟨hfresh, by cases ok <;> simp [accepted]⟩
  | recvSize result hpc ht =>
      subst ht
      exact ⟨hfresh, by simp [sized]⟩
  | recvFile result hpc ht =>
      subst ht
      exact ⟨hfresh, fun hpc ↦ absurd hpc (not_replying_received s result)⟩
  | fopen capacity hpc ht =>
      subst ht
      exact ⟨hfresh, by simp [opened]⟩
  | asrSample outcome hpc ht =>
      subst ht
      refine ⟨fresh_recognised hfresh outcome, fun _ ↦ ?_⟩
      cases outcome with
      | some own => exact ⟨hanswer, fun _ ↦ rfl, fun hpc ↦ absurd hpc (by simp [recognised])⟩
      | none => exact hanswer
  | readResult opened hpc ht =>
      subst ht
      exact ⟨hfresh, fun _ ↦ inProgress_resultRead (hprogress (Or.inl hpc)) hpc opened⟩
  | send hpc ht =>
      subst ht
      cases log with
      | nil => exact ⟨hfresh, by simp⟩
      | cons r earlier =>
          exact ⟨fresh_sent hfresh hpc (hprogress (Or.inr hpc)), by simp⟩
  | leave _ pc hl hnext ht =>
      subst ht
      have hrecord : record s l log = log := by obtain rfl | rfl | rfl := hl <;> rfl
      refine ⟨by simpa only [hrecord] using hfresh, ?_⟩
      obtain rfl | rfl | rfl := hnext <;> simp

/-- In every run in which each text is one word and no request is without a text after
one that had a text, each reply is the text of its own request or of none. -/
theorem replies_are_fresh {s : Server} {ls : List Label} {p : Server × History}
    (hs : s.pc = .accept) (hanswer : Meets (withHistory step record) Answerable (s, []) ls)
    (hrun : run (withHistory step record) (s, []) ls = some p) : Fresh p.2 := by
  have hinit : Sound (s, []) := ⟨trivial, by simp [hs]⟩
  exact (invariant_of_meets (fun _ _ _ ↦ sound_step) hinit hanswer hrun).1

def serve (outcome : Option Recognised) : List Label :=
  [.accept true, .recv (some [49, 10]), .fopen (some oneByte), .recv (some [7]),
    .asrSample outcome, .readResult true, .send, .close]

def ab : Recognised := ⟨[97, 98], by decide, by decide⟩

def cd : Recognised := ⟨[99, 100], by decide, by decide⟩

def servedTwo : Server × History :=
  (run (withHistory step record) (started, []) (serve (some ab) ++ serve (some cd))).get (by decide)

theorem two_replies_are_fresh : Fresh servedTwo.2 := by
  have hrun : (run (withHistory step record) (started, [])
      (serve (some ab) ++ serve (some cd))).isSome := by decide
  exact replies_are_fresh rfl (by decide +kernel) (Option.some_get hrun).symm

/-- The second request has no text, and gets the reply of the first. -/
theorem second_reply_is_stale :
    (run (withHistory step record) (started, []) (serve (some ab) ++ serve none)).map Prod.snd =
      some [⟨none, some ab.text⟩, ⟨some ab, some ab.text⟩] := by decide

end EmbeddedSystem.Voice.Server
