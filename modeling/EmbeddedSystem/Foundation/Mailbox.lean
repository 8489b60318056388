import EmbeddedSystem.Foundation.Runs

/-!
# Single-slot mailboxes

Writers put messages into a slot; its owner takes the message, works on it and
then may overwrite the slot, whatever it holds by then.  The monitor of this
file records the messages that are overwritten unread, and the rule says when
there are none: if nobody posts while the owner is committed to overwriting the
slot.
-/

namespace Mailbox

open Runs

variable {σ ℓ κ : Type*}

/-- What a step does to the slot.  `clear` stands for a write, not by the owner,
that is no message. -/
inductive Event (κ : Type*)
  | quiet
  | post (c : κ)
  | clear
  | take
  | replace
  deriving DecidableEq, Repr

/-- The message that waits in the slot, and the messages that were overwritten
by the owner while they waited. -/
structure Monitor (κ : Type*) where
  unread : Option κ
  lost : List κ
  deriving DecidableEq, Repr

def Monitor.fresh : Monitor κ := ⟨none, []⟩

def Monitor.record (m : Monitor κ) : Event κ → Monitor κ
  | .quiet => m
  | .post c => { m with unread := some c }
  | .clear => { m with unread := none }
  | .take => { m with unread := none }
  | .replace => ⟨none, m.unread.toList ++ m.lost⟩

def monitored (step : σ → ℓ → Option σ) (event : σ → ℓ → Event κ) :
    σ × Monitor κ → ℓ → Option (σ × Monitor κ) :=
  withHistory step fun s l m ↦ m.record (event s l)

/-- No message is posted while the owner is committed to overwriting the slot. -/
def PostsOnlyWhenFree (event : σ → ℓ → Event κ) (busy : σ → Prop) (s : σ) (l : ℓ) : Prop :=
  ∀ c, event s l = .post c → ¬ busy s

instance (event : σ → ℓ → Event κ) (busy : σ → Prop) [DecidablePred busy] (s : σ) (l : ℓ) :
    Decidable (PostsOnlyWhenFree event busy s l) :=
  match h : event s l with
  | .post c => decidable_of_iff (¬ busy s) (by simp [PostsOnlyWhenFree, h])
  | .quiet => .isTrue (by simp [PostsOnlyWhenFree, h])
  | .clear => .isTrue (by simp [PostsOnlyWhenFree, h])
  | .take => .isTrue (by simp [PostsOnlyWhenFree, h])
  | .replace => .isTrue (by simp [PostsOnlyWhenFree, h])

def Settled (busy : σ → Prop) (p : σ × Monitor κ) : Prop :=
  p.2.lost = [] ∧ (busy p.1 → p.2.unread = none)

section Rule

variable {step : σ → ℓ → Option σ} {event : σ → ℓ → Event κ} {busy : σ → Prop}
  (hreplace : ∀ s l, event s l = .replace → busy s)
  (htake : ∀ s l t, step s l = some t → busy t → busy s ∨ event s l = .take)
include hreplace htake

theorem settled_step {p q : σ × Monitor κ} {l : ℓ} (hp : Settled busy p)
    (hfree : PostsOnlyWhenFree event busy p.1 l) (h : monitored step event p l = some q) :
    Settled busy q := by
  obtain ⟨hstep, hm⟩ := withHistory_eq_some.mp h
  obtain ⟨hlost, hunread⟩ := hp
  have hbusy := htake p.1 l q.1 hstep
  rw [Settled, ← hm]
  cases hevent : event p.1 l with
  | quiet =>
      refine ⟨hlost, fun hq ↦ ?_⟩
      rcases hbusy hq with hs | htake
      · exact hunread hs
      · simp [hevent] at htake
  | post c =>
      refine ⟨hlost, fun hq ↦ ?_⟩
      rcases hbusy hq with hs | htake
      · exact absurd hs (hfree c hevent)
      · simp [hevent] at htake
  | clear => exact ⟨hlost, fun _ ↦ rfl⟩
  | take => exact ⟨hlost, fun _ ↦ rfl⟩
  | replace =>
      have hnone := hunread (hreplace p.1 l hevent)
      exact ⟨by simp [Monitor.record, hnone, hlost], fun _ ↦ rfl⟩

/-- If the owner overwrites the slot only when committed to it, and becomes
committed only by taking the message, then no message is lost in a run in which
messages are posted only while it is not. -/
theorem lost_eq_nil {s t : σ} (hs : ¬ busy s) {m : Monitor κ} {ls : List ℓ}
    (hfree : Meets step (PostsOnlyWhenFree event busy) s ls)
    (hrun : run (monitored step event) (s, .fresh) ls = some (t, m)) : m.lost = [] := by
  have hguard : Meets (monitored step event) (fun p ↦ PostsOnlyWhenFree event busy p.1)
      (s, .fresh) ls := meets_withHistory hfree
  have hstart : Settled busy (s, (Monitor.fresh : Monitor κ)) :=
    ⟨rfl, fun h ↦ absurd h hs⟩
  have hend : Settled busy (t, m) := invariant_of_meets
    (fun p l q hp hl h ↦ settled_step hreplace htake hp hl h) hstart hguard hrun
  exact hend.1

end Rule

end Mailbox
