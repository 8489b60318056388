import EmbeddedSystem.Ui.System
import Mathlib.Data.List.DropRight

/-!
# From samples to touches

`ts_pthread` reads the touch screen in a loop and tells a press from a release by one
pressure value.  Its variables have no initial values but for `lastPress`, and a failed
read leaves them as they are.
-/

namespace EmbeddedSystem.Ui

structure Sample where
  x : ℤ
  y : ℤ
  pressure : UInt32
  deriving DecidableEq, Repr

structure TouchLocals where
  a : ℤ
  b : ℤ
  lastA : ℤ
  lastB : ℤ
  press : UInt32
  lastPress : UInt32
  deriving DecidableEq, Repr

/-- `getPos(&a, &b, &press)`, with no sample when `ts_read` fails. -/
def getPos (sample : Option Sample) (ts : TouchLocals) : TouchLocals :=
  match sample with
  | none => ts
  | some s => { ts with a := s.x, b := s.y, press := s.pressure }

/-- A pass of the loop, and the `switch (ui_status)` when it is reached. -/
def tsPass (ts : TouchLocals) (sample : Option Sample) : TouchLocals × Option Label :=
  let ts := getPos sample ts
  if ts.press ≠ ts.lastPress then
    if ts.press = 200 then
      ({ ts with lastA := ts.a, lastB := ts.b, lastPress := ts.press }, none)
    else
      -- when moveX and moveY are both zero the source sets them to zero again
      ({ ts with lastPress := ts.press },
        some (.touch ts.a ts.b (ts.a - ts.lastA) (ts.lastB - ts.b)))
  else (ts, none)

/-- What each pass of the loop calls. -/
def tsPthread (ts : TouchLocals) : List (Option Sample) → List (Option Label)
  | [] => []
  | sample :: samples => (tsPass ts sample).2 :: tsPthread (tsPass ts sample).1 samples

/-! ## Touches -/

/-- The touch that is going on after these samples. -/
def touching (past : List Sample) : List Sample := past.rtakeWhile fun s ↦ s.pressure ≠ 0

/-- The release of a touch calls the handlers once, with the movement since its first
sample. -/
def release (past : List Sample) : Option Sample → Option Label
  | none => none
  | some s =>
    if s.pressure = 0 then
      (touching past).head?.map fun first ↦ .touch s.x s.y (s.x - first.x) (first.y - s.y)
    else none

def releases (past : List Sample) : List (Option Sample) → List (Option Label)
  | [] => []
  | sample :: samples => release past sample :: releases (past ++ sample.toList) samples

/-- Whatever the variables hold at first, the calls are those of the releases. -/
def OneCallPerTouch (samples : List (Option Sample)) : Prop :=
  ∀ ts : TouchLocals, ts.lastPress = 0 → tsPthread ts samples = releases [] samples

theorem touching_of_pressed {past : List Sample} {s : Sample} (h : s.pressure ≠ 0) :
    touching (past ++ [s]) = touching past ++ [s] :=
  List.rtakeWhile_concat_pos _ _ _ (decide_eq_true h)

theorem touching_of_released {past : List Sample} {s : Sample} (h : s.pressure = 0) :
    touching (past ++ [s]) = [] :=
  List.rtakeWhile_concat_neg _ _ _ (by simp [h])

/-! ## The loop -/

/-- What the thread remembers of the samples: that no touch goes on, or where it began. -/
def Remembers (past : List Sample) (ts : TouchLocals) : Prop :=
  match (touching past).head? with
  | none => ts.lastPress = 0
  | some first => ts.lastPress = 200 ∧ ts.lastA = first.x ∧ ts.lastB = first.y

def Sample.Plain (s : Sample) : Prop := s.pressure = 0 ∨ s.pressure = 200

instance (s : Sample) : Decidable s.Plain := inferInstanceAs (Decidable (_ ∨ _))

theorem remembers_nil {ts : TouchLocals} (h : ts.lastPress = 0) : Remembers [] ts := h

section Pass

variable {past : List Sample} {ts : TouchLocals}

theorem Remembers.lastPress (h : Remembers past ts) : ts.lastPress = 0 ∨ ts.lastPress = 200 := by
  unfold Remembers at h
  split at h
  · exact Or.inl h
  · exact Or.inr h.1

theorem tsPass_failed (h : ts.press = ts.lastPress) : tsPass ts none = (ts, none) := by
  simp [tsPass, getPos, h]

/-- A sample whose pressure is neither a press nor a release calls the handlers. -/
theorem tsPass_other {s : Sample} (h : Remembers past ts) (hs : ¬ s.Plain) :
    (tsPass ts (some s)).2.isSome := by
  have hnew : s.pressure ≠ ts.lastPress := by
    intro heq
    have hlast := h.lastPress
    rw [← heq] at hlast
    exact hs hlast
  have hpress : s.pressure ≠ 200 := fun heq ↦ hs (Or.inr heq)
  simp [tsPass, getPos, hnew, hpress]

theorem tsPass_plain {s : Sample} (h : Remembers past ts) (hs : s.Plain) :
    (tsPass ts (some s)).2 = release past (some s) ∧
      Remembers (past ++ [s]) (tsPass ts (some s)).1 ∧
      (tsPass ts (some s)).1.press = (tsPass ts (some s)).1.lastPress := by
  unfold Remembers at h ⊢
  rcases hs with hs | hs
  · rw [touching_of_released hs]
    cases hfirst : (touching past).head? with
    | none =>
        rw [hfirst] at h
        simp [tsPass, getPos, release, hs, h, hfirst]
    | some first =>
        rw [hfirst] at h
        simp [tsPass, getPos, release, hs, h, hfirst]
  · have hpressed : s.pressure ≠ 0 := by
      rw [hs]
      decide
    rw [touching_of_pressed hpressed]
    cases hfirst : (touching past).head? with
    | none =>
        rw [hfirst] at h
        simp [tsPass, getPos, release, hs, h, hfirst]
    | some first =>
        rw [hfirst] at h
        simp [tsPass, getPos, release, hs, h, hfirst]

/-- Once a sample has come, failed reads change nothing. -/
theorem tsPthread_eq_releases_iff {samples : List (Option Sample)} (h : Remembers past ts)
    (hfirst : ts.press = ts.lastPress ∨ samples.head? ≠ some none) :
    tsPthread ts samples = releases past samples ↔ ∀ s, some s ∈ samples → s.Plain := by
  induction samples generalizing past ts with
  | nil => simp [tsPthread, releases]
  | cons sample samples ih =>
      rw [tsPthread, releases, List.cons.injEq]
      cases sample with
      | none =>
          have hpress : ts.press = ts.lastPress := hfirst.resolve_right (by simp)
          rw [tsPass_failed hpress, Option.toList_none, List.append_nil, ih h (Or.inl hpress)]
          simp [release]
      | some s =>
          by_cases hs : s.Plain
          · obtain ⟨hcall, hkept, hpress⟩ := tsPass_plain h hs
            rw [Option.toList_some, ih hkept (Or.inl hpress)]
            simp [hcall, hs]
          · have hcall := tsPass_other h hs
            have hnone : release past (some s) = none :=
              if_neg fun hzero ↦ hs (Or.inl hzero)
            refine iff_of_false (fun heq ↦ ?_) fun hall ↦ hs (hall s List.mem_cons_self)
            rw [heq.1, hnone] at hcall
            cases hcall

end Pass

/-- The handlers are called once for each touch, and with its own movement, exactly when the
first read does not fail and each pressure is 0 or 200. -/
theorem oneCallPerTouch_iff (samples : List (Option Sample)) :
    OneCallPerTouch samples ↔ samples.head? ≠ some none ∧ ∀ s, some s ∈ samples → s.Plain := by
  constructor
  · intro h
    have hread : samples.head? ≠ some none := by
      intro hhead
      obtain ⟨rest, rfl⟩ := List.head?_eq_some_iff.mp hhead
      have hcalls := h ⟨0, 0, 0, 0, 100, 0⟩ rfl
      simp [tsPthread, tsPass, getPos, releases, release] at hcalls
    have hstart : Remembers [] ⟨0, 0, 0, 0, 0, 0⟩ := remembers_nil rfl
    exact ⟨hread, (tsPthread_eq_releases_iff hstart (Or.inl rfl)).mp (h _ rfl)⟩
  · rintro ⟨hread, hplain⟩ ts hts
    exact (tsPthread_eq_releases_iff (remembers_nil hts) (Or.inr hread)).mpr hplain

/-- A touch of pressure 100 calls the handlers at its first sample, with the distance from
where the variables happen to point. -/
theorem light_touch_called_at_press :
    ¬ OneCallPerTouch [some ⟨300, 200, 100⟩, some ⟨300, 200, 0⟩] := by
  intro h
  exact absurd (h ⟨0, 0, 7, 9, 0, 0⟩ rfl) (by decide +kernel)

end EmbeddedSystem.Ui
