import EmbeddedSystem.Ui.Cycle
import EmbeddedSystem.Ui.System

/-!
# Swipes

Outside the menu the album reads a movement as one of four commands.  The axis is chosen
by the truncated quotient of the movement, which is tested against the half-open range
from -1 to 1, so the sectors are symmetric about the centre but about neither axis.
-/

namespace EmbeddedSystem.Ui

open CountedLoop Cyclic Runs

/-! ## The slope -/

theorem tdiv_lt_one_iff {x y : ℤ} (hx : 0 < x) : y.tdiv x < 1 ↔ y < x := by
  rcases Int.le_total 0 y with hy | hy
  · rw [Int.tdiv_eq_ediv_of_nonneg hy, Int.ediv_lt_iff_lt_mul hx, Int.one_mul]
  · have hquot : 0 ≤ (-y).tdiv x := Int.tdiv_nonneg (by omega) (by omega)
    rw [Int.neg_tdiv] at hquot
    omega

theorem neg_one_le_tdiv_iff {x y : ℤ} (hx : 0 < x) : -1 ≤ y.tdiv x ↔ -(2 * x) < y := by
  rcases Int.le_total 0 y with hy | hy
  · have hquot : 0 ≤ y.tdiv x := Int.tdiv_nonneg hy (by omega)
    omega
  · have hneg : (-y).tdiv x ≤ 1 ↔ -y < 1 * x + x := by
      rw [Int.tdiv_eq_ediv_of_nonneg (by omega), Int.ediv_le_iff_le_mul hx]
    rw [Int.neg_tdiv] at hneg
    omega

/-- The movement is in the sectors of the left and right swipes. -/
def Horizontal (moveX moveY : ℤ) : Prop :=
  0 < moveX ∧ -(2 * moveX) < moveY ∧ moveY < moveX ∨
    moveX < 0 ∧ moveX < moveY ∧ moveY < -(2 * moveX)

instance (moveX moveY : ℤ) : Decidable (Horizontal moveX moveY) :=
  inferInstanceAs (Decidable (_ ∨ _))

theorem slope_iff_horizontal {moveX moveY : ℤ} (h : moveX ≠ 0) :
    moveY.tdiv moveX ≥ -1 ∧ moveY.tdiv moveX < 1 ↔ Horizontal moveX moveY := by
  rcases Int.lt_or_gt_of_ne h with hneg | hpos
  · have hx : 0 < -moveX := by omega
    have hlow := neg_one_le_tdiv_iff (y := -moveY) hx
    have hhigh := tdiv_lt_one_iff (y := -moveY) hx
    rw [Int.neg_tdiv_neg] at hlow hhigh
    rw [ge_iff_le, hlow, hhigh, Horizontal]
    omega
  · rw [ge_iff_le, neg_one_le_tdiv_iff hpos, tdiv_lt_one_iff hpos, Horizontal]
    omega

/-! ## The command of a movement -/

/-- The command of a movement that is not zero. -/
def swipe (moveX moveY : ℤ) : PicStatus :=
  if Horizontal moveX moveY then
    if moveX > 0 then .picPrevFlyright else .picNextFlyleft
  else
    if moveY > 0 then .picPrevFlyup else .picNextFtydown

theorem swipe_mem (moveX moveY : ℤ) :
    swipe moveX moveY ∈ [PicStatus.picPrevFlyright, .picNextFlyleft, .picPrevFlyup,
      .picNextFtydown] := by
  unfold swipe
  split_ifs <;> decide

theorem procTsPic_of_move {moveX moveY : ℤ} {status : PicStatus} (hstatus : status ≠ .picMenue)
    (hmove : ¬ (moveX = 0 ∧ moveY = 0)) (a b : ℤ) :
    procTsPic a b moveX moveY status = { picStatus := some (swipe moveX moveY) } := by
  rw [procTsPic, if_pos hstatus, if_neg hmove]
  by_cases hx : moveX = 0
  · have hvertical : ¬ Horizontal moveX moveY := by
      rw [Horizontal]
      omega
    have hy : moveY ≠ 0 := fun hy ↦ hmove ⟨hx, hy⟩
    rw [if_pos ⟨hx, hy⟩, swipe, if_neg hvertical]
    split <;> rfl
  · rw [if_neg fun h ↦ hx h.1]
    by_cases hy : moveY = 0
    · have hhorizontal : Horizontal moveX moveY := by
        rw [Horizontal]
        omega
      rw [if_neg fun h ↦ h.2 hy, if_pos ⟨hx, hy⟩, swipe, if_pos hhorizontal]
      split <;> rfl
    · have hslope : moveY.tdiv moveX ≥ -1 ∧ moveY.tdiv moveX < 1 ↔ Horizontal moveX moveY :=
        slope_iff_horizontal hx
      rw [if_pos ⟨hx, hy⟩, swipe]
      generalize moveY.tdiv moveX = slope at hslope ⊢
      by_cases hhorizontal : Horizontal moveX moveY
      · obtain ⟨hlow, hhigh⟩ := hslope.mpr hhorizontal
        rw [if_pos hhorizontal]
        by_cases hpos : moveX > 0
        · rw [if_pos ⟨hlow, hhigh, hpos⟩, if_pos hpos]
        · have hsteep : ¬ ((slope ≥ 1 ∨ slope < -1) ∧ moveY > 0) := by omega
          rw [if_neg fun h ↦ hpos h.2.2, if_neg hsteep, if_pos ⟨hlow, hhigh, by omega⟩,
            if_neg hpos]
      · have hsteep : slope ≥ 1 ∨ slope < -1 := by
          have hflat := hslope.not.mpr hhorizontal
          omega
        have hflat (p : Prop) : ¬ (slope ≥ -1 ∧ slope < 1 ∧ p) :=
          fun h ↦ hhorizontal (hslope.mp ⟨h.1, h.2.1⟩)
        rw [if_neg hhorizontal, if_neg (hflat _)]
        by_cases hpos : moveY > 0
        · rw [if_pos ⟨hsteep, hpos⟩, if_pos hpos]
        · rw [if_neg fun h ↦ hpos h.2, if_neg (hflat _), if_pos ⟨hsteep, by omega⟩, if_neg hpos]

theorem dispatch_of_move {w : Words} {moveX moveY : ℤ} (hui : w.uiStatus = .uiPic)
    (hstatus : w.picStatus ≠ .picMenue) (hmove : ¬ (moveX = 0 ∧ moveY = 0)) (a b : ℤ) :
    dispatch a b moveX moveY w = { picStatus := some (swipe moveX moveY) } := by
  rw [dispatch, hui]
  exact procTsPic_of_move hstatus hmove a b

theorem picFollowUp_swipe (moveX moveY : ℤ) :
    picFollowUp (swipe moveX moveY) = some .picNull := by
  unfold swipe
  split_ifs <;> rfl

/-! ## Mirror images -/

def upsideDown : PicStatus → PicStatus
  | .picPrevFlyup => .picNextFtydown
  | .picNextFtydown => .picPrevFlyup
  | c => c

def leftToRight : PicStatus → PicStatus
  | .picPrevFlyright => .picNextFlyleft
  | .picNextFlyleft => .picPrevFlyright
  | c => c

/-- The movement's reflections give the reflected commands, wherever the touches end. -/
def Mirrors (moveX moveY : ℤ) (status : PicStatus) : Prop :=
  ∀ a b a' b',
    (procTsPic a' b' moveX (-moveY) status).picStatus =
      (procTsPic a b moveX moveY status).picStatus.map upsideDown ∧
    (procTsPic a' b' (-moveX) moveY status).picStatus =
      (procTsPic a b moveX moveY status).picStatus.map leftToRight

/-- The movement is at least as high as it is wide, and less than twice as high. -/
def Skew (moveX moveY : ℤ) : Prop :=
  moveX.natAbs ≤ moveY.natAbs ∧ moveY.natAbs < 2 * moveX.natAbs

instance (moveX moveY : ℤ) : Decidable (Skew moveX moveY) :=
  inferInstanceAs (Decidable (_ ∧ _))

section Mirror

variable {moveX moveY : ℤ}

theorem horizontal_neg : Horizontal (-moveX) (-moveY) ↔ Horizontal moveX moveY := by
  unfold Horizontal
  omega

theorem horizontal_upsideDown_iff :
    (Horizontal moveX (-moveY) ↔ Horizontal moveX moveY) ↔ ¬ Skew moveX moveY := by
  unfold Horizontal Skew
  omega

theorem horizontal_leftToRight : Horizontal (-moveX) moveY ↔ Horizontal moveX (-moveY) := by
  unfold Horizontal
  omega

theorem vertical_ne_zero (hmove : ¬ (moveX = 0 ∧ moveY = 0)) (h : ¬ Horizontal moveX moveY) :
    moveY ≠ 0 := by
  unfold Horizontal at h
  omega

theorem horizontal_ne_zero (h : Horizontal moveX moveY) : moveX ≠ 0 := by
  unfold Horizontal at h
  omega

theorem swipe_upsideDown_iff (hmove : ¬ (moveX = 0 ∧ moveY = 0)) :
    swipe moveX (-moveY) = upsideDown (swipe moveX moveY) ↔
      (Horizontal moveX (-moveY) ↔ Horizontal moveX moveY) := by
  unfold swipe
  by_cases h : Horizontal moveX moveY
  · by_cases h' : Horizontal moveX (-moveY)
    · simp only [h, h', if_true, iff_self, iff_true]
      split_ifs <;> rfl
    · simp only [h, h', if_true, if_false, iff_true]
      split_ifs <;> simp [upsideDown]
  · by_cases h' : Horizontal moveX (-moveY)
    · simp only [h, h', if_true, if_false, iff_false]
      split_ifs <;> simp [upsideDown]
    · have hy := vertical_ne_zero hmove h
      simp only [h, h', if_false, iff_self, iff_true]
      split_ifs <;> first | rfl | omega

theorem swipe_leftToRight_iff :
    swipe (-moveX) moveY = leftToRight (swipe moveX moveY) ↔
      (Horizontal moveX (-moveY) ↔ Horizontal moveX moveY) := by
  rw [swipe, swipe, if_congr horizontal_leftToRight rfl rfl]
  by_cases h : Horizontal moveX moveY
  · have hx := horizontal_ne_zero h
    by_cases h' : Horizontal moveX (-moveY)
    · simp only [h, h', if_true, iff_self, iff_true]
      split_ifs <;> first | rfl | omega
    · simp only [h, h', if_true, if_false, iff_true]
      split_ifs <;> simp [leftToRight]
  · by_cases h' : Horizontal moveX (-moveY)
    · simp only [h, h', if_true, if_false, iff_false]
      split_ifs <;> simp [leftToRight]
    · simp only [h, h', if_false, iff_self, iff_true]
      split_ifs <;> rfl

/-- A movement is read like its mirror images exactly when it is not skew. -/
theorem mirrors_iff {status : PicStatus} (hstatus : status ≠ .picMenue)
    (hmove : ¬ (moveX = 0 ∧ moveY = 0)) :
    Mirrors moveX moveY status ↔ ¬ Skew moveX moveY := by
  have hdown : ¬ (moveX = 0 ∧ -moveY = 0) := by omega
  have hright : ¬ (-moveX = 0 ∧ moveY = 0) := by omega
  have hcommands : Mirrors moveX moveY status ↔
      swipe moveX (-moveY) = upsideDown (swipe moveX moveY) ∧
        swipe (-moveX) moveY = leftToRight (swipe moveX moveY) := by
    simp only [Mirrors, procTsPic_of_move hstatus hmove, procTsPic_of_move hstatus hdown,
      procTsPic_of_move hstatus hright, Option.map_some, Option.some_inj, forall_const]
  rw [hcommands, swipe_upsideDown_iff hmove, swipe_leftToRight_iff, and_self,
    horizontal_upsideDown_iff]

end Mirror

theorem flat_swipe_mirrors : Mirrors 50 (-20) .picNull :=
  (mirrors_iff (by decide) (by decide)).mpr (by decide)

/-- The diagonal up to the right is a vertical command, its mirror image downwards a
horizontal one. -/
theorem diagonal_not_mirrored : ¬ Mirrors 1 1 .picNull := by
  intro h
  exact absurd (h 0 0 0 0).1 (by decide)

/-! ## There and back -/

structure AlbumView where
  words : Words
  indexPic : ℤ
  deriving DecidableEq, Repr

/-- A turn of the loop of `proc_pic` on a folder with `n` pictures. -/
def AlbumView.turn (n : ℤ) (rand : ℕ) (v : AlbumView) : Option AlbumView :=
  if v.words.uiStatus = .uiPic then
    (loop (picArm v.words.picStatus) (execIndex n rand) v.indexPic).map fun index ↦
      { words := { v.words with
          picStatus := (picFollowUp v.words.picStatus).getD v.words.picStatus }
        indexPic := index }
  else some v

/-- A movement that ends at `(a, b)`, and the turn of the page that takes its command. -/
def AlbumView.drag (n : ℤ) (rand : ℕ) (a b moveX moveY : ℤ) (v : AlbumView) : Option AlbumView :=
  AlbumView.turn n rand { v with words := (dispatch a b moveX moveY v.words).apply v.words }

/-- The picture at `index` has been shown for a swipe. -/
def AlbumView.swipedTo (v : AlbumView) (index : ℤ) : AlbumView where
  words := { v.words with picStatus := .picNull }
  indexPic := index

def reverseSwipe : PicStatus → PicStatus
  | .picPrevFlyright => .picNextFlyleft
  | .picNextFlyleft => .picPrevFlyright
  | .picPrevFlyup => .picNextFtydown
  | .picNextFtydown => .picPrevFlyup
  | c => c

theorem swipe_neg {moveX moveY : ℤ} (hmove : ¬ (moveX = 0 ∧ moveY = 0)) :
    swipe (-moveX) (-moveY) = reverseSwipe (swipe moveX moveY) := by
  rw [swipe, swipe, if_congr horizontal_neg rfl rfl]
  by_cases h : Horizontal moveX moveY
  · have hx := horizontal_ne_zero h
    simp only [h, if_true]
    split_ifs <;> first | rfl | omega
  · have hy := vertical_ne_zero hmove h
    simp only [h, if_false]
    split_ifs <;> first | rfl | omega

theorem drag_of_move {n : ℤ} {v : AlbumView} {moveX moveY : ℤ}
    (hi : 0 ≤ v.indexPic ∧ v.indexPic < n) (hui : v.words.uiStatus = .uiPic)
    (hstatus : v.words.picStatus ≠ .picMenue) (hmove : ¬ (moveX = 0 ∧ moveY = 0))
    (rand : ℕ) (a b : ℤ) :
    v.drag n rand a b moveX moveY =
      some (v.swipedTo ((picMove n (swipe moveX moveY, rand)).apply n v.indexPic)) := by
  have harm := loop_picArm hi (swipe moveX moveY, rand)
  rw [AlbumView.drag, dispatch_of_move hui hstatus hmove, AlbumView.turn]
  simp [Assigns.apply, AlbumView.swipedTo, hui, picFollowUp_swipe, harm]

/-- A movement and the page's turn are these steps of the two threads. -/
theorem run_of_drag {n : ℤ} {rand : ℕ} {a b moveX moveY : ℤ} {s : Sys} {indexPic : ℤ}
    {v : AlbumView} (htouch : s.touch = .idle) (hmain : s.main = .procPic .test)
    (hui : s.words.uiStatus = .uiPic) (hstatus : s.words.picStatus ≠ .picMenue)
    (hmove : ¬ (moveX = 0 ∧ moveY = 0)) (hi : 0 ≤ indexPic ∧ indexPic < n)
    (hv : AlbumView.drag n rand a b moveX moveY ⟨s.words, indexPic⟩ = some v) :
    run step s [.touch a b moveX moveY, .main, .main, .main, .main] =
      some { s with words := v.words } := by
  rw [drag_of_move hi hui hstatus hmove] at hv
  cases hv
  simp [run, step, mainStep, htouch, hmain, dispatch_of_move hui hstatus hmove, Assigns.apply,
    hui, LoopPc.next, LoopPc.write, picFollowUp_swipe, AlbumView.swipedTo]

theorem apply_reverseSwipe {n i : ℤ} (hi : 0 ≤ i ∧ i < n) (moveX moveY : ℤ) (rand rand' : ℕ) :
    (picMove n (reverseSwipe (swipe moveX moveY), rand')).apply n
      ((picMove n (swipe moveX moveY, rand)).apply n i) = i := by
  unfold swipe
  split_ifs
  · exact next_prev hi
  · exact prev_next hi
  · exact next_prev hi
  · exact prev_next hi

/-- A movement and then the reverse movement, each taken by the page: the album is at its
first picture again.  Each movement is one of the four commands. -/
theorem drag_undone {n : ℤ} {v : AlbumView} {moveX moveY : ℤ}
    (hi : 0 ≤ v.indexPic ∧ v.indexPic < n) (hui : v.words.uiStatus = .uiPic)
    (hstatus : v.words.picStatus ≠ .picMenue) (hmove : ¬ (moveX = 0 ∧ moveY = 0))
    (rand rand' : ℕ) (a b a' b' : ℤ) :
    (v.drag n rand a b moveX moveY).bind (AlbumView.drag n rand' a' b' (-moveX) (-moveY)) =
        some { words := { v.words with uiStatus := .uiPic, picStatus := .picNull }
               indexPic := v.indexPic } ∧
      ∃ c ∈ [PicStatus.picPrevFlyright, .picNextFlyleft, .picPrevFlyup, .picNextFtydown],
        dispatch a b moveX moveY v.words = { picStatus := some c } := by
  have hjump : ∀ target, picMove n (swipe moveX moveY, rand) = .jump target →
      0 ≤ target ∧ target < n := fun _ ↦ picMove_jump (by omega)
  have hbounds := Move.apply_bounds hi hjump
  have hreverse : ¬ (-moveX = 0 ∧ -moveY = 0) := by omega
  have hthere := drag_of_move hi hui hstatus hmove rand a b
  generalize hindex : (picMove n (swipe moveX moveY, rand)).apply n v.indexPic = index
    at hthere hbounds
  have hback := drag_of_move (v := v.swipedTo index) hbounds hui PicStatus.noConfusion hreverse
    rand' a' b'
  have hundone : (picMove n (swipe (-moveX) (-moveY), rand')).apply n index = v.indexPic := by
    rw [swipe_neg hmove, ← hindex, apply_reverseSwipe hi]
  constructor
  · rw [hthere, Option.bind_some, hback, ← hui]
    exact congrArg some (congrArg _ hundone)
  · exact ⟨swipe moveX moveY, swipe_mem moveX moveY, dispatch_of_move hui hstatus hmove a b⟩

/-- At the last of three pictures, to the left and back. -/
theorem drag_undone_at_last :
    (AlbumView.drag 3 0 100 200 (-30) 10 ⟨⟨.uiPic, .picPlay, .null, .play⟩, 2⟩).bind
      (AlbumView.drag 3 0 300 190 30 (-10)) = some ⟨⟨.uiPic, .picNull, .null, .play⟩, 2⟩ :=
  (drag_undone (v := ⟨⟨.uiPic, .picPlay, .null, .play⟩, 2⟩) (by decide) rfl
    (by decide) (show ¬ ((-30 : ℤ) = 0 ∧ (10 : ℤ) = 0) by decide) 0 0 100 200 300 190).1

end EmbeddedSystem.Ui
