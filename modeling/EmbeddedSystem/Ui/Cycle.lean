import EmbeddedSystem.Foundation.Cyclic
import EmbeddedSystem.Ui.Navigation

/-!
# The lists as circles

While a list stays as it is, the commands of a page walk its index around it: the pages
step forward and back, and the album also jumps to a random picture.
-/

namespace EmbeddedSystem.Ui

open CountedLoop Cyclic

def picMove (count : ℤ) : PicStatus × ℕ → Move
  | (.picPlaySequential, _) => .next
  | (.picNextWindowshade, _) => .next
  | (.picNextFlyleft, _) => .next
  | (.picNextFtydown, _) => .next
  | (.picPrevWindowshade, _) => .prev
  | (.picPrevFlyright, _) => .prev
  | (.picPrevFlyup, _) => .prev
  | (.picPlayShuffle, rand) => .jump ((rand : ℤ).tmod count)
  | (.picPlay, _) => .stay
  | (.picMenue, _) => .stay
  | (.picNull, _) => .stay

def mediaMove : MediaStatus × ℕ → Move
  | (.next, _) => .next
  | (.prev, _) => .prev
  | _ => .stay

/-- The slideshow's variables: the index, the picture whose path is in `shownPic`, and
the pictures shown so far. -/
structure Slides where
  indexPic : ℤ
  shownPic : ℤ
  shown : List ℤ
  deriving DecidableEq, Repr

def execSlides (count : ℤ) (rand : ℕ) (stmt : Stmt) (s : Slides) : Option Slides :=
  match stmt with
  | .combineFilepatn =>
    (execIndex count rand stmt s.indexPic).map fun index ↦ { s with shownPic := index }
  | .showThePic _ => some { s with shown := s.shown ++ [s.shownPic] }
  | .showRandom => some { s with shown := s.shown ++ [s.shownPic] }
  | _ => (execIndex count rand stmt s.indexPic).map fun index ↦ { s with indexPic := index }

/-- A step of the slideshow for each value of `rand()`. -/
def slideshow (count : ℤ) (rands : List ℕ) : Slides → Option Slides :=
  loop rands fun rand ↦ loop (picArm .picPlaySequential) (execSlides count rand)

/-! ## One command -/

section Moves

variable {n i : ℤ}

theorem loop_moved {stmt : Stmt} {rest : List Stmt} {rand : ℕ} {k : ℤ} (hstill : Still rest)
    (hstmt : execIndex n rand stmt i = some k) (hk : 0 ≤ k ∧ k < n) :
    loop (stmt :: .combineFilepatn :: rest) (execIndex n rand) i = some k := by
  rw [loop_cons, hstmt, Option.bind_some, loop_read hstill, if_pos hk]

theorem loop_picArm (hi : 0 ≤ i ∧ i < n) (c : PicStatus × ℕ) :
    loop (picArm c.1) (execIndex n c.2) i = some ((picMove n c).apply n i) := by
  obtain ⟨c, rand⟩ := c
  cases c with
  | picPlaySequential => exact loop_moved (by decide) rfl (next_bounds hi)
  | picNextWindowshade => exact loop_moved (by decide) rfl (next_bounds hi)
  | picNextFlyleft => exact loop_moved (by decide) rfl (next_bounds hi)
  | picNextFtydown => exact loop_moved (by decide) rfl (next_bounds hi)
  | picPrevWindowshade => exact loop_moved (by decide) rfl (prev_bounds hi)
  | picPrevFlyright => exact loop_moved (by decide) rfl (prev_bounds hi)
  | picPrevFlyup => exact loop_moved (by decide) rfl (prev_bounds hi)
  | picPlayShuffle =>
      have hn : 0 < n := by omega
      have hbounds : 0 ≤ (rand : ℤ).tmod n ∧ (rand : ℤ).tmod n < n :=
        ⟨Int.tmod_nonneg n (Int.natCast_nonneg rand), Int.tmod_lt_of_pos rand hn⟩
      exact loop_moved (by decide) (if_neg (Int.ne_of_gt hn)) hbounds
  | picPlay => rw [picArm, loop_read (by decide), if_pos hi]; rfl
  | picMenue => rfl
  | picNull => rfl

theorem loop_mediaArm (hi : 0 ≤ i ∧ i < n) (c : MediaStatus × ℕ) :
    loop (mediaArm c.1) (execIndex n c.2) i = some ((mediaMove c).apply n i) := by
  obtain ⟨c, rand⟩ := c
  -- the steps stop the player before they move
  have hstop : ∀ stmts, loop (.stopPlayer :: stmts) (execIndex n rand) i =
      loop stmts (execIndex n rand) i := fun _ ↦ rfl
  cases c with
  | next => rw [mediaArm, hstop]; exact loop_moved (by decide) rfl (next_bounds hi)
  | prev => rw [mediaArm, hstop]; exact loop_moved (by decide) rfl (prev_bounds hi)
  | start => rw [mediaArm, loop_read (by decide), if_pos hi]; rfl
  | null | pause | play | stop | hold | conti => rfl

theorem picMove_jump (hn : 0 < n) {c : PicStatus × ℕ} {target : ℤ}
    (h : picMove n c = .jump target) : 0 ≤ target ∧ target < n := by
  obtain ⟨c, rand⟩ := c
  cases c <;> cases h
  exact ⟨Int.tmod_nonneg n (Int.natCast_nonneg rand), Int.tmod_lt_of_pos rand hn⟩

theorem isJump_mediaMove (c : MediaStatus × ℕ) : (mediaMove c).isJump = false := by
  obtain ⟨c, rand⟩ := c
  cases c <;> rfl

/-! ## Any number of commands -/

theorem navigate_eq_walk {κ : Type} {arm : κ → List Stmt} {move : κ × ℕ → Move}
    (harm : ∀ c i, 0 ≤ i ∧ i < n → loop (arm c.1) (execIndex n c.2) i = some ((move c).apply n i))
    (hjump : ∀ c target, move c = .jump target → 0 ≤ target ∧ target < n)
    (hi : 0 ≤ i ∧ i < n) (commands : List (κ × ℕ)) :
    navigate arm n commands i = some (walk n (commands.map move) i) := by
  have hbody : ∀ c ∈ commands, ∀ k, 0 ≤ k ∧ k < n →
      loop (arm c.1) (execIndex n c.2) k = some ((move c).apply n k) ∧
        0 ≤ (move c).apply n k ∧ (move c).apply n k < n :=
    fun c _ k hk ↦ ⟨harm c k hk, Move.apply_bounds hk (hjump c)⟩
  rw [navigate, loop_eq_foldl_of_invariant hbody hi, walk, List.foldl_map]

theorem navigate_picArm (hi : 0 ≤ i ∧ i < n) (commands : List (PicStatus × ℕ)) :
    navigate picArm n commands i = some ((base i (commands.map (picMove n)) +
      net (since (commands.map (picMove n)))) % n) := by
  have hn : 0 < n := by omega
  have hjumps : ∀ target, .jump target ∈ commands.map (picMove n) → 0 ≤ target ∧ target < n := by
    intro target hmem
    obtain ⟨c, -, hc⟩ := List.mem_map.mp hmem
    exact picMove_jump hn hc
  rw [navigate_eq_walk (fun c k hk ↦ loop_picArm hk c) (fun _ _ ↦ picMove_jump hn) hi,
    walk_eq_emod hi hjumps]

theorem navigate_mediaArm (hi : 0 ≤ i ∧ i < n) (commands : List (MediaStatus × ℕ)) :
    navigate mediaArm n commands i = some ((i + net (commands.map mediaMove)) % n) := by
  have hstays : ∀ m ∈ commands.map mediaMove, m.isJump = false := by
    intro m hm
    obtain ⟨c, -, rfl⟩ := List.mem_map.mp hm
    exact isJump_mediaMove c
  have hjump : ∀ (c : MediaStatus × ℕ) (target : ℤ), mediaMove c = .jump target →
      0 ≤ target ∧ target < n :=
    fun c target hc ↦ absurd (isJump_mediaMove c) (by simp [hc, Move.isJump])
  rw [navigate_eq_walk (fun c k hk ↦ loop_mediaArm hk c) hjump hi,
    walk_eq_emod_of_no_jump hi hstays]

/-! ## The slideshow -/

theorem loop_execSlides {s : Slides} (hs : 0 ≤ s.indexPic ∧ s.indexPic < n) (rand : ℕ) :
    loop (picArm .picPlaySequential) (execSlides n rand) s =
      some ⟨next n s.indexPic, next n s.indexPic, s.shown ++ [next n s.indexPic]⟩ := by
  have hnext : execIndex n rand .nextIndex s.indexPic = some (next n s.indexPic) := rfl
  have hread : execIndex n rand .combineFilepatn (next n s.indexPic) = some (next n s.indexPic) :=
    if_pos (next_bounds hs)
  simp [picArm, execSlides, hnext, hread]

theorem slideshow_shows {s : Slides} (hs : 0 ≤ s.indexPic ∧ s.indexPic < n) (rands : List ℕ) :
    ∃ t, slideshow n rands s = some t ∧ t.indexPic = (s.indexPic + rands.length) % n ∧
      t.shown = s.shown ++ (up rands.length).map fun k ↦ (s.indexPic + 1 + k) % n := by
  have hn : 0 < n := by omega
  induction rands using List.reverseRecOn with
  | nil => exact ⟨s, rfl, by simp [Int.emod_eq_of_lt hs.1 hs.2], by simp [up]⟩
  | append_singleton rands rand ih =>
      obtain ⟨t, ht, hindex, hshown⟩ := ih
      have hbounds : 0 ≤ t.indexPic ∧ t.indexPic < n := hindex ▸ emod_bounds hn _
      have hnext : next n t.indexPic = (s.indexPic + 1 + rands.length) % n := by
        rw [hindex, next_emod hn, Int.add_right_comm]
      refine ⟨⟨next n t.indexPic, next n t.indexPic, t.shown ++ [next n t.indexPic]⟩, ?_, ?_, ?_⟩
      · rw [slideshow, loop_append, ← slideshow, ht, Option.bind_some, loop_cons,
          loop_execSlides hbounds, Option.bind_some, loop_nil]
      · rw [hnext, List.length_append, List.length_singleton]
        push_cast
        rw [Int.add_assoc, Int.add_comm 1]
      · rw [hshown, hnext, List.length_append, List.length_singleton, Int.natCast_add,
          Int.natCast_one, up_succ (Int.natCast_nonneg _)]
        simp

/-- With `n` files a page's index after any commands is the sum of its steps since `base`,
modulo `n`: the first index or the last shuffled one.  The commands that are no steps leave
it, and `n` steps of the slideshow show each picture once. -/
theorem navigation_is_cyclic (hi : 0 ≤ i ∧ i < n) :
    (∀ commands : List (PicStatus × ℕ), navigate picArm n commands i =
      some ((base i (commands.map (picMove n)) + net (since (commands.map (picMove n)))) % n)) ∧
    (∀ commands : List (MediaStatus × ℕ),
      navigate musicArm n commands i = some ((i + net (commands.map mediaMove)) % n) ∧
      navigate videoArm n commands i = some ((i + net (commands.map mediaMove)) % n)) ∧
    (∀ rand, loop (picArm .picPlay) (execIndex n rand) i = some i) ∧
    (∀ c ∈ [MediaStatus.start, .hold, .conti, .stop], ∀ rand,
      loop (musicArm c) (execIndex n rand) i = some i ∧
      loop (videoArm c) (execIndex n rand) i = some i) ∧
    ∀ (s : Slides) (rands : List ℕ), s.indexPic = i → (rands.length : ℤ) = n →
      ∃ t shown, slideshow n rands s = some t ∧ t.shown = s.shown ++ shown ∧
        shown.Perm (up n) := by
  have hn : 0 < n := by omega
  have hstay : ∀ c ∈ [MediaStatus.start, .hold, .conti, .stop], ∀ rand,
      loop (mediaArm c) (execIndex n rand) i = some i := by
    intro c hc rand
    have hmove : mediaMove (c, rand) = .stay := by
      simp only [List.mem_cons, List.not_mem_nil, or_false] at hc
      rcases hc with rfl | rfl | rfl | rfl <;> rfl
    rw [loop_mediaArm hi (c, rand), hmove, Move.apply]
  refine ⟨navigate_picArm hi, fun commands ↦ ⟨navigate_mediaArm hi commands,
    navigate_mediaArm hi commands⟩, fun rand ↦ loop_picArm hi (.picPlay, rand),
    fun c hc rand ↦ ⟨hstay c hc rand, hstay c hc rand⟩, ?_⟩
  rintro s rands rfl rfl
  obtain ⟨t, ht, -, hshown⟩ := slideshow_shows hi rands
  exact ⟨t, _, ht, hshown, perm_around hn (s.indexPic + 1)⟩

end Moves

/-- Of three files: a step from the last, a shuffle, and two steps back from there. -/
theorem navigation_of_three :
    navigate picArm 3 [(.picNextFlyleft, 0), (.picPlayShuffle, 7), (.picPrevFlyup, 0),
      (.picMenue, 0), (.picPrevFlyright, 0)] 2 = some 2 :=
  (navigation_is_cyclic (show 0 ≤ 2 ∧ (2 : ℤ) < 3 by decide)).1 _

end EmbeddedSystem.Ui
