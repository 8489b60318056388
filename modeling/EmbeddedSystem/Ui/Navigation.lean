import EmbeddedSystem.Foundation.Runs
import EmbeddedSystem.Ui.Arms

/-!
# Walking the file lists

The album, music and video pages keep their index over visits, while the file
list is read anew on each entry.  A visit goes wrong (`none`) when it reads a
name outside the list or takes a remainder by zero.
-/

namespace EmbeddedSystem.Ui

open CountedLoop

structure Indices where
  indexPic : ℤ
  indexMusic : ℤ
  indexVideo : ℤ
  deriving DecidableEq, Repr

/-- The return value of `getDir`, for a folder that cannot be opened and for one
with this many matching names. -/
def getDirCount : Option ℕ → ℤ
  | none => -1
  | some n => n

/-- The reads of `files[index]` and the updates of the index. -/
def execIndex (count : ℤ) (rand : ℕ) (stmt : Stmt) (index : ℤ) : Option ℤ :=
  match stmt with
  | .nextIndex => some (if index = count - 1 then 0 else index + 1)
  | .prevIndex => some (if index = 0 then count - 1 else index - 1)
  | .randIndex => if count = 0 then none else some ((rand : ℤ).tmod count)
  | .combineFilepatn => if 0 ≤ index ∧ index < count then some index else none
  | _ => some index

/-- The loop that prints the names on entry to the music and video pages. -/
def printNames (count : ℤ) : Option Unit :=
  loop (up count) (fun i _ ↦ (execIndex count 0 .combineFilepatn i).map fun _ ↦ ()) ()

/-- The commands that a page executes in one visit, each with the value that
`rand()` would give it. -/
def navigate {κ : Type} (arm : κ → List Stmt) (count : ℤ) (commands : List (κ × ℕ)) :
    ℤ → Option ℤ :=
  loop commands fun c ↦ loop (arm c.1) (execIndex count c.2)

inductive Visit
  | pic (folder : Option ℕ) (commands : List (PicStatus × ℕ))
  | music (folder : Option ℕ) (commands : List (MediaStatus × ℕ))
  | video (folder : Option ℕ) (commands : List (MediaStatus × ℕ))

def visit (s : Indices) : Visit → Option Indices
  | .pic folder commands => do
    -- combineFilepatn(filePath, bmpFiles[0], shownPic), before the loop
    let _ ← execIndex (getDirCount folder) 0 .combineFilepatn 0
    let index ← navigate picArm (getDirCount folder) commands s.indexPic
    some { s with indexPic := index }
  | .music folder commands => do
    printNames (getDirCount folder)
    let index ← navigate musicArm (getDirCount folder) commands s.indexMusic
    some { s with indexMusic := index }
  | .video folder commands => do
    printNames (getDirCount folder)
    let index ← navigate videoArm (getDirCount folder) commands s.indexVideo
    some { s with indexVideo := index }

/-! ## One arm -/

/-- The condition under which an arm that reads a name goes through: the list is
not empty and the index is in it, except that a step back may start one behind
its end and a shuffle anywhere. -/
def Fits (stmts : List Stmt) (count index : ℤ) : Prop :=
  0 < count ∧ (.randIndex ∈ stmts ∨ .prevIndex ∈ stmts ∧ index ≤ count ∨ index < count)

instance (stmts : List Stmt) (count index : ℤ) : Decidable (Fits stmts count index) :=
  inferInstanceAs (Decidable (_ ∧ _))

/-- An arm without a read keeps the index; one with a read goes through exactly
when the index fits, and then leaves an index of the list. -/
def Walks (stmts : List Stmt) : Prop :=
  ∀ count rand index, 0 ≤ index →
    if .combineFilepatn ∈ stmts then
      (loop stmts (execIndex count rand) index = none ∧ ¬ Fits stmts count index) ∨
      ∃ k, loop stmts (execIndex count rand) index = some k ∧ Fits stmts count index ∧
        0 ≤ k ∧ k < count
    else loop stmts (execIndex count rand) index = some index

def Still (stmts : List Stmt) : Prop :=
  ∀ stmt ∈ stmts, stmt ≠ .nextIndex ∧ stmt ≠ .prevIndex ∧ stmt ≠ .randIndex ∧
    stmt ≠ .combineFilepatn

instance (stmts : List Stmt) : Decidable (Still stmts) :=
  inferInstanceAs (Decidable (∀ _ ∈ _, _))

theorem loop_of_still {stmts : List Stmt} (h : Still stmts) (count : ℤ) (rand : ℕ) (index : ℤ) :
    loop stmts (execIndex count rand) index = some index := by
  induction stmts with
  | nil => rfl
  | cons stmt stmts ih =>
      obtain ⟨hne, hstill⟩ := List.forall_mem_cons.mp h
      rw [loop_cons, show execIndex count rand stmt index = some index by
        cases stmt <;> simp_all [execIndex], Option.bind_some, ih hstill]

theorem Still.notMem {stmts : List Stmt} (h : Still stmts) :
    .randIndex ∉ stmts ∧ .prevIndex ∉ stmts ∧ .combineFilepatn ∉ stmts :=
  ⟨fun hmem ↦ (h _ hmem).2.2.1 rfl, fun hmem ↦ (h _ hmem).2.1 rfl,
    fun hmem ↦ (h _ hmem).2.2.2 rfl⟩

theorem walks_still {stmts : List Stmt} (h : Still stmts) : Walks stmts := by
  intro count rand index _
  rw [if_neg h.notMem.2.2, loop_of_still h]

theorem loop_read {rest : List Stmt} (h : Still rest) (count : ℤ) (rand : ℕ) (k : ℤ) :
    loop (.combineFilepatn :: rest) (execIndex count rand) k =
      if 0 ≤ k ∧ k < count then some k else none := by
  by_cases hk : 0 ≤ k ∧ k < count
  · simp [execIndex, hk, loop_of_still h]
  · simp [execIndex, hk]

theorem walks_of_read {stmts rest : List Stmt} (hstill : Still rest)
    (hread : .combineFilepatn ∈ stmts)
    (h : ∀ count rand index, 0 ≤ index → ∃ k,
      loop stmts (execIndex count rand) index =
        loop (.combineFilepatn :: rest) (execIndex count rand) k ∧
      (0 ≤ k ∧ k < count ↔ Fits stmts count index)) : Walks stmts := by
  intro count rand index hindex
  obtain ⟨k, hloop, hk⟩ := h count rand index hindex
  rw [if_pos hread, hloop, loop_read hstill]
  by_cases hfits : Fits stmts count index
  · exact Or.inr ⟨k, if_pos (hk.mpr hfits), hfits, hk.mpr hfits⟩
  · exact Or.inl ⟨if_neg (hk.not.mpr hfits), hfits⟩

theorem walks_read {rest : List Stmt} (h : Still rest) : Walks (.combineFilepatn :: rest) := by
  refine walks_of_read h List.mem_cons_self fun count rand index hindex ↦ ⟨index, rfl, ?_⟩
  simp only [Fits, List.mem_cons, h.notMem, or_false, reduceCtorEq, false_and, false_or]
  omega

theorem walks_next {rest : List Stmt} (h : Still rest) :
    Walks (.nextIndex :: .combineFilepatn :: rest) := by
  refine walks_of_read h (by simp) fun count rand index hindex ↦ ⟨_, rfl, ?_⟩
  simp only [Fits, List.mem_cons, h.notMem, or_false, reduceCtorEq, false_and, false_or]
  split <;> omega

theorem walks_prev {rest : List Stmt} (h : Still rest) :
    Walks (.prevIndex :: .combineFilepatn :: rest) := by
  refine walks_of_read h (by simp) fun count rand index hindex ↦ ⟨_, rfl, ?_⟩
  simp only [Fits, List.mem_cons, h.notMem, or_false, reduceCtorEq, true_and, false_or]
  split <;> omega

theorem walks_rand {rest : List Stmt} (h : Still rest) :
    Walks (.randIndex :: .combineFilepatn :: rest) := by
  intro count rand index hindex
  rw [if_pos (by simp)]
  by_cases hcount : 0 < count
  · have h0 := Int.tmod_nonneg count (Int.natCast_nonneg rand)
    have hlt := Int.tmod_lt_of_pos (rand : ℤ) hcount
    refine Or.inr ⟨(rand : ℤ).tmod count, ?_, ⟨hcount, Or.inl List.mem_cons_self⟩, h0, hlt⟩
    rw [loop_cons, execIndex, if_neg (Int.ne_of_gt hcount), Option.bind_some, loop_read h,
      if_pos ⟨h0, hlt⟩]
  · refine Or.inl ⟨?_, fun hfits ↦ hcount hfits.1⟩
    by_cases hzero : count = 0
    · rw [loop_cons, execIndex, if_pos hzero]
      rfl
    · rw [loop_cons, execIndex, if_neg hzero, Option.bind_some, loop_read h, if_neg]
      intro hk
      omega

theorem walks_stopPlayer {stmts : List Stmt} (h : Walks stmts) :
    Walks (.stopPlayer :: stmts) := by
  intro count rand index hindex
  have hwalks := h count rand index hindex
  simpa only [Fits, List.mem_cons, reduceCtorEq, false_or, loop_cons, execIndex,
    Option.bind_some] using hwalks

theorem picArm_walks (c : PicStatus) : Walks (picArm c) := by
  cases c with
  | picNull => exact walks_still (by decide)
  | picMenue => exact walks_still (by decide)
  | picPlay => exact walks_read (by decide)
  | picPlaySequential => exact walks_next (by decide)
  | picPlayShuffle => exact walks_rand (by decide)
  | picNextWindowshade => exact walks_next (by decide)
  | picNextFlyleft => exact walks_next (by decide)
  | picNextFtydown => exact walks_next (by decide)
  | picPrevWindowshade => exact walks_prev (by decide)
  | picPrevFlyright => exact walks_prev (by decide)
  | picPrevFlyup => exact walks_prev (by decide)

theorem mediaArm_walks (c : MediaStatus) : Walks (mediaArm c) := by
  cases c with
  | null => exact walks_still (by decide)
  | pause => exact walks_still (by decide)
  | play => exact walks_still (by decide)
  | start => exact walks_read (by decide)
  | next => exact walks_stopPlayer (walks_next (by decide))
  | prev => exact walks_stopPlayer (walks_prev (by decide))
  | stop => exact walks_still (by decide)
  | hold => exact walks_still (by decide)
  | conti => exact walks_still (by decide)

/-! ## A visit -/

/-- The first command that reads a name finds one. -/
def FirstReadFits {κ : Type} (arm : κ → List Stmt) (count index : ℤ) : List (κ × ℕ) → Prop
  | [] => True
  | c :: commands =>
    if .combineFilepatn ∈ arm c.1 then Fits (arm c.1) count index
    else FirstReadFits arm count index commands

theorem printNames_eq (count : ℤ) : printNames count = some () := by
  have hbody : ∀ i ∈ up count, ∀ u : Unit,
      (execIndex count 0 .combineFilepatn i).map (fun _ ↦ ()) = some u := by
    intro i hi u
    simp [execIndex, mem_up.mp hi]
  exact loop_eq_foldl (f := fun u _ ↦ u) hbody ()

section Navigate

variable {κ : Type} {arm : κ → List Stmt} {count index : ℤ}

theorem navigate_of_bounds (hwalks : ∀ c, Walks (arm c)) (hindex : 0 ≤ index ∧ index < count)
    (commands : List (κ × ℕ)) :
    ∃ k, navigate arm count commands index = some k ∧ 0 ≤ k ∧ k < count := by
  induction commands generalizing index with
  | nil => exact ⟨index, rfl, hindex⟩
  | cons c commands ih =>
      have hc := hwalks c.1 count c.2 index hindex.1
      by_cases hread : .combineFilepatn ∈ arm c.1
      · rw [if_pos hread] at hc
        rcases hc with ⟨_, hnot⟩ | ⟨k, hk, _, hbounds⟩
        · exact absurd ⟨by omega, Or.inr (Or.inr hindex.2)⟩ hnot
        · rw [navigate, loop_cons, hk]
          exact ih hbounds
      · rw [if_neg hread] at hc
        rw [navigate, loop_cons, hc]
        exact ih hindex

theorem isSome_navigate (hwalks : ∀ c, Walks (arm c)) (hindex : 0 ≤ index) (count : ℤ)
    (commands : List (κ × ℕ)) :
    (navigate arm count commands index).isSome ↔ FirstReadFits arm count index commands := by
  induction commands with
  | nil => simp [navigate, FirstReadFits]
  | cons c commands ih =>
      have hc := hwalks c.1 count c.2 index hindex
      rw [FirstReadFits]
      by_cases hread : .combineFilepatn ∈ arm c.1
      · rw [if_pos hread] at hc ⊢
        rcases hc with ⟨hnone, hnot⟩ | ⟨k, hk, hfits, hbounds⟩
        · simp [navigate, hnone, hnot]
        · obtain ⟨m, hm, _⟩ := navigate_of_bounds hwalks hbounds commands
          rw [navigate] at hm
          simp [navigate, hk, hm, hfits]
      · rw [if_neg hread] at hc ⊢
        rw [navigate, loop_cons, hc]
        exact ih

theorem navigate_nonneg (hwalks : ∀ c, Walks (arm c)) (hindex : 0 ≤ index)
    {commands : List (κ × ℕ)} {k : ℤ} (hk : navigate arm count commands index = some k) :
    0 ≤ k := by
  induction commands generalizing index with
  | nil => exact Option.some.inj hk ▸ hindex
  | cons c commands ih =>
      have hc := hwalks c.1 count c.2 index hindex
      rw [navigate, loop_cons] at hk
      by_cases hread : .combineFilepatn ∈ arm c.1
      · rw [if_pos hread] at hc
        rcases hc with ⟨hnone, _⟩ | ⟨m, hm, _, hm0, _⟩
        · simp [hnone] at hk
        · rw [hm] at hk
          exact ih hm0 hk
      · rw [if_neg hread] at hc
        rw [hc] at hk
        exact ih hindex hk

end Navigate

/-- The condition on a visit and the indices that earlier visits left. -/
def VisitFits (s : Indices) : Visit → Prop
  | .pic folder commands =>
    0 < getDirCount folder ∧ FirstReadFits picArm (getDirCount folder) s.indexPic commands
  | .music folder commands =>
    FirstReadFits musicArm (getDirCount folder) s.indexMusic commands
  | .video folder commands =>
    FirstReadFits videoArm (getDirCount folder) s.indexVideo commands

def Indices.Nonneg (s : Indices) : Prop := 0 ≤ s.indexPic ∧ 0 ≤ s.indexMusic ∧ 0 ≤ s.indexVideo

theorem isSome_visit {s : Indices} (hs : s.Nonneg) (v : Visit) :
    (visit s v).isSome ↔ VisitFits s v := by
  obtain ⟨hpic, hmusic, hvideo⟩ := hs
  cases v with
  | pic folder commands =>
      have hnav := isSome_navigate picArm_walks hpic (getDirCount folder) commands
      by_cases hfirst : 0 < getDirCount folder
      · simp [visit, VisitFits, execIndex, hfirst, ← hnav, Option.isSome_bind]
      · simp [visit, VisitFits, execIndex, hfirst]
  | music folder commands =>
      have hnav := isSome_navigate mediaArm_walks hmusic (getDirCount folder) commands
      rw [VisitFits, musicArm, ← hnav]
      simp [visit, musicArm, printNames_eq, Option.isSome_bind]
  | video folder commands =>
      have hnav := isSome_navigate mediaArm_walks hvideo (getDirCount folder) commands
      rw [VisitFits, videoArm, ← hnav]
      simp [visit, videoArm, printNames_eq, Option.isSome_bind]

theorem visit_nonneg {s t : Indices} {v : Visit} (hs : s.Nonneg) (ht : visit s v = some t) :
    t.Nonneg := by
  obtain ⟨hpic, hmusic, hvideo⟩ := hs
  cases v with
  | pic folder commands =>
      simp only [visit, bind, Option.bind_eq_some_iff, Option.some.injEq] at ht
      obtain ⟨_, _, k, hk, rfl⟩ := ht
      exact ⟨navigate_nonneg picArm_walks hpic hk, hmusic, hvideo⟩
  | music folder commands =>
      simp only [visit, bind, Option.bind_eq_some_iff, Option.some.injEq] at ht
      obtain ⟨_, _, k, hk, rfl⟩ := ht
      exact ⟨hpic, navigate_nonneg mediaArm_walks hmusic hk, hvideo⟩
  | video folder commands =>
      simp only [visit, bind, Option.bind_eq_some_iff, Option.some.injEq] at ht
      obtain ⟨_, _, k, hk, rfl⟩ := ht
      exact ⟨hpic, hmusic, navigate_nonneg mediaArm_walks hvideo hk⟩

/-- A sequence of visits from the start of the program reads only names of the
lists, and takes no remainder by zero, exactly when each album visit finds a
picture and each first read of a visit finds the index in the new list. -/
theorem visits_in_range_iff (vs : List Visit) :
    (Runs.run visit ⟨0, 0, 0⟩ vs).isSome ↔ Runs.Meets visit VisitFits ⟨0, 0, 0⟩ vs :=
  Runs.isSome_run_iff (fun _ v hs ↦ isSome_visit hs v) (fun _ _ _ hs ht ↦ visit_nonneg hs ht)
    (show Indices.Nonneg ⟨0, 0, 0⟩ from ⟨Int.le_refl 0, Int.le_refl 0, Int.le_refl 0⟩) vs

/-- After a step to the second song the first song alone is left in the folder. -/
theorem visits_read_removed_song :
    Runs.run visit ⟨0, 0, 0⟩ [.music (some 2) [(.next, 0)], .music (some 1) [(.start, 0)]] =
      none := by decide

end EmbeddedSystem.Ui
