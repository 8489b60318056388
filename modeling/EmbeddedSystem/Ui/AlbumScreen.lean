import EmbeddedSystem.Ui.Cycle
import EmbeddedSystem.Ui.Drawing
import EmbeddedSystem.Ui.Folder

/-!
# The screen of the album

`proc_pic` with all that it draws: the picture of each command, in the animation of the
command, and the button or the menu over it.  A picture fills the screen, so whatever was
executed before, the screen shows the picture of the index under what the last drawing
command put over it.
-/

namespace EmbeddedSystem.Ui

open CountedLoop Cyclic Layers Picture

/-! ## The page -/

structure AlbumState where
  indexPic : ℤ
  shownPic : Bytes
  world : World

/-- The values of `rand()` in one pass of the loop: for the index and for the animation. -/
abbrev Rands := ℕ × ℕ

/-- `animation[rand() % 3]` -/
def randomAnimation (rand : ℕ) : ℤ :=
  if rand % 3 = 0 then animationModeWindowshades
  else if rand % 3 = 1 then animationModeFlyleft
  else animationModeFlydown

def AlbumState.draw (env : AlbumEnv) (c : DrawCall) (s : AlbumState) : Option AlbumState :=
  (c.exec env s.world).map fun w ↦ { s with world := w }

def execAlbum (env : AlbumEnv) (rands : Rands) (stmt : Stmt) (s : AlbumState) :
    Option AlbumState :=
  match stmt with
  | .combineFilepatn => do
    let index ← execIndex env.bmpFiles.length rands.1 .combineFilepatn s.indexPic
    let name ← env.bmpFiles[index.toNat]?
    let path ← combineFilepatn (FilePage.folder .pic) name
    some { s with shownPic := path }
  | .showThePic animation => s.draw env (showShownPic s.shownPic animation)
  | .showRandom => s.draw env (showShownPic s.shownPic (randomAnimation rands.2))
  | _ =>
    (execIndex env.bmpFiles.length rands.1 stmt s.indexPic).map fun index ↦
      { s with indexPic := index }

/-- What an arm draws after its picture. -/
def picButtons : PicStatus → List DrawCall
  | .picPlay => [showPicMenue 0 165]
  | .picNextWindowshade => (showBackButton 0 0).map ShowCall.draw
  | .picNextFlyleft => (showBackButton 0 0).map ShowCall.draw
  | .picNextFtydown => (showBackButton 0 0).map ShowCall.draw
  | .picPrevWindowshade => (showBackButton 0 0).map ShowCall.draw
  | .picPrevFlyright => (showBackButton 0 0).map ShowCall.draw
  | .picPrevFlyup => (showBackButton 0 0).map ShowCall.draw
  | .picPlaySequential => []
  | .picPlayShuffle => []
  | .picMenue => []
  | .picNull => []

def execCommand (env : AlbumEnv) (c : PicStatus × Rands) (s : AlbumState) : Option AlbumState := do
  let s ← loop (picArm c.1) (execAlbum env c.2) s
  loop (picButtons c.1) (AlbumState.draw env) s

/-- `proc_pic` up to its loop: the first picture of the list, whatever the index. -/
def enterAlbum (env : AlbumEnv) (s : AlbumState) : Option AlbumState := do
  let name ← env.bmpFiles[0]?
  let path ← combineFilepatn (FilePage.folder .pic) name
  let s ← AlbumState.draw env (showShownPic path animationModeWindowshades)
    { s with shownPic := path }
  loop ((showBackButton 0 0).map ShowCall.draw) (AlbumState.draw env) s

/-- A visit: the entry, and then these commands. -/
def visitAlbum (env : AlbumEnv) (commands : List (PicStatus × Rands)) (s : AlbumState) :
    Option AlbumState := do
  let s ← enterAlbum env s
  loop commands (execCommand env) s

/-! ## A gallery -/

def backCall : DrawCall :=
  ⟨.material .back, 740, 0, animationModeWindowshades, showWaysCoverNoshading, 0x00ffffff⟩

theorem showBackButton_draw : (showBackButton 0 0).map ShowCall.draw = [backCall] := rfl

inductive Overlay
  | bare
  | back
  | menue
  deriving DecidableEq, Repr

/-- What the command puts over its picture. -/
def overlay : PicStatus → Overlay
  | .picPlay => .menue
  | .picPlaySequential => .bare
  | .picPlayShuffle => .bare
  | .picMenue => .bare
  | .picNull => .bare
  | _ => .back

/-- A folder with pictures of the size of the screen, and the material to go with it. -/
structure Gallery extends AlbumEnv where
  nonempty : bmpFiles ≠ []
  short : ∀ name ∈ bmpFiles, name.length ≤ FilePage.longest .pic
  picture : Bytes → PicFile 800 480
  onDisk : ∀ name ∈ bmpFiles,
    disk (.picture (FilePage.folder .pic ++ [47] ++ name)) = some (picture name).file
  back : ButtonFile toAlbumEnv backCall
  choice : ButtonFile toAlbumEnv (showPicMenue 0 165)

namespace Gallery

variable (g : Gallery)

def count : ℤ := g.bmpFiles.length

def name (i : ℤ) : Bytes := g.bmpFiles.getD i.toNat []

def path (i : ℤ) : Bytes := FilePage.folder .pic ++ [47] ++ g.name i

def picLayer (i : ℤ) : Layer ℤ UInt32 := pictureLayer (g.picture (g.name i))

/-- What can lie over a picture. -/
def above : Overlay → List (Layer ℤ UInt32)
  | .bare => []
  | .back => [g.back.layer]
  | .menue => [g.choice.layer]

/-- Picture `i` under this overlay. -/
def view (o : Overlay) (i : ℤ) (lcd : Framebuffer) : Framebuffer :=
  paintAll (g.picLayer i :: g.above o) lcd

end Gallery

/-! ## One drawing -/

theorem windowshades_eq_pictureScreen {bmp_buff : Picture.Bytes}
    (hlen : 1152000 ≤ bmp_buff.length) (bg : UInt32) (lcd : Framebuffer) :
    windowshades bmp_buff 800 480 0 0 showWaysCoverShading bg lcd =
      some (pictureScreen bmp_buff lcd) := by
  rw [windowshades_eq_some (by omega) (by omega) le_rfl le_rfl (by omega) (by omega)]
  congr 1
  funext k
  have hdraws : ∀ color, Draws showWaysCoverShading bg color := fun _ ↦ Or.inl rfl
  have hrow : k / 800 ∈ shadeRows 480 ↔ 0 ≤ k / 800 ∧ k / 800 < 480 :=
    ⟨bounds_of_mem_shadeRows (by decide), mem_shadeRows_of_dvd (by omega) (by decide)⟩
  have hon : OnScreen k ↔ (0 ≤ k / 800 ∧ k / 800 < 480) ∧ (0 ≤ k % 800 ∧ k % 800 < 800) := by
    simp only [OnScreen, pixel]
    omega
  simp only [painted, pictureScreen, hdraws, hrow, hon, and_true, sub_zero]

/-- The animations with which the album shows a picture. -/
def albumAnimations : List ℤ :=
  [animationModeWindowshades, animationModeFlyleft, animationModeFlyright, animationModeFlyup,
    animationModeFlydown]

theorem randomAnimation_mem (rand : ℕ) : randomAnimation rand ∈ albumAnimations := by
  unfold randomAnimation
  split_ifs <;> decide

/-- All of them leave the picture. -/
theorem animate_shown {bmp_buff : Picture.Bytes} (hlen : 1152000 ≤ bmp_buff.length)
    {animation : ℤ} (hmode : animation ∈ albumAnimations) (bg : UInt32) (lcd : Framebuffer) :
    animate bmp_buff 800 480 0 0 showWaysCoverShading bg animation lcd =
      some (pictureScreen bmp_buff lcd) := by
  simp only [albumAnimations, List.mem_cons, List.not_mem_nil, or_false] at hmode
  rcases hmode with rfl | rfl | rfl | rfl | rfl
  · rw [animate_windowshades, windowshades_eq_pictureScreen hlen]
  · rw [animate_flyleft, flyleft_eq_some hlen]
  · rw [animate_flyright, flyright_eq_some hlen]
  · rw [animate_flyup, flyup_eq_some hlen]
  · rw [animate_flydown, flydown_eq_some hlen]

/-! ## One command -/

namespace Gallery

variable {g : Gallery} {i : ℤ}

theorem name_eq (hi : 0 ≤ i ∧ i < g.count) : g.bmpFiles[i.toNat]? = some (g.name i) := by
  have hlt : i.toNat < g.bmpFiles.length := by
    have hcount := hi.2
    unfold count at hcount
    omega
  simp [name, hlt]

theorem name_mem (hi : 0 ≤ i ∧ i < g.count) : g.name i ∈ g.bmpFiles :=
  List.mem_of_getElem? (name_eq hi)

theorem combineFilepatn_name (hi : 0 ≤ i ∧ i < g.count) :
    combineFilepatn (FilePage.folder .pic) (g.name i) = some (g.path i) :=
  combineFilepatn_eq_some_iff.mpr ⟨g.short _ (name_mem hi), rfl⟩

theorem exec_showShownPic (hi : 0 ≤ i ∧ i < g.count) {animation : ℤ}
    (hmode : animation ∈ albumAnimations) (w : World) :
    (showShownPic (g.path i) animation).exec g.toAlbumEnv w =
      some { w with lcd := paint (g.picLayer i) w.lcd } := by
  have hdisk : g.disk (.picture (g.path i)) = some (g.picture (g.name i)).file :=
    g.onDisk _ (name_mem hi)
  have hlen : 1152000 ≤ (g.picture (g.name i)).pixels.length := by
    have hpacked := (g.picture (g.name i)).packed_le_length
    omega
  rw [showShownPic, DrawCall.exec, hdisk,
    showThePic_of_provides ((g.picture (g.name i)).provides g.stack), animate_shown hlen hmode,
    pictureScreen_eq_paint]
  rfl

/-- The index is read into `shownPic` and the picture drawn. -/
theorem loop_shown {s : AlbumState} {stmts : List Stmt} {rands : Rands} {stmt : Stmt}
    (hi : 0 ≤ i ∧ i < g.count) {animation : ℤ} (hmode : animation ∈ albumAnimations)
    (hstmt : ∀ t, execAlbum g.toAlbumEnv rands stmt t =
      t.draw g.toAlbumEnv (showShownPic t.shownPic animation))
    (hmove : loop stmts (execAlbum g.toAlbumEnv rands) s = some { s with indexPic := i }) :
    loop (stmts ++ [.combineFilepatn, stmt]) (execAlbum g.toAlbumEnv rands) s =
      some ⟨i, g.path i, { s.world with lcd := paint (g.picLayer i) s.world.lcd }⟩ := by
  have hread : execIndex g.bmpFiles.length rands.1 .combineFilepatn i = some i := if_pos hi
  have hpath : execAlbum g.toAlbumEnv rands .combineFilepatn { s with indexPic := i } =
      some ⟨i, g.path i, s.world⟩ := by
    simp [execAlbum, hread, name_eq hi, combineFilepatn_name hi]
  rw [loop_append, hmove, Option.bind_some, loop_cons, hpath, Option.bind_some, loop_cons, hstmt,
    AlbumState.draw, exec_showShownPic hi hmode]
  rfl

/-- A command that is no standstill moves the index and draws its picture. -/
theorem loop_picArm_screen {s : AlbumState} (hs : 0 ≤ s.indexPic ∧ s.indexPic < g.count)
    (c : PicStatus × Rands) (hdraws : picArm c.1 ≠ [])
    (hi : (picMove g.count (c.1, c.2.1)).apply g.count s.indexPic = i) :
    loop (picArm c.1) (execAlbum g.toAlbumEnv c.2) s =
      some ⟨i, g.path i, { s.world with lcd := paint (g.picLayer i) s.world.lcd }⟩ := by
  obtain ⟨c, rands⟩ := c
  have hcount : 0 < g.count := by omega
  have hnext := next_bounds hs
  have hprev := prev_bounds hs
  have hmoved : ∀ stmt, execAlbum g.toAlbumEnv rands stmt s = some { s with indexPic := i } →
      loop [stmt] (execAlbum g.toAlbumEnv rands) s = some { s with indexPic := i } := by
    intro stmt hstmt
    rw [loop_cons, hstmt, Option.bind_some, loop_nil]
  cases c with
  | picNull => exact absurd rfl hdraws
  | picMenue => exact absurd rfl hdraws
  | picPlay =>
      subst hi
      have hmode : animationModeWindowshades ∈ albumAnimations := by decide
      have hstay : loop [] (execAlbum g.toAlbumEnv rands) s =
          some { s with indexPic := s.indexPic } := rfl
      exact loop_shown hs hmode (fun _ ↦ rfl) hstay
  | picPlaySequential =>
      subst hi
      exact loop_shown hnext (randomAnimation_mem rands.2) (fun _ ↦ rfl) (hmoved .nextIndex rfl)
  | picPlayShuffle =>
      have hbounds := picMove_jump hcount (c := (.picPlayShuffle, rands.1)) rfl
      have hrand : execIndex g.bmpFiles.length rands.1 .randIndex s.indexPic = some i := by
        rw [← hi]
        exact if_neg (Int.ne_of_gt hcount)
      have hstmt : execAlbum g.toAlbumEnv rands .randIndex s = some { s with indexPic := i } := by
        rw [execAlbum, hrand, Option.map_some]
        all_goals simp
      exact loop_shown (hi ▸ hbounds) (randomAnimation_mem rands.2) (fun _ ↦ rfl)
        (hmoved .randIndex hstmt)
  | picNextWindowshade | picNextFlyleft | picNextFtydown =>
      subst hi
      exact loop_shown hnext (by decide) (fun _ ↦ rfl) (hmoved .nextIndex rfl)
  | picPrevWindowshade | picPrevFlyright | picPrevFlyup =>
      subst hi
      exact loop_shown hprev (by decide) (fun _ ↦ rfl) (hmoved .prevIndex rfl)

theorem loop_picButtons (c : PicStatus) (s : AlbumState) :
    loop (picButtons c) (AlbumState.draw g.toAlbumEnv) s =
      some { s with world := { s.world with
        lcd := paintAll (g.above (overlay c)) s.world.lcd } } := by
  have hback : s.draw g.toAlbumEnv backCall =
      some { s with world := { s.world with lcd := paint g.back.layer s.world.lcd } } := by
    rw [AlbumState.draw, g.back.exec_eq]
    rfl
  have hchoice : s.draw g.toAlbumEnv (showPicMenue 0 165) =
      some { s with world := { s.world with lcd := paint g.choice.layer s.world.lcd } } := by
    rw [AlbumState.draw, g.choice.exec_eq]
    rfl
  cases c with
  | picPlay => rw [picButtons, loop_cons, hchoice]; rfl
  | picNull | picMenue | picPlaySequential | picPlayShuffle => rfl
  | _ => rw [picButtons, showBackButton_draw, loop_cons, hback]; rfl

theorem picButtons_of_still {c : PicStatus} (h : picArm c = []) : picButtons c = [] := by
  cases c <;> first | rfl | exact absurd h (by simp [picArm])

/-- The command moves the index, and draws the picture of the new one and what it puts over
it; a standstill changes nothing. -/
theorem execCommand_eq {s : AlbumState} (hs : 0 ≤ s.indexPic ∧ s.indexPic < g.count)
    (c : PicStatus × Rands) (hi : (picMove g.count (c.1, c.2.1)).apply g.count s.indexPic = i) :
    execCommand g.toAlbumEnv c s =
      some (if picArm c.1 = [] then s
        else ⟨i, g.path i, { s.world with lcd := g.view (overlay c.1) i s.world.lcd }⟩) := by
  split
  next hstill =>
    simp [execCommand, hstill, picButtons_of_still hstill]
  next hdraws =>
    simp only [execCommand, loop_picArm_screen hs c hdraws hi, bind, Option.bind_some,
      loop_picButtons]
    rfl

/-! ## A visit -/

/-- The last of the commands that draws. -/
def lastDrawn (commands : List (PicStatus × Rands)) : Option PicStatus :=
  ((commands.map Prod.fst).filter fun c ↦ picArm c ≠ []).getLast?

theorem lastDrawn_append (commands : List (PicStatus × Rands)) (c : PicStatus × Rands) :
    lastDrawn (commands ++ [c]) =
      if picArm c.1 = [] then lastDrawn commands else some c.1 := by
  simp only [lastDrawn, List.map_append, List.map_cons, List.map_nil, List.filter_append]
  by_cases hstill : picArm c.1 = [] <;> simp [hstill]

theorem within_above (o : Overlay) : ∀ layer ∈ g.above o, Within layer := by
  intro layer hmem
  cases o <;> simp only [above, List.mem_cons, List.not_mem_nil, or_false] at hmem
  · exact hmem ▸ g.back.within
  · exact hmem ▸ g.choice.within

/-- A view leaves nothing of what was on the screen. -/
theorem view_view (o o' : Overlay) (i i' : ℤ) (lcd : Framebuffer) :
    g.view o i (g.view o' i' lcd) = g.view o i lcd := by
  have hcovers : ∀ layer ∈ g.picLayer i' :: g.above o', Covers (g.picLayer i) layer := by
    intro layer hmem
    refine pictureLayer_covers ?_ _
    rcases List.mem_cons.mp hmem with rfl | hmem
    · exact within_pictureLayer _
    · exact within_above o' layer hmem
  have hpainted := paintAll_of_covers hcovers (g.above o) lcd
  rwa [paintAll_append] at hpainted

theorem enterAlbum_eq (s : AlbumState) :
    enterAlbum g.toAlbumEnv s =
      some ⟨s.indexPic, g.path 0, { s.world with lcd := g.view .back 0 s.world.lcd }⟩ := by
  have hfirst : 0 ≤ (0 : ℤ) ∧ 0 < g.count := by
    have hlength := List.length_pos_iff.mpr g.nonempty
    unfold count
    omega
  have hname : g.bmpFiles[0]? = some (g.name 0) := name_eq hfirst
  have hmode : animationModeWindowshades ∈ albumAnimations := by decide
  have hdraw := exec_showShownPic hfirst hmode s.world
  have hback := g.back.exec_eq { s.world with lcd := paint (g.picLayer 0) s.world.lcd }
  simp [enterAlbum, hname, combineFilepatn_name hfirst, showBackButton_draw, AlbumState.draw,
    hdraw, hback, view, above]

/-- What lies over the picture after these commands: the entry draws the back button. -/
def overlayAfter (commands : List (PicStatus × Rands)) : Overlay :=
  (lastDrawn commands).elim .back overlay

/-- The picture that is shown after these commands: the first one until a command draws, and
then that of the index. -/
def shownAfter (commands : List (PicStatus × Rands)) (i : ℤ) : ℤ :=
  if lastDrawn commands = none then 0 else i

def screenAfter (g : Gallery) (commands : List (PicStatus × Rands)) (i : ℤ)
    (lcd : Framebuffer) : Framebuffer :=
  g.view (overlayAfter commands) (shownAfter commands i) lcd

theorem screenAfter_of_still {c : PicStatus × Rands} (h : picArm c.1 = [])
    (commands : List (PicStatus × Rands)) (i : ℤ) (lcd : Framebuffer) :
    g.screenAfter (commands ++ [c]) i lcd = g.screenAfter commands i lcd := by
  simp only [screenAfter, overlayAfter, shownAfter, lastDrawn_append, if_pos h]

/-- A command that draws hides what the commands before it have drawn. -/
theorem screenAfter_of_drawn {c : PicStatus × Rands} (h : picArm c.1 ≠ [])
    (commands : List (PicStatus × Rands)) (i i' : ℤ) (lcd : Framebuffer) :
    g.screenAfter (commands ++ [c]) i lcd =
      g.view (overlay c.1) i (g.screenAfter commands i' lcd) := by
  rw [screenAfter, overlayAfter, shownAfter, lastDrawn_append, if_neg h, if_neg (by simp),
    screenAfter, view_view]
  rfl

def move (g : Gallery) (c : PicStatus × Rands) : Move := picMove g.count (c.1, c.2.1)

theorem walk_move_bounds (hi : 0 ≤ i ∧ i < g.count) (commands : List (PicStatus × Rands)) :
    0 ≤ walk g.count (commands.map g.move) i ∧ walk g.count (commands.map g.move) i < g.count := by
  have hcount : 0 < g.count := by omega
  have hjumps : ∀ target, .jump target ∈ commands.map g.move → 0 ≤ target ∧ target < g.count := by
    intro target hmem
    obtain ⟨c, -, hc⟩ := List.mem_map.mp hmem
    exact picMove_jump hcount hc
  rw [walk_eq_emod hi hjumps]
  exact emod_bounds hcount _

theorem apply_move_of_still {c : PicStatus × Rands} (h : picArm c.1 = []) (i : ℤ) :
    (g.move c).apply g.count i = i := by
  obtain ⟨c, rands⟩ := c
  cases c <;> first | rfl | exact absurd h (by simp [picArm])

theorem visitAlbum_eq {s : AlbumState} (hs : 0 ≤ s.indexPic ∧ s.indexPic < g.count)
    (commands : List (PicStatus × Rands)) :
    ∃ path, visitAlbum g.toAlbumEnv commands s =
      some ⟨walk g.count (commands.map g.move) s.indexPic, path,
        { s.world with
          lcd := g.screenAfter commands (walk g.count (commands.map g.move) s.indexPic)
            s.world.lcd }⟩ := by
  have henter := enterAlbum_eq (g := g) s
  induction commands using List.reverseRecOn with
  | nil =>
      refine ⟨g.path 0, ?_⟩
      rw [visitAlbum, henter]
      rfl
  | append_singleton commands c ih =>
      obtain ⟨path, hvisit⟩ := ih
      set i' := walk g.count (commands.map g.move) s.indexPic with hi'
      have hbounds := walk_move_bounds hs commands
      have hlast : walk g.count ((commands ++ [c]).map g.move) s.indexPic =
          (g.move c).apply g.count i' := by
        rw [List.map_append, List.map_singleton, walk_concat]
      have hvisited : visitAlbum g.toAlbumEnv (commands ++ [c]) s =
          (visitAlbum g.toAlbumEnv commands s).bind (execCommand g.toAlbumEnv c) := by
        simp only [visitAlbum, henter, bind, Option.bind_some, loop_append, loop_singleton]
      by_cases hstill : picArm c.1 = []
      · refine ⟨path, ?_⟩
        rw [hvisited, hvisit, Option.bind_some, execCommand_eq hbounds c rfl, if_pos hstill, hlast,
          apply_move_of_still hstill, screenAfter_of_still hstill]
      · refine ⟨g.path ((g.move c).apply g.count i'), ?_⟩
        rw [hvisited, hvisit, Option.bind_some, execCommand_eq hbounds c rfl, if_neg hstill, hlast,
          screenAfter_of_drawn hstill commands _ i']
        rfl

/-- Where nothing lies over it, the view has the colors of the picture's file. -/
theorem view_of_uncovered {o : Overlay} {k : ℤ} (hk : OnScreen k)
    (habove : ∀ layer ∈ g.above o, layer k = none) (i : ℤ) (lcd : Framebuffer) :
    g.view o i lcd k = (g.picture (g.name i)).color (k / 800) (k % 800) := by
  rw [view, paintAll_cons, paintAll_of_none habove, paint, picLayer, pictureLayer, if_pos hk,
    Option.getD_some]

end Gallery

/-! ## A gallery of two pictures -/

/-- Bytes that count up. -/
def ramp (start n : ℕ) : Picture.Bytes := (List.range n).map fun k ↦ .ofNat (start + k)

@[simp] theorem length_ramp (start n : ℕ) : (ramp start n).length = n := by simp [ramp]

theorem byteAt_ramp {start n k : ℕ} (hk : k < n) :
    byteAt (ramp start n) k = (start + k) % 256 := by
  simp [byteAt, ramp, hk]

/-- A file with such pixels. -/
def rampFile (w h : Int32) (size : UInt32) (start : ℕ) (hw : 0 < w.toInt) (hh : 0 < h.toInt)
    (hpad : 4 ∣ w.toInt) (hsize : (size.toNat : ℤ) = stride w.toInt * h.toInt)
    (hpos : (size.toNat : ℤ) ≠ 0) : PicFile w.toInt h.toInt :=
  have hfile : WellFormed (headerBytes 54 w h size ++ ramp start size.toNat) w.toInt h.toInt 54
      size.toNat :=
    wellFormed_headerBytes w h 54 size _ (by decide) (Or.inr hsize)
      (by rw [length_ramp, hsize]; exact le_rfl)
  .ofWellFormed hfile hpos hw hh hpad

def rampPicture (start : ℕ) : PicFile 800 480 :=
  rampFile 800 480 1152000 start (by decide) (by decide) (by decide) (by decide) (by decide)

def rampMenue : PicFile 800 150 :=
  rampFile 800 150 360000 0 (by decide) (by decide) (by decide) (by decide) (by decide)

def rampButton : PicFile 60 60 :=
  rampFile 60 60 10800 0 (by decide) (by decide) (by decide) (by decide) (by decide)

theorem color_rampPicture (start p : ℕ) {i j : ℤ} (hi : 0 ≤ i ∧ i < 480) (hj : 0 ≤ j ∧ j < 800)
    (hp : (p : ℤ) = 2400 * (479 - i) + 3 * j) :
    (rampPicture start).color i j = .ofNat (65536 * ((start + (p + 2)) % 256) +
      256 * ((start + (p + 1)) % 256) + (start + p) % 256) := by
  have hbyte : ∀ k < 3, byteAt (rampPicture start).file (54 + p + k) = (start + (p + k)) % 256 := by
    intro k hk
    rw [Nat.add_assoc, ← byteAt_drop,
      show (rampPicture start).file.drop 54 = ramp start 1152000 from
        List.drop_left' (length_headerBytes 54 800 480 1152000), byteAt_ramp (by omega)]
  have hoff : ((BitMapFileHeader.ofBytes (rampPicture start).file).bfOffBits.toNat : ℤ) = 54 := by
    rw [(rampPicture start).offBits]
    rfl
  have hposition : ((54 : ℤ) + stride 800 * (480 - 1 - i) + 3 * j).toNat = 54 + p := by
    rw [show stride 800 = 2400 by decide]
    omega
  rw [PicFile.color, fileColor, hoff, hposition, hbyte 2 (by omega), hbyte 1 (by omega),
    ← Nat.add_zero (54 + p), hbyte 0 (by omega)]
  rfl

/-- The call has room for a picture of this size, and slats of whole rows. -/
def HasRoom (c : DrawCall) (w h : ℤ) : Prop :=
  c.animation = animationModeWindowshades ∧ 15 ∣ h ∧ 0 ≤ c.x ∧ 0 ≤ c.y ∧ c.x + w ≤ 800 ∧
    c.y + h ≤ 480

instance (c : DrawCall) (w h : ℤ) : Decidable (HasRoom c w h) :=
  inferInstanceAs (Decidable (_ ∧ _))

def ButtonFile.ofRoom {env : AlbumEnv} {c : DrawCall} {w h : ℤ} (pic : PicFile w h)
    (hdisk : env.disk c.bmpPath = some pic.file) (hroom : HasRoom c w h) : ButtonFile env c :=
  ⟨w, h, pic, hdisk, hroom.1, hroom.2.1, hroom.2.2.1, hroom.2.2.2.1, hroom.2.2.2.2.1,
    hroom.2.2.2.2.2⟩

theorem hasRoom_back : HasRoom backCall 60 60 := by decide

theorem hasRoom_choice : HasRoom (showPicMenue 0 165) 800 150 := by decide

/-- `../pic/a.bmp` -/
def firstPath : Bytes := FilePage.folder .pic ++ [47, 97, 46, 98, 109, 112]

def pictureOf (path : Bytes) : PicFile 800 480 := rampPicture (if path = firstPath then 0 else 7)

def rampEnv : AlbumEnv where
  bmpFiles := [[97, 46, 98, 109, 112], [98, 46, 98, 109, 112]]
  disk
    | .picture path => some (pictureOf path).file
    | .picChoice => some rampMenue.file
    | _ => some rampButton.file
  stack := []

def rampGallery : Gallery where
  toAlbumEnv := rampEnv
  nonempty := by decide
  short := by decide
  picture name := pictureOf (FilePage.folder .pic ++ [47] ++ name)
  onDisk _ _ := rfl
  back := .ofRoom rampButton rfl hasRoom_back
  choice := .ofRoom rampMenue rfl hasRoom_choice

end EmbeddedSystem.Ui
