import EmbeddedSystem.Ui.AlbumScreen
import EmbeddedSystem.Ui.Icons

/-!
# The screen of the program

The two threads with all that they draw, against an abstract screen that knows of no pixels:
the index of the album, and a scene.  Each page paints a picture that fills the screen before
anything else, so what is seen is the scene alone, whatever the pages before have drawn, and
the icon over a media page is the one that belongs to the status word.
-/

namespace EmbeddedSystem.Ui

open CountedLoop Layers Picture Runs

/-! ## What the threads draw -/

/-- What `proc_music` and `proc_video` draw before their loops. -/
def MediaPage.entryCalls : MediaPage → List DrawCall
  | .music => (showMusicButtons 0 0 60).map ShowCall.draw
  | .video => showVideoBac :: (showVideoButtons 0 0 60).map ShowCall.draw

def MediaPage.iconCall : MediaPage → Icon → DrawCall
  | .music, .play => showMusicPlay
  | .music, .pause => showMusicPause
  | .video, .play => showVideoPlay
  | .video, .pause => showVideoPause

/-- What the touch thread draws in the `switch (ui_status)`. -/
def touchCalls (a b : ℤ) (w : Words) : List DrawCall :=
  match w.uiStatus with
  | .uiMusic =>
    ((tapIcon MediaPage.music.backX a b w.musicStatus).map MediaPage.music.iconCall).toList
  | .uiVideo =>
    ((tapIcon MediaPage.video.backX a b w.videoStatus).map MediaPage.video.iconCall).toList
  | _ => []

/-- What `main` calls for a page without a loop of its own. -/
def selectCalls : UiStatus → List DrawCall
  | .uiMain => [showWelcome 0 0]
  | .uiEnd => [showEnd 0 0]
  | _ => []

/-- What an arm of the album draws before it writes its status word, and what after. -/
def buttonsBefore (c : PicStatus) : List DrawCall := if c = .picPlay then picButtons c else []

def buttonsAfter (c : PicStatus) : List DrawCall := if c = .picPlay then [] else picButtons c

def voiceEntryCalls : List DrawCall :=
  showVoiceBackground 0 0 :: (showBackButton 0 0).map ShowCall.draw

/-- `sendFileAndGetString` from the connection on. -/
def exchangeCalls : List DrawCall :=
  [showStatusVoiceListening 200 360, showVoiceBackground 0 0, showStatusVoiceRecognizing 200 360]

def failedCalls : List DrawCall := [showVoiceBackground 0 0, showRecognitionFailed 200 360]

def drawMain (env : AlbumEnv) (rands : Rands) (s : Sys) (a : AlbumState) : Option AlbumState :=
  match s.main with
  | .select => loop (selectCalls s.words.uiStatus) (AlbumState.draw env) a
  | .procPic .entry => enterAlbum env a
  | .procPic (.act c) => do
    let a ← loop (picArm c) (execAlbum env rands) a
    loop (buttonsBefore c) (AlbumState.draw env) a
  | .procPic (.followUp c) => loop (buttonsAfter c) (AlbumState.draw env) a
  | .procMedia m .entry => loop m.entryCalls (AlbumState.draw env) a
  | .procVoice .entry => loop voiceEntryCalls (AlbumState.draw env) a
  | .procVoice .test =>
    -- the first call of sendFileAndGetString
    loop (if s.words.uiStatus = .uiVoice then [showVoiceBackground 0 0] else [])
      (AlbumState.draw env) a
  | .procVoice (.compare command) =>
    loop (if voiceTarget command = none then failedCalls else []) (AlbumState.draw env) a
  | _ => some a

def draw (env : AlbumEnv) (s : Sys) (l : Label × Rands) (a : AlbumState) : Option AlbumState :=
  match l.1 with
  | .touch x y _ _ => loop (touchCalls x y s.words) (AlbumState.draw env) a
  | .main => drawMain env l.2 s a
  | .exchange _ => loop exchangeCalls (AlbumState.draw env) a
  | .resume => some a
  | .deliver _ _ => some a
  | .exit _ _ => some a

/-- A step of the two threads with its drawing. -/
def drawnStep (env : AlbumEnv) (p : Sys × AlbumState) (l : Label × Rands) :
    Option (Sys × AlbumState) := do
  let s ← step p.1 l.1
  let a ← draw env p.1 l p.2
  some (s, a)

/-! ## Scenes -/

inductive VoiceScene
  | entered
  | asking
  | recognizing
  | failed
  deriving DecidableEq, Repr

/-- What there is to see: nothing yet, or the picture of a page and what was drawn over it. -/
inductive Scene
  | blank
  | main
  | album (o : Overlay) (i : ℤ)
  | media (m : MediaPage) (icons : List Icon)
  | voice (v : VoiceScene)
  | ended
  deriving DecidableEq, Repr

/-- The abstract screen. -/
structure Shown where
  indexPic : ℤ
  scene : Scene
  deriving DecidableEq, Repr

/-- A tap leaves the icon that the handler of the page draws. -/
def Scene.tap (a b : ℤ) (w : Words) : Scene → Scene
  | .media m icons =>
    if w.uiStatus = m.uiStatus then
      .media m (icons ++ (tapIcon m.backX a b (w.media m)).toList)
    else .media m icons
  | scene => scene

/-- What a step of the main thread leaves to be seen, with `n` pictures in the album. -/
def lookMain (n : ℤ) (s : Sys) (rands : Rands) (v : Shown) : Shown :=
  match s.main with
  | .select =>
    match s.words.uiStatus with
    | .uiMain => { v with scene := .main }
    | .uiEnd => { v with scene := .ended }
    | _ => v
  | .procPic .entry => { v with scene := .album .back 0 }
  | .procPic (.act c) =>
    if picArm c = [] then v
    else
      let i := (picMove n (c, rands.1)).apply n v.indexPic
      ⟨i, .album (if c = .picPlay then .menue else .bare) i⟩
  | .procPic (.followUp c) =>
    if picArm c = [] then v else { v with scene := .album (overlay c) v.indexPic }
  | .procMedia m .entry => { v with scene := .media m [] }
  | .procVoice .entry => { v with scene := .voice .entered }
  | .procVoice .test =>
    if s.words.uiStatus = .uiVoice then { v with scene := .voice .asking } else v
  | .procVoice (.compare command) =>
    if voiceTarget command = none then { v with scene := .voice .failed } else v
  | _ => v

def look (n : ℤ) (s : Sys) (l : Label × Rands) (v : Shown) : Shown :=
  match l.1 with
  | .touch a b _ _ => { v with scene := v.scene.tap a b s.words }
  | .main => lookMain n s l.2 v
  | .exchange _ => { v with scene := .voice .recognizing }
  | .resume => v
  | .deliver _ _ => v
  | .exit _ _ => v

/-- A step of the two threads with the abstract screen. -/
def lookStep (n : ℤ) : Sys × Shown → Label × Rands → Option (Sys × Shown) :=
  withHistory (fun s l ↦ step s l.1) (look n)

def VoiceScene.calls : VoiceScene → List DrawCall
  | .entered => voiceEntryCalls
  | .asking => [showVoiceBackground 0 0]
  | .recognizing => [showVoiceBackground 0 0, showStatusVoiceRecognizing 200 360]
  | .failed => failedCalls

/-- The calls outside the album. -/
def uiCalls : List DrawCall :=
  [showWelcome 0 0, showEnd 0 0] ++ MediaPage.music.entryCalls ++ MediaPage.video.entryCalls ++
    [showMusicPlay, showVideoPlay] ++ voiceEntryCalls ++ exchangeCalls ++
    [showRecognitionFailed 200 360]

/-- The calls with a picture of the size of the screen. -/
def backgroundCalls : List DrawCall :=
  [showWelcome 0 0, showEnd 0 0, ⟨.material .musicBackground, 0, 0, animationModeWindowshades,
    showWaysCoverShading, 0x00ffffff⟩, showVideoBac, showVoiceBackground 0 0]

/-- A gallery, and the material for the other pages: what there is of it can be drawn, and
there are all the backgrounds. -/
structure Theme extends Gallery where
  button : ∀ c ∈ uiCalls, (disk c.bmpPath).isSome → ButtonFile toAlbumEnv c
  fills : ∀ c (h : c ∈ uiCalls), c ∈ backgroundCalls →
    ∃ hdisk : (disk c.bmpPath).isSome, (button c h hdisk).Fills

namespace Theme

variable (T : Theme)

/-- What the call draws, which is nothing if its file is missing. -/
def layer (c : DrawCall) : Layer ℤ UInt32 :=
  if h : c ∈ uiCalls ∧ (T.disk c.bmpPath).isSome then (T.button c h.1 h.2).layer
  else fun _ ↦ none

def layers : Scene → List (Layer ℤ UInt32)
  | .blank => []
  | .main => [T.layer (showWelcome 0 0)]
  | .album o i => T.picLayer i :: T.above o
  | .media m icons => (m.entryCalls ++ icons.map m.iconCall).map T.layer
  | .voice v => v.calls.map T.layer
  | .ended => [T.layer (showEnd 0 0)]

/-- The screen that shows this scene. -/
def screen (scene : Scene) (lcd : Framebuffer) : Framebuffer := paintAll (T.layers scene) lcd

end Theme

/-- The icon that was drawn last on a media page. -/
def lastIcon (icons : List Icon) : Icon := icons.getLastD .pause

/-- The scene belongs to the state of the threads, with `i` as the index of the album. -/
def Sys.Shows (s : Sys) (i : ℤ) (scene : Scene) : Prop :=
  match s.main with
  | .select => True
  | .procMain => scene = .main
  | .procPic .entry => True
  | .procPic (.followUp c) =>
    if picArm c = [] then ∃ o j, scene = .album o j ∧ (j = i ∨ o = .back ∧ j = 0)
    else scene = .album (if c = .picPlay then .menue else .bare) i
  | .procPic _ => ∃ o j, scene = .album o j ∧ (j = i ∨ o = .back ∧ j = 0)
  | .procMedia _ .entry => True
  | .procMedia m _ => ∃ icons, scene = .media m icons
  | .procVoice .entry => True
  | .procVoice .test =>
    scene = .voice .entered ∨ scene = .voice .failed ∨ scene = .voice .recognizing
  | .procVoice .exchange => scene = .voice .asking
  | .procVoice (.compare _) => scene = .voice .recognizing
  | .ended => scene = .ended

/-! ## Painting a scene -/

namespace Theme

variable {T : Theme} {calls : List DrawCall} {scene : Scene} {a : AlbumState} {c : PicStatus}

theorem exec_eq {c : DrawCall} (hc : c ∈ uiCalls) (w : World) :
    c.exec T.toAlbumEnv w = some { w with lcd := paint (T.layer c) w.lcd } := by
  cases hdisk : T.disk c.bmpPath with
  | none =>
      have hlayer : T.layer c = fun _ ↦ none := dif_neg (by simp [hdisk])
      rw [DrawCall.exec_of_missing hdisk, hlayer]
      rfl
  | some file =>
      have hfile : (T.disk c.bmpPath).isSome := by simp [hdisk]
      have hlayer : T.layer c = (T.button c hc hfile).layer := dif_pos ⟨hc, hfile⟩
      rw [(T.button c hc hfile).exec_eq, hlayer]

theorem loop_draw (hcalls : calls ⊆ uiCalls) (a : AlbumState) :
    loop calls (AlbumState.draw T.toAlbumEnv) a =
      some { a with world := { a.world with
        lcd := paintAll (calls.map T.layer) a.world.lcd } } := by
  induction calls generalizing a with
  | nil => rfl
  | cons c calls ih =>
      obtain ⟨hc, hrest⟩ := List.cons_subset.mp hcalls
      have hdraw : a.draw T.toAlbumEnv c =
          some { a with world := { a.world with lcd := paint (T.layer c) a.world.lcd } } := by
        rw [AlbumState.draw, exec_eq hc]
        rfl
      rw [loop_cons, hdraw, Option.bind_some, ih hrest]
      rfl

theorem within_layer (c : DrawCall) : Within (T.layer c) := by
  unfold layer
  split
  next h => exact (T.button c h.1 h.2).within
  next => exact fun k hk ↦ by cases hk

theorem within_layers (scene : Scene) : ∀ layer ∈ T.layers scene, Within layer := by
  have hcalls : ∀ calls : List DrawCall, ∀ layer ∈ calls.map T.layer, Within layer := by
    intro calls layer hmem
    obtain ⟨c, -, rfl⟩ := List.mem_map.mp hmem
    exact within_layer c
  cases scene with
  | blank => simp [layers]
  | main => exact hcalls [showWelcome 0 0]
  | album o i =>
      intro layer hmem
      rcases List.mem_cons.mp hmem with rfl | hmem
      · exact within_pictureLayer _
      · exact Gallery.within_above o layer hmem
  | media m icons => exact hcalls _
  | voice v => exact hcalls _
  | ended => exact hcalls [showEnd 0 0]

/-- A background hides the scene before. -/
theorem paintAll_background (T : Theme) {upper : Layer ℤ UInt32}
    (hupper : ∀ layer, Within layer → Layers.Covers upper layer)
    (above : List (Layer ℤ UInt32)) (scene : Scene) (lcd : Framebuffer) :
    paintAll (upper :: above) (T.screen scene lcd) = paintAll (upper :: above) lcd := by
  have hbelow : ∀ layer ∈ T.layers scene, Layers.Covers upper layer :=
    fun layer hmem ↦ hupper layer (within_layers scene layer hmem)
  have hpainted := paintAll_of_covers hbelow above lcd
  rwa [paintAll_append] at hpainted

theorem layer_covers {c : DrawCall} (hc : c ∈ uiCalls) (hback : c ∈ backgroundCalls)
    (layer : Layer ℤ UInt32) (h : Within layer) : Layers.Covers (T.layer c) layer := by
  obtain ⟨hdisk, hfills⟩ := T.fills c hc hback
  have hlayer : T.layer c = (T.button c hc hdisk).layer := dif_pos ⟨hc, hdisk⟩
  rw [hlayer]
  exact hfills.covers h

theorem uiCalls_of_media (m : MediaPage) : m.entryCalls ⊆ uiCalls := by
  cases m <;> decide

theorem iconCall_mem (m : MediaPage) (icon : Icon) : m.iconCall icon ∈ uiCalls := by
  cases m <;> cases icon <;> decide

/-- The picture of an arm of the album, and the menu of `PIC_PLAY`. -/
theorem draw_arm (hindex : 0 ≤ a.indexPic ∧ a.indexPic < T.count) (rands : Rands)
    (hdraws : picArm c ≠ []) {i : ℤ}
    (hi : (picMove T.count (c, rands.1)).apply T.count a.indexPic = i) :
    ((loop (picArm c) (execAlbum T.toAlbumEnv rands) a).bind fun a ↦
        loop (buttonsBefore c) (AlbumState.draw T.toAlbumEnv) a) =
      some ⟨i, T.path i, { a.world with
        lcd := T.screen (.album (if c = .picPlay then .menue else .bare) i) a.world.lcd }⟩ := by
  rw [Gallery.loop_picArm_screen hindex (c, rands) hdraws hi, Option.bind_some, buttonsBefore]
  split
  next hplay => rw [Gallery.loop_picButtons, hplay]; rfl
  next => rfl

/-- The back button after it. -/
theorem draw_buttonsAfter {i : ℤ} {lcd : Framebuffer} (hscreen :
      a.world.lcd = T.screen (.album (if c = .picPlay then .menue else .bare) i) lcd) :
    loop (buttonsAfter c) (AlbumState.draw T.toAlbumEnv) a =
      some { a with world := { a.world with lcd := T.screen (.album (overlay c) i) lcd } } := by
  rw [buttonsAfter]
  split
  next hplay =>
    subst hplay
    have hmenue : a.world.lcd = T.screen (.album (overlay .picPlay) i) lcd := hscreen
    rw [loop_nil, ← hmenue]
  next hplay =>
    rw [Gallery.loop_picButtons, hscreen, if_neg hplay]
    rfl

end Theme

/-! ## A step -/

/-- The screen shows this scene, with `icons` as the icons that were drawn last; nothing else
of the world has changed. -/
structure ShownAs (T : Theme) (w : World) (s : Sys) (a : AlbumState) (v : Shown)
    (icons : Icons) : Prop where
  index : a.indexPic = v.indexPic
  bounds : 0 ≤ v.indexPic ∧ v.indexPic < T.count
  shows : s.Shows v.indexPic v.scene
  last : ∀ m list, v.scene = .media m list → lastIcon list = icons m
  painted : a.world = { w with lcd := T.screen v.scene w.lcd }

section Step

variable {T : Theme} {w : World} {s t : Sys} {a : AlbumState} {v : Shown} {icons : Icons}

/-- A step that draws nothing. -/
theorem ShownAs.congr (h : ShownAs T w s a v icons) (ht : t.Shows v.indexPic v.scene) :
    ShownAs T w t a v icons :=
  ⟨h.index, h.bounds, ht, h.last, h.painted⟩

/-- A step that draws a background, and then more. -/
theorem ShownAs.entered (h : ShownAs T w s a v icons) (c : DrawCall) (above : List DrawCall)
    (scene' : Scene) {icons' : Icons} (hcalls : c :: above ⊆ uiCalls) (hback : c ∈ backgroundCalls)
    (hlayers : T.layers scene' = (c :: above).map T.layer) (ht : t.Shows v.indexPic scene')
    (hlast : ∀ m list, scene' = .media m list → lastIcon list = icons' m) :
    ∃ b, loop (c :: above) (AlbumState.draw T.toAlbumEnv) a = some b ∧
      ShownAs T w t b { v with scene := scene' } icons' := by
  refine ⟨_, Theme.loop_draw hcalls a, h.index, h.bounds, ht, hlast, ?_⟩
  have hcovers : ∀ layer, Within layer → Layers.Covers (T.layer c) layer :=
    Theme.layer_covers (hcalls List.mem_cons_self) hback
  have hscreen : paintAll ((c :: above).map T.layer) (T.screen v.scene w.lcd) =
      T.screen scene' w.lcd := by
    rw [Theme.screen, Theme.screen, hlayers]
    exact T.paintAll_background hcovers (above.map T.layer) v.scene w.lcd
  simp only [h.painted, hscreen]

theorem recordIcons_main (hmain : ∀ m, s.main ≠ .procMedia m .entry) :
    recordIcons s .main icons = icons := by
  unfold recordIcons
  split
  next heq => cases heq
  next heq => exact absurd heq (hmain _)
  next => rfl

/-- A pass of the album's loop. -/
theorem shown_procPic (h : ShownAs T w s a v icons) {pc : LoopPc PicStatus}
    (hmain : s.main = .procPic pc)
    (ht : t.main = (pc.next (s.words.uiStatus = .uiPic) s.words.picStatus).elim .select .procPic)
    (rands : Rands) :
    ∃ b, drawMain T.toAlbumEnv rands s a = some b ∧
      ShownAs T w t b (lookMain T.count s rands v) icons := by
  have hshows := h.shows
  have hpainted := congrArg World.lcd h.painted
  simp only [Sys.Shows, hmain] at hshows
  cases pc with
  | entry =>
      have hdraw : drawMain T.toAlbumEnv rands s a = enterAlbum T.toAlbumEnv a := by
        rw [drawMain, hmain]
      have hlook : lookMain T.count s rands v = { v with scene := .album .back 0 } := by
        rw [lookMain, hmain]
      rw [Gallery.enterAlbum_eq] at hdraw
      rw [hlook]
      refine ⟨_, hdraw, h.index, h.bounds, ?_, by simp, ?_⟩
      · simp [Sys.Shows, ht, LoopPc.next]
      · have hcovers : ∀ layer, Within layer → Layers.Covers (T.picLayer 0) layer :=
          fun layer hlayer ↦ pictureLayer_covers hlayer _
        have hscreen : T.view .back 0 (T.screen v.scene w.lcd) =
            T.screen (.album .back 0) w.lcd :=
          T.paintAll_background hcovers (T.above .back) v.scene w.lcd
        simp only [h.painted, hscreen]
  | test =>
      have hlook : lookMain T.count s rands v = v := by rw [lookMain, hmain]
      rw [hlook]
      refine ⟨a, by rw [drawMain, hmain], h.congr ?_⟩
      by_cases hui : s.words.uiStatus = .uiPic
      · simpa [Sys.Shows, ht, LoopPc.next, hui] using hshows
      · simp [Sys.Shows, ht, LoopPc.next, hui]
  | switch =>
      have hlook : lookMain T.count s rands v = v := by rw [lookMain, hmain]
      rw [hlook]
      refine ⟨a, by rw [drawMain, hmain], h.congr ?_⟩
      simpa [Sys.Shows, ht, LoopPc.next] using hshows
  | act c =>
      have hdraw : drawMain T.toAlbumEnv rands s a =
          (loop (picArm c) (execAlbum T.toAlbumEnv rands) a).bind fun a ↦
            loop (buttonsBefore c) (AlbumState.draw T.toAlbumEnv) a := by
        rw [drawMain, hmain]
        rfl
      by_cases hstill : picArm c = []
      · have hbuttons : buttonsBefore c = [] := by
          rw [buttonsBefore, Gallery.picButtons_of_still hstill, ite_self]
        have hlook : lookMain T.count s rands v = v := by
          rw [lookMain, hmain]
          exact if_pos hstill
        rw [hstill, hbuttons] at hdraw
        rw [hlook]
        refine ⟨a, hdraw, h.congr ?_⟩
        simpa [Sys.Shows, ht, LoopPc.next, hstill] using hshows
      · set i := (picMove T.count (c, rands.1)).apply T.count v.indexPic with hi
        have hlook : lookMain T.count s rands v =
            ⟨i, .album (if c = .picPlay then .menue else .bare) i⟩ := by
          rw [lookMain, hmain]
          exact if_neg hstill
        have hbounds : 0 ≤ i ∧ i < T.count :=
          Gallery.walk_move_bounds h.bounds [(c, rands)]
        have harm := Theme.draw_arm (h.index ▸ h.bounds) rands hstill (by rw [h.index])
        rw [hlook]
        refine ⟨_, hdraw.trans harm, rfl, hbounds, ?_, by simp, ?_⟩
        · simp [Sys.Shows, ht, LoopPc.next, hstill]
        · have hcovers : ∀ layer, Within layer → Layers.Covers (T.picLayer i) layer :=
            fun layer hlayer ↦ pictureLayer_covers hlayer _
          have hscreen := T.paintAll_background hcovers
            (T.above (if c = .picPlay then .menue else .bare)) v.scene w.lcd
          simp only [h.painted]
          exact congrArg (fun lcd ↦ { w with lcd := lcd }) hscreen
  | followUp c =>
      have hdraw : drawMain T.toAlbumEnv rands s a =
          loop (buttonsAfter c) (AlbumState.draw T.toAlbumEnv) a := by
        rw [drawMain, hmain]
      by_cases hstill : picArm c = []
      · have hbuttons : buttonsAfter c = [] := by
          rw [buttonsAfter, Gallery.picButtons_of_still hstill, ite_self]
        have hlook : lookMain T.count s rands v = v := by
          rw [lookMain, hmain]
          exact if_pos hstill
        rw [hbuttons] at hdraw
        rw [hlook]
        refine ⟨a, hdraw, h.congr ?_⟩
        simpa [Sys.Shows, ht, LoopPc.next, hstill] using hshows
      · have hscene : v.scene = .album (if c = .picPlay then .menue else .bare) v.indexPic := by
          simpa [hstill] using hshows
        have hlook : lookMain T.count s rands v =
            { v with scene := .album (overlay c) v.indexPic } := by
          rw [lookMain, hmain]
          exact if_neg hstill
        rw [hscene] at hpainted
        rw [hlook]
        refine ⟨_, hdraw.trans (Theme.draw_buttonsAfter hpainted), h.index, h.bounds, ?_, by simp,
          ?_⟩
        · simp [Sys.Shows, ht, LoopPc.next]
        · simp only [h.painted]

/-- A pass of the loop of a media page. -/
theorem shown_procMedia (h : ShownAs T w s a v icons) {m : MediaPage}
    {pc : LoopPc MediaStatus} (hmain : s.main = .procMedia m pc)
    (ht : t.main =
      (pc.next (s.words.uiStatus = m.uiStatus) (s.words.media m)).elim .select (.procMedia m))
    (rands : Rands) :
    ∃ b, drawMain T.toAlbumEnv rands s a = some b ∧
      ShownAs T w t b (lookMain T.count s rands v) (recordIcons s .main icons) := by
  have hshows := h.shows
  have hstill (hne : pc ≠ .entry) (hkept : t.Shows v.indexPic v.scene) :
      ∃ b, drawMain T.toAlbumEnv rands s a = some b ∧
        ShownAs T w t b (lookMain T.count s rands v) (recordIcons s .main icons) := by
    have hlook : lookMain T.count s rands v = v := by
      rw [lookMain, hmain]
      cases pc <;> first | rfl | exact absurd rfl hne
    rw [recordIcons_of_pc hmain hne, hlook]
    refine ⟨a, ?_, h.congr hkept⟩
    rw [drawMain, hmain]
    cases pc <;> first | rfl | exact absurd rfl hne
  simp only [Sys.Shows, hmain] at hshows
  cases pc with
  | entry =>
      have hicons : recordIcons s .main icons m = .pause := by simp [recordIcons, hmain]
      have hdraw : drawMain T.toAlbumEnv rands s a =
          loop m.entryCalls (AlbumState.draw T.toAlbumEnv) a := by
        rw [drawMain, hmain]
      have hlook : lookMain T.count s rands v = { v with scene := .media m [] } := by
        rw [lookMain, hmain]
      have hentered : t.Shows v.indexPic (.media m []) := by simp [Sys.Shows, ht, LoopPc.next]
      have hlast : ∀ m' list, Scene.media m [] = .media m' list →
          lastIcon list = recordIcons s .main icons m' := by
        rintro m' list heq
        cases heq
        exact hicons.symm
      rw [hdraw, hlook]
      have hcalls := Theme.uiCalls_of_media m
      cases m with
      | music => exact h.entered _ _ (.media .music []) hcalls (by decide) rfl hentered hlast
      | video => exact h.entered _ _ (.media .video []) hcalls (by decide) rfl hentered hlast
  | test =>
      refine hstill (by simp) ?_
      by_cases hui : s.words.uiStatus = m.uiStatus
      · simpa [Sys.Shows, ht, LoopPc.next, hui] using hshows
      · simp [Sys.Shows, ht, LoopPc.next, hui]
  | switch => exact hstill (by simp) (by simpa [Sys.Shows, ht, LoopPc.next] using hshows)
  | act c => exact hstill (by simp) (by simpa [Sys.Shows, ht, LoopPc.next] using hshows)
  | followUp c => exact hstill (by simp) (by simpa [Sys.Shows, ht, LoopPc.next] using hshows)

/-- A step of the voice page. -/
theorem shown_procVoice (h : ShownAs T w s a v icons) {pc : VoicePc}
    (hmain : s.main = .procVoice pc) (ht : mainStep s = some t) (rands : Rands) :
    ∃ b, drawMain T.toAlbumEnv rands s a = some b ∧
      ShownAs T w t b (lookMain T.count s rands v) icons := by
  have hshows := h.shows
  simp only [Sys.Shows, hmain] at hshows
  rw [drawMain, lookMain, hmain]
  cases pc with
  | entry =>
      simp only [mainStep, hmain, Option.some.injEq] at ht
      subst ht
      exact h.entered (showVoiceBackground 0 0) ((showBackButton 0 0).map ShowCall.draw)
        (.voice .entered) (by decide) (by decide) rfl (Or.inl rfl) (by simp)
  | test =>
      simp only [mainStep, hmain, Option.some.injEq] at ht
      subst ht
      by_cases hui : s.words.uiStatus = .uiVoice
      · simp only [hui, if_true]
        exact h.entered (showVoiceBackground 0 0) [] (.voice .asking) (by decide) (by decide) rfl
          rfl (by simp)
      · simp only [hui, if_false]
        exact ⟨a, rfl, h.congr trivial⟩
  | exchange => simp [mainStep, hmain] at ht
  | compare command =>
      simp only [mainStep, hmain, Option.some.injEq] at ht
      subst ht
      by_cases htarget : voiceTarget command = none
      · simp only [htarget, if_true, Option.getD_none]
        exact h.entered (showVoiceBackground 0 0) [showRecognitionFailed 200 360]
          (.voice .failed) (by decide) (by decide) rfl (Or.inr (Or.inl rfl)) (by simp)
      · simp only [htarget, if_false]
        exact ⟨a, rfl, h.congr (Or.inr (Or.inr hshows))⟩

theorem shown_main (h : ShownAs T w s a v icons) (ht : mainStep s = some t) (rands : Rands) :
    ∃ b, drawMain T.toAlbumEnv rands s a = some b ∧
      ShownAs T w t b (lookMain T.count s rands v) (recordIcons s .main icons) := by
  have hicons (hother : ∀ m, s.main ≠ .procMedia m .entry) :
      recordIcons s .main icons = icons := recordIcons_main hother
  cases hmain : s.main with
  | select =>
      simp only [mainStep, hmain, Option.some.injEq] at ht
      subst ht
      rw [hicons (by simp [hmain]), drawMain, lookMain, hmain]
      cases hui : s.words.uiStatus with
      | uiMain =>
          exact h.entered (showWelcome 0 0) [] .main (by decide) (by decide) rfl rfl (by simp)
      | uiEnd => exact h.entered (showEnd 0 0) [] .ended (by decide) (by decide) rfl rfl (by simp)
      | uiPic | uiMusic | uiVoice | uiVideo => exact ⟨a, rfl, h.congr trivial⟩
  | procMain =>
      simp only [mainStep, hmain, Option.some.injEq] at ht
      subst ht
      rw [hicons (by simp [hmain]), drawMain, lookMain, hmain]
      refine ⟨a, rfl, h.congr ?_⟩
      split
      · exact h.shows
      · trivial
  | procPic pc =>
      simp only [mainStep, hmain, Option.some.injEq] at ht
      rw [hicons (by simp [hmain])]
      exact shown_procPic h hmain (by rw [← ht]) rands
  | procMedia m pc =>
      simp only [mainStep, hmain, Option.some.injEq] at ht
      exact shown_procMedia h hmain (by rw [← ht, main_setPlayer]) rands
  | procVoice pc =>
      rw [hicons (by simp [hmain])]
      exact shown_procVoice h hmain ht rands
  | ended => simp [mainStep, hmain] at ht

theorem touchCalls_of_media {x y : ℤ} {words : Words} {m : MediaPage}
    (hui : words.uiStatus = m.uiStatus) :
    touchCalls x y words = ((tapIcon m.backX x y (words.media m)).map m.iconCall).toList := by
  cases m <;> simp only [touchCalls, hui, MediaPage.uiStatus] <;> rfl

theorem touchIcons_of_media {x y : ℤ} {words : Words} {m : MediaPage}
    (hui : words.uiStatus = m.uiStatus) (icons : Icons) :
    touchIcons x y words icons =
      Function.update icons m ((tapIcon m.backX x y (words.media m)).getD (icons m)) := by
  cases m <;> simp only [touchIcons, hui, MediaPage.uiStatus] <;> rfl

/-- A touch of a user who waits for the page draws an icon of the page, or nothing. -/
theorem shown_touch (h : ShownAs T w s a v icons) {x y moveX moveY : ℤ}
    (hl : Unhurried s (.touch x y moveX moveY)) (ht : t.main = s.main) :
    ∃ b, loop (touchCalls x y s.words) (AlbumState.draw T.toAlbumEnv) a = some b ∧
      ShownAs T w t b { v with scene := v.scene.tap x y s.words }
        (touchIcons x y s.words icons) := by
  have hshows : t.Shows v.indexPic v.scene := by
    have hs := h.shows
    unfold Sys.Shows at hs ⊢
    rwa [ht]
  by_cases hmedia : ∃ m : MediaPage, s.words.uiStatus = m.uiStatus
  · obtain ⟨m, hui⟩ := hmedia
    obtain ⟨pc, hpc⟩ := (mediaPc_of_onPage hl.1).mpr hui
    have hmain := mediaPc_eq_some.mp hpc
    obtain ⟨list, hscene⟩ : ∃ list, v.scene = .media m list := by
      have hbetween := hl.2
      have hs := h.shows
      rw [Sys.between, hmain] at hbetween
      rw [Sys.Shows, hmain] at hs
      cases pc <;> first | exact hs | cases hbetween
    have htap : v.scene.tap x y s.words =
        .media m (list ++ (tapIcon m.backX x y (s.words.media m)).toList) := by
      rw [hscene]
      exact if_pos hui
    rw [touchCalls_of_media hui, touchIcons_of_media hui, htap]
    have hpainted := h.painted
    rw [hscene] at hpainted
    cases tapIcon m.backX x y (s.words.media m) with
    | none =>
        refine ⟨a, rfl, h.index, h.bounds, ?_, fun m' list' heq ↦ ?_, ?_⟩
        · simpa [hscene] using hshows
        · simpa using h.last m' list' (by simpa [hscene] using heq)
        · simpa using hpainted
    | some icon =>
        have hcalls : [m.iconCall icon] ⊆ uiCalls := by
          simpa using Theme.iconCall_mem m icon
        refine ⟨_, Theme.loop_draw hcalls a, h.index, h.bounds, ?_, ?_, ?_⟩
        · rw [Sys.Shows, ht, hmain]
          cases pc <;> first | trivial | exact ⟨list ++ [icon], rfl⟩
        · intro m' list' heq
          cases heq
          simp [lastIcon]
        · simp [hpainted, Theme.screen, Theme.layers, paintAll_append]
  · have hquiet : touchCalls x y s.words = [] ∧ touchIcons x y s.words icons = icons := by
      unfold touchCalls touchIcons
      cases hui : s.words.uiStatus with
      | uiMusic => exact absurd ⟨.music, hui⟩ hmedia
      | uiVideo => exact absurd ⟨.video, hui⟩ hmedia
      | _ => exact ⟨rfl, rfl⟩
    have htap : v.scene.tap x y s.words = v.scene := by
      cases hscene : v.scene with
      | media m list => exact if_neg fun hui ↦ hmedia ⟨m, hui⟩
      | _ => rfl
    rw [hquiet.1, hquiet.2, htap]
    exact ⟨a, rfl, h.congr hshows⟩

/-- Every step of a user who waits draws what it has to draw, and leaves the scene of the
abstract screen. -/
theorem shown_step (h : ShownAs T w s a v icons) {l : Label × Rands} (hl : Unhurried s l.1)
    (hstep : step s l.1 = some t) :
    ∃ b, draw T.toAlbumEnv s l a = some b ∧
      ShownAs T w t b (look T.count s l v) (recordIcons s l.1 icons) := by
  obtain ⟨l, rands⟩ := l
  have hsame (hmain : t.main = s.main) : ShownAs T w t a v icons := by
    refine h.congr ?_
    have hs := h.shows
    unfold Sys.Shows at hs ⊢
    rwa [hmain]
  cases stepChange_step hstep with
  | touched x y moveX moveY htouch hmain => exact shown_touch h hl rfl
  | resumed => exact ⟨a, rfl, hsame rfl⟩
  | main ht => exact shown_main h ht rands
  | exchanged command hmain =>
      have hcalls : exchangeCalls ⊆ uiCalls := by decide
      have hasking : v.scene = .voice .asking := by simpa [Sys.Shows, hmain] using h.shows
      have hicons : recordIcons s (.exchange command) icons = icons := by simp [recordIcons]
      refine ⟨_, Theme.loop_draw hcalls a, h.index, h.bounds, rfl, by simp [look], ?_⟩
      have hbelow : ∀ layer ∈ [T.layer (showVoiceBackground 0 0),
          T.layer (showStatusVoiceListening 200 360)],
          Layers.Covers (T.layer (showVoiceBackground 0 0)) layer := by
        intro layer hmem
        refine Theme.layer_covers (by decide) (by decide) layer ?_
        simp only [List.mem_cons, List.not_mem_nil, or_false] at hmem
        rcases hmem with rfl | rfl <;> exact Theme.within_layer _
      have hscreen : paintAll (exchangeCalls.map T.layer) (T.screen (.voice .asking) w.lcd) =
          T.screen (.voice .recognizing) w.lcd :=
        paintAll_of_covers hbelow [T.layer (showStatusVoiceRecognizing 200 360)] w.lcd
      simp only [h.painted, hasking, hscreen, look]
  | delivered m i p => exact ⟨a, rfl, hsame (main_setPlayer s p m)⟩
  | exited m i p => exact ⟨a, rfl, hsame (main_setPlayer s p m)⟩

end Step

/-- A page begins with a layer that covers the screen. -/
theorem Theme.exists_background (T : Theme) {scene : Scene} (hscene : scene ≠ .blank) :
    ∃ upper above, T.layers scene = upper :: above ∧
      ∀ layer, Within layer → Layers.Covers upper layer := by
  have hcall : ∀ (c : DrawCall) (above : List DrawCall), c ∈ uiCalls → c ∈ backgroundCalls →
      ∃ upper above', (c :: above).map T.layer = upper :: above' ∧
        ∀ layer, Within layer → Layers.Covers upper layer :=
    fun c above hc hback ↦ ⟨T.layer c, above.map T.layer, rfl, layer_covers hc hback⟩
  cases scene with
  | blank => exact absurd rfl hscene
  | main => exact hcall _ [] (by decide) (by decide)
  | album o i => exact ⟨T.picLayer i, T.above o, rfl, fun layer h ↦ pictureLayer_covers h _⟩
  | media m icons =>
      cases m with
      | music => exact hcall _ _ (by decide) (by decide)
      | video => exact hcall showVideoBac _ (by decide) (by decide)
  | voice v =>
      cases v with
      | entered | asking | recognizing | failed =>
          exact hcall (showVoiceBackground 0 0) _ (by decide) (by decide)
  | ended => exact hcall _ [] (by decide) (by decide)

/-- So nothing of what was on the screen before is seen. -/
theorem Theme.screen_of_onScreen (T : Theme) {scene : Scene} (hscene : scene ≠ .blank) {k : ℤ}
    (hk : OnScreen k) (lcd lcd' : Framebuffer) : T.screen scene lcd k = T.screen scene lcd' k := by
  obtain ⟨upper, above, hlayers, hcovers⟩ := T.exists_background hscene
  have hwithin : Within fun j ↦ if OnScreen j then some 0 else none := by
    intro j hj
    by_contra hoff
    simp [hoff] at hj
  have hsome : (upper k).isSome := hcovers _ hwithin k (by simp [hk])
  obtain ⟨color, hcolor⟩ := Option.isSome_iff_exists.mp hsome
  rw [screen, screen, hlayers, paintAll_cons, paintAll_cons]
  exact paintAll_congr above (by simp [paint, hcolor])

/-- The sizes of the bitmaps in `arm-project/material`. -/
inductive MaterialSize
  | screen
  | menue
  | status
  | button
  deriving DecidableEq, Repr

/-- There is no `../material/back_white.bmp`. -/
def PicPath.size : PicPath → Option MaterialSize
  | .picture _ => some .screen
  | .welcome | .endPicture | .videoBacground | .voiceRecognition => some .screen
  | .material .musicBackground => some .screen
  | .picChoice => some .menue
  | .listenning | .recognizing | .recognitionFailed => some .status
  | .material .backWhite => none
  | _ => some .button

def MaterialSize.width : MaterialSize → ℤ
  | .screen => 800
  | .menue => 800
  | .status => 400
  | .button => 60

def MaterialSize.height : MaterialSize → ℤ
  | .screen => 480
  | .menue => 150
  | .status => 105
  | .button => 60

def rampStatus : PicFile 400 105 :=
  rampFile 400 105 126000 0 (by decide) (by decide) (by decide) (by decide) (by decide)

def MaterialSize.pic : (k : MaterialSize) → PicFile k.width k.height
  | .screen => rampPicture 0
  | .menue => rampMenue
  | .status => rampStatus
  | .button => rampButton

def themeEnv : AlbumEnv where
  bmpFiles := rampEnv.bmpFiles
  disk path := path.size.map fun k ↦ k.pic.file
  stack := []

theorem hasRoom_of_mem :
    ∀ c ∈ uiCalls, ∀ k ∈ c.bmpPath.size, HasRoom c k.width k.height := by
  decide

theorem background_of_mem :
    ∀ c ∈ backgroundCalls, c.bmpPath.size = some .screen ∧ c.showway = showWaysCoverShading := by
  decide

def placed (c : DrawCall) (hc : c ∈ uiCalls) {k : MaterialSize} (hk : c.bmpPath.size = some k) :
    ButtonFile themeEnv c :=
  .ofRoom k.pic (congrArg (Option.map fun j : MaterialSize ↦ j.pic.file) hk)
    (hasRoom_of_mem c hc k hk)

theorem isSome_size {c : DrawCall} (h : (themeEnv.disk c.bmpPath).isSome) :
    c.bmpPath.size.isSome := by
  simpa [themeEnv] using h

def rampTheme : Theme where
  toAlbumEnv := themeEnv
  nonempty := by decide
  short := by decide
  picture _ := rampPicture 0
  onDisk _ _ := rfl
  back := .ofRoom rampButton rfl hasRoom_back
  choice := .ofRoom rampMenue rfl hasRoom_choice
  button c hc hdisk := placed c hc (Option.some_get (isSome_size hdisk)).symm
  fills c hc hback := by
    obtain ⟨hsize, hshowway⟩ := background_of_mem c hback
    have hdisk : (themeEnv.disk c.bmpPath).isSome := by simp [themeEnv, hsize]
    have hscreen : c.bmpPath.size.get (isSome_size hdisk) = .screen := by simp [hsize]
    exact ⟨hdisk, congrArg MaterialSize.width hscreen, congrArg MaterialSize.height hscreen,
      hshowway⟩

/-- Onto the music page, and a tap on its middle button. -/
def startMusicDrawn : List (Label × Rands) := startMusic.map fun l ↦ (l, 0, 0)

end EmbeddedSystem.Ui
