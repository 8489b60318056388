import EmbeddedSystem.Picture.ShowThePic
import EmbeddedSystem.Ui.Touch

/-!
# The switch arms of the pages

What `proc_pic`, `proc_music` and `proc_video` execute for each value of their
status word, and the value they then write to it.  The three functions differ in
the file list, the index and the player that their statements are about.
-/

namespace EmbeddedSystem.Ui

open Picture

inductive Stmt
  /-- `index = index == count - 1 ? 0 : index + 1` -/
  | nextIndex
  /-- `index = index == 0 ? count - 1 : index - 1` -/
  | prevIndex
  /-- `index = rand() % count` -/
  | randIndex
  /-- `combineFilepatn(path, files[index], shown)` -/
  | combineFilepatn
  | showThePic (animation : ℤ)
  /-- `showThePic` with `animation[rand() % 3]` -/
  | showRandom
  | playFile
  | stopPlayer
  | pausePlayer
  | contiPlayer
  deriving DecidableEq, Repr

def picArm : PicStatus → List Stmt
  | .picNull => []
  | .picPlay => [.combineFilepatn, .showThePic animationModeWindowshades]
  | .picMenue => []
  | .picPlaySequential => [.nextIndex, .combineFilepatn, .showRandom]
  | .picPlayShuffle => [.randIndex, .combineFilepatn, .showRandom]
  | .picNextWindowshade =>
    [.nextIndex, .combineFilepatn, .showThePic animationModeWindowshades]
  | .picNextFlyleft => [.nextIndex, .combineFilepatn, .showThePic animationModeFlyleft]
  | .picNextFtydown => [.nextIndex, .combineFilepatn, .showThePic animationModeFlydown]
  | .picPrevWindowshade =>
    [.prevIndex, .combineFilepatn, .showThePic animationModeWindowshades]
  | .picPrevFlyright => [.prevIndex, .combineFilepatn, .showThePic animationModeFlyright]
  | .picPrevFlyup => [.prevIndex, .combineFilepatn, .showThePic animationModeFlyup]

def picFollowUp : PicStatus → Option PicStatus
  | .picNull => none
  | .picPlay => some .picMenue
  | .picMenue => none
  | .picPlaySequential => none
  | .picPlayShuffle => none
  | .picNextWindowshade => some .picNull
  | .picNextFlyleft => some .picNull
  | .picNextFtydown => some .picNull
  | .picPrevWindowshade => some .picNull
  | .picPrevFlyright => some .picNull
  | .picPrevFlyup => some .picNull

/-- The arms of `proc_music`, and word for word those of `proc_video`. -/
def mediaArm : MediaStatus → List Stmt
  | .null => []
  | .pause => []
  | .play => []
  | .start => [.combineFilepatn, .playFile]
  | .next => [.stopPlayer, .nextIndex, .combineFilepatn, .playFile]
  | .prev => [.stopPlayer, .prevIndex, .combineFilepatn, .playFile]
  | .stop => [.stopPlayer]
  | .hold => [.pausePlayer]
  | .conti => [.contiPlayer]

def mediaFollowUp : MediaStatus → Option MediaStatus
  | .null => none
  | .pause => none
  | .play => none
  | .start => some .play
  | .next => some .play
  | .prev => some .play
  | .stop => some .null
  | .hold => some .pause
  | .conti => some .play

def musicArm : MediaStatus → List Stmt := mediaArm

def videoArm : MediaStatus → List Stmt := mediaArm

def musicFollowUp : MediaStatus → Option MediaStatus := mediaFollowUp

def videoFollowUp : MediaStatus → Option MediaStatus := mediaFollowUp

end EmbeddedSystem.Ui
