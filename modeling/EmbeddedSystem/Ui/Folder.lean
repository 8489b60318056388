import EmbeddedSystem.Ui.Dirent

/-!
# From a folder to a command

`getDir` lists a folder in an array of 99 names, `combineFilepatn` makes a path of a name
in an array of 199 bytes, and the players make a command of the path in one of 1024.
None of these arrays is checked; what would be written past its end is `none` here.  The
name is what is found through the address in the list when the path is made, so that the
name of any other file may get there.
-/

namespace EmbeddedSystem.Ui

variable {α : Type}

/-- A text in a `char` array, with its NUL. -/
def store (capacity : ℕ) (text : Bytes) : Option Bytes :=
  if text.length < capacity then some text else none

def combineFilepatn (filepath filename : Bytes) : Option Bytes :=
  store 199 (filepath ++ [47] ++ filename)

/-- `madplay` -/
def madplayName : Bytes := [109, 97, 100, 112, 108, 97, 121]

/-- `mplayer` -/
def mplayerName : Bytes := [109, 112, 108, 97, 121, 101, 114]

/-- `sprintf(tmp, "madplay %s &", mp3_path)` -/
def playMp3 (mp3Path : Bytes) : Option Bytes :=
  store 1024 (madplayName ++ [32] ++ mp3Path ++ [32, 38])

/-- `sprintf(tmp, "mplayer  %s &", video_path)` -/
def playVideo (videoPath : Bytes) : Option Bytes :=
  store 1024 (mplayerName ++ [32, 32] ++ videoPath ++ [32, 38])

/-! ## The pages -/

inductive FilePage
  | pic
  | media (m : MediaPage)
  deriving DecidableEq, Repr

def FilePage.filetype : FilePage → FileType
  | .pic => .bmp
  | .media .music => .mp3
  | .media .video => .mp4

/-- `../pic`, `../mp3` and `../video` -/
def FilePage.folder : FilePage → Bytes
  | .pic => [46, 46, 47, 112, 105, 99]
  | .media .music => [46, 46, 47, 109, 112, 51]
  | .media .video => [46, 46, 47, 118, 105, 100, 101, 111]

/-- What the page does with a path; the album opens it. -/
def FilePage.use : FilePage → Bytes → Option Bytes
  | .pic => some
  | .media .music => playMp3
  | .media .video => playVideo

def FilePage.build (p : FilePage) (storage : α → Bytes) (fileNames : List α) (index : ℕ) :
    Option Bytes := do
  let dName ← fileNames[index]?
  let path ← combineFilepatn p.folder (storage dName)
  p.use path

/-- The names that a page may read: any of the list, and the first even of an empty one,
which the album does on entry and the other pages on a start. -/
def Reads (fileNames : List α) (index : ℕ) : Prop := index < fileNames.length ∨ index = 0

/-- Everything the page may write in a visit is within its arrays. -/
def FilePage.Fits (p : FilePage) (dir : DirStream α) : Prop :=
  ∃ fileNames, getDirNames p.filetype dir = some fileNames ∧
    ∀ index, Reads fileNames index → (p.build dir.rest fileNames index).isSome

/-! ## The path and the command -/

def FilePage.longest (p : FilePage) : ℕ := 197 - p.folder.length

theorem store_eq_some_iff {capacity : ℕ} {text stored : Bytes} :
    store capacity text = some stored ↔ text.length < capacity ∧ text = stored :=
  Option.ite_none_right_eq_some.trans (and_congr_right fun _ ↦ Option.some_inj)

theorem combineFilepatn_eq_some_iff {p : FilePage} {name path : Bytes} :
    combineFilepatn p.folder name = some path ↔
      name.length ≤ p.longest ∧ p.folder ++ [47] ++ name = path := by
  have hlength : (p.folder ++ [47] ++ name).length < 199 ↔ name.length ≤ p.longest := by
    rw [List.length_append, List.length_append, FilePage.longest]
    obtain _ | _ | _ := p <;> simp only [FilePage.folder, List.length_cons, List.length_nil] <;>
      omega
  rw [combineFilepatn, store_eq_some_iff, hlength]

theorem isSome_store_command {player gap path : Bytes} (hplayer : player.length + gap.length ≤ 9)
    (hpath : path.length < 199) : (store 1024 (player ++ gap ++ path ++ [32, 38])).isSome := by
  refine Option.isSome_iff_exists.mpr ⟨_, store_eq_some_iff.mpr ⟨?_, rfl⟩⟩
  simp only [List.length_append, List.length_cons, List.length_nil]
  omega

/-- A command always fits when its path does. -/
theorem isSome_use {p : FilePage} {name path : Bytes}
    (h : combineFilepatn p.folder name = some path) : (p.use path).isSome := by
  obtain ⟨hlt, rfl⟩ := store_eq_some_iff.mp h
  obtain _ | _ | _ := p
  · rfl
  · exact isSome_store_command (by decide) hlt
  · exact isSome_store_command (by decide) hlt

theorem isSome_build_iff {p : FilePage} {storage : α → Bytes} {fileNames : List α} {index : ℕ} :
    (p.build storage fileNames index).isSome ↔
      ∃ dName ∈ fileNames[index]?, (storage dName).length ≤ p.longest := by
  constructor
  · intro h
    obtain ⟨command, hcommand⟩ := Option.isSome_iff_exists.mp h
    obtain ⟨dName, hname, hrest⟩ := Option.bind_eq_some_iff.mp hcommand
    obtain ⟨path, hpath, -⟩ := Option.bind_eq_some_iff.mp hrest
    exact ⟨dName, hname, (combineFilepatn_eq_some_iff.mp hpath).1⟩
  · rintro ⟨dName, hname, hlength⟩
    have hpath : combineFilepatn p.folder (storage dName) =
        some (p.folder ++ [47] ++ storage dName) :=
      combineFilepatn_eq_some_iff.mpr ⟨hlength, rfl⟩
    obtain ⟨command, hcommand⟩ := Option.isSome_iff_exists.mp (isSome_use hpath)
    refine Option.isSome_iff_exists.mpr ⟨command, ?_⟩
    exact Option.bind_eq_some_iff.mpr ⟨dName, hname,
      Option.bind_eq_some_iff.mpr ⟨_, hpath, hcommand⟩⟩

/-- A visit to a folder remains within the arrays exactly when the folder has at least
one and no more than 99 files of the page's type, and what is in the storage of their names
after the last call of `readdir` makes no path too long: 191 bytes, or 189 for the
videos. -/
theorem folder_fits_iff (p : FilePage) (dir : DirStream α) :
    p.Fits dir ↔ dir.listed p.filetype ≠ [] ∧ (dir.listed p.filetype).length ≤ 99 ∧
      ∀ dName ∈ dir.listed p.filetype, (dir.rest dName).length ≤ p.longest := by
  constructor
  · rintro ⟨fileNames, hnames, hbuild⟩
    obtain ⟨hcount, rfl⟩ := getDirNames_eq_some_iff.mp hnames
    refine ⟨fun hnil ↦ ?_, hcount, fun dName hname ↦ ?_⟩
    · obtain ⟨dName, hname, -⟩ := isSome_build_iff.mp (hbuild 0 (Or.inr rfl))
      rw [hnil] at hname
      cases hname
    · obtain ⟨index, hlt, hget⟩ := List.mem_iff_getElem.mp hname
      obtain ⟨dName', hname', hlength⟩ := isSome_build_iff.mp (hbuild index (Or.inl hlt))
      rw [List.getElem?_eq_getElem hlt, hget] at hname'
      cases hname'
      exact hlength
  · rintro ⟨hfirst, hcount, hshort⟩
    refine ⟨dir.listed p.filetype, getDirNames_eq_some_iff.mpr ⟨hcount, rfl⟩,
      fun index hreads ↦ ?_⟩
    have hlt : index < (dir.listed p.filetype).length := by
      obtain hlt | rfl := hreads
      · exact hlt
      · exact List.length_pos_iff.mpr hfirst
    exact isSome_build_iff.mpr
      ⟨_, List.getElem?_eq_getElem hlt, hshort _ (List.getElem_mem hlt)⟩

/-- A picture whose name is 251 times `a` and then `.bmp`. -/
def longName : Entry :=
  ⟨List.replicate 251 97 ++ [46, 98, 109, 112], by decide +kernel, by decide +kernel,
    by decide +kernel, by decide +kernel⟩

/-- An entry in a stream with storage for one name. -/
def inOnePlace (entry : Entry) : Readdir Unit := ⟨entry, (), fun _ ↦ entry.name, rfl⟩

def longPicture : DirStream Unit where
  reads := [inOnePlace longName]
  rest := fun _ ↦ longName.name

/-- A text whose name is 255 times `a`. -/
def longText : Entry :=
  ⟨List.replicate 255 97, by decide +kernel, by decide +kernel, by decide +kernel,
    by decide +kernel⟩

/-- The text comes in the storage of the picture `a.bmp`. -/
def shortPicture : DirStream Unit where
  reads := [inOnePlace aBmp, inOnePlace longText]
  rest := fun _ ↦ longText.name

theorem not_fits_of_first {p : FilePage} {dir : DirStream α} {dName : α} {dNames : List α}
    (hnames : getDirNames p.filetype dir = some (dName :: dNames))
    (hbuild : p.build dir.rest (dName :: dNames) 0 = none) : ¬ p.Fits dir := by
  rintro ⟨fileNames, hfiles, hall⟩
  obtain rfl := Option.some.inj (hfiles.symm.trans hnames)
  have hsome := hall 0 (Or.inr rfl)
  rw [hbuild] at hsome
  cases hsome

theorem long_name_does_not_fit :
    ¬ FilePage.Fits .pic longPicture ∧ ¬ FilePage.Fits .pic shortPicture :=
  ⟨not_fits_of_first (show getDirNames .bmp longPicture = some [()] by decide +kernel)
      (by decide +kernel),
    not_fits_of_first (show getDirNames .bmp shortPicture = some [()] by decide +kernel)
      (by decide +kernel)⟩

/-- The hundredth picture has no slot. -/
example : getDirNames .bmp ⟨List.replicate 100 (inOnePlace aBmp), fun _ ↦ aBmp.name⟩ = none := by
  decide +kernel

end EmbeddedSystem.Ui
