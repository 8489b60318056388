import EmbeddedSystem.Foundation.Collect
import EmbeddedSystem.Ui.System
import Mathlib.Data.List.Infix

/-!
# Names kept by their address

`getDir` stores the address of each name and not its text.  The name is in storage of the
directory stream, which the loop goes on reading, so what a page later finds through the
address is what the last call of `readdir` left there.
-/

namespace EmbeddedSystem.Ui

open CountedLoop Collect

/-- The name of a directory entry. -/
structure Entry where
  name : Bytes
  nonempty : name ≠ []
  short : name.length ≤ 255
  noNul : 0 ∉ name
  noSlash : 47 ∉ name
  deriving Repr

inductive FileType
  | bmp
  | mp3
  | mp4
  deriving DecidableEq, Repr

/-- `NULL != strstr(name, pattern)` -/
def strstr (name pattern : Bytes) : Prop := pattern <:+: name

instance (name pattern : Bytes) : Decidable (strstr name pattern) :=
  inferInstanceAs (Decidable (pattern <:+: name))

/-- The name contains `.bmp`, `.mp3`, or one of `.mp4` and `.avi`. -/
def FileType.accepts (name : Bytes) : FileType → Bool
  | .bmp => strstr name [46, 98, 109, 112]
  | .mp3 => strstr name [46, 109, 112, 51]
  | .mp4 => strstr name [46, 109, 112, 52] || strstr name [46, 97, 118, 105]

variable {α : Type}

/-- A call of `readdir` that returns an entry: the address of its `d_name`, and the texts
at all addresses of the stream's storage after the call. -/
structure Readdir (α : Type) where
  entry : Entry
  dName : α
  storage : α → Bytes
  holds : storage dName = entry.name

/-- The calls up to the one that returns `NULL`, which leaves `rest` in the storage. -/
structure DirStream (α : Type) where
  reads : List (Readdir α)
  rest : α → Bytes

/-- The name ends in the extension; what a type is for. -/
def FileType.ends (name : Bytes) : FileType → Bool
  | .bmp => [46, 98, 109, 112].isSuffixOf name
  | .mp3 => [46, 109, 112, 51].isSuffixOf name
  | .mp4 => [46, 109, 112, 52].isSuffixOf name || [46, 97, 118, 105].isSuffixOf name

/-- `getDir`, which writes `*(fileNames + index_1) = _dirent->d_name` for each name of the
type. -/
def getDirNames (filetype : FileType) (dir : DirStream α) : Option (List α) :=
  loop dir.reads
    (fun dirent fileNames ↦
      if filetype.accepts (dirent.storage dirent.dName) then
        if fileNames.length < 99 then some (fileNames ++ [dirent.dName]) else none
      else some fileNames) []

def DirStream.names (dir : DirStream α) : List Bytes := dir.reads.map fun r ↦ r.entry.name

/-- No address of a listed name has been reused. -/
def DirStream.Keeps (dir : DirStream α) (filetype : FileType) : Prop :=
  ∀ r ∈ dir.reads, filetype.accepts r.entry.name → dir.rest r.dName = r.entry.name

theorem accepts_of_ends {filetype : FileType} {name : Bytes} (h : filetype.ends name) :
    filetype.accepts name := by
  have hoccurs {pattern : Bytes} (hsuffix : pattern.isSuffixOf name) : strstr name pattern :=
    (List.isSuffixOf_iff_suffix.mp hsuffix).isInfix
  cases filetype with
  | bmp => exact decide_eq_true (hoccurs h)
  | mp3 => exact decide_eq_true (hoccurs h)
  | mp4 =>
      rw [FileType.accepts, Bool.or_eq_true, decide_eq_true_eq, decide_eq_true_eq]
      exact ((Bool.or_eq_true _ _).mp h).imp hoccurs hoccurs

theorem getDirNames_eq_loop (filetype : FileType) (dir : DirStream α) :
    getDirNames filetype dir =
      loop dir.reads (push (fun r ↦ filetype.accepts r.entry.name) Readdir.dName 99) [] :=
  loop_congr (fun r _ fileNames ↦ by rw [r.holds, push]) []

/-- The addresses of the names of the type. -/
def DirStream.listed (dir : DirStream α) (filetype : FileType) : List α :=
  (dir.reads.filter fun r ↦ filetype.accepts r.entry.name).map Readdir.dName

theorem getDirNames_eq_some_iff {filetype : FileType} {dir : DirStream α} {fileNames : List α} :
    getDirNames filetype dir = some fileNames ↔
      (dir.listed filetype).length ≤ 99 ∧ dir.listed filetype = fileNames := by
  rw [getDirNames_eq_loop]
  exact collected_eq_some_iff

/-! ## What is read later -/

def DirStream.wanted (dir : DirStream α) (filetype : FileType) : List Bytes :=
  dir.names.filter fun name ↦ filetype.ends name

/-- The slots that `getDir` fills read as the names with the extension. -/
def DirStream.ReadsWanted (dir : DirStream α) (filetype : FileType) : Prop :=
  ∃ fileNames, getDirNames filetype dir = some fileNames ∧
    fileNames.map dir.rest = dir.wanted filetype

/-- For a folder with at most 99 files of the type, the slots read as their names exactly
when the extension ends each name it occurs in, and the storage of each such name still
holds it after the last call. -/
theorem readsWanted_iff (filetype : FileType) (dir : DirStream α)
    (h : (dir.wanted filetype).length ≤ 99) :
    dir.ReadsWanted filetype ↔
      (∀ r ∈ dir.reads, filetype.accepts r.entry.name → filetype.ends r.entry.name) ∧
        dir.Keeps filetype := by
  have hwanted : dir.wanted filetype =
      (dir.reads.filter fun r ↦ filetype.ends r.entry.name).map fun r ↦ r.entry.name :=
    List.filter_map
  have himp : ∀ r ∈ dir.reads, filetype.ends r.entry.name → filetype.accepts r.entry.name :=
    fun _ _ ↦ accepts_of_ends
  rw [DirStream.Keeps, ← map_filter_eq_iff himp, ← hwanted]
  constructor
  · rintro ⟨fileNames, hnames, hread⟩
    obtain ⟨-, rfl⟩ := getDirNames_eq_some_iff.mp hnames
    rw [← hread, DirStream.listed, List.map_map]
    rfl
  · intro hread
    refine ⟨dir.listed filetype, getDirNames_eq_some_iff.mpr ⟨?_, rfl⟩, ?_⟩
    · rw [← hread, List.length_map] at h
      rwa [DirStream.listed, List.length_map]
    · rw [← hread, DirStream.listed, List.map_map]
      rfl

/-- `a.bmp` -/
def aBmp : Entry := ⟨[97, 46, 98, 109, 112], by decide, by decide, by decide, by decide⟩

/-- `b.bmp` -/
def bBmp : Entry := ⟨[98, 46, 98, 109, 112], by decide, by decide, by decide, by decide⟩

/-- `a.bmp.txt` -/
def aBmpTxt : Entry :=
  ⟨[97, 46, 98, 109, 112, 46, 116, 120, 116], by decide, by decide, by decide, by decide⟩

def keptNames : DirStream Bool where
  reads := [⟨aBmp, false, fun _ ↦ aBmp.name, rfl⟩,
    ⟨bBmp, true, fun second ↦ if second then bBmp.name else aBmp.name, rfl⟩]
  rest := fun second ↦ if second then bBmp.name else aBmp.name

theorem keptNames_read : keptNames.ReadsWanted .bmp :=
  (readsWanted_iff .bmp keptNames (by decide +kernel)).mpr
    ⟨by decide +kernel, by unfold DirStream.Keeps; decide +kernel⟩

/-- The second name comes in the storage of the first. -/
def reusedName : DirStream Unit where
  reads := [⟨aBmp, (), fun _ ↦ aBmp.name, rfl⟩, ⟨bBmp, (), fun _ ↦ bBmp.name, rfl⟩]
  rest := fun _ ↦ bBmp.name

def backupName : DirStream Unit where
  reads := [⟨aBmpTxt, (), fun _ ↦ aBmpTxt.name, rfl⟩]
  rest := fun _ ↦ aBmpTxt.name

/-- One picture is read twice and another never; a text is read as a picture. -/
theorem names_not_read :
    ((reusedName.wanted .bmp).length ≤ 99 ∧ ¬ reusedName.ReadsWanted .bmp) ∧
      (backupName.wanted .bmp).length ≤ 99 ∧ ¬ backupName.ReadsWanted .bmp := by
  refine ⟨⟨by decide +kernel, ?_⟩, by decide +kernel, ?_⟩
  · rintro ⟨fileNames, hnames, hread⟩
    have hslots : getDirNames .bmp reusedName = some [(), ()] := by decide +kernel
    obtain rfl : fileNames = [(), ()] := Option.some.inj (hnames.symm.trans hslots)
    exact absurd hread (by decide +kernel)
  · rintro ⟨fileNames, hnames, hread⟩
    have hslots : getDirNames .bmp backupName = some [()] := by decide +kernel
    obtain rfl : fileNames = [()] := Option.some.inj (hnames.symm.trans hslots)
    exact absurd hread (by decide +kernel)

end EmbeddedSystem.Ui
