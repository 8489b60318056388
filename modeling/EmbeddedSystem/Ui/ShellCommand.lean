import EmbeddedSystem.Foundation.Shell
import EmbeddedSystem.Ui.Folder

/-!
# A file name in a player's command

The players put the path in the command as it is, without quotes.  What the shell then
runs is the player on that path only for names without the bytes that the shell reads
as something else; a name that is a pattern may be replaced by other names of the folder.
-/

namespace EmbeddedSystem.Ui

open Shell

def MediaPage.playerName : MediaPage → Bytes
  | .music => madplayName
  | .video => mplayerName

/-- The words of the command, when the shell reads one command in the background. -/
def MediaPage.shellWords (m : MediaPage) (path : Bytes) : Option (List Bytes) :=
  ((FilePage.media m).use path).bind fun command ↦ (lex command).bind background

/-- The command up to the name: the player, the blank or blanks, and the folder. -/
def MediaPage.beforeName : MediaPage → Bytes
  | .music => madplayName ++ [32] ++ (FilePage.media .music).folder ++ [47]
  | .video => mplayerName ++ [32, 32] ++ (FilePage.media .video).folder ++ [47]

theorem run_beforeName (m : MediaPage) :
    run (.plain .blank) m.beforeName = some ([m.playerName].map .word,
      .plain (.word ⟨(FilePage.media m).folder ++ [47], .absent⟩)) := by
  cases m <;> decide

theorem use_eq {m : MediaPage} {name command : Bytes}
    (h : (FilePage.media m).use ((FilePage.media m).folder ++ [47] ++ name) = some command) :
    command = m.beforeName ++ name ++ ampersand := by
  cases m with
  | music =>
      obtain ⟨-, rfl⟩ := store_eq_some_iff.mp h
      simp [MediaPage.beforeName, ampersand]
  | video =>
      obtain ⟨-, rfl⟩ := store_eq_some_iff.mp h
      simp [MediaPage.beforeName, ampersand]

/-- The shell runs the player on the named file, in the background, exactly when the name
has no backslash, quotation mark, `$`, backquote, `*`, `?`, blank, newline or byte of an
operator, and no bracket expression. -/
theorem name_survives_shell_iff (m : MediaPage) (entry : Entry) {path : Bytes}
    (hpath : combineFilepatn (FilePage.media m).folder entry.name = some path) :
    m.shellWords path = some [m.playerName, path] ↔
      (∀ b ∈ entry.name, isSpecial b = false) ∧ ¬ HasBracket entry.name := by
  obtain ⟨command, hcommand⟩ := Option.isSome_iff_exists.mp (isSome_use hpath)
  obtain ⟨-, rfl⟩ := combineFilepatn_eq_some_iff.mp hpath
  rw [MediaPage.shellWords, hcommand, Option.bind_some, use_eq hcommand]
  exact background_lex_iff (run_beforeName m)

/-- `a.mp3` -/
def plainName : Entry :=
  ⟨[97, 46, 109, 112, 51], by decide, by decide, by decide, by decide⟩

theorem plain_name_survives_shell :
    MediaPage.music.shellWords [46, 46, 47, 109, 112, 51, 47, 97, 46, 109, 112, 51] =
      some [madplayName, [46, 46, 47, 109, 112, 51, 47, 97, 46, 109, 112, 51]] :=
  (name_survives_shell_iff .music plainName (by decide)).mpr
    ⟨by decide +kernel, fun h ↦ absurd ((read_absent_iff _).mpr h) (by decide)⟩

/-- In `a[b.mp3` the bracket stays a byte, `a[b].mp3` is a pattern. -/
example :
    MediaPage.music.shellWords [46, 46, 47, 109, 112, 51, 47, 97, 91, 98, 46, 109, 112, 51] =
      some [madplayName, [46, 46, 47, 109, 112, 51, 47, 97, 91, 98, 46, 109, 112, 51]] ∧
    MediaPage.music.shellWords [46, 46, 47, 109, 112, 51, 47, 97, 91, 98, 93, 46, 109, 112, 51] =
      none := by decide +kernel

/-- `a b.mp3` -/
def spacedName : Entry :=
  ⟨[97, 32, 98, 46, 109, 112, 51], by decide, by decide, by decide, by decide⟩

theorem spaced_name_splits : ∃ path,
    combineFilepatn (FilePage.media .music).folder spacedName.name = some path ∧
      MediaPage.music.shellWords path =
        some [madplayName, [46, 46, 47, 109, 112, 51, 47, 97], [98, 46, 109, 112, 51]] ∧
      MediaPage.music.shellWords path ≠ some [madplayName, path] :=
  ⟨_, rfl, by decide, by decide⟩

end EmbeddedSystem.Ui
