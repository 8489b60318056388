import EmbeddedSystem.Foundation.Runs
import EmbeddedSystem.Picture.ShowThePic

/-!
# What the pages hold

Each page entry lists a folder with `getDir`, which does not close the directory, and the
pages draw with `showThePic`, which has five exits.
-/

namespace EmbeddedSystem.Ui

open Runs Picture

/-- The open directory streams, and what `showThePic` acquires. -/
structure Holdings where
  dirs : ℕ
  world : World

/-- `opendir` succeeds or fails; and a call of `showThePic` gets this from outside. -/
inductive Use
  | getDir (opened : Bool)
  | showThePic (calls : PicCalls) (x y animation showway : ℤ) (backgroundcolor : UInt32)

def use (s : Holdings) : Use → Option Holdings
  | .getDir opened => some { s with dirs := if opened then s.dirs + 1 else s.dirs }
  | .showThePic calls x y animation showway backgroundcolor =>
    (showThePic calls x y animation showway backgroundcolor s.world).map fun r ↦
      { s with world := r.2 }

/-- The directory streams, descriptors of pictures and of `/dev/fb0`, pixel buffers and
mappings. -/
def Holdings.counts (s : Holdings) : List ℕ :=
  [s.dirs, s.world.bmpFds, s.world.lcdFds, s.world.buffers, s.world.mappings]

/-- The use leaves as much held as there was before. -/
def Balanced (s : Holdings) (u : Use) : Prop := ∀ t ∈ use s u, t.counts = s.counts

def Use.keepsDir : Use → Bool
  | .getDir opened => opened
  | .showThePic .. => false

/-- The picture opens and `/dev/fb0` does not. -/
def Use.keepsBmp : Use → Bool
  | .getDir _ => false
  | .showThePic calls .. => calls.bmp.isSome && !calls.lcd

/-- Both open and the `read` fails. -/
def Use.keepsLcd : Use → Bool
  | .getDir _ => false
  | .showThePic calls .. => calls.bmp.isSome && calls.lcd && !calls.read

def Use.Releases (u : Use) : Prop := ¬ u.keepsDir ∧ ¬ u.keepsBmp ∧ ¬ u.keepsLcd

theorem counts_use {s t : Holdings} {u : Use} (h : use s u = some t) :
    t.counts = [s.dirs + if u.keepsDir then 1 else 0,
      s.world.bmpFds + if u.keepsBmp then 1 else 0, s.world.lcdFds + if u.keepsLcd then 1 else 0,
      s.world.buffers + if u.keepsLcd then 1 else 0, s.world.mappings] := by
  cases u with
  | getDir opened =>
      cases h
      cases opened <;> rfl
  | showThePic calls x y animation showway backgroundcolor =>
      obtain ⟨⟨ret, w⟩, hw, rfl⟩ := Option.map_eq_some_iff.mp h
      unfold showThePic at hw
      cases hbmp : calls.bmp with
      | none =>
          simp only [hbmp, Option.some.injEq, Prod.mk.injEq] at hw
          simp [Holdings.counts, ← hw.2, Use.keepsDir, Use.keepsBmp, Use.keepsLcd, hbmp]
      | some file =>
          cases hlcd : calls.lcd with
          | false =>
              simp only [hbmp, hlcd, if_true, Option.some.injEq, Prod.mk.injEq] at hw
              simp [Holdings.counts, ← hw.2, Use.keepsDir, Use.keepsBmp, Use.keepsLcd, hbmp, hlcd]
          | true =>
              cases hread : calls.read with
              | false =>
                  simp only [hbmp, hlcd, hread, if_true, Bool.true_eq_false, if_false,
                    Option.some.injEq, Prod.mk.injEq] at hw
                  simp [Holdings.counts, ← hw.2, Use.keepsDir, Use.keepsBmp, Use.keepsLcd, hbmp,
                    hlcd, hread]
              | true =>
                  simp only [hbmp, hlcd, hread, Bool.true_eq_false, if_false,
                    Option.map_eq_some_iff, Prod.mk.injEq] at hw
                  obtain ⟨lcd, -, -, rfl⟩ := hw
                  simp [Holdings.counts, Use.keepsDir, Use.keepsBmp, Use.keepsLcd, hbmp, hlcd,
                    hread]

/-- Only a drawing that begins can leave the screen or the buffer. -/
theorem releases_of_stuck {s : Holdings} {u : Use} (h : use s u = none) : u.Releases := by
  cases u with
  | getDir opened => cases h
  | showThePic calls x y animation showway backgroundcolor =>
      have hstuck := Option.map_eq_none_iff.mp h
      unfold showThePic at hstuck
      cases hbmp : calls.bmp with
      | none => simp [hbmp] at hstuck
      | some file =>
          cases hlcd : calls.lcd with
          | false => simp [hbmp, hlcd] at hstuck
          | true =>
              cases hread : calls.read with
              | false => simp [hbmp, hlcd, hread] at hstuck
              | true => simp [Use.Releases, Use.keepsDir, Use.keepsBmp, Use.keepsLcd, hlcd, hread]

theorem balanced_iff (s : Holdings) (u : Use) : Balanced s u ↔ u.Releases := by
  cases h : use s u with
  | none => exact iff_of_true (by simp [Balanced, h]) (releases_of_stuck h)
  | some t =>
      have hcounts := counts_use h
      have hall : (∀ r ∈ use s u, r.counts = s.counts) ↔ t.counts = s.counts := by simp [h]
      rw [Balanced, hall, hcounts]
      simp only [Holdings.counts, Use.Releases, List.cons.injEq, Nat.add_eq_left, and_true]
      cases u.keepsDir <;> cases u.keepsBmp <;> cases u.keepsLcd <;> decide

/-- Over any run of uses, each leaves what was held before exactly when each directory
fails to open, and each picture fails to open or is read and shown. -/
theorem uses_balanced_iff (s : Holdings) (us : List Use) :
    Meets use Balanced s us ↔ Meets use (fun _ u ↦ u.Releases) s us := by
  have hguard : Balanced = fun _ u ↦ u.Releases :=
    funext fun s ↦ funext fun u ↦ propext (balanced_iff s u)
  rw [hguard]

/-- What the uses of a run keep adds up. -/
theorem counts_of_run {s t : Holdings} {us : List Use} (h : run use s us = some t) :
    t.counts = [s.dirs + us.countP Use.keepsDir, s.world.bmpFds + us.countP Use.keepsBmp,
      s.world.lcdFds + us.countP Use.keepsLcd, s.world.buffers + us.countP Use.keepsLcd,
      s.world.mappings] := by
  induction us generalizing s with
  | nil =>
      cases h
      rfl
  | cons u us ih =>
      obtain ⟨r, hr, hrest⟩ := Option.bind_eq_some_iff.mp h
      have hcounts := counts_use hr
      simp only [Holdings.counts, List.cons.injEq, and_true] at hcounts
      obtain ⟨hdirs, hbmp, hlcd, hbuffers, hmappings⟩ := hcounts
      rw [ih hrest, hdirs, hbmp, hlcd, hbuffers, hmappings]
      simp only [List.countP_cons, Nat.add_comm, Nat.add_left_comm]

def nothingHeld : Holdings := ⟨0, ⟨fun _ ↦ 0, 0, 0, 0, 0⟩⟩

/-- A listed folder stays open; so does a picture without `/dev/fb0`, and `/dev/fb0` with
the pixel buffer when the picture cannot be read. -/
theorem uses_keep_what_they_open :
    (use nothingHeld (.getDir true)).map Holdings.counts = some [1, 0, 0, 0, 0] ∧
      (use nothingHeld (.showThePic ⟨some [], false, true, []⟩ 0 0 0 0 0)).map Holdings.counts =
        some [0, 1, 0, 0, 0] ∧
      (use nothingHeld (.showThePic ⟨some [], true, false, []⟩ 0 0 0 0 0)).map Holdings.counts =
        some [0, 0, 1, 1, 0] :=
  ⟨rfl, rfl, rfl⟩

end EmbeddedSystem.Ui
