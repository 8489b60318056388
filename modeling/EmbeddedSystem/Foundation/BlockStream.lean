import Mathlib.Data.Nat.Notation
import Mathlib.Tactic.Common

/-!
# Block-buffered output

A stream collects what is written to it in a buffer and passes a full buffer on
when the next element comes.  Whatever the sizes of the single writes, the file
holds whole blocks, and the last element is always still in the buffer; so the file
holds all that was written exactly when nothing was.
-/

namespace BlockStream

/-- An output buffer, which may be full between two writes. -/
structure Stream (α : Type*) where
  capacity : ℕ
  buffer : List α
  pos : 0 < capacity
  fits : buffer.length ≤ capacity
  deriving DecidableEq, Repr

variable {α : Type*}

def Stream.fresh (capacity : ℕ) (h : 0 < capacity) : Stream α := ⟨capacity, [], h, Nat.zero_le _⟩

/-- An element joins the buffer, which is emptied before if it is full. -/
def Stream.put (s : Stream α) (a : α) : Stream α × List α :=
  if h : s.buffer.length < s.capacity then
    (⟨s.capacity, s.buffer ++ [a], s.pos, by simpa using Nat.succ_le_of_lt h⟩, [])
  else (⟨s.capacity, [a], s.pos, s.pos⟩, s.buffer)

def Stream.write (s : Stream α) : List α → Stream α × List α
  | [] => (s, [])
  | a :: as => (((s.put a).1.write as).1, (s.put a).2 ++ ((s.put a).1.write as).2)

/-- The file holds whole blocks, with the buffer all that was written, and the buffer
some of it. -/
structure Tracks (s : Stream α) (file written : List α) : Prop where
  append : file ++ s.buffer = written
  blocks : s.capacity ∣ file.length
  kept : written ≠ [] → s.buffer ≠ []

theorem tracks_fresh (capacity : ℕ) (h : 0 < capacity) :
    Tracks (Stream.fresh capacity h : Stream α) [] [] :=
  ⟨rfl, Nat.dvd_zero capacity, fun hne ↦ absurd rfl hne⟩

theorem tracks_put {s : Stream α} {file written : List α} (h : Tracks s file written) (a : α) :
    Tracks (s.put a).1 (file ++ (s.put a).2) (written ++ [a]) := by
  obtain ⟨happend, hblocks, -⟩ := h
  unfold Stream.put
  split
  next => exact ⟨by simp [← happend], by simpa using hblocks, by simp⟩
  next hfull =>
    have hlen : s.buffer.length = s.capacity := Nat.le_antisymm s.fits (Nat.not_lt.mp hfull)
    refine ⟨by simp [← happend], ?_, by simp⟩
    simpa [hlen] using Nat.dvd_add hblocks (Nat.dvd_refl s.capacity)

theorem tracks_write {s : Stream α} {file written : List α} (h : Tracks s file written)
    (as : List α) : Tracks (s.write as).1 (file ++ (s.write as).2) (written ++ as) := by
  induction as generalizing s file written with
  | nil => simpa [Stream.write] using h
  | cons a as ih => simpa [Stream.write] using ih (tracks_put h a)

theorem Tracks.file_eq_iff {s : Stream α} {file written : List α} (h : Tracks s file written) :
    file = written ↔ written = [] := by
  constructor
  · rintro rfl
    by_contra hne
    exact h.kept hne (List.append_right_eq_self.mp h.append)
  · rintro rfl
    exact (List.append_eq_nil_iff.mp h.append).1

/-- How much of `n` written elements is in the file: all blocks but the last one, which
is never empty. -/
def passedOn (capacity n : ℕ) : ℕ := (n - 1) / capacity * capacity

theorem Tracks.length_file {s : Stream α} {file written : List α} (h : Tracks s file written) :
    file.length = passedOn s.capacity written.length := by
  obtain ⟨happend, ⟨q, hq⟩, hkept⟩ := h
  have hlen : written.length = file.length + s.buffer.length := by
    rw [← happend, List.length_append]
  by_cases hnil : written = []
  · have hfile : file.length = 0 := by
      rw [hnil, List.length_nil] at hlen
      omega
    rw [hnil, hfile, passedOn, List.length_nil, Nat.zero_sub, Nat.zero_div, Nat.zero_mul]
  · have hbuffer : 0 < s.buffer.length := List.length_pos_iff.mpr (hkept hnil)
    have hfits := s.fits
    have hrest : written.length - 1 = s.buffer.length - 1 + s.capacity * q := by omega
    rw [passedOn, hrest, Nat.add_mul_div_left _ _ s.pos, Nat.div_eq_of_lt (by omega), Nat.zero_add,
      hq, Nat.mul_comm]

theorem Tracks.file_eq_take {s : Stream α} {file written : List α} (h : Tracks s file written) :
    file = written.take (passedOn s.capacity written.length) := by
  rw [← h.length_file, ← h.append, List.take_left]

end BlockStream
