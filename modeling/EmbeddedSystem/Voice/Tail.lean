import EmbeddedSystem.Voice.Server

/-!
# What the recogniser reads

The server never flushes or closes the stream to which it writes the recording.
So `asr_sample` does not see the last block of it, full or not, and sees the recording
itself only if that is empty.
-/

namespace EmbeddedSystem.Voice.Server

open BlockStream Runs

/-- The file and the stream's buffer hold what was written; without a stream nothing
was. -/
def Holds (s : Server) : Prop :=
  match s.fileP with
  | some file => Tracks file s.recvFile s.written
  | none => s.written = []

def Tracked (s : Server) : Prop :=
  match s.pc with
  | .recvSize | .openFile => s.written = []
  | .recvFile | .asrSample => s.Holds
  | _ => True

theorem holds_opened {s : Server} (h : s.written = []) (capacity : Option ℕ+) :
    (s.opened capacity).Holds := by
  cases capacity with
  | none => exact h
  | some B =>
      change Tracks (Stream.fresh B B.pos) [] s.written
      rw [h]
      exact tracks_fresh B B.pos

theorem tracked_of_holds {s : Server} (hpc : s.pc ≠ .recvSize ∧ s.pc ≠ .openFile)
    (h : s.Holds) : s.Tracked := by
  unfold Tracked
  split
  next heq => exact absurd heq hpc.1
  next heq => exact absurd heq hpc.2
  next => exact h
  next => exact h
  next => trivial

theorem tracked_stored {s : Server} (h : s.Holds) (chunk : Bytes) : (s.stored chunk).Tracked := by
  unfold Holds at h
  unfold stored
  split
  next => trivial
  next file hfile =>
    rw [hfile] at h
    refine tracked_of_holds ?_ (tracks_write h chunk)
    constructor <;> dsimp only <;> split <;> decide

theorem tracked_step {s t : Server} {l : Label} (h : s.Tracked) (hstep : s.step l = some t) :
    t.Tracked := by
  cases change_of_step hstep with
  | accept ok hpc ht =>
      subst ht
      cases ok <;> trivial
  | recvSize result hpc ht =>
      subst ht
      rw [Tracked, hpc] at h
      exact h
  | recvFile result hpc ht =>
      subst ht
      rw [Tracked, hpc] at h
      unfold received
      split
      · exact h
      · exact tracked_stored h _
  | fopen capacity hpc ht =>
      subst ht
      rw [Tracked, hpc] at h
      exact holds_opened h capacity
  | asrSample outcome hpc ht =>
      subst ht
      trivial
  | readResult opened hpc ht =>
      subst ht
      unfold resultRead
      split <;> trivial
  | send hpc ht =>
      subst ht
      trivial
  | leave _ pc hl hnext ht =>
      subst ht
      obtain rfl | rfl | rfl := hnext <;> trivial

/-- No byte was received; and if `fopen` failed, what earlier connections left in the
file is nothing. -/
def NothingReceived (s : Server) : Prop :=
  s.written = [] ∧ (s.fileP = none → s.recvFile = [])

theorem Holds.recvFile_eq_iff {s : Server} (h : s.Holds) :
    s.recvFile = s.written ↔ s.NothingReceived := by
  unfold Holds at h
  unfold NothingReceived
  split at h
  next file hfile => simp [h.file_eq_iff, hfile]
  next hnone => simp [h, hnone]

theorem Holds.recvFile_eq_take {s : Server} (h : s.Holds) {file : Stream UInt8}
    (hfile : s.fileP = some file) :
    s.recvFile = s.written.take (passedOn file.capacity s.written.length) := by
  rw [Holds, hfile] at h
  exact h.file_eq_take

/-- Whatever connections the server has had, when it starts `asr_sample` the file
is what this connection received exactly when that is nothing: of a recording, the
last block is missing. -/
theorem recogniser_sees_upload_iff {s t : Server} {ls : List Label} (hs : s.pc = .accept)
    (hrun : run step s ls = some t) (hpc : t.pc = .asrSample) :
    (t.recvFile = t.written ↔ t.NothingReceived) ∧
      ∀ file, t.fileP = some file →
        t.recvFile = t.written.take (passedOn file.capacity t.written.length) := by
  have hinit : s.Tracked := by
    rw [Tracked, hs]
    trivial
  have htracked : t.Tracked := invariant (fun _ _ _ h ↦ tracked_step h) hinit hrun
  rw [Tracked, hpc] at htracked
  exact ⟨htracked.recvFile_eq_iff, fun _ ↦ htracked.recvFile_eq_take⟩

/-- A client that leaves before the recording. -/
def receiveNothing : List Label :=
  [.accept true, .recv (some [56, 10]), .fopen (some 4096), .recv (some [])]

def receiveEight (capacity : ℕ+) : List Label :=
  [.accept true, .recv (some [56, 10]), .fopen (some capacity), .recv (some [1, 2, 3]),
    .recv (some [4, 5, 6]), .recv (some [7, 8])]

def nothingReceived : Server := (run step started receiveNothing).get (by decide)

def eightReceived : Server := (run step started (receiveEight 4)).get (by decide)

theorem recogniser_sees_no_upload : nothingReceived.recvFile = nothingReceived.written ∧
    eightReceived.recvFile = eightReceived.written.take (passedOn 4 8) := by
  have hnothing : run step started receiveNothing = some nothingReceived :=
    (Option.some_get (show (run step started receiveNothing).isSome by decide)).symm
  have height : run step started (receiveEight 4) = some eightReceived :=
    (Option.some_get (show (run step started (receiveEight 4)).isSome by decide)).symm
  obtain ⟨file, hfile⟩ : ∃ file, eightReceived.fileP = some file ∧ file.capacity = 4 :=
    ⟨_, rfl, rfl⟩
  have hsees := (recogniser_sees_upload_iff rfl height (by decide)).2 file hfile.1
  rw [hfile.2, show eightReceived.written.length = 8 by decide] at hsees
  exact ⟨(recogniser_sees_upload_iff rfl hnothing (by decide)).1.mpr ⟨rfl, by decide⟩, hsees⟩

/-- With a buffer of 4096 bytes the recogniser sees an empty file, and with one of four
bytes it sees one of two blocks. -/
theorem recogniser_sees_nothing :
    (run step started (receiveEight 4096)).map (fun t ↦ (t.pc, t.recvFile, t.written)) =
        some (.asrSample, [], [1, 2, 3, 4, 5, 6, 7, 8]) ∧
      (run step started (receiveEight 4)).map (fun t ↦ (t.pc, t.recvFile, t.written)) =
        some (.asrSample, [1, 2, 3, 4], [1, 2, 3, 4, 5, 6, 7, 8]) := by decide

end EmbeddedSystem.Voice.Server
