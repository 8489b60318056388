import EmbeddedSystem.Foundation.BlockStream
import EmbeddedSystem.Foundation.Runs
import EmbeddedSystem.Voice.Text
import Mathlib.Data.PNat.Defs

/-!
# The voice server

`main` of the server serves one connection after the other: it receives the size,
then the recording, runs `asr_sample` on the file, and sends the text it finds in
`result.txt`.  `asr_sample` either writes a text there or ends without one.
-/

namespace EmbeddedSystem.Voice

open BlockStream

/-- What a computed value becomes when it is stored in an `int`. -/
def toInt (n : ℤ) : ℤ := n.bmod (2 ^ 32)

/-- A text that `asr_sample` writes: a C string that fits its `tmp`. -/
structure Recognised where
  text : Bytes
  noNul : 0 ∉ text
  short : text.length < 2048
  deriving DecidableEq, Repr

/-- Where `main` is; `spin` is `while (con_fd == -1);`. -/
inductive ServerPc
  | accept
  | spin
  | recvSize
  | openFile
  | recvFile
  | asrSample
  | readResult
  | send
  | close
  | killed
  deriving DecidableEq, Repr

/-- The variables of `main`, the two files, and in `written` what this connection
has passed to `fwrite`.  A stream of an earlier connection is never used again, so
its buffer stays where it is. -/
structure Server where
  pc : ServerPc
  fileSize : ℤ
  totalLen : ℤ
  fileP : Option (Stream UInt8)
  recvFile : Bytes
  resultTxt : Option Recognised
  needTosendString : Bytes
  written : Bytes
  deriving DecidableEq, Repr

namespace Server

def started : Server := ⟨.accept, 0, 0, none, [], none, [], []⟩

/-- The buffer of the streams in examples. -/
def oneByte : ℕ+ := 1

inductive Label
  | accept (ok : Bool)
  /-- `recv` gives these bytes, none of them at the end of the stream, or fails. -/
  | recv (result : Option Bytes)
  /-- `fopen(recvFile, "w+")` gives a stream with such a buffer, or fails. -/
  | fopen (capacity : Option ℕ+)
  | asrSample (outcome : Option Recognised)
  | readResult (opened : Bool)
  /-- `send` passes the reply on, fails, or raises `SIGPIPE`. -/
  | send
  | sendError
  | sigpipe
  | close
  deriving DecidableEq, Repr

def accepted (s : Server) (ok : Bool) : Server :=
  { s with pc := if ok then .recvSize else .spin, written := [] }

def sized (s : Server) (result : Option Bytes) : Server :=
  { s with pc := .openFile, fileSize := toInt ((sscanfInt (result.getD [])).getD 0) }

def opened (s : Server) (capacity : Option ℕ+) : Server :=
  { s with
    pc := .recvFile
    totalLen := 0
    fileP := capacity.map fun B : ℕ+ ↦ .fresh B B.pos
    recvFile := if capacity.isSome then [] else s.recvFile }

/-- The body of the receive loop; `fwrite` to no stream is a crash. -/
def stored (s : Server) (chunk : Bytes) : Server :=
  match s.fileP with
  | none => { s with pc := .killed }
  | some file =>
    { s with
      pc := if s.fileSize ≤ toInt (s.totalLen + chunk.length) then .asrSample else .recvFile
      totalLen := toInt (s.totalLen + chunk.length)
      fileP := some (file.write chunk).1
      recvFile := s.recvFile ++ (file.write chunk).2
      written := s.written ++ chunk }

theorem stored_eq {s : Server} {file : Stream UInt8} (h : s.fileP = some file) (chunk : Bytes) :
    s.stored chunk = { s with
      pc := if s.fileSize ≤ toInt (s.totalLen + chunk.length) then .asrSample else .recvFile
      totalLen := toInt (s.totalLen + chunk.length)
      fileP := some (file.write chunk).1
      recvFile := s.recvFile ++ (file.write chunk).2
      written := s.written ++ chunk } := by
  simp [stored, h]

def received (s : Server) (result : Option Bytes) : Server :=
  if result.getD [] = [] then { s with pc := .asrSample } else s.stored (result.getD [])

def recognised (s : Server) (outcome : Option Recognised) : Server :=
  { s with pc := .readResult, resultTxt := outcome <|> s.resultTxt }

/-- `fscanf` from no file is a crash; without a word it leaves the buffer as it is. -/
def resultRead (s : Server) (opened : Bool) : Server :=
  match opened, s.resultTxt with
  | true, some r =>
    { s with pc := .send, needTosendString := (word r.text).getD s.needTosendString }
  | _, _ => { s with pc := .killed }

def step (s : Server) : Label → Option Server
  | .accept ok => if s.pc = .accept then some (s.accepted ok) else none
  | .recv result =>
    if 2048 < (result.getD []).length then none
    else
      match s.pc with
      | .recvSize => some (s.sized result)
      | .recvFile => some (s.received result)
      | _ => none
  | .fopen capacity => if s.pc = .openFile then some (s.opened capacity) else none
  | .asrSample outcome => if s.pc = .asrSample then some (s.recognised outcome) else none
  | .readResult opened => if s.pc = .readResult then some (s.resultRead opened) else none
  | .send => if s.pc = .send then some { s with pc := .close } else none
  | .sendError => if s.pc = .send then some { s with pc := .close } else none
  | .sigpipe => if s.pc = .send then some { s with pc := .killed } else none
  | .close => if s.pc = .close then some { s with pc := .accept } else none

/-- What a step does, by the point it is taken at. -/
inductive Change (s t : Server) : Label → Prop
  | accept (ok : Bool) (hpc : s.pc = .accept) (ht : t = s.accepted ok) : Change s t (.accept ok)
  | recvSize (result : Option Bytes) (hpc : s.pc = .recvSize) (ht : t = s.sized result) :
      Change s t (.recv result)
  | recvFile (result : Option Bytes) (hpc : s.pc = .recvFile) (ht : t = s.received result) :
      Change s t (.recv result)
  | fopen (capacity : Option ℕ+) (hpc : s.pc = .openFile) (ht : t = s.opened capacity) :
      Change s t (.fopen capacity)
  | asrSample (outcome : Option Recognised) (hpc : s.pc = .asrSample)
      (ht : t = s.recognised outcome) : Change s t (.asrSample outcome)
  | readResult (opened : Bool) (hpc : s.pc = .readResult) (ht : t = s.resultRead opened) :
      Change s t (.readResult opened)
  | send (hpc : s.pc = .send) (ht : t = { s with pc := .close }) : Change s t .send
  | leave (l : Label) (pc : ServerPc) (hl : l = .sendError ∨ l = .sigpipe ∨ l = .close)
      (hnext : pc = .close ∨ pc = .killed ∨ pc = .accept) (ht : t = { s with pc := pc }) :
      Change s t l

theorem change_of_step {s t : Server} {l : Label} (h : s.step l = some t) : Change s t l := by
  cases l with
  | accept ok =>
      obtain ⟨hpc, ht⟩ := Option.ite_none_right_eq_some.mp h
      exact .accept ok hpc (Option.some.inj ht).symm
  | recv result =>
      obtain ⟨-, h⟩ := Option.ite_none_left_eq_some.mp h
      split at h
      next hpc => exact .recvSize result hpc (Option.some.inj h).symm
      next hpc => exact .recvFile result hpc (Option.some.inj h).symm
      next => cases h
  | fopen capacity =>
      obtain ⟨hpc, ht⟩ := Option.ite_none_right_eq_some.mp h
      exact .fopen capacity hpc (Option.some.inj ht).symm
  | asrSample outcome =>
      obtain ⟨hpc, ht⟩ := Option.ite_none_right_eq_some.mp h
      exact .asrSample outcome hpc (Option.some.inj ht).symm
  | readResult opened =>
      obtain ⟨hpc, ht⟩ := Option.ite_none_right_eq_some.mp h
      exact .readResult opened hpc (Option.some.inj ht).symm
  | send =>
      obtain ⟨hpc, ht⟩ := Option.ite_none_right_eq_some.mp h
      exact .send hpc (Option.some.inj ht).symm
  | sendError =>
      obtain ⟨-, ht⟩ := Option.ite_none_right_eq_some.mp h
      exact .leave _ .close (by simp) (by simp) (Option.some.inj ht).symm
  | sigpipe =>
      obtain ⟨-, ht⟩ := Option.ite_none_right_eq_some.mp h
      exact .leave _ .killed (by simp) (by simp) (Option.some.inj ht).symm
  | close =>
      obtain ⟨-, ht⟩ := Option.ite_none_right_eq_some.mp h
      exact .leave _ .accept (by simp) (by simp) (Option.some.inj ht).symm

/-- Where the steps of `Change.leave` are taken and lead. -/
theorem leave_of_step {s t : Server} {l : Label} (hl : l = .sendError ∨ l = .sigpipe ∨ l = .close)
    (h : s.step l = some t) :
    l = .sendError ∧ s.pc = .send ∧ t = { s with pc := .close } ∨
      l = .sigpipe ∧ s.pc = .send ∧ t = { s with pc := .killed } ∨
      l = .close ∧ s.pc = .close ∧ t = { s with pc := .accept } := by
  obtain rfl | rfl | rfl := hl <;> obtain ⟨hpc, ht⟩ := Option.ite_none_right_eq_some.mp h
  · exact Or.inl ⟨rfl, hpc, (Option.some.inj ht).symm⟩
  · exact Or.inr (Or.inl ⟨rfl, hpc, (Option.some.inj ht).symm⟩)
  · exact Or.inr (Or.inr ⟨rfl, hpc, (Option.some.inj ht).symm⟩)

end Server

end EmbeddedSystem.Voice
