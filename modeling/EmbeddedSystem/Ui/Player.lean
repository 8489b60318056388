import EmbeddedSystem.Ui.Arms

/-!
# The player processes

The pages play files with background processes that they control by `killall`
alone.  `killall -9` is waited for, while `killall -STOP` and `killall -CONT`
run in the background and take effect later, in any order.
-/

namespace EmbeddedSystem.Ui

inductive Proc
  | running
  | stopped
  deriving DecidableEq, Repr

inductive Killall
  | stop
  | cont
  deriving DecidableEq, Repr

def Killall.effect : Killall → Proc
  | .stop => .stopped
  | .cont => .running

/-- The processes of one player program, and the signals still to be sent. -/
structure Player where
  procs : List Proc
  pending : List Killall
  deriving DecidableEq, Repr

namespace Player

/-- `play_mp3` and `play_video`: `system("madplay ... &")` -/
def play (p : Player) : Player := { p with procs := .running :: p.procs }

/-- `stop_mp3` and `stop_video`: `system("killall -9 madplay")` -/
def stop (p : Player) : Player := { p with procs := [] }

/-- `pause_mp3` and `pause_video`: `system("killall -STOP madplay &")` -/
def pause (p : Player) : Player := { p with pending := p.pending ++ [.stop] }

/-- `conti_mp3` and `conti_video`: `system("killall -CONT madplay &")` -/
def conti (p : Player) : Player := { p with pending := p.pending ++ [.cont] }

def exec (p : Player) : Stmt → Player
  | .playFile => p.play
  | .stopPlayer => p.stop
  | .pausePlayer => p.pause
  | .contiPlayer => p.conti
  | _ => p

def execArm (stmts : List Stmt) (p : Player) : Player := stmts.foldl exec p

/-- A pending background `killall` reaches the processes. -/
def deliver (p : Player) (i : ℕ) : Option Player :=
  p.pending[i]?.map fun k ↦
    { procs := p.procs.map fun _ ↦ k.effect, pending := p.pending.eraseIdx i }

def exit (p : Player) (i : ℕ) : Option Player :=
  if p.procs[i]? = some .running then some { p with procs := p.procs.eraseIdx i } else none

theorem procs_of_deliver {p q : Player} {i : ℕ} (h : p.deliver i = some q)
    (hp : p.procs = []) : q.procs = [] := by
  obtain ⟨k, _, rfl⟩ := Option.map_eq_some_iff.mp h
  simp [hp]

theorem procs_of_exit {p q : Player} {i : ℕ} (h : p.exit i = some q) (hp : p.procs = []) :
    q.procs = [] := by
  simp [exit, hp] at h

end Player

end EmbeddedSystem.Ui
