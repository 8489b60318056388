import EmbeddedSystem.Foundation.CountedLoop
import Mathlib.Data.List.DropRight
import Mathlib.Data.List.Nodup

/-!
# Walking around a list

An index of a list with `n` entries that is moved one step forward or back, with a wrap
at either end, or put on an entry.  Walks are sums modulo `n`.
-/

namespace Cyclic

open CountedLoop

/-- One step forward. -/
def next (n i : ℤ) : ℤ := if i = n - 1 then 0 else i + 1

/-- One step back. -/
def prev (n i : ℤ) : ℤ := if i = 0 then n - 1 else i - 1

inductive Move
  | next
  | prev
  | jump (target : ℤ)
  | stay
  deriving DecidableEq, Repr

def Move.apply (n : ℤ) : Move → ℤ → ℤ
  | .next, i => Cyclic.next n i
  | .prev, i => Cyclic.prev n i
  | .jump target, _ => target
  | .stay, i => i

def Move.isJump : Move → Bool
  | .jump _ => true
  | _ => false

def walk (n : ℤ) (moves : List Move) (i : ℤ) : ℤ := moves.foldl (fun i m ↦ m.apply n i) i

/-- The entry of the last jump, and the start when there is none. -/
def base (i : ℤ) (moves : List Move) : ℤ :=
  match (moves.rdropWhile fun m ↦ !m.isJump).getLast? with
  | some (.jump target) => target
  | _ => i

/-- The moves since the last jump. -/
def since (moves : List Move) : List Move := moves.rtakeWhile fun m ↦ !m.isJump

/-- The steps forward less the steps back. -/
def net (moves : List Move) : ℤ := (moves.count .next : ℤ) - moves.count .prev

/-! ## One move -/

section Index

variable {n i : ℤ}

theorem next_eq_emod (hi : 0 ≤ i ∧ i < n) : next n i = (i + 1) % n := by
  unfold next
  split
  next hlast => rw [hlast, Int.sub_add_cancel, Int.emod_self]
  next hlast => rw [Int.emod_eq_of_lt (by omega) (by omega)]

theorem prev_eq_emod (hi : 0 ≤ i ∧ i < n) : prev n i = (i - 1) % n := by
  unfold prev
  split
  next hfirst =>
    rw [hfirst, ← Int.add_emod_right, Int.emod_eq_of_lt (by omega) (by omega)]
    omega
  next hfirst => rw [Int.emod_eq_of_lt (by omega) (by omega)]

theorem next_bounds (hi : 0 ≤ i ∧ i < n) : 0 ≤ next n i ∧ next n i < n := by
  unfold next
  split <;> omega

theorem prev_bounds (hi : 0 ≤ i ∧ i < n) : 0 ≤ prev n i ∧ prev n i < n := by
  unfold prev
  split <;> omega

theorem prev_next (hi : 0 ≤ i ∧ i < n) : prev n (next n i) = i := by
  unfold prev next
  split <;> split <;> omega

theorem next_prev (hi : 0 ≤ i ∧ i < n) : next n (prev n i) = i := by
  unfold prev next
  split <;> split <;> omega

theorem Move.apply_bounds (hi : 0 ≤ i ∧ i < n) {m : Move}
    (hjump : ∀ target, m = .jump target → 0 ≤ target ∧ target < n) :
    0 ≤ m.apply n i ∧ m.apply n i < n := by
  cases m with
  | next => exact next_bounds hi
  | prev => exact prev_bounds hi
  | jump target => exact hjump target rfl
  | stay => exact hi

theorem emod_bounds (hn : 0 < n) (k : ℤ) : 0 ≤ k % n ∧ k % n < n :=
  ⟨Int.emod_nonneg k (Int.ne_of_gt hn), Int.emod_lt_of_pos k hn⟩

theorem next_emod (hn : 0 < n) (k : ℤ) : next n (k % n) = (k + 1) % n := by
  rw [next_eq_emod (emod_bounds hn k), Int.emod_add_emod]

theorem prev_emod (hn : 0 < n) (k : ℤ) : prev n (k % n) = (k - 1) % n := by
  rw [prev_eq_emod (emod_bounds hn k), Int.emod_sub_emod]

/-! ## A walk -/

@[simp] theorem net_nil : net [] = 0 := rfl

theorem walk_concat (moves : List Move) (m : Move) :
    walk n (moves ++ [m]) i = m.apply n (walk n moves i) := by
  simp [walk]

theorem base_concat {m : Move} (hm : m.isJump = false) (moves : List Move) :
    base i (moves ++ [m]) = base i moves := by
  rw [base, List.rdropWhile_concat_pos _ _ _ (by simp [hm]), base]

theorem net_since_concat {m : Move} (hm : m.isJump = false) (moves : List Move) :
    net (since (moves ++ [m])) = net (since moves) + net [m] := by
  rw [since, List.rtakeWhile_concat_pos _ _ _ (by simp [hm]), net, net, net, since,
    List.count_append, List.count_append]
  omega

/-- A walk ends at the last jump and the steps since then, modulo `n`. -/
theorem walk_eq_emod (hi : 0 ≤ i ∧ i < n) {moves : List Move}
    (hjumps : ∀ target, .jump target ∈ moves → 0 ≤ target ∧ target < n) :
    walk n moves i = (base i moves + net (since moves)) % n := by
  have hn : 0 < n := by omega
  induction moves using List.reverseRecOn with
  | nil => simp [walk, base, since, Int.emod_eq_of_lt hi.1 hi.2]
  | append_singleton moves m ih =>
      have hbefore := ih fun target h ↦ hjumps target (List.mem_append_left _ h)
      rw [walk_concat]
      cases m with
      | next =>
          rw [base_concat rfl, net_since_concat rfl, Move.apply, hbefore, next_emod hn,
            ← Int.add_assoc]
          rfl
      | prev =>
          rw [base_concat rfl, net_since_concat rfl, Move.apply, hbefore, prev_emod hn,
            ← Int.add_assoc]
          rfl
      | stay =>
          rw [base_concat rfl, net_since_concat rfl, Move.apply, hbefore]
          simp [net]
      | jump target =>
          obtain ⟨h0, hlt⟩ := hjumps target (by simp)
          simp [Move.apply, base, since, Move.isJump, Int.emod_eq_of_lt h0 hlt]

theorem walk_eq_emod_of_no_jump (hi : 0 ≤ i ∧ i < n) {moves : List Move}
    (h : ∀ m ∈ moves, m.isJump = false) : walk n moves i = (i + net moves) % n := by
  have hjumps : ∀ target, .jump target ∈ moves → 0 ≤ target ∧ target < n :=
    fun target hmem ↦ absurd (h _ hmem) (by simp [Move.isJump])
  have hbase : base i moves = i := by
    have hnil : (moves.rdropWhile fun m ↦ !m.isJump) = [] :=
      List.rdropWhile_eq_nil_iff.mpr fun m hm ↦ by simp [h m hm]
    rw [base, hnil]
    rfl
  have hsince : since moves = moves :=
    List.rtakeWhile_eq_self_iff.mpr fun m hm ↦ by simp [h m hm]
  rw [walk_eq_emod hi hjumps, hbase, hsince]

/-- Going around once comes by every entry exactly once. -/
theorem perm_around (hn : 0 < n) (i : ℤ) : ((up n).map fun k ↦ (i + k) % n).Perm (up n) := by
  have hnodup : (up n).Nodup := (pairwise_up n).imp fun h ↦ Int.ne_of_lt h
  have hinj : ∀ k ∈ up n, ∀ k' ∈ up n, (i + k) % n = (i + k') % n → k = k' := by
    intro k hk k' hk' heq
    obtain ⟨h0, hlt⟩ := mem_up.mp hk
    obtain ⟨h0', hlt'⟩ := mem_up.mp hk'
    rwa [Int.emod_add_cancel_left, Int.emod_eq_of_lt h0 hlt, Int.emod_eq_of_lt h0' hlt'] at heq
  refine (List.perm_ext_iff_of_nodup (List.Nodup.map_on hinj hnodup) hnodup).mpr fun r ↦ ?_
  constructor
  · intro hr
    obtain ⟨k, -, rfl⟩ := List.mem_map.mp hr
    exact mem_up.mpr (emod_bounds hn (i + k))
  · intro hr
    obtain ⟨h0, hlt⟩ := mem_up.mp hr
    refine List.mem_map.mpr ⟨(r - i) % n, mem_up.mpr (emod_bounds hn (r - i)), ?_⟩
    have hsum : i + (r - i) = r := by omega
    rw [Int.add_emod_emod, hsum, Int.emod_eq_of_lt h0 hlt]

end Index

end Cyclic
