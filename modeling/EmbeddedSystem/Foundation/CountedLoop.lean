import Mathlib.Data.List.ProdSigma
import Mathlib.Data.Int.Init
import Mathlib.Tactic.Common

/-!
# Counted loops over a partial state

The C loops `for (i = 0; i < n; i++)` and `for (i = n - 1; i >= 0; i--)` as
folds over the values of their counter.  A body that goes wrong gives `none`,
and so does the loop.  Nested loops are flattened into one loop over the
product of the counters, in the order in which the machine visits them.
-/

namespace CountedLoop

variable {ι κ σ : Type*}

/-- The values of `i` in `for (i = 0; i < n; i++)`. -/
def up (n : ℤ) : List ℤ := (List.range n.toNat).map Int.ofNat

/-- The values of `i` in `for (i = n - 1; i >= 0; i--)`. -/
def down (n : ℤ) : List ℤ := (up n).reverse

def loop (is : List ι) (body : ι → σ → Option σ) (s : σ) : Option σ :=
  is.foldlM (fun s i ↦ body i s) s

@[simp] theorem mem_up {n i : ℤ} : i ∈ up n ↔ 0 ≤ i ∧ i < n := by
  simp only [up, List.mem_map, List.mem_range]
  constructor
  · rintro ⟨k, hk, rfl⟩
    simp only [Int.ofNat_eq_natCast]
    omega
  · rintro ⟨h0, hn⟩
    exact ⟨i.toNat, by omega, Int.toNat_of_nonneg h0⟩

@[simp] theorem mem_down {n i : ℤ} : i ∈ down n ↔ 0 ≤ i ∧ i < n := by
  simp [down]

theorem up_of_nonpos {n : ℤ} (hn : n ≤ 0) : up n = [] := by
  rw [up, Int.toNat_of_nonpos hn]
  rfl

theorem pairwise_up (n : ℤ) : (up n).Pairwise (· < ·) := by
  simp only [up, List.pairwise_map, Int.ofNat_eq_natCast, Int.ofNat_lt]
  exact List.pairwise_lt_range

theorem pairwise_down (n : ℤ) : (down n).Pairwise (fun i j ↦ j < i) :=
  List.pairwise_reverse.mpr (pairwise_up n)

theorem up_succ {n : ℤ} (hn : 0 ≤ n) : up (n + 1) = up n ++ [n] := by
  have hsucc : (n + 1).toNat = n.toNat + 1 := by omega
  simp only [up, hsucc, List.range_succ, List.map_append, List.map_cons, List.map_nil,
    Int.ofNat_eq_natCast, Int.toNat_of_nonneg hn]

@[simp] theorem loop_nil (body : ι → σ → Option σ) (s : σ) : loop [] body s = some s := rfl

@[simp] theorem loop_cons (i : ι) (is : List ι) (body : ι → σ → Option σ) (s : σ) :
    loop (i :: is) body s = (body i s).bind (loop is body) := rfl

theorem loop_singleton (i : ι) (body : ι → σ → Option σ) : loop [i] body = body i := by
  funext s
  cases h : body i s <;> simp [h]

theorem loop_append (is js : List ι) (body : ι → σ → Option σ) (s : σ) :
    loop (is ++ js) body s = (loop is body s).bind (loop js body) := by
  simp only [loop, List.foldlM_append]
  rfl

theorem loop_congr {is : List ι} {body body' : ι → σ → Option σ}
    (h : ∀ i ∈ is, ∀ s, body i s = body' i s) (s : σ) : loop is body s = loop is body' s := by
  induction is generalizing s with
  | nil => rfl
  | cons i is ih =>
      have htail : loop is body = loop is body' :=
        funext fun t ↦ ih (fun j hj ↦ h j (List.mem_cons_of_mem i hj)) t
      rw [loop_cons, loop_cons, h i List.mem_cons_self, htail]

theorem loop_map (f : κ → ι) (ks : List κ) (body : ι → σ → Option σ) (s : σ) :
    loop (ks.map f) body s = loop ks (fun k ↦ body (f k)) s := by
  simp [loop, List.foldlM_map]

theorem loop_nest (is : List ι) (js : List κ) (body : ι → κ → σ → Option σ) (s : σ) :
    loop is (fun i ↦ loop js (body i)) s = loop (is ×ˢ js) (fun c ↦ body c.1 c.2) s := by
  induction is generalizing s with
  | nil => rfl
  | cons i is ih =>
      rw [List.product_cons, loop_append, loop_map, loop_cons]
      exact congrArg _ (funext ih)

/-- When the outcome of each body does not depend on the state, the loop goes
through exactly when each body does. -/
theorem isSome_loop_iff {is : List ι} {body : ι → σ → Option σ} {ok : ι → Prop}
    (h : ∀ i ∈ is, ∀ s, (body i s).isSome ↔ ok i) (s : σ) :
    (loop is body s).isSome ↔ ∀ i ∈ is, ok i := by
  induction is generalizing s with
  | nil => simp
  | cons i is ih =>
      have hi := h i List.mem_cons_self s
      have htail := ih fun j hj ↦ h j (List.mem_cons_of_mem i hj)
      cases hb : body i s with
      | none => simpa [hb] using fun hok : ok i ↦ absurd (hi.mpr hok) (by simp [hb])
      | some t =>
          have hok : ok i := hi.mp (by simp [hb])
          simp [hb, hok, htail t]

/-- A body that goes through wherever an invariant holds, and keeps it. -/
theorem loop_eq_foldl_of_invariant {is : List ι} {body : ι → σ → Option σ} {f : σ → ι → σ}
    {inv : σ → Prop} (h : ∀ i ∈ is, ∀ s, inv s → body i s = some (f s i) ∧ inv (f s i)) {s : σ}
    (hs : inv s) : loop is body s = some (is.foldl f s) := by
  induction is generalizing s with
  | nil => rfl
  | cons i is ih =>
      obtain ⟨hbody, hkept⟩ := h i List.mem_cons_self s hs
      rw [loop_cons, hbody, Option.bind_some, List.foldl_cons]
      exact ih (fun j hj ↦ h j (List.mem_cons_of_mem i hj)) hkept

theorem loop_eq_foldl {is : List ι} {body : ι → σ → Option σ} {f : σ → ι → σ}
    (h : ∀ i ∈ is, ∀ s, body i s = some (f s i)) (s : σ) :
    loop is body s = some (is.foldl f s) := by
  have hbody : ∀ i ∈ is, ∀ s, True → body i s = some (f s i) ∧ True :=
    fun i hi s _ ↦ ⟨h i hi s, trivial⟩
  exact loop_eq_foldl_of_invariant hbody trivial

/-- The state after each number of passes, from what one pass does to it. -/
theorem loop_up_eq_some {body : ℤ → σ → Option σ} {after : ℤ → σ} {n : ℤ}
    (hstep : ∀ i, 0 ≤ i → i < n → body i (after i) = some (after (i + 1)))
    {m : ℤ} (hm : 0 ≤ m) (hmn : m ≤ n) : loop (up m) body (after 0) = some (after m) := by
  induction m, hm using Int.leInduction with
  | base => rfl
  | succ m hm ih =>
      have hbefore := ih (by omega)
      have hpass := hstep m hm (by omega)
      simp [up_succ hm, loop_append, hbefore, hpass]

end CountedLoop
