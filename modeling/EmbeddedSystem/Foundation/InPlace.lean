import Mathlib.Data.List.ProdSigma
import Mathlib.Logic.Function.Basic
import Mathlib.Tactic.Common

/-!
# Updating a memory in place

A list of cells is assigned one after the other in a single memory; the value
of a cell may read any location.  If no assignment disturbs what a later one
reads, the result is the simultaneous assignment of all cells from the original
memory.  Painting (values that read at most their own location) and in-place
shifting (values that read a location still to come) are the two uses.
-/

namespace InPlace

variable {ι κ α : Type*} [DecidableEq κ]

def assign (key : ι → κ) (value : ι → (κ → α) → α) (s : κ → α) (c : ι) : κ → α :=
  Function.update s (key c) (value c s)

/-- Assigning `c` leaves both the location and the value of `d` alone. -/
def Undisturbed (key : ι → κ) (value : ι → (κ → α) → α) (c d : ι) : Prop :=
  key c ≠ key d ∧ ∀ s v, value d (Function.update s (key c) v) = value d s

theorem foldl_assign_of_notMem {key : ι → κ} (value : ι → (κ → α) → α) {cs : List ι} {q : κ}
    (hq : ∀ c ∈ cs, key c ≠ q) (s : κ → α) : cs.foldl (assign key value) s q = s q := by
  induction cs generalizing s with
  | nil => rfl
  | cons c cs ih =>
      rw [List.foldl_cons, ih fun d hd ↦ hq d (List.mem_cons_of_mem c hd)]
      exact Function.update_of_ne (Ne.symm (hq c List.mem_cons_self)) _ _

/-- Every cell ends with its value in the original memory. -/
theorem foldl_assign_of_mem {key : ι → κ} {value : ι → (κ → α) → α} {cs : List ι}
    (h : cs.Pairwise (Undisturbed key value)) {c : ι} (hc : c ∈ cs) (s : κ → α) :
    cs.foldl (assign key value) s (key c) = value c s := by
  induction cs generalizing s with
  | nil => simp at hc
  | cons d cs ih =>
      obtain ⟨hd, hcs⟩ := List.pairwise_cons.mp h
      rw [List.foldl_cons]
      rcases List.mem_cons.mp hc with rfl | hmem
      · rw [foldl_assign_of_notMem value fun e he ↦ Ne.symm (hd e he).1]
        exact Function.update_self _ _ _
      · rw [ih hcs hmem]
        exact (hd c hmem).2 s (value d s)

omit [DecidableEq κ] in
theorem pairwise_product {R : ι × κ → ι × κ → Prop} {is : List ι} {js : List κ}
    (houter : is.Pairwise fun i i' ↦ ∀ j ∈ js, ∀ j' ∈ js, R (i, j) (i', j'))
    (hinner : ∀ i ∈ is, js.Pairwise fun j j' ↦ R (i, j) (i, j')) :
    (is ×ˢ js).Pairwise R := by
  rw [show is ×ˢ js = is.flatMap fun i ↦ js.map (Prod.mk i) from rfl, List.pairwise_flatMap]
  refine ⟨fun i hi ↦ List.pairwise_map.mpr (hinner i hi), houter.imp fun h x hx y hy ↦ ?_⟩
  obtain ⟨j, hj, rfl⟩ := List.mem_map.mp hx
  obtain ⟨j', hj', rfl⟩ := List.mem_map.mp hy
  exact h j hj j' hj'

end InPlace
