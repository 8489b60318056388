import EmbeddedSystem.Foundation.CountedLoop

/-!
# Collecting into an array

A loop that writes something of each accepted item to the next slot of an array, and goes
wrong when it writes past the array's end.
-/

namespace Collect

open CountedLoop

variable {α β γ : Type*}

def push (accept : α → Bool) (f : α → β) (capacity : ℕ) (x : α) (slots : List β) :
    Option (List β) :=
  if accept x then
    if slots.length < capacity then some (slots ++ [f x]) else none
  else some slots

theorem loop_push {accept : α → Bool} {f : α → β} {capacity : ℕ} (xs : List α) {slots : List β}
    (h : slots.length ≤ capacity) :
    loop xs (push accept f capacity) slots =
      let all := slots ++ (xs.filter accept).map f
      if all.length ≤ capacity then some all else none := by
  induction xs generalizing slots with
  | nil => simp [h]
  | cons x xs ih =>
      rw [loop_cons, push]
      by_cases haccept : accept x
      · rw [if_pos haccept]
        by_cases hroom : slots.length < capacity
        · have hlength : (slots ++ [f x]).length ≤ capacity := by
            rw [List.length_append]
            exact hroom
          rw [if_pos hroom, Option.bind_some, ih hlength]
          simp [haccept]
        · rw [if_neg hroom]
          simp [haccept]
          omega
      · rw [if_neg haccept, Option.bind_some, ih h]
        simp [haccept]

theorem collected_eq_some_iff {accept : α → Bool} {f : α → β} {capacity : ℕ} {xs : List α}
    {all : List β} :
    loop xs (push accept f capacity) [] = some all ↔
      ((xs.filter accept).map f).length ≤ capacity ∧ (xs.filter accept).map f = all := by
  have hempty : ([] : List β).length ≤ capacity := Nat.zero_le capacity
  rw [loop_push xs hempty, List.nil_append]
  exact Option.ite_none_right_eq_some.trans (and_congr_right fun _ ↦ Option.some_inj)

section Wanted

variable {accept want : α → Bool} {xs : List α} (himp : ∀ x ∈ xs, want x → accept x)
include himp

theorem filter_eq_of_imp (h : ∀ x ∈ xs, accept x → want x) :
    xs.filter accept = xs.filter want :=
  List.filter_congr fun x hx ↦ Bool.eq_iff_iff.mpr ⟨h x hx, himp x hx⟩

theorem imp_of_length_filter (hlength : (xs.filter accept).length = (xs.filter want).length) :
    ∀ x ∈ xs, accept x → want x := by
  intro x hx haccept
  have htwice : (xs.filter accept).filter want = xs.filter want := by
    rw [List.filter_filter]
    refine List.filter_congr fun y hy ↦ ?_
    cases hwant : want y with
    | false => rfl
    | true => simp [himp y hy hwant]
  have hall : (xs.filter accept).filter want = xs.filter accept :=
    List.filter_sublist.eq_of_length (by rw [htwice, hlength])
  have hmem : x ∈ (xs.filter accept).filter want := by
    rw [hall]
    exact List.mem_filter.mpr ⟨hx, haccept⟩
  exact (List.mem_filter.mp hmem).2

/-- What is read of the accepted items is what is wanted of the wanted ones exactly when
only wanted items are accepted and each reads as wanted. -/
theorem map_filter_eq_iff {f g : α → γ} :
    (xs.filter accept).map f = (xs.filter want).map g ↔
      (∀ x ∈ xs, accept x → want x) ∧ ∀ x ∈ xs, accept x → f x = g x := by
  have hmap : (xs.filter accept).map f = (xs.filter accept).map g ↔
      ∀ x ∈ xs, accept x → f x = g x := by
    simp only [List.map_inj_left, List.mem_filter, and_imp]
  constructor
  · intro h
    have hlength : (xs.filter accept).length = (xs.filter want).length := by
      simpa using congrArg List.length h
    have hwant := imp_of_length_filter himp hlength
    rw [← filter_eq_of_imp himp hwant] at h
    exact ⟨hwant, hmap.mp h⟩
  · rintro ⟨hwant, hsame⟩
    rw [← filter_eq_of_imp himp hwant]
    exact hmap.mpr hsame

end Wanted

end Collect
