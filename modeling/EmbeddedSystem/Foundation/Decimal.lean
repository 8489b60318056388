import Mathlib.Data.Nat.Digits.Defs
import Mathlib.Tactic.Common

/-!
# Decimal numerals as bytes

Printing a natural number in ASCII digits and reading the leading digits of a
byte string back.
-/

namespace Decimal

def digitByte (d : ℕ) : UInt8 := .ofNat (48 + d)

def print (n : ℕ) : List UInt8 :=
  if n = 0 then [48] else (Nat.digits 10 n).reverse.map digitByte

def isDigit (b : UInt8) : Bool := 48 ≤ b && b ≤ 57

def leadingDigits (s : List UInt8) : List UInt8 := s.takeWhile isDigit

def value (s : List UInt8) : ℕ := s.foldl (fun n b ↦ 10 * n + (b.toNat - 48)) 0

theorem toNat_digitByte {d : ℕ} (hd : d < 10) : (digitByte d).toNat = 48 + d := by
  rw [digitByte, UInt8.toNat_ofNat']
  omega

theorem isDigit_digitByte {d : ℕ} (hd : d < 10) : isDigit (digitByte d) := by
  have hnat := toNat_digitByte hd
  simp only [isDigit, Bool.and_eq_true, decide_eq_true_eq, UInt8.le_iff_toNat_le, hnat]
  refine ⟨?_, ?_⟩
  · change 48 ≤ 48 + d
    omega
  · change 48 + d ≤ 57
    omega

theorem print_ne_nil (n : ℕ) : print n ≠ [] := by
  unfold print
  split
  · simp
  next hn => simpa [Nat.digits_eq_nil_iff_eq_zero] using hn

theorem isDigit_of_mem_print {n : ℕ} {b : UInt8} (hb : b ∈ print n) : isDigit b := by
  unfold print at hb
  split at hb
  · rw [List.mem_singleton.mp hb]
    rfl
  · obtain ⟨d, hd, rfl⟩ := List.mem_map.mp hb
    exact isDigit_digitByte (Nat.digits_lt_base (by decide) (List.mem_reverse.mp hd))

theorem value_reverse_digits {ds : List ℕ} (hds : ∀ d ∈ ds, d < 10) :
    value (ds.reverse.map digitByte) = Nat.ofDigits 10 ds := by
  induction ds with
  | nil => rfl
  | cons d ds ih =>
      obtain ⟨hd, hrest⟩ := List.forall_mem_cons.mp hds
      have hih := ih hrest
      simp only [value] at hih ⊢
      rw [List.reverse_cons, List.map_append, List.foldl_append, hih, Nat.ofDigits_cons]
      simp only [List.map_cons, List.map_nil, List.foldl_cons, List.foldl_nil,
        toNat_digitByte hd]
      simp
      omega

theorem value_print (n : ℕ) : value (print n) = n := by
  unfold print
  split
  next hn =>
    rw [hn]
    rfl
  next =>
    rw [value_reverse_digits fun d hd ↦ Nat.digits_lt_base (by decide) hd,
      Nat.ofDigits_digits]

theorem leadingDigits_append {ds rest : List UInt8} (hds : ∀ b ∈ ds, isDigit b)
    (hrest : ∀ b ∈ rest.head?, isDigit b = false) : leadingDigits (ds ++ rest) = ds := by
  rw [leadingDigits, List.takeWhile_append_of_pos hds]
  cases rest with
  | nil => simp
  | cons b rest =>
      rw [List.takeWhile_cons_of_neg (by simp [hrest b rfl]), List.append_nil]

theorem leadingDigits_take (s : List UInt8) (k : ℕ) :
    leadingDigits (s.take k) = (leadingDigits s).take k :=
  List.take_takeWhile.symm

theorem value_take_le (s : List UInt8) (k : ℕ) : value (s.take k) ≤ value s := by
  have hmono : ∀ (t : List UInt8) (n : ℕ),
      n ≤ t.foldl (fun n b ↦ 10 * n + (b.toNat - 48)) n := by
    intro t
    induction t with
    | nil => exact fun n ↦ le_rfl
    | cons b t ih => exact fun n ↦ (by omega : n ≤ _).trans (ih (10 * n + (b.toNat - 48)))
  have happend : value s = (s.drop k).foldl (fun n b ↦ 10 * n + (b.toNat - 48))
      (value (s.take k)) := by
    rw [value, value, ← List.foldl_append, List.take_append_drop]
  rw [happend]
  exact hmono _ _

end Decimal
