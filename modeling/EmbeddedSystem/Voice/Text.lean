import EmbeddedSystem.Foundation.Decimal
import Mathlib.Data.Int.Notation
import Mathlib.Data.List.TakeWhile

/-!
# Texts on the wire

The C functions that the client and the server use on text: the size header that
the client prints, `sscanf` with `%d`, and `fscanf` with `%s`.
-/

namespace EmbeddedSystem.Voice

abbrev Bytes := List UInt8

/-- The string that a `char` array holds, up to its first NUL. -/
def cString (s : Bytes) : Bytes := s.takeWhile (· ≠ 0)

def isSpace (b : UInt8) : Bool := b = 32 || (9 ≤ b && b ≤ 13)

def unsignedInt (s : Bytes) : Option ℤ :=
  if Decimal.leadingDigits s = [] then none else some (Decimal.value (Decimal.leadingDigits s))

def signedInt (s : Bytes) : Option ℤ :=
  match (cString s).dropWhile isSpace with
  | 45 :: rest => (unsignedInt rest).map Neg.neg
  | 43 :: rest => unsignedInt rest
  | rest => unsignedInt rest

/-- A number that does not fit in the 64 bits of a `long` becomes the nearest one. -/
def saturate (n : ℤ) : ℤ := max (-2 ^ 63) (min n (2 ^ 63 - 1))

/-- The `long` that `sscanf(s, "%d", ...)` reads, `none` when it assigns nothing; what is
assigned is its low half. -/
def sscanfInt (s : Bytes) : Option ℤ := (signedInt s).map saturate

/-- What `fscanf(fp, "%s", ...)` assigns from the start of a file. -/
def word (file : Bytes) : Option Bytes :=
  let w := (file.dropWhile isSpace).takeWhile fun b ↦ !isSpace b
  if w = [] then none else some w

def IsWord (text : Bytes) : Prop := text ≠ [] ∧ ∀ b ∈ text, isSpace b = false

instance (text : Bytes) : Decidable (IsWord text) := inferInstanceAs (Decidable (_ ∧ _))

theorem word_of_isWord {text : Bytes} (h : IsWord text) : word text = some text := by
  obtain ⟨hne, hspace⟩ := h
  have hdrop : text.dropWhile isSpace = text := by
    cases text with
    | nil => rfl
    | cons b rest => exact List.dropWhile_cons_of_neg (by simp [hspace b List.mem_cons_self])
  have htake : text.takeWhile (fun b ↦ !isSpace b) = text :=
    List.takeWhile_eq_self_iff.mpr fun b hb ↦ by simp [hspace b hb]
  simp [word, hdrop, htake, hne]

/-! ## The size header -/

def printInt (n : ℤ) : Bytes :=
  if n < 0 then 45 :: Decimal.print n.natAbs else Decimal.print n.natAbs

/-- `send_buff` after `sprintf(send_buff, "%d\n", file_size)` -/
def sizeHeader (fileSize : ℤ) : Bytes :=
  let text := printInt fileSize ++ [10]
  text ++ List.replicate (2048 - text.length) 0

theorem printInt_natCast (n : ℕ) : printInt n = Decimal.print n := by
  simp [printInt]

theorem cString_append {a b : Bytes} (h : ∀ x ∈ a, x ≠ 0) :
    cString (a ++ b) = a ++ cString b :=
  List.takeWhile_append_of_pos fun x hx ↦ by simpa using h x hx

theorem ne_of_isDigit {b c : UInt8} (hb : Decimal.isDigit b) (hc : Decimal.isDigit c = false) :
    b ≠ c := by
  rintro rfl
  simp [hb] at hc

theorem toNat_of_isDigit {b : UInt8} (h : Decimal.isDigit b) :
    48 ≤ b.toNat ∧ b.toNat ≤ 57 := by
  simpa [Decimal.isDigit, UInt8.le_iff_toNat_le] using h

theorem not_isSpace_of_isDigit {b : UInt8} (h : Decimal.isDigit b) : isSpace b = false := by
  have hnat := toNat_of_isDigit h
  simp only [isSpace, Bool.or_eq_false_iff, Bool.and_eq_false_iff, decide_eq_false_iff_not,
    UInt8.le_iff_toNat_le, ← UInt8.toNat_inj, UInt8.reduceToNat]
  omega

theorem leadingDigits_cString (s : Bytes) :
    Decimal.leadingDigits (cString s) = Decimal.leadingDigits s := by
  rw [Decimal.leadingDigits, Decimal.leadingDigits, cString, List.takeWhile_takeWhile]
  congr 1
  funext b
  have hzero : Decimal.isDigit b → b ≠ 0 := fun h ↦ ne_of_isDigit h rfl
  by_cases h : Decimal.isDigit b <;> simp [h, hzero]

theorem unsignedInt_cString (s : Bytes) : unsignedInt (cString s) = unsignedInt s := by
  rw [unsignedInt, unsignedInt, leadingDigits_cString]

theorem signedInt_of_isDigit {b : UInt8} (hb : Decimal.isDigit b) (rest : Bytes) :
    signedInt (b :: rest) = unsignedInt (b :: rest) := by
  have hcut : cString (b :: rest) = b :: cString rest :=
    List.takeWhile_cons_of_pos (by simpa using ne_of_isDigit hb rfl)
  have hskip : (cString (b :: rest)).dropWhile isSpace = b :: cString rest := by
    rw [hcut, List.dropWhile_cons_of_neg (by simp [not_isSpace_of_isDigit hb])]
  rw [signedInt, hskip]
  split
  next heq => exact absurd (List.cons.inj heq).1 (ne_of_isDigit hb rfl)
  next heq => exact absurd (List.cons.inj heq).1 (ne_of_isDigit hb rfl)
  next => rw [← hcut, unsignedInt_cString]

theorem signedInt_minus (rest : Bytes) :
    signedInt (45 :: rest) = (unsignedInt rest).map Neg.neg := by
  have hcut : cString (45 :: rest) = 45 :: cString rest :=
    List.takeWhile_cons_of_pos (by decide)
  rw [signedInt, hcut, List.dropWhile_cons_of_neg (by decide), ← unsignedInt_cString rest]
  rfl

theorem saturate_eq_self {n : ℤ} (hlow : -2 ^ 63 ≤ n) (hhigh : n < 2 ^ 63) : saturate n = n := by
  unfold saturate
  omega

/-- A text that starts with the digits of a number and then has none is read as
this number. -/
theorem signedInt_print_append (n : ℕ) {rest : Bytes}
    (hrest : ∀ b ∈ rest.head?, Decimal.isDigit b = false) :
    signedInt (Decimal.print n ++ rest) = some (n : ℤ) := by
  have hdigit : ∀ b ∈ Decimal.print n, Decimal.isDigit b :=
    fun b hb ↦ Decimal.isDigit_of_mem_print hb
  have hlead : Decimal.leadingDigits (Decimal.print n ++ rest) = Decimal.print n :=
    Decimal.leadingDigits_append hdigit hrest
  have hvalue : unsignedInt (Decimal.print n ++ rest) = some (n : ℤ) := by
    rw [unsignedInt, hlead, if_neg (Decimal.print_ne_nil n), Decimal.value_print]
  obtain ⟨b, digits, hprint⟩ := List.exists_cons_of_ne_nil (Decimal.print_ne_nil n)
  have hb := hdigit b (by simp [hprint])
  rw [hprint, List.cons_append] at hvalue ⊢
  rw [signedInt_of_isDigit hb, hvalue]

theorem sizeHeader_eq (n : ℤ) :
    ∃ pad, sizeHeader n = printInt n ++ 10 :: pad ∧ 2048 ≤ (sizeHeader n).length := by
  refine ⟨List.replicate (2048 - (printInt n ++ [10]).length) 0, ?_, ?_⟩
  · rw [sizeHeader, List.append_assoc]
    rfl
  · rw [sizeHeader, List.length_append, List.length_replicate]
    omega

/-- However much of the header arrives, its digits give the size. -/
theorem sscanfInt_sizeHeader_take {n k : ℕ} (hn : n < 2 ^ 63) (hk : (printInt n).length ≤ k) :
    sscanfInt ((sizeHeader n).take k) = some (n : ℤ) := by
  obtain ⟨pad, hheader, -⟩ := sizeHeader_eq n
  rw [printInt_natCast] at hk hheader
  rw [hheader, List.take_append, List.take_of_length_le hk, sscanfInt, signedInt_print_append,
    Option.map_some, saturate_eq_self (by omega) (by omega)]
  cases k - (Decimal.print n).length with
  | zero => simp
  | succ j =>
      intro b hb
      have hb : 10 = b := by simpa using hb
      rw [← hb]
      rfl

theorem unsignedInt_print_take_le (m k : ℕ) (pad : Bytes) :
    0 ≤ (unsignedInt ((Decimal.print m ++ 10 :: pad).take k)).getD 0 ∧
      (unsignedInt ((Decimal.print m ++ 10 :: pad).take k)).getD 0 ≤ m := by
  have hlead : Decimal.leadingDigits (Decimal.print m ++ 10 :: pad) = Decimal.print m :=
    Decimal.leadingDigits_append (fun b hb ↦ Decimal.isDigit_of_mem_print hb) (by
      intro b hb
      obtain rfl : 10 = b := by simpa using hb
      rfl)
  have hvalue := Decimal.value_take_le (Decimal.print m) k
  rw [Decimal.value_print] at hvalue
  rw [unsignedInt, Decimal.leadingDigits_take, hlead]
  split
  · exact ⟨le_rfl, Int.natCast_nonneg m⟩
  · exact ⟨Int.natCast_nonneg _, Int.ofNat_le.mpr hvalue⟩

theorem signedInt_sizeHeader_take_le (n : ℤ) (k : ℕ) :
    -(n.natAbs : ℤ) ≤ (signedInt ((sizeHeader n).take k)).getD 0 ∧
      (signedInt ((sizeHeader n).take k)).getD 0 ≤ max n 0 := by
  obtain ⟨pad, hheader, -⟩ := sizeHeader_eq n
  rw [hheader]
  cases k with
  | zero => simp [signedInt, cString, unsignedInt, Decimal.leadingDigits]
  | succ k =>
      by_cases hn : n < 0
      · have htake : (printInt n ++ 10 :: pad).take (k + 1) =
            45 :: (Decimal.print n.natAbs ++ 10 :: pad).take k := by
          simp [printInt, hn]
        have hbound := unsignedInt_print_take_le n.natAbs k pad
        rw [htake, signedInt_minus]
        revert hbound
        cases unsignedInt ((Decimal.print n.natAbs ++ 10 :: pad).take k) with
        | none => simp
        | some v =>
            simp only [Option.getD_some, Option.map_some]
            omega
      · obtain ⟨b, digits, hprint⟩ :=
          List.exists_cons_of_ne_nil (Decimal.print_ne_nil n.natAbs)
        have hb : Decimal.isDigit b := Decimal.isDigit_of_mem_print (by
          rw [hprint]
          exact List.mem_cons_self)
        have htake : (printInt n ++ 10 :: pad).take (k + 1) =
            b :: (digits ++ 10 :: pad).take k := by
          simp [printInt, hn, hprint]
        have hbound := unsignedInt_print_take_le n.natAbs (k + 1) pad
        rw [hprint, List.cons_append, List.take_succ_cons] at hbound
        rw [htake, signedInt_of_isDigit hb]
        omega

/-- A cut in the header can only make the size smaller. -/
theorem sscanfInt_sizeHeader_take_le (n : ℤ) (k : ℕ) :
    -(n.natAbs : ℤ) ≤ (sscanfInt ((sizeHeader n).take k)).getD 0 ∧
      (sscanfInt ((sizeHeader n).take k)).getD 0 ≤ max n 0 := by
  have hbound := signedInt_sizeHeader_take_le n k
  rw [sscanfInt]
  revert hbound
  cases signedInt ((sizeHeader n).take k) with
  | none => simp
  | some v =>
      simp only [Option.getD_some, Option.map_some, saturate]
      omega

end EmbeddedSystem.Voice
