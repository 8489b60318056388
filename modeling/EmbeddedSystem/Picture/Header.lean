import Mathlib.Data.Nat.Notation
import Mathlib.Data.Int.Notation
import Mathlib.Tactic.Common

/-!
# The headers of a bitmap file

`showThePic` reads the two packed header structures straight from the file.
On the target a `long` has 32 bits, a `short` 16, and numbers are stored with
the low byte first; the structures occupy 14 and 40 bytes.
Fields that neither the function nor the format description uses are left out.
-/

namespace EmbeddedSystem.Picture

abbrev Bytes := List UInt8

def byteAt (b : Bytes) (k : ℕ) : ℕ := (b.getD k 0).toNat

def le16 (b : Bytes) (k : ℕ) : UInt16 := .ofNat (byteAt b k + 256 * byteAt b (k + 1))

def le32 (b : Bytes) (k : ℕ) : UInt32 :=
  .ofNat (byteAt b k + 256 * byteAt b (k + 1) + 65536 * byteAt b (k + 2) +
    16777216 * byteAt b (k + 3))

structure BitMapFileHeader where
  bfType : UInt8 × UInt8
  bfOffBits : UInt32
  deriving DecidableEq, Repr

structure BitMapInfoHeader where
  biSize : UInt32
  biWidth : Int32
  biHeight : Int32
  biPlanes : UInt16
  biBitCount : UInt16
  biCompression : UInt32
  biSizeImage : UInt32
  deriving DecidableEq, Repr

def BitMapFileHeader.ofBytes (b : Bytes) : BitMapFileHeader where
  bfType := (b.getD 0 0, b.getD 1 0)
  bfOffBits := le32 b 10

def BitMapInfoHeader.ofBytes (b : Bytes) : BitMapInfoHeader where
  biSize := le32 b 0
  biWidth := (le32 b 4).toInt32
  biHeight := (le32 b 8).toInt32
  biPlanes := le16 b 12
  biBitCount := le16 b 14
  biCompression := le32 b 16
  biSizeImage := le32 b 20

/-- `read(bmp_fd, &InfoHead, sizeof(BitMapInfoHeader))` after the file header was
read: what the file has of the 40 bytes replaces the start of what the local
variable held. -/
def readInfoHead (file stack : Bytes) : BitMapInfoHeader :=
  let got := (file.drop 14).take 40
  .ofBytes (got ++ stack.drop got.length)

/-! ## Writing headers

The inverse direction: the two headers of an uncompressed 24-bit picture with
given fields. -/

def bytes32 (n : UInt32) : Bytes :=
  [.ofNat n.toNat, .ofNat (n.toNat / 256), .ofNat (n.toNat / 65536), .ofNat (n.toNat / 16777216)]

def headerBytes (bfOffBits : UInt32) (biWidth biHeight : Int32) (biSizeImage : UInt32) : Bytes :=
  [66, 77] ++ bytes32 0 ++ [0, 0, 0, 0] ++ bytes32 bfOffBits ++
    (bytes32 40 ++ bytes32 biWidth.toUInt32 ++ bytes32 biHeight.toUInt32 ++ [1, 0, 24, 0] ++
      bytes32 0 ++ bytes32 biSizeImage ++ List.replicate 16 0)

@[simp] theorem length_headerBytes (off : UInt32) (w h : Int32) (size : UInt32) :
    (headerBytes off w h size).length = 54 := rfl

theorem byteAt_append_left {a b : Bytes} {k : ℕ} (hk : k < a.length) :
    byteAt (a ++ b) k = byteAt a k := by
  simp [byteAt, List.getElem?_append_left hk]

theorem byteAt_take {a : Bytes} {k n : ℕ} (hk : k < n) : byteAt (a.take n) k = byteAt a k := by
  simp [byteAt, List.getElem?_take_of_lt hk]

theorem byteAt_drop (a : Bytes) (k n : ℕ) : byteAt (a.drop n) k = byteAt a (n + k) := by
  simp [byteAt]

theorem le32_of_bytes {b : Bytes} {k : ℕ} {n : UInt32}
    (h0 : byteAt b k = n.toNat % 256) (h1 : byteAt b (k + 1) = n.toNat / 256 % 256)
    (h2 : byteAt b (k + 2) = n.toNat / 65536 % 256)
    (h3 : byteAt b (k + 3) = n.toNat / 16777216 % 256) : le32 b k = n := by
  have hn : n.toNat < 4294967296 := n.toNat_lt
  rw [le32, h0, h1, h2, h3, show n.toNat % 256 + 256 * (n.toNat / 256 % 256) +
    65536 * (n.toNat / 65536 % 256) + 16777216 * (n.toNat / 16777216 % 256) = n.toNat by omega]
  exact UInt32.ofNat_toNat

theorem le16_of_bytes {b : Bytes} {k : ℕ} {n : UInt16}
    (h0 : byteAt b k = n.toNat % 256) (h1 : byteAt b (k + 1) = n.toNat / 256 % 256) :
    le16 b k = n := by
  have hn : n.toNat < 65536 := n.toNat_lt
  rw [le16, h0, h1, show n.toNat % 256 + 256 * (n.toNat / 256 % 256) = n.toNat by omega]
  exact UInt16.ofNat_toNat

theorem fileHeader_headerBytes (off : UInt32) (w h : Int32) (size : UInt32) (rest : Bytes) :
    BitMapFileHeader.ofBytes (headerBytes off w h size ++ rest) = ⟨(66, 77), off⟩ := by
  simp only [BitMapFileHeader.ofBytes, BitMapFileHeader.mk.injEq]
  constructor
  · rfl
  · apply le32_of_bytes <;> rfl

theorem infoHeader_headerBytes (off : UInt32) (w h : Int32) (size : UInt32) (rest : Bytes) :
    BitMapInfoHeader.ofBytes ((headerBytes off w h size).drop 14 ++ rest) =
      ⟨40, w, h, 1, 24, 0, size⟩ := by
  have hw : le32 ((headerBytes off w h size).drop 14 ++ rest) 4 = w.toUInt32 := by
    apply le32_of_bytes <;> rfl
  have hh : le32 ((headerBytes off w h size).drop 14 ++ rest) 8 = h.toUInt32 := by
    apply le32_of_bytes <;> rfl
  simp only [BitMapInfoHeader.ofBytes, hw, hh, BitMapInfoHeader.mk.injEq, UInt32.toInt32,
    true_and]
  refine ⟨?_, ?_, ?_, ?_, ?_⟩
  · apply le32_of_bytes <;> rfl
  · apply le16_of_bytes <;> rfl
  · apply le16_of_bytes <;> rfl
  · apply le32_of_bytes <;> rfl
  · apply le32_of_bytes <;> rfl

theorem BitMapInfoHeader.ofBytes_congr {a b : Bytes} (h : ∀ k < 40, byteAt a k = byteAt b k) :
    BitMapInfoHeader.ofBytes a = .ofBytes b := by
  have h32 : ∀ k < 37, le32 a k = le32 b k := by
    intro k hk
    rw [le32, le32, h k (by omega), h (k + 1) (by omega), h (k + 2) (by omega),
      h (k + 3) (by omega)]
  have h16 : ∀ k < 39, le16 a k = le16 b k := by
    intro k hk
    rw [le16, le16, h k (by omega), h (k + 1) (by omega)]
  simp [BitMapInfoHeader.ofBytes, h32, h16]

theorem readInfoHead_of_le {file : Bytes} (hlen : 54 ≤ file.length) (stack : Bytes) :
    readInfoHead file stack = .ofBytes (file.drop 14) := by
  have hgot : ((file.drop 14).take 40).length = 40 := by simp; omega
  refine BitMapInfoHeader.ofBytes_congr fun k hk ↦ ?_
  rw [byteAt_append_left (by omega), byteAt_take hk]

/-- A file cut off inside its headers, over a stack that holds their remaining
bytes, shows the same header. -/
theorem readInfoHead_take (off : UInt32) (w h : Int32) (size : UInt32) (rest : Bytes) (len : ℕ) :
    readInfoHead ((headerBytes off w h size ++ rest).take len)
      ((headerBytes off w h size).drop 14) = ⟨40, w, h, 1, 24, 0, size⟩ := by
  have hhead : ((headerBytes off w h size).drop 14).length = 40 := rfl
  have hgot : (((headerBytes off w h size ++ rest).take len).drop 14).take 40 =
      ((headerBytes off w h size).drop 14).take (len - 14) := by
    rw [List.drop_take, List.take_take, Nat.min_comm, ← List.take_take,
      List.drop_append_of_le_length (by simp), List.take_append_of_le_length (by omega)]
    rw [List.take_of_length_le (by omega : ((headerBytes off w h size).drop 14).length ≤ 40)]
  have hread : readInfoHead ((headerBytes off w h size ++ rest).take len)
      ((headerBytes off w h size).drop 14) =
        .ofBytes ((headerBytes off w h size).drop 14 ++ []) := by
    simp only [readInfoHead, hgot, List.append_nil]
    congr 1
    rcases Nat.le_total (len - 14) 40 with hle | hle
    · rw [List.length_take, hhead, Nat.min_eq_left hle, List.take_append_drop]
    · rw [List.take_of_length_le (by omega), List.drop_length, List.append_nil]
  rw [hread, infoHeader_headerBytes]

end EmbeddedSystem.Picture
