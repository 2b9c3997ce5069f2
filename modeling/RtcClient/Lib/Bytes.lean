import Mathlib.Algebra.Group.Int.Defs
import Mathlib.Algebra.GroupWithZero.Nat
import Mathlib.Data.List.Basic
import Mathlib.Order.Defs.Unbundled
/-!
# Bytes in memory

Byte strings are lists. A `Buffer` is what a pointer gives access to: the bytes
of the block it points into, and whatever the process has behind that block.
Writing into a block is `splice`. Numbers are stored big-endian (network order).
-/

namespace RtcClient.Lib

abbrev Bytes := List UInt8

/-- The order of `std::string`. -/
instance : IsStrictTotalOrder Bytes (· < ·) where
  trichotomous _ _ h h' := Std.le_antisymm (List.not_lt.1 h') (List.not_lt.1 h)
  irrefl := List.lt_irrefl
  trans _ _ _ := List.lt_trans

/-! ## Numbers as bytes -/

/-- The two bytes `htons` leaves in memory. -/
def be16 (n : Nat) : Bytes := [UInt8.ofNat (n / 256), UInt8.ofNat n]

/-- The four bytes `htonl` leaves in memory. -/
def be32 (n : Nat) : Bytes :=
  [UInt8.ofNat (n / 16777216), UInt8.ofNat (n / 65536), UInt8.ofNat (n / 256), UInt8.ofNat n]

/-- The value `ntohs` reads from two bytes. -/
def nat16 (a b : UInt8) : Nat := a.toNat * 256 + b.toNat

/-- The value `ntohl` reads from four bytes. -/
def nat32 (a b c d : UInt8) : Nat := nat16 a b * 65536 + nat16 c d

@[simp] theorem be16_length (n : Nat) : (be16 n).length = 2 := rfl

@[simp] theorem be32_length (n : Nat) : (be32 n).length = 4 := rfl

theorem nat16_be16 (n : Nat) : nat16 (UInt8.ofNat (n / 256)) (UInt8.ofNat n) = n % 65536 := by
  simp only [nat16, UInt8.toNat_ofNat']
  omega

theorem nat32_be32 (n : Nat) :
    nat32 (UInt8.ofNat (n / 16777216)) (UInt8.ofNat (n / 65536)) (UInt8.ofNat (n / 256)) (UInt8.ofNat n) =
      n % 4294967296 := by
  simp only [nat32, nat16, UInt8.toNat_ofNat']
  omega

/-- What holds of each of the 256 bytes holds of every byte. -/
theorem forall_byte {P : UInt8 → Prop} (h : ∀ n < 256, P (UInt8.ofNat n)) (b : UInt8) : P b := by
  have hb := h b.toNat b.toNat_lt
  rwa [UInt8.ofNat_toNat] at hb

/-- Conversion to a 32-bit `int`. -/
def int32 (x : Int) : Int := Int.bmod x (2 ^ 32)

theorem int32_of_lt {k : Nat} (h : k < 2 ^ 31) : int32 k = k := Int.bmod_eq_of_le (by omega) (by omega)

theorem int32_add_one (k : Int) : int32 (int32 k + 1) = int32 (k + 1) := Int.bmod_add_bmod

theorem int32_eq_iff (k : Nat) : int32 k = k ↔ k < 2 ^ 31 := by
  constructor
  · intro h
    have hlt : int32 k < 2 ^ 31 := Int.bmod_lt (by decide)
    omega
  · exact int32_of_lt

theorem int32_le (k : Nat) : int32 k ≤ k := by
  rw [int32, Int.bmod_def]
  split <;> omega

/-- `a - b` of type `size_t`. -/
def size_sub (a b : Nat) : Nat := if b ≤ a then a - b else 2 ^ 64 - (b - a)

theorem size_sub_eq {a b : Nat} (h : b ≤ a) : size_sub a b = a - b := if_pos h

/-! ## Buffers -/

/-- The memory behind a pointer: the `bytes` of its block, then `beyond`, the
memory a read past the block's end would see. -/
structure Buffer where
  bytes : Bytes
  beyond : Bytes := []
deriving DecidableEq, Repr

namespace Buffer

/-- A null pointer. -/
def null : Buffer := ⟨[], []⟩

/-- The byte at offset `i`, inside the block or past it. -/
def get (b : Buffer) (i : Nat) : UInt8 := (b.bytes ++ b.beyond).getD i 0

/-- The pointer advanced by `k`. -/
def advance (b : Buffer) (k : Nat) : Buffer := ⟨b.bytes.drop k, b.beyond.drop (k - b.bytes.length)⟩

/-- The `len` bytes from offset `off` on, as a `memcpy` reads them. -/
def read (b : Buffer) (off len : Nat) : Bytes := (List.range len).map (fun i => b.get (off + i))

/-- The 16-bit field at offset `i`. -/
def get16 (b : Buffer) (i : Nat) : Nat := nat16 (b.get i) (b.get (i + 1))

/-- The 32-bit field at offset `i`. -/
def get32 (b : Buffer) (i : Nat) : Nat := nat32 (b.get i) (b.get (i + 1)) (b.get (i + 2)) (b.get (i + 3))

@[simp] theorem read_length (b : Buffer) (off len : Nat) : (b.read off len).length = len := by
  simp [read]

theorem read_succ (b : Buffer) (i n : Nat) : b.read i (n + 1) = b.get i :: b.read (i + 1) n := by
  rw [read, List.range_succ_eq_map, List.map_cons, List.map_map, read]
  congr 1
  apply List.map_congr_left
  intro j _
  simp only [Function.comp_apply]
  congr 1
  omega

theorem read_add (b : Buffer) (off m n : Nat) : b.read off (m + n) = b.read off m ++ b.read (off + m) n := by
  rw [read, List.range_add, List.map_append, List.map_map, read, read]
  congr 1
  apply List.map_congr_left
  intro j _
  rw [Function.comp_apply, Nat.add_assoc]

theorem get_mem_read (b : Buffer) (off : Nat) {i len : Nat} (h : i < len) : b.get (off + i) ∈ b.read off len :=
  List.mem_map.2 ⟨i, List.mem_range.2 h, rfl⟩

theorem get_of_lt (b : Buffer) {i : Nat} (h : i < b.bytes.length) : b.get i = b.bytes[i] := by
  simp [get, List.getElem?_append_left h, List.getElem?_eq_getElem h]

/-- Inside the block a copy is a slice of the block's bytes. -/
theorem read_eq (b : Buffer) {off len : Nat} (h : off + len ≤ b.bytes.length) :
    b.read off len = (b.bytes.drop off).take len := by
  apply List.ext_getElem
  · simp only [read_length, List.length_take, List.length_drop]; omega
  · intro i h1 h2
    simp only [read_length] at h1
    simp only [read, List.getElem_map, List.getElem_range, List.getElem_take, List.getElem_drop]
    exact b.get_of_lt (by omega)

/-- What an advanced pointer shows. -/
theorem get_advance (b : Buffer) (k i : Nat) : (b.advance k).get i = b.get (k + i) := by
  simp only [get, advance, ← List.drop_append, List.getD_eq_getElem?_getD, List.getElem?_drop]

/-- Advancing past a prefix of the block. -/
theorem advance_append (a rest beyond : Bytes) : advance ⟨a ++ rest, beyond⟩ a.length = ⟨rest, beyond⟩ := by
  simp [advance]

end Buffer

/-! ## Writing -/

/-- A block of `n` bytes, as `new uint8_t[n]` gives it. -/
structure Block (n : Nat) where
  bytes : Bytes
  size : bytes.length = n

def Block.zeros (n : Nat) : Block n := ⟨.replicate n 0, by simp⟩

/-- What a block holds after `memcpy(l + off, bs, bs.length)`. Bytes copied past
its end are not its bytes. -/
def splice (l : Bytes) (off : Nat) (bs : Bytes) : Bytes :=
  (l.take off ++ bs ++ l.drop (off + bs.length)).take l.length

@[simp] theorem splice_length (l : Bytes) (off : Nat) (bs : Bytes) : (splice l off bs).length = l.length := by
  simp only [splice, List.length_append, List.length_take, List.length_drop]; omega

theorem splice_eq (l : Bytes) (off : Nat) (bs : Bytes) (h : off + bs.length ≤ l.length) :
    splice l off bs = l.take off ++ bs ++ l.drop (off + bs.length) := by
  rw [splice, List.take_of_length_le]
  simp only [List.length_append, List.length_take, List.length_drop]; omega

/-- After a copy to `off`, the block starts with its old first `off` bytes and
the copied ones. -/
theorem splice_take (l : Bytes) (off : Nat) (bs : Bytes) (h : off + bs.length ≤ l.length) :
    (splice l off bs).take (off + bs.length) = l.take off ++ bs := by
  have hlen : (l.take off ++ bs).length = off + bs.length := by
    simp only [List.length_append, List.length_take]; omega
  rw [splice_eq l off bs h, ← hlen, List.take_left]

/-- A copy leaves two blocks the same up to its end if they were the same up to its beginning. -/
theorem splice_take_congr {l l' : Bytes} {off n : Nat} (bs : Bytes) (hlen : l.length = l'.length)
    (h : l.take off = l'.take off) (hn : n ≤ off + bs.length) :
    (splice l off bs).take n = (splice l' off bs).take n := by
  have hwritten : min n l.length ≤ (l.take off ++ bs).length := by
    rw [List.length_append, List.length_take]
    omega
  unfold splice
  rw [List.take_take, List.take_take, ← hlen, ← h, List.take_append_of_le_length hwritten,
    List.take_append_of_le_length hwritten]

end RtcClient.Lib
