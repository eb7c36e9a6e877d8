import Mathlib.Data.List.Basic
import Mathlib.Data.Nat.Bitwise
import Mathlib.Tactic.Common

/-!
# Sets of numbers packed into bytes

A list of bytes is a set of numbers below eight times its length: `t` belongs to it when bit `t % 8`
of byte `t / 8` is set.  Zeroed bytes are the empty set, and setting a bit inserts one number and
nothing else (`bit_insert`).

## Sets

Bytes that are the same set are the same bytes, if they are as many (`ext_bit`), so what is said of
a buffer may be said of the set that it is.  A buffer that has been filled by inserting numbers one
by one is the set of these numbers, in whatever order and however often they were inserted
(`bit_foldl_insert`); and a window of the bytes is a set of its own, with its numbers counted from
the window's first (`bit_window`).

A number whose byte is behind the last one does not belong to the set, and inserting it does
nothing.  So the lemmas about inserting ask for room, and those about asking do not.

## One row of bits

The last part lays the bits out in one row, the lowest of each byte first.  A reader that unpacks
bytes into such a row, and never divides, finds a number at its own place
(`getElem?_flatMap_byteBits`).
-/

namespace PackedBits

/-- Whether `t` belongs to the set. -/
def bit (bytes : List UInt8) (t : ℕ) : Bool := (bytes[t / 8]?.getD 0).toNat.testBit (t % 8)

/-- Inserts `t`. -/
def insert (bytes : List UInt8) (t : ℕ) : List UInt8 :=
  bytes.set (t / 8) (bytes[t / 8]?.getD 0 ||| 1 <<< UInt8.ofNat (t % 8))

@[simp] theorem length_insert (bytes : List UInt8) (t : ℕ) :
    (insert bytes t).length = bytes.length :=
  List.length_set

@[simp] theorem bit_zero (n t : ℕ) : bit (List.replicate n 0) t = false := by
  unfold bit
  rw [List.getElem?_replicate]
  split_ifs <;> exact Nat.zero_testBit _

/-- The byte with one bit. -/
theorem toNat_one_shiftLeft {k : ℕ} (hk : k < 8) :
    ((1 : UInt8) <<< UInt8.ofNat k).toNat = 2 ^ k :=
  (by decide : ∀ k < 8, ((1 : UInt8) <<< UInt8.ofNat k).toNat = 2 ^ k) k hk

theorem testBit_byte (byte : UInt8) {j k : ℕ} (hk : k < 8) :
    (byte ||| 1 <<< UInt8.ofNat k).toNat.testBit j = (byte.toNat.testBit j || decide (k = j)) := by
  rw [UInt8.toNat_or, Nat.testBit_or, toNat_one_shiftLeft hk, Nat.testBit_two_pow]

/-- **Inserting a number inserts that number only.** -/
theorem bit_insert {bytes : List UInt8} {t : ℕ} (ht : t / 8 < bytes.length) (u : ℕ) :
    bit (insert bytes t) u = (bit bytes u || decide (t = u)) := by
  unfold bit insert
  by_cases hbyte : t / 8 = u / 8
  · have hbits : t % 8 = u % 8 ↔ t = u := by omega
    rw [← hbyte, List.getElem?_set_self ht, Option.getD_some,
      testBit_byte _ (Nat.mod_lt t (by omega))]
    simp only [hbits]
  · have hne : t ≠ u := fun h => hbyte (h ▸ rfl)
    rw [List.getElem?_set_ne hbyte, decide_eq_false hne, Bool.or_false]

/-- The set after inserting the numbers of a list. -/
theorem bit_foldl_insert {bytes : List UInt8} {ts : List ℕ}
    (hts : ∀ t ∈ ts, t / 8 < bytes.length) (u : ℕ) :
    bit (ts.foldl insert bytes) u = true ↔ bit bytes u = true ∨ u ∈ ts := by
  induction ts generalizing bytes with
  | nil => simp
  | cons t ts ih =>
    have ht := hts t List.mem_cons_self
    have hrest : ∀ t' ∈ ts, t' / 8 < (insert bytes t).length := fun t' ht' => by
      rw [length_insert]
      exact hts t' (List.mem_cons_of_mem t ht')
    rw [List.foldl_cons, ih hrest, bit_insert ht, Bool.or_eq_true, decide_eq_true_iff,
      List.mem_cons, or_assoc]
    exact or_congr Iff.rfl (or_congr eq_comm Iff.rfl)

@[simp] theorem length_foldl_insert (bytes : List UInt8) (ts : List ℕ) :
    (ts.foldl insert bytes).length = bytes.length := by
  induction ts generalizing bytes with
  | nil => rfl
  | cons t ts ih => rw [List.foldl_cons, ih, length_insert]

/-- The set that a window of the bytes is. -/
theorem bit_window (bytes : List UInt8) {start width t : ℕ} (ht : t < 8 * width) :
    bit ((bytes.drop start).take width) t = bit bytes (8 * start + t) := by
  have hbyte : (8 * start + t) / 8 = start + t / 8 := by omega
  have hoffset : (8 * start + t) % 8 = t % 8 := by omega
  rw [bit, bit, hbyte, hoffset, List.getElem?_take_of_lt (by omega), List.getElem?_drop]

/-- **Bytes that are the same set are the same.** -/
theorem ext_bit {bytes bytes' : List UInt8} (hlength : bytes.length = bytes'.length)
    (h : ∀ t < 8 * bytes.length, bit bytes t = bit bytes' t) : bytes = bytes' := by
  refine List.ext_getElem hlength fun i hi hi' => ?_
  rw [← UInt8.toNat_inj]
  apply Nat.eq_of_testBit_eq
  intro k
  by_cases hk : k < 8
  · have hbit := h (8 * i + k) (by omega)
    have hbyte : (8 * i + k) / 8 = i := by omega
    have hoffset : (8 * i + k) % 8 = k := by omega
    rwa [bit, bit, hbyte, hoffset, List.getElem?_eq_getElem hi,
      List.getElem?_eq_getElem hi'] at hbit
  · have hsmall : ∀ byte : UInt8, byte.toNat.testBit k = false := fun byte =>
      Nat.testBit_lt_two_pow (byte.toNat_lt.trans_le
        (Nat.pow_le_pow_right Nat.two_pos (Nat.not_lt.mp hk)))
    rw [hsmall, hsmall]

/-! ## The bits of the bytes, one behind the other -/

/-- The eight bits of a byte, the lowest first. -/
def byteBits (byte : UInt8) : List Bool := (List.range 8).map byte.toNat.testBit

@[simp] theorem length_byteBits (byte : UInt8) : (byteBits byte).length = 8 := by
  rw [byteBits, List.length_map, List.length_range]

@[simp] theorem length_flatMap_byteBits (bytes : List UInt8) :
    (bytes.flatMap byteBits).length = 8 * bytes.length := by
  induction bytes with
  | nil => rfl
  | cons byte bytes ih =>
    rw [List.flatMap_cons, List.length_append, length_byteBits, ih, List.length_cons]
    omega

/-- **A number is in the set when its bit is set** in the row of all bits. -/
theorem getElem?_flatMap_byteBits {bytes : List UInt8} {t : ℕ} (ht : t < 8 * bytes.length) :
    (bytes.flatMap byteBits)[t]? = some (bit bytes t) := by
  induction bytes generalizing t with
  | nil => exact absurd ht (Nat.not_lt_zero t)
  | cons byte bytes ih =>
    rw [List.flatMap_cons]
    by_cases hbyte : t < 8
    · have hzero : t / 8 = 0 := by omega
      have hself : t % 8 = t := by omega
      rw [List.getElem?_append_left (by rw [length_byteBits]; exact hbyte), bit, hzero, hself,
        byteBits, List.getElem?_map, List.getElem?_range hbyte]
      rfl
    · have hbytes : t / 8 = (t - 8) / 8 + 1 := by omega
      have hbits : (t - 8) % 8 = t % 8 := by omega
      rw [List.getElem?_append_right (by rw [length_byteBits]; omega), length_byteBits,
        ih (by rw [List.length_cons] at ht; omega), bit, bit, hbytes, List.getElem?_cons_succ,
        hbits]

end PackedBits
