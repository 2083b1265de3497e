import UsbVault.Lib.FileBytes

/-!
# Typed arrays

Reads and writes of a `Uint8Array` at an offset. Reading past the end
gives `undefined`, which the bitwise operators take for zero; assigning
past the end is ignored; `set` past the end throws. Integers read from
bytes are doubles, so a 64-bit one is rounded to 53 bits.
-/

namespace Js

open Wire

/-- `buf[off] = bs[0]; buf[off + 1] = bs[1]; ...` -/
def store (buf : Bytes) (off : Nat) (bs : Bytes) : Bytes :=
  (pwrite buf off bs).take buf.length

/-- `buf.set(bs, off)`; `none` is its `RangeError`. -/
def set (buf : Bytes) (off : Nat) (bs : Bytes) : Option Bytes :=
  if off + bs.length ≤ buf.length then some (store buf off bs) else none

/-- `buf.slice(start, end)` -/
def slice (buf : Bytes) (start stop : Nat) : Bytes := pread buf start (stop - start)

/-- The little-endian integer in `n` bytes at `off`. -/
def readLE (n : Nat) (buf : Bytes) (off : Nat) : Nat := leNat (pread buf off n)

/-- The double nearest to a natural number, ties to even. -/
def number (n : Nat) : Nat :=
  if n < 2 ^ 53 then n
  else
    let unit := 2 ^ (Nat.log2 n - 52)
    let q := n / unit
    let r := n % unit
    if unit < 2 * r ∨ unit = 2 * r ∧ q % 2 = 1 then (q + 1) * unit else q * unit

/-! ## Laws -/

theorem number_of_le {n : Nat} (h : n ≤ 2 ^ 53) : number n = n := by
  rcases Nat.lt_or_eq_of_le h with hlt | rfl
  · exact if_pos hlt
  · decide

variable {buf bs : Bytes} {off : Nat}

theorem store_eq_pwrite (h : off + bs.length ≤ buf.length) :
    store buf off bs = pwrite buf off bs := by
  have hlen := pwrite_length bs (by omega : off ≤ buf.length)
  rw [store, List.take_of_length_le (by omega)]

@[simp] theorem store_length (h : off + bs.length ≤ buf.length) :
    (store buf off bs).length = buf.length := by
  rw [store_eq_pwrite h, pwrite_length bs (by omega)]
  omega

theorem pread_store_self (h : off + bs.length ≤ buf.length) :
    pread (store buf off bs) off bs.length = bs := by
  rw [store_eq_pwrite h, pread_pwrite_self bs (by omega)]

theorem pread_store_disjoint {o n : Nat} (h : off + bs.length ≤ buf.length)
    (hd : off + bs.length ≤ o ∨ o + n ≤ off) :
    pread (store buf off bs) o n = pread buf o n := by
  rw [store_eq_pwrite h, pread_pwrite_disjoint bs (by omega) hd]

/-- Assignments never change the length. -/
theorem length_store (buf : Bytes) (off : Nat) (bs : Bytes) :
    (store buf off bs).length = buf.length := by
  simp only [store, pwrite, gap, List.length_take, List.length_append, List.length_drop,
    zeros_length]
  split <;> simp_all <;> omega

/-- What stands before the offset stays, also when the write runs past the
end. -/
theorem take_store (buf : Bytes) (off : Nat) (bs : Bytes) :
    (store buf off bs).take off = buf.take off := by
  by_cases hbs : bs = []
  · rw [hbs, store, pwrite_nil, List.take_length]
  have hlen : min off buf.length ≤ ((buf ++ gap buf off bs).take off).length := by
    simp only [gap, if_neg hbs, List.length_take, List.length_append, zeros_length]
    omega
  have hmin : min (min off buf.length) off = min off buf.length := by omega
  rw [store, List.take_take, pwrite, List.append_assoc, List.take_append_of_le_length hlen,
    List.take_take, hmin, List.take_append_of_le_length (Nat.min_le_right _ _)]
  rcases Nat.le_total off buf.length with hle | hge
  · rw [Nat.min_eq_left hle]
  · rw [Nat.min_eq_right hge, List.take_length, List.take_of_length_le hge]

theorem pread_store_before {o n : Nat} (h : o + n ≤ off) :
    pread (store buf off bs) o n = pread buf o n :=
  pread_congr_take (take_store buf off bs) h

theorem set_of_le (h : off + bs.length ≤ buf.length) :
    set buf off bs = some (store buf off bs) := by
  rw [set, if_pos h]

/-- An integer written in its width reads back. -/
theorem readLE_store {n v : Nat} (h : off + n ≤ buf.length) (hv : v < 256 ^ n) :
    readLE n (store buf off (leBytes n v)) off = v := by
  have hself := @pread_store_self buf (leBytes n v) off
    (by rw [leBytes_length]; exact h)
  rw [leBytes_length] at hself
  rw [readLE, hself, leNat_leBytes hv]

/-! ## A buffer filled from the front -/

/-- A buffer of `n` bytes that holds the blocks one after another, and
zeros behind them. -/
def filled (n : Nat) (blocks : List Bytes) : Bytes :=
  blocks.flatten ++ zeros (n - blocks.flatten.length)

variable {n : Nat} {blocks : List Bytes}

theorem filled_nil (n : Nat) : filled n [] = zeros n := rfl

theorem filled_length (h : blocks.flatten.length ≤ n) : (filled n blocks).length = n := by
  rw [filled, List.length_append, zeros_length]
  omega

/-- A write behind the last block is one more block. -/
theorem store_filled (hoff : off = blocks.flatten.length) (hfit : off + bs.length ≤ n) :
    store (filled n blocks) off bs = filled n (blocks ++ [bs]) := by
  have hlen : (filled n blocks).length = n := filled_length (by omega)
  rw [store_eq_pwrite (by omega), pwrite_of_le bs (by omega), filled, hoff, List.take_left,
    filled, List.flatten_append, List.flatten_singleton, List.length_append, List.drop_append,
    List.drop_eq_nil_of_le (by omega), List.nil_append, zeros_drop]
  congr 2
  omega

theorem set_filled (hoff : off = blocks.flatten.length) (hfit : off + bs.length ≤ n) :
    set (filled n blocks) off bs = some (filled n (blocks ++ [bs])) := by
  have hlen : (filled n blocks).length = n := filled_length (by omega)
  rw [set_of_le (by omega), store_filled hoff hfit]

/-- Bytes passed over are a block of zeros. -/
theorem filled_skip (k : Nat) (hfit : blocks.flatten.length + k ≤ n) :
    filled n blocks = filled n (blocks ++ [zeros k]) := by
  have hsplit : zeros (n - blocks.flatten.length)
      = zeros k ++ zeros (n - (blocks.flatten.length + k)) := by
    rw [zeros, zeros, zeros, List.replicate_append_replicate]
    congr 1
    omega
  rw [filled, filled, List.flatten_append, List.flatten_singleton, List.length_append,
    zeros_length, hsplit, List.append_assoc]

/-- **A block reads back at its offset.** -/
theorem pread_filled (k : Nat) {b : Bytes} {m : Nat} (hk : blocks[k]? = some b)
    (hoff : off = (blocks.take k).flatten.length) (hm : m = b.length) :
    pread (filled n blocks) off m = b := by
  have hsplit : blocks = blocks.take k ++ b :: blocks.drop (k + 1) := by
    rw [List.getElem?_eq_some_iff] at hk
    obtain ⟨hlt, rfl⟩ := hk
    rw [List.getElem_cons_drop hlt, List.take_append_drop]
  have hflat : blocks.flatten
      = (blocks.take k).flatten ++ b ++ (blocks.drop (k + 1)).flatten := by
    conv_lhs => rw [hsplit]
    rw [List.flatten_append, List.flatten_cons, List.append_assoc]
  rw [filled, hflat, hoff, hm, List.append_assoc _ _ (zeros _), pread_append_middle]

/-- An integer block reads back. -/
theorem readLE_filled (k : Nat) {m v : Nat} (hk : blocks[k]? = some (leBytes m v))
    (hoff : off = (blocks.take k).flatten.length) (hv : v < 256 ^ m) :
    readLE m (filled n blocks) off = v := by
  rw [readLE, pread_filled k hk hoff (leBytes_length m v).symm, leNat_leBytes hv]

end Js
