import UsbVault.Lib.Bytes

/-!
# Files as byte strings

Positional reads and writes on the content of a regular file. A write
past the end fills the gap with zeros, a write of nothing changes
nothing, and a read returns what the file has in the range.

The laws are the usual two: the written range reads back
(`pread_pwrite_self`), a disjoint range is unchanged
(`pread_pwrite_disjoint`); two writes in a row are one write of both
(`pwrite_pwrite`).
-/

namespace Wire

/-- The bytes of `f` in `[off, off + len)`, fewer at the end of the file. -/
def pread (f : Bytes) (off len : Nat) : Bytes := (f.drop off).take len

/-- The zeros a write at `off` puts between the end of `f` and `off`. -/
def gap (f : Bytes) (off : Nat) (bs : Bytes) : Bytes :=
  zeros (if bs = [] then 0 else off - f.length)

/-- The content of `f` after writing `bs` at `off`. -/
def pwrite (f : Bytes) (off : Nat) (bs : Bytes) : Bytes :=
  (f ++ gap f off bs).take off ++ bs ++ f.drop (off + bs.length)

/-! ## Reads -/

@[simp] theorem pread_length (f : Bytes) (off len : Nat) :
    (pread f off len).length = min len (f.length - off) := by
  rw [pread, List.length_take, List.length_drop]

theorem pread_length_of_le {f : Bytes} {off len : Nat}
    (h : off + len ≤ f.length) : (pread f off len).length = len := by
  rw [pread_length]
  omega

/-- A read inside the left part does not see what is appended. -/
theorem pread_append_left {f : Bytes} {off len : Nat} (g : Bytes)
    (h : off + len ≤ f.length) : pread (f ++ g) off len = pread f off len := by
  have hlen : len ≤ (f.drop off).length := by
    rw [List.length_drop]
    omega
  rw [pread, pread, List.drop_append_of_le_length (by omega),
    List.take_append_of_le_length hlen]

/-- A read of the appended part. -/
theorem pread_append_right (f g : Bytes) : pread (f ++ g) f.length g.length = g := by
  rw [pread, List.drop_left, List.take_length]

/-- A read inside the middle of three parts. -/
theorem pread_append_middle (f g h : Bytes) :
    pread (f ++ g ++ h) f.length g.length = g := by
  rw [pread_append_left h (by rw [List.length_append]), pread_append_right]

/-- A read inside a read. -/
theorem pread_pread {f : Bytes} {a n b m : Nat} (h : b + m ≤ n) :
    pread (pread f a n) b m = pread f (a + b) m := by
  rw [pread, pread, pread, List.drop_take, List.take_take, List.drop_drop,
    Nat.min_eq_left (by omega)]

/-- Files that agree on a range agree on its parts. -/
theorem pread_congr_range {f f' : Bytes} {a n o m : Nat}
    (h : pread f a n = pread f' a n) (ho : a ≤ o) (hm : o + m ≤ a + n) :
    pread f o m = pread f' o m := by
  have hoff : a + (o - a) = o := by omega
  rw [← hoff, ← pread_pread (n := n) (by omega), h, pread_pread (by omega)]

/-- A read above `k` is a read of the rest. -/
theorem pread_drop {f : Bytes} {k off : Nat} (len : Nat) (h : k ≤ off) :
    pread f off len = pread (f.drop k) (off - k) len := by
  have hoff : k + (off - k) = off := by omega
  rw [pread, pread, List.drop_drop, hoff]

/-- Reads agree on files that agree from `k` on. -/
theorem pread_congr_drop {f f' : Bytes} {k off : Nat} (len : Nat)
    (h : f.drop k = f'.drop k) (hk : k ≤ off) :
    pread f off len = pread f' off len := by
  rw [pread_drop len hk, pread_drop len hk, h]

/-- Reads agree on files that agree below `k`. -/
theorem pread_congr_take {f f' : Bytes} {k off len : Nat}
    (h : f.take k = f'.take k) (hk : off + len ≤ k) :
    pread f off len = pread f' off len := by
  have hread : ∀ g : Bytes, pread g off len = pread (g.take k) off len := by
    intro g
    rw [pread, pread, List.drop_take, List.take_take, Nat.min_eq_left (by omega)]
  rw [hread f, hread f', h]

/-! ## Writes -/

theorem pwrite_of_le {f : Bytes} {off : Nat} (bs : Bytes) (h : off ≤ f.length) :
    pwrite f off bs = f.take off ++ bs ++ f.drop (off + bs.length) := by
  rw [pwrite, List.take_append_of_le_length h]

@[simp] theorem pwrite_nil (f : Bytes) (off : Nat) : pwrite f off [] = f := by
  simp [pwrite, gap, zeros]

theorem pwrite_length {f : Bytes} {off : Nat} (bs : Bytes) (h : off ≤ f.length) :
    (pwrite f off bs).length = max f.length (off + bs.length) := by
  rw [pwrite_of_le bs h]
  simp only [List.length_append, List.length_take, List.length_drop]
  omega

/-- A write at the end of the file appends. -/
theorem pwrite_end (f bs : Bytes) : pwrite f f.length bs = f ++ bs := by
  rw [pwrite_of_le bs (Nat.le_refl _), List.take_length,
    List.drop_eq_nil_of_le (by omega), List.append_nil]

theorem pwrite_take {f : Bytes} {off : Nat} (bs : Bytes) (h : off ≤ f.length) :
    (pwrite f off bs).take off = f.take off := by
  have hlen : (f.take off).length = off := by
    rw [List.length_take]
    omega
  rw [pwrite_of_le bs h, List.append_assoc]
  exact List.take_left' hlen

theorem pwrite_drop {f : Bytes} {off : Nat} (bs : Bytes) (h : off ≤ f.length) :
    (pwrite f off bs).drop (off + bs.length) = f.drop (off + bs.length) := by
  have hlen : (f.take off ++ bs).length = off + bs.length := by
    rw [List.length_append, List.length_take]
    omega
  rw [pwrite_of_le bs h]
  exact List.drop_left' hlen

/-- **The written range reads back.** -/
theorem pread_pwrite_self {f : Bytes} {off : Nat} (bs : Bytes)
    (h : off ≤ f.length) : pread (pwrite f off bs) off bs.length = bs := by
  have hlen : (f.take off).length = off := by
    rw [List.length_take]
    omega
  have hmid := pread_append_middle (f.take off) bs (f.drop (off + bs.length))
  rwa [hlen, ← pwrite_of_le bs h] at hmid

/-- **A range the write does not meet reads as before.** -/
theorem pread_pwrite_disjoint {f : Bytes} {off o len : Nat} (bs : Bytes)
    (h : off ≤ f.length) (hd : off + bs.length ≤ o ∨ o + len ≤ off) :
    pread (pwrite f off bs) o len = pread f o len := by
  rcases hd with hafter | hbefore
  · exact pread_congr_drop len (pwrite_drop bs h) hafter
  · exact pread_congr_take (pwrite_take bs h) hbefore

/-- Two writes in a row are one write of both. -/
theorem pwrite_pwrite {f : Bytes} {off : Nat} (bs cs : Bytes)
    (h : off ≤ f.length) :
    pwrite (pwrite f off bs) (off + bs.length) cs = pwrite f off (bs ++ cs) := by
  have hfit : off + bs.length ≤ (pwrite f off bs).length := by
    rw [pwrite_length bs h]
    omega
  have htake : (pwrite f off bs).take (off + bs.length) = f.take off ++ bs := by
    rw [pwrite_of_le bs h]
    apply List.take_left'
    rw [List.length_append, List.length_take]
    omega
  have hdrop : (pwrite f off bs).drop (off + bs.length + cs.length)
      = f.drop (off + bs.length + cs.length) := by
    rw [← List.drop_drop, pwrite_drop bs h, List.drop_drop]
  rw [pwrite_of_le cs hfit, htake, hdrop, pwrite_of_le (bs ++ cs) h,
    List.length_append, Nat.add_assoc]
  simp only [List.append_assoc]

end Wire
