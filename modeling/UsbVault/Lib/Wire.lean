import UsbVault.Lib.Bytes

/-!
# Wire

Offset-based parsing and serialising, and the rules that relate the two.

A `Reader` walks an input with a running offset (`Cursor`); a `Writer`
fills a buffer of fixed size with a running offset (`Buffer`) and stops
(`none`, an index panic) when a field does not fit. Both sides keep
their own offset, so the rules below speak about what is left instead:

* `Yields p s s' a`: on remaining input `s` the reader returns `a` and
  leaves `s'`;
* `Ensures p P`: whatever the reader returns satisfies `P`;
* `Consumes p n`: the reader takes at least `n` bytes;
* `Emits w bs`: the writer appends exactly `bs` when it fits and panics
  when it does not.

A format's reader and writer are then compared field by field: the
`bind` rules chain the field facts, and no offset appears again.
-/

namespace Wire

/-! ## Readers -/

/-- A read position. The position never runs past the input. -/
structure Cursor where
  data : Bytes
  offset : Nat
  inBounds : offset ≤ data.length

/-- The start of an input. -/
def Cursor.start (data : Bytes) : Cursor := ⟨data, 0, Nat.zero_le _⟩

/-- What is still to be read. -/
def Cursor.rest (c : Cursor) : Bytes := c.data.drop c.offset

@[simp] theorem Cursor.start_rest (data : Bytes) :
    (Cursor.start data).rest = data := rfl

theorem Cursor.rest_length (c : Cursor) :
    c.rest.length = c.data.length - c.offset :=
  List.length_drop

/-- `offset + n <= data.len()`, in terms of what is left. -/
theorem Cursor.room_iff (c : Cursor) (n : Nat) :
    c.offset + n ≤ c.data.length ↔ n ≤ c.rest.length := by
  have := c.inBounds
  rw [c.rest_length]
  omega

abbrev Reader (ε α : Type) := StateT Cursor (Except ε) α

variable {ε α β : Type}

/-- `data.get(offset..offset + n)`, failing with `e` on overrun. -/
def take (e : ε) (n : Nat) : Reader ε Bytes := fun c =>
  if h : c.offset + n ≤ c.data.length then
    .ok (c.rest.take n, ⟨c.data, c.offset + n, h⟩)
  else .error e

/-- `take` into a fixed array. -/
def takeVec (e : ε) (n : Nat) : Reader ε (ByteVec n) := fun c =>
  if h : c.offset + n ≤ c.data.length then
    .ok (⟨c.rest.take n, by
        rw [List.length_take, Nat.min_eq_left ((c.room_iff n).mp h)]⟩,
      ⟨c.data, c.offset + n, h⟩)
  else .error e

/-- `data.get(offset..offset + n)`: the slice when it is there, nothing
(and no advance) when it is not. -/
def takeAvailable (n : Nat) : Reader ε (Option Bytes) := fun c =>
  if h : c.offset + n ≤ c.data.length then
    .ok (some (c.rest.take n), ⟨c.data, c.offset + n, h⟩)
  else .ok (none, c)

/-- `offset + n <= data.len()`. -/
def hasRoom (n : Nat) : Reader ε Bool := fun c =>
  .ok (decide (c.offset + n ≤ c.data.length), c)

/-- `data.get(offset)`, without advancing. -/
def peek : Reader ε (Option UInt8) := fun c => .ok (c.rest.head?, c)

/-- Stop with an error. -/
def fail (e : ε) : Reader ε α := fun _ => .error e

/-- Lift a fallible conversion into the reader. -/
def lift (x : Except ε α) : Reader ε α := fun c =>
  match x with
  | .ok a => .ok (a, c)
  | .error e => .error e

def readU8 (e : ε) : Reader ε UInt8 := do
  let b ← take e 1
  return b.headD 0

def readU16le (e : ε) : Reader ε UInt16 := do
  let b ← take e 2
  return u16OfLe b

def readU32le (e : ε) : Reader ε UInt32 := do
  let b ← take e 4
  return u32OfLe b

def readU64le (e : ε) : Reader ε UInt64 := do
  let b ← take e 8
  return u64OfLe b

/-! ### What a reader returns -/

/-- On remaining input `s` the reader returns `a` and leaves `s'`,
whatever has been read before. -/
def Yields (p : Reader ε α) (s s' : Bytes) (a : α) : Prop :=
  ∀ c : Cursor, c.rest = s → ∃ c', p c = .ok (a, c') ∧ c'.rest = s'

theorem Yields.pure (a : α) (s : Bytes) :
    Yields (pure a : Reader ε α) s s a :=
  fun c hc => ⟨c, rfl, hc⟩

/-- **Sequencing**: the second reader starts where the first stopped. -/
theorem Yields.bind {p : Reader ε α} {f : α → Reader ε β}
    {s s' s'' : Bytes} {a : α} {b : β} (hp : Yields p s s' a)
    (hf : Yields (f a) s' s'' b) : Yields (p >>= f) s s'' b := by
  intro c hc
  obtain ⟨c', hpc, hc'⟩ := hp c hc
  obtain ⟨c'', hfc, hc''⟩ := hf c' hc'
  refine ⟨c'', ?_, hc''⟩
  show (p c >>= fun r => f r.1 r.2) = _
  rw [hpc]
  exact hfc

/-- A sequence that returned went through what its first part yields. -/
theorem Yields.of_bind_ok {p : Reader ε α} {f : α → Reader ε β} {s s' : Bytes}
    {a : α} {c c'' : Cursor} {b : β} (hp : Yields p s s' a) (hc : c.rest = s)
    (h : (p >>= f) c = .ok (b, c'')) :
    ∃ c', c'.rest = s' ∧ f a c' = .ok (b, c'') := by
  obtain ⟨c', hpc, hc'⟩ := hp c hc
  change (p c >>= fun r => f r.1 r.2) = _ at h
  rw [hpc] at h
  exact ⟨c', hc', h⟩

/-- A sequence that returned lifted a conversion that succeeded. -/
theorem lift_bind_ok {x : Except ε α} {f : α → Reader ε β} {c c'' : Cursor}
    {b : β} (h : (lift x >>= f) c = .ok (b, c'')) :
    ∃ a, x = .ok a ∧ f a c = .ok (b, c'') := by
  cases x with
  | error e => cases h
  | ok a => exact ⟨a, rfl, h⟩

/-- A sequence that returned: what each part returned. -/
theorem reader_bind_ok {p : Reader ε α} {f : α → Reader ε β} {c c'' : Cursor}
    {b : β} (h : (p >>= f) c = .ok (b, c'')) :
    ∃ a c', p c = .ok (a, c') ∧ f a c' = .ok (b, c'') := by
  change (p c >>= fun r => f r.1 r.2) = _ at h
  cases hpc : p c with
  | error e => rw [hpc] at h; cases h
  | ok r =>
    rw [hpc] at h
    exact ⟨r.1, r.2, rfl, h⟩

theorem yields_take (e : ε) {n : Nat} {bs : Bytes} (hlen : bs.length = n)
    (s : Bytes) : Yields (take e n) (bs ++ s) s bs := by
  intro c hc
  have hroom : c.offset + n ≤ c.data.length :=
    (c.room_iff _).mpr (by rw [hc, List.length_append]; omega)
  refine ⟨⟨c.data, c.offset + n, hroom⟩, ?_, ?_⟩
  · rw [take, dif_pos hroom, hc, List.take_left' hlen]
  · rw [Cursor.rest, ← List.drop_drop, ← Cursor.rest, hc, List.drop_left' hlen]

theorem yields_takeVec (e : ε) {n : Nat} (v : ByteVec n) (s : Bytes) :
    Yields (takeVec e n) (v.toList ++ s) s v := by
  intro c hc
  have hv : v.toList.length = n := v.toList_length
  have hroom : c.offset + n ≤ c.data.length :=
    (c.room_iff _).mpr (by rw [hc, List.length_append]; omega)
  refine ⟨⟨c.data, c.offset + n, hroom⟩, ?_, ?_⟩
  · rw [takeVec, dif_pos hroom]
    congr 2
    apply List.Vector.toList_injective
    show c.rest.take n = v.toList
    rw [hc, List.take_left' hv]
  · rw [Cursor.rest, ← List.drop_drop, ← Cursor.rest, hc, List.drop_left' hv]

theorem yields_takeAvailable {n : Nat} {bs : Bytes} (hlen : bs.length = n)
    (s : Bytes) :
    Yields (takeAvailable n : Reader ε _) (bs ++ s) s (some bs) := by
  intro c hc
  have hroom : c.offset + n ≤ c.data.length :=
    (c.room_iff _).mpr (by rw [hc, List.length_append]; omega)
  refine ⟨⟨c.data, c.offset + n, hroom⟩, ?_, ?_⟩
  · rw [takeAvailable, dif_pos hroom, hc, List.take_left' hlen]
  · rw [Cursor.rest, ← List.drop_drop, ← Cursor.rest, hc, List.drop_left' hlen]

theorem yields_hasRoom {n : Nat} {s : Bytes} (h : n ≤ s.length) :
    Yields (hasRoom n : Reader ε Bool) s s true := by
  intro c hc
  have hroom : c.offset + n ≤ c.data.length :=
    (c.room_iff n).mpr (by rw [hc]; exact h)
  exact ⟨c, by rw [hasRoom, decide_eq_true hroom], hc⟩

theorem yields_hasRoom_short {n : Nat} {s : Bytes} (h : s.length < n) :
    Yields (hasRoom n : Reader ε Bool) s s false := by
  intro c hc
  have hroom : ¬c.offset + n ≤ c.data.length := by
    rw [c.room_iff n, hc]
    omega
  exact ⟨c, by rw [hasRoom, decide_eq_false hroom], hc⟩

theorem yields_peek (b : UInt8) (s : Bytes) :
    Yields (peek : Reader ε _) (b :: s) (b :: s) (some b) :=
  fun c hc => ⟨c, by rw [peek, hc, List.head?_cons], hc⟩

theorem yields_lift {x : Except ε α} {a : α} (h : x = .ok a) (s : Bytes) :
    Yields (lift x) s s a :=
  fun c hc => ⟨c, by rw [h]; rfl, hc⟩

theorem yields_readU8 (e : ε) (b : UInt8) (s : Bytes) :
    Yields (readU8 e) (b :: s) s b :=
  have hone : [b].length = 1 := rfl
  (yields_take e hone s).bind (Yields.pure b s)

theorem yields_readU16le (e : ε) (x : UInt16) (s : Bytes) :
    Yields (readU16le e) (u16le x ++ s) s x :=
  (yields_take e (u16le_length x) s).bind
    (by rw [u16OfLe_u16le]; exact Yields.pure x s)

theorem yields_readU32le (e : ε) (x : UInt32) (s : Bytes) :
    Yields (readU32le e) (u32le x ++ s) s x :=
  (yields_take e (u32le_length x) s).bind
    (by rw [u32OfLe_u32le]; exact Yields.pure x s)

theorem yields_readU64le (e : ε) (x : UInt64) (s : Bytes) :
    Yields (readU64le e) (u64le x ++ s) s x :=
  (yields_take e (u64le_length x) s).bind
    (by rw [u64OfLe_u64le]; exact Yields.pure x s)

/-! ### What a reader makes of an input -/

/-- A sequence whose first part returned goes on from there. -/
theorem bind_of_ok {p : Reader ε α} {f : α → Reader ε β} {c c' : Cursor} {a : α}
    (h : p c = .ok (a, c')) : (p >>= f) c = f a c' := by
  show (p c >>= fun r => f r.1 r.2) = _
  rw [h]
  rfl

/-- On remaining input `s` the reader does as `r` does: it returns the same
and leaves `s'`, or fails with the same. -/
def Follows (p : Reader ε α) (s s' : Bytes) (r : Except ε α) : Prop :=
  ∀ c : Cursor, c.rest = s →
    match r with
    | .ok a => ∃ c', p c = .ok (a, c') ∧ c'.rest = s'
    | .error e => p c = .error e

theorem Yields.follows {p : Reader ε α} {s s' : Bytes} {a : α} (hp : Yields p s s' a) :
    Follows p s s' (.ok a) := hp

/-- **Sequencing** behind a part that returns. -/
theorem Yields.bind_follows {p : Reader ε α} {f : α → Reader ε β} {s s' s'' : Bytes} {a : α}
    {r : Except ε β} (hp : Yields p s s' a) (hf : Follows (f a) s' s'' r) :
    Follows (p >>= f) s s'' r := by
  intro c hc
  obtain ⟨c', hpc, hc'⟩ := hp c hc
  rw [bind_of_ok hpc]
  exact hf c' hc'

theorem follows_lift (x : Except ε α) (s : Bytes) : Follows (lift x) s s x := by
  intro c hc
  cases x with
  | ok a => exact ⟨c, rfl, hc⟩
  | error e => rfl

/-- **Sequencing**, also when the first part fails. -/
theorem Follows.bind {p : Reader ε α} {f : α → Reader ε β} {s s' s'' : Bytes}
    {r : Except ε α} {g : α → Except ε β} (hp : Follows p s s' r)
    (hf : ∀ a, Follows (f a) s' s'' (g a)) : Follows (p >>= f) s s'' (r >>= g) := by
  intro c hc
  have hfirst := hp c hc
  cases r with
  | error e => exact (congrArg (fun x => x >>= fun y => f y.1 y.2) hfirst :)
  | ok a =>
    obtain ⟨c', hpc, hc'⟩ := hfirst
    rw [bind_of_ok hpc]
    exact hf a c' hc'

/-- A whole input, read from its start. -/
theorem Follows.start {p : Reader ε α} {s s' : Bytes} {r : Except ε α}
    (hp : Follows p s s' r) : (p (Cursor.start s)).map Prod.fst = r := by
  have h := hp (Cursor.start s) rfl
  cases r with
  | error e => rw [h]; rfl
  | ok a =>
    obtain ⟨c', hpc, -⟩ := h
    rw [hpc]
    rfl

/-! ### What holds of everything a reader returns -/

/-- Every value the reader can return satisfies `P`. -/
def Ensures (p : Reader ε α) (P : α → Prop) : Prop :=
  ∀ c a c', p c = .ok (a, c') → P a

theorem Ensures.trivial (p : Reader ε α) : Ensures p (fun _ => True) :=
  fun _ _ _ _ => True.intro

theorem Ensures.pure {P : α → Prop} {a : α} (h : P a) :
    Ensures (pure a : Reader ε α) P := by
  intro c b c' hb
  cases hb
  exact h

theorem Ensures.bind {p : Reader ε α} {f : α → Reader ε β} {P : α → Prop}
    {Q : β → Prop} (hp : Ensures p P) (hf : ∀ a, P a → Ensures (f a) Q) :
    Ensures (p >>= f) Q := by
  intro c b c'' h
  change (p c >>= fun r => f r.1 r.2) = _ at h
  cases hpc : p c with
  | error e => rw [hpc] at h; cases h
  | ok r =>
    rw [hpc] at h
    exact hf r.1 (hp c r.1 r.2 hpc) r.2 b c'' h

/-- Sequencing when nothing is needed about the first result. -/
theorem Ensures.bind' {p : Reader ε α} {f : α → Reader ε β} {Q : β → Prop}
    (hf : ∀ a, Ensures (f a) Q) : Ensures (p >>= f) Q :=
  (Ensures.trivial p).bind fun a _ => hf a

theorem Ensures.ite {p q : Reader ε α} {P : α → Prop} (b : Prop)
    [Decidable b] (hp : b → Ensures p P) (hq : ¬b → Ensures q P) :
    Ensures (if b then p else q) P := by
  by_cases hb : b
  · rw [if_pos hb]; exact hp hb
  · rw [if_neg hb]; exact hq hb

theorem ensures_lift (x : Except ε α) : Ensures (lift x) (fun a => x = .ok a) := by
  intro c a c' h
  cases x with
  | error e => cases h
  | ok b => cases h; rfl

theorem ensures_take (e : ε) (n : Nat) :
    Ensures (take e n) (fun bs => bs.length = n) := by
  intro c bs c' h
  rw [take] at h
  split at h
  · rename_i hroom
    cases h
    rw [List.length_take, Nat.min_eq_left ((c.room_iff n).mp hroom)]
  · cases h

theorem ensures_takeAvailable (n : Nat) :
    Ensures (takeAvailable n : Reader ε _)
      (fun r => ∀ bs, r = some bs → bs.length = n) := by
  intro c r c' h bs hr
  rw [takeAvailable] at h
  split at h
  · rename_i hroom
    cases h
    cases hr
    rw [List.length_take, Nat.min_eq_left ((c.room_iff n).mp hroom)]
  · cases h
    cases hr

/-! ### How much a reader takes -/

/-- The reader takes at least `n` bytes off what is left. -/
def Consumes (p : Reader ε α) (n : Nat) : Prop :=
  ∀ c a c', p c = .ok (a, c') → c'.rest.length + n ≤ c.rest.length

theorem Consumes.pure (a : α) : Consumes (pure a : Reader ε α) 0 := by
  intro c b c' h
  cases h
  exact Nat.le_refl _

theorem Consumes.bind {p : Reader ε α} {f : α → Reader ε β} {n m : Nat}
    (hp : Consumes p n) (hf : ∀ a, Consumes (f a) m) :
    Consumes (p >>= f) (n + m) := by
  intro c b c'' h
  change (p c >>= fun r => f r.1 r.2) = _ at h
  cases hpc : p c with
  | error e => rw [hpc] at h; cases h
  | ok r =>
    rw [hpc] at h
    have hfirst := hp c r.1 r.2 hpc
    have hsecond := hf r.1 r.2 b c'' h
    omega

theorem Consumes.mono {p : Reader ε α} {n m : Nat} (hp : Consumes p n)
    (hle : m ≤ n) : Consumes p m := by
  intro c a c' h
  have := hp c a c' h
  omega

theorem consumes_fail (e : ε) (n : Nat) : Consumes (fail e : Reader ε α) n := by
  intro c a c' h
  cases h

theorem consumes_lift (x : Except ε α) : Consumes (lift x) 0 := by
  intro c a c' h
  cases x with
  | error e => cases h
  | ok b => cases h; exact Nat.le_refl _

theorem consumes_take (e : ε) (n : Nat) : Consumes (take e n) n := by
  intro c bs c' h
  rw [take] at h
  split at h
  · rename_i hroom
    cases h
    simp only [Cursor.rest_length]
    omega
  · cases h

theorem consumes_readU8 (e : ε) : Consumes (readU8 e) 1 :=
  (consumes_take e 1).bind fun _ => .pure _

theorem consumes_readU32le (e : ε) : Consumes (readU32le e) 4 :=
  (consumes_take e 4).bind fun _ => .pure _

theorem consumes_readU64le (e : ε) : Consumes (readU64le e) 8 :=
  (consumes_take e 8).bind fun _ => .pure _

/-! ## Writers -/

/-- An output buffer of fixed size with a write position. -/
structure Buffer where
  data : Bytes
  offset : Nat

abbrev Writer (α : Type) := StateT Buffer Option α

/-- `data[offset..offset + bs.len()].copy_from_slice(bs)` followed by
`offset += bs.len()`; `none` is the index panic. -/
def put (bs : Bytes) : Writer Unit := fun b =>
  if b.offset + bs.length ≤ b.data.length then
    some ((), ⟨b.data.take b.offset ++ bs ++ b.data.drop (b.offset + bs.length),
      b.offset + bs.length⟩)
  else none

/-- `data[offset] = x` followed by `offset += 1`. -/
def putU8 (x : UInt8) : Writer Unit := put [x]

/-- The writer appends exactly `bs` after what is written so far when it
fits, leaves the space behind it alone, and panics when it does not. -/
def Emits (w : Writer Unit) (bs : Bytes) : Prop :=
  ∀ done free : Bytes, w ⟨done ++ free, done.length⟩
    = if bs.length ≤ free.length then
        some ((), ⟨(done ++ bs) ++ free.drop bs.length, (done ++ bs).length⟩)
      else none

theorem emits_put (bs : Bytes) : Emits (put bs) bs := by
  intro done free
  simp only [put, List.length_append, Nat.add_le_add_iff_left, List.take_left,
    List.drop_append, List.drop_of_length_le, Nat.add_sub_cancel_left,
    Nat.le_add_right, List.nil_append]

theorem emits_putU8 (x : UInt8) : Emits (putU8 x) [x] := emits_put [x]

theorem Emits.pure : Emits (Pure.pure ()) [] := by
  intro done free
  simp only [List.length_nil, Nat.zero_le, if_true, List.append_nil,
    List.drop_zero]
  rfl

/-- **Sequencing**: the two outputs are appended, and the pair fits
exactly when each part does. -/
theorem Emits.bind {w : Writer Unit} {f : Unit → Writer Unit}
    {bs bs' : Bytes} (hw : Emits w bs) (hf : Emits (f ()) bs') :
    Emits (w >>= f) (bs ++ bs') := by
  intro done free
  show (w ⟨done ++ free, done.length⟩ >>= fun r => f r.1 r.2) = _
  rw [hw done free]
  by_cases hfit : bs.length ≤ free.length
  · rw [if_pos hfit]
    show f () ⟨(done ++ bs) ++ free.drop bs.length, (done ++ bs).length⟩ = _
    rw [hf (done ++ bs) (free.drop bs.length)]
    have hiff : bs'.length ≤ (free.drop bs.length).length
        ↔ (bs ++ bs').length ≤ free.length := by
      rw [List.length_drop, List.length_append]
      omega
    simp only [hiff, List.append_assoc, List.drop_drop, List.length_append]
  · have hno : ¬(bs ++ bs').length ≤ free.length := by
      rw [List.length_append]
      omega
    rw [if_neg hfit, if_neg hno]
    rfl

theorem Emits.ite {w w' : Writer Unit} {bs bs' : Bytes} (b : Prop)
    [Decidable b] (hw : Emits w bs) (hw' : Emits w' bs') :
    Emits (if b then w else w') (if b then bs else bs') := by
  by_cases hb : b
  · rw [if_pos hb, if_pos hb]; exact hw
  · rw [if_neg hb, if_neg hb]; exact hw'

/-- Run a writer over a zeroed buffer of `size` bytes. -/
def fill (size : Nat) (w : Writer Unit) : Option Bytes :=
  (w ⟨zeros size, 0⟩).map fun r => r.2.data

/-- **A filled buffer**: the emitted bytes, then zeros to the end. -/
theorem fill_eq {w : Writer Unit} {bs : Bytes} (hw : Emits w bs)
    (size : Nat) :
    fill size w
      = if bs.length ≤ size then some (bs ++ zeros (size - bs.length))
        else none := by
  have h := hw [] (zeros size)
  rw [List.nil_append, List.nil_append, List.length_nil, zeros_length,
    zeros_drop] at h
  rw [fill, h]
  by_cases hfit : bs.length ≤ size
  · rw [if_pos hfit, if_pos hfit]
    rfl
  · rw [if_neg hfit, if_neg hfit]
    rfl

end Wire
