import UsbVault.App.Backoff
import UsbVault.App.HeaderLedger

/-!
# The limit of ten failures

Unlock attempts on one drive, by any number of app processes (a restart or
another machine is a further process), any number of them in flight. What
an attempt awaits may end in an error, and a header write may be cut off.

A wrong password is counted in the process that tried it, and nowhere
else; only the attempt whose password was right writes the header, and all
it changes there is the fail counter and its code
(`SameButCounter`). So the drive opens with its password after any run
(`Unharmed.onDisk`), however many failures there were: ten failures erase
nothing (`destroysVault_iff`).
-/

namespace UsbVault.App

open Wire Js Companion

/-! ## Attempts -/

/-- Where an attempt is, with its locals. -/
inductive AttemptPc where
  /-- `await usbService.readVaultHeader` -/
  | reading (password : Bytes)
  /-- `await unlockVault` -/
  | evaluating (password headerBytes : Bytes)
  /-- `await usbService.writeVaultHeader` of the header counted up and reset -/
  | resetting (session : VaultSession) (headerBytes next : Bytes)
  /-- the same after an error, with the header only reset -/
  | retrying (session : VaultSession) (headerBytes next : Bytes)
  /-- the active index is read and decrypted -/
  | loading (session : VaultSession) (headerBytes : Bytes)
  | ended
  deriving DecidableEq

/-- An `unlock` call of a process. -/
structure Attempt where
  app : Nat
  pc : AttemptPc
  deriving DecidableEq

/-- The container, the failure tracking of every process, and the attempts
so far. The last two fields are history: the failed evaluations since an
unlock last completed, and the unlocks that completed. -/
structure Drive where
  disk : Bytes
  tracking : Nat → FailTracking
  attempts : List Attempt
  failed : Nat
  opened : Nat

/-- A drive no process has tried yet. -/
def Drive.start (disk : Bytes) : Drive := ⟨disk, fun _ => .reset, [], 0, 0⟩

/-- What happens next: a process calls `unlock`; the companion answers an
attempt's read; its password is evaluated; its header write succeeds, or
fails after so many bytes; its index is loaded. An answer that is not `ok`
is an error. -/
inductive DriveEvent where
  | unlock (app : Nat) (password : Bytes) (now : Int)
  | read (attempt : Nat) (ok : Bool)
  | evaluate (attempt : Nat) (now : Int)
  | write (attempt : Nat) (written : Nat) (ok : Bool)
  | load (attempt : Nat) (ok : Bool)
  deriving DecidableEq, Repr

/-- Move an attempt on. -/
def Drive.move (d : Drive) (i : Nat) (app : Nat) (pc : AttemptPc) : Drive :=
  { d with attempts := d.attempts.set i ⟨app, pc⟩ }

/-- `Step 4` of `unlock`: the range of the active index. -/
def indexRange (info : VaultHeaderInfo) : Entry where
  offset := if info.activeIndexSlot = 0 then info.index0Offset else info.index1Offset
  length := if info.activeIndexSlot = 0 then info.index0Length else info.index1Length

section Machine

variable (C : WebCrypto) (K : IndexCodec)

/-- The header counted up and reset. -/
def countedHeader (headerBytes : Bytes) (hmacKey : ByteVec 32) : Option Bytes :=
  (incrementFailCounter C headerBytes hmacKey).bind fun h => resetFailCounter C h hmacKey

/-- What follows when counting or its write threw. -/
def retryFrom (session : VaultSession) (headerBytes : Bytes) : AttemptPc :=
  match resetFailCounter C headerBytes session.hmacKey with
  | some next => .retrying session headerBytes next
  | none => .ended

/-- What follows a right password. -/
def countFrom (session : VaultSession) (headerBytes : Bytes) : AttemptPc :=
  match countedHeader C headerBytes session.hmacKey with
  | some next => .resetting session headerBytes next
  | none => retryFrom C session headerBytes

/-- A write of the companion that fails after so many bytes. -/
def tornWrite (disk headerBytes : Bytes) (written : Nat) : Bytes :=
  match writeHeaderOf disk headerBytes with
  | some _ => pwrite disk 0 (headerBytes.take written)
  | none => disk

/-- Step 4 of `unlock` succeeds. -/
def loads (session : VaultSession) (headerBytes disk : Bytes) : Bool :=
  match parseVaultHeader headerBytes with
  | .error _ => false
  | .ok info =>
    if 0 < (indexRange info).length then
      ((readBytesOf disk (indexRange info).offset (indexRange info).length).bind
        (decryptVaultContainerIndex C K session.encryptionKey)).isSome
    else true

/-- An event of an attempt that is not there yet, or elsewhere, does
nothing. -/
def Drive.step (d : Drive) : DriveEvent → Drive
  | .unlock app password now =>
    match (d.tracking app).check now with
    | .error _ => d
    | .ok () => { d with attempts := d.attempts ++ [⟨app, .reading password⟩] }
  | .read i ok =>
    match d.attempts[i]? with
    | some ⟨app, .reading password⟩ =>
      match if ok then readHeaderOf d.disk else none with
      | some headerBytes =>
        match parseVaultHeader headerBytes with
        | .ok _ => d.move i app (.evaluating password headerBytes)
        | .error _ => d.move i app .ended
      | none => d.move i app .ended
    | _ => d
  | .evaluate i now =>
    match d.attempts[i]? with
    | some ⟨app, .evaluating password headerBytes⟩ =>
      match unlockVault C headerBytes password with
      | .error _ =>
        { d.move i app .ended with
          tracking := Function.update d.tracking app ((d.tracking app).fail now)
          failed := d.failed + 1 }
      | .ok session => d.move i app (countFrom C session headerBytes)
    | _ => d
  | .write i written ok =>
    match d.attempts[i]? with
    | some ⟨app, .resetting session headerBytes next⟩ =>
      match if ok then writeHeaderOf d.disk next else none with
      | some disk => { d.move i app (.loading session headerBytes) with disk := disk }
      | none =>
        { d.move i app (retryFrom C session headerBytes) with
          disk := tornWrite d.disk next written }
    | some ⟨app, .retrying session headerBytes next⟩ =>
      match if ok then writeHeaderOf d.disk next else none with
      | some disk => { d.move i app (.loading session headerBytes) with disk := disk }
      | none => { d.move i app .ended with disk := tornWrite d.disk next written }
    | _ => d
  | .load i ok =>
    match d.attempts[i]? with
    | some ⟨app, .loading session headerBytes⟩ =>
      if ok && loads C K session headerBytes d.disk then
        { d.move i app .ended with
          tracking := Function.update d.tracking app (d.tracking app).succeed
          failed := 0
          opened := d.opened + 1 }
      else d.move i app .ended
    | _ => d

def Drive.run (d : Drive) (events : List DriveEvent) : Drive :=
  events.foldl (Drive.step C K) d

theorem Drive.run_append (d : Drive) (events events' : List DriveEvent) :
    d.run C K (events ++ events') = (d.run C K events).run C K events' :=
  List.foldl_append

/-! ## Erasure -/

/-- The header is cryptographically erased: its KDF is marked destroyed, or
its wrapped MEK is gone. -/
def Erased (headerBytes : Bytes) : Prop :=
  (unlockFields headerBytes).kdfHashId = [KDF_HASH_ID_DESTROYED]
    ∨ (unlockFields headerBytes).wrappedMekLen = 0

/-- **Ten failures destroy the vault**: the header is erased, and no
attempt succeeds any more. -/
def DestroysVault (d : Drive) : Prop :=
  MAX_FAIL_ATTEMPTS ≤ d.failed →
    Erased (d.disk.take HEADER_SIZE) ∧ ∀ events, (d.run C K events).opened = d.opened

end Machine

/-! ## What a header write can change -/

/-- The two headers agree but for the fail counter and its code. -/
structure SameButCounter (header header' : Bytes) : Prop where
  length : header'.length = header.length
  bytes : ∀ i, i < getFailCounterBlockOffset header + 4 ∨ getFailCounterBlockOffset header + 40 ≤ i →
    header'[i]? = header[i]?

variable {C : WebCrypto} {K : IndexCodec} {password : Bytes} {keys : VaultSession}
variable {disk disk₀ header header' header'' : Bytes} {files : Files} {hmacKey : ByteVec 32}

theorem SameButCounter.refl (header : Bytes) : SameButCounter header header := ⟨rfl, fun _ _ => rfl⟩

theorem SameButCounter.read (h : SameButCounter header header') {o n : Nat}
    (hd : o + n ≤ getFailCounterBlockOffset header + 4
      ∨ getFailCounterBlockOffset header + 40 ≤ o) :
    pread header' o n = pread header o n := by
  apply List.ext_getElem?
  intro i
  rw [pread, pread, List.getElem?_take, List.getElem?_take]
  split
  · rw [List.getElem?_drop, List.getElem?_drop]
    exact h.bytes _ (by omega)
  · rfl

theorem SameButCounter.sameFields (hw : WebHeader header) (h : SameButCounter header header') :
    SameFields header header' := by
  obtain ⟨hmeta, htfa, hfc, hwrapped, hsv, hend⟩ := hw.offsets
  exact ⟨h.length, h.read (by omega), h.read (by omega), h.read (by omega)⟩

theorem SameButCounter.activeRange_eq (hw : WebHeader header) (h : SameButCounter header header') :
    activeRange header' = activeRange header := by
  obtain ⟨hmeta, htfa, hfc, hwrapped, hsv, hend⟩ := hw.offsets
  rw [activeRange, activeRange, activePointers_congr (h.sameFields hw) (h.read (by omega))]

theorem SameButCounter.torn (h : SameButCounter header header')
    (h' : SameButCounter header header'') {n : Nat} (hn : n ≤ header.length) :
    SameButCounter header (header'.take n ++ header''.drop n) := by
  have hlen := h.length
  have hlen' := h'.length
  have htake : (header'.take n).length = n := by
    rw [List.length_take]
    omega
  refine ⟨?_, fun i hi => ?_⟩
  · rw [List.length_append, htake, List.length_drop]
    omega
  · rcases Nat.lt_or_ge i n with hlt | hge
    · rw [List.getElem?_append_left (by omega), List.getElem?_take_of_lt hlt, h.bytes i hi]
    · rw [List.getElem?_append_right (by omega), htake, List.getElem?_drop,
        Nat.add_sub_cancel' hge, h'.bytes i hi]

theorem SameButCounter.writeFailCounter (hw : WebHeader header) (h : SameButCounter header header')
    {count : Nat} (hwrite : App.writeFailCounter C header' hmacKey count = some header'') :
    SameButCounter header header'' := by
  have hsame := h.sameFields hw
  have hw' := hsame.webHeader hw
  obtain ⟨_, hwrite', hsame', -⟩ := writeFailCounter_spec (C := C) hw' hmacKey count
  rw [hwrite] at hwrite'
  cases hwrite'
  refine ⟨hsame'.length.trans h.length, fun i hi => ?_⟩
  rw [← h.bytes i hi, getElem?_eq_pread, getElem?_eq_pread header',
    writeFailCounter_frame hw' hwrite (by rw [hsame.counter_eq]; omega)]

theorem SameButCounter.countedHeader (hw : WebHeader header) (h : SameButCounter header header')
    (hcount : App.countedHeader C header' hmacKey = some header'') :
    SameButCounter header header'' := by
  rw [App.countedHeader, Option.bind_eq_some_iff] at hcount
  obtain ⟨counted, hinc, hreset⟩ := hcount
  exact (h.writeFailCounter hw hinc).writeFailCounter hw hreset

/-! ## Every run -/

/-- The headers an attempt holds. -/
def AttemptPc.headers : AttemptPc → List Bytes
  | .reading _ => []
  | .evaluating _ headerBytes => [headerBytes]
  | .resetting _ headerBytes next => [headerBytes, next]
  | .retrying _ headerBytes next => [headerBytes, next]
  | .loading _ headerBytes => [headerBytes]
  | .ended => []

/-- The container is the first one but for the fail counter, and so is
every header in an attempt's hands. -/
structure Unharmed (disk₀ : Bytes) (d : Drive) : Prop where
  disk : ∃ header, d.disk = header ++ disk₀.drop HEADER_SIZE
    ∧ SameButCounter (disk₀.take HEADER_SIZE) header
  attempts : ∀ a ∈ d.attempts, ∀ header ∈ a.pc.headers,
    SameButCounter (disk₀.take HEADER_SIZE) header

variable {d : Drive} {i app : Nat} {pc : AttemptPc} {session : VaultSession}

theorem retryFrom_headers (hw : WebHeader header) (h : SameButCounter header header') :
    ∀ g ∈ (retryFrom C session header').headers, SameButCounter header g := by
  intro g hg
  rw [retryFrom] at hg
  split at hg
  · rename_i next hreset
    rcases List.mem_pair.mp hg with rfl | rfl
    · exact h
    · exact h.writeFailCounter hw hreset
  · cases hg

theorem countFrom_headers (hw : WebHeader header) (h : SameButCounter header header') :
    ∀ g ∈ (countFrom C session header').headers, SameButCounter header g := by
  intro g hg
  rw [countFrom] at hg
  split at hg
  · rename_i next hcount
    rcases List.mem_pair.mp hg with rfl | rfl
    · exact h
    · exact h.countedHeader hw hcount
  · exact retryFrom_headers hw h g hg

theorem Unharmed.move (h : Unharmed disk₀ d)
    (hpc : ∀ header ∈ pc.headers, SameButCounter (disk₀.take HEADER_SIZE) header) :
    Unharmed disk₀ (d.move i app pc) := by
  refine ⟨h.disk, fun a ha => ?_⟩
  rcases List.mem_or_eq_of_mem_set ha with hold | rfl
  · exact h.attempts a hold
  · exact hpc

theorem Unharmed.holds (h : Unharmed disk₀ d) (hi : d.attempts[i]? = some ⟨app, pc⟩) :
    ∀ header ∈ pc.headers, SameButCounter (disk₀.take HEADER_SIZE) header :=
  h.attempts _ (List.mem_of_getElem? hi)

section Writes

variable (hw : WebHeader (disk₀.take HEADER_SIZE))

include hw

theorem Unharmed.readHeaderOf (h : Unharmed disk₀ d) (hread : readHeaderOf d.disk = some header) :
    SameButCounter (disk₀.take HEADER_SIZE) header := by
  obtain ⟨g, hdisk, hg⟩ := h.disk
  have hlen : g.length = HEADER_SIZE := hg.length.trans hw.length
  rw [Companion.readHeaderOf] at hread
  split at hread
  · cases hread
  split at hread
  · cases hread
  · rw [← Option.some.inj hread, hdisk, List.take_left' hlen]
    exact hg

theorem Unharmed.write (h : Unharmed disk₀ d)
    (hheader : SameButCounter (disk₀.take HEADER_SIZE) header)
    (hwrite : writeHeaderOf d.disk header = some disk) :
    ∃ g, disk = g ++ disk₀.drop HEADER_SIZE ∧ SameButCounter (disk₀.take HEADER_SIZE) g := by
  obtain ⟨g, hdisk, hg⟩ := h.disk
  have hlen : g.length = HEADER_SIZE := hg.length.trans hw.length
  rw [writeHeaderOf] at hwrite
  split at hwrite
  · refine ⟨header, ?_, hheader⟩
    rw [← Option.some.inj hwrite, hdisk, List.drop_left' hlen]
  · cases hwrite

theorem Unharmed.tornWrite (h : Unharmed disk₀ d)
    (hheader : SameButCounter (disk₀.take HEADER_SIZE) header) (n : Nat) :
    ∃ g, App.tornWrite d.disk header n = g ++ disk₀.drop HEADER_SIZE
      ∧ SameButCounter (disk₀.take HEADER_SIZE) g := by
  rw [App.tornWrite]
  split
  · obtain ⟨g, hdisk, hg⟩ := h.disk
    have hlen : g.length = HEADER_SIZE := hg.length.trans hw.length
    have hlen' : header.length = HEADER_SIZE := hheader.length.trans hw.length
    have htake : header.take n = header.take (min n HEADER_SIZE) := by
      rw [← hlen', List.take_eq_take_min]
    have hmin : min n HEADER_SIZE ≤ g.length := by omega
    refine ⟨header.take (min n HEADER_SIZE) ++ g.drop (min n HEADER_SIZE), ?_,
      hheader.torn hg (by rw [hw.length]; omega)⟩
    rw [pwrite_of_le _ (Nat.zero_le _), List.take_zero, List.nil_append, Nat.zero_add, htake,
      List.length_take, hlen', Nat.min_eq_left (Nat.min_le_right _ _), hdisk,
      List.drop_append_of_le_length hmin, List.append_assoc]
  · exact h.disk

/-- A write event: the header it writes, or what is left of the write. -/
theorem Unharmed.writeHeader (h : Unharmed disk₀ d) {session : VaultSession}
    {headerBytes next : Bytes} {other : AttemptPc} (i app written : Nat) (ok : Bool)
    (hheader : SameButCounter (disk₀.take HEADER_SIZE) headerBytes)
    (hnext : SameButCounter (disk₀.take HEADER_SIZE) next)
    (hother : ∀ g ∈ other.headers, SameButCounter (disk₀.take HEADER_SIZE) g) :
    Unharmed disk₀ (match if ok then writeHeaderOf d.disk next else none with
      | some disk => { d.move i app (.loading session headerBytes) with disk := disk }
      | none => { d.move i app other with disk := App.tornWrite d.disk next written }) := by
  split
  · rename_i disk hdisk
    have hok : writeHeaderOf d.disk next = some disk := by
      cases ok with
      | true => exact hdisk
      | false => cases hdisk
    refine ⟨h.write hw hnext hok, (h.move fun g hg => ?_).attempts⟩
    rw [List.mem_singleton.mp hg]
    exact hheader
  · exact ⟨h.tornWrite hw hnext written, (h.move hother).attempts⟩

/-- **No event harms the container.** -/
theorem Unharmed.step (h : Unharmed disk₀ d) (e : DriveEvent) : Unharmed disk₀ (d.step C K e) := by
  have hend : ∀ g ∈ AttemptPc.ended.headers, SameButCounter (disk₀.take HEADER_SIZE) g :=
    fun _ hg => by cases hg
  cases e with
  | unlock app password now =>
    rw [Drive.step]
    split
    · exact h
    · refine ⟨h.disk, fun a ha => ?_⟩
      rcases List.mem_append.mp ha with hold | hnew
      · exact h.attempts a hold
      · rw [List.mem_singleton.mp hnew]
        exact hend
  | read i ok =>
    rw [Drive.step]
    split
    · split
      · rename_i headerBytes hread
        have hsame : SameButCounter (disk₀.take HEADER_SIZE) headerBytes := by
          cases ok with
          | true => exact h.readHeaderOf hw hread
          | false => cases hread
        split
        · refine h.move fun g hg => ?_
          rw [List.mem_singleton.mp hg]
          exact hsame
        · exact h.move hend
      · exact h.move hend
    · exact h
  | evaluate i now =>
    rw [Drive.step]
    split
    · rename_i app password headerBytes hi
      split
      · have hmove : Unharmed disk₀ (d.move i app .ended) := h.move hend
        exact ⟨hmove.disk, hmove.attempts⟩
      · exact h.move (countFrom_headers hw (h.holds hi _ List.mem_cons_self))
    · exact h
  | write i written ok =>
    rw [Drive.step]
    split
    · rename_i app session headerBytes next hi
      have hheld := h.holds hi
      have hheader := hheld headerBytes List.mem_cons_self
      exact h.writeHeader hw i app written ok hheader
        (hheld next (List.mem_cons_of_mem _ List.mem_cons_self)) (retryFrom_headers hw hheader)
    · rename_i app session headerBytes next hi
      have hheld := h.holds hi
      exact h.writeHeader hw i app written ok (hheld headerBytes List.mem_cons_self)
        (hheld next (List.mem_cons_of_mem _ List.mem_cons_self)) hend
    · exact h
  | load i ok =>
    rw [Drive.step]
    split
    · rename_i app session headerBytes hi
      have hmove : Unharmed disk₀ (d.move i app .ended) := h.move hend
      split
      · exact ⟨hmove.disk, hmove.attempts⟩
      · exact hmove
    · exact h

theorem Unharmed.run (h : Unharmed disk₀ d) (events : List DriveEvent) :
    Unharmed disk₀ (d.run C K events) :=
  Run.foldl_preserves (A := fun _ => True) (fun _ e _ h => h.step hw e) events d
    (fun _ _ => trivial) h

end Writes

theorem Unharmed.start (disk₀ : Bytes) : Unharmed disk₀ (.start disk₀) :=
  ⟨⟨disk₀.take HEADER_SIZE, (List.take_append_drop _ _).symm, .refl _⟩, fun _ ha => by cases ha⟩

/-- **The container still opens to its files.** -/
theorem Unharmed.onDisk (h : Unharmed disk₀ d) (hon : OnDisk C K password keys disk₀ files) :
    OnDisk C K password keys d.disk files := by
  obtain ⟨g, hdisk, hg⟩ := h.disk
  have hw := hon.header.web
  have hlen : g.length = HEADER_SIZE := hg.length.trans hw.length
  have htake : d.disk.take HEADER_SIZE = g := by rw [hdisk, List.take_left' hlen]
  have hdrop : d.disk.drop HEADER_SIZE = disk₀.drop HEADER_SIZE := by
    rw [hdisk, List.drop_left' hlen]
  have hlong : HEADER_SIZE ≤ d.disk.length := by
    rw [hdisk, List.length_append, hlen]
    omega
  have hext : Extends disk₀ d.disk := ⟨hon.long, hlong, [], by rw [hdrop, List.append_nil]⟩
  have hrange := hg.activeRange_eq hw
  have hsame := hg.sameFields hw
  have hopens : unlockVault C g password = .ok keys := by
    rw [hsame.unlock_eq hw]
    exact hon.header.opens
  have hnames := hon.names.mono hext hon.above
  refine ⟨⟨hlong, ?_, ?_⟩, ?_⟩
  · rw [htake]
    exact ⟨hsame.webHeader hw, hopens⟩
  · rw [htake, hrange]
    exact hon.above
  · rw [Names, ← hrange] at hnames
    rw [htake, Names]
    exact hnames

/-! ## One attempt -/

/-- A further attempt at some position. -/
def Drive.trying (d : Drive) (app : Nat) (pc : AttemptPc) : Drive :=
  { d with attempts := d.attempts ++ [⟨app, pc⟩] }

theorem Drive.trying_get (d : Drive) (app : Nat) (pc : AttemptPc) :
    (d.trying app pc).attempts[d.attempts.length]? = some ⟨app, pc⟩ :=
  List.getElem?_concat_length

theorem Drive.trying_move (d : Drive) (app : Nat) (pc pc' : AttemptPc) :
    (d.trying app pc).move d.attempts.length app pc' = d.trying app pc' := by
  rw [Drive.move, Drive.trying, Drive.trying]
  simp

/-- A password is tried: the call, the header it reads, the evaluation. -/
def tryPassword (i app : Nat) (password : Bytes) (now : Int) : List DriveEvent :=
  [.unlock app password now, .read i true, .evaluate i now]

theorem Drive.run_tryPassword {now : Int} {info : VaultHeaderInfo}
    (hcheck : (d.tracking app).check now = .ok ()) (hread : readHeaderOf d.disk = some header)
    (hparse : parseVaultHeader header = .ok info) :
    d.run C K (tryPassword d.attempts.length app password now)
      = (d.trying app (.evaluating password header)).step C K (.evaluate d.attempts.length now) := by
  have hunlock : d.step C K (.unlock app password now) = d.trying app (.reading password) := by
    rw [Drive.step, hcheck]
    rfl
  have hheader : (d.trying app (.reading password)).step C K (.read d.attempts.length true)
      = d.trying app (.evaluating password header) := by
    rw [Drive.step, Drive.trying_get]
    simp only [if_true]
    rw [show (d.trying app (.reading password)).disk = d.disk from rfl, hread]
    simp only [hparse]
    exact d.trying_move app _ _
  simp only [Drive.run, tryPassword, List.foldl_cons, List.foldl_nil, hunlock, hheader]

/-- **A wrong password** is counted in its process, and nothing else
happens. -/
theorem Drive.run_wrongPassword {now : Int} {info : VaultHeaderInfo} {e : WebError}
    (hcheck : (d.tracking app).check now = .ok ()) (hread : readHeaderOf d.disk = some header)
    (hparse : parseVaultHeader header = .ok info)
    (hwrong : unlockVault C header password = .error e) :
    d.run C K (tryPassword d.attempts.length app password now)
      = { d.trying app .ended with
          tracking := Function.update d.tracking app ((d.tracking app).fail now)
          failed := d.failed + 1 } := by
  rw [Drive.run_tryPassword hcheck hread hparse, Drive.step, Drive.trying_get]
  simp only [hwrong, d.trying_move]
  rfl

/-- After a right password the attempt writes what `unlock` computes. -/
theorem countFrom_of_resetCounter {final : Bytes}
    (h : resetCounter C header session.hmacKey = some final) :
    countFrom C session header = .resetting session header final
      ∨ countFrom C session header = .retrying session header final := by
  have heq : resetCounter C header session.hmacKey
      = match countedHeader C header session.hmacKey with
        | some h => some h
        | none => resetFailCounter C header session.hmacKey := rfl
  rw [heq] at h
  rw [countFrom]
  cases hcount : countedHeader C header session.hmacKey with
  | some next =>
    simp only [hcount, Option.some.injEq] at h
    rw [h]
    exact .inl rfl
  | none =>
    simp only [hcount] at h
    refine .inr ?_
    simp only [retryFrom, h]

theorem Drive.step_write {next : Bytes}
    (hpc : pc = .resetting session header next ∨ pc = .retrying session header next)
    (hwrite : writeHeaderOf d.disk next = some disk) :
    (d.trying app pc).step C K (.write d.attempts.length 0 true)
      = { d.trying app (.loading session header) with disk := disk } := by
  have hdisk : (d.trying app pc).disk = d.disk := rfl
  rw [Drive.step, Drive.trying_get, hdisk]
  rcases hpc with rfl | rfl
  · simp only [if_true, hwrite, d.trying_move]
  · simp only [if_true, hwrite, d.trying_move]

theorem Drive.step_load (hloads : loads C K session header disk = true) :
    (Drive.step C K { d.trying app (.loading session header) with disk := disk }
      (.load d.attempts.length true)).opened = d.opened + 1 := by
  have hget : ({ d.trying app (.loading session header) with disk := disk } :
      Drive).attempts[d.attempts.length]? = some ⟨app, .loading session header⟩ := d.trying_get app _
  rw [Drive.step, hget]
  simp only [hloads, Bool.and_self, if_true]
  rfl

theorem Except.ok_of_toOption {α ε : Type} {x : Except ε α} {a : α} (h : x.toOption = some a) :
    x = .ok a := by
  cases x with
  | error e => cases h
  | ok b => rw [Option.some.inj h]

/-- **A drive that unlocks is unlocked by some attempt.** -/
theorem Drive.run_of_unlock {u : Opened} (h : unlock C K d.disk password = some u) :
    ∃ events, (d.run C K events).opened = d.opened + 1 := by
  simp only [unlock, Option.bind_eq_bind, Option.bind_eq_some_iff] at h
  obtain ⟨headerBytes, hread, info, hinfo, session, hsession, final, hcount, disk, hwrite, hload⟩ :=
    h
  have hparse := Except.ok_of_toOption hinfo
  have hopen := Except.ok_of_toOption hsession
  have hloads : loads C K session headerBytes disk = true := by
    simp only [loads, hparse]
    by_cases hpos : 0 < (indexRange info).length
    · replace hload := (if_pos hpos).symm.trans hload
      simp only [Option.bind_eq_some_iff] at hload
      obtain ⟨blob, hblob, files, hfiles, -⟩ := hload
      have hblob' : readBytesOf disk (indexRange info).offset (indexRange info).length
          = some blob := hblob
      rw [if_pos hpos, hblob', Option.bind_some, hfiles]
      rfl
    · rw [if_neg hpos]
  obtain ⟨now, hcheck⟩ : ∃ now, (d.tracking 0).check now = .ok () :=
    ⟨_, (d.tracking 0).check_delayed⟩
  have htried : d.run C K (tryPassword d.attempts.length 0 password now)
      = (d.trying 0 (.evaluating password headerBytes)).step C K
        (.evaluate d.attempts.length now) := Drive.run_tryPassword hcheck hread hparse
  have hevaluated : (d.trying 0 (.evaluating password headerBytes)).step C K
      (.evaluate d.attempts.length now) = d.trying 0 (countFrom C session headerBytes) := by
    rw [Drive.step, Drive.trying_get]
    simp only [hopen, d.trying_move]
  refine ⟨tryPassword d.attempts.length 0 password now
    ++ [.write d.attempts.length 0 true, .load d.attempts.length true], ?_⟩
  rw [Drive.run_append, htried, hevaluated]
  simp only [Drive.run, List.foldl_cons, List.foldl_nil,
    Drive.step_write (countFrom_of_resetCounter hcount) hwrite]
  exact Drive.step_load hloads

/-! ## No number of failures destroys the vault -/

theorem OnDisk.not_erased (h : OnDisk C K password keys disk files) :
    ¬ Erased (disk.take HEADER_SIZE) := by
  have hopens := h.header.opens
  rw [unlockVault, UnlockFields.unlock] at hopens
  split at hopens
  · cases hopens
  split at hopens
  · cases hopens
  · rename_i hkdf
    rintro (hdestroyed | hgone)
    · exact hkdf hdestroyed
    · simp only [hgone, if_true, bind, Except.bind] at hopens
      split at hopens
      · cases hopens
      split at hopens
      · cases hopens
      · cases hopens

/-- **A vault outlives its failures**: it is not erased, and a later
attempt opens it. -/
theorem OnDisk.outlives (h : OnDisk C K password keys d.disk files) :
    ¬ Erased (d.disk.take HEADER_SIZE) ∧ ∃ events, (d.run C K events).opened = d.opened + 1 := by
  obtain ⟨u, hunlock, -⟩ := h.unlock
  exact ⟨h.not_erased, Drive.run_of_unlock hunlock⟩

/-- A process each for as many wrong passwords. -/
def wrongPasswords (password : Bytes) (count : Nat) : List DriveEvent :=
  (List.range count).flatMap fun k => tryPassword k k password 0

/-- **Any number of failures can be had**, one in each process, and all
they leave behind is in the memory of those processes. -/
theorem Drive.run_wrongPasswords {e : WebError} (hon : OnDisk C K password keys disk files)
    {wrong : Bytes} (hwrong : unlockVault C (disk.take HEADER_SIZE) wrong = .error e)
    (count : Nat) :
    let d := (Drive.start disk).run C K (wrongPasswords wrong count)
    d.disk = disk ∧ d.failed = count ∧ d.attempts.length = count
      ∧ ∀ app, count ≤ app → d.tracking app = .reset := by
  induction count with
  | zero => exact ⟨rfl, rfl, rfl, fun _ _ => rfl⟩
  | succ count ih =>
    have hsplit : wrongPasswords wrong (count + 1)
        = wrongPasswords wrong count ++ tryPassword count count wrong 0 := by
      rw [wrongPasswords, List.range_succ, List.flatMap_append, List.flatMap_singleton]
      rfl
    rw [hsplit, Drive.run_append]
    generalize (Drive.start disk).run C K (wrongPasswords wrong count) = d at ih
    obtain ⟨hdisk, hfailed, hattempts, htracking⟩ := ih
    have hread : readHeaderOf d.disk = some (disk.take HEADER_SIZE) := by
      rw [hdisk]
      exact hon.header.readHeaderOf hon.long
    obtain ⟨info, hparse, -⟩ := parseVaultHeader_of_magic hon.header.web.magic
    have hcheck : (d.tracking count).check 0 = .ok () := by
      rw [htracking count (Nat.le_refl _)]
      rfl
    have hstep := Drive.run_wrongPassword (C := C) (K := K) hcheck hread hparse hwrong
    rw [hattempts] at hstep
    rw [hstep]
    refine ⟨hdisk, congrArg (· + 1) hfailed, ?_, fun app happ => ?_⟩
    · simp [Drive.trying, hattempts]
    · exact (Function.update_of_ne (by omega) _ _).trans (htracking app (by omega))

/-- **Ten failures destroy nothing**: after any run on a drive that opens,
the vault is as the limit demands exactly when the limit demands nothing;
the header is not erased, and a later attempt succeeds. -/
theorem destroysVault_iff (hon : OnDisk C K password keys disk files) (events : List DriveEvent) :
    let d := (Drive.start disk).run C K events
    (DestroysVault C K d ↔ d.failed < MAX_FAIL_ATTEMPTS)
      ∧ ¬ Erased (d.disk.take HEADER_SIZE)
      ∧ ∃ later, (d.run C K later).opened = d.opened + 1 := by
  intro d
  have hunharmed : Unharmed disk d := (Unharmed.start disk).run hon.header.web events
  obtain ⟨halive, hopens⟩ := (hunharmed.onDisk hon).outlives
  refine ⟨⟨fun h => ?_, fun hfew hten => absurd hten (Nat.not_le_of_lt hfew)⟩, halive, hopens⟩
  by_contra hten
  exact halive (h (Nat.le_of_not_lt hten)).1

/-! ## Ten wrong passwords -/

/-- The password is its own key, and another key fails. -/
def passwordCrypto : WebCrypto where
  aesGcm := keyedAead 12
  hmacSha256 _ _ := zeroVec 32
  argon2id password _ _ _ _ := some ⟨(password ++ zeros 32).take 32, padded32_length password⟩

/-- A container that holds a new header and no index. -/
def lockedDisk : Bytes :=
  ((createVaultHeader passwordCrypto samplePassword 3 sampleRandom).map Prod.fst).getD []

def guess : Bytes := ascii "password"

theorem passwordCrypto_total : passwordCrypto.Total where
  encrypt := fun key _ plaintext => ⟨plaintext ++ key.toList.take 16, rfl⟩
  derive := fun _ _ _ _ _ => ⟨_, rfl⟩

theorem aesGcmDecryptRaw_otherKey {key key' : ByteVec 32} {iv : ByteVec 12}
    {plaintext bytes : Bytes} (h : aesGcmEncryptRaw passwordCrypto key iv plaintext = some bytes)
    (hne : key.toList.take 16 ≠ key'.toList.take 16) :
    aesGcmDecryptRaw passwordCrypto key' bytes = none := by
  cases h
  have hiv : iv.toList.length = 12 := iv.toList_length
  have hlen : (plaintext ++ key.toList.take 16).length - 16 = plaintext.length := by simp
  have hlong : 12 ≤ (iv.toList ++ (plaintext ++ key.toList.take 16)).length := by
    rw [List.length_append]
    omega
  rw [aesGcmDecryptRaw, dif_pos hlong, List.drop_left' hiv]
  show (if _ then _ else _) = none
  rw [hlen, List.drop_left, if_neg fun h => hne h.2]

/-- The locked container is the header `createVaultHeader` makes. -/
theorem lockedDisk_parts : ∃ kek, ∃ p : HeaderParts, lockedDisk = p.header
    ∧ createVaultHeader passwordCrypto samplePassword 3 sampleRandom
      = some (lockedDisk, sampleKeys)
    ∧ Wraps passwordCrypto samplePassword sampleRandom kek p.verifyCT p.wrappedMek := by
  obtain ⟨kek, verifyCT, wrappedMek, hwraps⟩ :=
    passwordCrypto_total.wraps (keyedAead_correct 12) samplePassword sampleRandom
  obtain ⟨cipher, hmac, failHmac, hcreate⟩ := createVaultHeader_eq 3 hwraps
  have heq : lockedDisk = HeaderParts.header ⟨cipher, sampleRandom.salt, sampleRandom.verifyNonce,
      verifyCT, hmac, failHmac, wrappedMek⟩ := by
    rw [lockedDisk, hcreate]
    rfl
  exact ⟨kek, _, heq, heq ▸ hcreate, hwraps⟩

theorem lockedDisk_onDisk :
    OnDisk passwordCrypto indexJson samplePassword sampleKeys lockedDisk [] := by
  obtain ⟨kek, p, heq, hcreate, -⟩ := lockedDisk_parts
  obtain ⟨hgood, hrange⟩ := createVaultHeader_good (keyedAead_correct 12) hcreate
  have hlen : lockedDisk.length = HEADER_SIZE := by rw [heq, p.header_length]
  have htake : lockedDisk.take HEADER_SIZE = lockedDisk := List.take_of_length_le hlen.le
  refine ⟨⟨hlen.ge, htake.symm ▸ hgood, ?_⟩, ?_⟩
  · rw [htake, hrange]
  · rw [htake, Names, hrange]
    exact (if_pos rfl).mpr (SameMap.refl _)

theorem lockedDisk_guess :
    unlockVault passwordCrypto (lockedDisk.take HEADER_SIZE) guess = .error .operation := by
  obtain ⟨kek, p, heq, -, hwraps⟩ := lockedDisk_parts
  have htake : p.header.take HEADER_SIZE = p.header :=
    List.take_of_length_le p.header_length.le
  have hderive := hwraps.derives
  have hother : kek.toList.take 16 ≠ ((guess ++ zeros 32).take 32).take 16 := by
    cases hderive
    decide
  have hwrapped : aesGcmDecryptRaw passwordCrypto ⟨(guess ++ zeros 32).take 32, by simp⟩
      p.wrappedMek.toList = none := aesGcmDecryptRaw_otherKey hwraps.wraps hother
  have hparams : validateWebArgon2Params 65536 3 4 = .ok () := by
    rw [validateWebArgon2Params, if_neg (by decide)]
  have halive : ([2] : Bytes) ≠ [KDF_HASH_ID_DESTROYED] := by decide
  have hguess : passwordCrypto.argon2id guess p.salt.toList 65536 3 4
      = some ⟨(guess ++ zeros 32).take 32, by simp⟩ := rfl
  rw [heq, htake, unlockVault, p.unlockFields_eq, UnlockFields.unlock]
  simp only [ne_eq, not_true_eq_false, if_false, halive, hparams, hguess, orThrow, hwrapped, bind,
    Except.bind]
  rfl

theorem destroysVault_iff_sample :
    let d := (Drive.start lockedDisk).run passwordCrypto indexJson (wrongPasswords guess 12)
    (DestroysVault passwordCrypto indexJson d ↔ d.failed < MAX_FAIL_ATTEMPTS)
      ∧ ¬ Erased (d.disk.take HEADER_SIZE)
      ∧ ∃ later, (d.run passwordCrypto indexJson later).opened = d.opened + 1 :=
  destroysVault_iff lockedDisk_onDisk (wrongPasswords guess 12)

/-- **Ten wrong passwords, each in a process of its own**, leave the
container as it was. -/
theorem tenGuesses_survived :
    ¬ DestroysVault passwordCrypto indexJson
      ((Drive.start lockedDisk).run passwordCrypto indexJson
        (wrongPasswords guess MAX_FAIL_ATTEMPTS)) := by
  obtain ⟨hdisk, hfailed, -⟩ := Drive.run_wrongPasswords lockedDisk_onDisk
    lockedDisk_guess MAX_FAIL_ATTEMPTS
  intro h
  obtain ⟨herased, -⟩ := h hfailed.ge
  rw [hdisk] at herased
  exact lockedDisk_onDisk.not_erased herased

end UsbVault.App
