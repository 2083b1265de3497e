import UsbVault.Lib.Chain
import UsbVault.Companion.Compaction

/-!
# The write lock of a mount

`writeVaultHeader`, `appendBytes` and `compactVault` go through
`withVaultWriteLock`, a chain of promises per mount point. This module
instantiates the chain with the three mutators and reads off what
clients of one mount see (`Serialised`): requests take effect one after
another in order, ranges returned for appends do not overlap, and a header
write touches the header only.

No mutator looks at how many bytes its writes have come to. An append whose
write is short returns a range that does not hold its data, and the next
append returns a range that overlaps it (`short_append_returns`); a compaction
whose header write is short may leave a file that ends inside the header. Runs
without these two are serialised (`reachable_serialised`).
-/

namespace UsbVault.Companion

open Wire Effect Prog FsOp Chain

/-- A request to a mutator. -/
inductive Request where
  | writeVaultHeader (headerBytes : Bytes)
  | appendBytes (data : Bytes)
  | compactVault (activeFiles : Js.Obj Entry)

/-- What a mutator resolves to. -/
inductive Response where
  | done
  | range (entry : Entry)
  | compacted (r : Compacted)

/-- The function handed to `withVaultWriteLock`. -/
def task (mountPoint : String) : Request → Async Response
  | .writeVaultHeader headerBytes =>
    (writeVaultHeaderImpl mountPoint headerBytes).bind fun _ => pure .done
  | .appendBytes data =>
    (appendBytesImpl mountPoint data).bind fun entry => pure (.range entry)
  | .compactVault activeFiles =>
    (compactVaultImpl mountPoint activeFiles).bind fun r => pure (.compacted r)

/-- The chain of one mount: the calls made, the current tail, and the
partition. -/
abbrev Mount := State FsOp FsOp.Ret String Response Fs Request

abbrev MountCall := Call FsOp FsOp.Ret String Response Request

/-- `VAULT.bin`, if it exists, has a whole header. The provisioner creates
it with `HEADER_SIZE` bytes. -/
def HoldsHeader (fs : Fs) : Prop :=
  ∀ f, fs.vaultBin = some f → HEADER_SIZE ≤ f.length

/-! ## One request -/

/-- The states a request may pass through. -/
def Between (q : Request) (fs t : Fs) : Prop :=
  match fs.vaultBin with
  | none => t.vaultBin = none
  | some f =>
    match q with
    | .writeVaultHeader _ => HeaderOnly f t
    | .appendBytes data => Grown f data t
    | .compactVault _ => Long t

/-- How a successful append ends. -/
def Ends (q : Request) (fs : Fs) (r : Response) (t : Fs) : Prop :=
  ∀ data entry, q = .appendBytes data → r = .range entry →
    ∃ f, fs.vaultBin = some f ∧ entry = ⟨f.length, data.length⟩
      ∧ t.vaultBin = some (f ++ data)

variable {fs : Fs} {Short : FsOp → Fs → Prop}

/-- The reads and writes that may be short: any read, a write to `VAULT.bin`
from its beginning, that is of a header, and a write at a handle's position,
that is of a record. -/
def Harmless : FsOp → Fs → Prop
  | .read _ _ _, _ => True
  | .write fd _ (some offset), fs => offset = 0 ∧ ∃ pos, fs.handles[fd]? = some (.vaultBin, pos)
  | .write _ _ none, _ => True
  | _, _ => False

/-- Without a `VAULT.bin` every mutator fails and creates none. -/
theorem returns_missing (mountPoint : String) (q : Request) (hf : fs.vaultBin = none) :
    Returns (FileIo Short) (fun t => t.vaultBin = none) (fun _ _ => False) (task mountPoint q) fs := by
  have hopen : Returns (FileIo Short) (fun t => t.vaultBin = none) (fun _ _ => False)
      (perform (openFile .vaultBin .rPlus)) fs := by
    refine returns_open (by simp) (fun t ht => ht.1.trans hf) fun fd t f _ _ hc => ?_
    rw [Fs.content, hf] at hc
    cases hc
  cases q with
  | writeVaultHeader headerBytes =>
    refine returns_bind (M := fun _ _ => False) ?_ fun _ _ _ h => h.elim
    rw [writeVaultHeaderImpl]
    split
    · exact returns_fail _ hf
    split
    · exact returns_fail _ hf
    refine returns_bind (returns_vaultBinPath mountPoint hf) ?_
    rintro _ _ _ ⟨rfl, rfl⟩
    exact returns_bind hopen fun _ _ _ h => h.elim
  | appendBytes data =>
    refine returns_bind (M := fun _ _ => False) ?_ fun _ _ _ h => h.elim
    rw [appendBytesImpl]
    split
    · exact returns_fail _ hf
    split
    · exact returns_fail _ hf
    refine returns_bind
      ((returns_checkCapacity mountPoint data.length).weaken fun t ht => ht ▸ hf) ?_
    rintro capacity _ _ ⟨rfl, _⟩
    by_cases hallowed : capacity.allowed = true
    case neg => rw [if_neg hallowed]; exact returns_fail _ hf
    rw [if_pos hallowed]
    refine returns_bind (returns_vaultBinPath mountPoint hf) ?_
    rintro _ _ _ ⟨rfl, rfl⟩
    exact returns_bind hopen fun _ _ _ h => h.elim
  | compactVault activeFiles =>
    refine returns_bind (M := fun _ _ => False) ?_ fun _ _ _ h => h.elim
    rw [compactVaultImpl]
    refine returns_bind (returns_vaultBinPath mountPoint hf) ?_
    rintro _ _ _ ⟨rfl, rfl⟩
    refine returns_bind (M := fun _ _ => False) ?_ fun _ _ _ h => h.elim
    refine returns_readOnly (o := stat .vaultBin) rfl rfl hf fun n heff => ?_
    simp only [FsOp.effect, Fs.content, hf, Option.map_none] at heff
    cases heff

/-- **What one request does**, run alone. -/
theorem returns_task (mountPoint : String) (q : Request) (h : HoldsHeader fs) :
    Returns (FileIo Harmless) (Between q fs) (Ends q fs) (task mountPoint q) fs := by
  cases hf : fs.vaultBin with
  | none =>
    have hbetween : Between q fs = fun t => t.vaultBin = none := by
      funext t
      rw [Between, hf]
    rw [hbetween]
    exact (returns_missing mountPoint q hf).mono fun _ _ _ hfalse => hfalse.elim
  | some f =>
    cases q with
    | writeVaultHeader headerBytes =>
      have hbetween : Between (.writeVaultHeader headerBytes) fs = HeaderOnly f := by
        funext t
        rw [Between, hf]
      rw [hbetween]
      refine returns_bind (returns_writeVaultHeader mountPoint headerBytes hf (h f hf)) ?_
      intro _ t ht _
      exact returns_done ht fun data entry hq _ => by cases hq
    | appendBytes data =>
      have hbetween : Between (.appendBytes data) fs = Grown f data := by
        funext t
        rw [Between, hf]
      rw [hbetween]
      have hwhole : ∀ fd t, ¬Harmless (write fd data (some f.length)) t := by
        intro fd t hshort
        have hlen : HEADER_SIZE ≤ f.length := h f hf
        rw [hshort.1] at hlen
        exact absurd hlen (by decide)
      refine returns_bind (returns_appendBytes mountPoint data hf hwhole) ?_
      rintro entry t ht ⟨hentry, -, -, hfile⟩
      refine returns_done ht fun data' entry' hq hr => ?_
      cases hq
      cases hr
      exact ⟨f, hf, hentry, hfile⟩
    | compactVault activeFiles =>
      have hbetween : Between (.compactVault activeFiles) fs = Long := by
        funext t
        rw [Between, hf]
      rw [hbetween]
      have hwhole : ∀ fd t buf, t.handles[fd]? = some (.compact, 0) →
          ¬Harmless (write fd buf (some 0)) t := by
        rintro fd t buf hfd ⟨-, pos, hbin⟩
        rw [hfd] at hbin
        cases hbin
      refine returns_bind (returns_compactVault mountPoint activeFiles hf (h f hf) hwhole) ?_
      intro r t ht _
      exact returns_done ht fun data entry hq _ => by cases hq

theorem Between.holdsHeader {q : Request} {t : Fs} (hb : Between q fs t)
    (h : HoldsHeader fs) : HoldsHeader t := by
  intro f' hf'
  cases hf : fs.vaultBin with
  | none =>
    rw [Between, hf] at hb
    simp only at hb
    rw [hb] at hf'
    cases hf'
  | some f =>
    have hlen := h f hf
    rw [Between, hf] at hb
    cases q with
    | writeVaultHeader headerBytes =>
      obtain ⟨g, hg, hglen, -⟩ := hb
      rw [hg] at hf'
      cases hf'
      omega
    | appendBytes data =>
      obtain ⟨n, hn⟩ := hb
      rw [hn] at hf'
      cases hf'
      rw [List.length_append]
      omega
    | compactVault activeFiles =>
      obtain ⟨g, hg, hlong⟩ := hb
      rw [hg] at hf'
      cases hf'
      exact hlong

theorem Between.length_le {q : Request} {t : Fs} (hb : Between q fs t)
    (hq : ∀ files, q ≠ .compactVault files) {f : Bytes} (hf : fs.vaultBin = some f) :
    ∃ f', t.vaultBin = some f' ∧ f.length ≤ f'.length := by
  rw [Between, hf] at hb
  cases q with
  | writeVaultHeader headerBytes =>
    obtain ⟨f', hf', hlen, -⟩ := hb
    exact ⟨f', hf', by omega⟩
  | appendBytes data =>
    obtain ⟨n, hn⟩ := hb
    exact ⟨_, hn, by rw [List.length_append]; omega⟩
  | compactVault activeFiles => exact absurd rfl (hq activeFiles)

/-! ## Requests one after another -/

variable {mountPoint : String}

theorem sequential_holdsHeader {cs : List MountCall} {fs fs' : Fs}
    (h : Sequential (FileIo Harmless) (task mountPoint) cs fs fs') (hfs : HoldsHeader fs) :
    HoldsHeader fs' := by
  induction cs generalizing fs with
  | nil =>
    obtain rfl : fs' = fs := h
    exact hfs
  | cons c cs ih =>
    obtain ⟨r, t, _, hrun, hrest⟩ := h
    have hbetween := (returns_task mountPoint c.request hfs).runs_inv hrun
    exact ih hrest (hbetween.holdsHeader hfs)

/-- The call is an append that returned `entry`. -/
def Appended (c : MountCall) (entry : Entry) : Prop :=
  (∃ data, c.request = .appendBytes data) ∧ c.phase = .settled (.ok (.range entry))

/-- The call is not a compaction. -/
def NoCompaction (c : MountCall) : Prop := ∀ files, c.request ≠ .compactVault files

theorem Appended.ends {c : MountCall} {entry : Entry} {r : Except String Response}
    {t : Fs} (h : Appended c entry) (hphase : c.phase = .settled r)
    (hfs : HoldsHeader fs) (hrun : Runs (FileIo Harmless) (task mountPoint c.request) fs r t) :
    ∃ data f, c.request = .appendBytes data ∧ fs.vaultBin = some f
      ∧ entry = ⟨f.length, data.length⟩ ∧ t.vaultBin = some (f ++ data) := by
  obtain ⟨⟨data, hdata⟩, hsettled⟩ := h
  rw [hphase] at hsettled
  cases hsettled
  obtain ⟨f, hf, hentry, ht⟩ :=
    (returns_task mountPoint c.request hfs).runs hrun data entry hdata rfl
  exact ⟨data, f, hdata, hf, hentry, ht⟩

/-- An append after a file of length `n` returns a range from `n` on, when
no compaction comes between. -/
theorem sequential_offset_ge {cs : List MountCall} {fs fs' : Fs} {n : Nat}
    (h : Sequential (FileIo Harmless) (task mountPoint) cs fs fs') (hfs : HoldsHeader fs)
    {f : Bytes} (hf : fs.vaultBin = some f) (hn : n ≤ f.length) {j : Nat}
    {c : MountCall} {entry : Entry} (hc : cs[j]? = some c) (happ : Appended c entry)
    (hbetween : ∀ k d, k < j → cs[k]? = some d → NoCompaction d) : n ≤ entry.offset := by
  induction cs generalizing fs f j with
  | nil => cases hc
  | cons d cs ih =>
    obtain ⟨r, t, hphase, hrun, hrest⟩ := h
    cases j with
    | zero =>
      obtain rfl : d = c := Option.some.inj hc
      obtain ⟨data, g, _, hg, hentry, _⟩ := happ.ends hphase hfs hrun
      rw [hf] at hg
      cases hg
      rw [hentry]
      exact hn
    | succ j =>
      have hstep := (returns_task mountPoint d.request hfs).runs_inv hrun
      obtain ⟨g, hg, hlen⟩ := hstep.length_le (hbetween 0 d (by omega) rfl) hf
      exact ih hrest (hstep.holdsHeader hfs) hg (by omega) hc
        fun k e hk he => hbetween (k + 1) e (by omega) he

/-- **Ranges of appends follow one another**, above the header. -/
theorem sequential_ranges {cs : List MountCall} {fs fs' : Fs}
    (h : Sequential (FileIo Harmless) (task mountPoint) cs fs fs') (hfs : HoldsHeader fs)
    {i : Nat} {a : MountCall} {entryA : Entry} (ha : cs[i]? = some a)
    (happA : Appended a entryA) :
    HEADER_SIZE ≤ entryA.offset ∧
      ∀ j b entryB, i < j → cs[j]? = some b → Appended b entryB →
        (∀ k d, i < k → k < j → cs[k]? = some d → NoCompaction d) →
        entryA.offset + entryA.length ≤ entryB.offset := by
  induction cs generalizing fs i with
  | nil => cases ha
  | cons c cs ih =>
    obtain ⟨r, t, hphase, hrun, hrest⟩ := h
    have hstep := (returns_task mountPoint c.request hfs).runs_inv hrun
    have ht := hstep.holdsHeader hfs
    cases i with
    | zero =>
      obtain rfl : c = a := Option.some.inj ha
      obtain ⟨data, f, _, hf, rfl, hfile⟩ := happA.ends hphase hfs hrun
      refine ⟨hfs f hf, fun j b entryB hij hb happB hbetween => ?_⟩
      obtain ⟨j, rfl⟩ : ∃ m, j = m + 1 := ⟨j - 1, by omega⟩
      refine sequential_offset_ge hrest ht hfile ?_ hb happB
        fun k d hk hd => hbetween (k + 1) d (by omega) (by omega) hd
      rw [List.length_append]
    | succ i =>
      obtain ⟨habove, hapart⟩ := ih hrest ht ha
      refine ⟨habove, fun j b entryB hij hb happB hbetween => ?_⟩
      obtain ⟨j, rfl⟩ : ∃ m, j = m + 1 := ⟨j - 1, by omega⟩
      exact hapart j b entryB (by omega) hb happB
        fun k d hik hkj hd => hbetween (k + 1) d (by omega) (by omega) hd

/-! ## Every interleaving -/

theorem io_total (o : FsOp) (fs : Fs) : ∃ x fs', FileIo Short o fs x fs' :=
  ⟨.error "EIO", fs, .failed fs "EIO"⟩

/-- The bytes of `VAULT.bin` at and above the end of the header. -/
def body (fs : Fs) : Option Bytes := fs.vaultBin.map fun f => f.drop HEADER_SIZE

theorem Between.body {headerBytes : Bytes} {t : Fs}
    (hb : Between (.writeVaultHeader headerBytes) fs t) : body t = body fs := by
  cases hf : fs.vaultBin with
  | none =>
    rw [Between, hf] at hb
    simp only at hb
    rw [Companion.body, Companion.body, hb, hf]
  | some f =>
    rw [Between, hf] at hb
    obtain ⟨f', hf', -, hdrop⟩ := hb
    rw [Companion.body, Companion.body, hf', hf, Option.map_some, Option.map_some, hdrop]

/-- What the clients of one mount rely on, where file operations do what `E`
says. -/
structure Serialised (E : (o : FsOp) → Fs → Except String o.Ret → Fs → Prop)
    (mountPoint : String) (fs₀ : Fs) (s : Mount) : Prop where
  /-- the settled requests took effect one after another in request order,
  one request may be running after them, and the rest have not started -/
  inOrder : ∃ k fs₁, InOrder E (task mountPoint) fs₀ s k fs₁
  /-- a request that has not settled is not blocked -/
  goesOn : ∀ (i : Nat) (c : MountCall), s.calls[i]? = some c → (∀ r, c.phase ≠ .settled r) →
    ∃ s', Internal E (task mountPoint) s s'
  /-- and is not kept waiting for ever -/
  runsOut : Acc (fun s' s : Mount => Internal E (task mountPoint) s s') s
  /-- an append that settles has returned the range of its data -/
  holdsData : ∀ (i : Nat) (c : MountCall) data (entry : Entry), s.calls[i]? = some c →
    c.request = .appendBytes data → c.phase = .settled (.ok (.range entry)) →
    c.tailSettled = false →
    ∃ f, s.world.vaultBin = some f ∧ entry.length = data.length
      ∧ pread f entry.offset entry.length = data
  above : ∀ (i : Nat) (c : MountCall) entry, s.calls[i]? = some c → Appended c entry →
    HEADER_SIZE ≤ entry.offset
  apart : ∀ (i j : Nat) (a b : MountCall) entryA entryB, i < j → s.calls[i]? = some a →
    s.calls[j]? = some b → Appended a entryA → Appended b entryB →
    (∀ (k : Nat) (d : MountCall), i < k → k < j → s.calls[k]? = some d → NoCompaction d) →
    entryA.offset + entryA.length ≤ entryB.offset
  /-- a step of a header write leaves the body alone -/
  headerOnly : ∀ (i : Nat) (c : MountCall) headerBytes p p' fs', s.calls[i]? = some c →
    c.request = .writeVaultHeader headerBytes → c.phase = .running p →
    Effect.Step E p s.world p' fs' → body fs' = body s.world

/-- **Mutators of one mount serialise**, whatever the interleaving of the
requests and whichever of their steps fail, in every run in which the write of
an append and the header write of a compaction are not short. -/
theorem reachable_serialised {fs₀ : Fs} {s : Mount} (hfs : HoldsHeader fs₀)
    (hs : Reachable (FileIo Harmless) (task mountPoint) fs₀ s) :
    Serialised (FileIo Harmless) mountPoint fs₀ s := by
  have hinv := reachable_inv hs
  obtain ⟨hlinked, k, fs₁, horder⟩ := hinv
  have hfs₁ : HoldsHeader fs₁ := sequential_holdsHeader horder.sequential hfs
  exact {
    inOrder := ⟨k, fs₁, horder⟩
    goesOn := fun i c hc hopen =>
      exists_internal ⟨hlinked, k, fs₁, horder⟩ io_total hc hopen
    runsOut := (internal_wellFounded (FileIo Harmless) (task mountPoint)).apply s
    holdsData := by
      intro i c data entry hc hq hphase htail
      obtain ⟨-, hrun⟩ := horder.runs_of_pending hc hphase htail
      have happ : Appended c entry := ⟨⟨data, hq⟩, hphase⟩
      obtain ⟨data', f, hq', hf, rfl, hfile⟩ := happ.ends hphase hfs₁ hrun
      rw [hq] at hq'
      cases hq'
      exact ⟨_, hfile, rfl, pread_append_right f data⟩
    above := by
      intro i c entry hc happ
      obtain ⟨m, w, him, hseq⟩ := horder.settled_prefix hc happ.2
      have hc' : (s.calls.take m)[i]? = some c := by
        rw [List.getElem?_take_of_lt him, hc]
      exact (sequential_ranges hseq hfs hc' happ).1
    apart := by
      intro i j a b entryA entryB hij ha hb happA happB hbetween
      obtain ⟨m, w, hjm, hseq⟩ := horder.settled_prefix hb happB.2
      have hget : ∀ n, n < m → (s.calls.take m)[n]? = s.calls[n]? := fun n hn =>
        List.getElem?_take_of_lt hn
      have ha' := (hget i (by omega)).trans ha
      have hb' := (hget j hjm).trans hb
      refine (sequential_ranges hseq hfs ha' happA).2 j b entryB hij hb' happB ?_
      intro n d hin hnj hd
      rw [hget n (by omega)] at hd
      exact hbetween n d hin hnj hd
    headerOnly := by
      intro i c headerBytes p p' fs' hc hq hphase hstep
      obtain ⟨rfl, -⟩ := horder.head_of_running hc hphase
      have hcur := horder.current
      rw [hc, Current, hphase] at hcur
      simp only [hq] at hcur
      -- both states are between the start of the write and its end
      have hwp := Wp.steps (returns_task mountPoint (.writeVaultHeader headerBytes) hfs₁) hcur
      rw [(hwp.step hstep).inv.body, hwp.inv.body] }

/-- A header write and an append that have just arrived at a vault with
one record. -/
def twoRequests : Mount :=
  ((State.initial oneRecordFs).arrive
    (.writeVaultHeader (VAULT_MAGIC ++ zeros (HEADER_SIZE - 8)))).arrive
    (.appendBytes [1, 2, 3])

theorem oneRecordFs_holdsHeader : HoldsHeader oneRecordFs := by
  intro f hf
  obtain rfl : oneRecordFile = f := Option.some.inj hf
  rw [oneRecordFile_length]
  omega

theorem reachable_serialised_sample :
    Serialised (FileIo Harmless) "/Volumes/SECURE" oneRecordFs twoRequests :=
  reachable_serialised oneRecordFs_holdsHeader
    (.step (.step .initial (.arrive _ _)) (.arrive _ _))

/-! ## A short append -/

theorem runs_checkCapacity {f : Bytes} (hmount : validateMountPoint mountPoint = pure ())
    (hf : fs.vaultBin = some f) (additionalBytes : Nat) :
    Runs NodeIo (checkCapacity mountPoint additionalBytes) fs
      (.ok ⟨f.length + additionalBytes ≤ fs.blocks * fs.bsize / 2, f.length,
        fs.blocks * fs.bsize, fs.blocks * fs.bsize / 2, fs.blocks * fs.bsize / 2 - f.length⟩) fs := by
  have hstat : (stat .vaultBin).effect fs = some (f.length, fs) := by
    simp only [FsOp.effect, Fs.content, hf, Option.map_some]
  rw [checkCapacity, vaultBinPath, hmount]
  refine Runs.bind (.done _ fs) (Runs.bind (a := some (fs.blocks * fs.bsize)) (t := fs) ?_ ?_)
  · exact (Runs.bind (.perform (.ok rfl)) (.done _ fs)).andThen (.done _ fs)
  · refine Runs.bind (a := f.length) (t := fs) ?_ (.done _ fs)
    exact (Runs.bind (Runs.bind (.done _ fs) (.done _ fs)) (.perform (.ok hstat))).andThen
      (.done _ fs)

/-- **An append may return a range that does not hold its data**: whatever the
data and the container, and however little of the data is written. -/
theorem short_append_returns {f data : Bytes} (hmount : validateMountPoint mountPoint = pure ())
    (hf : fs.vaultBin = some f) (hdata : data ≠ []) (hsize : data.length ≤ MAX_IO_SIZE)
    (hroom : f.length + data.length ≤ fs.blocks * fs.bsize / 2) (n : Nat) :
    ∃ t, Runs NodeIo (task mountPoint (.appendBytes data)) fs
        (.ok (.range ⟨f.length, data.length⟩)) t
      ∧ t.vaultBin = some (f ++ data.take n) := by
  let fd := fs.handles.length
  let opened : Fs := { fs with handles := fs.handles ++ [(.vaultBin, 0)] }
  have hopen : (openFile .vaultBin .rPlus).effect fs = some (fd, opened) := by
    simp only [FsOp.effect, Fs.content, hf, fd, opened]
  have hfd : opened.handles[fd]? = some (.vaultBin, 0) := by simp [opened, fd]
  have hstat : (fstat fd).effect opened = some (f.length, opened) := by
    simp only [FsOp.effect, hfd, Option.bind_eq_bind, Option.bind_some, Fs.content, hf, opened]
    rfl
  have hwrite := effect_write (p := .vaultBin) hfd hf (some f.length) (data.take n)
  refine ⟨opened.setContent .vaultBin (pwrite f f.length (data.take n)), ?_,
    congrArg some (pwrite_end f _)⟩
  refine Runs.bind ?_ (.done _ _)
  rw [appendBytesImpl, if_neg hdata, if_neg (Nat.not_lt.mpr hsize), vaultBinPath, hmount]
  refine Runs.bind (runs_checkCapacity hmount hf data.length) ?_
  rw [if_pos (decide_eq_true hroom)]
  refine Runs.bind (Runs.bind (.done _ fs) (.done _ fs)) (Runs.bind (.perform (.ok hopen)) ?_)
  refine Runs.ensuring ?_ (.perform (.ok rfl))
  exact Runs.bind (.perform (.ok hstat)) (Runs.bind (.perform (.shortWrite n hwrite trivial))
    (Runs.bind (.perform (.ok rfl)) (.done _ _)))

/-- **Less than the data is written**: the call settles on a range that ends
behind the file. -/
theorem short_append_unserialised {f data : Bytes}
    (hmount : validateMountPoint mountPoint = pure ()) (hf : fs.vaultBin = some f)
    (hdata : data ≠ []) (hsize : data.length ≤ MAX_IO_SIZE)
    (hroom : f.length + data.length ≤ fs.blocks * fs.bsize / 2) {n : Nat} (hn : n < data.length) :
    ∃ s, Reachable NodeIo (task mountPoint) fs s ∧ ¬Serialised NodeIo mountPoint fs s := by
  obtain ⟨t, hrun, ht⟩ := short_append_returns hmount hf hdata hsize hroom n
  have hstart : Reachable NodeIo (task mountPoint) fs _ :=
    .step (.step .initial (.arrive _ (.appendBytes data)))
      (.internal (.start (i := 0) rfl rfl trivial))
  obtain ⟨s, hs, hcall, hworld⟩ : ∃ s : Mount, Reachable NodeIo (task mountPoint) fs s
      ∧ s.calls[0]? = some ⟨.appendBytes data, none,
        .settled (.ok (.range ⟨f.length, data.length⟩)), false⟩
      ∧ s.world.vaultBin = some (f ++ data.take n) :=
    ⟨_, hstart.settles (i := 0) rfl rfl hrun, rfl, ht⟩
  refine ⟨s, hs, fun h => ?_⟩
  obtain ⟨f', hf', -, hread⟩ := h.holdsData 0 _ data _ hcall rfl rfl rfl
  rw [hworld, Option.some.injEq] at hf'
  have hlen := congrArg List.length hread
  simp only [← hf', pread_length, List.length_append, List.length_take] at hlen
  omega

/-- An append of three bytes, of which one is written. -/
theorem short_append_settles :
    ∃ s, Reachable NodeIo (task "/Volumes/SECURE") oneRecordFs s
      ∧ ¬Serialised NodeIo "/Volumes/SECURE" oneRecordFs s :=
  @short_append_unserialised _ _ oneRecordFile [1, 2, 3] volumes_valid rfl (by decide) (by decide)
    (by rw [oneRecordFile_length]; decide) 1 (by decide)

end UsbVault.Companion
