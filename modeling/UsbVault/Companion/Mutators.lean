import UsbVault.Companion.Container

/-!
# What the mutators do

For each mutator of the container: which states of `VAULT.bin` any run
of it passes through, and what the file and the result are when it
returns. The rules for single file operations come first.
-/

namespace UsbVault.Companion

open Wire Effect Prog FsOp

/-! ## One file operation -/

/-- Calls that change nothing. -/
def FsOp.readOnly : FsOp → Bool
  | stat _ | statfs | fstat _ | read _ _ _ | datasync _ | close _ => true
  | openFile _ _ | write _ _ _ | rename _ _ => false

theorem FsOp.effect_readOnly {o : FsOp} (ho : o.readOnly = true) {fs fs' : Fs}
    {r : o.Ret} (heff : o.effect fs = some (r, fs')) : fs' = fs := by
  cases o with
  | stat p =>
    simp only [FsOp.effect, Option.map_eq_some_iff] at heff
    obtain ⟨f, _, hf⟩ := heff
    cases hf
    rfl
  | statfs => cases heff; rfl
  | openFile p flags => cases ho
  | fstat fd =>
    simp only [FsOp.effect, Option.bind_eq_bind, Option.bind_eq_some_iff] at heff
    obtain ⟨_, _, _, _, hf⟩ := heff
    cases hf
    rfl
  | read fd length position =>
    simp only [FsOp.effect, Option.bind_eq_bind, Option.bind_eq_some_iff] at heff
    obtain ⟨_, _, _, _, hf⟩ := heff
    cases hf
    rfl
  | write fd buffer position => cases ho
  | datasync fd => cases heff; rfl
  | close fd => cases heff; rfl
  | rename oldPath newPath => cases ho

/-- Calls that come to a number of bytes. -/
def FsOp.transfers : FsOp → Bool
  | read _ _ _ | write _ _ _ => true
  | stat _ | statfs | openFile _ _ | fstat _ | datasync _ | close _ | rename _ _ => false

variable {Short : FsOp → Fs → Prop}

theorem FileIo.readOnly {o : FsOp} (ho : o.readOnly = true) {fs fs' : Fs}
    {x : Except String o.Ret} (h : FileIo Short o fs x fs') : fs' = fs := by
  cases h with
  | ok heff => exact effect_readOnly ho heff
  | failed e => rfl
  | late heff e => exact effect_readOnly ho heff
  | torn n heff e => cases ho
  | shortWrite n heff hshort => cases ho
  | shortRead n heff hshort => exact effect_readOnly rfl heff

theorem FileIo.effect_of_ok {o : FsOp} (ho : o.transfers = false) {fs fs' : Fs} {r : o.Ret}
    (h : FileIo Short o fs (.ok r) fs') : o.effect fs = some (r, fs') := by
  cases h with
  | ok heff => exact heff
  | shortWrite n heff hshort => cases ho
  | shortRead n heff hshort => cases ho

variable {I : Fs → Prop} {fs : Fs}

theorem returns_readOnly {o : FsOp} (ho : o.readOnly = true) (hnone : o.transfers = false)
    {Q : o.Ret → Fs → Prop} (hs : I fs) (hok : ∀ r, o.effect fs = some (r, fs) → Q r fs) :
    Returns (FileIo Short) I Q (perform o) fs := by
  refine returns_perform hs (fun x fs' h => ?_) fun r fs' h => ?_
  · rw [h.readOnly ho]
    exact hs
  · have heff := h.effect_of_ok hnone
    obtain rfl := effect_readOnly ho heff
    exact hok r heff

theorem returns_read {fd length position : Nat} (hs : I fs) :
    Returns (FileIo Short) I (fun _ t => t = fs) (perform (read fd length position)) fs := by
  refine returns_perform hs (fun x fs' h => ?_) fun r fs' h => h.readOnly rfl
  rw [h.readOnly rfl]
  exact hs

/-- `try { p } finally { await fd.close() }` -/
theorem returns_finally_close {α : Type} {Q : α → Fs → Prop} {p : Async α} (fd : Nat)
    (hp : Returns (FileIo Short) I Q p fs) :
    Returns (FileIo Short) I Q (p.ensuring (perform (close fd))) fs := by
  refine returns_ensuring hp (fun t ht => ?_) fun a t ht hq => ?_
  · exact returns_readOnly rfl rfl ht fun _ _ => trivial
  · exact returns_readOnly rfl rfl ht fun _ _ => hq

theorem completes_readOnly {o : FsOp} (ho : o.readOnly = true) (hnone : o.transfers = false)
    {Q : o.Ret → Fs → Prop} (hs : I fs) {r : o.Ret} (heff : o.effect fs = some (r, fs))
    (hq : Q r fs) : Completes (FileIo Short) I Q (perform o) fs := by
  refine ⟨returns_readOnly ho hnone hs fun r' heff' => ?_, r, fs, .perform (.ok heff)⟩
  rw [heff] at heff'
  cases heff'
  exact hq

theorem completes_finally_close {α : Type} {Q : α → Fs → Prop} {p : Async α} (fd : Nat)
    (hp : Completes (FileIo Short) I Q p fs) :
    Completes (FileIo Short) I Q (p.ensuring (perform (close fd))) fs := by
  refine completes_ensuring hp (fun t ht => ?_) fun a t ht hq => ?_
  · exact returns_readOnly rfl rfl ht fun _ _ => trivial
  · exact completes_readOnly rfl rfl ht rfl hq

/-- Two states with the same two files. -/
def SameFiles (fs fs' : Fs) : Prop :=
  fs'.vaultBin = fs.vaultBin ∧ fs'.compact = fs.compact

theorem returns_open {p : FilePath} {flags : Flags} (hfl : flags ≠ .w)
    {Q : Nat → Fs → Prop} (hI : ∀ fs', SameFiles fs fs' → I fs')
    (hok : ∀ fd fs' f, SameFiles fs fs' → fs'.handles[fd]? = some (p, 0) →
      fs.content p = some f → Q fd fs') :
    Returns (FileIo Short) I Q (perform (openFile p flags)) fs := by
  have heffect : ∀ fd fs', (openFile p flags).effect fs = some (fd, fs') →
      SameFiles fs fs' ∧ fs'.handles[fd]? = some (p, 0)
        ∧ ∃ f, fs.content p = some f := by
    intro fd fs' heff
    cases hc : fs.content p with
    | none => cases flags <;> simp [FsOp.effect, hc] at hfl heff
    | some f =>
      have hopen : some (fs.handles.length,
          { fs with handles := fs.handles ++ [(p, 0)] }) = some (fd, fs') := by
        cases flags <;> simp [FsOp.effect, hc] at hfl heff ⊢ <;> exact heff
      cases hopen
      exact ⟨⟨rfl, rfl⟩, by simp, f, rfl⟩
  refine returns_perform (hI fs ⟨rfl, rfl⟩) (fun x fs' h => ?_) fun fd fs' h => ?_
  · cases h with
    | ok heff => exact hI fs' (heffect _ _ heff).1
    | failed e => exact hI fs ⟨rfl, rfl⟩
    | late heff e => exact hI fs' (heffect _ _ heff).1
  · obtain ⟨hsame, hfd, f, hf⟩ := heffect _ _ (h.effect_of_ok rfl)
    exact hok fd fs' f hsame hfd hf

theorem returns_openCompact {Q : Nat → Fs → Prop}
    (hI : ∀ fs', fs'.vaultBin = fs.vaultBin → I fs')
    (hok : ∀ fd fs', fs'.vaultBin = fs.vaultBin → fs'.compact = some [] →
      fs'.handles[fd]? = some (.compact, 0) → Q fd fs') :
    Returns (FileIo Short) I Q (perform (openFile .compact .w)) fs := by
  refine returns_perform (hI fs rfl) (fun x fs' h => ?_) fun fd fs' h => ?_
  · cases h with
    | ok heff => cases heff; exact hI _ rfl
    | failed e => exact hI fs rfl
    | late heff e => cases heff; exact hI _ rfl
  · have heff := h.effect_of_ok rfl
    cases heff
    exact hok _ _ rfl rfl (by simp)

theorem completes_open {p : FilePath} {flags : Flags} {f : Bytes} (hfl : flags ≠ .w)
    (hf : fs.content p = some f) {Q : Nat → Fs → Prop}
    (hI : ∀ fs', SameFiles fs fs' → I fs')
    (hok : ∀ fd fs', SameFiles fs fs' → fs'.handles[fd]? = some (p, 0) → Q fd fs') :
    Completes (FileIo Short) I Q (perform (openFile p flags)) fs := by
  refine ⟨returns_open hfl hI fun fd fs' _ hsame hfd _ => hok fd fs' hsame hfd,
    fs.handles.length, { fs with handles := fs.handles ++ [(p, 0)] }, .perform (.ok ?_)⟩
  cases flags with
  | r => simp only [FsOp.effect, hf]
  | rPlus => simp only [FsOp.effect, hf]
  | w => exact absurd rfl hfl

theorem completes_openCompact (hI : ∀ t, t.vaultBin = fs.vaultBin → I t) :
    Completes (FileIo Short) I (fun fd t => t.vaultBin = fs.vaultBin ∧ t.compact = some []
      ∧ t.handles[fd]? = some (.compact, 0)) (perform (openFile .compact .w)) fs :=
  ⟨returns_openCompact hI fun _ _ ht hc hfd => ⟨ht, hc, hfd⟩, fs.handles.length, _,
    .perform (.ok rfl)⟩

/-- The handle is open on `VAULT.bin`, whose content is `f`. -/
def Opened (f : Bytes) (fd : Nat) (fs : Fs) : Prop :=
  fs.vaultBin = some f ∧ fs.handles[fd]? = some (.vaultBin, 0)

theorem completes_openVaultBin {flags : Flags} (hfl : flags ≠ .w) {f : Bytes}
    (hf : fs.vaultBin = some f) (hI : ∀ t, t.vaultBin = some f → I t) :
    Completes (FileIo Short) I (Opened f) (perform (openFile .vaultBin flags)) fs :=
  completes_open (p := .vaultBin) hfl hf (fun t ht => hI t (ht.1.trans hf))
    fun _ _ ht hfd => ⟨ht.1.trans hf, hfd⟩

theorem FsOp.effect_read {fd pos : Nat} {p : FilePath} {f : Bytes}
    (hfd : fs.handles[fd]? = some (p, pos)) (hf : fs.content p = some f)
    (length position : Nat) :
    (read fd length position).effect fs = some (pread f position length, fs) := by
  simp only [FsOp.effect, hfd, Option.bind_eq_bind, Option.bind_some, hf]
  rfl

theorem Opened.completes_read {f : Bytes} {fd : Nat} (h : Opened f fd fs) (hs : I fs)
    (length position : Nat) :
    Completes Io I (fun got t => got = pread f position length ∧ t = fs)
      (perform (read fd length position)) fs := by
  have heff := effect_read h.2 h.1 length position
  refine ⟨returns_perform hs (fun x t hio => ?_) fun got t hio => ?_, _, fs, .perform (.ok heff)⟩
  · rw [hio.readOnly rfl]
    exact hs
  · cases hio with
    | ok heff' =>
      rw [heff] at heff'
      cases heff'
      exact ⟨rfl, rfl⟩
    | shortRead n heff' hshort => exact hshort.elim

/-- The temporary file takes the place of `VAULT.bin` in one step. -/
theorem completes_rename {g : Bytes} (hg : fs.compact = some g) (hs : I fs)
    (hI : ∀ t, t.vaultBin = some g → I t) :
    Completes (FileIo Short) I (fun _ t => t.vaultBin = some g)
      (perform (rename .compact .vaultBin)) fs := by
  have hrename : (rename .compact .vaultBin).effect fs
      = some ((), { fs with vaultBin := some g, compact := none }) := by
    simp only [FsOp.effect, hg, Option.map_some]
  refine ⟨returns_perform hs (fun r t h => ?_) fun r t h => ?_, (), _, .perform (.ok hrename)⟩
  · cases h with
    | ok heff => rw [hrename] at heff; cases heff; exact hI _ rfl
    | failed e => exact hs
    | late heff e => rw [hrename] at heff; cases heff; exact hI _ rfl
  · have heff := h.effect_of_ok rfl
    rw [hrename] at heff
    cases heff
    rfl

/-- The state after a completed write of `buf` through handle `fd`. -/
def Fs.written (fs : Fs) (fd : Nat) (p : FilePath) (pos : Nat) (f : Bytes)
    (position : Option Nat) (buf : Bytes) : Fs :=
  match position with
  | some at_ => fs.setContent p (pwrite f at_ buf)
  | none => { fs.setContent p (pwrite f pos buf) with
      handles := fs.handles.set fd (p, pos + buf.length) }

theorem FsOp.effect_write {fd pos : Nat} {p : FilePath} {f : Bytes}
    (hfd : fs.handles[fd]? = some (p, pos)) (hf : fs.content p = some f)
    (position : Option Nat) (buf : Bytes) :
    (write fd buf position).effect fs
      = some ((), fs.written fd p pos f position buf) := by
  cases position with
  | none =>
    simp only [FsOp.effect, Fs.written, hfd, Option.bind_eq_bind, Option.bind_some, hf]
    rfl
  | some at_ =>
    simp only [FsOp.effect, Fs.written, hfd, Option.bind_eq_bind, Option.bind_some, hf]
    rfl

/-- A write: every end has written some prefix or nothing, a good end has
written the buffer, or less of it where it may. -/
theorem returns_write {fd pos : Nat} {p : FilePath} {f buf : Bytes}
    {position : Option Nat} {Q : Unit → Fs → Prop}
    (hfd : fs.handles[fd]? = some (p, pos)) (hf : fs.content p = some f)
    (hs : I fs) (hI : ∀ n, I (fs.written fd p pos f position (buf.take n)))
    (hok : Q () (fs.written fd p pos f position buf))
    (hless : Short (write fd buf position) fs →
      ∀ n, Q () (fs.written fd p pos f position (buf.take n))) :
    Returns (FileIo Short) I Q (perform (write fd buf position)) fs := by
  have hfull := effect_write hfd hf position buf
  have hpart := fun n => effect_write hfd hf position (buf.take n)
  have hwhole : I (fs.written fd p pos f position buf) := by
    have h := hI buf.length
    rwa [List.take_length] at h
  refine returns_perform hs (fun x fs' h => ?_) fun u fs' h => ?_
  · cases h with
    | ok heff =>
      rw [hfull] at heff
      cases heff
      exact hwhole
    | failed e => exact hs
    | late heff e =>
      rw [hfull] at heff
      cases heff
      exact hwhole
    | torn n heff e =>
      rw [hpart] at heff
      cases heff
      exact hI n
    | shortWrite n heff hshort =>
      rw [hpart] at heff
      cases heff
      exact hI n
  · cases h with
    | ok heff =>
      rw [hfull] at heff
      cases heff
      exact hok
    | shortWrite n heff hshort =>
      rw [hpart] at heff
      cases heff
      exact hless hshort n

theorem completes_write {fd pos : Nat} {p : FilePath} {f buf : Bytes}
    {position : Option Nat} {Q : Unit → Fs → Prop}
    (hfd : fs.handles[fd]? = some (p, pos)) (hf : fs.content p = some f)
    (hs : I fs) (hI : ∀ n, I (fs.written fd p pos f position (buf.take n)))
    (hok : Q () (fs.written fd p pos f position buf)) :
    Completes Io I Q (perform (write fd buf position)) fs :=
  ⟨returns_write hfd hf hs hI hok fun hshort => hshort.elim, (), _,
    .perform (.ok (effect_write hfd hf position buf))⟩

theorem returns_vaultBinPath (mountPoint : String) (hs : I fs) :
    Returns (FileIo Short) I (fun p t => p = FilePath.vaultBin ∧ t = fs)
      (vaultBinPath mountPoint) fs := by
  rw [vaultBinPath, validateMountPoint]
  split
  · exact returns_done hs ⟨rfl, rfl⟩
  · exact returns_fail _ hs

/-! ## Header writes -/

/-- `VAULT.bin` differs from `f` below the end of the header at most. -/
def HeaderOnly (f : Bytes) (fs : Fs) : Prop :=
  ∃ f', fs.vaultBin = some f' ∧ f'.length = f.length
    ∧ f'.drop HEADER_SIZE = f.drop HEADER_SIZE

theorem HeaderOnly.refl {f : Bytes} (h : fs.vaultBin = some f) : HeaderOnly f fs :=
  ⟨f, h, rfl, rfl⟩

theorem headerOnly_write {f buf : Bytes} (hlen : HEADER_SIZE ≤ f.length)
    (hbuf : buf.length ≤ HEADER_SIZE) (fd pos : Nat) :
    HeaderOnly f (fs.written fd .vaultBin pos f (some 0) buf) := by
  refine ⟨pwrite f 0 buf, rfl, ?_, ?_⟩
  · rw [pwrite_length buf (Nat.zero_le _)]
    omega
  · have hdrop := pwrite_drop buf (Nat.zero_le f.length)
    have hsplit : HEADER_SIZE = 0 + buf.length + (HEADER_SIZE - buf.length) := by omega
    rw [hsplit, ← List.drop_drop, hdrop, List.drop_drop]

/-- **A header write changes header bytes only**, at every point where it
may stop, and has written the header when it returns, if no write is short. -/
theorem returns_writeVaultHeader {f : Bytes} (mountPoint : String)
    (headerBytes : Bytes) (hf : fs.vaultBin = some f) (hlen : HEADER_SIZE ≤ f.length) :
    Returns (FileIo Short) (HeaderOnly f)
      (fun _ t => headerBytes.length = HEADER_SIZE ∧ headerBytes.take 8 = VAULT_MAGIC
        ∧ ((∀ o u, ¬Short o u) → t.vaultBin = some (headerBytes ++ f.drop HEADER_SIZE)))
      (writeVaultHeaderImpl mountPoint headerBytes) fs := by
  have hstart : HeaderOnly f fs := .refl hf
  rw [writeVaultHeaderImpl]
  by_cases hsize : headerBytes.length = HEADER_SIZE
  case neg => rw [if_pos hsize]; exact returns_fail _ hstart
  by_cases hmagic : headerBytes.take 8 = VAULT_MAGIC
  case neg => rw [if_neg (not_not_intro hsize), if_pos hmagic]; exact returns_fail _ hstart
  rw [if_neg (not_not_intro hsize), if_neg (not_not_intro hmagic)]
  have hwritten : pwrite f 0 headerBytes = headerBytes ++ f.drop HEADER_SIZE := by
    rw [pwrite_of_le _ (Nat.zero_le _), hsize]
    simp
  refine returns_bind (returns_vaultBinPath mountPoint hstart) ?_
  rintro _ _ _ ⟨rfl, rfl⟩
  refine returns_bind (completes_openVaultBin (by simp) hf fun t => .refl).1 ?_
  rintro fd t ht ⟨htf, hfd⟩
  refine returns_bind (M := fun _ u => (∀ o v, ¬Short o v) →
    u.vaultBin = some (headerBytes ++ f.drop HEADER_SIZE)) ?_ ?_
  · refine returns_finally_close fd ?_
    refine returns_bind (M := fun _ u => (∀ o v, ¬Short o v) →
      u.vaultBin = some (headerBytes ++ f.drop HEADER_SIZE)) ?_ ?_
    · refine returns_write hfd htf ht (fun n => ?_) (fun _ => ?_)
        fun hshort _ hnone => absurd hshort (hnone _ _)
      · exact headerOnly_write hlen (by rw [List.length_take]; omega) fd 0
      · exact congrArg some hwritten
    · intro _ u hu hq
      exact returns_readOnly rfl rfl hu fun _ _ => hq
  intro _ u hu hq
  refine returns_bind (M := fun _ v => v.vaultBin = u.vaultBin) ?_ ?_
  · refine returns_open (by simp) (fun v hv => ?_) fun _ v _ hv _ _ => hv.1
    obtain ⟨f', hf', hrest⟩ := hu
    exact ⟨f', hv.1.trans hf', hrest⟩
  intro verifyFd v hv hvu
  refine returns_finally_close verifyFd ?_
  refine returns_bind (returns_read hv) ?_
  rintro _ _ hw rfl
  exact returns_done hw ⟨hsize, hmagic, fun hnone => hvu.trans (hq hnone)⟩

/-! ## Appends -/

theorem returns_checkCapacity (mountPoint : String) (additionalBytes : Nat) :
    Returns (FileIo Short) (fun t => t = fs) (fun _ _ => True)
      (checkCapacity mountPoint additionalBytes) fs := by
  rw [checkCapacity]
  refine returns_bind (M := fun _ _ => True) ?_ ?_
  · rw [validateMountPoint]
    split
    · exact returns_done rfl trivial
    · exact returns_fail _ rfl
  rintro _ _ rfl _
  refine returns_bind (M := fun _ _ => True) ?_ ?_
  · refine returns_orElse ?_ fun t ht => returns_done ht trivial
    refine returns_bind (M := fun _ _ => True) ?_ ?_
    · exact returns_readOnly rfl rfl rfl fun _ _ => trivial
    · exact fun _ t ht _ => returns_done ht trivial
  rintro total _ rfl _
  cases total with
  | none => exact returns_done rfl trivial
  | some total =>
    refine returns_bind (M := fun _ _ => True) ?_ ?_
    · refine returns_orElse ?_ fun t ht => returns_done ht trivial
      refine returns_bind (returns_vaultBinPath mountPoint rfl) ?_
      rintro _ _ _ ⟨rfl, rfl⟩
      exact returns_readOnly (o := stat .vaultBin) rfl rfl rfl fun _ _ => trivial
    · exact fun _ t ht _ => returns_done ht trivial

/-- `VAULT.bin` is `f` followed by some prefix of `data`. -/
def Grown (f data : Bytes) (fs : Fs) : Prop :=
  ∃ n, fs.vaultBin = some (f ++ data.take n)

theorem Grown.refl {f : Bytes} (data : Bytes) (h : fs.vaultBin = some f) :
    Grown f data fs :=
  ⟨0, by simpa using h⟩

/-- **An append adds to the end of the file only**, and has added its data
at the range it returns, if its write is not short. -/
theorem returns_appendBytes {f : Bytes} (mountPoint : String) (data : Bytes)
    (hf : fs.vaultBin = some f)
    (hwhole : ∀ fd t, ¬Short (write fd data (some f.length)) t) :
    Returns (FileIo Short) (Grown f data)
      (fun entry t => entry = ⟨f.length, data.length⟩ ∧ data ≠ []
        ∧ data.length ≤ MAX_IO_SIZE ∧ t.vaultBin = some (f ++ data))
      (appendBytesImpl mountPoint data) fs := by
  have hstart : Grown f data fs := .refl data hf
  rw [appendBytesImpl]
  by_cases hempty : data = []
  case pos => rw [if_pos hempty]; exact returns_fail _ hstart
  by_cases hsize : MAX_IO_SIZE < data.length
  case pos => rw [if_neg hempty, if_pos hsize]; exact returns_fail _ hstart
  rw [if_neg hempty, if_neg hsize]
  refine returns_bind
    ((returns_checkCapacity mountPoint data.length).weaken fun t ht => ht ▸ hstart) ?_
  rintro capacity _ _ ⟨rfl, _⟩
  by_cases hallowed : capacity.allowed = true
  case neg => rw [if_neg hallowed]; exact returns_fail _ hstart
  rw [if_pos hallowed]
  refine returns_bind (returns_vaultBinPath mountPoint hstart) ?_
  rintro _ _ _ ⟨rfl, rfl⟩
  refine returns_bind (completes_openVaultBin (by simp) hf fun t => .refl data).1 ?_
  rintro fd t ht ⟨htf, hfd⟩
  refine returns_finally_close fd ?_
  refine returns_bind (M := fun offset u => offset = f.length ∧ u = t) ?_ ?_
  · refine returns_readOnly rfl rfl ht fun size heff => ⟨?_, rfl⟩
    simp only [FsOp.effect, hfd, Option.bind_eq_bind, Option.bind_some, Fs.content,
      htf] at heff
    cases heff
    rfl
  rintro _ _ _ ⟨rfl, rfl⟩
  refine returns_bind (M := fun _ u => u.vaultBin = some (f ++ data)) ?_ ?_
  · refine returns_write hfd htf ht (fun n => ⟨n, ?_⟩) ?_ fun hshort => absurd hshort (hwhole fd _)
    · exact congrArg some (pwrite_end f (data.take n))
    · exact congrArg some (pwrite_end f data)
  intro _ u hu hq
  refine returns_bind (M := fun _ v => v.vaultBin = some (f ++ data)) ?_ ?_
  · exact returns_readOnly rfl rfl hu fun _ _ => hq
  · exact fun _ v hv hq' => returns_done hv ⟨rfl, hempty, by omega, hq'⟩

end UsbVault.Companion
