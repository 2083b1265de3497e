import UsbVault.App.CrashConsistency

/-!
# Locking while a call is in flight

`lock` fills the key arrays with zeros while a call still holds the vault
object and reads the arrays after its next `await`. While every step that
reads a key comes before the lock, all that is written is sealed under the
vault's own keys and the container keeps opening with the password
(`locked_run_unspoiled`). A call that reads a key after the lock seals
under zeros.
-/

namespace UsbVault.App

open Wire Js Companion

section Machine

variable (C : WebCrypto) (K : IndexCodec)

/-- Calls one after another on the open vault, and `lock` at any `await`.
`allowed` may bar a step of a call; a call may always end in an error. -/
inductive LockRun (allowed : Vault → Pc → Prop) (v₀ : Vault) : Vault → Pc → Prop
  | opened : LockRun allowed v₀ v₀ .done
  | call {v v' : Vault} {pc pc' : Pc} {c : Call} (h : LockRun allowed v₀ v pc)
      (hidle : pc.ended) (hbegin : Begin C K c v v' pc') : LockRun allowed v₀ v' pc'
  | step {v v' : Vault} {pc pc' : Pc} (h : LockRun allowed v₀ v pc)
      (hallowed : pc' ≠ .threw → allowed v pc) (hstep : CallStep C K v pc v' pc') : LockRun allowed v₀ v' pc'
  | lock {v : Vault} {pc : Pc} (h : LockRun allowed v₀ v pc) : LockRun allowed v₀ v.lock pc

end Machine

/-- All that was written is sealed under the vault's keys, and the
container opens with the password to an index that decrypts under them. -/
def Unspoiled (C : WebCrypto) (K : IndexCodec) (password : Bytes) (keys : VaultSession)
    (v : Vault) : Prop :=
  (∀ key ∈ v.sealedUnder, key = keys.encryptionKey ∨ key = keys.hmacKey)
    ∧ ∃ u, unlock C K v.disk password = some u ∧ u.session = keys

/-- A key is read only while the vault is held, an index is named only
below 4 GiB, and a compaction takes effect only when the vault has no
files and no index. -/
def BeforeLock (v : Vault) : Pc → Prop
  | .appendedIndex _ range => v.active ∧ range.offset < 2 ^ 32
  | .compacting activeFiles => activeFiles = []
      ∧ (activeRange (v.disk.take HEADER_SIZE)).length = 0
  | pc => pc.readsKey → v.active

variable {C : WebCrypto} {K : IndexCodec} {password : Bytes} {keys : VaultSession}
variable {v v' v₀ : Vault} {pc pc' : Pc} {disk : Bytes} {files : Files} {u : Opened}
variable {info : VaultHeaderInfo} {d : Contents}

/-! ## The invariant -/

/-- What holds of the vault and the call in flight. -/
structure Held (C : WebCrypto) (K : IndexCodec) (password : Bytes) (keys : VaultSession)
    (v : Vault) (pc : Pc) : Prop where
  sound : ∃ files, VaultSound C K password keys v files
  call : CallSound C K password keys v.disk pc
  session : v.active → v.session = keys
  sealed : ∀ key ∈ v.sealedUnder, key = keys.encryptionKey ∨ key = keys.hmacKey

theorem BeforeLock.active (h : BeforeLock v pc) (hreads : pc.readsKey) : v.active := by
  cases pc with
  | appendedIndex snap range => exact h.1
  | compacting activeFiles => cases hreads
  | _ => exact h hreads

/-- What a step writes is sealed under a key the call's assertion names. -/
theorem CallStep.sealed (hstep : CallStep C K v pc v' pc')
    (hpc : CallSound C K password keys v.disk pc)
    (h : ∀ key ∈ v.sealedUnder, key = keys.encryptionKey ∨ key = keys.hmacKey) :
    ∀ key ∈ v'.sealedUnder, key = keys.encryptionKey ∨ key = keys.hmacKey := by
  have hone : ∀ {r : Sealed}, r.key = keys.encryptionKey ∨ r.key = keys.hmacKey →
      ∀ key ∈ v.sealedUnder ++ [r.key], key = keys.encryptionKey ∨ key = keys.hmacKey := by
    intro r hr key hkey
    rcases List.mem_append.mp hkey with hold | hnew
    · exact h key hold
    · rw [List.mem_singleton.mp hnew]
      exact hr
  cases hstep with
  | record heff => exact hone (.inl hpc.1)
  | index heff => exact hone (.inl hpc.1)
  | header heff => exact hone (.inr hpc.1)
  | _ => exact h

theorem CallStep.active_eq (hstep : CallStep C K v pc v' pc') : v'.active = v.active := by
  cases hstep <;> rfl

/-- A compaction of a vault without files and index leaves its header. -/
theorem VaultSound.compact_empty (hv : VaultSound C K password keys v files)
    (hzero : (activeRange (v.disk.take HEADER_SIZE)).length = 0) :
    VaultSound C K password keys { v with disk := (compactOf v.disk []).2 } files := by
  obtain ⟨hok, htake⟩ := hv.toVaultOk.compact_empty
  have hnames := hv.names
  rw [Names, if_pos hzero] at hnames
  refine ⟨hok, ?_⟩
  rw [Names, htake, if_pos hzero]
  exact hnames

theorem Held.step (hC : C.aesGcm.Correct) (h : Held C K password keys v pc)
    (hallowed : pc' ≠ .threw → BeforeLock v pc) (hstep : CallStep C K v pc v' pc') :
    Held C K password keys v' pc' := by
  by_cases hthrew : pc' = .threw
  · subst hthrew
    obtain ⟨rfl, _⟩ := hstep.throws_eq
    exact ⟨h.sound, trivial, h.session, h.sealed⟩
  replace hallowed := hallowed hthrew
  obtain ⟨files, hsound⟩ := h.sound
  have hsession : v'.active → v'.session = keys := by
    rw [hstep.active_eq, hstep.session_eq]
    exact h.session
  have hkeys := hstep.sealed h.call h.sealed
  by_cases hcompact : ∃ activeFiles, pc = .compacting activeFiles
  · obtain ⟨activeFiles, rfl⟩ := hcompact
    obtain ⟨rfl, hzero⟩ := hallowed
    cases hstep with
    | compact => exact ⟨⟨files, hsound.compact_empty hzero⟩, trivial, hsession, hkeys⟩
    | throws hend => exact absurd rfl hthrew
  · obtain ⟨_, hsound', hcall⟩ := hstep.sound hC hsound h.call
      (fun hreads => h.session (hallowed.active hreads))
      (fun activeFiles heq => hcompact ⟨activeFiles, heq⟩)
      (by rintro snap range rfl; exact hallowed.2)
    exact ⟨⟨_, hsound'⟩, hcall, hsession, hkeys⟩

theorem Held.begin {c : Call} (hC : C.aesGcm.Correct) (h : Held C K password keys v pc)
    (hbegin : Begin C K c v v' pc') : Held C K password keys v' pc' := by
  obtain ⟨files, hsound⟩ := h.sound
  obtain ⟨_, hsound', hcall⟩ := hbegin.sound hC hsound h.session
  refine ⟨⟨files, hsound'⟩, hcall, ?_, ?_⟩
  · cases hbegin <;> exact h.session
  · cases hbegin <;> exact h.sealed

theorem Held.lock (h : Held C K password keys v pc) : Held C K password keys v.lock pc where
  sound := by
    obtain ⟨files, hsound⟩ := h.sound
    exact ⟨files, ⟨⟨hsound.headerOnDisk, hsound.cached, hsound.nodup⟩, hsound.names⟩⟩
  call := h.call
  session := fun hactive => by cases hactive
  sealed := h.sealed

theorem LockRun.held (hC : C.aesGcm.Correct) (hopen : Held C K password keys v₀ .done)
    (hrun : LockRun C K BeforeLock v₀ v pc) : Held C K password keys v pc := by
  induction hrun with
  | opened => exact hopen
  | call _ _ hbegin ih => exact ih.begin hC hbegin
  | step _ hallowed hstep ih => exact ih.step hC hallowed hstep
  | lock _ ih => exact ih.lock

/-! ## A lock in time -/

/-- **A lock spoils nothing while no key is read after it**: in every run
of calls with `lock` anywhere, everything written is sealed under the
vault's keys and the container opens with the password. -/
theorem locked_run_unspoiled (hC : C.aesGcm.Correct) (hlaid : LaidOut disk)
    (hopens : unlock C K disk password = some u)
    (hrun : LockRun C K BeforeLock (u.vault info) v pc) :
    Unspoiled C K password u.session v := by
  obtain ⟨hon, hgood, hnodup⟩ := unlock_sound hlaid hopens
  have hopen : Held C K password u.session (u.vault info) .done :=
    ⟨⟨u.files, ⟨⟨hon.toHeaderOnDisk, hgood, hnodup⟩, hon.names⟩⟩, trivial, fun _ => rfl,
      fun key hkey => by cases hkey⟩
  have hheld := hrun.held hC hopen
  obtain ⟨files, hsound⟩ := hheld.sound
  obtain ⟨u', hu', hkeys, _⟩ := hsound.onDisk.unlock
  exact ⟨hheld.sealed, u', hu', hkeys⟩

/-- A lock between the append of a record and the change of the index,
where the call then ends in an error. -/
theorem locked_run_unspoiled_sample : ∃ u info v,
    unlock transparentCrypto indexJson sampleDisk samplePassword = some u
      ∧ LockRun transparentCrypto indexJson BeforeLock (u.vault info) v .threw
      ∧ v.active = false ∧ v.sealedUnder = [u.session.encryptionKey]
      ∧ Unspoiled transparentCrypto indexJson samplePassword u.session v := by
  obtain ⟨u, info, hvault, _⟩ := sampleVault_intact fun _ => []
  obtain ⟨record, _, _, hencrypts, hrecord⟩ := record_steps (K := indexJson)
    (transparentAead_correct 12) transparentCrypto_total (u.vault info) [1] (by decide)
    "photo" "photo.jpg" (zeroVec 12)
  have hcall : LockRun transparentCrypto indexJson BeforeLock (u.vault info) (u.vault info)
      (.checkingCapacity "photo" "photo.jpg" [1]) := .call .opened rfl (.addFile _ _ _ rfl)
  have hrun := ((hcall.step (fun _ _ => rfl) hencrypts).step (fun _ => nofun) hrecord).lock.step
    (fun hne => absurd rfl hne) (.throws rfl)
  exact ⟨u, info, _, hvault.opens, hrun, rfl, rfl, locked_run_unspoiled (transparentAead_correct 12)
    hvault.laid hvault.opens hrun⟩

/-- **A key read after the lock is zero**: an add that is checking the
capacity when the vault is locked encrypts its record under zeros and
appends it. -/
theorem locked_add_seals_under_zero : ∃ u info v range,
    unlock transparentCrypto indexJson sampleDisk samplePassword = some u
      ∧ parseVaultHeader u.headerBytes = .ok info
      ∧ LockRun transparentCrypto indexJson (fun _ _ => True) (u.vault info) v
          (.appendedRecord "photo" "photo.jpg" [1] range)
      ∧ v.sealedUnder = [zeroVec 32]
      ∧ ¬Unspoiled transparentCrypto indexJson samplePassword u.session v := by
  obtain ⟨u, info, hvault, hkeys, _⟩ := sampleVault_intact fun _ => []
  obtain ⟨record, _, _, hencrypts, hrecord⟩ := record_steps (K := indexJson)
    (transparentAead_correct 12) transparentCrypto_total (u.vault info).lock [1]
    (by decide) "photo" "photo.jpg" (zeroVec 12)
  have hcall : LockRun transparentCrypto indexJson (fun _ _ => True) (u.vault info) (u.vault info)
      (.checkingCapacity "photo" "photo.jpg" [1]) := .call .opened rfl (.addFile _ _ _ rfl)
  have hrun := (hcall.lock.step (fun _ => trivial) hencrypts).step (fun _ => trivial) hrecord
  refine ⟨u, info, _, _, hvault.opens, hvault.parsed, hrun, rfl, ?_⟩
  rintro ⟨hsealed, _⟩
  have hzero := hsealed (zeroVec 32) List.mem_cons_self
  rw [hkeys] at hzero
  have hne : zeroVec 32 ≠ sampleKeys.encryptionKey ∧ zeroVec 32 ≠ sampleKeys.hmacKey := by decide
  exact hzero.elim hne.1 hne.2

end UsbVault.App
