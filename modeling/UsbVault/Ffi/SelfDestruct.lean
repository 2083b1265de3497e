import UsbVault.Vault.Unlock
import UsbVault.Ffi.HeaderOps

/-!
# SelfDestruct

Destruction is absorbing, and before it the fail counter counts. The
sentinel `KDF_HASH_ID_DESTROYED` is the invariant of the first half: no
header operation writes the KDF byte except to set it. The invariant of
the second is the count itself, over runs of increments and commits.
Last, two wiped headers: the bytes a wipe leaves are a function of the
fields it keeps and of the bytes it draws.
-/

namespace UsbVault

open Wire VaultHeader

variable {P : Primitives}

/-! ## Destroyed headers stay destroyed -/

theorem Effect.kdfHashId {h h' : VaultHeader} {op : HeaderOp} {code : Int}
    (he : Effect P h op code h') :
    h'.kdfHashId = h.kdfHashId ∨ h'.kdfHashId = KDF_HASH_ID_DESTROYED := by
  cases he with
  | incremented => exact .inl rfl
  | exceeded => exact .inr rfl
  | @reset key =>
    have hup := (SealAgree.upgrade h).kdfHashId
    rw [resetHeader_eq]
    generalize h.upgradeToV5IfEligible = g at hup ⊢
    exact .inl hup
  | @committed key off len =>
    exact .inl (SealAgree.commitNewIndex key off len h).kdfHashId
  | wiped => exact .inr rfl

/-- The bytes read to a V4+ header that carries the sentinel. -/
def Destroyed (data : Bytes) : Prop :=
  ∃ h, read data = .ok h ∧ ModernForm h
    ∧ h.kdfHashId = KDF_HASH_ID_DESTROYED

theorem isSelfDestructed_of_sentinel {h : VaultHeader}
    (hkdf : h.kdfHashId = KDF_HASH_ID_DESTROYED) :
    h.isSelfDestructed = true := by
  rw [isSelfDestructed, hkdf, beq_self_eq_true, Bool.true_or]

theorem Destroyed.apply {data : Bytes} (hd : Destroyed data) (op : HeaderOp) :
    Destroyed (op.apply P data) := by
  obtain ⟨h, hr, hm, hkdf⟩ := hd
  unfold HeaderOp.apply
  cases hout : (op.call P data).out with
  | none => exact ⟨h, hr, hm, hkdf⟩
  | some bytes =>
    obtain ⟨h', he, hm', hr'⟩ := HeaderOp.call_read hr hm.version_ge hout
    refine ⟨h', hr', hm', ?_⟩
    rcases he.kdfHashId with hsame | hdestroyed
    · exact hsame.trans hkdf
    · exact hdestroyed

theorem Destroyed.runCalls {data : Bytes} (hd : Destroyed data)
    (ops : List HeaderOp) : Destroyed (runCalls P ops data) :=
  Run.foldl_preserves (A := fun _ => True) (fun _ op _ hs => hs.apply op)
    ops data (fun _ _ => trivial) hd

/-- The three ways a vault is destroyed: an increment that reports the
limit, and the two erasures, written back. -/
inductive Destroys (P : Primitives) (data : Bytes) (h : VaultHeader) :
    Bytes → Prop where
  | tenthIncrement {entropy hmacKey outCapacity data₁}
      (hcall : usbvaultVaultFailCounterIncrement P entropy data hmacKey
        outCapacity = ⟨ERR_FAIL_COUNTER_EXCEEDED, some data₁⟩) :
      Destroys P data h data₁
  | selfDestruct {key entropy data₁}
      (hw : (h.selfDestruct P key entropy).write = some data₁) :
      Destroys P data h data₁
  | selfDestructWipe {entropy data₁}
      (hw : (h.selfDestructWipe entropy).write = some data₁) :
      Destroys P data h data₁

theorem Destroys.destroyed {data data₁ : Bytes} {h : VaultHeader}
    (hd : Destroys P data h data₁) (hr : read data = .ok h)
    (hm : ModernForm h) : Destroyed data₁ := by
  cases hd with
  | @tenthIncrement entropy hmacKey cap _ hcall =>
    have hout : ((HeaderOp.failCounterIncrement entropy hmacKey cap).call P
        data).out = some data₁ := congrArg FfiReturn.out hcall
    obtain ⟨h', he, hm', hr'⟩ := HeaderOp.call_read hr hm.version_ge hout
    have hcode : ((HeaderOp.failCounterIncrement entropy hmacKey cap).call P
        data).code = ERR_FAIL_COUNTER_EXCEEDED := congrArg FfiReturn.code hcall
    rw [hcode] at he
    cases he with
    | exceeded => exact ⟨_, hr', hm', rfl⟩
  | @selfDestruct key entropy _ hw =>
    have hm' := hm.selfDestruct P key entropy
    exact ⟨_, read_of_write hm'.wellFormed hw, hm', rfl⟩
  | @selfDestructWipe entropy _ hw =>
    have hm' := hm.selfDestructWipe entropy
    exact ⟨_, read_of_write hm'.wellFormed hw, hm', rfl⟩

/-! ## The fail counter counts -/

/-- Increments under the vault's key, and commits. -/
def HeaderOp.IsCounting (key : ByteVec 32) : HeaderOp → Prop
  | .failCounterIncrement _ hmacKey _ => hmacKey = key.toList
  | .failCounterReset _ _ => False
  | .commitIndex _ _ _ _ => True
  | .selfDestruct _ _ => False

/-- 1 for an increment whose caller has room for the header, else 0. -/
def HeaderOp.increments : HeaderOp → Nat
  | .failCounterIncrement _ _ cap => if HEADER_SIZE_V6 ≤ cap then 1 else 0
  | _ => 0

/-- The bytes read to a roomy header whose count is `n`. -/
def Counts (P : Primitives) (key : ByteVec 32) (n : Nat) (data : Bytes) : Prop :=
  ∃ h, read data = .ok h ∧ ModernForm h ∧ Roomy h
    ∧ h.readFailCounter P key = .ok (UInt32.ofNat n)

theorem saturatingAdd32_ofNat {n : Nat} (hn : n < 2 ^ 32 - 1) :
    saturatingAdd32 (UInt32.ofNat n) 1 = UInt32.ofNat (n + 1) := by
  have hone : (1 : UInt32).toNat = 1 := rfl
  rw [saturatingAdd32, UInt32.toNat_ofNat', Nat.mod_eq_of_lt (by omega), hone,
    Nat.min_eq_left (by omega)]

/-- The output of a call on a V4+ header has the header size, so a
smaller buffer gets none. -/
theorem HeaderOp.call_out_capacity {op : HeaderOp} {data bytes : Bytes}
    {h : VaultHeader} (hr : read data = .ok h) (hv : h.version ≥ 4)
    (hout : (op.call P data).out = some bytes) :
    HEADER_SIZE_V6 ≤ op.outCapacity := by
  obtain ⟨h₀, h', hr₀, he, hw⟩ := HeaderOp.call_out hout
  cases hr.symm.trans hr₀
  have hm : ModernForm h' := he.modernForm (.of_wellFormed (read_wellFormed hr) hv)
  rw [he.call_eq hr] at hout
  have hle := (emitHeader_out_iff.mp hout).2
  rw [← hm.headerSize_eq, ← write_length hw]
  exact hle

theorem Counts.apply {key : ByteVec 32} {n : Nat} {data : Bytes}
    {op : HeaderOp} (hop : op.IsCounting key) (hle : n + op.increments ≤ 9)
    (hc : Counts P key n data) :
    Counts P key (n + op.increments) (op.apply P data) := by
  obtain ⟨h, hr, hm, hroom, hcount⟩ := hc
  unfold HeaderOp.apply
  cases op with
  | failCounterIncrement entropy hmacKey cap =>
    obtain rfl : hmacKey = key.toList := hop
    by_cases hcap : HEADER_SIZE_V6 ≤ cap
    · -- the increment goes through, and its count is the next one
      have hone : n + 1 ≤ 9 := by
        simpa only [HeaderOp.increments, if_pos hcap] using hle
      have hnext := saturatingAdd32_ofNat (by omega : n < 2 ^ 32 - 1)
      have hlt : saturatingAdd32 (UInt32.ofNat n) 1 < MAX_FAIL_ATTEMPTS := by
        rw [hnext, UInt32.lt_iff_toNat_lt, UInt32.toNat_ofNat',
          Nat.mod_eq_of_lt (by omega)]
        exact Nat.lt_succ_of_le hone
      have he : Effect P h (.failCounterIncrement entropy key.toList cap)
          ERR_SUCCESS _ := .incremented hcount hlt
      rw [hnext] at he
      obtain ⟨bytes, hcall, hr'⟩ := he.call_roomy hr hm hroom hcap
      rw [hcall, HeaderOp.increments, if_pos hcap]
      exact ⟨_, hr', he.modernForm hm, he.roomy hm hroom,
        readFailCounter_counterUpdate P key _ h⟩
    · -- no room for the output: nothing is stored
      have hnone : ((HeaderOp.failCounterIncrement entropy key.toList cap).call
          P data).out = none := by
        rw [Option.eq_none_iff_forall_not_mem]
        intro bytes hout
        exact hcap (HeaderOp.call_out_capacity hr hm.version_ge hout)
      rw [hnone, HeaderOp.increments, if_neg hcap]
      exact ⟨h, hr, hm, hroom, hcount⟩
  | failCounterReset hmacKey cap => exact hop.elim
  | commitIndex hmacKey off len cap =>
    cases hout : ((HeaderOp.commitIndex hmacKey off len cap).call P data).out with
    | none => exact ⟨h, hr, hm, hroom, hcount⟩
    | some bytes =>
      obtain ⟨h', he, hm', hr'⟩ := HeaderOp.call_read hr hm.version_ge hout
      have hroom' : Roomy h' := he.roomy hm hroom
      generalize HeaderOp.call P _ data = ret at he
      obtain ⟨code, out⟩ := ret
      cases he with
      | @committed key' off len cap =>
        exact ⟨_, hr', hm', hroom',
          (readFailCounter_commitNewIndex P key key' off len h).trans
            hcount⟩
  | selfDestruct entropy cap => exact hop.elim

/-- **Below the limit a run adds the increments it made.** -/
theorem Counts.runCalls {key : ByteVec 32} {n : Nat} {data : Bytes}
    {ops : List HeaderOp} (hops : ∀ op ∈ ops, op.IsCounting key)
    (hle : n + (ops.map HeaderOp.increments).sum ≤ 9)
    (hc : Counts P key n data) :
    Counts P key (n + (ops.map HeaderOp.increments).sum) (runCalls P ops data) := by
  have hstep : ∀ n data (op : HeaderOp), op.IsCounting key →
      n + op.increments ≤ 9 → Counts P key n data →
      Counts P key (n + op.increments) (op.apply P data) :=
    fun _ _ _ hop hle hc => Counts.apply hop hle hc
  exact Run.foldl_counts hstep ops n data hops hle hc

theorem Counts.reset {key : ByteVec 32} {data : Bytes} {h : VaultHeader}
    {cap : Nat} (hr : read data = .ok h) (hm : ModernForm h) (hroom : Roomy h)
    (hcap : HEADER_SIZE_V6 ≤ cap) :
    Counts P key 0 ((HeaderOp.failCounterReset key.toList cap).apply P data) := by
  have he : Effect P h (.failCounterReset key.toList cap) ERR_SUCCESS
      (resetHeader P key h) := .reset
  obtain ⟨bytes, hcall, hr'⟩ := he.call_roomy hr hm hroom hcap
  rw [HeaderOp.apply, hcall]
  refine ⟨_, hr', he.modernForm hm, he.roomy hm hroom, ?_⟩
  rw [resetHeader_eq]
  exact readFailCounter_counterUpdate P key 0 _

theorem Counts.tenth {key : ByteVec 32} {data : Bytes}
    (hc : Counts P key 9 data) (entropy : EraseEntropy) {cap : Nat}
    (hcap : HEADER_SIZE_V6 ≤ cap) :
    ∃ data₁, usbvaultVaultFailCounterIncrement P entropy data key.toList cap
        = ⟨ERR_FAIL_COUNTER_EXCEEDED, some data₁⟩
      ∧ Destroyed data₁ := by
  obtain ⟨h, hr, hm, hroom, hcount⟩ := hc
  have he : Effect P h (.failCounterIncrement entropy key.toList cap)
      ERR_FAIL_COUNTER_EXCEEDED _ := .exceeded hcount (by decide)
  obtain ⟨data₁, hcall, hr'⟩ := he.call_roomy hr hm hroom hcap
  exact ⟨data₁, hcall, _, hr', he.modernForm hm, rfl⟩

/-! ## Self-destruct is absorbing -/

/-- **Self-destruct is absorbing, and the counter counts up to it**: once
a vault is destroyed, no run of header calls, failed or not, revives it;
and from a reset on, a run with `k < 10` increments leaves the counter
reading `k`, the tenth destroying the vault. -/
theorem selfDestruct_absorbing {data : Bytes} {h : VaultHeader}
    (hr : read data = .ok h) (hv : h.version ≥ 4) (hroom : Roomy h) :
    (∀ data₁, Destroys P data h data₁ → ∀ ops, ∃ h',
      read (runCalls P ops data₁) = .ok h' ∧ h'.isSelfDestructed = true
      ∧ ∀ password, unlock P password h' = .error .selfDestructed)
    ∧ (∀ (key : ByteVec 32) (cap : Nat) (ops : List HeaderOp),
      HEADER_SIZE_V6 ≤ cap → (∀ op ∈ ops, op.IsCounting key) →
      (ops.map HeaderOp.increments).sum < 10 → ∃ h',
        read (runCalls P (.failCounterReset key.toList cap :: ops) data) = .ok h'
        ∧ h'.readFailCounter P key
          = .ok (UInt32.ofNat (ops.map HeaderOp.increments).sum)
        ∧ ((ops.map HeaderOp.increments).sum = 9 → ∀ entropy, ∃ data₁,
          usbvaultVaultFailCounterIncrement P entropy
              (runCalls P (.failCounterReset key.toList cap :: ops) data)
              key.toList cap
            = ⟨ERR_FAIL_COUNTER_EXCEEDED, some data₁⟩)) := by
  have hm : ModernForm h := .of_wellFormed (read_wellFormed hr) hv
  constructor
  · intro data₁ hdestroys ops
    obtain ⟨h', hr', -, hkdf⟩ := (hdestroys.destroyed hr hm).runCalls (P := P) ops
    have hd := isSelfDestructed_of_sentinel hkdf
    exact ⟨h', hr', hd, unlock_selfDestructed hd⟩
  · intro key cap ops hcap hops hlt
    have hc : Counts P key (0 + (ops.map HeaderOp.increments).sum)
        (runCalls P (.failCounterReset key.toList cap :: ops) data) :=
      (Counts.reset hr hm hroom hcap).runCalls hops (by omega)
    rw [Nat.zero_add] at hc
    have htenth : (ops.map HeaderOp.increments).sum = 9 → ∀ entropy, ∃ data₁,
        usbvaultVaultFailCounterIncrement P entropy
            (runCalls P (.failCounterReset key.toList cap :: ops) data)
            key.toList cap
          = ⟨ERR_FAIL_COUNTER_EXCEEDED, some data₁⟩ := by
      intro hnine entropy
      rw [hnine] at hc
      obtain ⟨data₁, hcall, -⟩ := hc.tenth entropy hcap
      exact ⟨data₁, hcall⟩
    obtain ⟨h', hr', -, -, hcount⟩ := hc
    exact ⟨h', hr', hcount, htenth⟩

/-- A vault wiped, then reset; and a vault reset, then failed twice. -/
theorem selfDestruct_absorbing_sample :
    ∃ data, read data = .ok sampleVault
      ∧ (∃ data₁ h', Destroys transparentPrimitives data sampleVault data₁
        ∧ read (runCalls transparentPrimitives
            [.failCounterReset (zeros 32) 24576] data₁) = .ok h'
        ∧ unlock transparentPrimitives [] h' = .error .selfDestructed)
      ∧ (∃ h', read (runCalls transparentPrimitives
            [.failCounterReset (zeros 32) 24576,
             .failCounterIncrement ⟨zeroVec 32, zeroVec 24⟩ (zeros 32) 24576,
             .failCounterIncrement ⟨zeroVec 32, zeroVec 24⟩ (zeros 32) 24576]
            data) = .ok h'
        ∧ h'.readFailCounter transparentPrimitives (zeroVec 32) = .ok 2) := by
  obtain ⟨data, hr⟩ := sampleVault_roomy.stored sampleVault_modern
  obtain ⟨habsorb, hcount⟩ :=
    selfDestruct_absorbing (P := transparentPrimitives) hr (by decide)
      sampleVault_roomy
  refine ⟨data, hr, ?_, ?_⟩
  · have hwiped : Effect transparentPrimitives sampleVault
        (.selfDestruct ⟨zeroVec 32, zeroVec 24⟩ 24576) ERR_SUCCESS
        (sampleVault.selfDestructWipe ⟨zeroVec 32, zeroVec 24⟩) := .wiped
    have hroom := hwiped.roomy sampleVault_modern sampleVault_roomy
    have hd : Destroys transparentPrimitives data sampleVault _ :=
      .selfDestructWipe (write_of_fits hroom.fits)
    obtain ⟨h', hr', -, hu⟩ := habsorb _ hd [.failCounterReset (zeros 32) 24576]
    exact ⟨_, h', hd, hr', hu []⟩
  · obtain ⟨h', hr', hk, -⟩ := hcount (zeroVec 32) 24576
      [.failCounterIncrement ⟨zeroVec 32, zeroVec 24⟩ (zeros 32) 24576,
       .failCounterIncrement ⟨zeroVec 32, zeroVec 24⟩ (zeros 32) 24576]
      le_rfl (by simp [HeaderOp.IsCounting, zeroVec, zeros]) (by decide)
    exact ⟨h', hr', hk⟩

/-! ## A wipe forgets the secrets -/

/-- Two headers agree on everything a wipe keeps. -/
structure WipeAgree (g h : VaultHeader) : Prop where
  version : g.version = h.version
  cipherId : g.cipherId = h.cipherId
  activeIndexSlot : g.activeIndexSlot = h.activeIndexSlot
  index1Offset : g.index1Offset = h.index1Offset
  index1Length : g.index1Length = h.index1Length
  index2Offset : g.index2Offset = h.index2Offset
  index2Length : g.index2Length = h.index2Length
  commitCounter : g.commitCounter = h.commitCounter
  stateVersion : g.stateVersion = h.stateVersion
  argon2Memory : g.argon2Memory = h.argon2Memory
  argon2Time : g.argon2Time = h.argon2Time
  argon2Parallelism : g.argon2Parallelism = h.argon2Parallelism
  indexEncrypted : g.indexEncrypted = h.indexEncrypted

/-- The wiped headers are equal, field by field: what is not kept is
drawn or constant. -/
theorem WipeAgree.selfDestructWipe_eq {g h : VaultHeader} (ha : WipeAgree g h)
    (entropy : EraseEntropy) :
    g.selfDestructWipe entropy = h.selfDestructWipe entropy := by
  obtain ⟨hv, hc, hslot, ho₁, hl₁, ho₂, hl₂, hcommit, hstate, hmem, htime, hpar,
    hflag⟩ := ha
  simp only [selfDestructWipe, incrementStateVersion, cryptoEraseFields, hv, hc,
    hslot, ho₁, hl₁, ho₂, hl₂, hcommit, hstate, hmem, htime, hpar, hflag]

/-- A wiped header carries no variable-length field and fits every
version's size. -/
theorem selfDestructWipe_fits (entropy : EraseEntropy) (h : VaultHeader) :
    (h.selfDestructWipe entropy).Fits := by
  have hlen : encodedLen (h.selfDestructWipe entropy) ≤ 159 := by
    show 134 + 0 + (if h.version ≥ 3 then 12 + 0 + 0 + 0 else 0)
      + (if h.version ≥ 4 then 13 + 0 else 0) ≤ 159
    split_ifs <;> omega
  have hsize : 4096 ≤ headerSize (h.selfDestructWipe entropy).version := by
    unfold headerSize
    split_ifs <;> decide
  exact Nat.le_trans hlen (Nat.le_trans (by decide) hsize)

/-- **A wipe leaves nothing behind**: two headers that agree on version,
cipher, index pointers, counters, Argon2 parameters and index flag are
wiped, under the same drawn salt and IV, to the same bytes, whatever
secrets they carried and however long. -/
theorem selfDestructWipe_forgets (g h : VaultHeader) (ha : WipeAgree g h)
    (entropy : EraseEntropy) :
    ∃ bytes, (g.selfDestructWipe entropy).write = some bytes
      ∧ (h.selfDestructWipe entropy).write = some bytes := by
  rw [ha.selfDestructWipe_eq entropy]
  have hw := write_of_fits (selfDestructWipe_fits entropy h)
  exact ⟨_, hw, hw⟩

/-- The same vault before it had an identity, a 2FA and a counter block. -/
theorem selfDestructWipe_forgets_sample :
    ∃ bytes, (selfDestructWipe ⟨zeroVec 32, zeroVec 24⟩ sampleHeader).write
        = some bytes
      ∧ (selfDestructWipe ⟨zeroVec 32, zeroVec 24⟩
        { sampleHeader with
          verifyCiphertext := zeros 7
          wrappedMek := some (zeros 5)
          identityBlock := some [1, 2, 3]
          tfaBlock := some [4]
          failCounterBlock := none }).write = some bytes :=
  selfDestructWipe_forgets _ _
    ⟨rfl, rfl, rfl, rfl, rfl, rfl, rfl, rfl, rfl, rfl, rfl, rfl, rfl⟩ _

end UsbVault
