import UsbVault.Auth.SigningKeys

/-!
# Key rotation and revocation

Three ways in which a rotation or revocation goes wrong: a token pair that
copied the old key names the new one; a revoked key goes on signing; an
instance does not learn a key another one has stored. In runs without these
(`KeysInOrder`) every token names its signer, none is issued under a revoked
key, and every one validates at every instance until it expires or its key
is revoked (`rotation_orphans_nothing`).
-/

namespace UsbVault.Auth.Signing

open Wire

/-! ## What the calls are about to do -/

/-- A token pair about to copy the instance's key. -/
def Call.copies : Call → Option InstanceID
  | .generate i .copyKey => some i
  | _ => none

/-- A call about to store a new key. -/
def Call.inserts : Call → Option InstanceID
  | .initializeKeys i .generateAndStore => some i
  | .rotate i .generateAndStore => some i
  | _ => none

/-- A call about to revoke a key. -/
def Call.revokes : Call → Option (InstanceID × Kid)
  | .revoke i kid .lock => some (i, kid)
  | _ => none

/-- A token pair with a copied key and a kid yet to be read. -/
def Call.unread : Call → Option (InstanceID × Key)
  | .generate i (.accessKid privKey _) => some (i, privKey)
  | .generate i (.refreshKid privKey _ _) => some (i, privKey)
  | _ => none

/-- The key a call has in hand. -/
def Call.holds : Call → Option (InstanceID × Key)
  | .generate i (.accessKid privKey _) => some (i, privKey)
  | .generate i (.refreshKid privKey _ _) => some (i, privKey)
  | .generate i (.sign privKey _ _ _) => some (i, privKey)
  | .initializeKeys i (.globals key) => some (i, key)
  | .rotate i (.globals key) => some (i, key)
  | _ => none

/-- The kids a token pair has read, with its key. -/
def Call.kidsRead : Call → Option (Key × List Kid)
  | .generate _ (.refreshKid privKey _ accessKid) => some (privKey, [accessKid])
  | .generate _ (.sign privKey _ accessKid refreshKid) => some (privKey, [accessKid, refreshKid])
  | _ => none

/-! ## The conditions -/

section

variable (kidOf : Key → Kid)

/-- The key is not copied between the change of the active key and that of
the global one. -/
def Call.CopiesSettled (s : Store) (c : Call) : Prop :=
  ∀ i ∈ c.copies, (s.instances i).state = .serving →
    (s.instances i).activeKey.map (·.key) = (s.instances i).jwtPrivateKey

/-- A key is stored when no other instance has loaded the keys, and no token
pair of its own has copied a key and has a kid to read. -/
def Call.InsertsAlone (s : Servers) (c : Call) (ok : Bool) : Prop :=
  ∀ i ∈ c.inserts, ok = true → (s.store.instances i).loaded →
    (∀ j, j < s.store.launched → j ≠ i → ¬(s.store.instances j).loaded)
    ∧ ∀ c' ∈ s.calls, ∀ u ∈ c'.unread, u.1 ≠ i

/-- A key is revoked when no instance signs with it and no call has it in
hand. -/
def Call.RevokesUnused (s : Servers) (c : Call) (ok : Bool) : Prop :=
  ∀ r ∈ c.revokes, ok = true → (s.store.instances r.1).state = .serving →
    (∀ j, j < s.store.launched → (s.store.instances j).loaded →
      (∀ active ∈ (s.store.instances j).activeKey, active.kid ≠ r.2)
      ∧ ∀ key ∈ (s.store.instances j).jwtPrivateKey, kidOf key ≠ r.2)
    ∧ ∀ c' ∈ s.calls, ∀ h ∈ c'.holds, (s.store.instances h.1).loaded → kidOf h.2 ≠ r.2

/-- No token pair overlaps the change of its instance's key, a key is stored
by an instance that is alone, and a key is revoked when it is out of use. -/
def KeysInOrder (s : Servers) : Action → Prop
  | .world _ => True
  | .exec k ok =>
    ∀ c ∈ s.calls[k]?,
      c.CopiesSettled s.store ∧ c.InsertsAlone s ok ∧ c.RevokesUnused kidOf s ok

instance (s : Store) (c : Call) : Decidable (c.CopiesSettled s) :=
  inferInstanceAs (Decidable (∀ i ∈ c.copies, _))

instance (s : Servers) (c : Call) (ok : Bool) : Decidable (c.InsertsAlone s ok) :=
  inferInstanceAs (Decidable (∀ i ∈ c.inserts, _ → _ → (∀ j, j < _ → _) ∧ ∀ c' ∈ s.calls, _))

instance (s : Servers) (c : Call) (ok : Bool) : Decidable (c.RevokesUnused kidOf s ok) :=
  inferInstanceAs (Decidable (∀ r ∈ c.revokes, _ → _ → (∀ j, j < _ → _ → _ ∧ _) ∧
    ∀ c' ∈ s.calls, ∀ h ∈ c'.holds, _ → kidOf h.2 ≠ r.2))

instance (s : Servers) (a : Action) : Decidable (KeysInOrder kidOf s a) :=
  match a with
  | .world _ => inferInstanceAs (Decidable True)
  | .exec k _ => inferInstanceAs (Decidable (∀ c ∈ s.calls[k]?, _ ∧ _ ∧ _))

/-! ## The invariant -/

/-- The key is stored, and not revoked. -/
def Store.InUse (s : Store) (key : Key) : Prop :=
  (∃ row ∈ s.rows, row.key = key) ∧ kidOf key ∉ s.revocations

/-- The table and every instance that has loaded it. -/
structure KeysOk (s : Store) : Prop where
  rowKid : ∀ row ∈ s.rows, row.kid = kidOf row.key
  unique : ∀ row ∈ s.rows, ∀ row' ∈ s.rows, row.kid = row'.kid → row = row'
  revokedRow : ∀ kid ∈ s.revocations, ∃ row ∈ s.rows, row.kid = kid
  status : ∀ row ∈ s.rows, row.status = .revoked ↔ row.kid ∈ s.revocations
  launched : ∀ i, (s.instances i).state ≠ .down → i < s.launched
  fresh : ∀ i, (s.instances i).state = .started → (s.instances i).jwtPrivateKey = none
  cached : ∀ i, (s.instances i).loaded → ∀ row ∈ s.rows, row.kid ∉ s.revocations →
    ∃ status, status ≠ .revoked
      ∧ (s.instances i).keyCache row.kid = some (⟨row.kid, row.key⟩, status)
  active : ∀ i, (s.instances i).loaded → ∀ active ∈ (s.instances i).activeKey,
    active.kid = kidOf active.key ∧ s.InUse kidOf active.key
  global : ∀ i, (s.instances i).loaded → ∀ key ∈ (s.instances i).jwtPrivateKey,
    s.InUse kidOf key
  issued : ∀ t ∈ s.issued, t.kid = kidOf t.signer ∧ ∃ row ∈ s.rows, row.key = t.signer

/-- The keys and kids of a call. -/
structure CallOk (s : Store) (c : Call) : Prop where
  begun : ∀ h ∈ c.holds, h.1 < s.launched ∧ (s.instances h.1).state ≠ .started
  inUse : ∀ h ∈ c.holds, (s.instances h.1).loaded → s.InUse kidOf h.2
  active : ∀ u ∈ c.unread, (s.instances u.1).loaded →
    (s.instances u.1).activeKey = some ⟨kidOf u.2, u.2⟩
  kids : ∀ p ∈ c.kidsRead, ∀ kid ∈ p.2, kid = kidOf p.1

/-! ## Where a command comes from -/

/-- The state of a call in which each command is issued, with what the call
has found. -/
inductive Statement (s : Store) : Call → Bool → Command → Prop where
  | nothing {c : Call} {ok : Bool} : Statement s c ok .nothing
  | lock {c : Call} {ok : Bool} {i : InstanceID} {call : Nat} : Statement s c ok (.lock i call)
  | unlock {c : Call} {ok : Bool} {i : InstanceID} : Statement s c ok (.unlock i)
  | load {i : InstanceID} (hstate : (s.instances i).state = .started) :
      Statement s (.initializeKeys i .query) true (.load i)
  | crash {c : Call} {ok : Bool} {i : InstanceID} : Statement s c ok (.crash i)
  | markRotated {i : InstanceID} {active : SigningKey}
      (hstate : (s.instances i).loaded) (hactive : (s.instances i).activeKey = some active) :
      Statement s (.rotate i .markRotated) true (.markRotated i active.kid)
  | insert {c : Call} {i : InstanceID} (hc : c.inserts = some i)
      (hstate : (s.instances i).loaded) (hnew : ∀ row ∈ s.rows, row.kid ≠ kidOf s.drawn) :
      Statement s c true (.insert i)
  | drawKey {c : Call} {ok : Bool} : Statement s c ok .drawKey
  | setGlobals {c : Call} {ok : Bool} {i : InstanceID} {key : Key} (hc : c.holds = some (i, key))
      (hstate : (s.instances i).loaded) : Statement s c ok (.setGlobals i key)
  | revoke {i : InstanceID} {kid : Kid} (hstate : (s.instances i).state = .serving) :
      Statement s (.revoke i kid .lock) true (.revoke i kid)
  | issue {i : InstanceID} {privKey : Key} {now : Nat} {accessKid refreshKid : Kid} {ok : Bool}
      (hstate : (s.instances i).loaded) :
      Statement s (.generate i (.sign privKey now accessKid refreshKid)) ok
        (.issue ⟨accessKid, privKey, numericDate (now + accessTokenTTL)⟩
          ⟨refreshKid, privKey, numericDate (now + refreshTokenTTL)⟩)

variable {kidOf}
variable {s : Store} {c : Call} {k : Nat} {ok : Bool}

theorem loaded_of_serving {inst : Instance} (h : inst.state = .serving) : inst.loaded = true := by
  simp [Instance.loaded, h]

theorem loaded_of_loading {inst : Instance} (h : inst.state = .loading) : inst.loaded = true := by
  simp [Instance.loaded, h]

theorem state_ne_of_loaded {inst : Instance} (h : inst.loaded = true) :
    inst.state ≠ .down ∧ inst.state ≠ .started := by
  constructor <;> intro hstate <;> simp [Instance.loaded, hstate] at h

theorem canInsert_iff :
    s.canInsert kidOf ok = true ↔ ok = true ∧ ∀ row ∈ s.rows, row.kid ≠ kidOf s.drawn := by
  simp [Store.canInsert]

theorem execInitialize_statement {i : InstanceID} (pc : InitializePc)
    (hstate : (s.instances i).state = if pc = .query then .started else .loading) :
    Statement kidOf s (.initializeKeys i pc) ok (execInitialize kidOf s i pc ok).1 := by
  cases pc with
  | query =>
    cases ok with
    | false => exact .crash
    | true =>
      rw [execInitialize]
      simp only [if_true]
      split <;> exact .load hstate
  | generateAndStore =>
    rw [execInitialize]
    split
    · rename_i hinsert
      obtain ⟨rfl, hnew⟩ := canInsert_iff.mp hinsert
      exact .insert rfl (loaded_of_loading hstate) hnew
    · exact .drawKey
  | globals key => exact .setGlobals rfl (loaded_of_loading hstate)
  | abort => exact .crash
  | ended => exact .nothing

theorem execGenerate_statement {i : InstanceID} (pc : GeneratePc)
    (hstate : (s.instances i).state = .serving) :
    Statement kidOf s (.generate i pc) ok (execGenerate s i pc).1 := by
  cases pc with
  | copyKey =>
    rw [execGenerate]
    split <;> exact .nothing
  | accessKid privKey now =>
    rw [execGenerate]
    split <;> exact .nothing
  | refreshKid privKey now accessKid =>
    rw [execGenerate]
    split <;> exact .nothing
  | sign privKey now accessKid refreshKid => exact .issue (loaded_of_serving hstate)
  | returned => exact .nothing

theorem execRotate_statement {i : InstanceID} (pc : RotatePc)
    (hstate : (s.instances i).state = .serving) :
    Statement kidOf s (.rotate i pc) ok (execRotate kidOf s k i pc ok).1 := by
  cases pc with
  | lock =>
    rw [execRotate]
    split
    · exact .nothing
    · exact .lock
  | markRotated =>
    rw [execRotate]
    split
    · rename_i active hactive
      cases ok with
      | false => exact .nothing
      | true => exact .markRotated (loaded_of_serving hstate) hactive
    · exact .nothing
  | generateAndStore =>
    rw [execRotate]
    split
    · rename_i hinsert
      obtain ⟨rfl, hnew⟩ := canInsert_iff.mp hinsert
      exact .insert rfl (loaded_of_serving hstate) hnew
    · exact .drawKey
  | globals key => exact .setGlobals rfl (loaded_of_serving hstate)
  | abort => exact .unlock
  | ended => exact .nothing

/-- **What a call issues** is a statement of its state. -/
theorem exec_statement (c : Call) : Statement kidOf s c ok (c.exec kidOf s k ok).1 := by
  cases c with
  | initializeKeys i pc =>
    rw [Call.exec]
    by_cases hstate : (s.instances i).state = if pc = .query then .started else .loading
    · rw [if_pos hstate]
      exact execInitialize_statement pc hstate
    · rw [if_neg hstate]
      exact .nothing
  | generate i pc =>
    rw [Call.exec]
    split
    · rename_i hstate
      exact execGenerate_statement pc hstate
    · exact .nothing
  | rotate i pc =>
    rw [Call.exec]
    split
    · rename_i hstate
      exact execRotate_statement pc hstate
    · exact .nothing
  | revoke i kid pc =>
    rw [Call.exec]
    split
    · rename_i hstate
      cases pc with
      | lock =>
        simp only [execRevoke]
        split
        · exact .nothing
        · cases ok with
          | false => exact .nothing
          | true => exact .revoke hstate
      | ended => exact .nothing
    · exact .nothing

/-! ## The table -/

@[simp] theorem setInstance_self {i : InstanceID} {inst : Instance} :
    (s.setInstance i inst).instances i = inst := by
  simp [Store.setInstance]

@[simp] theorem setInstance_ne {i j : InstanceID} {inst : Instance} (h : j ≠ i) :
    (s.setInstance i inst).instances j = s.instances j := by
  simp [Store.setInstance, h]

theorem of_mem_setRowStatus {rows : List Row} {kid : Kid} {status : Status} {row : Row}
    (h : row ∈ Store.setRowStatus rows kid status) :
    ∃ old ∈ rows, row = if old.kid = kid then { old with status := status } else old := by
  obtain ⟨old, hold, rfl⟩ := List.mem_map.mp h
  exact ⟨old, hold, rfl⟩

theorem mem_setRowStatus_of {rows : List Row} {kid : Kid} {status : Status} {row : Row}
    (h : row ∈ rows) :
    ∃ row' ∈ Store.setRowStatus rows kid status, row'.kid = row.kid ∧ row'.key = row.key := by
  refine ⟨_, List.mem_map_of_mem h, ?_⟩
  by_cases hkid : row.kid = kid
  · simp [hkid]
  · simp [hkid]

theorem exists_row_setRowStatus {rows : List Row} {kid : Kid} {status : Status} {key : Key}
    (h : ∃ row ∈ rows, row.key = key) : ∃ row ∈ Store.setRowStatus rows kid status, row.key = key := by
  obtain ⟨row, hrow, hkey⟩ := h
  obtain ⟨row', hrow', -, hkey'⟩ := mem_setRowStatus_of hrow
  exact ⟨row', hrow', hkey'.trans hkey⟩

theorem KeysOk.launched_of_loaded (h : KeysOk kidOf s) {i : InstanceID}
    (hloaded : (s.instances i).loaded) : i < s.launched :=
  h.launched i (state_ne_of_loaded hloaded).1

theorem KeysOk.setInstance (h : KeysOk kidOf s) {i : InstanceID} {inst : Instance}
    (hlaunched : inst.state ≠ .down → i < s.launched)
    (hfresh : inst.state = .started → inst.jwtPrivateKey = none)
    (hcached : inst.loaded → ∀ row ∈ s.rows, row.kid ∉ s.revocations →
      ∃ status, status ≠ .revoked ∧ inst.keyCache row.kid = some (⟨row.kid, row.key⟩, status))
    (hactive : inst.loaded → ∀ active ∈ inst.activeKey,
      active.kid = kidOf active.key ∧ s.InUse kidOf active.key)
    (hglobal : inst.loaded → ∀ key ∈ inst.jwtPrivateKey, s.InUse kidOf key) :
    KeysOk kidOf (s.setInstance i inst) := by
  refine ⟨h.rowKid, h.unique, h.revokedRow, h.status, ?_, ?_, ?_, ?_, ?_, h.issued⟩
  all_goals
    intro j
    by_cases hj : j = i
    · subst hj
      rw [setInstance_self]
      assumption
    · rw [setInstance_ne hj]
      first
        | exact h.launched j
        | exact h.fresh j
        | exact h.cached j
        | exact h.active j
        | exact h.global j

theorem KeysOk.setGlobals (h : KeysOk kidOf s) {i : InstanceID} {key : Key}
    (hloaded : (s.instances i).loaded) (hkey : s.InUse kidOf key) :
    KeysOk kidOf (s.apply kidOf (.setGlobals i key)) := by
  refine h.setInstance (fun _ => h.launched_of_loaded hloaded) (by simp)
    (fun _ => h.cached i hloaded)
    (fun _ => h.active i hloaded) ?_
  intro _ key' hkey'
  cases hkey'
  exact hkey

theorem KeysOk.crash (h : KeysOk kidOf s) {i : InstanceID} :
    KeysOk kidOf (s.setInstance i { s.instances i with state := .down }) := by
  refine h.setInstance ?_ ?_ ?_ ?_ ?_ <;> simp [Instance.loaded]

theorem KeysOk.setWriter (h : KeysOk kidOf s) {i : InstanceID} {writer : Option Nat} :
    KeysOk kidOf (s.setInstance i { s.instances i with writer := writer }) :=
  h.setInstance (h.launched i) (h.fresh i) (h.cached i) (h.active i) (h.global i)

/-- What `Initialize` reads. -/
theorem KeysOk.load (h : KeysOk kidOf s) {i : InstanceID}
    (hstate : (s.instances i).state = .started) : KeysOk kidOf (s.apply kidOf (.load i)) := by
  have hnone : (s.instances i).jwtPrivateKey = none := h.fresh i hstate
  refine h.setInstance ?_ ?_ ?_ ?_ ?_
  · intro _
    exact h.launched i (by rw [hstate]; decide)
  · intro hloading
    cases hloading
  · intro _ row hrow hlive
    have hstatus : row.status ≠ .revoked := fun heq => hlive ((h.status row hrow).mp heq)
    have hmem : row ∈ s.rows.filter (·.status ≠ .revoked) := by simp [hrow, hstatus]
    cases hfind : (s.rows.filter (·.status ≠ .revoked)).find? (·.kid = row.kid) with
    | none =>
      have hnot := List.find?_eq_none.mp hfind row hmem
      simp at hnot
    | some row' =>
      have hkid : row'.kid = row.kid := by simpa using List.find?_some hfind
      have hrow' : row' ∈ s.rows := List.mem_of_mem_filter (List.mem_of_find?_eq_some hfind)
      obtain rfl := h.unique row' hrow' row hrow hkid
      exact ⟨row'.status, hstatus, by simp only [Instance.loadKeys, hfind, Option.map_some]⟩
  · intro _ active hactive
    simp only [Instance.loadKeys, Option.mem_def, Option.map_eq_some_iff] at hactive
    obtain ⟨row, hfind, rfl⟩ := hactive
    have hfiltered := List.mem_of_find?_eq_some hfind
    have hrow : row ∈ s.rows := List.mem_of_mem_filter hfiltered
    have hstatus : row.status ≠ .revoked := by simpa using List.of_mem_filter hfiltered
    have hkid := h.rowKid row hrow
    refine ⟨hkid, ⟨row, hrow, rfl⟩, ?_⟩
    rw [← hkid]
    exact fun hmem => hstatus ((h.status row hrow).mpr hmem)
  · intro _ key hkey
    simp only [Instance.loadKeys, hnone] at hkey
    cases hkey

theorem unique_setRowStatus {rows : List Row} {kid : Kid} {status : Status}
    (h : ∀ row ∈ rows, ∀ row' ∈ rows, row.kid = row'.kid → row = row') :
    ∀ row ∈ Store.setRowStatus rows kid status, ∀ row' ∈ Store.setRowStatus rows kid status,
      row.kid = row'.kid → row = row' := by
  intro row hrow row' hrow' heq
  obtain ⟨old, hold, rfl⟩ := of_mem_setRowStatus hrow
  obtain ⟨old', hold', rfl⟩ := of_mem_setRowStatus hrow'
  have hkid : old.kid = old'.kid := by
    by_cases h₁ : old.kid = kid <;> by_cases h₂ : old'.kid = kid <;> simp_all
  rw [h old hold old' hold' hkid]

theorem cached_setStatus {inst : Instance} {rows : List Row} {kid : Kid} {status : Status}
    {revocations : List Kid}
    (hstatus : status ≠ .revoked ∨ ∀ row ∈ rows, row.kid = kid → row.kid ∈ revocations)
    (h : ∀ row ∈ rows, row.kid ∉ revocations → ∃ status, status ≠ .revoked
      ∧ inst.keyCache row.kid = some (⟨row.kid, row.key⟩, status)) :
    ∀ row ∈ Store.setRowStatus rows kid status, row.kid ∉ revocations → ∃ status', status' ≠ .revoked
      ∧ (inst.setStatus kid status).keyCache row.kid = some (⟨row.kid, row.key⟩, status') := by
  intro row hrow hlive
  obtain ⟨old, hold, rfl⟩ := of_mem_setRowStatus hrow
  by_cases hkid : old.kid = kid
  · simp only [hkid, if_true] at hlive ⊢
    subst hkid
    rcases hstatus with hstatus | hrevoked
    · obtain ⟨was, -, hentry⟩ := h old hold hlive
      exact ⟨status, hstatus, by simp [Instance.setStatus, hentry]⟩
    · exact absurd (hrevoked old hold rfl) hlive
  · simp only [hkid, if_false] at hlive ⊢
    obtain ⟨was, hwas, hentry⟩ := h old hold hlive
    exact ⟨was, hwas, by simp [Instance.setStatus, hkid, hentry]⟩

theorem cached_setRowStatus {inst : Instance} {rows : List Row} {kid : Kid} {status : Status}
    {revocations : List Kid}
    (h : ∀ row ∈ rows, row.kid ∉ revocations → ∃ status, status ≠ .revoked
      ∧ inst.keyCache row.kid = some (⟨row.kid, row.key⟩, status)) :
    ∀ row ∈ Store.setRowStatus rows kid status, row.kid ∉ revocations → ∃ status', status' ≠ .revoked
      ∧ inst.keyCache row.kid = some (⟨row.kid, row.key⟩, status') := by
  intro row hrow hlive
  obtain ⟨old, hold, rfl⟩ := of_mem_setRowStatus hrow
  by_cases hkid : old.kid = kid
  · simp only [hkid, if_true] at hlive ⊢
    subst hkid
    exact h old hold hlive
  · simp only [hkid, if_false] at hlive ⊢
    exact h old hold hlive

/-- One key's status is set in the table and in the cache of instance `i`. -/
structure StatusSet (s t : Store) (i : InstanceID) (kid : Kid) (status : Status) : Prop where
  rows : t.rows = Store.setRowStatus s.rows kid status
  self : t.instances i = (s.instances i).setStatus kid status
  other : ∀ j, j ≠ i → t.instances j = s.instances j
  launched : t.launched = s.launched
  issued : t.issued = s.issued
  revocations : ∀ kid', kid' ∈ t.revocations ↔ kid' ∈ s.revocations
    ∨ status = .revoked ∧ kid' = kid ∧ ∃ row ∈ s.rows, row.kid = kid

variable {t : Store} {i : InstanceID} {kid : Kid} {status : Status}

theorem StatusSet.same (h : StatusSet s t i kid status) (j : InstanceID) :
    (t.instances j).state = (s.instances j).state
      ∧ (t.instances j).jwtPrivateKey = (s.instances j).jwtPrivateKey
      ∧ (t.instances j).activeKey = (s.instances j).activeKey := by
  by_cases hj : j = i
  · subst hj
    rw [h.self]
    exact ⟨rfl, rfl, rfl⟩
  · rw [h.other j hj]
    exact ⟨rfl, rfl, rfl⟩

theorem StatusSet.loaded_eq (h : StatusSet s t i kid status) (j : InstanceID) :
    (t.instances j).loaded = (s.instances j).loaded := by
  rw [Instance.loaded, Instance.loaded, (h.same j).1]

theorem StatusSet.inUse (h : StatusSet s t i kid status) {key : Key}
    (hne : status = .revoked → kidOf key ≠ kid) (hkey : s.InUse kidOf key) :
    t.InUse kidOf key := by
  refine ⟨?_, ?_⟩
  · rw [h.rows]
    exact exists_row_setRowStatus hkey.1
  · rw [h.revocations]
    intro hmem
    rcases hmem with hold | ⟨hrevoked, heq, -⟩
    · exact hkey.2 hold
    · exact hne hrevoked heq

theorem StatusSet.status_iff (hset : StatusSet s t i kid status) (h : KeysOk kidOf s)
    (hlive : status ≠ .revoked → kid ∉ s.revocations) {row : Row} (hrow : row ∈ t.rows) :
    row.status = .revoked ↔ row.kid ∈ t.revocations := by
  rw [hset.rows] at hrow
  rw [hset.revocations]
  obtain ⟨old, hold, rfl⟩ := of_mem_setRowStatus hrow
  by_cases heq : old.kid = kid
  · rw [if_pos heq]
    constructor
    · intro hrevoked
      exact .inr ⟨hrevoked, heq, old, hold, heq⟩
    · intro hmem
      by_contra hne
      rcases hmem with hmem | ⟨hrevoked, -, -⟩
      · exact hlive hne (heq ▸ hmem)
      · exact hne hrevoked
  · rw [if_neg heq, h.status old hold]
    simp [heq]

/-- Each cache holds the keys that are not revoked, as the table does. -/
theorem StatusSet.cached (hset : StatusSet s t i kid status) (h : KeysOk kidOf s)
    {j : InstanceID} (hloaded : (s.instances j).loaded) :
    ∀ row ∈ t.rows, row.kid ∉ t.revocations → ∃ status', status' ≠ .revoked
      ∧ (t.instances j).keyCache row.kid = some (⟨row.kid, row.key⟩, status') := by
  have hcached : ∀ row ∈ s.rows, row.kid ∉ t.revocations → ∃ status, status ≠ .revoked
      ∧ (s.instances j).keyCache row.kid = some (⟨row.kid, row.key⟩, status) := by
    intro row hrow hnot
    exact h.cached j hloaded row hrow fun hmem =>
      hnot ((hset.revocations row.kid).mpr (.inl hmem))
  rw [hset.rows]
  by_cases hj : j = i
  · subst hj
    rw [hset.self]
    refine cached_setStatus ?_ hcached
    by_cases hrevoked : status = .revoked
    · right
      intro row hrow heq
      exact (hset.revocations row.kid).mpr (.inr ⟨hrevoked, heq, row, hrow, heq⟩)
    · exact .inl hrevoked
  · rw [hset.other j hj]
    exact cached_setRowStatus hcached

/-- **A change of status**, to rotated for a key that is not revoked, to
revoked for one that no instance signs with. -/
theorem KeysOk.statusSet (h : KeysOk kidOf s) (hset : StatusSet s t i kid status)
    (hlive : status ≠ .revoked → kid ∉ s.revocations)
    (hunused : status = .revoked → ∀ j, (s.instances j).loaded →
      (∀ active ∈ (s.instances j).activeKey, active.kid ≠ kid)
      ∧ ∀ key ∈ (s.instances j).jwtPrivateKey, kidOf key ≠ kid) : KeysOk kidOf t := by
  constructor
  · intro row hrow
    rw [hset.rows] at hrow
    obtain ⟨old, hold, rfl⟩ := of_mem_setRowStatus hrow
    have hkid := h.rowKid old hold
    by_cases heq : old.kid = kid
    · rw [if_pos heq]
      exact hkid
    · rw [if_neg heq]
      exact hkid
  · rw [hset.rows]
    exact unique_setRowStatus h.unique
  · intro kid' hmem
    have hrow : ∃ row ∈ s.rows, row.kid = kid' := by
      rcases (hset.revocations kid').mp hmem with hold | ⟨-, rfl, hrow⟩
      · exact h.revokedRow kid' hold
      · exact hrow
    obtain ⟨row, hrow, rfl⟩ := hrow
    rw [hset.rows]
    obtain ⟨row', hrow', hkid', -⟩ := @mem_setRowStatus_of s.rows kid status row hrow
    exact ⟨row', hrow', hkid'⟩
  · exact fun row hrow => hset.status_iff h hlive hrow
  · intro j
    rw [(hset.same j).1, hset.launched]
    exact h.launched j
  · intro j
    rw [(hset.same j).1, (hset.same j).2.1]
    exact h.fresh j
  · intro j hloaded
    rw [hset.loaded_eq] at hloaded
    exact hset.cached h hloaded
  · intro j hloaded active hactive
    rw [hset.loaded_eq] at hloaded
    rw [(hset.same j).2.2] at hactive
    obtain ⟨hkid, hinUse⟩ := h.active j hloaded active hactive
    refine ⟨hkid, hset.inUse ?_ hinUse⟩
    intro hrevoked
    rw [← hkid]
    exact (hunused hrevoked j hloaded).1 active hactive
  · intro j hloaded key hkey
    rw [hset.loaded_eq] at hloaded
    rw [(hset.same j).2.1] at hkey
    exact hset.inUse (fun hrevoked => (hunused hrevoked j hloaded).2 key hkey)
      (h.global j hloaded key hkey)
  · intro token htoken
    rw [hset.issued] at htoken
    obtain ⟨hkid', hrow⟩ := h.issued token htoken
    rw [hset.rows]
    exact ⟨hkid', exists_row_setRowStatus hrow⟩

theorem statusSet_markRotated :
    StatusSet s (s.apply kidOf (.markRotated i kid)) i kid .rotated := by
  refine ⟨rfl, setInstance_self, fun j hj => setInstance_ne hj, rfl, rfl, ?_⟩
  intro kid'
  simp [Store.apply, Store.setInstance]

theorem statusSet_revoke : StatusSet s (s.apply kidOf (.revoke i kid)) i kid .revoked := by
  refine ⟨rfl, setInstance_self, fun j hj => setInstance_ne hj, rfl, rfl, ?_⟩
  intro kid'
  show kid' ∈ s.revocations ++ (if s.rows.any (·.kid = kid) then [kid] else []) ↔ _
  by_cases hany : ∃ row ∈ s.rows, row.kid = kid
  · simp [hany]
  · simp [hany]

theorem Store.InUse.insert {key : Key} (h : s.InUse kidOf key) :
    (s.apply kidOf (.insert i)).InUse kidOf key := by
  obtain ⟨⟨row, hrow, hkey⟩, hnot⟩ := h
  exact ⟨⟨row, List.mem_cons_of_mem _ hrow, hkey⟩, hnot⟩

/-- Storing a key leaves the state and the global key of each instance. -/
theorem same_insert (j : InstanceID) :
    ((s.apply kidOf (.insert i)).instances j).state = (s.instances j).state
      ∧ ((s.apply kidOf (.insert i)).instances j).jwtPrivateKey = (s.instances j).jwtPrivateKey := by
  by_cases hj : j = i
  · subst hj
    rw [Store.apply, setInstance_self]
    exact ⟨rfl, rfl⟩
  · rw [Store.apply, setInstance_ne hj]
    exact ⟨rfl, rfl⟩

theorem unique_cons {rows : List Row} {new : Row}
    (h : ∀ row ∈ rows, ∀ row' ∈ rows, row.kid = row'.kid → row = row')
    (hnew : ∀ row ∈ rows, row.kid ≠ new.kid) :
    ∀ row ∈ new :: rows, ∀ row' ∈ new :: rows, row.kid = row'.kid → row = row' := by
  intro row hrow row' hrow' heq
  rcases List.mem_cons.mp hrow with rfl | hold
  · rcases List.mem_cons.mp hrow' with rfl | hold'
    · rfl
    · exact absurd heq.symm (hnew row' hold')
  · rcases List.mem_cons.mp hrow' with rfl | hold'
    · exact absurd heq (hnew row hold)
    · exact h row hold row' hold' heq

theorem KeysOk.insert (h : KeysOk kidOf s) (hloaded : (s.instances i).loaded)
    (hnew : ∀ row ∈ s.rows, row.kid ≠ kidOf s.drawn)
    (halone : ∀ j, j < s.launched → j ≠ i → ¬(s.instances j).loaded) :
    KeysOk kidOf (s.apply kidOf (.insert i)) := by
  have hlive : kidOf s.drawn ∉ s.revocations := by
    intro hmem
    obtain ⟨row, hrow, hkid⟩ := h.revokedRow _ hmem
    exact hnew row hrow hkid
  have hothers : ∀ j, ((s.apply kidOf (.insert i)).instances j).loaded → j = i := by
    intro j hj
    by_contra hne
    have hj' : (s.instances j).loaded := by
      rwa [Instance.loaded, (same_insert j).1] at hj
    exact halone j (h.launched_of_loaded hj') hne hj'
  constructor
  · intro row hrow
    rcases List.mem_cons.mp hrow with rfl | hold
    · rfl
    · exact h.rowKid row hold
  · exact unique_cons h.unique hnew
  · intro kid hmem
    obtain ⟨row, hrow, hkid⟩ := h.revokedRow kid hmem
    exact ⟨row, List.mem_cons_of_mem _ hrow, hkid⟩
  · intro row hrow
    rcases List.mem_cons.mp hrow with rfl | hold
    · constructor
      · intro hrevoked
        cases hrevoked
      · intro hmem
        exact absurd hmem hlive
    · exact h.status row hold
  · intro j
    rw [(same_insert j).1]
    exact h.launched j
  · intro j
    rw [(same_insert j).1, (same_insert j).2]
    exact h.fresh j
  · intro j hj row hrow hnot
    obtain rfl := hothers j hj
    rw [Store.apply, setInstance_self]
    rcases List.mem_cons.mp hrow with rfl | hold
    · exact ⟨.active, by decide, by simp [Instance.setActive]⟩
    · obtain ⟨status, hstatus, hentry⟩ := h.cached j hloaded row hold hnot
      exact ⟨status, hstatus, by simp [Instance.setActive, hnew row hold, hentry]⟩
  · intro j hj active hactive
    obtain rfl := hothers j hj
    rw [Store.apply, setInstance_self] at hactive
    cases hactive
    exact ⟨rfl, ⟨_, List.mem_cons_self, rfl⟩, hlive⟩
  · intro j hj key hkey
    obtain rfl := hothers j hj
    rw [(same_insert j).2] at hkey
    exact (h.global j hloaded key hkey).insert
  · intro token htoken
    obtain ⟨hkid, row, hrow, hkey⟩ := h.issued token htoken
    exact ⟨hkid, row, List.mem_cons_of_mem _ hrow, hkey⟩

/-! ## Steps -/

/-- **One step of a call** keeps the table and the instances in order. -/
theorem KeysOk.exec {st : Servers} (h : KeysOk kidOf st.store) (hc : CallOk kidOf st.store c)
    (halone : c.InsertsAlone st ok) (hunused : c.RevokesUnused kidOf st ok) :
    KeysOk kidOf (st.store.apply kidOf (c.exec kidOf st.store k ok).1) := by
  have hstatement : Statement kidOf st.store c ok (c.exec kidOf st.store k ok).1 :=
    exec_statement c
  generalize (c.exec kidOf st.store k ok).1 = cmd at hstatement
  cases hstatement with
  | nothing => exact h
  | lock => exact h.setWriter
  | unlock => exact h.setWriter
  | load hstate => exact h.load hstate
  | crash => exact h.crash
  | markRotated hloaded hactive =>
    obtain ⟨hkid, hinUse⟩ := h.active _ hloaded _ hactive
    exact h.statusSet statusSet_markRotated (fun _ => hkid ▸ hinUse.2) (by simp)
  | insert hinserts hloaded hnew =>
    exact h.insert hloaded hnew (halone _ hinserts rfl hloaded).1
  | drawKey => exact ⟨h.rowKid, h.unique, h.revokedRow, h.status, h.launched, h.fresh, h.cached,
      h.active, h.global, h.issued⟩
  | setGlobals hholds hloaded => exact h.setGlobals hloaded (hc.inUse _ hholds hloaded)
  | revoke hserving =>
    refine h.statusSet statusSet_revoke (by simp) ?_
    intro _ j hj
    exact (hunused _ rfl rfl hserving).1 j (h.launched_of_loaded hj) hj
  | @issue i privKey now accessKid refreshKid _ hloaded =>
    have hkey : st.store.InUse kidOf privKey := hc.inUse (i, privKey) rfl hloaded
    refine ⟨h.rowKid, h.unique, h.revokedRow, h.status, h.launched, h.fresh, h.cached,
      h.active, h.global, ?_⟩
    intro token htoken
    rcases List.mem_append.mp htoken with hold | hnew
    · exact h.issued token hold
    · rcases List.mem_pair.mp hnew with rfl | rfl
      · exact ⟨hc.kids _ rfl _ (by simp), hkey.1⟩
      · exact ⟨hc.kids _ rfl _ (by simp), hkey.1⟩

theorem holds_of_unread {u : InstanceID × Key} (h : c.unread = some u) : c.holds = some u := by
  cases c with
  | generate i pc =>
    cases pc with
    | accessKid privKey now => exact h
    | refreshKid privKey now accessKid => exact h
    | _ => simp [Call.unread] at h
  | _ => simp [Call.unread] at h

theorem CallOk.idle (hholds : c.holds = none) (hkids : c.kidsRead = none) : CallOk kidOf s c := by
  refine ⟨?_, ?_, ?_, ?_⟩
  · intro h hh
    rw [hholds] at hh
    cases hh
  · intro h hh
    rw [hholds] at hh
    cases hh
  · intro u hu
    have hheld := holds_of_unread hu
    rw [hholds] at hheld
    cases hheld
  · intro p hp
    rw [hkids] at hp
    cases hp

theorem CallOk.mono (h : CallOk kidOf s c) (hlaunched : s.launched ≤ t.launched)
    (hstate : ∀ u ∈ c.holds, (s.instances u.1).state ≠ .started → (t.instances u.1).state ≠ .started)
    (hinUse : ∀ u ∈ c.holds, (s.instances u.1).state ≠ .started → (t.instances u.1).loaded →
      (s.instances u.1).loaded ∧ (s.InUse kidOf u.2 → t.InUse kidOf u.2))
    (hactive : ∀ u ∈ c.unread, (s.instances u.1).state ≠ .started → (t.instances u.1).loaded →
      (t.instances u.1).activeKey = (s.instances u.1).activeKey) : CallOk kidOf t c := by
  refine ⟨?_, ?_, ?_, h.kids⟩
  · intro u hu
    obtain ⟨hlt, hnot⟩ := h.begun u hu
    exact ⟨lt_of_lt_of_le hlt hlaunched, hstate u hu hnot⟩
  · intro u hu hloaded
    obtain ⟨hbefore, hkeeps⟩ := hinUse u hu (h.begun u hu).2 hloaded
    exact hkeeps (h.inUse u hu hbefore)
  · intro u hu hloaded
    have hheld : u ∈ c.holds := holds_of_unread hu
    obtain ⟨hbefore, -⟩ := hinUse u hheld (h.begun u hheld).2 hloaded
    rw [hactive u hu (h.begun u hheld).2 hloaded]
    exact h.active u hu hbefore

/-- A change of one instance that does not load it, and leaves the active
key. -/
theorem CallOk.setInstance (h : CallOk kidOf s c) {inst : Instance}
    (hstate : (s.instances i).state ≠ .started → inst.state ≠ .started)
    (hloaded : (s.instances i).state ≠ .started → inst.loaded → (s.instances i).loaded)
    (hactive : (s.instances i).state ≠ .started → inst.activeKey = (s.instances i).activeKey) :
    CallOk kidOf (s.setInstance i inst) c := by
  refine h.mono (le_refl _) ?_ ?_ ?_
  · intro u _ hnot
    by_cases hu : u.1 = i
    · rw [hu] at hnot ⊢
      rw [setInstance_self]
      exact hstate hnot
    · rw [setInstance_ne hu]
      exact hnot
  · intro u _ hnot hafter
    refine ⟨?_, id⟩
    by_cases hu : u.1 = i
    · rw [hu] at hnot hafter ⊢
      rw [setInstance_self] at hafter
      exact hloaded hnot hafter
    · rwa [setInstance_ne hu] at hafter
  · intro u _ hnot _
    by_cases hu : u.1 = i
    · rw [hu] at hnot ⊢
      rw [setInstance_self]
      exact hactive hnot
    · rw [setInstance_ne hu]

/-- A change of status, of a key the call does not have in hand when it is
revoked. -/
theorem CallOk.statusSet (h : CallOk kidOf s c) (hset : StatusSet s t i kid status)
    (hunused : status = .revoked → ∀ u ∈ c.holds, (s.instances u.1).loaded → kidOf u.2 ≠ kid) :
    CallOk kidOf t c := by
  refine h.mono hset.launched.ge ?_ ?_ ?_
  · intro u _ hnot
    rw [(hset.same u.1).1]
    exact hnot
  · intro u hu _ hloaded
    rw [hset.loaded_eq] at hloaded
    exact ⟨hloaded, hset.inUse fun hrevoked => hunused hrevoked u hu hloaded⟩
  · intro u _ _ _
    exact (hset.same u.1).2.2

theorem CallOk.insert (h : CallOk kidOf s c) (hidle : ∀ u ∈ c.unread, u.1 ≠ i) :
    CallOk kidOf (s.apply kidOf (.insert i)) c := by
  refine h.mono (le_refl _) ?_ ?_ ?_
  · intro u _ hnot
    rw [(same_insert u.1).1]
    exact hnot
  · intro u _ _ hloaded
    rw [Instance.loaded, (same_insert u.1).1] at hloaded
    exact ⟨hloaded, .insert⟩
  · intro u hu _ _
    rw [Store.apply, setInstance_ne (hidle u hu)]

theorem CallOk.other {st : Servers} {c' : Call}
    (halone : c.InsertsAlone st ok) (hunused : c.RevokesUnused kidOf st ok)
    (hmem : c' ∈ st.calls) (hc' : CallOk kidOf st.store c') :
    CallOk kidOf (st.store.apply kidOf (c.exec kidOf st.store k ok).1) c' := by
  have hstatement : Statement kidOf st.store c ok (c.exec kidOf st.store k ok).1 :=
    exec_statement c
  generalize (c.exec kidOf st.store k ok).1 = cmd at hstatement
  cases hstatement with
  | nothing => exact hc'
  | drawKey => exact ⟨hc'.begun, hc'.inUse, hc'.active, hc'.kids⟩
  | issue hloaded => exact ⟨hc'.begun, hc'.inUse, hc'.active, hc'.kids⟩
  | lock => exact hc'.setInstance id (fun _ h => h) fun _ => rfl
  | unlock => exact hc'.setInstance id (fun _ h => h) fun _ => rfl
  | crash => exact hc'.setInstance (by simp) (by simp [Instance.loaded]) fun _ => rfl
  | load hstate =>
    exact hc'.setInstance (fun hnot => absurd hstate hnot) (fun hnot => absurd hstate hnot)
      fun hnot => absurd hstate hnot
  | setGlobals hholds hloaded =>
    exact hc'.setInstance (by simp) (fun _ _ => hloaded) fun _ => rfl
  | markRotated hloaded hactive => exact hc'.statusSet statusSet_markRotated (by simp)
  | insert hinserts hloaded hnew =>
    exact hc'.insert ((halone _ hinserts rfl hloaded).2 c' hmem)
  | revoke hserving =>
    exact hc'.statusSet statusSet_revoke fun _ => (hunused _ rfl rfl hserving).2 c' hmem

/-! ### The call itself -/

/-- A call that comes to have the active key in hand, or one that is in use. -/
theorem CallOk.takes (hok : KeysOk kidOf s) {key : Key} (hholds : c.holds = some (i, key))
    (hloaded : (s.instances i).loaded) (hinUse : s.InUse kidOf key)
    (hactive : ∀ u ∈ c.unread, (s.instances i).activeKey = some ⟨kidOf key, key⟩)
    (hkids : ∀ p ∈ c.kidsRead, ∀ kid ∈ p.2, kid = kidOf p.1) : CallOk kidOf s c := by
  refine ⟨?_, ?_, ?_, hkids⟩
  · intro u hu
    rw [hholds] at hu
    cases hu
    exact ⟨hok.launched_of_loaded hloaded, (state_ne_of_loaded hloaded).2⟩
  · intro u hu _
    rw [hholds] at hu
    cases hu
    exact hinUse
  · intro u hu _
    have hheld : c.holds = some u := holds_of_unread hu
    rw [hholds] at hheld
    cases hheld
    exact hactive _ hu

/-- `Initialize` and `RotateKey` take the key that has become active. -/
theorem CallOk.takesActive (hok : KeysOk kidOf s) {active : SigningKey}
    (hloaded : (s.instances i).loaded) (hactive : (s.instances i).activeKey = some active)
    (hholds : c.holds = some (i, active.key)) (hunread : c.unread = none)
    (hkids : c.kidsRead = none) : CallOk kidOf s c := by
  refine .takes hok hholds hloaded (hok.active i hloaded active hactive).2 ?_ ?_
  · intro u hu
    rw [hunread] at hu
    cases hu
  · intro p hp
    rw [hkids] at hp
    cases hp

theorem CallOk.takesNew (hloaded : (s.instances i).loaded)
    (hok : KeysOk kidOf (s.apply kidOf (.insert i)))
    (hholds : c.holds = some (i, s.drawn)) (hunread : c.unread = none)
    (hkids : c.kidsRead = none) : CallOk kidOf (s.apply kidOf (.insert i)) c := by
  have hactive : ((s.apply kidOf (.insert i)).instances i).activeKey
      = some ⟨kidOf s.drawn, s.drawn⟩ := by
    rw [Store.apply, setInstance_self]
    rfl
  have hloaded' : ((s.apply kidOf (.insert i)).instances i).loaded := by
    rw [Store.apply, setInstance_self]
    exact hloaded
  exact .takesActive hok hloaded' hactive hholds hunread hkids

theorem CallOk.execInitialize (pc : InitializePc)
    (hstate : (s.instances i).state = if pc = .query then .started else .loading)
    (hok : KeysOk kidOf (s.apply kidOf (execInitialize kidOf s i pc ok).1)) :
    CallOk kidOf (s.apply kidOf (Signing.execInitialize kidOf s i pc ok).1)
      (.initializeKeys i (Signing.execInitialize kidOf s i pc ok).2) := by
  cases pc with
  | query =>
    cases ok with
    | false => exact .idle rfl rfl
    | true =>
      simp only [Signing.execInitialize, if_true] at hok ⊢
      cases hactive : ((s.instances i).loadKeys s.rows).activeKey with
      | none => exact .idle rfl rfl
      | some active =>
        simp only [hactive] at hok ⊢
        refine .takesActive hok ?_ ?_ rfl rfl rfl
        · rw [Store.apply, setInstance_self]
          rfl
        · rw [Store.apply, setInstance_self]
          exact hactive
  | generateAndStore =>
    simp only [Signing.execInitialize] at hok ⊢
    split
    · rename_i hinsert
      rw [if_pos hinsert] at hok
      exact .takesNew (loaded_of_loading hstate) hok rfl rfl rfl
    · exact .idle rfl rfl
  | globals key => exact .idle rfl rfl
  | abort => exact .idle rfl rfl
  | ended => exact .idle rfl rfl

theorem CallOk.execRotate (pc : RotatePc) (hstate : (s.instances i).state = .serving)
    (hok : KeysOk kidOf (s.apply kidOf (execRotate kidOf s k i pc ok).1)) :
    CallOk kidOf (s.apply kidOf (Signing.execRotate kidOf s k i pc ok).1)
      (.rotate i (Signing.execRotate kidOf s k i pc ok).2) := by
  cases pc with
  | lock =>
    simp only [Signing.execRotate]
    split <;> exact .idle rfl rfl
  | markRotated =>
    simp only [Signing.execRotate]
    split
    · cases ok <;> exact .idle rfl rfl
    · exact .idle rfl rfl
  | generateAndStore =>
    simp only [Signing.execRotate] at hok ⊢
    split
    · rename_i hinsert
      rw [if_pos hinsert] at hok
      exact .takesNew (loaded_of_serving hstate) hok rfl rfl rfl
    · exact .idle rfl rfl
  | globals key => exact .idle rfl rfl
  | abort => exact .idle rfl rfl
  | ended => exact .idle rfl rfl

theorem kid_of_active {inst : Instance} {key : Key} {read : Kid}
    (hactive : inst.activeKey = some ⟨kidOf key, key⟩) (hread : inst.getActiveKID = some read) :
    read = kidOf key := by
  rw [Instance.getActiveKID, hactive] at hread
  split at hread
  · cases hread
  · exact (Option.some.inj hread).symm

theorem CallOk.execGenerate (pc : GeneratePc) (hstate : (s.instances i).state = .serving)
    (hok : KeysOk kidOf s) (hc : CallOk kidOf s (.generate i pc))
    (hcopies : (Call.generate i pc).CopiesSettled s) :
    CallOk kidOf (s.apply kidOf (execGenerate s i pc).1) (.generate i (execGenerate s i pc).2) := by
  have hloaded : (s.instances i).loaded := loaded_of_serving hstate
  cases pc with
  | copyKey =>
    simp only [Signing.execGenerate]
    split
    · rename_i privKey hkey
      refine .takes hok rfl hloaded (hok.global i hloaded privKey hkey) ?_ (by simp [Call.kidsRead])
      intro u _
      have hsame := hcopies i rfl hstate
      rw [hkey] at hsame
      obtain ⟨active, hactive, rfl⟩ := Option.map_eq_some_iff.mp hsame
      have hkid := (hok.active i hloaded active hactive).1
      show (s.instances i).activeKey = _
      rw [hactive, ← hkid]
    · exact hc
  | accessKid privKey now =>
    have hactive := hc.active _ rfl hloaded
    simp only [Signing.execGenerate]
    split
    · rename_i kid hkid
      refine .takes hok rfl hloaded (hc.inUse _ rfl hloaded) (fun _ _ => hactive) ?_
      rintro p ⟨⟩ kid' hkid'
      rw [List.mem_singleton.mp hkid']
      exact kid_of_active hactive hkid
    · exact hc
  | refreshKid privKey now accessKid =>
    have hactive := hc.active _ rfl hloaded
    simp only [Signing.execGenerate]
    split
    · rename_i kid hkid
      refine .takes hok rfl hloaded (hc.inUse _ rfl hloaded) (by simp [Call.unread]) ?_
      rintro p ⟨⟩ kid' hkid'
      rcases List.mem_pair.mp hkid' with rfl | rfl
      · exact hc.kids _ rfl _ (by simp)
      · exact kid_of_active hactive hkid
    · exact hc
  | sign privKey now accessKid refreshKid => exact .idle rfl rfl
  | returned => exact hc

/-- **One step of a call** keeps its keys and kids. -/
theorem CallOk.exec (hok : KeysOk kidOf s) (hc : CallOk kidOf s c)
    (hnext : KeysOk kidOf (s.apply kidOf (c.exec kidOf s k ok).1)) (hcopies : c.CopiesSettled s) :
    CallOk kidOf (s.apply kidOf (c.exec kidOf s k ok).1) (c.exec kidOf s k ok).2 := by
  cases c with
  | initializeKeys i pc =>
    rw [Call.exec] at hnext ⊢
    by_cases hstate : (s.instances i).state = if pc = .query then .started else .loading
    · rw [if_pos hstate] at hnext ⊢
      exact .execInitialize pc hstate hnext
    · rw [if_neg hstate]
      exact hc
  | generate i pc =>
    rw [Call.exec]
    by_cases hstate : (s.instances i).state = .serving
    · rw [if_pos hstate]
      exact .execGenerate pc hstate hok hc hcopies
    · rw [if_neg hstate]
      exact hc
  | rotate i pc =>
    rw [Call.exec] at hnext ⊢
    by_cases hstate : (s.instances i).state = .serving
    · rw [if_pos hstate] at hnext ⊢
      exact .execRotate pc hstate hnext
    · rw [if_neg hstate]
      exact hc
  | revoke i kid pc =>
    refine .idle ?_ ?_ <;> rw [Call.exec] <;> split <;> rfl

/-! ### The world -/

theorem KeysOk.world (h : KeysOk kidOf s) (e : Event) : KeysOk kidOf (world s e).1 := by
  cases e with
  | launch =>
    have hroom : KeysOk kidOf { s with launched := s.launched + 1 } :=
      ⟨h.rowKid, h.unique, h.revokedRow, h.status,
        fun j hj => Nat.lt_succ_of_lt (h.launched j hj), h.fresh, h.cached, h.active, h.global,
        h.issued⟩
    exact hroom.setInstance (fun _ => Nat.lt_succ_self _) (fun _ => rfl)
      (by simp [Instance.loaded]) (by simp [Instance.loaded]) (by simp [Instance.loaded])
  | stop i => exact h.crash
  | _ => exact ⟨h.rowKid, h.unique, h.revokedRow, h.status, h.launched, h.fresh, h.cached,
      h.active, h.global, h.issued⟩

theorem CallOk.world (h : CallOk kidOf s c) (e : Event) : CallOk kidOf (world s e).1 c := by
  cases e with
  | launch =>
    have hsame : ∀ u ∈ c.holds, (Signing.world s .launch).1.instances u.1 = s.instances u.1 := by
      intro u hu
      exact setInstance_ne (Nat.ne_of_lt (h.begun u hu).1)
    refine h.mono (Nat.le_succ _) ?_ ?_ ?_
    · intro u hu hnot
      rw [hsame u hu]
      exact hnot
    · intro u hu _ hloaded
      rw [hsame u hu] at hloaded
      exact ⟨hloaded, id⟩
    · intro u hu _ _
      rw [hsame u (holds_of_unread hu)]
  | stop i => exact h.setInstance (by simp) (by simp [Instance.loaded]) fun _ => rfl
  | _ => exact ⟨h.begun, h.inUse, h.active, h.kids⟩

theorem CallOk.arrives {e : Event} (h : (Signing.world s e).2 = some c) : CallOk kidOf t c := by
  cases e with
  | launch => cases h; exact .idle rfl rfl
  | generate i => cases h; exact .idle rfl rfl
  | rotate i => cases h; exact .idle rfl rfl
  | revoke i kid => cases h; exact .idle rfl rfl
  | _ => cases h

theorem KeysOk.empty : KeysOk kidOf .empty := by
  constructor <;> simp [Store.empty, Instance.down, Instance.loaded]

/-- The tokens issued since, none of them under a key revoked before. -/
def IssuedSince (kidOf : Key → Kid) (before s : Store) : Prop :=
  (∀ kid ∈ before.revocations, kid ∈ s.revocations)
  ∧ ∃ new, s.issued = before.issued ++ new
      ∧ ∀ token ∈ new, kidOf token.signer ∉ before.revocations

theorem IssuedSince.exec {before : Store} (h : IssuedSince kidOf before s)
    (hc : CallOk kidOf s c) : IssuedSince kidOf before (s.apply kidOf (c.exec kidOf s k ok).1) := by
  obtain ⟨hrevoked, new, hnew, hnot⟩ := h
  have hstatement : Statement kidOf s c ok (c.exec kidOf s k ok).1 := exec_statement c
  generalize (c.exec kidOf s k ok).1 = cmd at hstatement
  cases hstatement with
  | revoke hserving =>
    exact ⟨fun kid hkid => List.mem_append_left _ (hrevoked kid hkid), new, hnew, hnot⟩
  | @issue i privKey now accessKid refreshKid _ hloaded =>
    have hkey : s.InUse kidOf privKey := hc.inUse (i, privKey) rfl hloaded
    refine ⟨hrevoked, new ++ [⟨accessKid, privKey, numericDate (now + accessTokenTTL)⟩,
      ⟨refreshKid, privKey, numericDate (now + refreshTokenTTL)⟩], ?_, ?_⟩
    · show s.issued ++ _ = before.issued ++ _
      rw [hnew, List.append_assoc]
    · intro token htoken
      rcases List.mem_append.mp htoken with hold | hpair
      · exact hnot token hold
      have hsigner : token.signer = privKey := by
        rcases List.mem_pair.mp hpair with rfl | rfl <;> rfl
      rw [hsigner]
      exact fun hmem => hkey.2 (hrevoked _ hmem)
  | _ => exact ⟨hrevoked, new, hnew, hnot⟩

theorem issuedSince_world {before : Store} (h : IssuedSince kidOf before s) (e : Event) :
    IssuedSince kidOf before (Signing.world s e).1 := by
  cases e <;> exact h

/-- **In every run in order** the keys are, and no token is issued under a
key revoked in `before`. -/
theorem run_keysOk {before : Store} {st : Servers} {as : List Action}
    (hrun : Run.Each (service kidOf).step (KeysInOrder kidOf) st as)
    (h : Calls.Holds (fun s => KeysOk kidOf s ∧ IssuedSince kidOf before s)
      (fun s _ c => CallOk kidOf s c) st) :
    Calls.Holds (fun s => KeysOk kidOf s ∧ IssuedSince kidOf before s)
      (fun s _ c => CallOk kidOf s c) ((service kidOf).run st as) := by
  refine Calls.Holds.run ?_ ?_ hrun h
  · intro st e h _
    exact ⟨⟨h.store.1.world e, issuedSince_world h.store.2 e⟩, fun _ c _ hc => hc.world e,
      fun c hc => .arrives hc⟩
  · intro st k c ok h hok hk
    obtain ⟨hcopies, halone, hunused⟩ := hok c (Option.mem_def.mpr hk)
    have hc : CallOk kidOf st.store c := h.call k c hk
    have hnext := h.store.1.exec (k := k) hc halone hunused
    exact ⟨⟨hnext, h.store.2.exec hc⟩, hc.exec h.store.1 hnext hcopies,
      fun j c' _ hj hc' => .other halone hunused (List.mem_of_getElem? hj) hc'⟩

end

/-- At the end of `pre ++ post` every token issued names the key that signed
it; those issued after `pre` are not signed with a key revoked in `pre`; and
every one validates at every instance that serves, until it expires or its
key is revoked. -/
def NothingOrphaned (kidOf : Key → Kid) (pre post : List Action) : Prop :=
  let before := ((service kidOf).run start pre).store
  let after := ((service kidOf).run start (pre ++ post)).store
  (∀ token ∈ after.issued, token.kid = kidOf token.signer)
  ∧ (∃ new, after.issued = before.issued ++ new
      ∧ ∀ token ∈ new, kidOf token.signer ∉ before.revocations)
  ∧ ∀ token ∈ after.issued, after.now < token.expiresAt → token.kid ∉ after.revocations →
      ∀ i, (after.instances i).state = .serving →
        (after.instances i).validateToken after.now token = true

theorem KeysOk.validates {kidOf : Key → Kid} {s : Store} (h : KeysOk kidOf s) {token : Token}
    (hissued : token ∈ s.issued) (hexpiry : s.now < token.expiresAt)
    (hlive : token.kid ∉ s.revocations) {i : InstanceID}
    (hserving : (s.instances i).state = .serving) :
    (s.instances i).validateToken s.now token = true := by
  obtain ⟨hkid, row, hrow, hkey⟩ := h.issued token hissued
  have hrowKid : row.kid = token.kid := by rw [h.rowKid row hrow, hkey, hkid]
  obtain ⟨status, hstatus, hentry⟩ :=
    h.cached i (loaded_of_serving hserving) row hrow (hrowKid ▸ hlive)
  rw [hrowKid] at hentry
  simp [Instance.validateToken, Instance.getVerificationKey, hentry, hstatus, hkey, hexpiry]

/-- **Rotation orphans nothing** in every run in which no token pair
overlaps the change of its instance's key, a key is stored by an instance
that is alone, and a key is revoked when it is out of use. -/
theorem rotation_orphans_nothing (kidOf : Key → Kid) (pre post : List Action)
    (hrun : Run.Each (service kidOf).step (KeysInOrder kidOf) start (pre ++ post)) :
    NothingOrphaned kidOf pre post := by
  obtain ⟨hpre, hpost⟩ := Run.Each.append.mp hrun
  have hstart : Calls.Holds (fun s => KeysOk kidOf s ∧ IssuedSince kidOf .empty s)
      (fun s _ c => CallOk kidOf s c) start :=
    .initial ⟨.empty, fun _ h => h, [], rfl, by simp⟩
  have hbefore := run_keysOk hpre hstart
  have hmiddle : Calls.Holds
      (fun s => KeysOk kidOf s
        ∧ IssuedSince kidOf ((service kidOf).run start pre).store s)
      (fun s _ c => CallOk kidOf s c) ((service kidOf).run start pre) :=
    ⟨⟨hbefore.store.1, fun _ h => h, [], (List.append_nil _).symm, by simp⟩, hbefore.call⟩
  have hafter := run_keysOk hpost hmiddle
  rw [NothingOrphaned, Calls.Service.run_append]
  refine ⟨fun token htoken => (hafter.store.1.issued token htoken).1, hafter.store.2.2, ?_⟩
  intro token htoken hexpiry hlive i hserving
  exact hafter.store.1.validates htoken hexpiry hlive hserving

/-- A key identifier of 16 hexadecimal digits. -/
def sampleKid (key : Key) : Kid := List.replicate 15 0x30 ++ [0x30 + UInt8.ofNat key]

/-- The first instance comes up, and stores key 0. -/
def sampleUp : List Action := .world .launch :: List.replicate 3 (.exec 0 true)

/-- A token pair, and a rotation to key 1. -/
def sampleRotation : List Action :=
  List.flatten
    [sampleUp, .world (.generate 0) :: List.replicate 4 (.exec 1 true),
     .world (.rotate 0) :: List.replicate 4 (.exec 2 true)]

theorem rotation_orphans_nothing_sample :
    NothingOrphaned sampleKid sampleRotation
      (([.world (.revoke 0 (sampleKid 0)), .exec 3 true, .world .launch, .exec 4 true,
          .exec 4 true] : List Action)
        ++ (.world (.generate 1) :: List.replicate 4 (.exec 5 true) : List Action)) :=
  rotation_orphans_nothing sampleKid _ _ (by decide)

/-- A rotation between the copy of the key and the reading of the kids. -/
def overtakenPair : List Action :=
  List.flatten
    [sampleUp, [.world (.generate 0), .exec 1 true],
     .world (.rotate 0) :: List.replicate 4 (.exec 2 true), List.replicate 3 (.exec 1 true)]

/-- The active key is revoked. -/
def revokedActive : List Action :=
  List.flatten [sampleUp, [.world (.revoke 0 (sampleKid 0)), .exec 1 true]]

/-- A rotation on the first of two instances, and a token pair there. -/
def unknownKey : List Action :=
  List.flatten
    [sampleUp, .world .launch :: List.replicate 2 (.exec 1 true),
     .world (.rotate 0) :: List.replicate 4 (.exec 2 true),
     .world (.generate 0) :: List.replicate 4 (.exec 3 true)]

/-- The pair names key 1 and is signed with key 0; the revoked key signs;
the second instance refuses the token. -/
theorem rotation_orphans :
    ¬NothingOrphaned sampleKid [] overtakenPair
    ∧ ¬NothingOrphaned sampleKid revokedActive
        (.world (.generate 0) :: List.replicate 4 (.exec 2 true))
    ∧ ¬NothingOrphaned sampleKid [] unknownKey := by
  refine ⟨?_, ?_, ?_⟩
  · intro h
    have hnames := h.1 ⟨sampleKid 1, 0, accessTokenTTL⟩ (by decide)
    revert hnames
    decide
  · intro h
    obtain ⟨new, hnew, hnot⟩ := h.2.1
    have hmem : (⟨sampleKid 0, 0, accessTokenTTL⟩ : Token) ∈ new := by
      have hin : (⟨sampleKid 0, 0, accessTokenTTL⟩ : Token) ∈ [] ++ new := hnew ▸ by decide
      exact hin
    exact hnot _ hmem (by decide)
  · intro h
    have hvalid := h.2.2 ⟨sampleKid 1, 1, accessTokenTTL⟩ (by decide) (by decide) (by decide) 1
      (by decide)
    revert hvalid
    decide

end UsbVault.Auth.Signing
