import UsbVault.App.GroupMessages

/-!
# Exclusion from a group

Who has been removed from a group or has left it should read none of the
messages that follow. A message goes out under the key its sender has read when
the call began, and a key is sealed to those who were members when its making
began, and to those who were added under it.

Along every run in which each message goes out under a key whose making began
after its former members had gone, none does under a key that was sealed to one
of them (`excludes_run`). `leaveGroup` makes no new key, and `removeMember`
only after it has removed the member.
-/

namespace UsbVault.App.GroupMessages

open Calls

/-! ## The property -/

/-- A member that was removed or has left, and is none again. -/
def Former (st : Store) (email : String) : Prop :=
  0 < st.goneAt email ∧ (st.find email).isNone

/-- The key of the message that the next statement of a call sends. -/
def sends (E : Env) (s : State Store Pc) : Action Event Outcome → Option (List Char)
  | .exec k o =>
    match s.calls[k]? with
    | some (.sending _ plaintext keyHex) =>
      if (encryptMessage E o keyHex plaintext).isSome then some keyHex else none
    | _ => none
  | .world _ => none

/-- No message goes out under a key that was sealed to a former member. -/
def Excludes (E : Env) (s : State Store Pc) (a : Action Event Outcome) : Prop :=
  ∀ keyHex ∈ sends E s a, ∀ email, Former s.store email → (email, keyHex) ∉ s.store.seals

/-- A message goes out under a key whose making began when all former members
had gone. -/
def MadeSince (E : Env) (s : State Store Pc) (a : Action Event Outcome) : Prop :=
  ∀ keyHex ∈ sends E s a, ∀ email, Former s.store email →
    ∀ begun, (keyHex, begun) ∈ s.store.keys → s.store.goneAt email ≤ begun

/-! ## Who was a member -/

theorem find_isSome_iff {st : Store} {email : String} :
    (st.find email).isSome ↔ ∃ m ∈ st.group.members, m.email = email := by
  rw [← not_iff_not, Option.not_isSome_iff_eq_none, Store.find, Keyed.find_eq_none_iff]
  push Not
  rfl

/-- A member, or one who has gone since. -/
def Was (st : Store) (email : String) (begun : Nat) : Prop :=
  (∃ m ∈ st.group.members, m.email = email) ∨ begun < st.goneAt email

/-- Members go, or are added, and keys are made. -/
structure Grows (st st' : Store) : Prop where
  gone : st.gone ≤ st'.gone
  keys : ∀ key ∈ st.keys, key ∈ st'.keys
  was : ∀ email begun, begun ≤ st.gone → Was st email begun → Was st' email begun

theorem Grows.refl (st : Store) : Grows st st := ⟨le_rfl, fun _ h => h, fun _ _ _ h => h⟩

/-- **Members that stay** are members, and one that goes has gone since. -/
theorem Grows.depart {st : Store} {leaving : String} {members : List GroupMember}
    (hstay : ∀ m ∈ st.group.members, m.email ≠ leaving → ∃ m' ∈ members, m'.email = m.email) :
    Grows st ((st.depart leaving).setMembers members) := by
  rw [Store.depart]
  split
  · rename_i hfound
    refine ⟨Nat.le_succ _, fun _ h => h, fun email begun hbegun hwas => ?_⟩
    by_cases heq : email = leaving
    · right
      show begun < Function.update st.goneAt leaving (st.gone + 1) email
      rw [heq, Function.update_self]
      exact Nat.lt_succ_of_le hbegun
    · rcases hwas with ⟨m, hm, rfl⟩ | hgone
      · exact .inl (hstay m hm heq)
      · right
        show begun < Function.update st.goneAt leaving (st.gone + 1) email
        rw [Function.update_of_ne heq]
        exact hgone
  · rename_i hnone
    refine ⟨le_rfl, fun _ h => h, fun email begun _ hwas => ?_⟩
    rcases hwas with ⟨m, hm, rfl⟩ | hgone
    · refine .inl (hstay m hm ?_)
      rintro rfl
      exact hnone (find_isSome_iff.mpr ⟨m, hm, rfl⟩)
    · exact .inr hgone

theorem mem_promote_email {members : List GroupMember} {m : GroupMember} (h : m ∈ members) :
    ∃ m' ∈ Store.promote members, m'.email = m.email := by
  cases members with
  | nil => cases h
  | cons first rest =>
    rcases List.mem_cons.mp h with rfl | hrest
    · exact ⟨_, List.mem_cons_self, rfl⟩
    · exact ⟨m, List.mem_cons_of_mem _ hrest, rfl⟩

theorem world_grows (st : Store) (e : Event) : Grows st (world st e).1 := by
  cases e with
  | addMember newMemberEmail adminEmail publicKeyHex => exact .refl st
  | removeMember memberEmail adminEmail =>
    rw [world, Store.removeMember]
    split
    · exact .refl st
    · split
      · exact .refl st
      · exact .depart fun m hm hne => ⟨m, List.mem_filter.mpr ⟨hm, decide_eq_true hne⟩, rfl⟩
  | rotateGroupKey adminEmail => exact .refl st
  | leaveGroup memberEmail =>
    rw [world, Store.leaveGroup]
    split
    · exact .refl st
    · cases hfind : st.find memberEmail with
      | none => exact .refl st
      | some leaving =>
        dsimp only
        generalize hleft : (if leaving.role = .admin then
          Store.promote (st.group.members.eraseP fun m => m.email = memberEmail)
          else st.group.members.eraseP fun m => m.email = memberEmail) = left
        have hgrows : Grows st ((st.depart memberEmail).setMembers left) := by
          refine .depart fun m hm hne => ?_
          have hstays : m ∈ st.group.members.eraseP fun m => m.email = memberEmail :=
            (List.mem_eraseP_of_neg (by simpa using hne)).mpr hm
          rw [← hleft]
          split
          · exact mem_promote_email hstays
          · exact ⟨m, hstays, rfl⟩
        split
        · exact ⟨hgrows.gone, hgrows.keys, hgrows.was⟩
        · exact hgrows
  | sendGroupMessage senderEmail plaintext => exact .refl st
  | deleteGroup adminEmail =>
    rw [world, Store.deleteGroup]
    split
    · exact .refl st
    · split
      · exact .refl st
      · exact ⟨le_rfl, fun _ h => h, fun _ _ _ h => h⟩

theorem pushMember_grows (st : Store) (email : String)
    (publicKeyHex keyHex encryptedGroupKeyHex : List Char) :
    Grows st (st.pushMember email publicKeyHex keyHex encryptedGroupKeyHex) := by
  refine ⟨le_rfl, fun _ h => h, fun _ _ _ hwas => ?_⟩
  rcases hwas with ⟨m, hm, hemail⟩ | hgone
  · exact .inl ⟨m, List.mem_append_left _ hm, hemail⟩
  · exact .inr hgone

theorem applySeals_emails (sealedKeys : List SealedKey) (members : List GroupMember) :
    (Store.applySeals sealedKeys members).1.map GroupMember.email
      = members.map GroupMember.email := by
  induction members with
  | nil => rfl
  | cons m ms ih =>
    rw [Store.applySeals]
    cases Keyed.find SealedKey.email m.email sealedKeys with
    | none => rfl
    | some sealed => rw [List.map_cons, List.map_cons, ih]

theorem applyKey_grows (st : Store) (members : List Recipient) (adminEmail : String) (begun : Nat)
    (keyHex : List Char) (sealedKeys : List SealedKey) :
    Grows st (st.applyKey members adminEmail begun keyHex sealedKeys).1 := by
  have hgrows : ∀ history, Grows st { st with
      group := { st.group with
        groupKeyHex := keyHex, keyVersion := st.group.keyVersion + 1
        members := (Store.applySeals sealedKeys st.group.members).1 }
      keys := st.keys ++ [(keyHex, begun)]
      seals := st.seals ++ members.map fun m => (m.email, keyHex)
      keyHistory := history } := by
    intro history
    refine ⟨le_rfl, fun _ h => List.mem_append_left _ h, fun email _ _ hwas => ?_⟩
    rcases hwas with ⟨m, hm, rfl⟩ | hgone
    · left
      have hmem := List.mem_map_of_mem (f := GroupMember.email) hm
      rw [← applySeals_emails sealedKeys] at hmem
      obtain ⟨m', hm', hemail⟩ := List.mem_map.mp hmem
      exact ⟨m', hm', hemail⟩
    · exact .inr hgone
  rw [Store.applyKey]
  dsimp only
  split
  · exact hgrows _
  · exact hgrows st.keyHistory

/-! ## The invariant -/

/-- Some making of the key, and a member since then. -/
def Held (st : Store) (email : String) (keyHex : List Char) : Prop :=
  ∃ begun, (keyHex, begun) ∈ st.keys ∧ Was st email begun

/-- Each key is held by whom it was sealed to. -/
structure Accounted (st : Store) : Prop where
  begun : ∀ key ∈ st.keys, key.2 ≤ st.gone
  seals : ∀ sealed ∈ st.seals, Held st sealed.1 sealed.2
  current : ∃ begun, (st.group.groupKeyHex, begun) ∈ st.keys

def PcAccounted (st : Store) : Pc → Prop
  | .sealing _ _ keyHex => ∃ begun, (keyHex, begun) ∈ st.keys
  | .rotating members _ begun => begun ≤ st.gone ∧ ∀ m ∈ members, Was st m.email begun
  | _ => True

theorem Held.grows {st st' : Store} {email : String} {keyHex : List Char} (h : Held st email keyHex)
    (hst : Accounted st) (hgrows : Grows st st') : Held st' email keyHex := by
  obtain ⟨begun, hkey, hwas⟩ := h
  exact ⟨begun, hgrows.keys _ hkey, hgrows.was _ _ (hst.begun _ hkey) hwas⟩

theorem PcAccounted.grows {st st' : Store} {pc : Pc} (h : PcAccounted st pc)
    (hgrows : Grows st st') : PcAccounted st' pc := by
  cases pc with
  | sealing email publicKeyHex keyHex =>
    obtain ⟨begun, hkey⟩ := h
    exact ⟨begun, hgrows.keys _ hkey⟩
  | rotating members adminEmail begun =>
    obtain ⟨hbegun, hmembers⟩ := h
    exact ⟨hbegun.trans hgrows.gone, fun m hm => hgrows.was _ _ hbegun (hmembers m hm)⟩
  | sending senderEmail plaintext keyHex => trivial
  | failed message => trivial
  | finished => trivial

theorem Accounted.grows {st st' : Store} (h : Accounted st) (hgrows : Grows st st')
    (hkeys : st'.keys = st.keys) (hseals : st'.seals = st.seals)
    (hkey : st'.group.groupKeyHex = st.group.groupKeyHex) : Accounted st' where
  begun := by
    rw [hkeys]
    exact fun key hmem => (h.begun key hmem).trans hgrows.gone
  seals := by
    rw [hseals]
    exact fun sealed hmem => (h.seals sealed hmem).grows h hgrows
  current := by
    rw [hkeys, hkey]
    exact h.current

theorem rotateGroupKey_accounted (st : Store) (adminEmail : String) :
    PcAccounted st (st.rotateGroupKey adminEmail) := by
  rw [Store.rotateGroupKey]
  split
  · trivial
  · split
    · trivial
    · refine ⟨le_rfl, fun m hm => ?_⟩
      obtain ⟨m', hm', rfl⟩ := List.mem_map.mp hm
      exact .inl ⟨m', hm', rfl⟩

theorem addMember_accounted {st : Store} (h : Accounted st) (newMemberEmail adminEmail : String)
    (publicKeyHex : Option (List Char)) :
    PcAccounted st (st.addMember newMemberEmail adminEmail publicKeyHex) := by
  rw [Store.addMember]
  split
  · trivial
  · split
    · trivial
    · split
      · trivial
      · split
        · trivial
        · exact h.current

theorem depart_keys (email : String) (st : Store) :
    (st.depart email).keys = st.keys ∧ (st.depart email).seals = st.seals := by
  rw [Store.depart]
  split
  · exact ⟨rfl, rfl⟩
  · exact ⟨rfl, rfl⟩

theorem world_keys (st : Store) (e : Event) :
    (world st e).1.keys = st.keys ∧ (world st e).1.seals = st.seals
      ∧ (world st e).1.group.groupKeyHex = st.group.groupKeyHex := by
  have hleaving : ∀ email members,
      ((st.depart email).setMembers members).keys = st.keys
        ∧ ((st.depart email).setMembers members).seals = st.seals
        ∧ ((st.depart email).setMembers members).group.groupKeyHex = st.group.groupKeyHex := by
    intro email members
    obtain ⟨hkeys, hseals⟩ := depart_keys email st
    refine ⟨hkeys, hseals, ?_⟩
    show (st.depart email).group.groupKeyHex = _
    rw [(depart_group email st).1]
  cases e with
  | removeMember memberEmail adminEmail =>
    rw [world, Store.removeMember]
    split
    · exact ⟨rfl, rfl, rfl⟩
    · split
      · exact ⟨rfl, rfl, rfl⟩
      · exact hleaving _ _
  | leaveGroup memberEmail =>
    rw [world, Store.leaveGroup]
    split
    · exact ⟨rfl, rfl, rfl⟩
    · cases st.find memberEmail with
      | none => exact ⟨rfl, rfl, rfl⟩
      | some leaving =>
        dsimp only
        generalize (if leaving.role = .admin then
          Store.promote (st.group.members.eraseP fun m => m.email = memberEmail)
          else st.group.members.eraseP fun m => m.email = memberEmail) = left
        split
        · exact hleaving _ _
        · exact hleaving _ _
  | deleteGroup adminEmail =>
    rw [world, Store.deleteGroup]
    split
    · exact ⟨rfl, rfl, rfl⟩
    · split
      · exact ⟨rfl, rfl, rfl⟩
      · exact ⟨rfl, rfl, rfl⟩
  | addMember newMemberEmail adminEmail publicKeyHex => exact ⟨rfl, rfl, rfl⟩
  | rotateGroupKey adminEmail => exact ⟨rfl, rfl, rfl⟩
  | sendGroupMessage senderEmail plaintext => exact ⟨rfl, rfl, rfl⟩

theorem world_accounted {st : Store} (h : Accounted st) (e : Event) :
    Accounted (world st e).1 ∧ ∀ pc, (world st e).2 = some pc → PcAccounted (world st e).1 pc := by
  obtain ⟨hkeys, hseals, hkey⟩ := world_keys st e
  refine ⟨h.grows (world_grows st e) hkeys hseals hkey, ?_⟩
  intro pc hpc
  cases e with
  | addMember newMemberEmail adminEmail publicKeyHex =>
    obtain rfl := Option.some.inj hpc
    exact addMember_accounted h _ _ _
  | removeMember memberEmail adminEmail =>
    obtain rfl := Option.some.inj hpc
    rw [world, Store.removeMember]
    split
    · trivial
    · split
      · trivial
      · exact rotateGroupKey_accounted _ _
  | rotateGroupKey adminEmail =>
    obtain rfl := Option.some.inj hpc
    exact rotateGroupKey_accounted _ _
  | leaveGroup memberEmail =>
    obtain rfl := Option.some.inj hpc
    rw [world, Store.leaveGroup]
    split
    · trivial
    · cases st.find memberEmail with
      | none => trivial
      | some leaving => trivial
  | sendGroupMessage senderEmail plaintext =>
    obtain rfl := Option.some.inj hpc
    rw [world, Store.sendGroupMessage]
    split
    · trivial
    · split
      · trivial
      · trivial
  | deleteGroup adminEmail =>
    obtain rfl := Option.some.inj hpc
    rw [world, Store.deleteGroup]
    split
    · trivial
    · split
      · trivial
      · trivial

theorem pushMember_accounted {st : Store} (h : Accounted st) {email : String}
    {publicKeyHex keyHex encryptedGroupKeyHex : List Char}
    (hkey : ∃ begun, (keyHex, begun) ∈ st.keys) :
    Accounted (st.pushMember email publicKeyHex keyHex encryptedGroupKeyHex) := by
  have hgrows := pushMember_grows st email publicKeyHex keyHex encryptedGroupKeyHex
  refine ⟨h.begun, fun sealed hmem => ?_, h.current⟩
  rcases List.mem_append.mp hmem with hold | hnew
  · exact (h.seals sealed hold).grows h hgrows
  · obtain ⟨begun, hbegun⟩ := hkey
    rw [List.mem_singleton.mp hnew]
    exact ⟨begun, hbegun, .inl ⟨_, List.mem_append_right _ (List.mem_singleton_self _), rfl⟩⟩

theorem applyKey_accounted {st : Store} (h : Accounted st) {members : List Recipient}
    {begun : Nat} (hbegun : begun ≤ st.gone) (hmembers : ∀ m ∈ members, Was st m.email begun)
    (adminEmail : String) (keyHex : List Char) (sealedKeys : List SealedKey) :
    Accounted (st.applyKey members adminEmail begun keyHex sealedKeys).1 := by
  have hgrows := applyKey_grows st members adminEmail begun keyHex sealedKeys
  generalize hst' : (st.applyKey members adminEmail begun keyHex sealedKeys).1 = st' at hgrows ⊢
  have happlied : st'.keys = st.keys ++ [(keyHex, begun)]
      ∧ st'.seals = st.seals ++ members.map (fun m => (m.email, keyHex))
      ∧ st'.group.groupKeyHex = keyHex := by
    rw [← hst', Store.applyKey]
    dsimp only
    split
    · exact ⟨rfl, rfl, rfl⟩
    · exact ⟨rfl, rfl, rfl⟩
  obtain ⟨hkeys, hseals, hkey⟩ := happlied
  have hnew : (keyHex, begun) ∈ st'.keys := by
    rw [hkeys]
    exact List.mem_append_right _ (List.mem_singleton_self _)
  refine ⟨fun key hmem => ?_, fun sealed hmem => ?_, ⟨begun, by rw [hkey]; exact hnew⟩⟩
  · rw [hkeys] at hmem
    rcases List.mem_append.mp hmem with hold | hnew
    · exact (h.begun key hold).trans hgrows.gone
    · rw [List.mem_singleton.mp hnew]
      exact hbegun.trans hgrows.gone
  · rw [hseals] at hmem
    rcases List.mem_append.mp hmem with hold | hsealed
    · exact (h.seals sealed hold).grows h hgrows
    · obtain ⟨m, hm, rfl⟩ := List.mem_map.mp hsealed
      exact ⟨begun, hnew, hgrows.was _ _ hbegun (hmembers m hm)⟩

variable {E : Env}

theorem exec_accounted {st : Store} (h : Accounted st) {pc : Pc} (hpc : PcAccounted st pc)
    (k : Nat) (o : Outcome) :
    Accounted (exec E k st pc o).1 ∧ PcAccounted (exec E k st pc o).1 (exec E k st pc o).2
      ∧ Grows st (exec E k st pc o).1 := by
  cases pc with
  | sealing email publicKeyHex keyHex =>
    rw [exec]
    split
    · exact ⟨h, trivial, .refl st⟩
    · exact ⟨pushMember_accounted h hpc, trivial, pushMember_grows st _ _ _ _⟩
  | rotating members adminEmail begun =>
    rw [exec]
    cases generateAndSealGroupKey E members o with
    | none => exact ⟨h, trivial, .refl st⟩
    | some generated =>
      obtain ⟨keyHex, sealedKeys⟩ := generated
      refine ⟨applyKey_accounted h hpc.1 hpc.2 _ _ _, ?_, applyKey_grows st _ _ _ _ _⟩
      dsimp only [Store.applyKey]
      split
      · trivial
      · trivial
  | sending senderEmail plaintext keyHex =>
    rw [exec]
    split
    · exact ⟨h, trivial, .refl st⟩
    · have hgrows : ∀ hex, Grows st (st.pushMessage senderEmail hex) :=
        fun hex => ⟨le_rfl, fun _ h => h, fun _ _ _ h => h⟩
      exact ⟨h.grows (hgrows _) rfl rfl rfl, trivial, hgrows _⟩
  | failed message => exact ⟨h, trivial, .refl st⟩
  | finished => exact ⟨h, trivial, .refl st⟩

/-! ## Runs -/

/-- **One step**: a key that was made when all former members had gone was
sealed to none of them. -/
theorem excludes_of_madeSince {s : State Store Pc} (h : Accounted s.store)
    {a : Action Event Outcome} (hmade : MadeSince E s a) : Excludes E s a := by
  intro keyHex hsends email hformer hsealed
  obtain ⟨begun, hkey, hwas⟩ := h.seals _ hsealed
  have hgone := hmade keyHex hsends email hformer begun hkey
  rcases hwas with hmember | hsince
  · have hfound := find_isSome_iff.mpr hmember
    rw [Option.isNone_iff_eq_none.mp hformer.2] at hfound
    cases hfound
  · exact absurd hsince (Nat.not_lt_of_le hgone)

theorem initial_accounted (creatorEmail : String) (group : GroupConversation) :
    Accounted (.initial creatorEmail group) where
  begun := by
    intro key hkey
    rw [List.mem_singleton.mp hkey]
    exact Nat.zero_le _
  seals := by
    intro sealed hsealed
    obtain ⟨m, hm, rfl⟩ := List.mem_map.mp hsealed
    exact ⟨0, List.mem_singleton_self _, .inl ⟨m, hm, rfl⟩⟩
  current := ⟨0, List.mem_singleton_self _⟩

theorem step_accounted (s : State Store Pc) (a : Action Event Outcome)
    (h : Calls.Holds Accounted (fun st _ pc => PcAccounted st pc) s) (hmade : MadeSince E s a) :
    Calls.Holds Accounted (fun st _ pc => PcAccounted st pc) ((service E).step s a) := by
  refine Calls.Holds.step ?_ ?_ s a hmade h
  · intro s e hs _
    obtain ⟨hstore, hcall⟩ := world_accounted hs.store e
    exact ⟨hstore, fun k pc _ hpc => hpc.grows (world_grows s.store e), hcall⟩
  · intro s k pc o hs _ hk
    obtain ⟨hstore, hcall, hgrows⟩ := exec_accounted (E := E) hs.store (hs.call k pc hk) k o
    exact ⟨hstore, hcall, fun j q _ _ hq => hq.grows hgrows⟩

/-- **Former members are excluded** in every run in which each message goes out
under a key that was made when they had gone. -/
theorem excludes_run {creatorEmail : String} {group : GroupConversation}
    {actions : List (Action Event Outcome)}
    (hrun : Run.Each (service E).step (MadeSince E) ⟨.initial creatorEmail group, []⟩ actions) :
    Run.Each (service E).step (Excludes E) ⟨.initial creatorEmail group, []⟩ actions :=
  hrun.imp (fun _ _ hs hmade => excludes_of_madeSince hs.store hmade)
    (fun s a hs hmade => step_accounted s a hs hmade)
    (Calls.Holds.initial (initial_accounted creatorEmail group))

/-- Bob is removed, and Alice writes when the new key is in place. -/
def removedBob : List (Action Event Outcome) :=
  [.world (.removeMember "bob" "alice"), .exec 0 (sampleOutcome 5),
   .world (.sendGroupMessage "alice" "hello"), .exec 1 (sampleOutcome 6)]

theorem excludes_removedBob :
    Run.Each (service sampleEnv).step (Excludes sampleEnv) ⟨.initial "alice" aliceAndBob, []⟩
      removedBob := by
  refine excludes_run ⟨?_, ?_, ?_, ?_, trivial⟩
  · rintro _ ⟨⟩
  · rintro _ ⟨⟩
  · rintro _ ⟨⟩
  · intro keyHex hsends email _ begun hbegun
    obtain rfl : keyHex = Digits.encodeHex (sampleKey 5).toList := by
      have hkey : sends sampleEnv ((service sampleEnv).run ⟨.initial "alice" aliceAndBob, []⟩
          (removedBob.take 3)) (.exec 1 (sampleOutcome 6))
            = some (Digits.encodeHex (sampleKey 5).toList) := by decide +kernel
      exact (Option.some.inj (hkey.symm.trans hsends)).symm
    have hmaking : ∀ key ∈ ((service sampleEnv).run ⟨.initial "alice" aliceAndBob, []⟩
        (removedBob.take 3)).store.keys,
          key.1 = Digits.encodeHex (sampleKey 5).toList → key.2 = 1 := by decide +kernel
    have hgone : ((service sampleEnv).run ⟨.initial "alice" aliceAndBob, []⟩
        (removedBob.take 3)).store.goneAt = Function.update (fun _ => 0) "bob" 1 := by rfl
    obtain rfl : begun = 1 := hmaking _ hbegun rfl
    show ((service sampleEnv).run ⟨.initial "alice" aliceAndBob, []⟩
        (removedBob.take 3)).store.goneAt email ≤ 1
    rw [hgone]
    by_cases hbob : email = "bob"
    · rw [hbob, Function.update_self]
    · rw [Function.update_of_ne hbob]
      exact Nat.zero_le 1

/-- Bob leaves, and Alice writes under the key he has. -/
theorem left_not_excluded :
    ¬Run.Each (service sampleEnv).step (Excludes sampleEnv) ⟨.initial "alice" aliceAndBob, []⟩
      [.world (.leaveGroup "bob"), .world (.sendGroupMessage "alice" "hello"),
        .exec 1 (sampleOutcome 6)] := by
  rintro ⟨-, -, hsend, -⟩
  exact hsend aliceAndBob.groupKeyHex (by decide +kernel) "bob"
    ⟨by decide +kernel, by decide +kernel⟩ (by decide +kernel)

end UsbVault.App.GroupMessages
