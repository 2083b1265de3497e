import UsbVault.App.BackupRestore

/-!
# What an import accepts

`importBackup` of `services/vault/backup.ts` on any text, whether or not an
export wrote it. `importBackup` of `UsbVault.App.Backup` returns data, which
only some JSON is; here it returns any value that `JSON.parse` makes.

The bytes of a file do not come back as bytes, and nothing but the ciphertext
is protected: a text whose `encrypted` is not true is imported as it stands,
whatever key is given, and of an encrypted export the rest may be changed.
When AES-GCM opens nothing that was not encrypted for this export, these are
the only ways in which an import is not the inverse of the export
(`importBackup_inverse_iff`).

Numbers are exact.
-/

namespace UsbVault.App.Backup

open Wire Json
open Utf8 (decodeText)
open JsonText (decimal)

/-! ## Any JSON -/

mutual

/-- `String(value)` -/
def textOf : Value → List Nat
  | .null => units "null"
  | .bool true => units "true"
  | .bool false => units "false"
  | .number numeral => units (String.ofList ((wholeNumber numeral).elim numeral decimal))
  | .string us => us
  | .array items => (units ",").intercalate (itemTexts items)
  | .object _ => units "[object Object]"

/-- `null` has no text in an array. -/
def itemTexts : List Value → List (List Nat)
  | [] => []
  | .null :: items => [] :: itemTexts items
  | item :: items => textOf item :: itemTexts items

end

/-- `base64ToBytes` of any value. `atob` makes a text of it; that of
`undefined` is not base64. -/
def valueToBytes (v : Option Value) : Option Bytes :=
  v.bind fun v => (fromUnits (textOf v)).bind Base64.decode

def parseValue (bytes : Bytes) : Option Value := parse (decodeText bytes)

/-- `parsed` -/
def parsedText (data : String) : Option Value := (base64ToBytes data).bind parseValue

/-- The ciphertext, the IV and the salt of a text. -/
structure Sealed where
  ciphertext : Bytes
  iv : Bytes
  salt : Bytes
  deriving DecidableEq, Repr

def presented (parsed : Value) : Option Sealed := do
  let ciphertext ← valueToBytes (parsed.get "ciphertext")
  let iv ← valueToBytes (parsed.get "iv")
  let salt ← valueToBytes (parsed.get "salt")
  return ⟨ciphertext, iv, salt⟩

/-- `decryptBackup` -/
def openSealed (C : WebCrypto) (decryptionKey : String) (s : Sealed) : Option Value :=
  (C.decrypt (deriveKey C decryptionKey s.salt) s.iv s.ciphertext).bind parseValue

/-- `importBackup` -/
def importValue (C : WebCrypto) (data : String) (decryptionKey : Option String) :
    Except ImportError Value :=
  match parsedText data with
  | none | some .null => .error .platform
  | some parsed =>
    if Value.truthy (parsed.get "encrypted") then
      match given decryptionKey with
      | some decryptionKey =>
        match (presented parsed).bind (openSealed C decryptionKey) with
        | some backup => .ok backup
        | none => .error .platform
      | none => .error .noKey
    else .ok parsed

/-! ## The inverse -/

/-- What was encrypted for an export. -/
def exported (C : WebCrypto) (o : Options) (backup : BackupData) (encryptionKey : String) :
    Sealed :=
  ⟨encryptBackup C o backup encryptionKey, o.iv.toList, o.salt.toList⟩

/-- AES-GCM opens what the text presents only if that is what was encrypted
for the export, under its key. -/
def Unforged (C : WebCrypto) (o : Options) (backup : BackupData) (parsed : Value)
    (decryptionKey : String) : Prop :=
  ∀ s, presented parsed = some s →
    (C.decrypt (deriveKey C decryptionKey s.salt) s.iv s.ciphertext).isSome →
    given o.encryptionKey = some decryptionKey ∧ s = exported C o backup decryptionKey

/-- Another text than the export, or an export with a key and not this one. -/
def Altered (C : WebCrypto) (o : Options) (backup : BackupData) (data : String)
    (decryptionKey : Option String) : Prop :=
  data ≠ exportBackup C o backup
    ∨ (given o.encryptionKey).isSome ∧ given decryptionKey ≠ given o.encryptionKey

/-- The export comes back as the backup it was made of, and what is altered is
refused. -/
structure Inverse (C : WebCrypto) (o : Options) (backup : BackupData) (data : String)
    (decryptionKey : Option String) : Prop where
  yields : ∃ v, importValue C (exportBackup C o backup) o.encryptionKey = .ok v
    ∧ (Data.ofValue v).bind BackupData.ofData = some backup
  refuses : Altered C o backup data decryptionKey →
    ∃ e, importValue C data decryptionKey = .error e

/-- No file has bytes. -/
def NoBytes (backup : BackupData) : Prop :=
  ∀ f ∈ backup.files, ∀ bytes, f.encryptedBlob ≠ some (.uint8Array bytes)

/-- A text that is JSON is marked as encrypted, and does not present, to the
key of the export, what was encrypted for it. -/
def Guarded (C : WebCrypto) (o : Options) (backup : BackupData) (data : String)
    (decryptionKey : Option String) : Prop :=
  ∀ parsed, parsedText data = some parsed → parsed ≠ .null →
    Value.truthy (parsed.get "encrypted") = true
      ∧ ∀ key, given decryptionKey = some key → given o.encryptionKey = some key →
        presented parsed ≠ some (exported C o backup key)

/-! ## Properties of what is written -/

theorem units_injective : Function.Injective units := by
  intro s s' h
  have hback := fromUnits_units s
  rw [h, fromUnits_units s'] at hback
  exact (Option.some.inj hback).symm

theorem get_value (name : String) (ms : List (String × Data)) :
    (Data.object ms).value.get name = (Data.property name ms).map Data.value := by
  rw [Data.value, Value.get, Data.memberValues_eq, Data.property, ← List.map_reverse]
  induction ms.reverse with
  | nil => rfl
  | cons m ms ih =>
    obtain ⟨name', d⟩ := m
    rw [List.map_cons, List.lookup_cons, List.lookup_cons]
    by_cases h : name = name'
    · simp [h]
    · have hunits : (units name == units name') = false :=
        beq_false_of_ne fun heq => h (units_injective heq)
      rw [hunits, beq_false_of_ne h]
      exact ih

theorem parseValue_text (ms : List (String × Data)) :
    parseValue (Utf8.encode (Data.object ms).text) = some (Data.object ms).value := by
  rw [parseValue, decodeText_text, parse_text]

theorem parsedText_export (C : WebCrypto) (o : Options) (backup : BackupData) :
    parsedText (exportBackup C o backup) = some (Data.object (exportData C o backup)).value := by
  rw [parsedText, exportBackup, base64ToBytes_bytesToBase64, Option.bind_some, parseValue_text]

theorem valueToBytes_bytesToBase64 (bytes : Bytes) :
    valueToBytes (some (Data.string (bytesToBase64 bytes)).value) = some bytes := by
  have hback := fromUnits_units (bytesToBase64 bytes)
  obtain ⟨cs, hcs, hname⟩ := Option.map_eq_some_iff.mp hback
  have hdecode := base64ToBytes_bytesToBase64 bytes
  rw [base64ToBytes, ← hname, String.toList_ofList] at hdecode
  rw [valueToBytes, Option.bind_some, Data.value, textOf, hcs, Option.bind_some, hdecode]

theorem presented_export {C : WebCrypto} {o : Options} {backup : BackupData} {key : String}
    (h : given o.encryptionKey = some key) :
    presented (Data.object (exportData C o backup)).value = some (exported C o backup key) := by
  have hproperty : ∀ name bytes,
      Data.property name (exportData C o backup) = some (.string (bytesToBase64 bytes)) →
      valueToBytes ((Data.object (exportData C o backup)).value.get name) = some bytes := by
    intro name bytes hname
    rw [get_value, hname, Option.map_some, valueToBytes_bytesToBase64]
  have hciphertext := hproperty "ciphertext" (encryptBackup C o backup key)
    (by simp [exportData, h])
  have hiv := hproperty "iv" o.iv.toList (by simp [exportData, h])
  have hsalt := hproperty "salt" o.salt.toList (by simp [exportData, h])
  rw [presented, hciphertext, hiv, hsalt]
  rfl

theorem openSealed_exported (C : WebCrypto) (o : Options) (backup : BackupData) (key : String) :
    openSealed C key (exported C o backup key) = some (Data.object backup.members).value := by
  rw [openSealed, exported, encryptBackup, C.decrypt_encrypt, Option.bind_some, parseValue_text]

/-! ## Importing -/

variable {C : WebCrypto} {o : Options} {backup : BackupData} {data : String}
  {decryptionKey : Option String} {parsed : Value}

theorem importValue_parsed (h : parsedText data = some parsed) (hnull : parsed ≠ .null) :
    importValue C data decryptionKey
      = if Value.truthy (parsed.get "encrypted") then
          match given decryptionKey with
          | some decryptionKey =>
            match (presented parsed).bind (openSealed C decryptionKey) with
            | some backup => .ok backup
            | none => .error .platform
          | none => .error .noKey
        else .ok parsed := by
  rw [importValue, h]
  cases parsed with
  | null => exact absurd rfl hnull
  | bool => rfl
  | number => rfl
  | string => rfl
  | array => rfl
  | object => rfl

/-- An export without a key is imported as it was written, whatever key is given. -/
theorem importValue_plain (h : given o.encryptionKey = none) (decryptionKey : Option String) :
    importValue C (exportBackup C o backup) decryptionKey
      = .ok (Data.object backup.members).value := by
  have hplain : Data.property "encrypted" backup.members = none := by
    simp [BackupData.members]
  have hdata : exportData C o backup = backup.members := by rw [exportData, h]
  rw [importValue_parsed (parsedText_export C o backup) (by rintro ⟨⟩), get_value, hdata, hplain]
  rfl

/-- **An export is imported as it was written**, with a key and without. -/
theorem importValue_export (C : WebCrypto) (o : Options) (backup : BackupData) :
    importValue C (exportBackup C o backup) o.encryptionKey
      = .ok (Data.object backup.members).value := by
  cases hkey : given o.encryptionKey with
  | none => exact importValue_plain hkey _
  | some key =>
    have hencrypted : Data.property "encrypted" (exportData C o backup) = some (.bool true) := by
      simp [exportData, hkey]
    rw [importValue_parsed (parsedText_export C o backup) (by rintro ⟨⟩), get_value, hkey]
    simp only [hencrypted, presented_export hkey, Option.bind_some, openSealed_exported]
    rfl

theorem copied_eq_iff : backup.copied = backup ↔ NoBytes backup := by
  have hfile : ∀ f : FileInfo,
      f.copied = f ↔ ∀ bytes, f.encryptedBlob ≠ some (.uint8Array bytes) := by
    intro f
    cases hblob : f.encryptedBlob with
    | none => exact iff_of_true (by rw [FileInfo.copied, hblob, Option.map_none, ← hblob]) (by simp)
    | some blob =>
      cases blob with
      | uint8Array bytes =>
        refine iff_of_false ?_ fun h => h bytes rfl
        intro h
        have hcopied := congrArg FileInfo.encryptedBlob h
        rw [FileInfo.copied, hblob] at hcopied
        cases hcopied
      | object d =>
        refine iff_of_true ?_ (by simp)
        rw [FileInfo.copied, hblob, Option.map_some, Blob.toData, ← hblob]
  have hfiles : backup.files.map FileInfo.copied = backup.files ↔ NoBytes backup := by
    conv_lhs => rhs; rw [← List.map_id backup.files]
    rw [List.map_inj_left]
    exact forall₂_congr fun f _ => hfile f
  rw [← hfiles]
  constructor
  · exact congrArg BackupData.files
  · intro h
    rw [BackupData.copied, h]

theorem yields_iff (C : WebCrypto) (o : Options) (backup : BackupData) :
    (∃ v, importValue C (exportBackup C o backup) o.encryptionKey = .ok v
        ∧ (Data.ofValue v).bind BackupData.ofData = some backup) ↔ NoBytes backup := by
  rw [importValue_export, ← copied_eq_iff]
  constructor
  · rintro ⟨v, hv, hbackup⟩
    cases hv
    rw [Data.ofValue_value, Option.bind_some, BackupData.ofData_members] at hbackup
    exact Option.some.inj hbackup
  · intro h
    refine ⟨_, rfl, ?_⟩
    rw [Data.ofValue_value, Option.bind_some, BackupData.ofData_members, h]

/-- What a text presents is opened just when it was encrypted for the export,
and gives the backup. -/
theorem opened_eq {key : String} (hunforged : Unforged C o backup parsed key) :
    (presented parsed).bind (openSealed C key)
      = if given o.encryptionKey = some key ∧ presented parsed = some (exported C o backup key) then
          some (Data.object backup.members).value
        else none := by
  split
  · rename_i h
    rw [h.2, Option.bind_some, openSealed_exported]
  · rename_i h
    cases hpresented : presented parsed with
    | none => rfl
    | some s =>
      have hclosed : C.decrypt (deriveKey C key s.salt) s.iv s.ciphertext = none := by
        rw [← Option.not_isSome_iff_eq_none]
        intro hopen
        obtain ⟨hkey, hs⟩ := hunforged s hpresented hopen
        exact h ⟨hkey, by rw [hpresented, hs]⟩
      rw [Option.bind_some, openSealed, hclosed]
      rfl

theorem refused_iff (hunforged : ∀ parsed key, parsedText data = some parsed →
      given decryptionKey = some key → Unforged C o backup parsed key) :
    (∃ e, importValue C data decryptionKey = .error e)
      ↔ Guarded C o backup data decryptionKey := by
  cases hparsed : parsedText data with
  | none =>
    refine iff_of_true ⟨.platform, ?_⟩ ?_
    · rw [importValue, hparsed]
    · intro parsed h
      rw [hparsed] at h
      cases h
  | some parsed =>
    have hguarded : Guarded C o backup data decryptionKey ↔ (parsed ≠ .null →
        Value.truthy (parsed.get "encrypted") = true
          ∧ ∀ key, given decryptionKey = some key → given o.encryptionKey = some key →
            presented parsed ≠ some (exported C o backup key)) := by
      rw [Guarded, hparsed]
      simp only [Option.some.injEq, forall_eq']
    rw [hguarded]
    by_cases hnull : parsed = .null
    · refine iff_of_true ⟨.platform, ?_⟩ fun h => absurd hnull h
      rw [importValue, hparsed, hnull]
    rw [importValue_parsed hparsed hnull]
    cases hencrypted : Value.truthy (parsed.get "encrypted") with
    | false => simp [hnull]
    | true =>
      rw [if_pos rfl]
      cases hkey : given decryptionKey with
      | none => exact iff_of_true ⟨_, rfl⟩ fun _ => ⟨rfl, fun key h => nomatch h⟩
      | some key =>
        dsimp only
        rw [opened_eq (hunforged parsed key hparsed hkey)]
        by_cases hown : given o.encryptionKey = some key
            ∧ presented parsed = some (exported C o backup key)
        · rw [if_pos hown]
          refine iff_of_false (by rintro ⟨e, ⟨⟩⟩) fun h => ?_
          exact (h hnull).2 key rfl hown.1 hown.2
        · rw [if_neg hown]
          refine iff_of_true ⟨_, rfl⟩ fun _ => ⟨rfl, ?_⟩
          rintro key' ⟨⟩ hexport hpresented
          exact hown ⟨hexport, hpresented⟩

/-- **An import is the inverse of the export** just when no file of the backup
has bytes and an altered text is guarded. AES-GCM opens nothing that was not
encrypted for the export. -/
theorem importBackup_inverse_iff (C : WebCrypto) (o : Options) (backup : BackupData)
    (data : String) (decryptionKey : Option String)
    (hunforged : ∀ parsed key, parsedText data = some parsed →
      given decryptionKey = some key → Unforged C o backup parsed key) :
    Inverse C o backup data decryptionKey
      ↔ NoBytes backup
        ∧ (Altered C o backup data decryptionKey → Guarded C o backup data decryptionKey) := by
  have hrefused := refused_iff hunforged
  constructor
  · intro h
    exact ⟨(yields_iff C o backup).mp h.yields, fun haltered => hrefused.mp (h.refuses haltered)⟩
  · rintro ⟨hbytes, hguarded⟩
    exact ⟨(yields_iff C o backup).mpr hbytes, fun haltered => hrefused.mpr (hguarded haltered)⟩

/-- A ciphertext that begins with its key and its IV, which are what opens it. -/
def sealing : WebCrypto where
  deriveBits passphrase salt _ := ⟨(passphrase ++ salt ++ zeros 32).take 32, by simp; omega⟩
  encrypt key iv data := key.toList ++ iv.toList ++ data
  decrypt key iv data :=
    if (key.toList ++ iv).isPrefixOf data then some (data.drop (key.toList ++ iv).length) else none
  decrypt_encrypt key iv data := by
    rw [if_pos (List.isPrefixOf_iff_prefix.mpr (List.prefix_append _ _)), List.drop_left]

/-- An export with a key. -/
def withKey : Options := { withoutKey with encryptionKey := some "secret" }

def workBackup : BackupData := createBackup withoutKey [] [workVault] []

/-- Another passphrase than that of the export. -/
theorem importBackup_inverse_wrongKey :
    Inverse sealing withKey workBackup (exportBackup sealing withKey workBackup)
      (some "wrong") := by
  have hsecret : given withKey.encryptionKey = some "secret" := by decide +kernel
  have hwrong : given (some "wrong") = some "wrong" := by decide +kernel
  refine (importBackup_inverse_iff _ _ _ _ _ ?_).mpr ⟨?_, fun _ => ?_⟩
  · intro parsed key hparsed hkey s hs hopen
    rw [parsedText_export] at hparsed
    cases hparsed
    rw [hwrong] at hkey
    cases hkey
    rw [presented_export hsecret] at hs
    cases hs
    exact absurd hopen (by decide +kernel)
  · intro f hf
    cases hf
  · intro parsed hparsed _
    rw [parsedText_export] at hparsed
    cases hparsed
    refine ⟨by decide +kernel, ?_⟩
    intro key hkey hexport
    rw [hwrong] at hkey
    cases hkey
    rw [hsecret] at hexport
    exact absurd hexport (by decide)

/-- The backup with its vault under another name. -/
def renamedBackup : BackupData := { workBackup with vaults := [{ workVault with name := "Play" }] }

/-- **The bytes of a file do not come back**, and in place of an export with a
key another backup is imported with that key, if it has been exported without
one. -/
theorem importBackup_not_inverse :
    ¬Inverse plainCrypto withoutKey (createBackup withoutKey [] [workVault] [notes])
        (exportBackup plainCrypto withoutKey (createBackup withoutKey [] [workVault] [notes])) none
      ∧ Altered sealing withKey workBackup (exportBackup sealing withoutKey renamedBackup)
        (some "secret")
      ∧ (∃ v, importValue sealing (exportBackup sealing withoutKey renamedBackup) (some "secret")
          = .ok v ∧ (Data.ofValue v).bind BackupData.ofData = some renamedBackup)
      ∧ ¬Inverse sealing withKey workBackup (exportBackup sealing withoutKey renamedBackup)
        (some "secret") := by
  have himported : importValue sealing (exportBackup sealing withoutKey renamedBackup)
      (some "secret") = .ok (Data.object renamedBackup.members).value :=
    importValue_plain rfl _
  have hback : ∀ b : BackupData, b.files = [] →
      (Data.ofValue (Data.object b.members).value).bind BackupData.ofData = some b := by
    intro b hfiles
    have hcopied : b.copied = b := copied_eq_iff.mpr fun f hf => by rw [hfiles] at hf; cases hf
    rw [Data.ofValue_value, Option.bind_some, BackupData.ofData_members, hcopied]
  have haltered : Altered sealing withKey workBackup
      (exportBackup sealing withoutKey renamedBackup) (some "secret") := by
    refine .inl fun heq => ?_
    have hsame := importValue_export sealing withKey workBackup
    rw [← heq] at hsame
    have hvalues := himported.symm.trans hsame
    rw [Except.ok.injEq] at hvalues
    have hbackups := hback renamedBackup rfl
    rw [hvalues, hback workBackup rfl] at hbackups
    have hnames : ["Work"] = ["Play"] :=
      congrArg (fun b : BackupData => b.vaults.map VaultInfo.name) (Option.some.inj hbackups)
    exact absurd hnames (by decide)
  refine ⟨?_, haltered, ⟨_, himported, hback _ rfl⟩, ?_⟩
  · intro h
    have hbytes := (yields_iff _ _ _).mp h.yields
    exact hbytes notes List.mem_cons_self [1, 2, 3] rfl
  · intro h
    obtain ⟨e, he⟩ := h.refuses haltered
    rw [himported] at he
    cases he

end UsbVault.App.Backup
