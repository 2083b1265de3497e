import UsbVault.Companion.Contract
import UsbVault.Lib.Json
import UsbVault.Lib.TypedArray
import UsbVault.Lib.Utf8

/-!
# The plaintext identity

The provisional header carries the vault's id and name as JSON behind a
length at offset 224, for discovery without the password.
`readVaultIdentity` reads them back from there (`initialHeader_identifies`).
Text with a zero byte in it is no JSON, so a zero byte anywhere in the
range makes it return `null` (`parseIdentity_of_zero`).
-/

namespace UsbVault.Companion

open Wire Effect Prog FsOp
open Js (store readLE slice length_store pread_store_before pread_store_self readLE_store)
open JsonText (quoted braced)

def VAULT_MAGIC_V2 : Bytes := ascii "USBVLT02"

def VAULT_MAGIC_V3 : Bytes := ascii "USBVLT03"

/-! ## The provisional header -/

/-- The identity as `JSON.stringify` writes it. -/
def identityText (vaultId vaultName created : String) : List Char :=
  braced [quoted "id" ++ ':' :: quoted vaultId, quoted "name" ++ ':' :: quoted vaultName,
    quoted "created" ++ ':' :: quoted created, quoted "version" ++ [':', '4']]

def maxIdentitySize : Nat := 544

/-- `buildInitialHeader` -/
def buildInitialHeader (salt : ByteVec 32) (vaultId vaultName created : String) : Bytes :=
  let header := store (zeros HEADER_SIZE) 0 VAULT_MAGIC
  let header := store header 8 (leBytes 2 4)
  let header := store header 10 (leBytes 2 HEADER_SIZE)
  let header := store header 12 [1]
  let header := store header 13 [3]
  let header := store header 18 salt.toList
  let identityBytes := Utf8.encode (identityText vaultId vaultName created)
  if identityBytes.length ≤ maxIdentitySize then
    store (store header 224 (leBytes 2 identityBytes.length)) 226 identityBytes
  else header

/-! ## Reading the identity -/

/-- What `readVaultIdentity` makes of the bytes it has read. -/
def parseIdentity (got : Bytes) : Option Json.Value :=
  let buf := got ++ zeros (768 - got.length)
  if got.length < 228 then none
  else if buf.take 8 ≠ VAULT_MAGIC ∧ buf.take 8 ≠ VAULT_MAGIC_V2 ∧ buf.take 8 ≠ VAULT_MAGIC_V3 then
    none
  else
    let idLen := readLE 2 buf 224
    if idLen = 0 ∨ 544 < idLen then none
    else Json.parse (Utf8.decode (slice buf 226 (226 + idLen)))

/-- `readVaultIdentity`; `none` is `null`. -/
def readVaultIdentity (mountPoint : String) : Async (Option Json.Value) :=
  ((vaultBinPath mountPoint).bind fun path => (perform (openFile path .r)).bind fun fd =>
    ensuring ((perform (read fd 768 0)).bind fun got => pure (parseIdentity got))
      (perform (close fd))).orElse (pure none)

/-- Some run of `readVaultIdentity` returns this id and name. -/
def Identifies (mountPoint : String) (fs : Fs) (vaultId vaultName : String) : Prop :=
  ∃ v fs', Runs Io (readVaultIdentity mountPoint) fs (.ok (some v)) fs'
    ∧ v.get "id" = some (.string (Json.units vaultId))
    ∧ v.get "name" = some (.string (Json.units vaultName))

variable {fs fs' : Fs} {disk : Bytes} {mountPoint : String}

/-- Whatever happens to its calls, `readVaultIdentity` returns `null` or
what the first 768 bytes say. -/
theorem readVaultIdentity_contract (hf : fs.vaultBin = some disk) {r : Option Json.Value}
    (hrun : Runs Io (readVaultIdentity mountPoint) fs (.ok r) fs') :
    r = none ∨ r = parseIdentity (pread disk 0 768) := by
  have hret : Returns Io (fun t => t.vaultBin = some disk)
      (fun r _ => r = none ∨ r = parseIdentity (pread disk 0 768))
      (readVaultIdentity mountPoint) fs := by
    rw [readVaultIdentity]
    refine returns_orElse ?_ fun t ht => returns_done ht (.inl rfl)
    refine returns_bind (returns_vaultBinPath mountPoint hf) ?_
    rintro _ _ _ ⟨rfl, rfl⟩
    refine returns_bind (completes_openVaultBin (by simp) hf fun _ => id).1 ?_
    intro fd t ht hopen
    refine returns_finally_close fd ?_
    refine returns_bind (hopen.completes_read ht 768 0).1 ?_
    rintro _ u hu ⟨rfl, -⟩
    exact returns_done hu (.inr rfl)
  exact hret.runs hrun

/-- On an allowed mount point a run returns what the first 768 bytes say. -/
theorem completes_readVaultIdentity (hmount : validateMountPoint mountPoint = pure ())
    (hf : fs.vaultBin = some disk) :
    ∃ fs', Runs Io (readVaultIdentity mountPoint) fs
      (.ok (parseIdentity (pread disk 0 768))) fs' := by
  have hopen : (openFile .vaultBin .r).effect fs
      = some (fs.handles.length, { fs with handles := fs.handles ++ [(.vaultBin, 0)] }) := by
    simp only [FsOp.effect, Fs.content, hf]
  have hread : (read fs.handles.length 768 0).effect
      { fs with handles := fs.handles ++ [(.vaultBin, 0)] }
      = some (pread disk 0 768, { fs with handles := fs.handles ++ [(.vaultBin, 0)] }) := by
    apply effect_read
    · exact List.getElem?_concat_length
    · exact hf
  refine ⟨{ fs with handles := fs.handles ++ [(.vaultBin, 0)] },
    Runs.andThen (x := .ok (parseIdentity (pread disk 0 768))) ?_ (.done _ _)⟩
  rw [vaultBinPath, hmount]
  refine Runs.bind (.done _ _) (Runs.bind (.perform (.ok hopen)) ?_)
  exact Runs.ensuring (Runs.bind (.perform (.ok hread)) (.done _ _)) (.perform (.ok rfl))

/-! ## The provisional header identifies the vault -/

/-- The members of the identity, each with its text. -/
def identityMembers (vaultId vaultName created : String) :
    List (List Char × List Nat × Json.Value) :=
  [(quoted "id" ++ ':' :: quoted vaultId, Json.units "id", .string (Json.units vaultId)),
    (quoted "name" ++ ':' :: quoted vaultName, Json.units "name", .string (Json.units vaultName)),
    (quoted "created" ++ ':' :: quoted created, Json.units "created",
      .string (Json.units created)),
    (quoted "version" ++ [':', '4'], Json.units "version", .number ['4'])]

theorem identityText_length_ge (vaultId vaultName created : String) :
    vaultId.length + vaultName.length + created.length + 40
      ≤ (identityText vaultId vaultName created).length := by
  have hid := JsonText.quoted_length_ge vaultId
  have hname := JsonText.quoted_length_ge vaultName
  have hcreated := JsonText.quoted_length_ge created
  have hk : (quoted "id").length = 4 ∧ (quoted "name").length = 6
      ∧ (quoted "created").length = 9 ∧ (quoted "version").length = 9 := by decide
  simp only [identityText, braced, List.intercalate_cons_cons, List.intercalate_singleton,
    List.length_cons, List.length_append, List.length_nil]
  omega

theorem parse_identityText (vaultId vaultName created : String) :
    Json.parse (identityText vaultId vaultName created)
      = some (.object ((identityMembers vaultId vaultName created).map Prod.snd)) := by
  have htext : identityText vaultId vaultName created
      = braced ((identityMembers vaultId vaultName created).map Prod.fst) := rfl
  have hlen := identityText_length_ge vaultId vaultName created
  have hk : "id".length = 2 ∧ "name".length = 4 ∧ "created".length = 7
      ∧ "version".length = 7 := by decide
  rw [htext]
  refine Json.parse_object ?_ ?_
  · rw [← htext, identityMembers]
    simp only [List.forall_mem_cons]
    exact ⟨Json.delimited_string (by omega) (by omega), Json.delimited_string (by omega) (by omega),
      Json.delimited_string (by omega) (by omega),
      Json.delimited_digit (by omega) (by decide), by simp⟩
  · rw [identityMembers]
    simp only [List.forall_mem_cons]
    exact ⟨rfl, rfl, rfl, rfl, by simp⟩

/-- The fields of the provisional header the identity is read through. -/
theorem buildInitialHeader_fields {salt : ByteVec 32} {vaultId vaultName created : String}
    {identityBytes : Bytes}
    (htext : identityBytes = Utf8.encode (identityText vaultId vaultName created))
    (hfit : identityBytes.length ≤ 544) :
    (buildInitialHeader salt vaultId vaultName created).length = HEADER_SIZE
      ∧ pread (buildInitialHeader salt vaultId vaultName created) 0 8 = VAULT_MAGIC
      ∧ readLE 2 (buildInitialHeader salt vaultId vaultName created) 224 = identityBytes.length
      ∧ pread (buildInitialHeader salt vaultId vaultName created) 226 identityBytes.length
        = identityBytes := by
  have hsize : HEADER_SIZE = 24576 := rfl
  have hmagic : VAULT_MAGIC.length = 8 := rfl
  rw [buildInitialHeader, ← htext, if_pos (show identityBytes.length ≤ maxIdentitySize from hfit)]
  refine ⟨?_, ?_, ?_, ?_⟩
  · simp only [length_store, zeros_length]
  · rw [pread_store_before (by decide), pread_store_before (by decide),
      pread_store_before (by decide), pread_store_before (by decide),
      pread_store_before (by decide), pread_store_before (by decide),
      pread_store_before (by decide)]
    have hself := @pread_store_self (zeros HEADER_SIZE) VAULT_MAGIC 0
      (by rw [zeros_length, hmagic, hsize]; omega)
    rwa [hmagic] at hself
  · rw [readLE, pread_store_before (by decide)]
    show readLE 2 (store _ 224 (leBytes 2 identityBytes.length)) 224 = identityBytes.length
    refine readLE_store ?_ (by omega)
    simp only [length_store, zeros_length, hsize]
    omega
  · refine pread_store_self ?_
    simp only [length_store, zeros_length, hsize]
    omega

/-- **The provisional header identifies the vault**, when its text fits
into the bytes the reader takes. -/
theorem initialHeader_identifies (hmount : validateMountPoint mountPoint = pure ())
    {salt : ByteVec 32} {vaultId vaultName created : String}
    (hfit : (Utf8.encode (identityText vaultId vaultName created)).length ≤ 542)
    (hf : fs.vaultBin = some (buildInitialHeader salt vaultId vaultName created)) :
    Identifies mountPoint fs vaultId vaultName := by
  obtain ⟨fs', hrun⟩ := completes_readVaultIdentity hmount hf
  obtain ⟨hlen, hmagic, hsize, htext⟩ :=
    @buildInitialHeader_fields salt vaultId vaultName created _ rfl (by omega)
  have hheader : HEADER_SIZE = 24576 := rfl
  have hpos : 40 ≤ (Utf8.encode (identityText vaultId vaultName created)).length := by
    have hchars := identityText_length_ge vaultId vaultName created
    exact Nat.le_trans (by omega) (Utf8.length_le_encode _)
  have hread : parseIdentity (pread (buildInitialHeader salt vaultId vaultName created) 0 768)
      = some (.object ((identityMembers vaultId vaultName created).map Prod.snd)) := by
    have h768 : (pread (buildInitialHeader salt vaultId vaultName created) 0 768).length = 768 := by
      rw [pread_length, hlen, hheader]
      omega
    rw [parseIdentity, h768]
    simp only [Nat.sub_self]
    have hfront : (pread (buildInitialHeader salt vaultId vaultName created) 0 768).take 8
        = VAULT_MAGIC := by
      rw [← hmagic, pread, pread, List.take_take, Nat.min_eq_left (by omega)]
    have hidLen : readLE 2 (pread (buildInitialHeader salt vaultId vaultName created) 0 768) 224
        = (Utf8.encode (identityText vaultId vaultName created)).length := by
      rw [readLE, pread_pread (by omega)]
      exact hsize
    rw [show zeros 0 = [] from rfl, List.append_nil, if_neg (by decide), if_neg (by simp [hfront]),
      hidLen, if_neg (by omega), slice, pread_pread (by omega), Nat.add_sub_cancel_left,
      Nat.zero_add, htext, Utf8.decode_encode, parse_identityText]
  rw [hread] at hrun
  exact ⟨_, fs', hrun, rfl, rfl⟩

/-! ## A zero byte in the text -/

/-- **A zero byte in the range of the text** makes the identity unreadable. -/
theorem parseIdentity_of_zero {got : Bytes} (hlong : got.length = 768) {k : Nat} (hk : 226 ≤ k)
    (hin : k < 226 + readLE 2 got 224) (hk' : k < 768) (hzero : got[k]? = some 0) :
    parseIdentity got = none := by
  rw [parseIdentity, hlong]
  simp only [Nat.sub_self]
  rw [show zeros 0 = [] from rfl, List.append_nil, if_neg (by decide)]
  split
  · rfl
  split
  · rfl
  refine Json.parse_of_nul (Utf8.nul_mem_decode ?_)
  rw [slice, pread, List.mem_iff_getElem?]
  refine ⟨k - 226, ?_⟩
  rw [List.getElem?_take_of_lt (by omega), List.getElem?_drop, Nat.add_sub_cancel' hk]
  exact hzero

theorem parseIdentity_of_length_zero {got : Bytes} (hlong : got.length = 768)
    (hlen : readLE 2 got 224 = 0) : parseIdentity got = none := by
  rw [parseIdentity, hlong]
  simp only [Nat.sub_self]
  rw [show zeros 0 = [] from rfl, List.append_nil, if_neg (by decide), hlen]
  split
  · rfl
  · exact if_pos (.inl rfl)

end UsbVault.Companion
