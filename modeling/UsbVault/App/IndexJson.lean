import UsbVault.App.Index
import UsbVault.Lib.JsonText
import UsbVault.Lib.Utf8

/-!
# The index as JSON

The text `JSON.stringify` gives for an index, in UTF-8, and a reader for
such texts: the codec the vault runs with. The reader takes the texts the
writer gives and no others.
-/

namespace UsbVault.App

open Wire Js Companion JsonText

/-- UTF-8, as the `TextEncoder` writes it. -/
def utf8 (text : List Char) : Bytes := text.flatMap String.utf8EncodeChar

def fromUtf8 (bytes : Bytes) : Option (List Char) :=
  (ByteArray.mk bytes.toArray).utf8Decode?.map Array.toList

/-- A property name and the colon behind it. -/
def named (name : String) : List Char := quoted name ++ [':']

/-- An entry as `JSON.stringify` writes it. -/
def entryText (e : VaultIndexEntry) : List Char :=
  braced [named "name" ++ quoted e.name, named "size" ++ decimal e.size,
    named "offset" ++ decimal e.offset, named "length" ++ decimal e.length,
    named "cipherId" ++ decimal e.cipherId, named "saltHex" ++ quoted e.saltHex,
    named "createdAt" ++ quoted e.createdAt, named "modifiedAt" ++ quoted e.modifiedAt,
    named "version" ++ decimal e.version]

/-- A file of the index. -/
def memberText (p : String × VaultIndexEntry) : List Char := named p.1 ++ entryText p.2

/-- An index with its files in this order. -/
def indexText (files : Files) : List Char :=
  braced [named "files" ++ braced (files.map memberText)]

def readEntry : Reader VaultIndexEntry := do
  literal ('\x7b' :: named "name")
  let name ← string
  literal (',' :: named "size")
  let size ← number
  literal (',' :: named "offset")
  let offset ← number
  literal (',' :: named "length")
  let length ← number
  literal (',' :: named "cipherId")
  let cipherId ← number
  literal (',' :: named "saltHex")
  let saltHex ← string
  literal (',' :: named "createdAt")
  let createdAt ← string
  literal (',' :: named "modifiedAt")
  let modifiedAt ← string
  literal (',' :: named "version")
  let version ← number
  literal ['\x7d']
  return ⟨name, size, offset, length, cipherId, saltHex, createdAt, modifiedAt, version⟩

def readMember : Reader (String × VaultIndexEntry) := do
  let fileId ← string
  literal [':']
  let entry ← readEntry
  return (fileId, entry)

def readIndex : Reader Files := do
  literal ('\x7b' :: named "files")
  let files ← object readMember
  literal ['\x7d']
  return files

theorem entryText_eq (e : VaultIndexEntry) : entryText e =
    ('\x7b' :: named "name") ++ (quoted e.name
      ++ ((',' :: named "size") ++ (decimal e.size
      ++ ((',' :: named "offset") ++ (decimal e.offset
      ++ ((',' :: named "length") ++ (decimal e.length
      ++ ((',' :: named "cipherId") ++ (decimal e.cipherId
      ++ ((',' :: named "saltHex") ++ (quoted e.saltHex
      ++ ((',' :: named "createdAt") ++ (quoted e.createdAt
      ++ ((',' :: named "modifiedAt") ++ (quoted e.modifiedAt
      ++ ((',' :: named "version") ++ (decimal e.version ++ ['\x7d']))))))))))))))))) := by
  simp only [entryText, braced, List.intercalate_cons_cons, List.intercalate_singleton,
    List.append_assoc, List.cons_append, List.nil_append]

theorem reads_entry (e : VaultIndexEntry) : Reads readEntry (entryText e) e := by
  rw [entryText_eq]
  have hcomma : ','.isDigit = false := by decide
  have hbrace : '\x7d'.isDigit = false := by decide
  refine (reads_literal _).bind ((reads_string _).bind ?_)
  refine (reads_literal _).bind (.number hcomma ?_)
  refine (reads_literal _).bind (.number hcomma ?_)
  refine (reads_literal _).bind (.number hcomma ?_)
  refine (reads_literal _).bind (.number hcomma ?_)
  refine (reads_literal _).bind ((reads_string _).bind ?_)
  refine (reads_literal _).bind ((reads_string _).bind ?_)
  refine (reads_literal _).bind ((reads_string _).bind ?_)
  refine (reads_literal _).bind (.number hbrace ?_)
  exact (reads_literal _).last fun _ => e

theorem reads_member (p : String × VaultIndexEntry) : Reads readMember (memberText p) p := by
  obtain ⟨fileId, e⟩ := p
  rw [memberText, named, List.append_assoc]
  exact (reads_string fileId).bind ((reads_literal _).bind ((reads_entry e).last (fileId, ·)))

theorem reads_index (files : Files) : Reads readIndex (indexText files) files := by
  have hmembers : Reads (object readMember) (braced (files.map memberText)) files :=
    reads_object (fun p _ => reads_member p) fun p _ => rfl
  have htext : indexText files = ('\x7b' :: named "files")
      ++ (braced (files.map memberText) ++ ['\x7d']) := by
    rw [indexText, braced, List.intercalate_singleton, List.append_assoc]
    rfl
  rw [htext]
  exact (reads_literal _).bind (hmembers.bind ((reads_literal _).last fun _ => files))

theorem fromUtf8_utf8 (text : List Char) : fromUtf8 (utf8 text) = some text := by
  have hencode : ByteArray.mk (utf8 text).toArray = text.utf8Encode := by
    rw [List.utf8Encode, utf8]
    exact ByteArray.ext List.data_toByteArray.symm
  rw [fromUtf8, hencode, List.utf8Decode?_utf8Encode]
  rfl

/-! ## The codec -/

/-- `JSON.stringify({ files })` in UTF-8. -/
def stringifyIndex (files : Files) : Bytes := utf8 (indexText files.entries)

/-- `JSON.parse` of such a text. -/
def parseIndex (bytes : Bytes) : Option Files := do
  let text ← fromUtf8 bytes
  let (files, _) ← readIndex text
  if files.keys.Nodup ∧ utf8 (indexText files) = bytes then some files else none

theorem parseIndex_stringify {files : Files} (h : files.keys.Nodup) :
    parseIndex (stringifyIndex files) = some files.entries := by
  have hread : readIndex (indexText files.entries) = some (files.entries, []) := by
    have hindex := reads_index files.entries []
    rw [List.append_nil] at hindex
    exact hindex
  have hnodup : files.entries.keys.Nodup := (files.entries_perm.map Prod.fst).nodup_iff.mpr h
  rw [parseIndex, stringifyIndex, fromUtf8_utf8, Option.bind_eq_bind, Option.bind_some, hread,
    Option.bind_eq_bind, Option.bind_some]
  exact if_pos ⟨hnodup, rfl⟩

theorem parseIndex_eq {bytes : Bytes} {files : Files} (h : parseIndex bytes = some files) :
    files.keys.Nodup ∧ utf8 (indexText files) = bytes := by
  simp only [parseIndex, Option.bind_eq_bind, Option.bind_eq_some_iff, Prod.exists] at h
  obtain ⟨text, _, files', rest, _, hif⟩ := h
  split at hif
  · rename_i hok
    cases hif
    exact hok
  · cases hif

theorem sameMap_entries {files : Files} (h : files.keys.Nodup) : SameMap files.entries files := by
  have hnodup : files.entries.keys.Nodup := (files.entries_perm.map Prod.fst).nodup_iff.mpr h
  intro k
  cases hget : files.get k with
  | none =>
    rw [Obj.get_eq_none_iff] at hget ⊢
    exact fun hmem => hget ((files.entries_perm.map Prod.fst).subset hmem)
  | some e => exact Obj.get_of_mem hnodup (files.entries_perm.symm.subset (Obj.mem_of_get hget))

theorem length_le_utf8 (text : List Char) : text.length ≤ (utf8 text).length :=
  Utf8.length_le_encode text

theorem stringifyIndex_nil : stringifyIndex [] = ascii "\x7b\"files\":\x7b\x7d\x7d" := by decide

theorem indexText_length_ge (files : Files) : 12 ≤ (indexText files).length := by
  have hname : (named "files").length = 8 := by decide
  simp only [indexText, braced, List.intercalate_singleton, List.length_append, List.length_cons,
    List.length_nil, hname]
  omega

/-- **The codec of the vault index.** -/
def indexJson : IndexCodec where
  stringify := stringifyIndex
  parse := parseIndex
  roundTrip := fun files h => ⟨files.entries, parseIndex_stringify h, sameMap_entries h⟩
  nodup := fun _ _ h => (parseIndex_eq h).1
  shortest := by
    intro bytes files h
    rw [stringifyIndex_nil, ← (parseIndex_eq h).2]
    exact (indexText_length_ge files).trans (length_le_utf8 _)

/-! ## The size of an index -/

theorem utf8_length_le (text : List Char) : (utf8 text).length ≤ 4 * text.length := by
  induction text with
  | nil => exact Nat.le_refl _
  | cons c text ih =>
    have hchar := c.utf8Size_le_four
    rw [utf8, List.flatMap_cons, List.length_append, String.length_utf8EncodeChar,
      List.length_cons]
    rw [utf8] at ih
    omega

/-- The characters and the numbers of an entry. -/
def entryWeight (e : VaultIndexEntry) : Nat :=
  e.name.length + e.saltHex.length + e.createdAt.length + e.modifiedAt.length
    + e.size + e.offset + e.length + e.cipherId + e.version

theorem named_length_le (name : String) : (named name).length ≤ 6 * name.length + 3 := by
  have hquoted := quoted_length_le name
  rw [named, List.length_append, List.length_singleton]
  omega

/-- A property of an entry, under a name of at most ten characters. -/
theorem stringField_length_le {k : String} (s : String) (h : k.length ≤ 10) :
    (named k ++ quoted s).length ≤ 6 * s.length + 65 := by
  have hname := named_length_le k
  have hquoted := quoted_length_le s
  rw [List.length_append]
  omega

theorem numberField_length_le {k : String} (n : Nat) (h : k.length ≤ 10) :
    (named k ++ decimal n).length ≤ n + 65 := by
  have hname := named_length_le k
  have hdecimal := decimal_length_le n
  rw [List.length_append]
  omega

theorem entryText_length_le (e : VaultIndexEntry) :
    (entryText e).length ≤ 6 * entryWeight e + 640 := by
  have hfields := Nat.add_le_add (stringField_length_le (k := "name") e.name (by decide))
    <| Nat.add_le_add (numberField_length_le (k := "size") e.size (by decide))
    <| Nat.add_le_add (numberField_length_le (k := "offset") e.offset (by decide))
    <| Nat.add_le_add (numberField_length_le (k := "length") e.length (by decide))
    <| Nat.add_le_add (numberField_length_le (k := "cipherId") e.cipherId (by decide))
    <| Nat.add_le_add (stringField_length_le (k := "saltHex") e.saltHex (by decide))
    <| Nat.add_le_add (stringField_length_le (k := "createdAt") e.createdAt (by decide))
    <| Nat.add_le_add (stringField_length_le (k := "modifiedAt") e.modifiedAt (by decide))
      (numberField_length_le (k := "version") e.version (by decide))
  refine (braced_length_le _).trans ?_
  simp only [List.map_cons, List.map_nil, List.sum_cons, List.sum_nil, Nat.add_zero]
  refine (Nat.add_le_add_right (Nat.add_le_add_right hfields _) _).trans ?_
  rw [entryWeight]
  simp only [List.length_cons, List.length_nil]
  omega

theorem stringifyIndex_one_length_le (fileId : String) (e : VaultIndexEntry) :
    (stringifyIndex [(fileId, e)]).length ≤ 4 * (6 * fileId.length + 6 * entryWeight e + 660) := by
  have hentries : Obj.entries [(fileId, e)] = [(fileId, e)] :=
    List.perm_singleton.mp (Obj.entries_perm _)
  have hid := quoted_length_le fileId
  have hentry := entryText_length_le e
  have hname : (named "files").length = 8 := by decide
  have htext : (indexText [(fileId, e)]).length ≤ 6 * fileId.length + 6 * entryWeight e + 660 := by
    simp only [indexText, braced, List.map_singleton, List.intercalate_singleton, memberText,
      List.length_append, List.length_cons, List.length_nil, hname]
    rw [named, List.length_append, List.length_singleton]
    omega
  rw [stringifyIndex, hentries]
  exact (utf8_length_le _).trans (Nat.mul_le_mul_left 4 htext)

end UsbVault.App
