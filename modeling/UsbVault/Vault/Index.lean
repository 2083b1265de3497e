import UsbVault.Crypto.Primitives
import UsbVault.Lib.Run
import Mathlib.Data.List.AList

/-!
# The vault index

The index of the crypto core: file names mapped to entries, each with a
version that counts the writes to its name. A run of index operations is
watched through the list of its writes. The versions defend the index
against rollback (`Defends`) in every state of a run exactly when no step
removes a name the run has written, counts past the last 64-bit version or
takes version zero for a write (`defends_iff`).
-/

namespace UsbVault

open Wire

/-- `FileEntry`. -/
structure FileEntry where
  offset : UInt64
  encryptedFileKey : Option Bytes
  version : UInt64
  deriving DecidableEq, Repr

/-- `VaultIndex`, a hash map from filenames to entries. -/
structure VaultIndex where
  files : AList fun _ : String => FileEntry

namespace VaultIndex

/-- `VaultIndex::new`. -/
def new : VaultIndex := ⟨∅⟩

/-- The version the next write to the name receives: one more than the
current one (64-bit, wrapping as in a release build), 1 for a new name. -/
def nextVersion (index : VaultIndex) (filename : String) : UInt64 :=
  ((index.files.lookup filename).map fun e => e.version + 1).getD 1

/-- `insert`. -/
def insert (index : VaultIndex) (filename : String) (offset : UInt64) : VaultIndex :=
  ⟨index.files.insert filename
    { offset, encryptedFileKey := none, version := index.nextVersion filename }⟩

/-- `insert_with_key`. -/
def insertWithKey (index : VaultIndex) (filename : String) (offset : UInt64)
    (encryptedFileKey : Bytes) : VaultIndex :=
  ⟨index.files.insert filename
    { offset, encryptedFileKey := some encryptedFileKey, version := index.nextVersion filename }⟩

/-- `insert_with_version`. -/
def insertWithVersion (index : VaultIndex) (filename : String) (offset version : UInt64) :
    VaultIndex :=
  ⟨index.files.insert filename { offset, encryptedFileKey := none, version }⟩

/-- `validate_version`: an incoming version must be above the known one; a
legacy entry (version 0) accepts every version. -/
def validateVersion (index : VaultIndex) (filename : String) (incomingVersion : UInt64) :
    Except CryptoError Unit :=
  match index.files.lookup filename with
  | some existing =>
    if existing.version > 0 && incomingVersion ≤ existing.version then
      .error .rollbackDetected
    else .ok ()
  | none => .ok ()

/-- `remove`. -/
def remove (index : VaultIndex) (filename : String) : Option UInt64 × VaultIndex :=
  ((index.files.lookup filename).map (·.offset), ⟨index.files.erase filename⟩)

/-- **A version is refused** when the name has a nonzero version at least as
great. -/
theorem validateVersion_error {index : VaultIndex} {filename : String} {v : UInt64} :
    index.validateVersion filename v = .error .rollbackDetected ↔
      ∃ e, index.files.lookup filename = some e ∧ 0 < e.version ∧ v ≤ e.version := by
  rw [validateVersion]
  cases index.files.lookup filename with
  | none => simp
  | some e => simp

theorem validateVersion_ok {index : VaultIndex} {filename : String} {v : UInt64} :
    index.validateVersion filename v = .ok () ↔
      ∀ e, index.files.lookup filename = some e → 0 < e.version → e.version < v := by
  rw [validateVersion]
  cases index.files.lookup filename with
  | none => simp
  | some e => simp

/-- The next version is above the current one, or it has wrapped to zero. -/
theorem nextVersion_above {index : VaultIndex} {filename : String} :
    index.nextVersion filename = 0 ∨
      ∀ e, index.files.lookup filename = some e → e.version < index.nextVersion filename := by
  rw [nextVersion]
  cases index.files.lookup filename with
  | none => exact .inr fun e he => by cases he
  | some e =>
    simp only [Option.map_some, Option.getD_some, Option.some.injEq, forall_eq']
    rw [← UInt64.toNat_inj, UInt64.lt_iff_toNat_lt, UInt64.toNat_add]
    have hlt : e.version.toNat < 2 ^ 64 := e.version.toNat_lt
    have h1 : (1 : UInt64).toNat = 1 := rfl
    have h0 : (0 : UInt64).toNat = 0 := rfl
    omega

theorem nextVersion_pos {index : VaultIndex} {filename : String} :
    0 < index.nextVersion filename ↔
      ∀ e, index.files.lookup filename = some e → e.version.toNat < 2 ^ 64 - 1 := by
  rw [nextVersion]
  cases index.files.lookup filename with
  | none => simp
  | some e =>
    simp only [Option.map_some, Option.getD_some, Option.some.injEq, forall_eq']
    rw [UInt64.lt_iff_toNat_lt, UInt64.toNat_add]
    have hlt : e.version.toNat < 2 ^ 64 := e.version.toNat_lt
    have h1 : (1 : UInt64).toNat = 1 := rfl
    have h0 : (0 : UInt64).toNat = 0 := rfl
    omega

/-! ## Runs -/

inductive Op
  | insert (filename : String) (offset : UInt64)
  | insertWithKey (filename : String) (offset : UInt64) (encryptedFileKey : Bytes)
  | insertWithVersion (filename : String) (offset version : UInt64)
  | remove (filename : String)
  deriving DecidableEq, Repr

/-- An index and the writes made to it, the last first: each name with the
version it received. -/
structure Watched where
  index : VaultIndex
  writes : List (String × UInt64)

/-- One operation. A version the index refuses is not written. -/
def Watched.perform (s : Watched) : Op → Watched
  | .insert filename offset =>
    ⟨s.index.insert filename offset, (filename, s.index.nextVersion filename) :: s.writes⟩
  | .insertWithKey filename offset key =>
    ⟨s.index.insertWithKey filename offset key,
      (filename, s.index.nextVersion filename) :: s.writes⟩
  | .insertWithVersion filename offset version =>
    match s.index.validateVersion filename version with
    | .ok () => ⟨s.index.insertWithVersion filename offset version,
        (filename, version) :: s.writes⟩
    | .error _ => s
  | .remove filename => ⟨(s.index.remove filename).2, s.writes⟩

/-- **The versions defend the index against rollback**: each write received
a version above those of the earlier writes to its name, and the index
refuses every version a write has received. -/
structure Defends (s : Watched) : Prop where
  ascending : s.writes.Pairwise fun later earlier => later.1 = earlier.1 → earlier.2 < later.2
  refuses : ∀ w ∈ s.writes, s.index.validateVersion w.1 w.2 = .error .rollbackDetected

/-- An insertion finds its name new or below the last 64-bit version, an
accepted version is not zero, and no name that has been written is removed. -/
def KeepsVersions (s : Watched) : Op → Prop
  | .insert filename _ | .insertWithKey filename _ _ =>
    ∀ e, s.index.files.lookup filename = some e → e.version.toNat < 2 ^ 64 - 1
  | .insertWithVersion filename _ version =>
    s.index.validateVersion filename version = .ok () → 0 < version
  | .remove filename => ∀ w ∈ s.writes, w.1 ≠ filename

/-- A write above the current version, if not of version zero, keeps the
defence; a write of version zero does not. -/
theorem defends_write_iff {s : Watched} (h : Defends s) {filename : String} {entry : FileEntry}
    (habove : entry.version = 0 ∨
      ∀ e, s.index.files.lookup filename = some e → 0 < e.version → e.version < entry.version) :
    Defends ⟨⟨s.index.files.insert filename entry⟩, (filename, entry.version) :: s.writes⟩ ↔
      0 < entry.version := by
  constructor
  · intro hd
    obtain ⟨e, hlookup, hpos, -⟩ := validateVersion_error.mp (hd.refuses _ List.mem_cons_self)
    rw [AList.lookup_insert, Option.some.injEq] at hlookup
    rwa [hlookup]
  intro hpos
  have hnew : ∀ e, s.index.files.lookup filename = some e → 0 < e.version →
      e.version < entry.version := by
    rcases habove with hzero | habove
    · rw [hzero] at hpos
      exact absurd hpos (by decide)
    · exact habove
  have hbelow : ∀ w ∈ s.writes, w.1 = filename → w.2 < entry.version := by
    intro w hw hname
    obtain ⟨e, hlookup, hepos, hle⟩ := validateVersion_error.mp (h.refuses w hw)
    rw [hname] at hlookup
    exact UInt64.lt_of_le_of_lt hle (hnew e hlookup hepos)
  refine ⟨List.pairwise_cons.mpr ⟨fun w hw hname => hbelow w hw hname.symm, h.ascending⟩, ?_⟩
  intro w hw
  refine validateVersion_error.mpr ?_
  rcases List.mem_cons.mp hw with rfl | hold
  · exact ⟨entry, AList.lookup_insert _, hpos, UInt64.le_refl _⟩
  by_cases hname : w.1 = filename
  · refine ⟨entry, ?_, hpos, UInt64.le_of_lt (hbelow w hold hname)⟩
    rw [hname]
    exact AList.lookup_insert _
  · obtain ⟨e, hlookup, hrest⟩ := validateVersion_error.mp (h.refuses w hold)
    exact ⟨e, by rw [AList.lookup_insert_ne hname, hlookup], hrest⟩

theorem defends_remove_iff {s : Watched} (h : Defends s) {filename : String} :
    Defends ⟨(s.index.remove filename).2, s.writes⟩ ↔ ∀ w ∈ s.writes, w.1 ≠ filename := by
  constructor
  · intro hd w hw hname
    obtain ⟨e, hlookup, -⟩ := validateVersion_error.mp (hd.refuses w hw)
    rw [hname, remove, AList.lookup_erase] at hlookup
    cases hlookup
  · intro hne
    refine ⟨h.ascending, fun w hw => validateVersion_error.mpr ?_⟩
    obtain ⟨e, hlookup, hrest⟩ := validateVersion_error.mp (h.refuses w hw)
    exact ⟨e, by rw [remove, AList.lookup_erase_ne (hne w hw), hlookup], hrest⟩

/-- **One operation**: the defence is kept exactly under the condition. -/
theorem defends_perform_iff (s : Watched) (o : Op) (h : Defends s) :
    Defends (s.perform o) ↔ KeepsVersions s o := by
  have hnext : ∀ filename, s.index.nextVersion filename = 0 ∨
      ∀ e, s.index.files.lookup filename = some e → 0 < e.version →
        e.version < s.index.nextVersion filename := fun filename =>
    nextVersion_above.imp_right fun habove e he _ => habove e he
  cases o with
  | insert filename offset =>
    exact (defends_write_iff h (hnext filename)).trans nextVersion_pos
  | insertWithKey filename offset key =>
    exact (defends_write_iff h (hnext filename)).trans nextVersion_pos
  | insertWithVersion filename offset version =>
    rw [Watched.perform, KeepsVersions]
    cases hvalid : s.index.validateVersion filename version with
    | ok _ =>
      refine (defends_write_iff h (.inr (validateVersion_ok.mp hvalid))).trans ?_
      exact ⟨fun hpos _ => hpos, fun hpos => hpos rfl⟩
    | error err => exact iff_of_true h fun hok => by cases hok
  | remove filename => exact defends_remove_iff h

/-- **The defence along a run**, from any index: it stands in every state
exactly when every operation meets its condition. -/
theorem defends_iff (index : VaultIndex) (ops : List Op) :
    (∀ pre post, ops = pre ++ post → Defends (pre.foldl Watched.perform ⟨index, []⟩)) ↔
      Run.Each Watched.perform KeepsVersions ⟨index, []⟩ ops :=
  Run.Each.iff_prefixes defends_perform_iff
    ⟨List.Pairwise.nil, fun _ hw => absurd hw List.not_mem_nil⟩

/-- Two writes to a name, its removal and a third write. -/
def sampleRollback : List Op :=
  [.insert "report" 0, .insert "report" 4096, .remove "report", .insert "report" 8192]

/-- The third write receives version 1 once more. -/
theorem sampleRollback_restarts :
    ¬ ∀ pre post, sampleRollback = pre ++ post →
      Defends (pre.foldl Watched.perform ⟨VaultIndex.new, []⟩) := by
  intro h
  have hlast := (h sampleRollback [] rfl).ascending
  exact absurd hlast (by decide)

end VaultIndex

end UsbVault
