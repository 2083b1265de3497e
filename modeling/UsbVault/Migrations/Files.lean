import Mathlib.Algebra.Ring.Int.Defs
import Mathlib.Data.List.Basic
import Mathlib.Data.List.Infix
import Mathlib.Data.List.Sort
import Mathlib.Order.Basic
import Mathlib.Data.String.Basic

/-!
# Migration files

`readMigrations` of `migrations/migrate.go`: the files `NNN_name.sql` of a
directory, sorted by version and then by name, and the first of each version.
Other entries are skipped.

What is left has one migration for each version, in ascending order, the one
with the least name (`readMigrations_ok`).
-/

namespace UsbVault.Migrations

structure Migration where
  version : Int
  name : String
  sql : String
  deriving DecidableEq, Repr

/-- An entry of the directory. A file that cannot be read has no content. -/
structure DirEntry where
  name : String
  isDir : Bool
  content : Option String
  deriving DecidableEq, Repr

inductive ReadError where
  /-- "failed to read migrations directory" -/
  | directory
  /-- "failed to read migration file" -/
  | file (name : String)
  deriving DecidableEq, Repr

/-! ## File names -/

/-- The blanks that `fmt` skips before a number; a new line is an error. -/
def isSpace (c : Char) : Bool :=
  c ≠ '\n' ∧ (0x09 ≤ c.toNat ∧ c.toNat ≤ 0x0d ∨ 0x2000 ≤ c.toNat ∧ c.toNat ≤ 0x200a
    ∨ c.toNat ∈ [0x20, 0x85, 0xa0, 0x1680, 0x2028, 0x2029, 0x202f, 0x205f, 0x3000])

def scanSign : List Char → Int × List Char
  | '-' :: text => (-1, text)
  | '+' :: text => (1, text)
  | text => (1, text)

/-- `fmt.Sscanf(text, "%d", &version)`: blanks, a sign, and digits as far as
they go. -/
def scanVersion (text : List Char) : Option Int :=
  let (sign, text) := scanSign (text.dropWhile isSpace)
  let digits := text.takeWhile Char.isDigit
  let version := sign * Nat.ofDigitChars 10 digits 0
  if digits ≠ [] ∧ -2 ^ 63 ≤ version ∧ version < 2 ^ 63 then some version else none

def extension : List Char := ['.', 's', 'q', 'l']

def trimSuffix (suffix text : List Char) : List Char :=
  if suffix <:+ text then text.take (text.length - suffix.length) else text

/-- `NNN_name.sql` -/
def parseName (name : String) : Option (Int × String) :=
  if extension <:+ name.toList then
    match name.toList.dropWhile (· ≠ '_') with
    | [] => none
    | _ :: rest =>
      (scanVersion (name.toList.takeWhile (· ≠ '_'))).map
        fun version => (version, .ofList (trimSuffix extension rest))
  else none

/-! ## The directory -/

/-- The loop over the entries. -/
def readEntries : List DirEntry → Except ReadError (List Migration)
  | [] => .ok []
  | entry :: entries =>
    match if entry.isDir then none else parseName entry.name with
    | none => readEntries entries
    | some (version, name) =>
      match entry.content with
      | none => .error (.file entry.name)
      | some sql => (readEntries entries).map (⟨version, name, sql⟩ :: ·)

/-- The order that `sort.Slice` is given. -/
def less (a b : Migration) : Bool :=
  if a.version ≠ b.version then a.version < b.version else a.name < b.name

/-- What `sort.Slice` promises: files with the same version and name may come
in either order. -/
structure Sorts (sort : List Migration → List Migration) : Prop where
  perm : ∀ ms, (sort ms).Perm ms
  sorted : ∀ ms, (sort ms).Pairwise fun a b => ¬less b a

/-- The loop with its `seen`. -/
def dedup (seen : List Int) : List Migration → List Migration
  | [] => []
  | mig :: migs =>
    if mig.version ∈ seen then dedup seen migs
    else mig :: dedup (mig.version :: seen) migs

/-- `entries`: of the directory, if it can be read. -/
def readMigrations (sort : List Migration → List Migration) (entries : Option (List DirEntry)) :
    Except ReadError (List Migration) :=
  match entries with
  | none => .error .directory
  | some entries => (readEntries entries).map fun migrations => dedup [] (sort migrations)

example : parseName "017_user_split_public_keys.sql" = some (17, "user_split_public_keys")
    ∧ parseName "migrate.go" = none ∧ parseName "v2_a.sql" = none := by
  decide

/-! ## What is read -/

theorem mem_dedup {mig : Migration} {migs : List Migration} :
    ∀ {seen}, mig ∈ dedup seen migs → mig ∈ migs ∧ mig.version ∉ seen := by
  induction migs with
  | nil => rintro seen ⟨⟩
  | cons m migs ih =>
    intro seen h
    rw [dedup] at h
    split at h
    · exact (ih h).imp_left (List.mem_cons_of_mem m)
    · rename_i hnew
      rcases List.mem_cons.mp h with rfl | hlater
      · exact ⟨List.mem_cons_self, hnew⟩
      · obtain ⟨hmem, hseen⟩ := ih hlater
        exact ⟨List.mem_cons_of_mem m hmem, fun hold => hseen (List.mem_cons_of_mem _ hold)⟩

theorem version_le_of_not_less {a b : Migration} (h : ¬less b a) : a.version ≤ b.version := by
  by_contra hlt
  refine h ?_
  rw [less, if_pos (by omega)]
  exact decide_eq_true (by omega)

theorem dedup_ascending {migs : List Migration} :
    ∀ {seen}, migs.Pairwise (fun a b => ¬less b a) →
      (dedup seen migs).Pairwise fun a b => a.version < b.version := by
  induction migs with
  | nil => intro seen _; exact .nil
  | cons m migs ih =>
    intro seen h
    obtain ⟨hfirst, hrest⟩ := List.pairwise_cons.mp h
    rw [dedup]
    split
    · exact ih hrest
    · refine List.pairwise_cons.mpr ⟨?_, ih hrest⟩
      intro later hlater
      obtain ⟨hmem, hseen⟩ := mem_dedup hlater
      have hle := version_le_of_not_less (hfirst later hmem)
      have hne : later.version ≠ m.version := by
        intro heq
        exact hseen (heq ▸ List.mem_cons_self)
      omega

theorem dedup_covers {migs : List Migration} {mig : Migration} (hmem : mig ∈ migs) :
    ∀ {seen}, migs.Pairwise (fun a b => ¬less b a) → mig.version ∉ seen →
      ∃ kept ∈ dedup seen migs, kept.version = mig.version ∧ kept.name ≤ mig.name := by
  induction migs with
  | nil => cases hmem
  | cons m migs ih =>
    intro seen h hseen
    obtain ⟨hfirst, hrest⟩ := List.pairwise_cons.mp h
    rw [dedup]
    rcases List.mem_cons.mp hmem with rfl | hlater
    · rw [if_neg hseen]
      exact ⟨mig, List.mem_cons_self, rfl, le_refl _⟩
    · split
      · exact ih hlater hrest hseen
      · by_cases hsame : mig.version = m.version
        · refine ⟨m, List.mem_cons_self, hsame.symm, ?_⟩
          by_contra hlt
          refine hfirst mig hlater ?_
          rw [less, if_neg (not_not.mpr hsame)]
          exact decide_eq_true (not_le.mp hlt)
        · have hnew : mig.version ∉ m.version :: seen := by
            intro hold
            rcases List.mem_cons.mp hold with heq | hold
            · exact hsame heq
            · exact hseen hold
          obtain ⟨kept, hkept, hversion⟩ := ih hlater hrest hnew
          exact ⟨kept, List.mem_cons_of_mem m hkept, hversion⟩

/-- The entry is the migration's file. -/
structure DirEntry.Holds (entry : DirEntry) (mig : Migration) : Prop where
  file : entry.isDir = false
  named : parseName entry.name = some (mig.version, mig.name)
  content : entry.content = some mig.sql

theorem mem_readEntries {entries : List DirEntry} {mig : Migration} :
    ∀ {migs}, readEntries entries = .ok migs →
      (mig ∈ migs ↔ ∃ entry ∈ entries, entry.Holds mig) := by
  induction entries with
  | nil =>
    rintro migs ⟨⟩
    exact ⟨by rintro ⟨⟩, by rintro ⟨entry, ⟨⟩, -⟩⟩
  | cons entry entries ih =>
    intro migs h
    rw [readEntries] at h
    split at h
    · rename_i hskipped
      rw [ih h]
      constructor
      · rintro ⟨e, he, hholds⟩
        exact ⟨e, List.mem_cons_of_mem entry he, hholds⟩
      · rintro ⟨e, he, hholds⟩
        rcases List.mem_cons.mp he with rfl | hlater
        · rw [hholds.file, if_neg Bool.false_ne_true, hholds.named] at hskipped
          cases hskipped
        · exact ⟨e, hlater, hholds⟩
    · rename_i version name hname
      have hfile : entry.isDir = false := by
        cases hdir : entry.isDir with
        | false => rfl
        | true =>
          rw [hdir, if_pos rfl] at hname
          cases hname
      rw [hfile, if_neg Bool.false_ne_true] at hname
      split at h
      · cases h
      · rename_i sql hcontent
        cases hrest : readEntries entries with
        | error e =>
          rw [hrest] at h
          cases h
        | ok rest =>
          rw [hrest] at h
          cases h
          rw [List.mem_cons, ih hrest]
          constructor
          · rintro (rfl | ⟨e, he, hholds⟩)
            · exact ⟨entry, List.mem_cons_self, hfile, hname, hcontent⟩
            · exact ⟨e, List.mem_cons_of_mem entry he, hholds⟩
          · rintro ⟨e, he, hholds⟩
            rcases List.mem_cons.mp he with rfl | hlater
            · left
              obtain ⟨-, hnamed, hsql⟩ := hholds
              rw [hname] at hnamed
              rw [hcontent] at hsql
              cases mig
              cases hnamed
              cases hsql
              rfl
            · exact .inr ⟨e, hlater, hholds⟩

theorem readMigrations_eq_ok {sort : List Migration → List Migration}
    {dir : Option (List DirEntry)} {migs : List Migration}
    (h : readMigrations sort dir = .ok migs) :
    ∃ entries all, dir = some entries ∧ readEntries entries = .ok all
      ∧ migs = dedup [] (sort all) := by
  cases dir with
  | none => cases h
  | some entries =>
    cases hread : readEntries entries with
    | error e =>
      rw [readMigrations, hread] at h
      cases h
    | ok all =>
      rw [readMigrations, hread] at h
      cases h
      exact ⟨entries, all, rfl, hread, rfl⟩

theorem readMigrations_ascending {sort : List Migration → List Migration} (hsort : Sorts sort)
    {dir : Option (List DirEntry)} {migs : List Migration}
    (h : readMigrations sort dir = .ok migs) :
    migs.Pairwise fun a b => a.version < b.version := by
  obtain ⟨entries, all, -, -, rfl⟩ := readMigrations_eq_ok h
  exact dedup_ascending (hsort.sorted all)

/-- **The files of a directory**: every version that a file has is read once, in
ascending order, from a file of that version whose name is the least. -/
theorem readMigrations_ok {sort : List Migration → List Migration} (hsort : Sorts sort)
    {entries : List DirEntry} {migs : List Migration}
    (h : readMigrations sort (some entries) = .ok migs) :
    migs.Pairwise (fun a b => a.version < b.version)
      ∧ (∀ mig ∈ migs, ∃ entry ∈ entries, entry.Holds mig)
      ∧ ∀ entry ∈ entries, ∀ mig, entry.Holds mig →
          ∃ kept ∈ migs, kept.version = mig.version ∧ kept.name ≤ mig.name := by
  have hascending := readMigrations_ascending hsort h
  obtain ⟨_, all, ⟨⟩, hread, rfl⟩ := readMigrations_eq_ok h
  refine ⟨hascending, ?_, ?_⟩
  · intro mig hmem
    have hsorted : mig ∈ sort all := (mem_dedup hmem).1
    exact (mem_readEntries hread).mp ((hsort.perm all).mem_iff.mp hsorted)
  · intro entry hentry mig hholds
    have hall : mig ∈ all := (mem_readEntries hread).mpr ⟨entry, hentry, hholds⟩
    have hsorted : mig ∈ sort all := (hsort.perm all).mem_iff.mpr hall
    exact dedup_covers hsorted (hsort.sorted all) List.not_mem_nil

/-- A sort that keeps the order of equal files. -/
def stableSort (ms : List Migration) : List Migration :=
  ms.insertionSort fun a b => ¬less b a

theorem not_less_iff {a b : Migration} :
    ¬less b a ↔ a.version < b.version ∨ a.version = b.version ∧ a.name ≤ b.name := by
  rw [less]
  split
  · rename_i hne
    rw [decide_eq_true_iff]
    omega
  · rename_i heq
    have hsame : b.version = a.version := not_not.mp heq
    rw [decide_eq_true_iff, not_lt]
    constructor
    · exact fun hle => .inr ⟨hsame.symm, hle⟩
    · rintro (hlt | ⟨-, hle⟩)
      · omega
      · exact hle

theorem stableSort_sorts : Sorts stableSort := by
  have htotal : Std.Total fun a b : Migration => ¬less b a := by
    refine ⟨fun a b => ?_⟩
    rw [not_less_iff, not_less_iff]
    rcases lt_trichotomy a.version b.version with hlt | heq | hgt
    · exact .inl (.inl hlt)
    · exact (le_total a.name b.name).imp (fun h => .inr ⟨heq, h⟩) fun h => .inr ⟨heq.symm, h⟩
    · exact .inr (.inl hgt)
  have htrans : IsTrans Migration fun a b => ¬less b a := by
    refine ⟨fun a b c hab hbc => ?_⟩
    rw [not_less_iff] at hab hbc ⊢
    rcases hab with hlt | ⟨heq, hle⟩
    · rcases hbc with hlt' | ⟨heq', -⟩
      · exact .inl (hlt.trans hlt')
      · exact .inl (heq' ▸ hlt)
    · rcases hbc with hlt | ⟨heq', hle'⟩
      · exact .inl (heq ▸ hlt)
      · exact .inr ⟨heq.trans heq', hle.trans hle'⟩
  exact ⟨List.perm_insertionSort _, List.pairwise_insertionSort _⟩

def sampleDir : List DirEntry :=
  [⟨"001_initial.sql", false, some "CREATE TABLE users ()"⟩,
    ⟨"002_b.sql", false, some "SELECT 1"⟩, ⟨"02_a.sql", false, some "SELECT 2"⟩,
    ⟨"migrate.go", false, none⟩]

def sampleMigrations : List Migration :=
  [⟨1, "initial", "CREATE TABLE users ()"⟩, ⟨2, "a", "SELECT 2"⟩]

theorem readMigrations_sampleDir :
    readMigrations stableSort (some sampleDir) = .ok sampleMigrations := by
  rfl

theorem readMigrations_ok_sample :
    sampleMigrations.Pairwise (fun a b => a.version < b.version)
      ∧ (∀ mig ∈ sampleMigrations, ∃ entry ∈ sampleDir, entry.Holds mig)
      ∧ ∀ entry ∈ sampleDir, ∀ mig, entry.Holds mig →
          ∃ kept ∈ sampleMigrations, kept.version = mig.version ∧ kept.name ≤ mig.name :=
  readMigrations_ok stableSort_sorts readMigrations_sampleDir

end UsbVault.Migrations
