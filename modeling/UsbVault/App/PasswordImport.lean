import UsbVault.App.CsvParser
import UsbVault.Lib.JsonData

/-!
# Importing passwords

`importPasswords` of `services/vault/import.ts`, with `detectFormat` and the
parsers of the CSV formats. A password entry has no notes. Of the rows of a
written table, those are imported that have a password and are no duplicate of
an entry or of an earlier row, each cell without the white space at its ends
(`importPasswords_written`).

What `parseKeePass` makes of a text is an argument. The ids and the times of
the entries, which are drawn, and the progress reports are left out.
-/

namespace UsbVault.App.Import

/-! ## Formats -/

inductive ImportFormat where
  | bitwarden
  | onePassword
  | lastpass
  | chrome
  | keepass
  | auto
  deriving DecidableEq, Repr

/-- `toLowerCase()`, as far as its result is ASCII: of the other letters these
two have one that is. -/
def toLowerCase (s : Text) : Text :=
  s.flatMap fun c =>
    if c = '\u0130' then ['i', '\u0307'] else if c = '\u212a' then ['k'] else [c.toLower]

def includes (s : Text) (part : String) : Bool := s.tails.any part.toList.isPrefixOf

/-- The first code units, without half of a character. -/
def firstUnits : Nat → Text → Text
  | _, [] => []
  | n, c :: s =>
    let width := (Json.codeUnits c).length
    if width ≤ n then c :: firstUnits (n - width) s else []

def detectFormat (header : Text) : ImportFormat :=
  let lower := toLowerCase header
  if includes lower "login_uri" ∧ includes lower "login_username" then .bitwarden
  else if includes lower "grouping" ∧ includes lower "fav" ∧ includes lower "extra" then .lastpass
  else if includes lower "title" ∧ includes lower "type" ∧ includes lower "url" then .onePassword
  else if "name,url,username,password".toList.isPrefixOf lower then .chrome
  else
    match Json.parse header with
    | some parsed =>
      if Json.Value.truthy (parsed.get "Root") ∨ Json.Value.truthy (parsed.get "KeePassFile") then
        .keepass
      else .chrome
    | none => .chrome

/-! ## Entries -/

/-- `Omit<PasswordEntry, 'id' | 'strength'>` -/
structure ParsedEntry where
  title : Text
  url : Text
  username : Text
  password : Text
  category : Text
  deriving DecidableEq, Repr

inductive Strength where
  | strong
  | medium
  | weak
  deriving DecidableEq, Repr

structure PasswordEntry extends ParsedEntry where
  strength : Strength
  deriving DecidableEq, Repr

/-- The columns that a format reads: the title in the first of several that
has one, and a category if it has that column. -/
structure Columns where
  title : List String
  url : String
  username : String
  password : String
  category : Option String
  deriving DecidableEq, Repr

/-- `row[idx(name)] || ''` -/
def cell (header row : List Text) (name : String) : Text :=
  ((header.findIdx? fun h => toLowerCase h = toLowerCase name.toList).bind (row[·]?)).getD []

/-- `a || b` of texts. -/
def orElse (a b : Text) : Text := if a = [] then b else a

def entryOf (c : Columns) (header row : List Text) : ParsedEntry where
  title := c.title.foldr (fun name rest => orElse (cell header row name) rest) "Untitled".toList
  url := cell header row c.url
  username := cell header row c.username
  password := cell header row c.password
  category := orElse (c.category.elim [] (cell header row)) "Imported".toList

def parseColumns (c : Columns) (rows : List (List Text)) (header : List Text) : List ParsedEntry :=
  (rows.map (entryOf c header)).filter fun e => e.password.length > 0

def bitwardenColumns : Columns :=
  ⟨["name"], "login_uri", "login_username", "login_password", some "folder"⟩

def lastPassColumns : Columns := ⟨["name", "url"], "url", "username", "password", some "grouping"⟩

def onePasswordColumns : Columns := ⟨["title"], "url", "username", "password", none⟩

def chromeColumns : Columns := ⟨["name", "url"], "url", "username", "password", none⟩

def parseBitwarden := parseColumns bitwardenColumns

def parseLastPass := parseColumns lastPassColumns

def parse1Password := parseColumns onePasswordColumns

def parseChrome := parseColumns chromeColumns

def isDuplicate (entry : ParsedEntry) (existing : List PasswordEntry) : Bool :=
  existing.any fun e => e.url = entry.url ∧ e.username = entry.username ∧ e.title = entry.title

/-- `length` of a text. -/
def length (s : Text) : Nat := (s.flatMap Json.codeUnits).length

def assessStrength (password : Text) : Strength :=
  let score :=
    (if length password ≥ 16 then 2 else if length password ≥ 12 then 1 else 0)
    + (if password.any Char.isLower ∧ password.any Char.isUpper then 1 else 0)
    + (if password.any Char.isDigit then 1 else 0)
    + (if password.any fun c => !c.isAlphanum then 1 else 0)
  if score ≥ 4 then .strong else if score ≥ 2 then .medium else .weak

/-! ## The import -/

structure ImportResult where
  imported : Nat
  skipped : Nat
  duplicates : Nat
  errors : List String
  entries : List PasswordEntry
  deriving DecidableEq, Repr

def ImportResult.empty : ImportResult := ⟨0, 0, 0, [], []⟩

/-- The body of the loop. -/
def importEntry (existing : List PasswordEntry) (result : ImportResult) (entry : ParsedEntry) :
    ImportResult :=
  if isDuplicate entry existing then
    { result with duplicates := result.duplicates + 1, skipped := result.skipped + 1 }
  else if isDuplicate entry result.entries then
    { result with duplicates := result.duplicates + 1, skipped := result.skipped + 1 }
  else if entry.title = [] ∧ entry.url = [] ∧ entry.username = [] then
    { result with skipped := result.skipped + 1 }
  else
    { result with
      entries := result.entries ++ [⟨entry, assessStrength entry.password⟩]
      imported := result.imported + 1 }

/-- `detectedFormat` -/
def detectedFormat (content : Text) (format : ImportFormat) : ImportFormat :=
  if format = .auto then detectFormat (firstUnits 500 content) else format

def importPasswords (parseKeePass : Text → Except String (List ParsedEntry)) (content : Text)
    (format : ImportFormat) (existing : List PasswordEntry) : ImportResult :=
  let importAll := fun parsed : List ParsedEntry =>
    parsed.foldl (importEntry existing) .empty
  match detectedFormat content format with
  | .keepass =>
    match parseKeePass content with
    | .ok parsed => importAll parsed
    | .error msg => { ImportResult.empty with errors := ["Import failed: " ++ msg] }
  | csv =>
    match parseCSV content with
    | header :: row :: rows =>
      let dataRows := row :: rows
      match csv with
      | .bitwarden => importAll (parseBitwarden dataRows header)
      | .lastpass => importAll (parseLastPass dataRows header)
      | .onePassword => importAll (parse1Password dataRows header)
      | _ => importAll (parseChrome dataRows header)
    | _ =>
      { ImportResult.empty with errors := ["File appears empty or has no data rows"] }

/-! ## What is written -/

open Csv (Row)

/-- The value in a column: the first one with that name in the header. -/
def valueAt (header row : Row) (name : String) : Text :=
  ((header.findIdx? fun f => toLowerCase (trim f.value) = toLowerCase name.toList).bind
    (row[·]?)).elim [] (·.value)

/-- The entry of a row. -/
def writtenEntry (c : Columns) (header row : Row) : ParsedEntry where
  title :=
    c.title.foldr (fun name rest => orElse (trim (valueAt header row name)) rest) "Untitled".toList
  url := trim (valueAt header row c.url)
  username := trim (valueAt header row c.username)
  password := trim (valueAt header row c.password)
  category :=
    orElse (c.category.elim [] fun name => trim (valueAt header row name)) "Imported".toList

/-- What two duplicates have in common. -/
def ParsedEntry.key (e : ParsedEntry) : Text × Text × Text := (e.url, e.username, e.title)

/-- The rows that are imported: they have a password, and a key that neither
those seen before nor an earlier row has. -/
def keptRows (c : Columns) (header : Row) : List (Text × Text × Text) → List Row → List Row
  | _, [] => []
  | seen, row :: rows =>
    let e := writtenEntry c header row
    if e.password = [] ∨ e.key ∈ seen then keptRows c header seen rows
    else row :: keptRows c header (e.key :: seen) rows

def fullEntry (e : ParsedEntry) : PasswordEntry := ⟨e, assessStrength e.password⟩

/-- The columns of the CSV formats. -/
def csvColumns : ImportFormat → Option Columns
  | .bitwarden => some bitwardenColumns
  | .onePassword => some onePasswordColumns
  | .lastpass => some lastPassColumns
  | .chrome => some chromeColumns
  | .keepass | .auto => none

variable {c : Columns} {header row : Row} {rows : List Row} {existing : List PasswordEntry}

theorem cell_cells (name : String) :
    cell (cells header) (cells row) name = trim (valueAt header row name) := by
  rw [cell, valueAt, cells, cells, List.findIdx?_map]
  have hcolumn : ((fun h => decide (toLowerCase h = toLowerCase name.toList))
      ∘ fun f : Csv.Field => trim f.value)
      = fun f => decide (toLowerCase (trim f.value) = toLowerCase name.toList) := rfl
  rw [hcolumn]
  cases header.findIdx? fun f => toLowerCase (trim f.value) = toLowerCase name.toList with
  | none => rfl
  | some i =>
    rw [Option.bind_some, Option.bind_some, List.getElem?_map]
    cases row[i]? <;> rfl

theorem entryOf_cells : entryOf c (cells header) (cells row) = writtenEntry c header row := by
  have hcategory : c.category.elim [] (cell (cells header) (cells row))
      = c.category.elim [] fun name => trim (valueAt header row name) := by
    cases c.category with
    | none => rfl
    | some name => exact cell_cells name
  simp only [entryOf, writtenEntry, cell_cells, hcategory]

theorem title_ne_nil : (writtenEntry c header row).title ≠ [] := by
  show c.title.foldr (fun name rest => orElse (trim (valueAt header row name)) rest)
    "Untitled".toList ≠ []
  induction c.title with
  | nil =>
    show "Untitled".toList ≠ []
    decide
  | cons name names ih =>
    rw [List.foldr_cons, orElse]
    split
    · exact ih
    · assumption

theorem password_of_blank (c : Columns) (header : Row) (h : nonblank (cells row) = false) :
    (writtenEntry c header row).password = [] := by
  show trim (valueAt header row c.password) = []
  rw [← cell_cells, cell]
  cases hcell : (((cells header).findIdx? fun h =>
      toLowerCase h = toLowerCase c.password.toList).bind ((cells row)[·]?)) with
  | none => rfl
  | some text =>
    obtain ⟨i, -, hi⟩ := Option.bind_eq_some_iff.mp hcell
    have hmem := List.mem_of_getElem? hi
    have hlength := List.any_eq_false.mp h text hmem
    simpa using hlength

theorem parseColumns_cells (rows : List Row) :
    parseColumns c ((rows.map cells).filter nonblank) (cells header)
      = (rows.map (writtenEntry c header)).filter fun e => e.password.length > 0 := by
  rw [parseColumns]
  induction rows with
  | nil => rfl
  | cons row rows ih =>
    rw [List.map_cons, List.map_cons]
    cases hblank : nonblank (cells row) with
    | true =>
      rw [List.filter_cons_of_pos hblank, List.map_cons, entryOf_cells, List.filter_cons,
        List.filter_cons, ih]
    | false =>
      have hpassword := password_of_blank c header hblank
      rw [List.filter_cons_of_neg (by rw [hblank]; decide), ih, List.filter_cons_of_neg]
      simp [hpassword]

/-! ## What is imported -/

theorem isDuplicate_iff {e : ParsedEntry} :
    isDuplicate e existing = true ↔ e.key ∈ existing.map fun x => x.key := by
  rw [isDuplicate, List.any_eq_true, List.mem_map]
  refine exists_congr fun x => and_congr_right fun _ => ?_
  rw [decide_eq_true_eq, ParsedEntry.key, ParsedEntry.key, Prod.mk.injEq, Prod.mk.injEq]

theorem importEntry_duplicate {result : ImportResult} {e : ParsedEntry}
    (h : e.key ∈ existing.map (fun x => x.key) ∨ e.key ∈ result.entries.map fun x => x.key) :
    (importEntry existing result e).entries = result.entries := by
  rw [importEntry]
  rcases h with hexisting | hentries
  · rw [if_pos (isDuplicate_iff.mpr hexisting)]
  · rw [if_pos (isDuplicate_iff.mpr hentries)]
    split <;> rfl

theorem importEntry_new {result : ImportResult} {e : ParsedEntry} (htitle : e.title ≠ [])
    (h : ¬(e.key ∈ existing.map (fun x => x.key) ∨ e.key ∈ result.entries.map fun x => x.key)) :
    (importEntry existing result e).entries = result.entries ++ [fullEntry e] := by
  rw [importEntry, if_neg fun hdup => h (.inl (isDuplicate_iff.mp hdup)),
    if_neg fun hdup => h (.inr (isDuplicate_iff.mp hdup)), if_neg fun hempty => htitle hempty.1]
  rfl

/-- **The loop** imports the rows that are kept. -/
theorem foldl_importEntry (existing : List PasswordEntry) (c : Columns) (header : Row)
    (rows : List Row) :
    ∀ (result : ImportResult) (seen : List (Text × Text × Text)),
      (∀ k, k ∈ seen ↔ k ∈ existing.map (fun x => x.key) ∨ k ∈ result.entries.map fun x => x.key) →
      (((rows.map (writtenEntry c header)).filter fun e => e.password.length > 0).foldl
          (importEntry existing) result).entries
        = result.entries
          ++ (keptRows c header seen rows).map fun row =>
            fullEntry (writtenEntry c header row) := by
  induction rows with
  | nil => intro result seen _; simp [keptRows]
  | cons row rows ih =>
    intro result seen hseen
    rw [List.map_cons, keptRows]
    by_cases hpassword : (writtenEntry c header row).password = []
    · rw [List.filter_cons_of_neg (by simp [hpassword])]
      simp only [hpassword, true_or, if_true]
      exact ih result seen hseen
    rw [List.filter_cons_of_pos (by simpa [List.length_pos_iff] using hpassword),
      List.foldl_cons]
    by_cases hkey : (writtenEntry c header row).key ∈ seen
    · have hskip := importEntry_duplicate ((hseen _).mp hkey)
      simp only [hkey, or_true, if_true]
      rw [ih _ seen (by rw [hskip]; exact hseen), hskip]
    · have hnew := importEntry_new title_ne_nil (mt (hseen _).mpr hkey)
      simp only [hpassword, hkey, or_self, if_false]
      rw [ih _ ((writtenEntry c header row).key :: seen), hnew]
      · simp
      · intro k
        rw [hnew, List.mem_cons, hseen k, List.map_append, List.mem_append, List.map_singleton,
          List.mem_singleton, or_comm, or_assoc]
        rfl

/-- All rows are kept if they have passwords and keys of their own. -/
theorem keptRows_eq_self : ∀ (rows : List Row) (seen : List (Text × Text × Text)),
    (∀ row ∈ rows, (writtenEntry c header row).password ≠ []
      ∧ (writtenEntry c header row).key ∉ seen) →
    (rows.map fun row => (writtenEntry c header row).key).Nodup →
    keptRows c header seen rows = rows := by
  intro rows
  induction rows with
  | nil => intro seen _ _; rfl
  | cons row rows ih =>
    intro seen hrows hnodup
    obtain ⟨⟨hpassword, hkey⟩, hrows⟩ := List.forall_mem_cons.mp hrows
    rw [List.map_cons, List.nodup_cons] at hnodup
    rw [keptRows, if_neg (not_or_intro hpassword hkey), ih _ _ hnodup.2]
    intro row' hrow'
    refine ⟨(hrows row' hrow').1, ?_⟩
    rw [List.mem_cons, not_or]
    refine ⟨fun heq => hnodup.1 ?_, (hrows row' hrow').2⟩
    rw [← heq]
    exact List.mem_map_of_mem hrow'

/-- **A written table is imported** row by row: in their order the rows that
have a password and are no duplicates, and so every row if all are such. Of
every cell it is what is written without the white space at its ends. The
header is not blank, and the format is one of the CSV formats. -/
theorem importPasswords_written (parseKeePass : Text → Except String (List ParsedEntry))
    (t : Csv.Table) (header : Row) (rows : List Row) (format : ImportFormat)
    (existing : List PasswordEntry) (c : Columns) (ht : t.rows = header :: rows)
    (hheader : nonblank (cells header))
    (hformat : csvColumns (detectedFormat t.write format) = some c) :
    (importPasswords parseKeePass t.write format existing).entries
        = (keptRows c header (existing.map fun e => e.key) rows).map
            (fun row => fullEntry (writtenEntry c header row))
      ∧ ((∀ row ∈ rows, (writtenEntry c header row).password ≠ []
            ∧ (writtenEntry c header row).key ∉ existing.map fun e => e.key) →
          (rows.map fun row => (writtenEntry c header row).key).Nodup →
          keptRows c header (existing.map fun e => e.key) rows = rows) := by
  refine ⟨?_, keptRows_eq_self rows _⟩
  have hloop := foldl_importEntry existing c header rows .empty
    (existing.map fun e => e.key) (by simp [ImportResult.empty])
  rw [← parseColumns_cells, show ImportResult.empty.entries = [] from rfl, List.nil_append] at hloop
  have hparsed : parseCSV t.write = cells header :: (rows.map cells).filter nonblank := by
    rw [parseCSV_write, ht, List.map_cons, List.filter_cons_of_pos hheader]
  rw [importPasswords, hparsed, ← hloop]
  clear hloop hparsed
  generalize (rows.map cells).filter nonblank = dataRows
  generalize detectedFormat t.write format = detected at hformat ⊢
  cases dataRows with
  | nil =>
    cases detected with
    | keepass => cases hformat
    | auto => cases hformat
    | bitwarden => rfl
    | onePassword => rfl
    | lastpass => rfl
    | chrome => rfl
  | cons row dataRows =>
    cases detected with
    | keepass => cases hformat
    | auto => cases hformat
    | bitwarden => cases hformat; rfl
    | onePassword => cases hformat; rfl
    | lastpass => cases hformat; rfl
    | chrome => cases hformat; rfl

/-- One entry per row, with the user name and the password that are written. -/
def Exact (c : Columns) (header : Row) (rows : List Row) (entries : List PasswordEntry) : Prop :=
  entries.map (fun e => (e.username, e.password))
    = rows.map fun row => (valueAt header row c.username, valueAt header row c.password)

instance (c : Columns) (header : Row) (rows : List Row) (entries : List PasswordEntry) :
    Decidable (Exact c header rows entries) := inferInstanceAs (Decidable (_ = _))

/-- A row with every field in quotation marks. -/
def quotedRow (values : List String) : Row := values.map fun v => Csv.Field.quote v.toList

def chromeHeader : Row := quotedRow ["name", "url", "username", "password", "note"]

/-- A file of Chrome. -/
def chromeTable (rows : List Row) : Csv.Table := ⟨chromeHeader :: rows, .crlf, true⟩

/-- No KeePass file is read. -/
def noKeePass (_ : Text) : Except String (List ParsedEntry) := .error "no JSON"

/-- A quotation mark, a comma and a line break in the password. -/
theorem importPasswords_written_sample :
    (importPasswords noKeePass
        (chromeTable [quotedRow ["Mail", "m.example", "ann", "a\x22b,\nc", "n"]]).write
        .auto []).entries.map (fun e => (e.username, e.password))
      = [("ann".toList, "a\x22b,\nc".toList)] := by
  rw [(importPasswords_written noKeePass _ chromeHeader _ .auto [] chromeColumns rfl
    (by decide +kernel) (by decide +kernel)).1]
  decide +kernel

/-- **Not every row is imported as it is written**: the spaces of a password
are dropped, and so are a row without a password and one of two with the same
title, address and user name. -/
theorem importPasswords_not_exact :
    (importPasswords noKeePass
          (chromeTable [quotedRow ["Mail", "m.example", "ann", " p ", "n"]]).write
          .chrome []).entries.map (fun e => e.password) = ["p".toList]
      ∧ ¬Exact chromeColumns chromeHeader [quotedRow ["Mail", "m.example", "ann", " p ", "n"]]
        (importPasswords noKeePass
          (chromeTable [quotedRow ["Mail", "m.example", "ann", " p ", "n"]]).write
          .chrome []).entries
      ∧ ¬Exact chromeColumns chromeHeader [quotedRow ["Mail", "m.example", "ann", "", "n"]]
        (importPasswords noKeePass
          (chromeTable [quotedRow ["Mail", "m.example", "ann", "", "n"]]).write
          .chrome []).entries
      ∧ ¬Exact chromeColumns chromeHeader
          [quotedRow ["Mail", "m.example", "ann", "p", "n"],
            quotedRow ["Mail", "m.example", "ann", "q", "n"]]
        (importPasswords noKeePass
          (chromeTable [quotedRow ["Mail", "m.example", "ann", "p", "n"],
            quotedRow ["Mail", "m.example", "ann", "q", "n"]]).write
          .chrome []).entries := by
  decide +kernel

end UsbVault.App.Import
