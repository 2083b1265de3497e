import UsbVault.Lib.Csv
import Mathlib.Data.List.Basic

/-!
# The CSV parser of the import

`parseCSV` of `services/vault/import.ts`. Every cell is trimmed, whether or
not it was quoted, and rows without a cell that is left are dropped; apart
from that a written table is read back (`parseCSV_write`).
-/

namespace UsbVault.App.Import

abbrev Text := List Char

/-- White space and line terminators. -/
def isSpace (c : Char) : Bool :=
  c ∈ ['\t', '\n', '\x0b', '\x0c', '\r', ' ', '\xa0', '\u1680', '\u2028', '\u2029', '\u202f',
    '\u205f', '\u3000', '\ufeff'] ∨ 0x2000 ≤ c.toNat ∧ c.toNat ≤ 0x200a

def trim (s : Text) : Text := ((s.dropWhile isSpace).reverse.dropWhile isSpace).reverse

/-- `rows`, `current`, `inQuotes` and `row`. -/
structure Cursor where
  rows : List (List Text)
  row : List Text
  current : Text
  inQuotes : Bool
  deriving DecidableEq, Repr

namespace Cursor

def put (s : Cursor) (char : Char) : Cursor := { s with current := s.current ++ [char] }

def endCell (s : Cursor) : Cursor := { s with row := s.row ++ [trim s.current], current := [] }

/-- A row counts if it has a cell that is not empty. -/
def pushRow (rows : List (List Text)) (row : List Text) : List (List Text) :=
  if row.any fun cell => cell.length > 0 then rows ++ [row] else rows

def endRow (s : Cursor) : Cursor :=
  { s with rows := pushRow s.rows (s.row ++ [trim s.current]), row := [], current := [] }

/-- The last row. -/
def finish (s : Cursor) : List (List Text) :=
  if s.current.length > 0 ∨ s.row.length > 0 then s.endRow.rows else s.rows

/-- The body of the loop, with the character after this one; whether that one
is passed over. -/
def step (s : Cursor) (char : Char) (next : Option Char) : Cursor × Bool :=
  if s.inQuotes then
    if char = '\x22' ∧ next = some '\x22' then (s.put '\x22', true)
    else if char = '\x22' then ({ s with inQuotes := false }, false)
    else (s.put char, false)
  else if char = '\x22' then ({ s with inQuotes := true }, false)
  else if char = ',' then (s.endCell, false)
  else if char = '\n' ∨ char = '\r' ∧ next = some '\n' then (s.endRow, char = '\r')
  else (s.put char, false)

end Cursor

/-- The loop over the text. -/
def parseFrom : Cursor → Text → Cursor
  | s, [] => s
  | s, [char] => (s.step char none).1
  | s, char :: next :: rest =>
    let stepped := s.step char (some next)
    if stepped.2 then parseFrom stepped.1 rest else parseFrom stepped.1 (next :: rest)

def parseCSV (text : Text) : List (List Text) := (parseFrom ⟨[], [], [], false⟩ text).finish

/-! ## Reading a field -/

open Csv (Field Row plain escape writeRow writeRows)

variable {s : Cursor} {value rest : Text}

theorem parseFrom_cons {char : Char} (h : (s.step char rest.head?).2 = false) :
    parseFrom s (char :: rest) = parseFrom (s.step char rest.head?).1 rest := by
  cases rest with
  | nil => rfl
  | cons next rest =>
    have hstep : (s.step char (some next)).2 = false := h
    rw [parseFrom]
    exact if_neg (by rw [hstep]; decide)

theorem parseFrom_pair {char next : Char} (h : (s.step char (some next)).2 = true) :
    parseFrom s (char :: next :: rest) = parseFrom (s.step char (some next)).1 rest := by
  rw [parseFrom]
  exact if_pos h

theorem parseFrom_escape (hquotes : s.inQuotes = true) (hrest : rest.head? ≠ some '\x22') :
    parseFrom s (escape value ++ '\x22' :: rest)
      = parseFrom { s with current := s.current ++ value, inQuotes := false } rest := by
  induction value generalizing s with
  | nil =>
    have hstep : s.step '\x22' rest.head? = ({ s with inQuotes := false }, false) := by
      simp [Cursor.step, hquotes, hrest]
    rw [escape, List.flatMap_nil, List.nil_append, parseFrom_cons (by rw [hstep]), hstep,
      List.append_nil]
  | cons c value ih =>
    rw [Csv.escape_cons]
    by_cases hc : c = '\x22'
    · have hstep : s.step '\x22' (some '\x22') = (s.put '\x22', true) := by
        simp [Cursor.step, hquotes]
      rw [if_pos hc, List.cons_append, List.cons_append, List.cons_append, List.cons_append,
        List.nil_append, parseFrom_pair (by rw [hstep]), hstep, ih (s := s.put '\x22') hquotes,
        hc, Cursor.put]
      simp
    · have hstep : ∀ next, s.step c next = (s.put c, false) := by
        intro next
        simp [Cursor.step, hquotes, hc]
      rw [if_neg hc, List.cons_append, List.cons_append, List.nil_append,
        parseFrom_cons (by rw [hstep]), hstep, ih (s := s.put c) hquotes, Cursor.put]
      simp

theorem parseFrom_plain (hquotes : s.inQuotes = false) (hplain : ∀ c ∈ value, plain c = true) :
    parseFrom s (value ++ rest) = parseFrom { s with current := s.current ++ value } rest := by
  induction value generalizing s with
  | nil => rw [List.nil_append, List.append_nil]
  | cons c value ih =>
    obtain ⟨hc, hvalue⟩ := List.forall_mem_cons.mp hplain
    have hstep : ∀ next, s.step c next = (s.put c, false) := by
      intro next
      simp only [plain, decide_eq_true_eq] at hc
      simp [Cursor.step, hquotes, hc]
    rw [List.cons_append, parseFrom_cons (by rw [hstep]), hstep,
      ih (s := s.put c) hquotes hvalue, Cursor.put]
    simp

/-- **A field is read as its value**, if no quotation mark follows it. -/
theorem parseFrom_field (f : Field) (rows : List (List Text)) (row : List Text)
    (hrest : rest.head? ≠ some '\x22') :
    parseFrom ⟨rows, row, [], false⟩ (f.write ++ rest)
      = parseFrom ⟨rows, row, f.value, false⟩ rest := by
  rw [Field.write]
  cases hquoted : f.quoted with
  | false => exact parseFrom_plain rfl (f.plain_of_bare hquoted)
  | true =>
    have hstep : ∀ next, Cursor.step ⟨rows, row, [], false⟩ '\x22' next
        = (⟨rows, row, [], true⟩, false) := fun _ => rfl
    rw [if_pos rfl, List.cons_append, parseFrom_cons (by rw [hstep]), hstep, List.append_assoc,
      List.singleton_append, parseFrom_escape rfl hrest, List.nil_append]

/-! ## Reading a table -/

/-- The cells of a row. -/
def cells (row : Row) : List Text := row.map fun f => trim f.value

def nonblank (row : List Text) : Bool := row.any fun cell => cell.length > 0

open Cursor (pushRow)

theorem pushRow_eq (rows : List (List Text)) (row : List Text) :
    pushRow rows row = rows ++ [row].filter nonblank := by
  rw [pushRow, ← nonblank]
  cases hblank : nonblank row with
  | false => simp [hblank]
  | true => simp [hblank]

theorem parseFrom_row {row : Row} (hrow : row ≠ []) (rows : List (List Text)) {ending : Text}
    (hending : ending.head? ≠ some '\x22') (before : List Text) :
    ∃ front last, cells row = front ++ [trim last]
      ∧ parseFrom ⟨rows, before, [], false⟩ (writeRow row ++ ending)
        = parseFrom ⟨rows, before ++ front, last, false⟩ ending := by
  induction row generalizing before with
  | nil => exact absurd rfl hrow
  | cons f row ih =>
    cases row with
    | nil =>
      refine ⟨[], f.value, rfl, ?_⟩
      rw [writeRow, parseFrom_field f rows before hending, List.append_nil]
    | cons g row =>
      obtain ⟨front, last, hcells, hread⟩ :=
        ih (List.cons_ne_nil _ _) (before ++ [trim f.value])
      have hcomma : ∀ next, Cursor.step ⟨rows, before, f.value, false⟩ ',' next
          = (⟨rows, before ++ [trim f.value], [], false⟩, false) := fun _ => rfl
      refine ⟨trim f.value :: front, last, ?_, ?_⟩
      · rw [cells, List.map_cons, ← cells, hcells, List.cons_append]
      · rw [Csv.writeRow_cons, List.append_assoc, List.cons_append,
          parseFrom_field f rows before (by simp), parseFrom_cons (by rw [hcomma]), hcomma,
          hread, List.append_assoc, List.singleton_append]

theorem head_lineBreak (lineBreak : Csv.LineBreak) (rest : Text) :
    (lineBreak.text ++ rest).head? ≠ some '\x22' := by
  cases lineBreak <;> simp [Csv.LineBreak.text]

theorem parseFrom_lineBreak (lineBreak : Csv.LineBreak) (hquotes : s.inQuotes = false) :
    parseFrom s (lineBreak.text ++ rest) = parseFrom s.endRow rest := by
  cases lineBreak with
  | crlf =>
    have hstep : s.step '\r' (some '\n') = (s.endRow, true) := by
      simp [Cursor.step, hquotes]
    rw [Csv.LineBreak.text, List.cons_append, List.cons_append, List.nil_append,
      parseFrom_pair (by rw [hstep]), hstep]
  | lf =>
    have hstep : ∀ next, s.step '\n' next = (s.endRow, false) := by
      intro next
      simp [Cursor.step, hquotes]
    rw [Csv.LineBreak.text, List.cons_append, List.nil_append,
      parseFrom_cons (by rw [hstep]), hstep]

/-- **A row with its line break** is read as its cells. -/
theorem parseFrom_line (row : Row) (lineBreak : Csv.LineBreak) (rows : List (List Text)) :
    parseFrom ⟨rows, [], [], false⟩ (writeRow row ++ (lineBreak.text ++ rest))
      = parseFrom ⟨rows ++ [cells row].filter nonblank, [], [], false⟩ rest := by
  rw [← pushRow_eq]
  cases row with
  | nil =>
    rw [writeRow, List.nil_append, parseFrom_lineBreak _ rfl]
    rfl
  | cons f row =>
    obtain ⟨front, last, hcells, hread⟩ := parseFrom_row (List.cons_ne_nil f row) rows
      (head_lineBreak lineBreak rest) []
    rw [hread, parseFrom_lineBreak _ rfl, hcells]
    rfl

/-- **A last row without a line break** is read as its cells. -/
theorem finish_row (row : Row) (rows : List (List Text)) :
    (parseFrom ⟨rows, [], [], false⟩ (writeRow row)).finish
      = rows ++ [cells row].filter nonblank := by
  rw [← pushRow_eq]
  cases row with
  | nil => simp [writeRow, parseFrom, Cursor.finish, pushRow, cells]
  | cons f row =>
    have hend : ([] : Text).head? ≠ some '\x22' := by simp
    obtain ⟨front, last, hcells, hread⟩ := parseFrom_row (List.cons_ne_nil f row) rows hend []
    rw [List.append_nil] at hread
    rw [hread, hcells, parseFrom, Cursor.finish]
    split
    · rfl
    · rename_i hempty
      -- one field without a value, which is no row
      obtain ⟨hlast, hfront⟩ : last = [] ∧ front = [] := by simpa using hempty
      rw [hlast, hfront]
      rfl

theorem finish_writeRows (lineBreak : Csv.LineBreak) (final : Bool) (table : List Row)
    (rows : List (List Text)) :
    (parseFrom ⟨rows, [], [], false⟩ (writeRows lineBreak final table)).finish
      = rows ++ (table.map cells).filter nonblank := by
  induction table generalizing rows with
  | nil => simp [writeRows, parseFrom, Cursor.finish]
  | cons row table ih =>
    have hrows : rows ++ ((row :: table).map cells).filter nonblank
        = rows ++ [cells row].filter nonblank ++ (table.map cells).filter nonblank := by
      rw [List.append_assoc, ← List.filter_append]
      rfl
    rw [hrows]
    cases table with
    | nil =>
      cases final with
      | false =>
        rw [writeRows, if_neg (by decide), List.append_nil, finish_row]
        simp
      | true =>
        have hline := @parseFrom_line [] row lineBreak rows
        rw [List.append_nil] at hline
        rw [writeRows, if_pos rfl, hline]
        simp [parseFrom, Cursor.finish]
    | cons row' table =>
      rw [Csv.writeRows_cons, List.append_assoc, parseFrom_line, ih]

/-- **A written table is parsed** as its cells trimmed, without the rows that
are blank then. -/
theorem parseCSV_write (t : Csv.Table) :
    parseCSV t.write = (t.rows.map cells).filter nonblank := by
  rw [parseCSV, Csv.Table.write, finish_writeRows, List.nil_append]

end UsbVault.App.Import
