/-!
# CSV

Tables as RFC 4180 writes them. A field is written as it is, or in quotation
marks with each of its own doubled; it must be quoted when it has a quotation
mark, a comma or a line break in it, and may be otherwise. The rows are apart
by line breaks, and the last may have one behind it.
-/

namespace Csv

/-- A character that a field without quotation marks may have. -/
def plain (c : Char) : Bool := c ≠ '\x22' ∧ c ≠ ',' ∧ c ≠ '\r' ∧ c ≠ '\n'

structure Field where
  value : List Char
  quoted : Bool
  plain_of_bare : quoted = false → ∀ c ∈ value, plain c = true

/-- A field of any value, in quotation marks. -/
def Field.quote (value : List Char) : Field := ⟨value, true, (by rintro ⟨⟩)⟩

def escape (value : List Char) : List Char :=
  value.flatMap fun c => if c = '\x22' then ['\x22', '\x22'] else [c]

def Field.write (f : Field) : List Char :=
  if f.quoted then '\x22' :: (escape f.value ++ ['\x22']) else f.value

abbrev Row := List Field

def writeRow : Row → List Char
  | [] => []
  | [f] => f.write
  | f :: row => f.write ++ ',' :: writeRow row

inductive LineBreak where
  | crlf
  | lf
  deriving DecidableEq, Repr

def LineBreak.text : LineBreak → List Char
  | .crlf => ['\r', '\n']
  | .lf => ['\n']

/-- `final`: there is a line break behind the last row. -/
structure Table where
  rows : List Row
  lineBreak : LineBreak
  final : Bool

def writeRows (lineBreak : LineBreak) (final : Bool) : List Row → List Char
  | [] => []
  | [row] => writeRow row ++ if final then lineBreak.text else []
  | row :: rows => writeRow row ++ lineBreak.text ++ writeRows lineBreak final rows

def Table.write (t : Table) : List Char := writeRows t.lineBreak t.final t.rows

theorem escape_cons (c : Char) (value : List Char) :
    escape (c :: value) = (if c = '\x22' then ['\x22', '\x22'] else [c]) ++ escape value := rfl

theorem writeRow_cons (f g : Field) (row : Row) :
    writeRow (f :: g :: row) = f.write ++ ',' :: writeRow (g :: row) := rfl

theorem writeRows_cons (lineBreak : LineBreak) (final : Bool) (row row' : Row) (rows : List Row) :
    writeRows lineBreak final (row :: row' :: rows)
      = writeRow row ++ lineBreak.text ++ writeRows lineBreak final (row' :: rows) := rfl

end Csv
