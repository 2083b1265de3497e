import Mathlib.Data.List.TakeWhile
import UsbVault.Lib.Bytes
import UsbVault.Lib.Json

/-!
# Data as JSON

Data of a script as `JSON.stringify` writes it, and what `JSON.parse` makes
of the text. A text that was written reads as the same data
(`ofText_text`), with one exception: bytes are written as an object that
has a property for each of them, and this is what is read (`Data.bytes`).
-/

namespace Json

open Wire
open JsonText (Reader decimal quoted braced literal Reads)

inductive Data
  | null
  | bool (b : Bool)
  | number (n : Nat)
  | string (s : String)
  | array (items : List Data)
  | object (members : List (String × Data))

/-! ## Writing -/

mutual

/-- `JSON.stringify` -/
def Data.text : Data → List Char
  | .null => "null".toList
  | .bool true => "true".toList
  | .bool false => "false".toList
  | .number n => decimal n
  | .string s => quoted s
  | .array items => '[' :: ([','].intercalate (Data.texts items) ++ [']'])
  | .object members => braced (Data.memberTexts members)

def Data.texts : List Data → List (List Char)
  | [] => []
  | d :: ds => d.text :: Data.texts ds

def Data.memberTexts : List (String × Data) → List (List Char)
  | [] => []
  | (name, d) :: ms => (quoted name ++ ':' :: d.text) :: Data.memberTexts ms

end

mutual

/-- The value the text has. -/
def Data.value : Data → Value
  | .null => .null
  | .bool b => .bool b
  | .number n => .number (decimal n)
  | .string s => .string (units s)
  | .array items => .array (Data.values items)
  | .object members => .object (Data.memberValues members)

def Data.values : List Data → List Value
  | [] => []
  | d :: ds => d.value :: Data.values ds

def Data.memberValues : List (String × Data) → List (List Nat × Value)
  | [] => []
  | (name, d) :: ms => (units name, d.value) :: Data.memberValues ms

end

/-- Bytes as `JSON.stringify` writes a `Uint8Array`. -/
def Data.bytes (bs : Bytes) : Data :=
  .object (bs.zipIdx.map fun (b, i) => (toString i, .number b.toNat))

/-! ## Reading -/

def highSurrogate (u : Nat) : Bool := 0xd800 ≤ u ∧ u < 0xdc00

def lowSurrogate (u : Nat) : Bool := 0xdc00 ≤ u ∧ u < 0xe000

/-- The characters of code units, unless half of one is missing. -/
def fromUnits : List Nat → Option (List Char)
  | [] => some []
  | [u] => if highSurrogate u || lowSurrogate u then none else some [Char.ofNat u]
  | u :: u' :: us =>
    if highSurrogate u then
      if lowSurrogate u' then
        (fromUnits us).map (Char.ofNat (0x10000 + (u - 0xd800) * 0x400 + (u' - 0xdc00)) :: ·)
      else none
    else if lowSurrogate u then none
    else (fromUnits (u' :: us)).map (Char.ofNat u :: ·)

mutual

/-- A value as data, if its numbers are whole and its strings have
characters. -/
def Data.ofValue : Value → Option Data
  | .null => some .null
  | .bool b => some (.bool b)
  | .number numeral =>
    if numeral.all Char.isDigit then some (.number (Nat.ofDigitChars 10 numeral 0)) else none
  | .string units => (fromUnits units).map fun cs => .string (String.ofList cs)
  | .array items => (Data.ofValues items).map .array
  | .object members => (Data.ofMembers members).map .object

def Data.ofValues : List Value → Option (List Data)
  | [] => some []
  | v :: vs => do return (← Data.ofValue v) :: (← Data.ofValues vs)

def Data.ofMembers : List (List Nat × Value) → Option (List (String × Data))
  | [] => some []
  | (name, v) :: ms => do
      return (String.ofList (← fromUnits name), ← Data.ofValue v) :: (← Data.ofMembers ms)

end

/-- `JSON.parse` -/
def Data.ofText (text : List Char) : Option Data := (parse text).bind Data.ofValue

/-! ## Properties -/

/-- Of two properties with one name the last counts. -/
def Data.property (name : String) (members : List (String × Data)) : Option Data :=
  members.reverse.lookup name

def Data.get (name : String) : Data → Option Data
  | .object members => Data.property name members
  | _ => none

/-- What an `if` takes for true. -/
def Data.truthy : Option Data → Bool
  | none | some .null | some (.bool false) | some (.number 0) | some (.string "") => false
  | _ => true

/-- A property that stands in an object if it is defined. -/
def Data.defined (name : String) (d : Option Data) : List (String × Data) :=
  (d.map fun d => (name, d)).toList

@[simp] def Data.asString : Data → Option String
  | .string s => some s
  | _ => none

@[simp] def Data.asNumber : Data → Option Nat
  | .number n => some n
  | _ => none

@[simp] def Data.asBool : Data → Option Bool
  | .bool b => some b
  | _ => none

@[simp] def Data.asArray : Data → Option (List Data)
  | .array items => some items
  | _ => none

@[simp] def Data.asObject : Data → Option (List (String × Data))
  | .object members => some members
  | _ => none

variable {α : Type}

/-- A value that may be undefined. -/
def Data.maybe (as : Data → Option α) : Option Data → Option (Option α)
  | none => some none
  | some d => (as d).map some

/-- A property with a value of a type. -/
def Data.required (as : Data → Option α) (name : String) (d : Data) : Option α :=
  (d.get name).bind as

def Data.optional (as : Data → Option α) (name : String) (d : Data) : Option (Option α) :=
  Data.maybe as (d.get name)

theorem Data.maybe_map {as : Data → Option α} (write : α → Data)
    (has : ∀ a, as (write a) = some a) (a : Option α) : Data.maybe as (a.map write) = some a := by
  cases a with
  | none => rfl
  | some a => simp [Data.maybe, has]

@[simp] theorem Data.maybe_string (s : Option String) :
    Data.maybe Data.asString (s.map .string) = some s := Data.maybe_map Data.string (fun _ => rfl) s

@[simp] theorem Data.maybe_number (n : Option Nat) :
    Data.maybe Data.asNumber (n.map .number) = some n := Data.maybe_map Data.number (fun _ => rfl) n

@[simp] theorem Data.maybe_bool (b : Option Bool) :
    Data.maybe Data.asBool (b.map .bool) = some b := Data.maybe_map Data.bool (fun _ => rfl) b

/-- A list that was written item by item is read item by item. -/
theorem Data.mapM_map {β : Type} {write : α → Data} {as : Data → Option β} {f : α → β}
    (has : ∀ a, as (write a) = some (f a)) (l : List α) :
    (l.map write).mapM as = some (l.map f) := by
  induction l with
  | nil => rfl
  | cons a l ih =>
    rw [List.map_cons, List.mapM_cons, has, ih]
    rfl

@[simp] theorem Data.property_nil (name : String) : Data.property name [] = none := rfl

@[simp] theorem Data.property_append (name : String) (ms ms' : List (String × Data)) :
    Data.property name (ms ++ ms') = (Data.property name ms').or (Data.property name ms) := by
  rw [Data.property, List.reverse_append, List.lookup_append]
  rfl

@[simp] theorem Data.property_cons (name name' : String) (d : Data) (ms : List (String × Data)) :
    Data.property name ((name', d) :: ms)
      = (Data.property name ms).or (if name = name' then some d else none) := by
  rw [← List.singleton_append, Data.property_append]
  congr 1
  by_cases h : name = name'
  · simp [Data.property, h]
  · simp [Data.property, List.lookup_cons, beq_false_of_ne h, h]

@[simp] theorem Data.property_defined (name name' : String) (d : Option Data) :
    Data.property name (Data.defined name' d) = if name = name' then d else none := by
  cases d with
  | none => simp [Data.defined]
  | some d => simp [Data.defined]

@[simp] theorem Data.get_object (name : String) (ms : List (String × Data)) :
    (Data.object ms).get name = Data.property name ms := rfl

@[simp] theorem Data.required_object (as : Data → Option α) (name : String)
    (ms : List (String × Data)) :
    Data.required as name (.object ms) = (Data.property name ms).bind as := rfl

@[simp] theorem Data.optional_object (as : Data → Option α) (name : String)
    (ms : List (String × Data)) :
    Data.optional as name (.object ms) = Data.maybe as (Data.property name ms) := rfl

/-! ## The text reads as its value -/

theorem Data.texts_eq (ds : List Data) : Data.texts ds = ds.map Data.text := by
  induction ds with
  | nil => rfl
  | cons d ds ih => rw [Data.texts, ih, List.map_cons]

theorem Data.values_eq (ds : List Data) : Data.values ds = ds.map Data.value := by
  induction ds with
  | nil => rfl
  | cons d ds ih => rw [Data.values, ih, List.map_cons]

theorem Data.memberTexts_eq (ms : List (String × Data)) :
    Data.memberTexts ms = ms.map fun m => quoted m.1 ++ ':' :: m.2.text := by
  induction ms with
  | nil => rfl
  | cons m ms ih => rw [Data.memberTexts, ih, List.map_cons]

theorem Data.memberValues_eq (ms : List (String × Data)) :
    Data.memberValues ms = ms.map fun m => (units m.1, m.2.value) := by
  induction ms with
  | nil => rfl
  | cons m ms ih => rw [Data.memberValues, ih, List.map_cons]

theorem reads_word {x : Char} (hx : blank x = false) (s : List Char) :
    Reads (token (x :: s)) (x :: s) () := by
  intro rest
  show literal (x :: s) ((x :: s ++ rest).dropWhile blank) = some ((), rest)
  rw [List.cons_append, List.dropWhile_cons_of_neg (by rw [hx]; decide)]
  exact JsonText.reads_literal (x :: s) rest

theorem word_none {x y : Char} (hy : blank y = false) (hne : x ≠ y) (s text : List Char) :
    token (x :: s) (y :: text) = none := by
  show literal (x :: s) ((y :: text).dropWhile blank) = none
  rw [List.dropWhile_cons_of_neg (by rw [hy]; decide)]
  exact if_neg fun h => hne (List.head_eq_of_cons_eq h).symm

/-- What begins like a word is one. -/
theorem value_word {x : Char} (hx : x ∈ ['n', 't', 'f']) (n : Nat) (text : List Char) :
    value (n + 1) (x :: text)
      = ((do token "null".toList; return Value.null)
          <|> (do token "true".toList; return Value.bool true)
          <|> (do token "false".toList; return Value.bool false) : Reader Value) (x :: text) := by
  have hplain : blank x = false ∧ '\x22' ≠ x ∧ '\x7b' ≠ x ∧ '[' ≠ x ∧ x ∉ ['-']
      ∧ x.isDigit = false := by
    simp only [List.mem_cons, List.not_mem_nil, or_false] at hx
    rcases hx with rfl | rfl | rfl
    · exact ⟨by decide, by decide, by decide, by decide, by simp, by decide⟩
    · exact ⟨by decide, by decide, by decide, by decide, by simp, by decide⟩
    · exact ⟨by decide, by decide, by decide, by decide, by simp, by decide⟩
  obtain ⟨hblank, hquote, hbrace, hbracket, hsign, hdigit⟩ := hplain
  rw [value, orElse_of_none (bind_of_none (string_none hblank hquote _ _)),
    orElse_of_none (bind_of_none (enclosed_none hblank hbrace _ _ _ _)),
    orElse_of_none (bind_of_none (numeral_none hblank hsign hdigit _)),
    orElse_of_none (bind_of_none (enclosed_none hblank hbracket _ _ _ _))]

/-- A text begins with neither a blank nor a closing bracket. -/
theorem Data.text_first (d : Data) :
    ∃ x s, d.text = x :: s ∧ blank x = false ∧ ']' ≠ x := by
  cases d with
  | null => exact ⟨'n', _, rfl, by decide, by decide⟩
  | bool b => cases b <;> exact ⟨_, _, rfl, by decide, by decide⟩
  | number n =>
    obtain ⟨d, ds, hds⟩ := List.exists_cons_of_ne_nil (Nat.toDigits_ne_nil (n := n) (b := 10))
    have hd : d.isDigit = true :=
      Nat.isDigit_of_mem_toDigits (by decide) (by decide) (hds ▸ List.mem_cons_self)
    exact ⟨d, ds, hds, blank_of_digit hd, ne_of_digit hd (by decide)⟩
  | string s => exact ⟨'\x22', _, rfl, by decide, by decide⟩
  | array items => exact ⟨'[', _, rfl, by decide, by decide⟩
  | object members => exact ⟨'\x7b', _, rfl, by decide, by decide⟩

/-- Items that read as their values make an array that does. -/
theorem reads_array {ds : List Data} {n : Nat}
    (hread : ∀ d ∈ ds, Delimited (value n) d.text d.value) (hn : ds.length ≤ n) :
    Reads (enclosed '[' ']' (value n) n) (Data.array ds).text (ds.map Data.value) := by
  have hitems : ∀ p ∈ ds.map fun d => (d.text, d.value), Delimited (value n) p.1 p.2 := by
    intro p hp
    obtain ⟨d, hd, rfl⟩ := List.mem_map.mp hp
    exact hread d hd
  have hfirst : ∀ p ∈ ds.map fun d => (d.text, d.value),
      ∃ x s, p.1 = x :: s ∧ blank x = false ∧ ']' ≠ x := by
    intro p hp
    obtain ⟨d, _, rfl⟩ := List.mem_map.mp hp
    exact d.text_first
  have hopening : blank '[' = false := by decide
  have hlen : (ds.map fun d => (d.text, d.value)).length ≤ n := by
    rw [List.length_map]
    exact hn
  have h := reads_enclosed hitems hlen hopening (by decide) hfirst
  rw [List.map_map, List.map_map] at h
  rw [Data.text, Data.texts_eq]
  exact h

theorem reads_members {ms : List (String × Data)} {n : Nat}
    (hread : ∀ m ∈ ms, Delimited (value n) m.2.text m.2.value) (hname : ∀ m ∈ ms, m.1.length < n)
    (hn : ms.length ≤ n) :
    Reads (enclosed '\x7b' '\x7d' (member (value n) n) n) (Data.object ms).text
      (ms.map fun m => (units m.1, m.2.value)) := by
  have hitems : ∀ p ∈ ms.map fun m => (quoted m.1 ++ ':' :: m.2.text, (units m.1, m.2.value)),
      Delimited (member (value n) n) p.1 p.2 := by
    intro p hp
    obtain ⟨m, hm, rfl⟩ := List.mem_map.mp hp
    exact delimited_member (hname m hm) (hread m hm)
  have hfirst : ∀ p ∈ ms.map fun m => (quoted m.1 ++ ':' :: m.2.text, (units m.1, m.2.value)),
      p.1.head? = some '\x22' := by
    intro p hp
    obtain ⟨m, _, rfl⟩ := List.mem_map.mp hp
    rfl
  have hlen : (ms.map fun m =>
      (quoted m.1 ++ ':' :: m.2.text, (units m.1, m.2.value))).length ≤ n := by
    rw [List.length_map]
    exact hn
  have h := reads_object hitems hlen hfirst
  rw [List.map_map, List.map_map] at h
  rw [Data.text, Data.memberTexts_eq]
  exact h

/-- The parts of an object are shorter than its text. -/
theorem Data.text_members (ms : List (String × Data)) :
    ms.length < (Data.object ms).text.length
      ∧ ∀ m ∈ ms, m.1.length + 1 < (Data.object ms).text.length
        ∧ m.2.text.length + 1 < (Data.object ms).text.length := by
  have hcount := JsonText.length_le_intercalate (ms.map fun m => quoted m.1 ++ ':' :: m.2.text)
  rw [List.length_map] at hcount
  rw [Data.text, braced, Data.memberTexts_eq, List.length_cons, List.length_append,
    List.length_singleton]
  refine ⟨by omega, fun m hm => ?_⟩
  have hshort := JsonText.mem_length_le_intercalate
    (List.mem_map_of_mem (f := fun m : String × Data => quoted m.1 ++ ':' :: m.2.text) hm)
  have hname := JsonText.quoted_length_ge m.1
  rw [List.length_append, List.length_cons] at hshort
  omega

/-- **A text reads as its value**, in as many steps as it has characters. -/
theorem delimited_value {d : Data} {n : Nat} (h : d.text.length < n) :
    Delimited (value n) d.text d.value := by
  -- a part of a text is shorter than the text, so one step less is enough for it
  induction n generalizing d with
  | zero => exact absurd h (Nat.not_lt_zero _)
  | succ n ih =>
    cases d with
    | null =>
      intro c _ rest
      show value (n + 1) ('n' :: (['u', 'l', 'l'] ++ c :: rest)) = some (.null, c :: rest)
      rw [value_word (by decide)]
      have hword := reads_word (x := 'n') (by decide) ['u', 'l', 'l'] (c :: rest)
      exact orElse_of_some (bind_of_some hword)
    | bool b =>
      intro c _ rest
      cases b with
      | true =>
        show value (n + 1) ('t' :: (['r', 'u', 'e'] ++ c :: rest))
          = some (.bool true, c :: rest)
        have hword := reads_word (x := 't') (by decide) ['r', 'u', 'e'] (c :: rest)
        have hnull : ∀ text, token "null".toList ('t' :: text) = none :=
          word_none (by decide) (by decide) ['u', 'l', 'l']
        rw [value_word (by decide), orElse_of_none (bind_of_none (hnull _))]
        exact orElse_of_some (bind_of_some hword)
      | false =>
        show value (n + 1) ('f' :: (['a', 'l', 's', 'e'] ++ c :: rest))
          = some (.bool false, c :: rest)
        have hword := reads_word (x := 'f') (by decide) ['a', 'l', 's', 'e'] (c :: rest)
        have hnull : ∀ text, token "null".toList ('f' :: text) = none :=
          word_none (by decide) (by decide) ['u', 'l', 'l']
        have htrue : ∀ text, token "true".toList ('f' :: text) = none :=
          word_none (by decide) (by decide) ['r', 'u', 'e']
        rw [value_word (by decide), orElse_of_none (bind_of_none (hnull _)),
          orElse_of_none (bind_of_none (htrue _))]
        exact bind_of_some hword
    | number m =>
      have hdigits : ∀ e ∈ decimal m, e.isDigit = true :=
        fun e he => Nat.isDigit_of_mem_toDigits (by decide) (by decide) he
      exact delimited_value_numeral Nat.toDigits_ne_nil hdigits JsonText.decimal_zero n
    | string s =>
      have hlong := JsonText.quoted_length_ge s
      rw [Data.text] at h
      exact delimited_value_string (by omega)
    | array items =>
      rw [Data.text, Data.texts_eq, List.length_cons, List.length_append,
        List.length_singleton] at h
      have hcount := JsonText.length_le_intercalate (items.map Data.text)
      rw [List.length_map] at hcount
      have hread : ∀ d ∈ items, Delimited (value n) d.text d.value := by
        intro d hd
        have hshort := JsonText.mem_length_le_intercalate
          (List.mem_map_of_mem (f := Data.text) hd)
        exact ih (by omega)
      intro c _ rest
      have harray := reads_array hread (by omega) (c :: rest)
      rw [Data.text, List.cons_append] at harray ⊢
      rw [value, orElse_of_none (bind_of_none (string_none (by decide) (by decide) _ _)),
        orElse_of_none (bind_of_none (enclosed_none (by decide) (by decide) _ _ _ _)),
        orElse_of_none (bind_of_none (numeral_none (by decide) (by decide) (by decide) _)),
        Data.value, Data.values_eq]
      exact orElse_of_some (bind_of_some harray)
    | object ms =>
      obtain ⟨hcount, hmember⟩ := Data.text_members ms
      intro c _ rest
      have hobject := reads_members (fun m hm => ih (by have := hmember m hm; omega))
        (fun m hm => by have := hmember m hm; omega) (Nat.le_of_lt_succ (by omega)) (c :: rest)
      rw [Data.text, braced, List.cons_append] at hobject ⊢
      rw [value, orElse_of_none (bind_of_none (string_none (by decide) (by decide) _ _)),
        Data.value, Data.memberValues_eq]
      exact orElse_of_some (bind_of_some hobject)

/-- The text of an object is read. -/
theorem parse_text (ms : List (String × Data)) :
    parse (Data.object ms).text = some (Data.object ms).value := by
  obtain ⟨hcount, hmember⟩ := Data.text_members ms
  have hobject := reads_members (fun m hm => delimited_value (Nat.lt_of_succ_lt (hmember m hm).2))
    (fun m hm => Nat.lt_of_succ_lt (hmember m hm).1) (Nat.le_of_lt hcount) []
  rw [List.append_nil] at hobject
  have hvalue : value ((Data.object ms).text.length + 1) (Data.object ms).text
      = some ((Data.object ms).value, []) := by
    rw [value, orElse_of_none, Data.value, Data.memberValues_eq]
    · exact orElse_of_some (bind_of_some hobject)
    · exact bind_of_none (string_none (by decide) (by decide) _ _)
  rw [parse, hvalue]
  rfl

/-! ## The value is the data -/

theorem fromUnits_codeUnits (c : Char) (us : List Nat) :
    fromUnits (codeUnits c ++ us) = (fromUnits us).map (c :: ·) := by
  have hvalid : c.toNat < 0xd800 ∨ 0xdfff < c.toNat ∧ c.toNat < 0x110000 := c.valid
  rw [codeUnits]
  split
  · rename_i hsmall
    have hhigh : highSurrogate c.toNat = false := by simp [highSurrogate]; omega
    have hlow : lowSurrogate c.toNat = false := by simp [lowSurrogate]; omega
    cases us with
    | nil => simp [fromUnits, hhigh, hlow]
    | cons u us => simp [fromUnits, hhigh, hlow]
  · have hhigh : highSurrogate (0xd800 + (c.toNat - 0x10000) / 0x400) = true := by
      simp [highSurrogate]; omega
    have hlow : lowSurrogate (0xdc00 + (c.toNat - 0x10000) % 0x400) = true := by
      simp [lowSurrogate]; omega
    have hback : 0x10000 + (0xd800 + (c.toNat - 0x10000) / 0x400 - 0xd800) * 0x400
        + (0xdc00 + (c.toNat - 0x10000) % 0x400 - 0xdc00) = c.toNat := by omega
    rw [List.cons_append, List.cons_append, List.nil_append, fromUnits, if_pos hhigh, if_pos hlow,
      hback, Char.ofNat_toNat]

theorem fromUnits_units (s : String) : (fromUnits (units s)).map String.ofList = some s := by
  have hall : ∀ cs : List Char, fromUnits (cs.flatMap codeUnits) = some cs := by
    intro cs
    induction cs with
    | nil => rfl
    | cons c cs ih => rw [List.flatMap_cons, fromUnits_codeUnits, ih, Option.map_some]
  rw [units, hall, Option.map_some, String.ofList_toList]

mutual

theorem Data.ofValue_value (d : Data) : Data.ofValue d.value = some d := by
  cases d with
  | null => rfl
  | bool b => rfl
  | number n =>
    have hdigits : (decimal n).all Char.isDigit = true := List.all_eq_true.mpr
      fun c hc => Nat.isDigit_of_mem_toDigits (by decide) (by decide) hc
    rw [Data.value, Data.ofValue, if_pos hdigits, decimal,
      Nat.ofDigitChars_toDigits (by decide) (by decide)]
  | string s =>
    have hs := congrArg (Option.map Data.string) (fromUnits_units s)
    rw [Option.map_map] at hs
    exact hs
  | array items => rw [Data.value, Data.ofValue, Data.ofValues_values items, Option.map_some]
  | object ms => rw [Data.value, Data.ofValue, Data.ofMembers_memberValues ms, Option.map_some]

theorem Data.ofValues_values (ds : List Data) : Data.ofValues (Data.values ds) = some ds := by
  cases ds with
  | nil => rfl
  | cons d ds =>
    rw [Data.values, Data.ofValues, Data.ofValue_value d, Data.ofValues_values ds]
    rfl

theorem Data.ofMembers_memberValues (ms : List (String × Data)) :
    Data.ofMembers (Data.memberValues ms) = some ms := by
  cases ms with
  | nil => rfl
  | cons m ms =>
    obtain ⟨name, d⟩ := m
    obtain ⟨cs, hcs, hname⟩ := Option.map_eq_some_iff.mp (fromUnits_units name)
    rw [Data.memberValues, Data.ofMembers, hcs, Data.ofValue_value d,
      Data.ofMembers_memberValues ms, ← hname]
    rfl

end

/-- **A written object is read back.** -/
theorem Data.ofText_text (ms : List (String × Data)) :
    Data.ofText (Data.object ms).text = some (.object ms) := by
  rw [Data.ofText, parse_text, Option.bind_some, Data.ofValue_value]

/-! ## Numerals -/

/-- The number of a numeral, if it is whole and not negative. -/
def wholeNumber (numeral : List Char) : Option Nat :=
  let mantissa := numeral.takeWhile fun c => c ≠ 'e' ∧ c ≠ 'E'
  let exponent := numeral.drop (mantissa.length + 1)
  let n := Nat.ofDigitChars 10 (mantissa.filter Char.isDigit) 0
  let shift := Nat.ofDigitChars 10 (exponent.filter Char.isDigit) 0
  let places := (mantissa.dropWhile fun c => c ≠ '.').length - 1
  let up := if '-' ∈ exponent then 0 else shift
  let down := if '-' ∈ exponent then places + shift else places
  if '-' ∈ mantissa ∧ n ≠ 0 then none
  else if 10 ^ down ∣ n * 10 ^ up then some (n * 10 ^ up / 10 ^ down)
  else none

mutual

/-- The value with each numeral of a whole number as `JSON.stringify` writes it. -/
def Value.canonical : Value → Value
  | .null => .null
  | .bool b => .bool b
  | .number numeral => .number ((wholeNumber numeral).elim numeral decimal)
  | .string units => .string units
  | .array items => .array (Value.canonicals items)
  | .object members => .object (Value.canonicalMembers members)

def Value.canonicals : List Value → List Value
  | [] => []
  | v :: vs => v.canonical :: Value.canonicals vs

def Value.canonicalMembers : List (List Nat × Value) → List (List Nat × Value)
  | [] => []
  | (name, v) :: ms => (name, v.canonical) :: Value.canonicalMembers ms

end

/-- What an `if` takes for true. -/
def Value.truthy : Option Value → Bool
  | none | some .null | some (.bool false) | some (.string []) => false
  | some (.number numeral) => wholeNumber numeral ≠ some 0
  | _ => true

theorem isDigit_of_mem_decimal {n : Nat} {c : Char} (h : c ∈ decimal n) : c.isDigit = true :=
  Nat.isDigit_of_mem_toDigits (by decide) (by decide) h

theorem not_mem_decimal {n : Nat} {c : Char} (h : c.isDigit = false) : c ∉ decimal n := by
  intro hc
  rw [isDigit_of_mem_decimal hc] at h
  cases h

/-- A numeral as it is written has its number. -/
theorem wholeNumber_decimal (n : Nat) : wholeNumber (decimal n) = some n := by
  have hmantissa : (decimal n).takeWhile (fun c => c ≠ 'e' ∧ c ≠ 'E') = decimal n := by
    refine List.takeWhile_eq_self_iff.mpr fun c hc => decide_eq_true ⟨?_, ?_⟩
    · rintro rfl
      exact not_mem_decimal (by decide) hc
    · rintro rfl
      exact not_mem_decimal (by decide) hc
  have hdigits : (decimal n).filter Char.isDigit = decimal n :=
    List.filter_eq_self.mpr fun c hc => isDigit_of_mem_decimal hc
  have hpoint : (decimal n).dropWhile (fun c => c ≠ '.') = [] := by
    refine List.dropWhile_eq_nil_iff.mpr fun c hc => decide_eq_true ?_
    rintro rfl
    exact not_mem_decimal (by decide) hc
  have hminus : '-' ∉ decimal n := not_mem_decimal (by decide)
  have hdrop : (decimal n).drop ((decimal n).length + 1) = [] :=
    List.drop_eq_nil_of_le (Nat.le_succ _)
  have hn : Nat.ofDigitChars 10 (decimal n) 0 = n := by
    rw [decimal, Nat.ofDigitChars_toDigits (by decide) (by decide)]
  simp only [wholeNumber, hmantissa, hdigits, hpoint, hdrop, hn, hminus]
  simp

mutual

theorem Value.canonical_value (d : Data) : d.value.canonical = d.value := by
  cases d with
  | null => rfl
  | bool b => rfl
  | number n => rw [Data.value, Value.canonical, wholeNumber_decimal, Option.elim_some]
  | string s => rfl
  | array items => rw [Data.value, Value.canonical, Value.canonicals_values items]
  | object ms => rw [Data.value, Value.canonical, Value.canonicalMembers_memberValues ms]

theorem Value.canonicals_values (ds : List Data) :
    Value.canonicals (Data.values ds) = Data.values ds := by
  cases ds with
  | nil => rfl
  | cons d ds =>
    rw [Data.values, Value.canonicals, Value.canonical_value d, Value.canonicals_values ds]

theorem Value.canonicalMembers_memberValues (ms : List (String × Data)) :
    Value.canonicalMembers (Data.memberValues ms) = Data.memberValues ms := by
  cases ms with
  | nil => rfl
  | cons m ms =>
    obtain ⟨name, d⟩ := m
    rw [Data.memberValues, Value.canonicalMembers, Value.canonical_value d,
      Value.canonicalMembers_memberValues ms]

end

end Json
