import UsbVault.Lib.JsonText

/-!
# JSON values

`parse` is `JSON.parse`: the whole grammar, blanks included. A string is
its UTF-16 code units, as a script sees it, and a number its numeral, not
rounded to a double. The members of an object are in the order of the text,
those with repeated names and with names that are integers too.
Every character a text is made of is a blank or printable
(`Clean`), so a text with a NUL character in it is no JSON
(`parse_of_nul`).
-/

namespace Json

open JsonText (Reader Reads literal reads_literal hexValue unescape shortEscapes escape quoted)

inductive Value
  | null
  | bool (b : Bool)
  | number (numeral : List Char)
  | string (units : List Nat)
  | array (items : List Value)
  | object (members : List (List Nat × Value))

/-- The UTF-16 code units of a character. -/
def codeUnits (c : Char) : List Nat :=
  if c.toNat < 0x10000 then [c.toNat]
  else [0xd800 + (c.toNat - 0x10000) / 0x400, 0xdc00 + (c.toNat - 0x10000) % 0x400]

/-- A string as a script sees it. -/
def units (s : String) : List Nat := s.toList.flatMap codeUnits

/-- A property of an object; of two with one name the last counts. -/
def Value.get (v : Value) (name : String) : Option Value :=
  match v with
  | .object members => members.reverse.lookup (units name)
  | _ => none

/-! ## The reader -/

def blank (c : Char) : Bool := c = ' ' ∨ c = '\t' ∨ c = '\n' ∨ c = '\r'

def blanks : Reader Unit := fun text => some ((), text.dropWhile blank)

/-- The next character, unless it is a control character. -/
def printable : Reader Char
  | [] => none
  | c :: text => if 32 ≤ c.toNat then some (c, text) else none

def token (s : List Char) : Reader Unit := do
  blanks
  literal s

def hexDigit : Reader Nat := do
  let c ← printable
  liftM (hexValue c.toLower)

/-- The code units of the next character of a string; `none` is the
closing quotation mark. -/
def stringUnits : Reader (Option (List Nat)) := do
  let c ← printable
  if c = '\x22' then return none
  else if c = '\x5c' then
    let letter ← printable
    if letter = 'u' then
      let a ← hexDigit
      let b ← hexDigit
      let c ← hexDigit
      let d ← hexDigit
      return some [((a * 16 + b) * 16 + c) * 16 + d]
    else if letter = '/' then return some ['/'.toNat]
    else return some (codeUnits (← liftM (unescape letter)))
  else return some (codeUnits c)

def stringBody : Nat → Reader (List Nat)
  | 0 => failure
  | n + 1 => do
      match ← stringUnits with
      | none => return []
      | some us => return us ++ (← stringBody n)

def string (n : Nat) : Reader (List Nat) := do
  token ['\x22']
  stringBody n

/-- One of these characters, if one comes next. -/
def optionally (cs : List Char) : Reader (List Char)
  | [] => some ([], [])
  | c :: text => if c ∈ cs then some ([c], text) else some ([], c :: text)

def digits : Reader (List Char) := fun text =>
  if text.takeWhile Char.isDigit = [] then none
  else some (text.takeWhile Char.isDigit, text.dropWhile Char.isDigit)

def wholePart : Reader (List Char) := do
  let whole ← digits
  if whole.head? = some '0' ∧ whole ≠ ['0'] then failure else return whole

/-- A part that is there when what announces it is. -/
def behind (lead : List Char) (p : Reader (List Char)) : Reader (List Char) :=
  if lead = [] then pure [] else p

def numeral : Reader (List Char) := do
  blanks
  let sign ← optionally ['-']
  let whole ← wholePart
  let point ← optionally ['.']
  let fraction ← behind point digits
  let e ← optionally ['e', 'E']
  let expSign ← behind e (optionally ['+', '-'])
  let exponent ← behind e digits
  return sign ++ whole ++ point ++ fraction ++ e ++ expSign ++ exponent

variable {α β : Type}

/-- Items up to the closing bracket, in so many steps. -/
def items (item : Reader α) (close : Char) : Nat → Reader (List α)
  | 0 => failure
  | n + 1 => do
      let a ← item
      (do token [close]; return [a]) <|> (do token [',']; return a :: (← items item close n))

def enclosed (opening close : Char) (item : Reader α) (n : Nat) : Reader (List α) := do
  token [opening]
  (do token [close]; return []) <|> items item close n

def member (value : Reader α) (n : Nat) : Reader (List Nat × α) := do
  let name ← string n
  token [':']
  return (name, ← value)

/-- A value, nested and long up to so many steps. -/
def value : Nat → Reader Value
  | 0 => failure
  | n + 1 =>
    (do return .string (← string n))
    <|> (do return .object (← enclosed '\x7b' '\x7d' (member (value n) n) n))
    <|> (do return .number (← numeral))
    <|> (do return .array (← enclosed '[' ']' (value n) n))
    <|> (do token "null".toList; return .null)
    <|> (do token "true".toList; return .bool true)
    <|> (do token "false".toList; return .bool false)

/-- `JSON.parse` -/
def parse (text : List Char) : Option Value := do
  let (v, rest) ← value (text.length + 1) text
  if rest.dropWhile blank = [] then some v else none

/-! ## What a reader takes -/

/-- The reader takes characters off the front, never a NUL. -/
def Clean (p : Reader α) : Prop :=
  ∀ text a rest, p text = some (a, rest) → ∃ taken, text = taken ++ rest ∧ Char.ofNat 0 ∉ taken

theorem clean_pure (a : α) : Clean (pure a : Reader α) := by
  intro text b rest h
  cases h
  exact ⟨[], rfl, List.not_mem_nil⟩

theorem clean_failure : Clean (failure : Reader α) := fun _ _ _ h => by cases h

theorem clean_lift (o : Option α) : Clean (liftM o : Reader α) := by
  intro text b rest h
  cases o with
  | none => cases h
  | some a =>
    cases h
    exact ⟨[], rfl, List.not_mem_nil⟩

theorem Clean.bind {p : Reader α} {f : α → Reader β} (hp : Clean p) (hf : ∀ a, Clean (f a)) :
    Clean (p >>= f) := by
  intro text b rest h
  replace h : (p text).bind (fun q => f q.1 q.2) = some (b, rest) := h
  rw [Option.bind_eq_some_iff] at h
  obtain ⟨⟨a, middle⟩, hfirst, hsecond⟩ := h
  obtain ⟨taken, rfl, hclean⟩ := hp text a middle hfirst
  obtain ⟨taken', rfl, hclean'⟩ := hf a middle b rest hsecond
  refine ⟨taken ++ taken', (List.append_assoc _ _ _).symm, ?_⟩
  rw [List.mem_append]
  exact not_or_intro hclean hclean'

theorem Clean.orElse {p q : Reader α} (hp : Clean p) (hq : Clean q) : Clean (p <|> q) := by
  intro text a rest h
  replace h : (p text <|> q text) = some (a, rest) := h
  cases hfirst : p text with
  | none =>
    rw [hfirst] at h
    exact hq text a rest h
  | some r =>
    rw [hfirst] at h
    exact hp text a rest (hfirst.trans h)

theorem Clean.ite {c : Prop} {inst : Decidable c} {p q : Reader α} (hp : Clean p) (hq : Clean q) :
    Clean (if c then p else q) := by
  split
  · exact hp
  · exact hq

theorem clean_literal {s : List Char} (hs : Char.ofNat 0 ∉ s) : Clean (literal s) := by
  intro text a rest h
  rw [literal] at h
  split at h
  · rename_i htake
    cases h
    refine ⟨s, ?_, hs⟩
    have hsplit := (List.take_append_drop s.length text).symm
    rw [htake] at hsplit
    exact hsplit
  · cases h

theorem clean_takeWhile {ok : Char → Bool} (hok : ok (Char.ofNat 0) = false) (text : List Char) :
    ∃ taken, text = taken ++ text.dropWhile ok ∧ Char.ofNat 0 ∉ taken := by
  refine ⟨text.takeWhile ok, List.takeWhile_append_dropWhile.symm, fun hmem => ?_⟩
  have hpos := List.all_eq_true.mp List.all_takeWhile _ hmem
  rw [hok] at hpos
  cases hpos

theorem clean_blanks : Clean blanks := by
  intro text a rest h
  cases h
  exact clean_takeWhile (by decide) text

theorem clean_printable : Clean printable := by
  intro text a rest h
  cases text with
  | nil => cases h
  | cons c text =>
    rw [printable] at h
    split at h
    · rename_i hc
      obtain ⟨rfl, rfl⟩ := Prod.mk.inj (Option.some.inj h)
      refine ⟨[c], rfl, fun hmem => ?_⟩
      rw [← List.mem_singleton.mp hmem] at hc
      exact absurd hc (by decide)
    · cases h

theorem clean_optionally {cs : List Char} (hcs : Char.ofNat 0 ∉ cs) : Clean (optionally cs) := by
  intro text a rest h
  cases text with
  | nil =>
    cases h
    exact ⟨[], rfl, List.not_mem_nil⟩
  | cons c text =>
    rw [optionally] at h
    split at h
    · rename_i hc
      cases h
      refine ⟨[c], rfl, fun hmem => hcs ?_⟩
      rw [List.mem_singleton.mp hmem]
      exact hc
    · cases h
      exact ⟨[], rfl, List.not_mem_nil⟩

theorem clean_digits : Clean digits := by
  intro text a rest h
  rw [digits] at h
  split at h
  · cases h
  · cases h
    exact clean_takeWhile (by decide) text

theorem clean_token {s : List Char} (hs : Char.ofNat 0 ∉ s) : Clean (token s) :=
  clean_blanks.bind fun _ => clean_literal hs

theorem clean_hexDigit : Clean hexDigit := clean_printable.bind fun _ => clean_lift _

theorem clean_stringUnits : Clean stringUnits := by
  refine clean_printable.bind fun c => .ite (clean_pure _) (.ite ?_ (clean_pure _))
  refine clean_printable.bind fun letter => .ite ?_ (.ite (clean_pure _) ?_)
  · exact clean_hexDigit.bind fun _ => clean_hexDigit.bind fun _ => clean_hexDigit.bind fun _ =>
      clean_hexDigit.bind fun _ => clean_pure _
  · exact (clean_lift _).bind fun _ => clean_pure _

theorem clean_stringBody (n : Nat) : Clean (stringBody n) := by
  induction n with
  | zero => exact clean_failure
  | succ n ih =>
    refine clean_stringUnits.bind fun u => ?_
    cases u with
    | none => exact clean_pure _
    | some us => exact ih.bind fun _ => clean_pure _

theorem clean_string (n : Nat) : Clean (string n) :=
  (clean_token (by decide)).bind fun _ => clean_stringBody n

theorem clean_numeral : Clean numeral := by
  have hwhole : Clean wholePart := clean_digits.bind fun _ => .ite clean_failure (clean_pure _)
  have hbehind : ∀ {lead : List Char} {p : Reader (List Char)}, Clean p → Clean (behind lead p) :=
    fun hp => .ite (clean_pure _) hp
  refine clean_blanks.bind fun _ => (clean_optionally (by decide)).bind fun _ => ?_
  refine hwhole.bind fun _ => (clean_optionally (by decide)).bind fun _ => ?_
  refine (hbehind clean_digits).bind fun _ => (clean_optionally (by decide)).bind fun _ => ?_
  refine (hbehind (clean_optionally (by decide))).bind fun _ => ?_
  exact (hbehind clean_digits).bind fun _ => clean_pure _

theorem Clean.items {item : Reader α} (h : Clean item) {close : Char} (hclose : Char.ofNat 0 ≠ close)
    (n : Nat) : Clean (items item close n) := by
  induction n with
  | zero => exact clean_failure
  | succ n ih =>
    refine h.bind fun _ => .orElse ?_ ?_
    · exact (clean_token (mt List.mem_singleton.mp hclose)).bind fun _ => clean_pure _
    · exact (clean_token (by decide)).bind fun _ => ih.bind fun _ => clean_pure _

theorem Clean.enclosed {item : Reader α} (h : Clean item) {opening close : Char}
    (hopening : Char.ofNat 0 ≠ opening) (hclose : Char.ofNat 0 ≠ close) (n : Nat) :
    Clean (enclosed opening close item n) := by
  refine (clean_token (mt List.mem_singleton.mp hopening)).bind fun _ => .orElse ?_ (h.items hclose n)
  exact (clean_token (mt List.mem_singleton.mp hclose)).bind fun _ => clean_pure _

theorem clean_value (n : Nat) : Clean (value n) := by
  induction n with
  | zero => exact clean_failure
  | succ n ih =>
    have hmember : Clean (member (value n) n) := (clean_string n).bind fun _ =>
      (clean_token (by decide)).bind fun _ => ih.bind fun _ => clean_pure _
    refine .orElse ((clean_string n).bind fun _ => clean_pure _) <|
      .orElse ((hmember.enclosed (by decide) (by decide) n).bind fun _ => clean_pure _) <|
      .orElse (clean_numeral.bind fun _ => clean_pure _) <|
      .orElse ((ih.enclosed (by decide) (by decide) n).bind fun _ => clean_pure _) <|
      .orElse ?_ <| .orElse ?_ ?_
    all_goals exact (clean_token (by decide)).bind fun _ => clean_pure _

/-- **A text with a NUL character is no JSON.** -/
theorem parse_of_nul {text : List Char} (h : Char.ofNat 0 ∈ text) : parse text = none := by
  rw [parse, Option.bind_eq_bind, Option.bind_eq_none_iff]
  rintro ⟨v, rest⟩ hvalue
  obtain ⟨taken, heq, hclean⟩ := clean_value _ text v rest hvalue
  refine if_neg fun hblank => ?_
  have hnul : blank (Char.ofNat 0) = false := by decide
  obtain ⟨blanks, hrest, hclean'⟩ := clean_takeWhile hnul rest
  rw [hblank, List.append_nil] at hrest
  rw [heq, hrest, List.mem_append] at h
  exact h.elim hclean hclean'

/-! ## What a reader returns -/

/-- The reader returns `a` on the text, in front of a comma or a closing
bracket. -/
def Delimited (p : Reader α) (s : List Char) (a : α) : Prop :=
  ∀ c ∈ [',', ']', '\x7d'], ∀ rest, p (s ++ c :: rest) = some (a, c :: rest)

theorem bind_of_some {p : Reader α} {f : α → Reader β} {text rest : List Char} {a : α}
    (h : p text = some (a, rest)) : (p >>= f) text = f a rest := by
  show (p text).bind (fun q => f q.1 q.2) = f a rest
  rw [h]
  rfl

theorem bind_of_none {p : Reader α} {f : α → Reader β} {text : List Char} (h : p text = none) :
    (p >>= f) text = none := by
  show (p text).bind (fun q => f q.1 q.2) = none
  rw [h]
  rfl

theorem orElse_of_some {p q : Reader α} {text rest : List Char} {a : α}
    (h : p text = some (a, rest)) : (p <|> q) text = some (a, rest) := by
  show (p text <|> q text) = some (a, rest)
  rw [h]
  rfl

theorem orElse_of_none {p q : Reader α} {text : List Char} (h : p text = none) :
    (p <|> q) text = q text := by
  show (p text <|> q text) = q text
  rw [h]
  rfl

/-- A token of one character, in front. -/
theorem token_cons {c : Char} (hc : blank c = false) (rest : List Char) :
    token [c] (c :: rest) = some ((), rest) := by
  show literal [c] ((c :: rest).dropWhile blank) = some ((), rest)
  rw [List.dropWhile_cons_of_neg (by rw [hc]; decide)]
  exact reads_literal [c] rest

theorem token_ne {c d : Char} (hd : blank d = false) (hne : c ≠ d) (rest : List Char) :
    token [c] (d :: rest) = none := by
  show literal [c] ((d :: rest).dropWhile blank) = none
  rw [List.dropWhile_cons_of_neg (by rw [hd]; decide)]
  exact if_neg fun h => hne (List.head_eq_of_cons_eq h).symm

theorem reads_printable {f : Char → Reader β} {c : Char} {s : List Char} {b : β}
    (hc : 32 ≤ c.toNat) (hf : Reads (f c) s b) : Reads (printable >>= f) (c :: s) b := by
  intro rest
  show (Json.printable (c :: (s ++ rest))).bind (fun q => f q.1 q.2) = some (b, rest)
  rw [Json.printable, if_pos hc]
  exact hf rest

theorem reads_hexDigit {f : Nat → Reader β} {n : Nat} {s : List Char} {b : β} (hn : n < 16)
    (hf : Reads (f n) s b) : Reads (hexDigit >>= f) (JsonText.hexDigit n :: s) b := by
  have hdigit : ∀ n < 16, 32 ≤ (JsonText.hexDigit n).toNat
      ∧ hexValue (JsonText.hexDigit n).toLower = some n := by decide
  obtain ⟨hprint, hvalue⟩ := hdigit n hn
  have hread : Reads Json.hexDigit [JsonText.hexDigit n] n :=
    reads_printable hprint fun rest => by rw [hvalue]; rfl
  exact hread.bind hf

/-- A character of a string reads as its code units. -/
theorem reads_stringUnits (c : Char) : Reads stringUnits (escape c) (some (codeUnits c)) := by
  rw [escape]
  cases hlookup : shortEscapes.lookup c with
  | some letter =>
    have hall : ∀ p ∈ shortEscapes, 32 ≤ p.2.toNat ∧ p.2 ≠ 'u' ∧ p.2 ≠ '/'
        ∧ unescape p.2 = some p.1 := by decide
    obtain ⟨l₁, l₂, hsplit, _⟩ := List.lookup_eq_some_iff.mp hlookup
    obtain ⟨hprint, hu, hslash, hletter⟩ :=
      hall (c, letter) (by rw [hsplit]; exact List.mem_append_right _ List.mem_cons_self)
    refine reads_printable (by decide) ?_
    rw [if_neg (by decide), if_pos rfl]
    refine reads_printable hprint ?_
    rw [if_neg hu, if_neg hslash]
    exact .lift hletter (.pure _)
  | none =>
    have hplain : ∀ p ∈ shortEscapes, c ≠ p.1 := by
      intro p hp heq
      have hsome := List.lookup_eq_none_iff.mp hlookup p hp
      rw [heq] at hsome
      simp at hsome
    by_cases hsmall : c.toNat < 32
    · have hcode : ((0 * 16 + 0) * 16 + c.toNat / 16) * 16 + c.toNat % 16 = c.toNat := by omega
      simp only [if_pos hsmall]
      refine reads_printable (by decide) ?_
      rw [if_neg (by decide), if_pos rfl]
      refine reads_printable (by decide) ?_
      rw [if_pos rfl]
      refine reads_hexDigit (n := 0) (by decide) (reads_hexDigit (n := 0) (by decide)
        (reads_hexDigit (by omega) (reads_hexDigit (by omega) ?_)))
      rw [hcode, codeUnits, if_pos (by omega)]
      exact .pure _
    · simp only [if_neg hsmall]
      refine reads_printable (by omega) ?_
      rw [if_neg (hplain ('\x22', '\x22') (by decide)),
        if_neg (hplain ('\x5c', '\x5c') (by decide))]
      exact .pure _

theorem reads_stringBody {cs : List Char} {n : Nat} (h : cs.length < n) :
    Reads (stringBody n) (cs.flatMap escape ++ ['\x22']) (cs.flatMap codeUnits) := by
  induction cs generalizing n with
  | nil =>
    obtain ⟨n, rfl⟩ := Nat.exists_eq_add_one.mpr h
    exact fun _ => rfl
  | cons c cs ih =>
    obtain ⟨n, rfl⟩ := Nat.exists_eq_add_one.mpr (Nat.zero_lt_of_lt h)
    rw [List.flatMap_cons, List.flatMap_cons, List.append_assoc]
    exact (reads_stringUnits c).bind ((ih (Nat.lt_of_succ_lt_succ h)).last (codeUnits c ++ ·))

/-- **A string is read back**, as a script sees it. -/
theorem reads_string {s : String} {n : Nat} (h : s.length < n) :
    Reads (string n) (quoted s) (units s) := by
  rw [← String.length_toList] at h
  have hquote : Reads (token ['\x22']) ['\x22'] () := fun rest => token_cons (by decide) rest
  exact hquote.bind (reads_stringBody h)

/-- Texts that read as the items, comma by comma. -/
theorem reads_items {item : Reader α} {l : List (List Char × α)} {close : Char} {n : Nat}
    (hread : ∀ p ∈ l, Delimited item p.1 p.2) (hne : l ≠ []) (hn : l.length ≤ n)
    (hclose : close ∈ [']', '\x7d']) :
    Reads (items item close n) ([','].intercalate (l.map Prod.fst) ++ [close])
      (l.map Prod.snd) := by
  have hplain : ∀ d ∈ [']', '\x7d'], blank d = false ∧ d ≠ ',' ∧ d ∈ [',', ']', '\x7d'] := by
    intro d hd
    rcases List.mem_pair.mp hd with rfl | rfl
    · exact ⟨by decide, by decide, by simp⟩
    · exact ⟨by decide, by decide, by simp⟩
  obtain ⟨hblank, hcomma, hmem⟩ := hplain close hclose
  induction l generalizing n with
  | nil => exact absurd rfl hne
  | cons p l ih =>
    obtain ⟨n, rfl⟩ := Nat.exists_eq_add_one.mpr (Nat.lt_of_lt_of_le (Nat.succ_pos _) hn)
    have hp := hread p List.mem_cons_self
    intro rest
    cases l with
    | nil =>
      rw [List.map_singleton, List.intercalate_singleton, List.append_assoc,
        List.singleton_append, items, bind_of_some (hp close hmem rest)]
      exact orElse_of_some (bind_of_some (token_cons hblank rest))
    | cons p' l =>
      have hrest := ih (n := n) (fun q hq => hread q (List.mem_cons_of_mem _ hq))
        (List.cons_ne_nil _ _) (Nat.le_of_succ_le_succ hn)
      rw [List.map_cons, List.map_cons, List.intercalate_cons_cons, ← List.map_cons,
        List.append_assoc, List.append_assoc, List.append_assoc, List.singleton_append,
        ← List.append_assoc _ [close], items, bind_of_some (hp ',' List.mem_cons_self _),
        orElse_of_none (bind_of_none (token_ne (by decide) hcomma _)),
        bind_of_some (token_cons (by decide) _), bind_of_some (hrest rest)]
      rfl

/-- Items between brackets, none of which begins with the closing one. -/
theorem reads_enclosed {item : Reader α} {l : List (List Char × α)} {opening close : Char} {n : Nat}
    (hread : ∀ p ∈ l, Delimited item p.1 p.2) (hn : l.length ≤ n)
    (hopening : blank opening = false) (hclose : close ∈ [']', '\x7d'])
    (hfirst : ∀ p ∈ l, ∃ x s, p.1 = x :: s ∧ blank x = false ∧ close ≠ x) :
    Reads (enclosed opening close item n)
      (opening :: ([','].intercalate (l.map Prod.fst) ++ [close])) (l.map Prod.snd) := by
  intro rest
  rw [List.cons_append, enclosed, bind_of_some (token_cons hopening _)]
  cases l with
  | nil =>
    have hblank : blank close = false := by
      rcases List.mem_pair.mp hclose with rfl | rfl
      · decide
      · decide
    exact orElse_of_some (bind_of_some (token_cons hblank rest))
  | cons p ps =>
    have hitems := reads_items hread (List.cons_ne_nil _ _) hn hclose rest
    obtain ⟨x, s, hp, hx, hne⟩ := hfirst p List.mem_cons_self
    have hhead : ∃ s, [','].intercalate ((p :: ps).map Prod.fst) = x :: s := by
      cases ps with
      | nil => exact ⟨s, by rw [List.map_singleton, List.intercalate_singleton, hp]⟩
      | cons p' ps =>
        refine ⟨s ++ ([','] ++ [','].intercalate ((p' :: ps).map Prod.fst)), ?_⟩
        rw [List.map_cons, List.map_cons, List.intercalate_cons_cons, hp]
        simp
    obtain ⟨s, hs⟩ := hhead
    -- what comes next is no closing bracket, so that items are read
    rw [hs, List.cons_append, List.cons_append] at hitems ⊢
    rw [orElse_of_none (bind_of_none (token_ne hx hne _))]
    exact hitems

/-- An object whose members begin with a quotation mark. -/
theorem reads_object {item : Reader α} {l : List (List Char × α)} {n : Nat}
    (hread : ∀ p ∈ l, Delimited item p.1 p.2) (hn : l.length ≤ n)
    (hfirst : ∀ p ∈ l, p.1.head? = some '\x22') :
    Reads (enclosed '\x7b' '\x7d' item n) (JsonText.braced (l.map Prod.fst))
      (l.map Prod.snd) := by
  refine reads_enclosed hread hn (by decide) (by decide) fun p hp => ?_
  obtain ⟨s, hs⟩ := List.head?_eq_some_iff.mp (hfirst p hp)
  exact ⟨'\x22', s, hs, by decide, by decide⟩

/-- A member of an object. -/
theorem delimited_member {value : Reader α} {k : String} {text : List Char} {a : α} {n : Nat}
    (hk : k.length < n) (hvalue : Delimited value text a) :
    Delimited (member value n) (quoted k ++ ':' :: text) (units k, a) := by
  intro c hc rest
  rw [member, List.append_assoc, List.cons_append, bind_of_some (reads_string hk _),
    bind_of_some (token_cons (by decide) _), bind_of_some (hvalue c hc rest)]
  rfl

/-- A string, in front of a comma or a closing bracket. -/
theorem delimited_value_string {s : String} {n : Nat} (hs : s.length < n) :
    Delimited (value (n + 1)) (quoted s) (.string (units s)) := by
  intro c _ rest
  rw [value]
  exact orElse_of_some (bind_of_some (reads_string hs (c :: rest)))

/-- A member whose value is a string. -/
theorem delimited_string {k s : String} {n : Nat} (hk : k.length < n) (hs : s.length + 1 < n) :
    Delimited (member (value n) n) (quoted k ++ ':' :: quoted s) (units k, .string (units s)) := by
  obtain ⟨n, rfl⟩ := Nat.exists_eq_add_one.mpr (Nat.zero_lt_of_lt hs)
  exact delimited_member hk (delimited_value_string (by omega))

/-! ## What begins otherwise -/

theorem string_none {x : Char} (hx : blank x = false) (hne : '\x22' ≠ x) (n : Nat)
    (text : List Char) : string n (x :: text) = none := bind_of_none (token_ne hx hne _)

theorem enclosed_none {opening x : Char} (hx : blank x = false) (hne : opening ≠ x) (close : Char)
    (item : Reader α) (n : Nat) (text : List Char) :
    enclosed opening close item n (x :: text) = none := bind_of_none (token_ne hx hne _)

theorem numeral_none {x : Char} (hx : blank x = false) (hsign : x ∉ ['-'])
    (hdigit : x.isDigit = false) (text : List Char) : numeral (x :: text) = none := by
  have hblanks : blanks (x :: text) = some ((), x :: text) := by
    rw [blanks, List.dropWhile_cons_of_neg (by rw [hx]; decide)]
  have hoptional : optionally ['-'] (x :: text) = some ([], x :: text) := if_neg hsign
  have hdigits : digits (x :: text) = none := by
    rw [digits, List.takeWhile_cons_of_neg (by rw [hdigit]; decide), if_pos rfl]
  rw [numeral, bind_of_some hblanks, bind_of_some hoptional]
  exact bind_of_none (bind_of_none hdigits)

/-! ## Numerals -/

theorem ne_of_digit {d e : Char} (hd : d.isDigit = true) (he : e.isDigit = false) : e ≠ d := by
  rintro rfl
  rw [he] at hd
  cases hd

theorem blank_of_digit {d : Char} (hd : d.isDigit = true) : blank d = false := by
  have hspace := ne_of_digit (e := ' ') hd (by decide)
  have htab := ne_of_digit (e := '\t') hd (by decide)
  have hline := ne_of_digit (e := '\n') hd (by decide)
  have hreturn := ne_of_digit (e := '\r') hd (by decide)
  simp [blank, hspace.symm, htab.symm, hline.symm, hreturn.symm]

/-- A whole number, in front of a comma or a closing bracket. -/
theorem delimited_numeral {ds : List Char} (hne : ds ≠ []) (hds : ∀ d ∈ ds, d.isDigit = true)
    (hzero : ds.head? = some '0' → ds = ['0']) : Delimited numeral ds ds := by
  intro c hc rest
  have hplain : ∀ c ∈ [',', ']', '\x7d'], c.isDigit = false ∧ c ∉ ['.'] ∧ c ∉ ['e', 'E'] := by
    intro c hc
    simp only [List.mem_cons, List.not_mem_nil, or_false] at hc
    rcases hc with rfl | rfl | rfl
    · exact ⟨by decide, by simp, by simp⟩
    · exact ⟨by decide, by simp, by simp⟩
    · exact ⟨by decide, by simp, by simp⟩
  obtain ⟨hdigit, hpoint, hexp⟩ := hplain c hc
  have hstop : ¬c.isDigit = true := by rw [hdigit]; decide
  have hoptional : ∀ {cs : List Char} {e : Char} {text : List Char}, e ∉ cs →
      optionally cs (e :: text) = some ([], e :: text) := fun he => if_neg he
  have hbehind : ∀ (p : Reader (List Char)) (text : List Char),
      behind [] p text = some ([], text) := fun _ _ => rfl
  have hwhole : wholePart (ds ++ c :: rest) = some (ds, c :: rest) := by
    have htake : (ds ++ c :: rest).takeWhile Char.isDigit = ds := by
      rw [List.takeWhile_append_of_pos hds, List.takeWhile_cons_of_neg hstop, List.append_nil]
    have hdrop : (ds ++ c :: rest).dropWhile Char.isDigit = c :: rest := by
      rw [List.dropWhile_append_of_pos hds, List.dropWhile_cons_of_neg hstop]
    have hdigits : digits (ds ++ c :: rest) = some (ds, c :: rest) := by
      rw [digits, htake, hdrop, if_neg hne]
    rw [wholePart, bind_of_some hdigits, if_neg fun h => h.2 (hzero h.1)]
    rfl
  obtain ⟨d, ds', rfl⟩ := List.exists_cons_of_ne_nil hne
  have hd := hds d List.mem_cons_self
  have hsign : d ∉ ['-'] := fun h => ne_of_digit hd (by decide) (List.mem_singleton.mp h).symm
  rw [List.cons_append] at hwhole ⊢
  have hblanks : blanks (d :: (ds' ++ c :: rest)) = some ((), d :: (ds' ++ c :: rest)) := by
    rw [blanks, List.dropWhile_cons_of_neg (by rw [blank_of_digit hd]; decide)]
  rw [numeral, bind_of_some hblanks, bind_of_some (hoptional hsign), bind_of_some hwhole,
    bind_of_some (hoptional hpoint), bind_of_some (hbehind _ _), bind_of_some (hoptional hexp),
    bind_of_some (hbehind _ _), bind_of_some (hbehind _ _)]
  show some ([] ++ (d :: ds') ++ [] ++ [] ++ [] ++ [] ++ [], c :: rest) = _
  simp only [List.nil_append, List.append_nil]

/-- A whole number as a value. -/
theorem delimited_value_numeral {ds : List Char} (hne : ds ≠ [])
    (hds : ∀ d ∈ ds, d.isDigit = true) (hzero : ds.head? = some '0' → ds = ['0']) (n : Nat) :
    Delimited (value (n + 1)) ds (.number ds) := by
  intro c hc rest
  have hnumeral := delimited_numeral hne hds hzero c hc rest
  obtain ⟨d, ds', rfl⟩ := List.exists_cons_of_ne_nil hne
  have hd := hds d List.mem_cons_self
  rw [List.cons_append] at hnumeral ⊢
  rw [value,
    orElse_of_none (bind_of_none (string_none (blank_of_digit hd) (ne_of_digit hd (by decide))
      _ _)),
    orElse_of_none (bind_of_none (enclosed_none (blank_of_digit hd) (ne_of_digit hd (by decide))
      _ _ _ _))]
  exact orElse_of_some (bind_of_some hnumeral)

/-- A member whose value is a one-digit numeral. -/
theorem delimited_digit {k : String} {d : Char} {n : Nat} (hk : k.length < n)
    (hd : d.isDigit = true) :
    Delimited (member (value n) n) (quoted k ++ [':', d]) (units k, .number [d]) := by
  obtain ⟨n, rfl⟩ := Nat.exists_eq_add_one.mpr (Nat.zero_lt_of_lt hk)
  refine delimited_member hk (delimited_value_numeral (List.cons_ne_nil _ _) ?_ ?_ n)
  · intro e he
    rw [List.mem_singleton.mp he]
    exact hd
  · intro hzero
    exact congrArg (fun e => [e]) (Option.some.inj hzero)

/-- **An object is read back** with its members. -/
theorem parse_object {l : List (List Char × List Nat × Value)}
    (hread : ∀ p ∈ l, Delimited (member (value (JsonText.braced (l.map Prod.fst)).length)
      (JsonText.braced (l.map Prod.fst)).length) p.1 p.2)
    (hfirst : ∀ p ∈ l, p.1.head? = some '\x22') :
    parse (JsonText.braced (l.map Prod.fst)) = some (.object (l.map Prod.snd)) := by
  have hlen : l.length ≤ (JsonText.braced (l.map Prod.fst)).length := by
    have hshort := JsonText.length_le_intercalate (l.map Prod.fst)
    rw [List.length_map] at hshort
    rw [JsonText.braced, List.length_cons, List.length_append, List.length_singleton]
    omega
  have hobject := reads_object hread hlen hfirst []
  rw [List.append_nil] at hobject
  have hvalue : value ((JsonText.braced (l.map Prod.fst)).length + 1)
      (JsonText.braced (l.map Prod.fst)) = some (.object (l.map Prod.snd), []) := by
    rw [value, orElse_of_none]
    · exact orElse_of_some (bind_of_some hobject)
    · exact bind_of_none (bind_of_none (token_ne (by decide) (by decide) _))
  rw [parse, hvalue]
  rfl

end Json
