import Mathlib.Algebra.GroupWithZero.Nat
import Mathlib.Data.List.Basic

/-!
# JSON text

Strings, numbers and objects as `JSON.stringify` writes them, and readers
for them. A reader takes what it reads from the front of a list of
characters; `Reads p text a` says that `p` returns `a` on `text` whatever
follows, so that the readers of the parts of a text make the reader of the
whole (`Reads.bind`).
-/

namespace JsonText

/-! ## Readers -/

abbrev Reader (α : Type) := StateT (List Char) Option α

/-- The reader returns `a` on the text, whatever follows. -/
def Reads {α : Type} (p : Reader α) (text : List Char) (a : α) : Prop :=
  ∀ rest, p (text ++ rest) = some (a, rest)

variable {α β : Type}

theorem Reads.pure (a : α) : Reads (pure a) [] a := fun _ => rfl

theorem Reads.bind {p : Reader α} {f : α → Reader β} {s s' : List Char} {a : α} {b : β}
    (hp : Reads p s a) (hf : Reads (f a) s' b) : Reads (p >>= f) (s ++ s') b := by
  intro rest
  show (p (s ++ s' ++ rest)).bind (fun q => f q.1 q.2) = some (b, rest)
  rw [List.append_assoc, hp]
  exact hf rest

theorem Reads.lift {o : Option α} {f : α → Reader β} {s : List Char} {a : α} {b : β}
    (h : o = some a) (hf : Reads (f a) s b) : Reads (liftM o >>= f) s b := by
  subst h
  exact fun rest => hf rest

/-- Exactly these characters. -/
def literal (s : List Char) : Reader Unit := fun text =>
  if text.take s.length = s then some ((), text.drop s.length) else none

theorem reads_literal (s : List Char) : Reads (literal s) s () := by
  intro rest
  rw [literal, List.take_left, if_pos rfl, List.drop_left]

/-- The next character. -/
def anyChar : Reader Char
  | [] => none
  | c :: text => some (c, text)

/-- The last reader of a text. -/
theorem Reads.last {p : Reader α} {s : List Char} {a : α} (hp : Reads p s a) (g : α → β) :
    Reads (p >>= fun a => Pure.pure (g a)) s (g a) := by
  have h := hp.bind (f := fun a => Pure.pure (g a)) (.pure (g a))
  rw [List.append_nil] at h
  exact h

theorem Reads.anyChar {f : Char → Reader β} {c : Char} {s : List Char} {b : β}
    (hf : Reads (f c) s b) : Reads (anyChar >>= f) (c :: s) b := fun rest => hf rest

/-! ## Strings -/

def hexDigits : List Char :=
  ['0', '1', '2', '3', '4', '5', '6', '7', '8', '9', 'a', 'b', 'c', 'd', 'e', 'f']

def hexDigit (n : Nat) : Char := hexDigits.getD n '0'

/-- The value of a hexadecimal digit. -/
def hexValue (c : Char) : Option Nat := hexDigits.idxOf? c

/-- The control characters with an escape of their own, and the letter of
the escape. -/
def shortEscapes : List (Char × Char) :=
  [('\x22', '\x22'), ('\x5c', '\x5c'), ('\x08', 'b'), ('\x0c', 'f'), ('\n', 'n'), ('\r', 'r'),
    ('\t', 't')]

/-- A character of a string as `JSON.stringify` writes it. -/
def escape (c : Char) : List Char :=
  match shortEscapes.lookup c with
  | some letter => ['\x5c', letter]
  | none =>
    if c.toNat < 32 then ['\x5c', 'u', '0', '0', hexDigit (c.toNat / 16), hexDigit (c.toNat % 16)]
    else [c]

/-- A string as `JSON.stringify` writes it. -/
def quoted (s : String) : List Char := ['\x22'] ++ (s.toList.flatMap escape ++ ['\x22'])

/-- The character of a two character escape. -/
def unescape (letter : Char) : Option Char :=
  (shortEscapes.find? fun p => p.2 = letter).map Prod.fst

/-- The character of a four digit escape. -/
def unicodeEscape : Reader Char := do
  let a ← anyChar
  let b ← anyChar
  let c ← anyChar
  let d ← anyChar
  let high := (← hexValue a) * 16 + (← hexValue b)
  let low := (← hexValue c) * 16 + (← hexValue d)
  return Char.ofNat (high * 256 + low)

/-- One character of a string; `none` is the closing quotation mark. -/
def stringChar : Reader (Option Char) := do
  let c ← anyChar
  if c = '\x22' then return none
  else if c = '\x5c' then
    let letter ← anyChar
    if letter = 'u' then return some (← unicodeEscape)
    else return some (← unescape letter)
  else return some c

/-- The characters of a string up to its closing quotation mark, in so
many steps. -/
def stringBody : Nat → Reader (List Char)
  | 0 => failure
  | n + 1 => do
      match ← stringChar with
      | none => return []
      | some c => return c :: (← stringBody n)

def string : Reader String := do
  literal ['\x22']
  let text ← get
  return String.ofList (← stringBody text.length)

theorem hexValue_hexDigit : ∀ n < 16, hexValue (hexDigit n) = some n := by decide

theorem unescape_of_lookup {c letter : Char} (h : shortEscapes.lookup c = some letter) :
    unescape letter = some c ∧ letter ≠ 'u' := by
  have hall : ∀ p ∈ shortEscapes, unescape p.2 = some p.1 ∧ p.2 ≠ 'u' := by decide
  obtain ⟨l₁, l₂, hsplit, _⟩ := List.lookup_eq_some_iff.mp h
  exact hall (c, letter) (by rw [hsplit]; exact List.mem_append_right _ List.mem_cons_self)

theorem reads_unicodeEscape {n : Nat} (h : n < 32) :
    Reads unicodeEscape ['0', '0', hexDigit (n / 16), hexDigit (n % 16)] (Char.ofNat n) := by
  have hzero : hexValue '0' = some 0 := by decide
  have hhigh := hexValue_hexDigit (n / 16) (by omega)
  have hlow := hexValue_hexDigit (n % 16) (by omega)
  have hn : (0 * 16 + 0) * 256 + (n / 16 * 16 + n % 16) = n := by omega
  refine .anyChar (.anyChar (.anyChar (.anyChar ?_)))
  refine .lift hzero (.lift hzero (.lift hhigh (.lift hlow ?_)))
  show Reads (pure (Char.ofNat ((0 * 16 + 0) * 256 + (n / 16 * 16 + n % 16)))) [] _
  rw [hn]
  exact .pure _

theorem reads_stringChar (c : Char) : Reads stringChar (escape c) (some c) := by
  rw [escape]
  cases hlookup : shortEscapes.lookup c with
  | some letter =>
    obtain ⟨hletter, hne⟩ := unescape_of_lookup hlookup
    refine .anyChar ?_
    rw [if_neg (by decide), if_pos rfl]
    refine .anyChar ?_
    rw [if_neg hne]
    exact .lift hletter (.pure _)
  | none =>
    have hplain : ∀ p ∈ shortEscapes, c ≠ p.1 := by
      intro p hp heq
      have hsome := List.lookup_eq_none_iff.mp hlookup p hp
      rw [heq] at hsome
      simp at hsome
    by_cases hsmall : c.toNat < 32
    · simp only [if_pos hsmall]
      refine .anyChar ?_
      rw [if_neg (by decide), if_pos rfl]
      refine .anyChar ?_
      rw [if_pos rfl]
      have hchar := (reads_unicodeEscape hsmall).last some
      rw [Char.ofNat_toNat] at hchar
      exact hchar
    · simp only [if_neg hsmall]
      refine .anyChar ?_
      rw [if_neg (hplain ('\x22', '\x22') (by decide)), if_neg (hplain ('\x5c', '\x5c') (by decide))]
      exact .pure _

theorem reads_stringBody {cs : List Char} {n : Nat} (h : cs.length < n) :
    Reads (stringBody n) (cs.flatMap escape ++ ['\x22']) cs := by
  induction cs generalizing n with
  | nil =>
    obtain ⟨n, rfl⟩ := Nat.exists_eq_add_one.mpr h
    exact fun _ => rfl
  | cons c cs ih =>
    obtain ⟨n, rfl⟩ := Nat.exists_eq_add_one.mpr (Nat.zero_lt_of_lt h)
    rw [List.flatMap_cons, List.append_assoc]
    exact (reads_stringChar c).bind ((ih (Nat.lt_of_succ_lt_succ h)).last (c :: ·))

theorem escape_length_pos (c : Char) : 0 < (escape c).length := by
  rw [escape]
  split
  · exact Nat.zero_lt_succ _
  · split <;> exact Nat.zero_lt_succ _

theorem length_le_flatMap_escape (cs : List Char) : cs.length ≤ (cs.flatMap escape).length := by
  induction cs with
  | nil => exact Nat.le_refl _
  | cons c cs ih =>
    have hpos := escape_length_pos c
    rw [List.flatMap_cons, List.length_append, List.length_cons]
    omega

theorem quoted_length_ge (s : String) : s.length + 2 ≤ (quoted s).length := by
  have hbody := length_le_flatMap_escape s.toList
  rw [String.length_toList] at hbody
  simp only [quoted, List.length_append, List.length_cons, List.length_nil]
  omega

/-- A string is read back. -/
theorem reads_string (s : String) : Reads string (quoted s) s := by
  refine (reads_literal _).bind fun rest => ?_
  have hshort := length_le_flatMap_escape s.toList
  have hbody : Reads (stringBody (s.toList.flatMap escape ++ ['\x22'] ++ rest).length)
      (s.toList.flatMap escape ++ ['\x22']) s.toList := by
    apply reads_stringBody
    simp only [List.length_append, List.length_cons]
    omega
  have hread := hbody.last String.ofList rest
  rw [String.ofList_toList] at hread
  exact hread

theorem escape_length_le (c : Char) : (escape c).length ≤ 6 := by
  rw [escape]
  split
  · exact (by decide : 2 ≤ 6)
  · split
    · exact Nat.le_refl _
    · exact (by decide : 1 ≤ 6)

/-- A string takes at most six characters for one of its own. -/
theorem quoted_length_le (s : String) : (quoted s).length ≤ 6 * s.length + 2 := by
  have hall : ∀ cs : List Char, (cs.flatMap escape).length ≤ 6 * cs.length := by
    intro cs
    induction cs with
    | nil => exact Nat.le_refl _
    | cons c cs ih =>
      have hone := escape_length_le c
      rw [List.flatMap_cons, List.length_append, List.length_cons]
      omega
  have hbody := hall s.toList
  simp only [quoted, List.length_append, List.length_cons, List.length_nil]
  rw [String.length_toList] at hbody
  omega

/-! ## Numbers -/

/-- A number as `JSON.stringify` writes it. -/
def decimal (n : Nat) : List Char := Nat.toDigits 10 n

/-- The digits in front. -/
def number : Reader Nat := fun text =>
  if text.takeWhile Char.isDigit = [] then none
  else some (Nat.ofDigitChars 10 (text.takeWhile Char.isDigit) 0, text.dropWhile Char.isDigit)

/-- A number is read back, in front of a character that is no digit. -/
theorem Reads.number {f : Nat → Reader β} {n : Nat} {c : Char} {s : List Char} {b : β}
    (hc : c.isDigit = false) (hf : Reads (f n) (c :: s) b) :
    Reads (number >>= f) (decimal n ++ c :: s) b := by
  intro rest
  have hdigits : ∀ d ∈ decimal n, d.isDigit = true :=
    fun d hd => Nat.isDigit_of_mem_toDigits (by decide) (by decide) hd
  have hnot : ¬c.isDigit = true := by rw [hc]; decide
  have htake : (decimal n ++ c :: (s ++ rest)).takeWhile Char.isDigit = decimal n := by
    rw [List.takeWhile_append_of_pos hdigits, List.takeWhile_cons_of_neg hnot, List.append_nil]
  have hdrop : (decimal n ++ c :: (s ++ rest)).dropWhile Char.isDigit = c :: (s ++ rest) := by
    rw [List.dropWhile_append_of_pos hdigits, List.dropWhile_cons_of_neg hnot]
  have hread : JsonText.number (decimal n ++ c :: (s ++ rest)) = some (n, c :: (s ++ rest)) := by
    rw [JsonText.number, htake, hdrop, decimal, if_neg Nat.toDigits_ne_nil,
      Nat.ofDigitChars_toDigits (by decide) (by decide)]
  show (JsonText.number (decimal n ++ c :: s ++ rest)).bind (fun q => f q.1 q.2) = some (b, rest)
  rw [List.append_assoc, List.cons_append, hread]
  exact hf rest

theorem decimal_length_le (n : Nat) : (decimal n).length ≤ n + 1 := by
  rw [decimal, Nat.length_toDigits_le_iff (by decide) (Nat.succ_pos n)]
  exact Nat.lt_trans (Nat.lt_succ_self n) (Nat.lt_pow_self (by decide))

/-- A number begins with a zero only if it is one. -/
theorem decimal_zero {n : Nat} (h : (decimal n).head? = some '0') : decimal n = ['0'] := by
  induction n using Nat.strongRecOn with
  | ind n ih =>
    rcases Nat.lt_or_ge n 10 with hn | hn
    · rw [decimal, Nat.toDigits_of_lt_base hn] at h ⊢
      rw [Option.some.inj h]
    · have hsplit : decimal n = decimal (n / 10) ++ [(n % 10).digitChar] :=
        Nat.toDigits_of_base_le (by decide) hn
      rw [hsplit, List.head?_append_of_ne_nil (decimal (n / 10)) Nat.toDigits_ne_nil] at h
      have hzero := ih (n / 10) (by omega) h
      have hvalue : Nat.ofDigitChars 10 (decimal (n / 10)) 0 = n / 10 :=
        Nat.ofDigitChars_toDigits (by decide) (by decide)
      rw [hzero] at hvalue
      have hback : Nat.ofDigitChars 10 ['0'] 0 = 0 := by decide
      omega

/-! ## Objects -/

/-- An object with these members, as `JSON.stringify` writes it. -/
def braced (members : List (List Char)) : List Char :=
  '\x7b' :: ([','].intercalate members ++ ['\x7d'])

/-- Members up to the closing brace, in so many steps. -/
def members (member : Reader α) : Nat → Reader (List α)
  | 0 => failure
  | n + 1 => do
      let a ← member
      let c ← anyChar
      if c = '\x7d' then return [a]
      else if c = ',' then return a :: (← members member n)
      else failure

/-- An object behind its opening brace. -/
def objectBody (member : Reader α) : Reader (List α) := fun text =>
  if text.head? = some '\x7d' then some ([], text.tail) else members member text.length text

def object (member : Reader α) : Reader (List α) := do
  literal ['\x7b']
  objectBody member

theorem reads_members {member : Reader α} {text : α → List Char} {l : List α} {n : Nat}
    (hread : ∀ a ∈ l, Reads member (text a) a) (hne : l ≠ []) (hn : l.length ≤ n) :
    Reads (members member n) ([','].intercalate (l.map text) ++ ['\x7d']) l := by
  induction l generalizing n with
  | nil => exact absurd rfl hne
  | cons a l ih =>
    obtain ⟨n, rfl⟩ := Nat.exists_eq_add_one.mpr (Nat.lt_of_lt_of_le (Nat.succ_pos _) hn)
    have ha := hread a List.mem_cons_self
    rw [members]
    cases l with
    | nil =>
      rw [List.map_singleton, List.intercalate_singleton]
      refine ha.bind (.anyChar ?_)
      rw [if_pos rfl]
      exact .pure [a]
    | cons a' l =>
      have hrest := ih (n := n) (fun b hb => hread b (List.mem_cons_of_mem _ hb))
        (List.cons_ne_nil _ _) (Nat.le_of_succ_le_succ hn)
      rw [List.map_cons, List.map_cons, List.intercalate_cons_cons, List.append_assoc,
        List.append_assoc]
      refine ha.bind (.anyChar ?_)
      rw [if_neg (by decide), if_pos rfl]
      exact hrest.last (a :: ·)

theorem length_le_intercalate (ts : List (List Char)) :
    ts.length ≤ ([','].intercalate ts).length + 1 := by
  induction ts with
  | nil => exact Nat.zero_le _
  | cons t ts ih =>
    cases ts with
    | nil => exact Nat.succ_le_succ (Nat.zero_le _)
    | cons t' ts =>
      rw [List.intercalate_cons_cons, List.length_append, List.length_append]
      simp only [List.length_cons, List.length_nil] at ih ⊢
      omega

theorem mem_length_le_intercalate {t : List Char} {ts : List (List Char)} (h : t ∈ ts) :
    t.length ≤ ([','].intercalate ts).length := by
  induction ts with
  | nil => cases h
  | cons t' ts ih =>
    cases ts with
    | nil =>
      have heq := List.mem_singleton.mp h
      subst heq
      exact Nat.le_of_eq (congrArg List.length List.intercalate_singleton.symm)
    | cons t'' ts =>
      rw [List.intercalate_cons_cons, List.length_append, List.length_append]
      rcases List.mem_cons.mp h with rfl | h
      · omega
      · have hrest := ih h
        omega

theorem braced_length_le (ts : List (List Char)) :
    (braced ts).length ≤ (ts.map List.length).sum + ts.length + 2 := by
  have hall : ∀ ts : List (List Char),
      ([','].intercalate ts).length ≤ (ts.map List.length).sum + ts.length := by
    intro ts
    induction ts with
    | nil => exact Nat.le_refl _
    | cons t ts ih =>
      cases ts with
      | nil =>
        rw [List.intercalate_singleton, List.map_singleton, List.sum_singleton]
        exact Nat.le_add_right _ _
      | cons t' ts =>
        rw [List.intercalate_cons_cons, List.map_cons, List.sum_cons]
        simp only [List.length_append, List.length_cons, List.length_nil] at ih ⊢
        omega
  have hts := hall ts
  rw [braced, List.length_cons, List.length_append, List.length_singleton]
  omega

/-- An object is read back. Its members begin with a quotation mark. -/
theorem reads_object {member : Reader α} {text : α → List Char} {l : List α}
    (hread : ∀ a ∈ l, Reads member (text a) a)
    (hfirst : ∀ a ∈ l, (text a).head? = some '\x22') :
    Reads (object member) (braced (l.map text)) l := by
  have hbody : Reads (objectBody member) ([','].intercalate (l.map text) ++ ['\x7d']) l := by
    intro rest
    cases l with
    | nil => rfl
    | cons a l =>
      have hhead : ([','].intercalate ((a :: l).map text) ++ ['\x7d'] ++ rest).head?
          = some '\x22' := by
        have ha := hfirst a List.mem_cons_self
        obtain ⟨s, hs⟩ : ∃ s, text a = '\x22' :: s := List.head?_eq_some_iff.mp ha
        cases l with
        | nil => rw [List.map_singleton, List.intercalate_singleton, hs]; rfl
        | cons a' l => rw [List.map_cons, List.map_cons, List.intercalate_cons_cons, hs]; rfl
      have hlen := length_le_intercalate ((a :: l).map text)
      rw [List.length_map] at hlen
      rw [objectBody, if_neg (by rw [hhead]; decide)]
      refine reads_members hread (List.cons_ne_nil _ _) (Nat.le_trans hlen ?_) rest
      rw [List.length_append, List.length_append]
      exact Nat.le_add_right _ _
  exact (reads_literal ['\x7b']).bind hbody

end JsonText
