import Mathlib.Data.List.DropRight
import Mathlib.Data.Nat.Digits.Lemmas
import UsbVault.Lib.Bytes

/-!
# Rfc3339

The text of a time with nanoseconds and the offset of its zone, as Go's
`time.RFC3339Nano` writes it: the fraction without its trailing zeros, and
`Z` for the offset zero. A time is the number of nanoseconds since the Unix
epoch; an offset is in minutes.

Times with their offsets are told apart by their texts (`format_inj`), and
after other bytes the text of a year of four digits can be found from the
end (`append_format_inj`).
-/

namespace Rfc3339

open Wire

/-! ## Dates -/

/-- A date of the Gregorian calendar. -/
@[ext] structure Date where
  year : ℤ
  month : ℕ
  day : ℕ
  deriving DecidableEq, Repr

/-- The day of a year that begins in March, as a month and a day. -/
def monthDay (doy : ℕ) : ℕ × ℕ :=
  let mp := (5 * doy + 2) / 153
  (if mp < 10 then mp + 3 else mp - 9, doy - (153 * mp + 2) / 5 + 1)

/-- A month and a day, as the day of a year that begins in March. -/
def dayOfYear (month day : ℕ) : ℕ :=
  let mp := if month ≤ 2 then month + 9 else month - 3
  (153 * mp + 2) / 5 + day - 1

/-- The day of 400 years, as a year of them and its day. Years begin in March
here, so that the leap day is the last of its year, of its four years, and so
on. -/
def yearDay (doe : ℕ) : ℕ × ℕ :=
  let cent := doe / 36524 - doe / 36524 / 4
  let doc := doe - 36524 * cent
  let quad := doc / 1461
  let doq := doc - 1461 * quad
  let yr := doq / 365 - doq / 365 / 4
  (100 * cent + 4 * quad + yr, doq - 365 * yr)

def dayOfEra (yoe doy : ℕ) : ℕ :=
  36524 * (yoe / 100) + 1461 * (yoe % 100 / 4) + 365 * (yoe % 4) + doy

/-- The date a number of days after the epoch. -/
def date (n : ℤ) : Date :=
  let z := n + 719468
  let yd := yearDay (z % 146097).toNat
  let md := monthDay yd.2
  let year := z / 146097 * 400 + yd.1
  ⟨if md.1 ≤ 2 then year + 1 else year, md.1, md.2⟩

/-- The days from the epoch to a date. -/
def days (d : Date) : ℤ :=
  let year := if d.month ≤ 2 then d.year - 1 else d.year
  year / 400 * 146097 + dayOfEra (year % 400).toNat (dayOfYear d.month d.day) - 719468

example : date 19782 = ⟨2024, 2, 29⟩ := by decide

theorem monthDay_spec {doy : ℕ} (h : doy ≤ 365) :
    (monthDay doy).1 ≤ 12 ∧ (monthDay doy).2 ≤ 31
      ∧ dayOfYear (monthDay doy).1 (monthDay doy).2 = doy := by
  have hall : ∀ doy < 366, (monthDay doy).1 ≤ 12 ∧ (monthDay doy).2 ≤ 31
      ∧ dayOfYear (monthDay doy).1 (monthDay doy).2 = doy := by
    decide +kernel
  exact hall doy (by omega)

theorem yearDay_spec {doe : ℕ} (h : doe < 146097) :
    (yearDay doe).1 < 400 ∧ (yearDay doe).2 ≤ 365
      ∧ dayOfEra (yearDay doe).1 (yearDay doe).2 = doe := by
  unfold yearDay dayOfEra
  extract_lets cent doc quad doq yr
  have hcent : cent ≤ 3 ∧ 36524 * cent + doc = doe ∧ doc ≤ 36524 := by omega
  have hquad : quad ≤ 24 ∧ 1461 * quad + doq = doc ∧ doq ≤ 1460 := by omega
  have hyr : yr ≤ 3 ∧ 365 * yr ≤ doq ∧ doq - 365 * yr ≤ 365 := by omega
  clear_value cent doc quad doq yr
  have hparts : (100 * cent + 4 * quad + yr) / 100 = cent
      ∧ (100 * cent + 4 * quad + yr) % 100 / 4 = quad
      ∧ (100 * cent + 4 * quad + yr) % 4 = yr := by omega
  rw [hparts.1, hparts.2.1, hparts.2.2]
  omega

theorem date_bounds (n : ℤ) : (date n).month ≤ 12 ∧ (date n).day ≤ 31 := by
  have hz : ((n + 719468) % 146097).toNat < 146097 := by omega
  obtain ⟨hmonth, hday, -⟩ := monthDay_spec (yearDay_spec hz).2.1
  exact ⟨hmonth, hday⟩

/-- The years of an era of 400 years, which begins in March. -/
theorem year_bounds (n : ℤ) : (n + 719468) / 146097 * 400 ≤ (date n).year
    ∧ (date n).year ≤ (n + 719468) / 146097 * 400 + 400 := by
  have hz : ((n + 719468) % 146097).toNat < 146097 := by omega
  obtain ⟨hyear, -⟩ := yearDay_spec hz
  simp only [date]
  split <;> omega

/-- **A date determines its day.** -/
theorem days_date (n : ℤ) : days (date n) = n := by
  let z := n + 719468
  let year := z / 146097 * 400 + ((yearDay (z % 146097).toNat).1 : ℤ)
  have hz : (z % 146097).toNat < 146097 := by omega
  obtain ⟨hyoe, hdoy, hdoe⟩ := yearDay_spec hz
  obtain ⟨-, -, hmd⟩ := monthDay_spec hdoy
  -- the year that begins in March is the same in both directions
  have hyear : (if (date n).month ≤ 2 then (date n).year - 1 else (date n).year)
      = year := by
    show (if (monthDay _).1 ≤ 2 then (if (monthDay _).1 ≤ 2 then year + 1 else year) - 1
      else if (monthDay _).1 ≤ 2 then year + 1 else year) = year
    split <;> omega
  have hmod : (year % 400).toNat = (yearDay (z % 146097).toNat).1 := by omega
  have hdiv : year / 400 = z / 146097 := by omega
  have hday : dayOfYear (date n).month (date n).day
      = (yearDay (z % 146097).toNat).2 := hmd
  simp only [days, hyear, hmod, hdiv, hday, hdoe]
  omega

/-! ## Numbers -/

def ascii (c : Char) : UInt8 := UInt8.ofNat c.toNat

def isDigit (b : UInt8) : Bool := 48 ≤ b.toNat && b.toNat ≤ 57

/-- A number in decimal, with zeros in front up to a width. -/
def decimal (x width : ℕ) : Bytes :=
  let ds := (Nat.digits 10 x).reverse
  (List.replicate (width - ds.length) 0 ++ ds).map fun d => UInt8.ofNat (48 + d)

/-- The number that digits write. -/
def number (bs : Bytes) : ℕ := Nat.ofDigits 10 (bs.map fun b => b.toNat - 48).reverse

theorem lt_of_mem_padded {x k d : ℕ}
    (h : d ∈ List.replicate k 0 ++ (Nat.digits 10 x).reverse) : d < 10 := by
  rcases List.mem_append.mp h with h | h
  · rw [List.eq_of_mem_replicate h]
    decide
  · exact Nat.digits_lt_base (by decide) (List.mem_reverse.mp h)

theorem toNat_digit {d : ℕ} (hd : d < 10) : (UInt8.ofNat (48 + d)).toNat = 48 + d := by
  rw [UInt8.toNat_ofNat']
  omega

theorem number_decimal (x width : ℕ) : number (decimal x width) = x := by
  have hmap : (decimal x width).map (fun b => b.toNat - 48)
      = List.replicate (width - (Nat.digits 10 x).reverse.length) 0
        ++ (Nat.digits 10 x).reverse := by
    rw [decimal, List.map_map]
    refine (List.map_congr_left fun d hd => ?_).trans (List.map_id _)
    show (UInt8.ofNat (48 + d)).toNat - 48 = d
    rw [toNat_digit (lt_of_mem_padded hd)]
    omega
  rw [number, hmap]
  simp [Nat.ofDigits_append, Nat.ofDigits_digits]

theorem decimal_inj {x y width : ℕ} (h : decimal x width = decimal y width) :
    x = y := by
  rw [← number_decimal x width, h, number_decimal]

theorem isDigit_decimal (x width : ℕ) : ∀ b ∈ decimal x width, isDigit b = true := by
  intro b hb
  obtain ⟨d, hd, rfl⟩ := List.mem_map.mp hb
  have hlt := lt_of_mem_padded hd
  rw [isDigit, toNat_digit hlt]
  simp only [Bool.and_eq_true, decide_eq_true_eq]
  omega

theorem decimal_length {x width : ℕ} (h : x < 10 ^ width) :
    (decimal x width).length = width := by
  have hle := (Nat.digits_length_le_iff (b := 10) (by decide) x).mpr h
  simp only [decimal, List.length_map, List.length_append, List.length_replicate,
    List.length_reverse]
  omega

/-! ## Pieces of a text -/

section

variable {α : Type} {p : α → Bool} {xs ys as bs : List α} {a b : α}

/-- A run of digits, and the first character after it. -/
theorem append_cons_inj (hxs : ∀ c ∈ xs, p c = true) (hys : ∀ c ∈ ys, p c = true)
    (ha : p a = false) (hb : p b = false) (h : xs ++ a :: as = ys ++ b :: bs) :
    xs = ys ∧ a = b ∧ as = bs := by
  induction xs generalizing ys with
  | nil =>
    cases ys with
    | nil => simpa using h
    | cons y ys =>
      obtain rfl : a = y := (List.cons.inj h).1
      simp [hys a (by simp)] at ha
  | cons x xs ih =>
    cases ys with
    | nil =>
      obtain rfl : x = b := (List.cons.inj h).1
      simp [hxs x (by simp)] at hb
    | cons y ys =>
      obtain ⟨rfl, htail⟩ := List.cons.inj h
      obtain ⟨rfl, hrest⟩ := ih (fun c hc => hxs c (by simp [hc]))
        (fun c hc => hys c (by simp [hc])) htail
      exact ⟨rfl, hrest⟩

/-- The last run of digits, and the character in front of it. -/
theorem cons_append_inj (hxs : ∀ c ∈ xs, p c = true) (hys : ∀ c ∈ ys, p c = true)
    (ha : p a = false) (hb : p b = false) (h : as ++ a :: xs = bs ++ b :: ys) :
    as = bs ∧ a = b ∧ xs = ys := by
  have hrev : xs.reverse ++ a :: as.reverse = ys.reverse ++ b :: bs.reverse := by
    simpa using congrArg List.reverse h
  obtain ⟨hx, hab, has⟩ := append_cons_inj (by simpa using hxs) (by simpa using hys)
    ha hb hrev
  exact ⟨List.reverse_injective has, hab, List.reverse_injective hx⟩

end

/-! ## The text -/

def yearText (year : ℤ) : Bytes :=
  if year < 0 then ascii '-' :: decimal year.natAbs 4 else decimal year.natAbs 4

/-- The month, the day and the minute of a time in seconds of the day. -/
def minuteText (month day sod : ℕ) : Bytes :=
  ascii '-' :: (decimal month 2 ++ ascii '-' :: (decimal day 2
    ++ ascii 'T' :: (decimal (sod / 3600) 2 ++ ascii ':' :: decimal (sod / 60 % 60) 2)))

/-- The digits of a fraction; its trailing zeros are left out. -/
def fractionDigits (nanos : ℕ) : Bytes := (decimal nanos 9).rdropWhile (· == 48)

/-- The fraction of the second; without digits the dot is left out too. -/
def fraction (nanos : ℕ) : Bytes :=
  if fractionDigits nanos = [] then [] else ascii '.' :: fractionDigits nanos

def zoneText (offset : ℤ) : Bytes :=
  if offset = 0 then [ascii 'Z']
  else (if offset < 0 then ascii '-' else ascii '+') :: (decimal (offset.natAbs / 60) 2
    ++ ascii ':' :: decimal (offset.natAbs % 60) 2)

/-- The time of the zone, in nanoseconds. -/
def localTime (t offset : ℤ) : ℤ := t + offset * 60000000000

/-- The date in the zone. -/
def localDate (t offset : ℤ) : Date := date (localTime t offset / 1000000000 / 86400)

def localSeconds (t offset : ℤ) : ℕ := (localTime t offset / 1000000000 % 86400).toNat

def localNanos (t offset : ℤ) : ℕ := (localTime t offset % 1000000000).toNat

/-- `t.Format(time.RFC3339Nano)` -/
def format (t offset : ℤ) : Bytes :=
  let d := localDate t offset
  yearText d.year ++ (minuteText d.month d.day (localSeconds t offset)
    ++ ascii ':' :: (decimal (localSeconds t offset % 60) 2
      ++ (fraction (localNanos t offset) ++ zoneText offset)))

example : format 1704067200123450000 0 = "2024-01-01T00:00:00.12345Z".toList.map ascii := by
  decide +kernel

/-! ## Texts tell times apart -/

theorem isDigit_dash : isDigit (ascii '-') = false := by decide

theorem isDigit_colon : isDigit (ascii ':') = false := by decide

theorem yearText_inj {y y' : ℤ} {as bs : Bytes}
    (h : yearText y ++ ascii '-' :: as = yearText y' ++ ascii '-' :: bs) :
    y = y' ∧ as = bs := by
  have hne : ∀ x, ∃ b bs, decimal x 4 = b :: bs ∧ isDigit b = true := by
    intro x
    cases hd : decimal x 4 with
    | nil =>
      have hlen := congrArg List.length hd
      simp only [decimal, List.length_map, List.length_append, List.length_replicate,
        List.length_nil] at hlen
      omega
    | cons b bs => exact ⟨b, bs, rfl, isDigit_decimal x 4 b (by simp [hd])⟩
  -- a dash in front tells the sign, then the digits end at the next one
  have hdigits : ∀ {x x' : ℕ} {as bs : Bytes},
      decimal x 4 ++ ascii '-' :: as = decimal x' 4 ++ ascii '-' :: bs →
      x = x' ∧ as = bs := by
    intro x x' as bs h
    obtain ⟨hx, -, hrest⟩ := append_cons_inj (isDigit_decimal x 4)
      (isDigit_decimal x' 4) isDigit_dash isDigit_dash h
    exact ⟨decimal_inj hx, hrest⟩
  by_cases hy : y < 0
  · by_cases hy' : y' < 0
    · rw [yearText, yearText, if_pos hy, if_pos hy'] at h
      obtain ⟨hx, hrest⟩ := hdigits (List.cons.inj h).2
      exact ⟨by omega, hrest⟩
    · rw [yearText, yearText, if_pos hy, if_neg hy'] at h
      obtain ⟨b, bs', hb, hdigit⟩ := hne y'.natAbs
      rw [hb] at h
      rw [← (List.cons.inj h).1, isDigit_dash] at hdigit
      exact absurd hdigit (by decide)
  · by_cases hy' : y' < 0
    · rw [yearText, yearText, if_neg hy, if_pos hy'] at h
      obtain ⟨b, bs', hb, hdigit⟩ := hne y.natAbs
      rw [hb] at h
      rw [(List.cons.inj h).1, isDigit_dash] at hdigit
      exact absurd hdigit (by decide)
    · rw [yearText, yearText, if_neg hy, if_neg hy'] at h
      obtain ⟨hx, hrest⟩ := hdigits h
      exact ⟨by omega, hrest⟩

theorem minuteText_length {month day sod : ℕ} (hmonth : month < 100) (hday : day < 100)
    (hsod : sod < 86400) : (minuteText month day sod).length = 12 := by
  simp only [minuteText, List.length_cons, List.length_append,
    decimal_length (show month < 10 ^ 2 from hmonth),
    decimal_length (show day < 10 ^ 2 from hday),
    decimal_length (show sod / 3600 < 10 ^ 2 by omega),
    decimal_length (show sod / 60 % 60 < 10 ^ 2 by omega)]

theorem minuteText_inj {month month' day day' sod sod' : ℕ}
    (h : minuteText month day sod = minuteText month' day' sod') :
    month = month' ∧ day = day' ∧ sod / 60 = sod' / 60 := by
  obtain ⟨hmonth, -, h⟩ := append_cons_inj (isDigit_decimal _ 2) (isDigit_decimal _ 2)
    isDigit_dash isDigit_dash (List.cons.inj h).2
  obtain ⟨hday, -, h⟩ := append_cons_inj (isDigit_decimal _ 2) (isDigit_decimal _ 2)
    (by decide) (by decide) h
  obtain ⟨hhour, -, hmin⟩ := append_cons_inj (isDigit_decimal _ 2) (isDigit_decimal _ 2)
    isDigit_colon isDigit_colon h
  have hhour' := decimal_inj hhour
  have hmin' := decimal_inj hmin
  exact ⟨decimal_inj hmonth, decimal_inj hday, by omega⟩

theorem isDigit_fractionDigits (nanos : ℕ) :
    ∀ b ∈ fractionDigits nanos, isDigit b = true :=
  fun b hb => isDigit_decimal nanos 9 b ((List.rdropWhile_prefix _ _).subset hb)

/-- The zeros that were left out are known from the number of the others. -/
theorem fractionDigits_inj {nanos nanos' : ℕ} (hlt : nanos < 1000000000)
    (hlt' : nanos' < 1000000000) (h : fractionDigits nanos = fractionDigits nanos') :
    nanos = nanos' := by
  have hpad : ∀ {x : ℕ}, x < 1000000000 →
      decimal x 9 = fractionDigits x
        ++ List.replicate (9 - (fractionDigits x).length) 48 := by
    intro x hx
    have hsplit := List.rdropWhile_append_rtakeWhile (p := (· == 48)) (l := decimal x 9)
    have hlen := congrArg List.length hsplit
    rw [List.length_append, decimal_length (show x < 10 ^ 9 from hx)] at hlen
    have hzeros : (decimal x 9).rtakeWhile (· == 48)
        = List.replicate (9 - (fractionDigits x).length) 48 := by
      refine List.eq_replicate_iff.mpr ⟨?_, ?_⟩
      · show _ = 9 - ((decimal x 9).rdropWhile (· == 48)).length
        omega
      · intro b hb
        simpa using List.mem_rtakeWhile_imp hb
    rw [← hzeros]
    exact hsplit.symm
  refine @decimal_inj _ _ 9 ?_
  rw [hpad hlt, hpad hlt', h]

/-- The zone is found from the end of a text. -/
theorem append_zoneText_inj {as bs : Bytes} {o o' : ℤ}
    (h : as ++ zoneText o = bs ++ zoneText o') : as = bs ∧ o = o' := by
  have hZ : isDigit (ascii 'Z') = false := by decide
  have hsign : ∀ o : ℤ, isDigit (if o < 0 then ascii '-' else ascii '+') = false := by
    intro o
    split <;> decide
  have hnil : ∀ b ∈ ([] : Bytes), isDigit b = true := by simp
  by_cases ho : o = 0
  · by_cases ho' : o' = 0
    · rw [ho, ho'] at h
      exact ⟨List.append_cancel_right h, ho.trans ho'.symm⟩
    · -- the last character is `Z`, or the digits of a minute
      rw [zoneText, zoneText, if_pos ho, if_neg ho', ← List.cons_append,
        ← List.append_assoc] at h
      obtain ⟨-, hlast, -⟩ := cons_append_inj hnil (isDigit_decimal _ 2) hZ
        isDigit_colon h
      exact absurd hlast (by decide)
  · by_cases ho' : o' = 0
    · rw [zoneText, zoneText, if_neg ho, if_pos ho', ← List.cons_append,
        ← List.append_assoc] at h
      obtain ⟨-, hlast, -⟩ := cons_append_inj (isDigit_decimal _ 2) hnil isDigit_colon
        hZ h
      exact absurd hlast (by decide)
    · rw [zoneText, zoneText, if_neg ho, if_neg ho', ← List.cons_append,
        ← List.cons_append, ← List.append_assoc, ← List.append_assoc] at h
      obtain ⟨h, -, hmin⟩ := cons_append_inj (isDigit_decimal _ 2) (isDigit_decimal _ 2)
        isDigit_colon isDigit_colon h
      obtain ⟨hrest, hs, hhour⟩ := cons_append_inj (isDigit_decimal _ 2)
        (isDigit_decimal _ 2) (hsign o) (hsign o') h
      have hmin' := decimal_inj hmin
      have hhour' := decimal_inj hhour
      have hneg : o < 0 ↔ o' < 0 := by
        have hne : ascii '-' ≠ ascii '+' := by decide
        constructor
        · intro hlt
          by_contra hge
          rw [if_pos hlt, if_neg hge] at hs
          exact hne hs
        · intro hlt
          by_contra hge
          rw [if_neg hge, if_pos hlt] at hs
          exact hne hs.symm
      exact ⟨hrest, by omega⟩

/-- So are the second and its fraction. -/
theorem append_fraction_inj {as bs : Bytes} {sec sec' nanos nanos' : ℕ}
    (hlt : nanos < 1000000000) (hlt' : nanos' < 1000000000)
    (h : as ++ ascii ':' :: (decimal sec 2 ++ fraction nanos)
      = bs ++ ascii ':' :: (decimal sec' 2 ++ fraction nanos')) :
    as = bs ∧ sec = sec' ∧ nanos = nanos' := by
  have hdot : isDigit (ascii '.') = false := by decide
  -- what the last digits follow: the colon, or the dot of a fraction
  have hnone : ∀ {n : ℕ} (s : ℕ), fractionDigits n = [] →
      decimal s 2 ++ fraction n = decimal s 2 := by
    intro n s hn
    rw [fraction, if_pos hn, List.append_nil]
  have hsome : ∀ {n : ℕ} (xs : Bytes) (s : ℕ), fractionDigits n ≠ [] →
      xs ++ ascii ':' :: (decimal s 2 ++ fraction n)
        = (xs ++ ascii ':' :: decimal s 2) ++ ascii '.' :: fractionDigits n := by
    intro n xs s hn
    rw [fraction, if_neg hn]
    simp
  by_cases hn : fractionDigits nanos = []
  · by_cases hn' : fractionDigits nanos' = []
    · rw [hnone _ hn, hnone _ hn'] at h
      obtain ⟨hrest, -, hsec⟩ := cons_append_inj (isDigit_decimal _ 2)
        (isDigit_decimal _ 2) isDigit_colon isDigit_colon h
      exact ⟨hrest, decimal_inj hsec, fractionDigits_inj hlt hlt' (hn.trans hn'.symm)⟩
    · rw [hnone _ hn, hsome _ _ hn'] at h
      obtain ⟨-, hsep, -⟩ := cons_append_inj (isDigit_decimal _ 2)
        (isDigit_fractionDigits _) isDigit_colon hdot h
      exact absurd hsep (by decide)
  · by_cases hn' : fractionDigits nanos' = []
    · rw [hsome _ _ hn, hnone _ hn'] at h
      obtain ⟨-, hsep, -⟩ := cons_append_inj (isDigit_fractionDigits _)
        (isDigit_decimal _ 2) hdot isDigit_colon h
      exact absurd hsep (by decide)
    · rw [hsome _ _ hn, hsome _ _ hn'] at h
      obtain ⟨hrest, -, hfrac⟩ := cons_append_inj (isDigit_fractionDigits _)
        (isDigit_fractionDigits _) hdot hdot h
      obtain ⟨hrest, -, hsec⟩ := cons_append_inj (isDigit_decimal _ 2)
        (isDigit_decimal _ 2) isDigit_colon isDigit_colon hrest
      exact ⟨hrest, decimal_inj hsec, fractionDigits_inj hlt hlt' hfrac⟩

theorem localNanos_lt (t o : ℤ) : localNanos t o < 1000000000 := by
  rw [localNanos]
  omega

theorem localSeconds_lt (t o : ℤ) : localSeconds t o < 86400 := by
  rw [localSeconds]
  omega

/-- What is found from the end of a text, whatever stands in front of it. -/
theorem append_format_tail {as bs : Bytes} {t t' o o' : ℤ}
    (h : as ++ format t o = bs ++ format t' o') :
    as ++ (yearText (localDate t o).year
          ++ minuteText (localDate t o).month (localDate t o).day (localSeconds t o))
        = bs ++ (yearText (localDate t' o').year
          ++ minuteText (localDate t' o').month (localDate t' o').day
            (localSeconds t' o'))
      ∧ localSeconds t o % 60 = localSeconds t' o' % 60
      ∧ localNanos t o = localNanos t' o' ∧ o = o' := by
  have hsplit : ∀ (as : Bytes) (t o : ℤ), as ++ format t o
      = (as ++ (yearText (localDate t o).year
          ++ minuteText (localDate t o).month (localDate t o).day (localSeconds t o))
        ++ ascii ':' :: (decimal (localSeconds t o % 60) 2 ++ fraction (localNanos t o)))
        ++ zoneText o := by
    intro as t o
    simp [format]
  rw [hsplit, hsplit] at h
  obtain ⟨h, ho⟩ := append_zoneText_inj h
  obtain ⟨hhead, hsec, hnanos⟩ :=
    append_fraction_inj (localNanos_lt t o) (localNanos_lt t' o') h
  exact ⟨hhead, hsec, hnanos, ho⟩

/-- A time is put together from its parts. -/
theorem eq_of_parts {t t' o : ℤ} (hdate : localDate t o = localDate t' o)
    (hsec : localSeconds t o = localSeconds t' o)
    (hnanos : localNanos t o = localNanos t' o) : t = t' := by
  have hdays := congrArg days hdate
  rw [localDate, localDate, days_date, days_date] at hdays
  unfold localSeconds at hsec
  unfold localNanos at hnanos
  unfold localTime at hdays hsec hnanos
  omega

/-- **Texts tell times and offsets apart.** -/
theorem format_inj {t t' o o' : ℤ} (h : format t o = format t' o') :
    t = t' ∧ o = o' := by
  have hnil : [] ++ format t o = [] ++ format t' o' := h
  obtain ⟨hhead, hsec, hnanos, rfl⟩ := append_format_tail hnil
  have hyear := yearText_inj hhead
  obtain ⟨hmonth, hday, hmin⟩ := minuteText_inj
    (congrArg (ascii '-' :: ·) hyear.2)
  refine ⟨eq_of_parts (Date.ext hyear.1 hmonth hday) (by omega) hnanos, rfl⟩

/-- The year has four digits. -/
def FourDigitYear (t o : ℤ) : Prop :=
  0 ≤ (localDate t o).year ∧ (localDate t o).year < 10000

/-- **After other bytes**, the text of a year of four digits is found from the
end. -/
theorem append_format_inj {as bs : Bytes} {t t' o o' : ℤ} (ht : FourDigitYear t o)
    (ht' : FourDigitYear t' o') (h : as ++ format t o = bs ++ format t' o') :
    as = bs ∧ t = t' ∧ o = o' := by
  have hlen : ∀ {t o : ℤ}, FourDigitYear t o →
      (yearText (localDate t o).year ++ minuteText (localDate t o).month
        (localDate t o).day (localSeconds t o)).length = 16 := by
    intro t o hyear
    obtain ⟨hmonth, hday⟩ := date_bounds (localTime t o / 1000000000 / 86400)
    obtain ⟨hpos, hlt⟩ := hyear
    rw [List.length_append, minuteText_length (by show (date _).month < 100; omega)
      (by show (date _).day < 100; omega) (localSeconds_lt t o), yearText,
      if_neg (by omega),
      decimal_length (show (localDate t o).year.natAbs < 10 ^ 4 by omega)]
  obtain ⟨hhead, hsec, hnanos, rfl⟩ := append_format_tail h
  obtain ⟨hab, -⟩ := List.append_inj' hhead (by rw [hlen ht, hlen ht'])
  subst hab
  exact ⟨rfl, format_inj (List.append_cancel_left h)⟩

end Rfc3339
