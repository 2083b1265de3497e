import UsbVault.Lib.Digits
import UsbVault.Lib.Keyed
import UsbVault.Lib.Run
import UsbVault.Lib.SlidingWindow

/-!
# The sliding-window rate limit

`checkRateLimit` of `internal/middleware/ratelimit.go` with its Redis script,
for one key: every request puts a member into a sorted set, what has left the
window is removed, and the request is admitted if no more than `limit` are
left. Requests that are not admitted stay in the set.

The member is named by the clock's reading in nanoseconds and its score is
the reading in milliseconds. So the set misses a request when another has
read the same time, when the milliseconds say that it has left the window
before it has, or when Redis has dropped the key; while it misses none, no
window has more than `limit` admitted requests (`window_within_limit`).

Readings are numbers of nanoseconds; the seconds of the script, which are
floating-point numbers there, are exact. The clock of Redis, in milliseconds,
is another. What happens when Redis fails is left out.
-/

namespace UsbVault.RateLimit

open SlidingWindow

/-! ## The script -/

/-- A member of the sorted set and its score, in milliseconds. -/
structure Entry where
  member : List Char
  score : Nat
  deriving DecidableEq, Repr

/-- The sorted set under the key, and when the key runs out. -/
structure Key where
  entries : List Entry
  expireAt : Nat
  deriving DecidableEq, Repr

/-- A request: `time.Now()`, and the time of Redis. -/
structure Request where
  reading : Nat
  server : Nat
  deriving DecidableEq, Repr

def unixMilli (reading : Nat) : Nat := reading / 1000000

/-- `fmt.Sprintf("%d:%d", now.UnixNano(), now.UnixNano()%1000000)` -/
def member (reading : Nat) : List Char :=
  Nat.toDigits 10 reading ++ ':' :: Nat.toDigits 10 (reading % 1000000)

def entry (reading : Nat) : Entry := ⟨member reading, unixMilli reading⟩

/-- `int64(window.Seconds()) * 2` -/
def expiry (window : Nat) : Nat := window / 1000000000 * 2

/-- The sorted set that Redis finds. -/
def liveEntries (key : Option Key) (server : Nat) : List Entry :=
  match key with
  | some k => if server ≤ k.expireAt then k.entries else []
  | none => []

/-- `ZADD`: a member that is there gets the score. -/
def zadd (e : Entry) (entries : List Entry) : List Entry := Keyed.upsert Entry.member e entries

/-- `ZREMRANGEBYSCORE key -inf (now - window)`, in nanoseconds. -/
def zremrangebyscore (window : Nat) (now : Nat) (entries : List Entry) : List Entry :=
  entries.filter fun e => ¬e.score * 1000000 + window ≤ now * 1000000

/-- The key after the script, and the count that it returns. An empty set is
no key, and `EXPIRE` with no seconds deletes it. -/
def script (window : Nat) (key : Option Key) (q : Request) : Option Key × Nat :=
  let entries := zremrangebyscore window (unixMilli q.reading)
    (zadd (entry q.reading) (liveEntries key q.server))
  (if entries = [] ∨ expiry window = 0 then none
    else some ⟨entries, q.server + expiry window * 1000⟩, entries.length)

/-- `requests` and `admitted` are history, the latest first. -/
structure State where
  key : Option Key
  requests : List Nat
  admitted : List Nat

def start : State := ⟨none, [], []⟩

/-- `checkRateLimit` -/
def step (limit : Int) (window : Nat) (s : State) (q : Request) : State where
  key := (script window s.key q).1
  requests := q.reading :: s.requests
  admitted :=
    if ((script window s.key q).2 : Int) ≤ limit then q.reading :: s.admitted else s.admitted

def run (limit : Int) (window : Nat) (qs : List Request) : State :=
  qs.foldl (step limit window) start

/-! ## What the set misses -/

/-- Of the requests less than a window ago, none has read the same time, the
milliseconds of none are a window ago, and while there are any Redis has the
key. -/
def Counted (window : Nat) (s : State) (q : Request) : Prop :=
  ∀ t ∈ s.requests, q.reading < t + window →
    t ≠ q.reading
      ∧ unixMilli q.reading * 1000000 < unixMilli t * 1000000 + window
      ∧ ∃ k ∈ s.key, q.server ≤ k.expireAt

instance (window : Nat) (s : State) (q : Request) : Decidable (Counted window s q) :=
  inferInstanceAs (Decidable (∀ t ∈ s.requests, _ → _ ∧ _ ∧ ∃ k ∈ s.key, _))

/-! ## Members -/

theorem takeWhile_member (reading : Nat) :
    (member reading).takeWhile (·.isDigit) = Nat.toDigits 10 reading := by
  have hdigits : ∀ c ∈ Nat.toDigits 10 reading, c.isDigit = true :=
    fun c hc => Nat.isDigit_of_mem_toDigits (by decide) (by decide) hc
  rw [member, List.takeWhile_append_of_pos hdigits]
  simp

theorem member_inj {t t' : Nat} (h : member t = member t') : t = t' := by
  have hdigits : Nat.toDigits 10 t = Nat.toDigits 10 t' := by
    rw [← takeWhile_member t, ← takeWhile_member t', h]
  rw [← Nat.ofDigitChars_ten_toDigits (n := t), hdigits, Nat.ofDigitChars_ten_toDigits]

theorem entry_injective : Function.Injective entry :=
  fun _ _ h => member_inj (congrArg Entry.member h)

/-! ## The set -/

variable {window limit : Nat} {s : State} {q : Request} {entries : List Entry} {e : Entry}

/-- The recent requests, those less than a window ago, are in the set. -/
structure Holds (window : Nat) (s : State) (now : Nat) : Prop where
  members : ∀ k ∈ s.key, (k.entries.map Entry.member).Nodup
  recent : ∀ k ∈ s.key, ∀ t ∈ s.requests, now < t + window → entry t ∈ k.entries
  distinct : (s.requests.filter fun t => now < t + window).Nodup

theorem nodup_live (h : ∀ k ∈ s.key, (k.entries.map Entry.member).Nodup) (server : Nat) :
    ((liveEntries s.key server).map Entry.member).Nodup := by
  cases hkey : s.key with
  | none => exact List.nodup_nil
  | some k =>
    rw [liveEntries]
    split
    · exact h k hkey
    · exact List.nodup_nil

theorem nodup_zadd (h : (entries.map Entry.member).Nodup) :
    ((zadd e entries).map Entry.member).Nodup := by
  rw [zadd]
  by_cases hold : e.member ∈ entries.map Entry.member
  · rw [Keyed.keys_upsert hold]
    exact h
  · rw [Keyed.upsert_of_new hold, List.map_append]
    exact List.nodup_append.mpr ⟨h, List.nodup_singleton _, by
      intro m hm m' hm' heq
      rw [List.map_singleton, List.mem_singleton] at hm'
      exact hold (hm' ▸ heq ▸ hm)⟩

theorem mem_zremrangebyscore {now : Nat} :
    e ∈ zremrangebyscore window now entries
      ↔ e ∈ entries ∧ now * 1000000 < e.score * 1000000 + window := by
  simp [zremrangebyscore, List.mem_filter]

/-- The set that the script has counted. -/
def counted (window : Nat) (s : State) (q : Request) : List Entry :=
  zremrangebyscore window (unixMilli q.reading)
    (zadd (entry q.reading) (liveEntries s.key q.server))

theorem script_count : (script window s.key q).2 = (counted window s q).length := rfl

theorem nodup_counted (h : ∀ k ∈ s.key, (k.entries.map Entry.member).Nodup) :
    ((counted window s q).map Entry.member).Nodup :=
  (nodup_zadd (nodup_live h q.server)).sublist (List.filter_sublist.map Entry.member)

/-- **The script counts every recent request**, and this one. -/
theorem mem_counted {last : Nat} (h : Holds window s last) (hlast : last ≤ q.reading)
    (hcounted : Counted window s q) {t : Nat} (ht : t ∈ q.reading :: s.requests)
    (hrecent : q.reading < t + window) : entry t ∈ counted window s q := by
  have hnodup := nodup_live h.members q.server
  rw [counted, mem_zremrangebyscore, zadd, Keyed.mem_upsert hnodup]
  rcases List.mem_cons.mp ht with rfl | ht
  · refine ⟨.inl rfl, ?_⟩
    show unixMilli q.reading * 1000000 < unixMilli q.reading * 1000000 + window
    omega
  · obtain ⟨hne, hmilli, k, hk, hserver⟩ := hcounted t ht hrecent
    refine ⟨.inr ⟨?_, fun hmember => hne (member_inj hmember)⟩, hmilli⟩
    have hmem := h.recent k hk t ht (by omega)
    rw [Option.mem_def.mp hk, liveEntries, if_pos hserver]
    exact hmem

/-! ## One request -/

theorem distinct_step {last : Nat} (h : Holds window s last) (hlast : last ≤ q.reading)
    (hcounted : Counted window s q) :
    ((q.reading :: s.requests).filter fun t => q.reading < t + window).Nodup := by
  have hrest : (s.requests.filter fun t => q.reading < t + window).Nodup := by
    refine h.distinct.sublist (List.monotone_filter_right _ ?_)
    intro t ht
    simp only [decide_eq_true_eq] at ht ⊢
    omega
  rw [List.filter_cons]
  split
  · refine List.nodup_cons.mpr ⟨?_, hrest⟩
    intro hmem
    obtain ⟨ht, hrecent⟩ := List.mem_filter.mp hmem
    exact (hcounted q.reading ht (by simpa using hrecent)).1 rfl
  · exact hrest

theorem Holds.step {last : Nat} {limit : Int} (h : Holds window s last) (hlast : last ≤ q.reading)
    (hcounted : Counted window s q) :
    Holds window (step limit window s q) q.reading := by
  have hkey : ∀ k ∈ (RateLimit.step limit window s q).key, k.entries = counted window s q := by
    intro k hk
    simp only [RateLimit.step, script, Option.mem_def, Option.ite_none_left_eq_some,
      Option.some.injEq] at hk
    obtain ⟨-, rfl⟩ := hk
    rfl
  refine ⟨?_, ?_, distinct_step h hlast hcounted⟩
  · intro k hk
    rw [hkey k hk]
    exact nodup_counted h.members
  · intro k hk t ht hrecent
    rw [hkey k hk]
    exact mem_counted h hlast hcounted ht hrecent

theorem recent_le_count {last : Nat} (h : Holds window s last) (hlast : last ≤ q.reading)
    (hcounted : Counted window s q) :
    (q.reading :: s.requests).countP (inWindow window q.reading)
      ≤ (script window s.key q).2 := by
  rw [script_count]
  have hle : (q.reading :: s.requests).countP (inWindow window q.reading)
      ≤ ((q.reading :: s.requests).filter fun t => q.reading < t + window).length := by
    rw [← List.countP_eq_length_filter]
    refine List.countP_mono_left ?_
    intro t _ hwindow
    simpa using (inWindow_iff.mp hwindow).2
  have hentries : (((q.reading :: s.requests).filter fun t => q.reading < t + window).map
      entry).Nodup := (distinct_step h hlast hcounted).map entry_injective
  have hsubset : ((q.reading :: s.requests).filter fun t => q.reading < t + window).map entry
      ⊆ counted window s q := by
    intro e he
    obtain ⟨t, ht, rfl⟩ := List.mem_map.mp he
    obtain ⟨hmem, hrecent⟩ := List.mem_filter.mp ht
    exact mem_counted h hlast hcounted hmem (by simpa using hrecent)
  have hlength := (List.subperm_of_subset hentries hsubset).length_le
  rw [List.length_map] at hlength
  exact Nat.le_trans hle hlength

/-! ## Every run -/

/-- What a run keeps: of the admitted requests, all of which were made, no
window has more than the limit. -/
structure Limited (limit : Int) (window : Nat) (s : State) (last : Nat) : Prop where
  holds : Holds window s last
  past : ∀ t ∈ s.requests, t ≤ last
  made : s.admitted.Sublist s.requests
  within : Within window limit.toNat s.admitted

theorem Limited.step {last : Nat} {limit : Int} (h : Limited limit window s last)
    (hlast : last ≤ q.reading) (hcounted : Counted window s q) :
    Limited limit window (step limit window s q) q.reading := by
  have hcount := recent_le_count h.holds hlast hcounted
  refine ⟨h.holds.step hlast hcounted, ?_, ?_, ?_⟩
  · intro t ht
    rcases List.mem_cons.mp ht with rfl | ht
    · exact Nat.le_refl _
    · exact Nat.le_trans (h.past t ht) hlast
  · rw [RateLimit.step]
    split
    · exact h.made.cons_cons _
    · exact h.made.cons _
  · rw [RateLimit.step]
    split
    · rename_i hadmitted
      refine h.within.cons ?_ ?_
      · intro t ht
        exact Nat.le_trans (h.past t (h.made.subset ht)) hlast
      · have hsub : (q.reading :: s.admitted).Sublist (q.reading :: s.requests) :=
          h.made.cons_cons _
        have hle := hsub.countP_le (p := inWindow window q.reading)
        omega
    · exact h.within

theorem limited_run {limit : Int} {qs : List Request} :
    ∀ {s : State} {last : Nat}, Limited limit window s last →
      (∀ q ∈ qs, last ≤ q.reading) → (qs.map (·.reading)).Pairwise (· ≤ ·) →
      Run.Each (step limit window) (Counted window) s qs →
      Within window limit.toNat (qs.foldl (step limit window) s).admitted := by
  induction qs with
  | nil => intro s last h _ _ _; exact h.within
  | cons q qs ih =>
    intro s last h hlast hmono hcounted
    rw [List.map_cons, List.pairwise_cons] at hmono
    refine ih (h.step (hlast q List.mem_cons_self) hcounted.1) ?_ hmono.2 hcounted.2
    intro q' hq'
    exact hmono.1 q'.reading (List.mem_map_of_mem hq')

theorem start_limited (limit : Int) : Limited limit window start 0 :=
  { holds := { members := (by rintro _ ⟨⟩), recent := (by rintro _ ⟨⟩), distinct := List.nodup_nil }
    past := (by rintro _ ⟨⟩)
    made := List.Sublist.slnil
    within := within_nil }

/-- **No window has more admitted requests than the limit**, in every run of
readings that do not go back in which the set misses no request. -/
theorem window_within_limit (limit : Int) (window : Nat) (qs : List Request)
    (hmono : (qs.map (·.reading)).Pairwise (· ≤ ·))
    (hcounted : Run.Each (step limit window) (Counted window) start qs) :
    Within window limit.toNat (run limit window qs).admitted :=
  limited_run (start_limited limit) (fun _ _ => Nat.zero_le _) hmono hcounted

/-- A minute, and a limit of two: the third request is not admitted. -/
theorem window_within_limit_sample :
    Within 60000000000 2 (run 2 60000000000
      [⟨1000000000000, 5⟩, ⟨1000000000001, 6⟩, ⟨1030000000000, 30000⟩]).admitted
      ∧ (run 2 60000000000 [⟨1000000000000, 5⟩, ⟨1000000000001, 6⟩, ⟨1030000000000, 30000⟩]).admitted
        = [1000000000001, 1000000000000] :=
  ⟨window_within_limit 2 60000000000 _ (by decide +kernel) (by decide +kernel), by decide +kernel⟩

/-- **Two requests admitted in a window of one**: they read the same time; or
the second comes half a millisecond less than a minute after the first, in the
millisecond that ends a minute after the first's; or the window is half a
second, and the key is deleted at once. -/
theorem window_exceeded :
    ¬Within 60000000000 1 (run 1 60000000000
        [⟨1000000000000, 0⟩, ⟨1000000000000, 0⟩]).admitted
      ∧ ¬Within 60000000000 1 (run 1 60000000000
        [⟨1000000900000, 0⟩, ⟨1060000400000, 59999⟩]).admitted
      ∧ ¬Within 500000000 1 (run 1 500000000
        [⟨1000000000000, 0⟩, ⟨1000000000001, 0⟩]).admitted := by
  refine ⟨?_, ?_, ?_⟩
  · intro h
    exact absurd (h 1000000000000) (by decide +kernel)
  · intro h
    exact absurd (h 1060000400000) (by decide +kernel)
  · intro h
    exact absurd (h 1000000000001) (by decide +kernel)

end UsbVault.RateLimit
