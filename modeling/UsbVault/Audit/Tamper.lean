import UsbVault.Audit.Completeness

/-!
# Tamper evidence

What two accepted logs with the same hashes have in common. The hash runs
over the previous hash, the action type, the detail and the time without
their lengths, and the previous hash of the first row is not checked: entries
are equal when no byte has moved between an action type and its detail and the
first previous hashes have the same length, and entries may be missing at the
beginning of the log (`entries_determined`).
-/

namespace UsbVault.Audit

open Wire

variable {sha256 : Bytes → ByteVec 32} {zone : Zone}

/-! ## The hash input -/

/-- The fields that are hashed; a missing detail is an empty one. -/
structure Fields where
  actionType : String
  encryptedDetail : Bytes
  timestamp : Int
  prevHash : Bytes
  deriving DecidableEq

def Row.fields (row : Row) : Fields :=
  ⟨row.actionType, row.encryptedDetail.getD [], row.timestamp, row.prevHash⟩

def Row.actionBytes (row : Row) : Bytes := Utf8.encode row.actionType.toList

theorem Row.actionBytes_inj {a b : Row} (h : a.actionBytes = b.actionBytes) :
    a.actionType = b.actionType := by
  have hdecode := congrArg Utf8.decode h
  rw [Row.actionBytes, Row.actionBytes, Utf8.decode_encode, Utf8.decode_encode] at hdecode
  exact String.toList_inj.mp hdecode

/-- A time of the partitions has a year of four digits in every zone. -/
theorem fourDigitYear {row : Row} (h : InPartition row.timestamp) :
    Rfc3339.FourDigitYear row.timestamp (zone.offset row.timestamp) := by
  obtain ⟨hlo, hhi⟩ := h
  have hoff := zone.bounded row.timestamp
  generalize zone.offset row.timestamp = o at hoff
  let n := Rfc3339.localTime row.timestamp o / 1000000000 / 86400
  have hn : 19700 ≤ n ∧ n < 21200 := by
    simp only [n, Rfc3339.localTime]
    omega
  obtain ⟨hfirst, hlast⟩ := Rfc3339.year_bounds n
  show 0 ≤ (Rfc3339.date n).year ∧ (Rfc3339.date n).year < 10000
  omega

/-- What a hash tells: the action type and the detail are one text in it. -/
structure Joined where
  text : Bytes
  timestamp : Int
  prevHash : Bytes
  deriving DecidableEq

def Row.joined (row : Row) : Joined :=
  ⟨row.actionBytes ++ row.encryptedDetail.getD [], row.timestamp, row.prevHash⟩

/-- The action type ends where the other's ends, or the detail begins there. -/
def SameBoundary (a b : Row) : Prop :=
  a.actionBytes.length = b.actionBytes.length
    ∨ (a.encryptedDetail.getD []).length = (b.encryptedDetail.getD []).length

instance (a b : Row) : Decidable (SameBoundary a b) :=
  inferInstanceAs (Decidable (_ ∨ _))

/-- **Equal inputs**, when the previous hashes have the same lengths. -/
theorem joined_eq {a b : Row} (ha : InPartition a.timestamp) (hb : InPartition b.timestamp)
    (h : a.hashInput zone = b.hashInput zone)
    (hprev : a.prevHash.length = b.prevHash.length) : a.joined = b.joined := by
  obtain ⟨hprev', hrest⟩ := List.append_inj h hprev
  rw [← List.append_assoc, ← List.append_assoc] at hrest
  obtain ⟨htext, htime, -⟩ :=
    Rfc3339.append_format_inj (fourDigitYear ha) (fourDigitYear hb) hrest
  rw [Row.joined, Row.joined, Row.actionBytes, Row.actionBytes, htext, htime, hprev']

/-- The fields of an entry, when no byte has moved between the action type and
the detail. -/
theorem fields_eq {a b : Row} (h : a.joined = b.joined) (hboundary : SameBoundary a b) :
    a.fields = b.fields := by
  obtain ⟨htext, htime, hprev⟩ := Joined.mk.inj h
  have hparts : a.actionBytes = b.actionBytes
      ∧ a.encryptedDetail.getD [] = b.encryptedDetail.getD [] := by
    rcases hboundary with haction | hdetail
    · exact List.append_inj htext haction
    · exact List.append_inj' htext hdetail
  rw [Row.fields, Row.fields, Row.actionBytes_inj hparts.1, hparts.2, htime, hprev]

/-- The inputs that are hashed over some rows. -/
def inputsOf (zone : Zone) (rows : List Row) : Set Bytes :=
  {x | ∃ row ∈ rows, x = row.hashInput zone}

/-- Rows with the same stored hash, in accepted logs without a collision. -/
theorem hashInput_eq {rows rows' : List Row} {a b : Row}
    (hinj : Set.InjOn sha256 (inputsOf zone (rows ++ rows')))
    (hacc : Accepted sha256 zone rows) (hacc' : Accepted sha256 zone rows')
    (ha : a ∈ rows) (hb : b ∈ rows') (h : a.hash = b.hash) :
    a.hashInput zone = b.hashInput zone := by
  rw [← hacc.computed a ha, ← hacc'.computed b hb] at h
  exact hinj ⟨a, by simp [ha], rfl⟩ ⟨b, by simp [hb], rfl⟩ (List.Vector.toList_injective h)

theorem Accepted.tail {row : Row} {rows : List Row}
    (h : Accepted sha256 zone (row :: rows)) : Accepted sha256 zone rows :=
  ⟨fun r hr => h.computed r (by simp [hr]), h.linked.of_cons⟩

theorem Accepted.front {row : Row} {rows : List Row}
    (h : Accepted sha256 zone (rows ++ [row])) : Accepted sha256 zone rows :=
  ⟨fun r hr => h.computed r (by simp [hr]), (List.isChain_append.mp h.linked).1⟩

theorem Accepted.head_prevHash {row : Row} {rows : List Row}
    (h : Accepted sha256 zone (row :: rows)) :
    ∀ next ∈ rows.head?, next.prevHash = row.hash ∧ next.prevHash.length = 32 := by
  intro next hnext
  have hlink := (List.isChain_cons.mp h.linked).1 next hnext
  refine ⟨hlink.symm, ?_⟩
  rw [← hlink, ← h.computed row (by simp), computedHash_length]

/-! ## The same hashes -/

/-- The first rows carry previous hashes of the same length. -/
def SameStart (rows rows' : List Row) : Prop :=
  ∀ a ∈ rows.head?, ∀ b ∈ rows'.head?, a.prevHash.length = b.prevHash.length

/-- **The same hashes, the same texts, times and previous hashes**: from the
first entry on. -/
theorem joined_of_hashes {rows rows' : List Row}
    (hpart : ∀ row ∈ rows ++ rows', InPartition row.timestamp)
    (hinj : Set.InjOn sha256 (inputsOf zone (rows ++ rows')))
    (hacc : Accepted sha256 zone rows) (hacc' : Accepted sha256 zone rows')
    (hhash : rows.map (·.hash) = rows'.map (·.hash))
    (hstart : SameStart rows rows') : rows.map Row.joined = rows'.map Row.joined := by
  induction rows generalizing rows' with
  | nil =>
    cases rows' with
    | nil => rfl
    | cons b rows' => simp at hhash
  | cons a rows ih =>
    cases rows' with
    | nil => simp at hhash
    | cons b rows' =>
      obtain ⟨hhead, hhash'⟩ := List.cons.inj hhash
      have hinput := hashInput_eq hinj hacc hacc' (by simp) (by simp) hhead
      have hjoined := joined_eq (hpart a (by simp)) (hpart b (by simp)) hinput
        (hstart a (by simp) b (by simp))
      have hsub : ∀ row ∈ rows ++ rows', row ∈ a :: rows ++ b :: rows' := by
        intro row hrow
        rcases List.mem_append.mp hrow with hrow | hrow
        · simp [hrow]
        · simp [hrow]
      have hinputs : inputsOf zone (rows ++ rows')
          ⊆ inputsOf zone (a :: rows ++ b :: rows') :=
        fun x ⟨row, hrow, hx⟩ => ⟨row, hsub row hrow, hx⟩
      have hrest := ih (fun row hrow => hpart row (hsub row hrow)) (hinj.mono hinputs)
        hacc.tail hacc'.tail hhash' (fun c hc d hd => by
          rw [(hacc.head_prevHash c hc).2, (hacc'.head_prevHash d hd).2])
      rw [List.map_cons, List.map_cons, hjoined, hrest]

theorem fields_of_joined {rows rows' : List Row}
    (h : rows.map Row.joined = rows'.map Row.joined)
    (hboundary : List.Forall₂ SameBoundary rows rows') :
    rows.map Row.fields = rows'.map Row.fields := by
  induction hboundary with
  | nil => rfl
  | cons hhead _ ih =>
    obtain ⟨hjoined, hrest⟩ := List.cons.inj h
    rw [List.map_cons, List.map_cons, fields_eq hjoined hhead, ih hrest]

/-! ## The same last hash -/

/-- Counted from the end, the rows have previous hashes of the same lengths, and
no byte has moved between an action type and its detail. -/
def SameShape (rows rows' : List Row) : Prop :=
  ∀ p ∈ rows.reverse.zip rows'.reverse,
    p.1.prevHash.length = p.2.prevHash.length ∧ SameBoundary p.1 p.2

theorem SameShape.last {rows rows' : List Row} {a b : Row}
    (h : SameShape (rows ++ [a]) (rows' ++ [b])) :
    (a.prevHash.length = b.prevHash.length ∧ SameBoundary a b) ∧ SameShape rows rows' := by
  unfold SameShape at h ⊢
  rw [List.reverse_append, List.reverse_append] at h
  exact List.forall_mem_cons.mp h

theorem Accepted.last_linked {rows : List Row} {c a : Row}
    (h : Accepted sha256 zone (rows ++ [c] ++ [a])) : c.hash = a.prevHash :=
  (List.isChain_append.mp h.linked).2.2 c (by simp) a (by simp)

theorem concat_suffix {α : Type} {xs ys : List α} {x y : α} (hxy : x = y)
    (h : xs <:+ ys) : xs ++ [x] <:+ ys ++ [y] := by
  obtain ⟨t, rfl⟩ := h
  exact ⟨t, by rw [hxy, List.append_assoc]⟩

theorem last_fields {rows rows' : List Row} {a b : Row}
    (hpart : ∀ row ∈ (rows ++ [a]) ++ (rows' ++ [b]), InPartition row.timestamp)
    (hinj : Set.InjOn sha256 (inputsOf zone ((rows ++ [a]) ++ (rows' ++ [b]))))
    (hacc : Accepted sha256 zone (rows ++ [a])) (hacc' : Accepted sha256 zone (rows' ++ [b]))
    (hlast : a.hash = b.hash) (hshape : SameShape (rows ++ [a]) (rows' ++ [b])) :
    a.fields = b.fields := by
  obtain ⟨⟨hprev, hboundary⟩, -⟩ := hshape.last
  have hinput := hashInput_eq hinj hacc hacc' (by simp) (by simp) hlast
  have hjoined := joined_eq (hpart a (by simp)) (hpart b (by simp)) hinput hprev
  exact fields_eq hjoined hboundary

/-- **The same last hash, the same entries**: backwards, until one of the logs
begins. -/
theorem suffix_of_last {rows rows' : List Row} {a b : Row}
    (hpart : ∀ row ∈ (rows ++ [a]) ++ (rows' ++ [b]), InPartition row.timestamp)
    (hinj : Set.InjOn sha256 (inputsOf zone ((rows ++ [a]) ++ (rows' ++ [b]))))
    (hacc : Accepted sha256 zone (rows ++ [a])) (hacc' : Accepted sha256 zone (rows' ++ [b]))
    (hlast : a.hash = b.hash) (hshape : SameShape (rows ++ [a]) (rows' ++ [b])) :
    (rows ++ [a]).map Row.fields <:+ (rows' ++ [b]).map Row.fields
      ∨ (rows' ++ [b]).map Row.fields <:+ (rows ++ [a]).map Row.fields := by
  have hconcat : ∀ (rows : List Row) (a : Row),
      (rows ++ [a]).map Row.fields = rows.map Row.fields ++ [a.fields] := by simp
  induction rows using List.reverseRecOn generalizing rows' a b with
  | nil =>
    left
    have hfields := last_fields hpart hinj hacc hacc' hlast hshape
    rw [hconcat, hconcat]
    exact concat_suffix hfields List.nil_suffix
  | append_singleton rows c ih =>
    have hfields := last_fields hpart hinj hacc hacc' hlast hshape
    cases rows' using List.reverseRecOn with
    | nil =>
      right
      rw [hconcat [] b, hconcat (rows ++ [c]) a]
      exact concat_suffix hfields.symm List.nil_suffix
    | append_singleton rows' d =>
      -- the rows before the last carry the previous hashes
      have hprev : a.prevHash = b.prevHash := congrArg Fields.prevHash hfields
      have hcd : c.hash = d.hash := by
        rw [hacc.last_linked, hprev, hacc'.last_linked]
      have hsub : ∀ row ∈ (rows ++ [c]) ++ (rows' ++ [d]),
          row ∈ (rows ++ [c] ++ [a]) ++ (rows' ++ [d] ++ [b]) := by
        intro row hrow
        rcases List.mem_append.mp hrow with hrow | hrow
        · exact List.mem_append_left _ (List.mem_append_left _ hrow)
        · exact List.mem_append_right _ (List.mem_append_left _ hrow)
      have hinputs : inputsOf zone ((rows ++ [c]) ++ (rows' ++ [d]))
          ⊆ inputsOf zone ((rows ++ [c] ++ [a]) ++ (rows' ++ [d] ++ [b])) :=
        fun x ⟨row, hrow, hx⟩ => ⟨row, hsub row hrow, hx⟩
      rw [hconcat (rows ++ [c]) a, hconcat (rows' ++ [d]) b]
      rcases ih (fun row hrow => hpart row (hsub row hrow)) (hinj.mono hinputs)
        hacc.front hacc'.front hcd hshape.last.2 with h | h
      · exact .inl (concat_suffix hfields h)
      · exact .inr (concat_suffix hfields.symm h)

theorem Accepted.to_row {front rest : List Row} {row : Row}
    (h : Accepted sha256 zone (front ++ row :: rest)) :
    Accepted sha256 zone (front ++ [row]) := by
  rw [List.append_cons] at h
  exact ⟨fun r hr => h.computed r (List.mem_append_left _ hr),
    (List.isChain_append.mp h.linked).1⟩

/-- **No entry out of its place**: rows in front of a kept row, each with the
content of one of some entries of the log, are the last of those that were in
front of it, unless one of the entries has the previous hash of the first row. -/
theorem front_suffix {entries front front' : List Row} {row row' : Row}
    (hacc : Accepted sha256 zone (front ++ [row]))
    (hacc' : Accepted sha256 zone (front' ++ [row'])) (hrow : row.toEntry = row'.toEntry)
    (hdistinct : (entries.map (·.hash)).Nodup) (hsub : ∀ r ∈ front, r ∈ entries)
    (hfrom : ∀ r ∈ front', ∃ e ∈ entries, e.toEntry = r.toEntry) :
    front'.map Row.toEntry <:+ front.map Row.toEntry
      ∨ front.length < front'.length
        ∧ ∃ first ∈ (front ++ [row]).head?, ∃ e ∈ entries, e.hash = first.prevHash := by
  have hprev : row.prevHash = row'.prevHash := congrArg Entry.prevHash hrow
  induction front using List.reverseRecOn generalizing front' row row' with
  | nil =>
    cases front' using List.reverseRecOn with
    | nil => exact .inl List.nil_suffix
    | append_singleton front' d =>
      -- the log goes on where the kept one began
      obtain ⟨e, he, hed⟩ := hfrom d (by simp)
      have hhash : e.hash = row.prevHash := by
        rw [hprev, ← hacc'.last_linked]
        exact congrArg Entry.hash hed
      exact .inr ⟨by simp, row, by simp, e, he, hhash⟩
  | append_singleton front c ih =>
    cases front' using List.reverseRecOn with
    | nil => exact .inl List.nil_suffix
    | append_singleton front' d =>
      -- the row before is known by its hash
      obtain ⟨e, he, hed⟩ := hfrom d (by simp)
      have hhash : e.hash = c.hash := by
        rw [hacc.last_linked, hprev, ← hacc'.last_linked]
        exact congrArg Entry.hash hed
      have hec : e = c := List.inj_on_of_nodup_map hdistinct he (hsub c (by simp)) hhash
      subst hec
      have hentry : d.toEntry = e.toEntry := hed.symm
      rcases ih hacc.front hacc'.front hed (fun r hr => hsub r (by simp [hr]))
        (fun r hr => hfrom r (by simp [hr])) (congrArg Entry.prevHash hed) with
        h | ⟨hlen, first, hfirst, hcycle⟩
      · left
        rw [List.map_append, List.map_append]
        exact concat_suffix hentry h
      · refine .inr ⟨by simpa using hlen, first, ?_, hcycle⟩
        rw [List.head?_append, hfirst]
        rfl

/-- **A log of entries of another** is a run of consecutive ones, when their
hashes are distinct and none is the previous hash of the first. -/
theorem entries_infix {rows rows' : List Row} (hacc : Accepted sha256 zone rows)
    (hacc' : Accepted sha256 zone rows') (hdistinct : (rows.map (·.hash)).Nodup)
    (hstart : ∀ first ∈ rows.head?, ∀ e ∈ rows, e.hash ≠ first.prevHash)
    (hfrom : ∀ r ∈ rows', ∃ e ∈ rows, e.toEntry = r.toEntry) :
    rows'.map Row.toEntry <:+: rows.map Row.toEntry := by
  cases rows' using List.reverseRecOn with
  | nil => exact List.nil_infix
  | append_singleton front' row' =>
    obtain ⟨row, hmem, hrow⟩ := hfrom row' (by simp)
    obtain ⟨front, rest, rfl⟩ := List.append_of_mem hmem
    have hfront : front'.map Row.toEntry <:+ front.map Row.toEntry := by
      rcases front_suffix hacc.to_row hacc' hrow hdistinct (fun r hr => by simp [hr])
        (fun r hr => hfrom r (by simp [hr])) with h | ⟨-, first, hfirst, e, he, hhash⟩
      · exact h
      · refine absurd hhash (hstart first ?_ e he)
        rw [List.append_cons, List.head?_append, hfirst]
        rfl
    have hkept : (front' ++ [row']).map Row.toEntry
        <:+ (front ++ [row]).map Row.toEntry := by
      rw [List.map_append, List.map_append]
      exact concat_suffix hrow.symm hfront
    rw [List.append_cons front]
    exact hkept.isInfix.trans ((List.prefix_append _ rest).map Row.toEntry).isInfix

/-! ## Logs -/

/-- `VerifyChain` accepts the user's log. -/
def Verified (sha256 : Bytes → ByteVec 32) (zone : Zone) (log : AuditLog) (userID : UserID) :
    Prop :=
  verifyChain sha256 zone log userID (fun _ => none) = some (.ok true)

theorem AuditLog.inPartition_ofUser {log : AuditLog} {userID : UserID} {row : Row}
    (h : row ∈ log.ofUser userID) : InPartition row.timestamp :=
  log.partitioned row (List.mem_of_mem_filter h)

theorem injOn_inputsOf {rows : List Row}
    (h : ∀ a ∈ rows, ∀ b ∈ rows, sha256 (a.hashInput zone) = sha256 (b.hashInput zone) →
      a.hashInput zone = b.hashInput zone) : Set.InjOn sha256 (inputsOf zone rows) := by
  rintro x ⟨a, ha, rfl⟩ y ⟨b, hb, rfl⟩ heq
  exact h a ha b hb heq

/-- The log of calls that all succeed, at one and the same time. -/
def sampleLog (actions : List (UserID × String × Bytes)) : AuditLog :=
  (logRun lengthHash microseconds (actions.map fun (userID, actionType, detail) =>
    (⟨userID, actionType, some detail, 1704067200000000000⟩, .success))).auditLog

end UsbVault.Audit
