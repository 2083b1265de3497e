import UsbVault.Storage.Compact

/-!
# Readable blobs

What a client makes of an object with the key it unwraps is the parameter
`decrypt`. An active blob stays readable just when the bytes that were read
of it decrypt, under the wrapped key that its row is left with, to what they
were (`compact_readable`): the server re-encrypts nothing.
-/

namespace UsbVault.Storage

open Tables

namespace Blobs

/-! ## What an effect leaves alone -/

/-- Only the blob `blobID` may differ, in its row and in its two objects. -/
structure OnlyBlob (vaultID : VaultID) (blobID : BlobID) (s s' : Blobs) : Prop where
  rows : ∀ b, b ≠ blobID → s'.rows.rows b = s.rows.rows b
  objects : ∀ v b, b ≠ blobID → s'.objects (.blob v b) = s.objects (.blob v b)

variable {s s' s'' : Blobs} {vaultID : VaultID} {blobID : BlobID} {e : Execution}
  {newEncKeyEncrypted content : Bytes} {row : BlobRow} {o : ReEncryptOutcome}

theorem OnlyBlob.refl : OnlyBlob vaultID blobID s s := ⟨fun _ _ => rfl, fun _ _ _ => rfl⟩

theorem OnlyBlob.trans (h : OnlyBlob vaultID blobID s s') (h' : OnlyBlob vaultID blobID s' s'') :
    OnlyBlob vaultID blobID s s'' :=
  ⟨fun b hb => (h'.rows b hb).trans (h.rows b hb),
    fun v b hb => (h'.objects v b hb).trans (h.objects v b hb)⟩

theorem putTemp_only : OnlyBlob vaultID blobID s (s.putTemp vaultID blobID content e) := by
  unfold putTemp
  split
  · refine ⟨fun _ _ => rfl, ?_⟩
    intro v b _
    simp
  · exact OnlyBlob.refl

theorem swapTemp_only : OnlyBlob vaultID blobID s (s.swapTemp vaultID blobID e) := by
  unfold swapTemp
  split
  · refine ⟨fun _ _ => rfl, ?_⟩
    intro v b hb
    simp [hb]
  · exact OnlyBlob.refl

theorem deleteTemp_only : OnlyBlob vaultID blobID s (s.deleteTemp vaultID blobID e) := by
  unfold deleteTemp
  split
  · refine ⟨fun _ _ => rfl, ?_⟩
    intro v b _
    simp
  · exact OnlyBlob.refl

theorem updateKey_only :
    OnlyBlob vaultID blobID s (s.updateKey blobID row newEncKeyEncrypted e) := by
  unfold updateKey
  dsimp only
  split
  · exact ⟨fun b hb => Table.rows_put_ne hb, fun _ _ _ => rfl⟩
  · exact OnlyBlob.refl

/-- **Re-encrypting a blob** leaves the others alone. -/
theorem streamReEncrypt_only :
    OnlyBlob vaultID blobID s
      (s.streamReEncrypt vaultID blobID newEncKeyEncrypted o).1 := by
  unfold streamReEncrypt
  split
  · exact OnlyBlob.refl
  split
  · exact OnlyBlob.refl
  split
  · exact OnlyBlob.refl
  dsimp only
  split
  · exact putTemp_only
  split
  · exact putTemp_only.trans swapTemp_only
  split
  · exact putTemp_only.trans (swapTemp_only.trans (deleteTemp_only.trans updateKey_only))
  · exact putTemp_only.trans (swapTemp_only.trans (deleteTemp_only.trans updateKey_only))

/-! ## What becomes of the blob -/

@[simp] theorem putTemp_rows : (s.putTemp vaultID blobID content e).rows = s.rows := by
  unfold putTemp
  split <;> rfl

@[simp] theorem putTemp_blob :
    (s.putTemp vaultID blobID content e).objects (.blob vaultID blobID)
      = s.objects (.blob vaultID blobID) := by
  unfold putTemp
  split
  · simp
  · rfl

@[simp] theorem swapTemp_rows : (s.swapTemp vaultID blobID e).rows = s.rows := by
  unfold swapTemp
  split <;> rfl

@[simp] theorem swapTemp_blob :
    ((s.putTemp vaultID blobID content .done).swapTemp vaultID blobID e).objects
        (.blob vaultID blobID)
      = if e.Took then some content else s.objects (.blob vaultID blobID) := by
  unfold swapTemp
  split
  · have htemp : (s.putTemp vaultID blobID content .done).objects (.temp vaultID blobID)
        = some content := Bucket.putObject_self s.objects
    simp [Bucket.copyObject_of_some _ htemp]
  · exact putTemp_blob

@[simp] theorem deleteTemp_rows : (s.deleteTemp vaultID blobID e).rows = s.rows := by
  unfold deleteTemp
  split <;> rfl

@[simp] theorem deleteTemp_blob :
    (s.deleteTemp vaultID blobID e).objects (.blob vaultID blobID)
      = s.objects (.blob vaultID blobID) := by
  unfold deleteTemp
  split
  · simp
  · rfl

@[simp] theorem updateKey_objects :
    (s.updateKey blobID row newEncKeyEncrypted e).objects = s.objects := by
  unfold updateKey
  dsimp only
  split <;> rfl

theorem updateKey_row (h : s.rows.rows blobID = some row) :
    (s.updateKey blobID row newEncKeyEncrypted e).rows.rows blobID
      = some (if e.Took then { row with encryptionKeyEncrypted := newEncKeyEncrypted } else row) := by
  unfold updateKey
  dsimp only
  split
  · exact Table.rows_put_self
  · exact h

theorem streamReEncrypt_unread
    (h : ¬(o.selectKey ∧ o.download ∧ (s.objects (.blob vaultID blobID)).isSome)) :
    (s.streamReEncrypt vaultID blobID newEncKeyEncrypted o).1 = s
      ∧ (s.streamReEncrypt vaultID blobID newEncKeyEncrypted o).2 ≠ none := by
  unfold streamReEncrypt
  split
  · exact ⟨rfl, by simp⟩
  next hselect =>
    split
    · exact ⟨rfl, by simp⟩
    split
    · exact ⟨rfl, by simp⟩
    next content hcontent =>
      by_cases hdownload : o.download = true
      · rw [if_pos hdownload] at hcontent
        simp only [Bool.not_eq_false] at hselect
        exact absurd ⟨hselect, hdownload, by simp [hcontent]⟩ h
      · rw [if_neg hdownload] at hcontent
        cases hcontent

section

variable (hselect : o.selectKey) (hdownload : o.download) (hrow : s.rows.rows blobID = some row)
  (hcontent : s.objects (.blob row.vaultID blobID) = some content)

include hselect hdownload hrow hcontent

theorem streamReEncrypt_error :
    (s.streamReEncrypt row.vaultID blobID newEncKeyEncrypted o).2 = none ↔ o.Completes := by
  have hfound : s.row row.vaultID blobID = some row := by simp [Blobs.row, hrow]
  unfold streamReEncrypt ReEncryptOutcome.Completes
  simp only [hselect, hfound, hdownload, hcontent, Bool.true_eq_false, if_true, if_false, true_and]
  by_cases hupload : o.upload = .done
  · by_cases hswap : o.swap = .done
    · by_cases hupdate : o.update = .done <;> simp [hupload, hswap, hupdate]
    · simp [hupload, hswap]
  · simp [hupload]

/-- **The blob afterwards**: its row, and its object. -/
theorem streamReEncrypt_blob (newEncKeyEncrypted : Bytes) :
    (s.streamReEncrypt row.vaultID blobID newEncKeyEncrypted o).1.rows.rows blobID
        = some (if o.Rekeys then { row with encryptionKeyEncrypted := newEncKeyEncrypted } else row)
      ∧ (s.streamReEncrypt row.vaultID blobID newEncKeyEncrypted o).1.objects
          (.blob row.vaultID blobID)
        = some (if o.Swaps then content.take o.read else content) := by
  have hfound : s.row row.vaultID blobID = some row := by simp [Blobs.row, hrow]
  unfold streamReEncrypt ReEncryptOutcome.Rekeys ReEncryptOutcome.Swaps
  simp only [hselect, hfound, hdownload, hcontent, Bool.true_eq_false, if_true, if_false]
  by_cases hupload : o.upload = .done
  · by_cases hswap : o.swap = .done
    · have hkey : ∀ e, (Blobs.updateKey _ blobID row newEncKeyEncrypted e).rows.rows blobID = _ :=
        fun e => updateKey_row (s := ((s.putTemp row.vaultID blobID (content.take o.read)
          .done).swapTemp row.vaultID blobID .done).deleteTemp row.vaultID blobID o.cleanup)
          (by simpa using hrow)
      by_cases hupdate : o.update = .done <;>
        simp [hupload, hswap, hupdate, hkey]
    · by_cases htook : o.swap.Took <;> simp [hupload, hswap, htook, hrow, hcontent]
  · simp [hupload, hrow, hcontent]

end

/-! ## Readable blobs -/

variable {P : Type} (decrypt : Bytes → Bytes → Option P)

/-- What a client makes of the blob, with the wrapped key of its row. -/
def plaintext (s : Blobs) (blobID : BlobID) : Option P :=
  (s.rows.rows blobID).bind fun row =>
    (s.objects (.blob row.vaultID blobID)).bind (decrypt row.encryptionKeyEncrypted)

/-- Every active blob that can be read before is read as the same. -/
def StaysReadable (s s' : Blobs) : Prop :=
  ∀ b, ∀ row ∈ s.rows.rows b, row.deleted = false →
    ∀ p, s.plaintext decrypt b = some p → s'.plaintext decrypt b = some p

/-- When the object is replaced, the bytes that were read of it decrypt, under
the wrapped key that is left, to what it was. -/
def KeepsBlob (newEncKeyEncrypted : Bytes) (row : BlobRow) (content : Bytes)
    (o : ReEncryptOutcome) : Prop :=
  o.Swaps → ∀ p, decrypt row.encryptionKeyEncrypted content = some p →
    decrypt (if o.Rekeys then newEncKeyEncrypted else row.encryptionKeyEncrypted)
      (content.take o.read) = some p

/-- So it is for every active blob that is read, up to the first that fails. -/
def StillReads (s : Blobs) (vaultID : VaultID) (newEncKeyEncrypted : Bytes) (o : CompactOutcome) :
    List (BlobID × BlobRow) → Prop
  | [] => True
  | (b, row) :: blobs =>
    if row.deleted then StillReads s vaultID newEncKeyEncrypted o blobs
    else
      ((o.blob b).selectKey → (o.blob b).download →
          ∀ content ∈ s.objects (.blob vaultID b),
            KeepsBlob decrypt newEncKeyEncrypted row content (o.blob b))
        ∧ ((o.blob b).Completes → (s.objects (.blob vaultID b)).isSome →
          StillReads s vaultID newEncKeyEncrypted o blobs)

variable {decrypt}

theorem OnlyBlob.plaintext (h : OnlyBlob vaultID blobID s s') {b : BlobID} (hb : b ≠ blobID) :
    s'.plaintext decrypt b = s.plaintext decrypt b := by
  unfold Blobs.plaintext
  rw [h.rows b hb]
  congr
  funext row
  rw [h.objects row.vaultID b hb]

theorem plaintext_eq (hrow : s.rows.rows blobID = some row) :
    s.plaintext decrypt blobID
      = (s.objects (.blob row.vaultID blobID)).bind (decrypt row.encryptionKeyEncrypted) := by
  rw [plaintext, hrow, Option.bind_some]

/-- **One blob.** -/
theorem streamReEncrypt_keeps (hrow : s.rows.rows blobID = some row) :
    (∀ p, s.plaintext decrypt blobID = some p →
        (s.streamReEncrypt row.vaultID blobID newEncKeyEncrypted o).1.plaintext decrypt blobID
          = some p) ↔
      (o.selectKey → o.download → ∀ content ∈ s.objects (.blob row.vaultID blobID),
        KeepsBlob decrypt newEncKeyEncrypted row content o) := by
  by_cases hread : o.selectKey ∧ o.download ∧ (s.objects (.blob row.vaultID blobID)).isSome
  · obtain ⟨hselect, hdownload, hsome⟩ := hread
    obtain ⟨content, hcontent⟩ := Option.isSome_iff_exists.mp hsome
    obtain ⟨hrow', hcontent'⟩ := streamReEncrypt_blob hselect hdownload hrow hcontent
      newEncKeyEncrypted
    have hbefore : s.plaintext decrypt blobID = decrypt row.encryptionKeyEncrypted content := by
      rw [plaintext_eq hrow, hcontent, Option.bind_some]
    have hafter :
        (s.streamReEncrypt row.vaultID blobID newEncKeyEncrypted o).1.plaintext decrypt blobID
          = decrypt (if o.Rekeys then newEncKeyEncrypted else row.encryptionKeyEncrypted)
            (if o.Swaps then content.take o.read else content) := by
      rw [plaintext_eq hrow']
      split <;> simp [hcontent']
    rw [hbefore, hafter, hcontent]
    simp only [hselect, hdownload, true_imp_iff, Option.mem_some_iff, forall_eq', KeepsBlob]
    by_cases hswaps : o.Swaps
    · simp only [hswaps, if_true, true_imp_iff]
    · have hrekeys : ¬o.Rekeys := fun h => hswaps ⟨h.1, by simp [h.2.1]⟩
      simp [hswaps, hrekeys]
  · rw [(streamReEncrypt_unread hread).1]
    refine iff_of_true (fun p hp => hp) ?_
    intro hselect hdownload content hcontent
    exact absurd ⟨hselect, hdownload, by simp [Option.mem_def.mp hcontent]⟩ hread

/-! ## The loop -/

variable {v : VaultID} {key : Bytes} {out : CompactOutcome}

theorem stillReads_congr {blobs : List (BlobID × BlobRow)}
    (h : ∀ b ∈ blobs.map (·.1), s'.objects (.blob v b) = s.objects (.blob v b)) :
    StillReads decrypt s' v key out blobs ↔ StillReads decrypt s v key out blobs := by
  induction blobs with
  | nil => rfl
  | cons head blobs ih =>
    obtain ⟨b, row⟩ := head
    rw [List.map_cons, List.forall_mem_cons] at h
    rw [StillReads, StillReads, h.1, ih h.2]

theorem compactBlobs_frame (v : VaultID) (key : Bytes) (out : CompactOutcome)
    {blobs : List (BlobID × BlobRow)} {b : BlobID}
    (hb : b ∉ blobs.map (·.1)) : ∀ (s : Blobs) (n : Nat),
      (compactBlobs v key out s n blobs).1.rows.rows b = s.rows.rows b
        ∧ ∀ v', (compactBlobs v key out s n blobs).1.objects (.blob v' b)
          = s.objects (.blob v' b) := by
  induction blobs with
  | nil => intro s n; exact ⟨rfl, fun _ => rfl⟩
  | cons head blobs ih =>
    obtain ⟨c, row⟩ := head
    intro s n
    rw [List.map_cons, List.mem_cons, not_or] at hb
    have honly : OnlyBlob v c s (s.streamReEncrypt v c key (out.blob c)).1 :=
      streamReEncrypt_only
    rw [compactBlobs]
    split
    · exact ih hb.2 s n
    · split
      · next next err hnext =>
          rw [hnext] at honly
          exact ⟨honly.rows b hb.1, fun v' => honly.objects v' b hb.1⟩
      · next next hnext =>
          rw [hnext] at honly
          obtain ⟨hrows, hobjects⟩ := ih hb.2 next (n + 1)
          exact ⟨hrows.trans (honly.rows b hb.1),
            fun v' => (hobjects v').trans (honly.objects v' b hb.1)⟩

theorem plaintext_compactBlobs {blobs : List (BlobID × BlobRow)} {b : BlobID} {n : Nat}
    (hb : b ∉ blobs.map (·.1)) :
    (compactBlobs v key out s n blobs).1.plaintext decrypt b = s.plaintext decrypt b := by
  obtain ⟨hrows, hobjects⟩ := compactBlobs_frame v key out hb s n
  unfold Blobs.plaintext
  rw [hrows]
  congr
  funext row
  rw [hobjects row.vaultID]

theorem streamReEncrypt_completes (hrow : s.rows.rows blobID = some row) :
    (s.streamReEncrypt row.vaultID blobID newEncKeyEncrypted o).2 = none ↔
      o.Completes ∧ (s.objects (.blob row.vaultID blobID)).isSome := by
  by_cases hread : o.selectKey ∧ o.download ∧ (s.objects (.blob row.vaultID blobID)).isSome
  · obtain ⟨content, hcontent⟩ := Option.isSome_iff_exists.mp hread.2.2
    rw [streamReEncrypt_error hread.1 hread.2.1 hrow hcontent]
    simp [hread.2.2]
  · refine iff_of_false (streamReEncrypt_unread hread).2 ?_
    rintro ⟨⟨hselect, hdownload, -⟩, hsome⟩
    exact hread ⟨hselect, hdownload, hsome⟩

/-- **The loop** keeps the active blobs of its list readable just when the
bytes that it reads decrypt. -/
theorem compactBlobs_keeps {blobs : List (BlobID × BlobRow)}
    (hnodup : (blobs.map (·.1)).Nodup) : ∀ (s : Blobs) (n : Nat),
      (∀ blob ∈ blobs, s.rows.rows blob.1 = some blob.2 ∧ blob.2.vaultID = v) →
      ((∀ blob ∈ blobs, blob.2.deleted = false → ∀ p, s.plaintext decrypt blob.1 = some p →
          (compactBlobs v key out s n blobs).1.plaintext decrypt blob.1 = some p) ↔
        StillReads decrypt s v key out blobs) := by
  induction blobs with
  | nil =>
    intro s n _
    refine iff_of_true ?_ True.intro
    intro blob hmem
    cases hmem
  | cons head blobs ih =>
    obtain ⟨c, row⟩ := head
    intro s n hlist
    rw [List.map_cons, List.nodup_cons] at hnodup
    obtain ⟨hc, hnodup⟩ := hnodup
    rw [List.forall_mem_cons] at hlist
    obtain ⟨⟨hrow, rfl⟩, htail⟩ := hlist
    have hne : ∀ blob ∈ blobs, blob.1 ≠ c := by
      rintro blob hmem rfl
      exact hc (List.mem_map.mpr ⟨blob, hmem, rfl⟩)
    rw [List.forall_mem_cons, StillReads, compactBlobs]
    by_cases hdeleted : row.deleted = true
    · rw [if_pos hdeleted, if_pos hdeleted, ← ih hnodup s n htail]
      simp [hdeleted]
    have hactive : row.deleted = false := by simpa using hdeleted
    rw [if_neg hdeleted, if_neg hdeleted, ← streamReEncrypt_keeps hrow]
    have honly : OnlyBlob row.vaultID c s
        (s.streamReEncrypt row.vaultID c key (out.blob c)).1 := streamReEncrypt_only
    have hcompletes : (s.streamReEncrypt row.vaultID c key (out.blob c)).2 = none ↔
        (out.blob c).Completes ∧ (s.objects (.blob row.vaultID c)).isSome :=
      streamReEncrypt_completes hrow
    generalize s.streamReEncrypt row.vaultID c key (out.blob c) = called at *
    obtain ⟨next, err⟩ := called
    have hplain : ∀ blob ∈ blobs, next.plaintext decrypt blob.1 = s.plaintext decrypt blob.1 :=
      fun blob hmem => honly.plaintext (hne blob hmem)
    cases err with
    | some err =>
      -- the loop ends here, and the rest is as it was
      have hstops : ¬((out.blob c).Completes ∧ (s.objects (.blob row.vaultID c)).isSome) :=
        fun h => by simpa using hcompletes.mpr h
      constructor
      · rintro ⟨h, -⟩
        exact ⟨h hactive, fun hdone hsome => absurd ⟨hdone, hsome⟩ hstops⟩
      · rintro ⟨h, -⟩
        refine ⟨fun _ => h, ?_⟩
        intro blob hmem _ p hp
        exact (hplain blob hmem).trans hp
    | none =>
      obtain ⟨hdone, hsome⟩ := hcompletes.mp rfl
      have htail' : ∀ blob ∈ blobs,
          next.rows.rows blob.1 = some blob.2 ∧ blob.2.vaultID = row.vaultID := by
        intro blob hmem
        rw [honly.rows blob.1 (hne blob hmem)]
        exact htail blob hmem
      have hreads : StillReads decrypt next row.vaultID key out blobs ↔
          StillReads decrypt s row.vaultID key out blobs := by
        refine stillReads_congr ?_
        intro b hb
        obtain ⟨blob, hmem, rfl⟩ := List.mem_map.mp hb
        exact honly.objects _ _ (hne blob hmem)
      have hlater : (compactBlobs row.vaultID key out next (n + 1) blobs).1.plaintext decrypt c
          = next.plaintext decrypt c := plaintext_compactBlobs hc
      simp only [hdone, hsome, hactive, true_imp_iff, hlater]
      rw [← hreads, ← ih hnodup next (n + 1) htail']
      refine and_congr_right fun _ => forall_congr' fun blob => ?_
      refine imp_congr_right fun hmem => ?_
      rw [hplain blob hmem]

/-! ## The whole vault -/

theorem mem_list {blob : BlobID × BlobRow} :
    blob ∈ s.list v ↔ s.rows.rows blob.1 = some blob.2 ∧ blob.2.vaultID = v := by
  obtain ⟨b, row⟩ := blob
  simp only [list, List.mem_filterMap, Table.mem_scan, Option.map_eq_some_iff, Prod.mk.injEq]
  constructor
  · rintro ⟨_, ⟨row', hrow, hv⟩, _, hrow', rfl, rfl⟩
    rw [hrow] at hrow'
    cases hrow'
    exact ⟨hrow, by simpa using hv⟩
  · rintro ⟨hrow, hv⟩
    exact ⟨b, ⟨row, hrow, by simpa using hv⟩, row, hrow, rfl, rfl⟩

theorem nodup_list : ((s.list v).map (·.1)).Nodup := by
  rw [list, List.map_filterMap]
  refine List.Nodup.filterMap ?_ Table.nodup_scan
  intro b b' c hc hc'
  simp only [Option.map_map, Option.mem_def, Option.map_eq_some_iff, Function.comp_apply] at hc hc'
  obtain ⟨_, -, rfl⟩ := hc
  obtain ⟨_, -, hb⟩ := hc'
  exact hb.symm

/-- The vault of the blob, and whether it is soft-deleted. -/
def state (s : Blobs) (b : BlobID) : Option (VaultID × Bool) :=
  (s.rows.rows b).map fun row => (row.vaultID, row.deleted)

theorem streamReEncrypt_state {b : BlobID} :
    (s.streamReEncrypt vaultID blobID newEncKeyEncrypted o).1.state b = s.state b := by
  by_cases hb : b = blobID
  · subst hb
    cases hfound : s.row vaultID b with
    | none =>
      unfold streamReEncrypt
      rw [hfound]
      split <;> rfl
    | some row =>
      obtain ⟨hrow, hv⟩ := (Option.filter_eq_some_iff).mp hfound
      obtain rfl : row.vaultID = vaultID := by simpa using hv
      by_cases hread : o.selectKey ∧ o.download ∧ (s.objects (.blob row.vaultID b)).isSome
      · obtain ⟨content, hcontent⟩ := Option.isSome_iff_exists.mp hread.2.2
        have hafter := (streamReEncrypt_blob hread.1 hread.2.1 hrow hcontent
          newEncKeyEncrypted).1
        unfold state
        rw [hafter, hrow]
        split <;> rfl
      · rw [(streamReEncrypt_unread hread).1]
  · unfold state
    rw [streamReEncrypt_only.rows b hb]

theorem compactBlobs_state {blobs : List (BlobID × BlobRow)} {b : BlobID} :
    ∀ (s : Blobs) (n : Nat), (compactBlobs v key out s n blobs).1.state b = s.state b := by
  induction blobs with
  | nil => intro s n; rfl
  | cons head blobs ih =>
    obtain ⟨c, row⟩ := head
    intro s n
    have hnext : (s.streamReEncrypt v c key (out.blob c)).1.state b = s.state b :=
      streamReEncrypt_state
    rw [compactBlobs]
    split
    · exact ih s n
    · split
      · next next err hcall =>
          rw [hcall] at hnext
          exact hnext
      · next next hcall =>
          rw [hcall] at hnext
          exact (ih next (n + 1)).trans hnext

theorem deleteObjects_ne {blobs : List (BlobID × BlobRow)} {b : BlobID} {v' : VaultID}
    (h : ∀ blob ∈ blobs, blob.2.deleted = true → blob.1 ≠ b) : ∀ objects : Bucket Bytes,
      deleteObjects v out objects blobs (.blob v' b) = objects (.blob v' b) := by
  induction blobs with
  | nil => intro objects; rfl
  | cons head blobs ih =>
    obtain ⟨c, row⟩ := head
    intro objects
    rw [List.forall_mem_cons] at h
    rw [deleteObjects]
    split
    · next hdeleted =>
        rw [ih h.2, Bucket.deleteObject_ne]
        simp [Ne.symm (h.1 hdeleted.1)]
    · exact ih h.2 objects

/-- The soft-deleted blobs go; an active one stays as it is. -/
theorem plaintext_removeDeleted {blobs : List (BlobID × BlobRow)} {b : BlobID}
    (hrow : s.rows.rows b = some row) (hactive : row.deleted = false)
    (hlist : ∀ blob ∈ blobs, blob.2.deleted = true → blob.1 ≠ b) :
    (s.removeDeleted v out blobs).1.plaintext decrypt b = s.plaintext decrypt b := by
  have hkept : (s.rows.deleteWhere fun _ row => row.vaultID = v ∧ row.deleted).rows b = some row := by
    rw [Table.rows_deleteWhere]
    exact ⟨hrow, by simp [hactive]⟩
  have hdeleted : plaintext decrypt { s with
      rows := s.rows.deleteWhere fun _ row => row.vaultID = v ∧ row.deleted } b
        = s.plaintext decrypt b :=
    (plaintext_eq hkept).trans (plaintext_eq hrow).symm
  unfold removeDeleted
  by_cases hdelete : out.deleteRows = true
  · rw [if_pos hdelete]
    dsimp only
    cases hcommit : out.commit with
    | done =>
      simp only [Execution.took_done, if_true, ne_eq, not_true_eq_false, if_false]
      refine (plaintext_eq hkept).trans ?_
      rw [plaintext_eq hrow]
      simp only [deleteObjects_ne hlist]
    | failed => simp
    | unacknowledged => simpa using hdeleted
  · rw [if_neg hdelete]

/-- **Compaction keeps every active blob readable** just when, for each of
them that is replaced, the bytes that were read decrypt under the wrapped
key that its row is left with. -/
theorem compact_readable (s : Blobs) (v : VaultID) (key : Bytes) (out : CompactOutcome) :
    StaysReadable decrypt s (s.compactVault v key out).1 ↔
      (out.query → StillReads decrypt s v key out (s.list v)) := by
  by_cases hquery : out.query = true
  · have hkeeps : (∀ blob ∈ s.list v, blob.2.deleted = false →
        ∀ p, s.plaintext decrypt blob.1 = some p →
          (compactBlobs v key out s 0 (s.list v)).1.plaintext decrypt blob.1 = some p) ↔
        StillReads decrypt s v key out (s.list v) :=
      compactBlobs_keeps nodup_list s 0 fun blob hmem => mem_list.mp hmem
    simp only [hquery, true_imp_iff]
    rw [← hkeeps]
    have hafter : ∀ b row, s.rows.rows b = some row → row.deleted = false →
        (s.compactVault v key out).1.plaintext decrypt b
          = (compactBlobs v key out s 0 (s.list v)).1.plaintext decrypt b := by
      intro b row hrow hactive
      have hstate : (compactBlobs v key out s 0 (s.list v)).1.state b = s.state b :=
        compactBlobs_state s 0
      rw [compactVault, if_pos hquery]
      dsimp only
      generalize compactBlobs v key out s 0 (s.list v) = looped at *
      obtain ⟨next, n, err⟩ := looped
      cases err with
      | some err => rfl
      | none =>
        obtain ⟨row', hrow', -, hactive'⟩ : ∃ row', next.rows.rows b = some row'
            ∧ row'.vaultID = row.vaultID ∧ row'.deleted = row.deleted := by
          simpa [state, hrow] using hstate
        refine plaintext_removeDeleted hrow' (hactive'.trans hactive) ?_
        rintro blob hmem hdeleted rfl
        rw [(mem_list.mp hmem).1] at hrow
        cases hrow
        rw [hdeleted] at hactive
        cases hactive
    constructor
    · intro h blob hmem hactive p hp
      have hrow := (mem_list.mp hmem).1
      rw [← hafter blob.1 blob.2 hrow hactive]
      exact h blob.1 blob.2 hrow hactive p hp
    · intro h b row hrow hactive p hp
      rw [hafter b row hrow hactive]
      by_cases hv : row.vaultID = v
      · exact h (b, row) (mem_list.mpr ⟨hrow, hv⟩) hactive p hp
      · -- a blob of another vault
        rw [plaintext_compactBlobs]
        · exact hp
        · intro hmem
          obtain ⟨blob, hblob, rfl⟩ := List.mem_map.mp hmem
          obtain ⟨hrow', hv'⟩ := mem_list.mp hblob
          rw [Option.mem_def.mp hrow] at hrow'
          cases hrow'
          exact hv hv'
  · refine iff_of_true ?_ fun h => absurd h hquery
    intro b row _ _ p hp
    rw [compactVault, if_neg hquery]
    exact hp

/-- A cipher whose objects begin with the key. -/
def sampleDecrypt (key content : Bytes) : Option Bytes :=
  if key.isPrefixOf content then some (content.drop key.length) else none

/-- One active blob, under the wrapped key `1`. -/
def sampleBlobs : Blobs where
  rows := (Table.empty : Table BlobID BlobRow).put 0 (some ⟨0, 2, false, [1]⟩)
  objects := Bucket.putObject (fun _ => none) (.blob 0 0) [1, 7]

/-- Every effect succeeds. -/
def sampleOutcome : CompactOutcome where
  query := true
  blob := fun _ => ⟨true, true, 2, .done, .done, .done, .done⟩
  deleteRows := true
  commit := .done
  deleteObject := fun _ => .done

/-- The object is what it was, under a row that names another key. -/
theorem compact_unreadable :
    ¬∀ (P : Type) (decrypt : Bytes → Bytes → Option P) s v key out,
      StaysReadable decrypt s (s.compactVault v key out).1 := by
  intro h
  have hread := h Bytes sampleDecrypt sampleBlobs 0 [2] sampleOutcome 0 ⟨0, 2, false, [1]⟩ rfl rfl
    [7] (by decide)
  revert hread
  decide

end Blobs

end UsbVault.Storage
