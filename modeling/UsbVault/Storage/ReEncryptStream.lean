import UsbVault.Lib.Pipe
import UsbVault.Storage.CompactReadable

/-!
# The stream of a re-encryption

Inside `StreamReEncrypt` (`internal/vault/compact.go`) a goroutine reads the
body of `GetObject` and writes into a pipe what it reads, and `PutObject`
reads the pipe. The goroutine closes the pipe in the same way whether the
body has ended or a `Read` has failed, so `PutObject` takes the bytes before
the failure for the whole of the object.

`streamReEncrypt` of `UsbVault.Storage.Compact` has the number of bytes that
`PutObject` received among its outcomes; here it comes from the body, and
from the turns that the goroutine and `PutObject` take.
-/

namespace UsbVault.Storage

open Tables

/-! ## The body -/

/-- `io.EOF`, or another error. -/
inductive ReadErr where
  | eof
  | failed
  deriving DecidableEq, Repr

/-- What one `Read` returns, `buf[:n]` and the error. -/
structure ReadResult where
  data : Bytes
  err : Option ReadErr
  deriving DecidableEq, Repr

/-- What the goroutine writes into the pipe before it closes it. -/
def writtenChunks : List ReadResult → List Bytes
  | [] => []
  | r :: results =>
    let written := if r.data.length > 0 then [r.data] else []
    match r.err with
    | some .failed => written -- logged only
    | some .eof => written
    | none => written ++ writtenChunks results

/-- The bytes of the body up to its first error. -/
def delivered (results : List ReadResult) : Bytes := (writtenChunks results).flatten

/-- The first error is not the end. -/
def readFails : List ReadResult → Bool
  | [] => false
  | r :: results =>
    match r.err with
    | some .failed => true
    | some .eof => false
    | none => readFails results

/-- A body of this content may return these results: its bytes in their order,
the end after the last of them, and any other error after any of them. A body
that neither ends nor fails keeps `PutObject` waiting. -/
def serves : Bytes → List ReadResult → Bool
  | _, [] => false
  | content, r :: results =>
    r.data.isPrefixOf content &&
      match r.err with
      | some .failed => true
      | some .eof => r.data = content
      | none => serves (content.drop r.data.length) results

theorem delivered_cons (r : ReadResult) (results : List ReadResult) :
    delivered (r :: results)
      = r.data ++ if r.err = none then delivered results else [] := by
  obtain ⟨data, err⟩ := r
  have hwritten : (if data.length > 0 then [data] else []).flatten = data := by
    cases data <;> simp
  cases err with
  | none => simp [delivered, writtenChunks, hwritten]
  | some err => cases err <;> simp [delivered, writtenChunks, hwritten]

theorem delivered_of_ends {results : List ReadResult} :
    ∀ {content : Bytes}, serves content results → readFails results = false →
      delivered results = content := by
  induction results with
  | nil => intro content h; cases h
  | cons r results ih =>
    intro content h hends
    obtain ⟨data, err⟩ := r
    rw [serves, Bool.and_eq_true, List.isPrefixOf_iff_prefix] at h
    obtain ⟨⟨rest, rfl⟩, h⟩ := h
    rw [delivered_cons]
    cases err with
    | none =>
      rw [List.drop_left] at h
      rw [if_pos rfl, ih h hends]
    | some err =>
      cases err with
      | failed => cases hends
      | eof =>
        have hrest : data = data ++ rest := by simpa using h
        simpa using hrest

theorem delivered_isPrefix {results : List ReadResult} :
    ∀ {content : Bytes}, serves content results → delivered results <+: content := by
  induction results with
  | nil => intro content h; cases h
  | cons r results ih =>
    intro content h
    obtain ⟨data, err⟩ := r
    rw [serves, Bool.and_eq_true, List.isPrefixOf_iff_prefix] at h
    obtain ⟨⟨rest, rfl⟩, h⟩ := h
    rw [delivered_cons]
    cases err with
    | none =>
      rw [List.drop_left] at h
      rw [if_pos rfl, List.prefix_append_right_inj]
      exact ih h
    | some err => simp

/-! ## The pipe -/

/-- The pipe after the turns of the goroutine and of `PutObject`. -/
def transfer (results : List ReadResult) (turns : List Pipe.Act) : Pipe.State UInt8 :=
  Pipe.run (Pipe.start (writtenChunks results)) turns

theorem take_received {content : Bytes} {results : List ReadResult} (h : serves content results)
    (turns : List Pipe.Act) :
    content.take (transfer results turns).received.length = (transfer results turns).received := by
  have hreceived : (transfer results turns).received <+: content :=
    (Pipe.received_isPrefix _ turns).trans (delivered_isPrefix h)
  exact (List.prefix_iff_eq_take.mp hreceived).symm

namespace Blobs

/-- `StreamReEncrypt` from the results of `Read`. -/
def streamReEncryptFrom (s : Blobs) (vaultID : VaultID) (blobID : BlobID)
    (newEncKeyEncrypted : Bytes) (results : List ReadResult) (turns : List Pipe.Act)
    (o : ReEncryptOutcome) : Blobs × Option CompactErr :=
  s.streamReEncrypt vaultID blobID newEncKeyEncrypted
    { o with read := (transfer results turns).received.length }

/-- Without an error the object is there with its whole content, and it is
as it was when a `Read` has failed. -/
structure Untruncated (s : Blobs) (vaultID : VaultID) (blobID : BlobID)
    (results : List ReadResult) (after : Blobs × Option CompactErr) : Prop where
  complete : after.2 = none → (s.objects (.blob vaultID blobID)).isSome
    ∧ after.1.objects (.blob vaultID blobID) = s.objects (.blob vaultID blobID)
  kept : readFails results →
    after.1.objects (.blob vaultID blobID) = s.objects (.blob vaultID blobID)

variable {s : Blobs} {vaultID : VaultID} {blobID : BlobID} {newEncKeyEncrypted content : Bytes}
  {results : List ReadResult} {turns : List Pipe.Act} {o : ReEncryptOutcome} {row : BlobRow}

theorem streamReEncrypt_notFound (h : s.row vaultID blobID = none) :
    (s.streamReEncrypt vaultID blobID newEncKeyEncrypted o).1 = s
      ∧ (s.streamReEncrypt vaultID blobID newEncKeyEncrypted o).2 ≠ none := by
  unfold streamReEncrypt
  split
  · exact ⟨rfl, by simp⟩
  · rw [h]
    exact ⟨rfl, by simp⟩

theorem untruncated_of_unread {after : Blobs × Option CompactErr}
    (h : after.1 = s ∧ after.2 ≠ none) : Untruncated s vaultID blobID results after where
  complete := fun hnone => absurd hnone h.2
  kept := fun _ => by rw [h.1]

theorem row_eq_some (h : s.row vaultID blobID = some row) :
    s.rows.rows blobID = some row ∧ row.vaultID = vaultID := by
  simpa [Blobs.row, Option.filter_eq_some_iff] using h

theorem streamReEncryptFrom_object (hselect : o.selectKey) (hdownload : o.download)
    (hrow : s.row vaultID blobID = some row)
    (hcontent : s.objects (.blob vaultID blobID) = some content)
    (hserves : serves content results)
    (hupload : o.upload = .done → (transfer results turns).ended) (newEncKeyEncrypted : Bytes) :
    (s.streamReEncryptFrom vaultID blobID newEncKeyEncrypted results turns o).1.objects
        (.blob vaultID blobID)
      = some (if o.Swaps then delivered results else content) := by
  obtain ⟨hfound, rfl⟩ := row_eq_some hrow
  have hblob := (streamReEncrypt_blob (o := { o with
    read := (transfer results turns).received.length }) hselect hdownload hfound hcontent
    newEncKeyEncrypted).2
  rw [take_received hserves] at hblob
  rw [streamReEncryptFrom, hblob]
  refine congrArg some ?_
  by_cases hswaps : o.Swaps
  · rw [if_pos hswaps, delivered, ← Pipe.received_of_ended (hupload hswaps.1)]
    exact if_pos hswaps
  · rw [if_neg hswaps]
    exact if_neg hswaps

/-- **`StreamReEncrypt` does not truncate** just when `Read` delivers every
byte of the object before its first error, or the object is not replaced.
The body returns what it may, and `PutObject` succeeds only after the end of
the pipe. -/
theorem streamReEncrypt_untruncated_iff (s : Blobs) (vaultID : VaultID) (blobID : BlobID)
    (newEncKeyEncrypted : Bytes) (results : List ReadResult) (turns : List Pipe.Act)
    (o : ReEncryptOutcome)
    (hserves : ∀ content, s.objects (.blob vaultID blobID) = some content →
      serves content results)
    (hupload : o.upload = .done → (transfer results turns).ended) :
    Untruncated s vaultID blobID results
        (s.streamReEncryptFrom vaultID blobID newEncKeyEncrypted results turns o)
      ↔ s.objects (.blob vaultID blobID) = some (delivered results)
        ∨ ¬(o.selectKey ∧ (s.row vaultID blobID).isSome ∧ o.download
          ∧ (s.objects (.blob vaultID blobID)).isSome ∧ o.Swaps) := by
  by_cases hread : o.selectKey ∧ o.download ∧ (s.objects (.blob vaultID blobID)).isSome
  swap
  · refine iff_of_true (untruncated_of_unread (streamReEncrypt_unread hread)) (.inr ?_)
    rintro ⟨hselect, -, hdownload, hsome, -⟩
    exact hread ⟨hselect, hdownload, hsome⟩
  cases hrow : s.row vaultID blobID with
  | none => exact iff_of_true (untruncated_of_unread (streamReEncrypt_notFound hrow)) (by simp)
  | some row =>
    obtain ⟨hselect, hdownload, hsome⟩ := hread
    obtain ⟨content, hcontent⟩ := Option.isSome_iff_exists.mp hsome
    have hserves := hserves content hcontent
    have hobject := streamReEncryptFrom_object hselect hdownload hrow hcontent hserves hupload
      newEncKeyEncrypted
    by_cases hswaps : o.Swaps
    · rw [if_pos hswaps] at hobject
      have hcond : ¬¬(o.selectKey = true ∧ (some row).isSome = true ∧ o.download = true
          ∧ (s.objects (.blob vaultID blobID)).isSome = true ∧ o.Swaps) :=
        not_not_intro ⟨hselect, rfl, hdownload, hsome, hswaps⟩
      rw [or_iff_left hcond]
      constructor
      · intro h
        cases hfails : readFails results with
        | false => rw [delivered_of_ends hserves hfails, hcontent]
        | true => rw [← h.kept hfails, hobject]
      · intro h
        have hkept := hobject.trans h.symm
        exact ⟨fun _ => ⟨hsome, hkept⟩, fun _ => hkept⟩
    · rw [if_neg hswaps] at hobject
      have hkept := hobject.trans hcontent.symm
      refine iff_of_true ⟨fun _ => ⟨hsome, hkept⟩, fun _ => hkept⟩ (.inr ?_)
      rintro ⟨-, -, -, -, h⟩
      exact hswaps h

/-- Every effect succeeds. -/
def sampleReEncrypt : ReEncryptOutcome := ⟨true, true, 0, .done, .done, .done, .done⟩

/-- Two bytes by two reads, the second with the end. -/
theorem streamReEncrypt_untruncated_sample :
    Untruncated sampleBlobs 0 0 [⟨[1], none⟩, ⟨[7], some .eof⟩]
      (sampleBlobs.streamReEncryptFrom 0 0 [2] [⟨[1], none⟩, ⟨[7], some .eof⟩]
        [.write, .read 512, .read 512, .write, .read 512, .close, .read 512] sampleReEncrypt) := by
  refine (streamReEncrypt_untruncated_iff _ _ _ _ _ _ _ ?_ ?_).mpr (.inl (by decide))
  · intro content hcontent
    have heq : content = [1, 7] := Option.some.inj (hcontent.symm.trans (by decide))
    rw [heq]
    decide
  · decide

/-- The read after the first byte fails. -/
def brokenReads : List ReadResult := [⟨[1], none⟩, ⟨[], some .failed⟩]

/-- `PutObject` reads until it sees the end. -/
def brokenTurns : List Pipe.Act := [.write, .read 512, .close, .read 512]

/-- **The second byte is lost**: `PutObject` sees the end of the pipe and
succeeds, the first byte replaces the object, and there is no error. -/
theorem streamReEncrypt_truncates :
    sampleBlobs.objects (.blob 0 0) = some [1, 7]
      ∧ serves [1, 7] brokenReads ∧ (transfer brokenReads brokenTurns).ended
      ∧ (sampleBlobs.streamReEncryptFrom 0 0 [2] brokenReads brokenTurns sampleReEncrypt).2 = none
      ∧ (sampleBlobs.streamReEncryptFrom 0 0 [2] brokenReads brokenTurns
          sampleReEncrypt).1.objects (.blob 0 0) = some [1]
      ∧ ¬Untruncated sampleBlobs 0 0 brokenReads
          (sampleBlobs.streamReEncryptFrom 0 0 [2] brokenReads brokenTurns sampleReEncrypt) := by
  refine ⟨by decide, by decide, by decide, by decide,
    by decide, ?_⟩
  intro h
  exact absurd (h.kept (by decide)) (by decide)

end Blobs

end UsbVault.Storage
