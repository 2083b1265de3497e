import UsbVault.Lib.Bytes
import UsbVault.Lib.Calls
import UsbVault.Lib.Table

/-!
# Creating a share

`HandleCreateShare`, `checkCanCreateShare` and `CreateShare` of
`internal/sharing/service.go` with the statements of
`internal/sharing/repository.go`: calls running side by side over
`share_records`, `blobs` and `vaults`. A call counts the shares of its sender
in one statement and inserts its own in another.

A request is one whose body has passed the handler's checks. Identifiers are
numbers and times are numbers of nanoseconds; the clock of the database does
not go back. The acceptance of a share and the audit log are left out.
-/

namespace UsbVault.Shares

open Wire Tables

abbrev UserID := Nat
abbrev VaultID := Nat
abbrev BlobID := Nat
abbrev ShareID := Nat

/-- `MaxSharesPerVault` -/
def maxSharesPerVault : Nat := 100

/-- `shareDefaultTTL`, 30 days. -/
def shareDefaultTTL : Nat := 30 * 24 * 60 * 60 * 1000000000

/-- `TierLimitsMap[tier].Sharing`; a tier it does not have is the free one. -/
def tierSharing (tier : String) : Bool := tier ∈ ["team", "enterprise"]

structure ShareRecord where
  id : ShareID
  senderID : UserID
  recipientID : UserID
  blobID : BlobID
  encryptedKey : Bytes
  expiresAt : Option Nat
  deriving DecidableEq

/-- `expires_at IS NULL OR expires_at > NOW()` -/
def ShareRecord.active (r : ShareRecord) (now : Nat) : Bool := r.expiresAt.all (now < ·)

structure Vault where
  ownerID : UserID
  deleted : Bool
  deriving DecidableEq

structure Blob where
  vaultID : VaultID
  deleted : Bool
  deriving DecidableEq

structure Store where
  vaults : VaultID → Option Vault
  blobs : BlobID → Option Blob
  shares : List ShareRecord
  now : Nat

def Store.empty : Store := ⟨fun _ => none, fun _ => none, [], 0⟩

/-! ## Statements -/

namespace Store

variable (s : Store)

def blobOwnedBy (userID : UserID) (blobID : BlobID) : Bool :=
  (s.blobs blobID).any fun b =>
    !b.deleted && (s.vaults b.vaultID).any fun v => !v.deleted && v.ownerID = userID

def countActiveSentShares (senderID : UserID) : Nat :=
  s.shares.countP fun r => r.senderID = senderID && r.active s.now

/-- The `INSERT`: its key is new, and its blob is there. -/
def createShare (r : ShareRecord) : Option Store :=
  if (s.blobs r.blobID).isSome ∧ ∀ r' ∈ s.shares, r'.id ≠ r.id then
    some { s with shares := s.shares ++ [r] }
  else none

def createVault (vaultID : VaultID) (ownerID : UserID) : Store :=
  match s.vaults vaultID with
  | some _ => s
  | none => { s with vaults := Function.update s.vaults vaultID (some ⟨ownerID, false⟩) }

def createBlob (blobID : BlobID) (vaultID : VaultID) : Store :=
  match s.blobs blobID with
  | some _ => s
  | none => { s with blobs := Function.update s.blobs blobID (some ⟨vaultID, false⟩) }

def deleteVault (vaultID : VaultID) : Store :=
  { s with
    vaults := Function.update s.vaults vaultID
      ((s.vaults vaultID).map fun v => { v with deleted := true }) }

def deleteBlob (blobID : BlobID) : Store :=
  { s with
    blobs := Function.update s.blobs blobID
      ((s.blobs blobID).map fun b => { b with deleted := true }) }

/-- The row goes, and its shares with it. -/
def purgeBlob (blobID : BlobID) : Store :=
  { s with
    blobs := Function.update s.blobs blobID none
    shares := s.shares.filter fun r => r.blobID ≠ blobID }

def revokeShare (senderID : UserID) (shareID : ShareID) : Store :=
  { s with shares := s.shares.filter fun r => !(r.id = shareID && r.senderID = senderID) }

def rejectShare (recipientID : UserID) (shareID : ShareID) : Store :=
  { s with shares := s.shares.filter fun r => !(r.id = shareID && r.recipientID = recipientID) }

/-- A batch of `CleanupExpiredShares`: the rows picked that have expired. -/
def cleanup (picked : List ShareID) : Store :=
  { s with
    shares := s.shares.filter fun r =>
      !(r.id ∈ picked && r.expiresAt.any fun expiresAt => expiresAt < s.now) }

end Store

/-! ## Calls -/

inductive Event where
  | createVault (vaultID : VaultID) (ownerID : UserID)
  | createBlob (blobID : BlobID) (vaultID : VaultID)
  | deleteVault (vaultID : VaultID)
  | deleteBlob (blobID : BlobID)
  | purgeBlob (blobID : BlobID)
  | revokeShare (senderID : UserID) (shareID : ShareID)
  | rejectShare (recipientID : UserID) (shareID : ShareID)
  | cleanup (picked : List ShareID)
  | elapse (duration : Nat)
  | createShare (senderID recipientID : UserID) (blobID : BlobID) (encryptedKey : Bytes)
  deriving DecidableEq

/-- A status, and a text or the identifier of the share. -/
inductive Answer where
  | error (status : Nat) (text : String)
  | created (shareID : ShareID)
  deriving DecidableEq, Repr

/-- Where a call is. -/
inductive Pc where
  /-- `BlobOwnedBy` in the handler -/
  | verifyBlob
  /-- `CheckAccess` -/
  | resolveTier
  | count
  /-- `BlobOwnedBy` in `CreateShare` -/
  | verifyBlobAgain
  | insert
  | done (answer : Answer)
  deriving DecidableEq, Repr

structure Call where
  senderID : UserID
  recipientID : UserID
  blobID : BlobID
  encryptedKey : Bytes
  pc : Pc
  deriving DecidableEq

def Call.next (c : Call) (pc : Pc) : Call := { c with pc }

/-- How a statement ends, the tier that is resolved, the identifier drawn and
the clock of the process. -/
structure Outcome where
  execution : Execution
  tier : Option String
  shareID : ShareID
  clock : Nat
  deriving DecidableEq

/-- The row that the call inserts. -/
def Call.record (c : Call) (o : Outcome) : ShareRecord :=
  ⟨o.shareID, c.senderID, c.recipientID, c.blobID, c.encryptedKey,
    some (o.clock + shareDefaultTTL)⟩

def createFailed : Answer := .error 500 "failed to create share"

def blobNotOwned : Answer := .error 403 "blob not found or access denied"

def sharingNotAllowed : Answer :=
  .error 403 "sharing is not available on your subscription tier; upgrade required"

def shareLimitReached : Answer :=
  .error 402 "share limit reached for your subscription tier; upgrade required"

/-- The two checks that the blob is the sender's. -/
def Call.verified (s : Store) (c : Call) (o : Outcome) (pc : Pc) : Call :=
  if o.execution ≠ .done then c.next (.done createFailed)
  else if s.blobOwnedBy c.senderID c.blobID then c.next pc
  else c.next (.done blobNotOwned)

/-- One statement. Without a billing checker nothing is counted. -/
def Call.exec (billing : Bool) (s : Store) (c : Call) (o : Outcome) : Store × Call :=
  match c.pc with
  | .verifyBlob => (s, c.verified s o (if billing then .resolveTier else .verifyBlobAgain))
  | .resolveTier =>
    -- a lookup that fails is the free tier
    (s, c.next (if tierSharing (o.tier.getD "free") then .count else .done sharingNotAllowed))
  | .count =>
    (s, c.next (
      if o.execution ≠ .done ∨ maxSharesPerVault ≤ s.countActiveSentShares c.senderID then
        .done shareLimitReached
      else .verifyBlobAgain))
  | .verifyBlobAgain => (s, c.verified s o .insert)
  | .insert =>
    if o.execution = .failed then (s, c.next (.done createFailed))
    else
      match s.createShare (c.record o) with
      | none => (s, c.next (.done createFailed))
      | some s' =>
        (s', c.next (.done
          (if o.execution = .done then .created o.shareID else createFailed)))
  | .done _ => (s, c)

abbrev State := Calls.State Store Call
abbrev Action := Calls.Action Event Outcome

def Store.world (s : Store) : Event → Store × Option Call
  | .createVault vaultID ownerID => (s.createVault vaultID ownerID, none)
  | .createBlob blobID vaultID => (s.createBlob blobID vaultID, none)
  | .deleteVault vaultID => (s.deleteVault vaultID, none)
  | .deleteBlob blobID => (s.deleteBlob blobID, none)
  | .purgeBlob blobID => (s.purgeBlob blobID, none)
  | .revokeShare senderID shareID => (s.revokeShare senderID shareID, none)
  | .rejectShare recipientID shareID => (s.rejectShare recipientID shareID, none)
  | .cleanup picked => (s.cleanup picked, none)
  | .elapse duration => ({ s with now := s.now + duration }, none)
  | .createShare senderID recipientID blobID encryptedKey =>
    (s, some ⟨senderID, recipientID, blobID, encryptedKey, .verifyBlob⟩)

def service (billing : Bool) : Calls.Service Store Call Event Outcome where
  world s e := s.world e
  exec _ s c o := c.exec billing s o

def start : State := ⟨.empty, []⟩

end UsbVault.Shares
