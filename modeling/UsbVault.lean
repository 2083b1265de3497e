import UsbVault.Lib.Wire
import UsbVault.Crypto.Primitives
import UsbVault.Crypto.Kdf
import UsbVault.Vault.Header
import UsbVault.Vault.HeaderFormat
import UsbVault.Vault.HeaderMac
import UsbVault.Lib.Run
import UsbVault.Ffi.HeaderOps
import UsbVault.Vault.Unlock
import UsbVault.Ffi.Maintenance
import UsbVault.Ffi.SelfDestruct
import UsbVault.Ffi.IndexCommit
import UsbVault.Ffi.Forgery
import UsbVault.Crypto.Shamir
import UsbVault.Crypto.StreamingRoundTrip
import UsbVault.Srp.Agreement
import UsbVault.Companion.WriteLock
import UsbVault.Companion.Contract
import UsbVault.App.CrashConsistency
import UsbVault.App.LostUpdate
import UsbVault.App.Locking
import UsbVault.App.CompactionCrash
import UsbVault.App.FailedCall
import UsbVault.App.FailLimit
import UsbVault.App.Identity
import UsbVault.App.Tampering
import UsbVault.Companion.HeaderStore
import UsbVault.Sync.ORSet
import UsbVault.Sync.Replay
import UsbVault.Vault.Index
import UsbVault.Auth.TokenEpoch
import UsbVault.Auth.KeyRotation
import UsbVault.Auth.Login
import UsbVault.Auth.RefreshReuse
import UsbVault.Auth.SessionSteps
import UsbVault.Auth.LoginGuards
import UsbVault.Recovery.SingleUse
import UsbVault.Members.Quota
import UsbVault.Storage.RotationStates
import UsbVault.Storage.CompactReadable
import UsbVault.Storage.Sanctions
import UsbVault.Storage.OrphanSafety
import UsbVault.Passkeys.Challenges
import UsbVault.Passkeys.StepUp
import UsbVault.Passkeys.CredentialSet
import UsbVault.Oidc.Linking
import UsbVault.Auth.EntryPoints
import UsbVault.Storage.DeletedVaults
import UsbVault.Resilience.CircuitBreaker
import UsbVault.Billing.Tiers
import UsbVault.Billing.WebhookSafety
import UsbVault.Storage.PurgeSafety
import UsbVault.Lib.Repack
import UsbVault.App.RecoveryShares
import UsbVault.App.RecoveryCodes
import UsbVault.Lib.Rfc3339
import UsbVault.Audit.Log
import UsbVault.Audit.Verify
import UsbVault.Audit.Completeness
import UsbVault.Audit.Tamper
import UsbVault.Audit.Retention
import UsbVault.Storage.Multipart
import UsbVault.Storage.TenantView
import UsbVault.Storage.TenantIsolation
import UsbVault.Storage.Parts
import UsbVault.Storage.Replicas
import UsbVault.Storage.ReplicaMoves
import UsbVault.Storage.ReplicaParts
import UsbVault.App.ShamirAgreement
import UsbVault.App.RecoverySafety
import UsbVault.App.SrpClient
import UsbVault.App.SrpAgreement
import UsbVault.Lib.Bits
import UsbVault.App.RecoveryPhrase
import UsbVault.App.Steganography
import UsbVault.App.SyncQueue
import UsbVault.App.OfflineQueue
import UsbVault.App.SyncConnection
import UsbVault.App.WebVaultList
import UsbVault.Lib.Base64
import UsbVault.Lib.JsonData
import UsbVault.App.Backup
import UsbVault.App.BackupRestore
import UsbVault.Lib.Digits
import UsbVault.App.SafetyNumber
import UsbVault.App.KeyVerification
import UsbVault.Lib.Keyed
import UsbVault.App.EmergencyAccess
import UsbVault.App.SealedBox
import UsbVault.App.SealedShares
import UsbVault.App.VaultListStore
import UsbVault.App.RateLimiter
import UsbVault.App.LimiterTampering
import UsbVault.App.GroupMessages
import UsbVault.App.GroupExclusion
import UsbVault.App.ShareLinks
import UsbVault.Recovery.Regeneration
import UsbVault.Crypto.ShamirSafety
import UsbVault.Storage.Completeness
import UsbVault.Vault.KeyHierarchy
import UsbVault.Vault.KeyVersions
import UsbVault.Shares.Creation
import UsbVault.Shares.ShareCap
import UsbVault.Resilience.RateLimit
import UsbVault.Storage.ReEncryptStream
import UsbVault.App.BackupIntegrity
import UsbVault.App.PasswordImport
import UsbVault.App.TokenFinality
import UsbVault.Sync.ConflictResolver
import UsbVault.Device.Attestation
import UsbVault.Vault.Tfa
import UsbVault.Vault.AssociatedData
import UsbVault.Crypto.Hybrid
import UsbVault.Crypto.StreamingMalformed
import UsbVault.Members.Pagination
import UsbVault.App.AutoLock
import UsbVault.Lib.Lease
import UsbVault.Gc.LeaderElection
import UsbVault.Migrations.Files
import UsbVault.Migrations.Runners
import UsbVault.Resilience.FallbackLimit
import UsbVault.Auth.KeyAtRest
import UsbVault.Sync.Connections
import UsbVault.App.FileCrypto
