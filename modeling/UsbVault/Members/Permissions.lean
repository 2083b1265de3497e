import UsbVault.Members.Roles

/-!
# Permissions

`rolePermissions` and `CheckPermission` (`internal/auth/rbac.go`), and the
middleware that asks them before a vault's handler
(`internal/middleware/rbac.go`). What is looked at is the membership; the
vault's own row is not.
-/

namespace UsbVault.Members

inductive Permission where
  | create
  | read
  | update
  | delete
  | share
  | manageMembers
  deriving DecidableEq, Repr

def rolePermissions : Role → List Permission
  | .owner => [.create, .read, .update, .delete, .share, .manageMembers]
  | .editor => [.read, .update, .share]
  | .viewer => [.read]

def checkPermission (role : Option Role) (perm : Permission) : Bool :=
  role.any fun r => perm ∈ rolePermissions r

/-- The status and the text of a refused request. -/
abbrev Refusal := Nat × String

/-- `RequireVaultPermission`: the role that `GetUserRole` finds, unless its
query fails. -/
def requireVaultPermission (queried : Bool) (role : Option Role) (perm : Permission) :
    Except Refusal Unit :=
  if queried then
    if checkPermission role perm then .ok () else .error (403, "forbidden")
  else .error (500, "internal error")

/-- `VaultOwnerOnly`. -/
def vaultOwnerOnly (queried : Bool) (role : Option Role) : Except Refusal Unit :=
  requireVaultPermission queried role .manageMembers

theorem requireVaultPermission_ok {queried : Bool} {role : Option Role} {perm : Permission} :
    requireVaultPermission queried role perm = .ok () ↔
      queried = true ∧ checkPermission role perm = true := by
  unfold requireVaultPermission
  cases queried <;> cases checkPermission role perm <;> simp

theorem checkPermission_manageMembers {role : Option Role} :
    checkPermission role .manageMembers = true ↔ role = some .owner := by
  cases role with
  | none => simp [checkPermission]
  | some r => cases r <;> decide

end UsbVault.Members
