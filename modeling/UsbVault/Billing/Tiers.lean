import Mathlib.Data.Prod.Lex
import UsbVault.Members.Roles

/-!
# The two tier resolvers

`BillingService.GetSubscription` and `CheckAccess`
(`internal/billing/service.go`), on which the storage, multipart and sharing
limits rest, and `TierLimiter.ResolveTier`
(`internal/vault/tier_enforcement.go`), on which the limits on vaults do, over
the tables `subscriptions` and `users`.

`GetSubscription` reads the end of the period, a timestamp, into a Go string.
What the driver makes of that is a parameter.
-/

namespace UsbVault.Billing

open Members

/-- The enumeration `subscription_status`. -/
inductive SubscriptionStatus where
  | active
  | pastDue
  | cancelled
  deriving DecidableEq, Repr

structure SubscriptionRow where
  userID : UserID
  stripeCustomerID : Option String
  stripeSubscriptionID : Option String
  tier : Tier
  status : SubscriptionStatus
  currentPeriodEnd : ℤ
  cancelledAt : Option ℤ
  deriving DecidableEq, Repr

/-- Rows of equal rank come in the order of the list, which may be any. -/
structure Database where
  subscriptions : List SubscriptionRow
  /-- `users.subscription_tier`, a nullable column, if there is a row. -/
  users : UserID → Option (Option Tier)

structure Subscription where
  subscriptionID : String
  userID : UserID
  tier : Tier
  status : SubscriptionStatus
  currentPeriod : String
  cancelledAt : Option ℤ
  deriving DecidableEq, Repr

/-- `tier::text` -/
def tierText : Tier → String
  | .free => "free"
  | .individual => "individual"
  | .team => "team"
  | .enterprise => "enterprise"

def isValidTier (tier : String) : Bool := tier ∈ ["free", "individual", "team", "enterprise"]

/-- The keys of `TierLimitsMap`. -/
def isKnownTier (tier : String) : Bool := tier ∈ ["free", "individual", "team", "enterprise"]

@[simp] theorem isValidTier_text (tier : Tier) : isValidTier (tierText tier) := by
  cases tier <;> decide

@[simp] theorem isKnownTier_text (tier : Tier) : isKnownTier (tierText tier) := by
  cases tier <;> decide

theorem tierRank_injective : Function.Injective tierRank := by
  intro a b h
  cases a <;> cases b <;> first | rfl | cases h

namespace Database

variable (db : Database) (userID : UserID)

/-- `WHERE user_id = $1` -/
def rows : List SubscriptionRow := db.subscriptions.filter (·.userID = userID)

/-- `COALESCE(subscription_tier::text, 'free')`, if there is a row. -/
def userTier : Option Tier := (db.users userID).map fun tier => tier.getD .free

/-- `ORDER BY (status = 'active') DESC, CASE tier::text … END DESC` -/
def order (row : SubscriptionRow) : Bool ×ₗ ℕ :=
  toLex (decide (row.status = .active), tierRank row.tier)

def firstSubscription : Option SubscriptionRow := (db.rows userID).argmax order

/-- The tier that the override grants. -/
def override : Tier := (db.userTier userID).getD .free

end Database

/-! ## Billing -/

inductive AccessError where
  | subscriptionInactive
  deriving DecidableEq, Repr

/-- No row, or a row that cannot be scanned. -/
def defaultSubscription (userID : UserID) (currentPeriod : String) : Subscription :=
  { subscriptionID := "", userID, tier := .free, status := .active, currentPeriod,
    cancelledAt := none }

/-- What the driver makes of a timestamp that is read into a string, and the
text of a year from now. -/
structure Driver where
  periodText : ℤ → Option String
  nextYear : String

variable (driver : Driver)

/-- A NULL is not scanned into a string. -/
def SubscriptionRow.scan (row : SubscriptionRow) : Option Subscription := do
  let subscriptionID ← row.stripeSubscriptionID
  let currentPeriod ← driver.periodText row.currentPeriodEnd
  some
    { subscriptionID, userID := row.userID, tier := row.tier, status := row.status, currentPeriod,
      cancelledAt := row.cancelledAt }

namespace Database

variable (db : Database) (userID : UserID)

def getSubscription : Subscription :=
  ((db.firstSubscription userID).bind (·.scan driver)).getD
    (defaultSubscription userID driver.nextYear)

def checkAccess : Except AccessError Tier :=
  let sub := db.getSubscription driver userID
  if sub.status ≠ .active then .error .subscriptionInactive
  else if sub.tier = .free then
    match db.userTier userID with
    | some userTier =>
      if userTier ≠ .free ∧ isValidTier (tierText userTier) then .ok userTier else .ok sub.tier
    | none => .ok sub.tier
  else .ok sub.tier

/-- The tier a decision of `CheckAccess` rests on. For a refusal it is what
`refused` says: no tier, or the free tier, which its callers use. -/
def accessTier (refused : Option Tier) : Option Tier :=
  match db.checkAccess driver userID with
  | .ok tier => some tier
  | .error _ => refused

/-! ## Quotas -/

/-- `WHERE user_id = $1 AND status = 'active' ORDER BY CASE … END DESC LIMIT 1` -/
def subTier : Option Tier :=
  (((db.rows userID).filter (·.status = .active)).map (·.tier)).argmax tierRank

def resolveTier : Tier :=
  match (db.subTier userID).filter fun tier => isKnownTier (tierText tier) with
  | some subTier => subTier
  | none =>
    match db.userTier userID with
    | some userTier =>
      if userTier ≠ .free ∧ isKnownTier (tierText userTier) then userTier else .free
    | none => .free

/-- The accounts whose quotas are enforced. -/
def accounts : Accounts where
  active userID := ((db.rows userID).filter (·.status = .active)).map (·.tier)
  override := db.userTier

/-! ## What each of them computes -/

/-- The active subscription of the highest tier is the first one, if that one
is active. -/
theorem subTier_eq :
    db.subTier userID =
      ((db.firstSubscription userID).filter (·.status = .active)).map (·.tier) := by
  rw [subTier]
  cases hfirst : db.firstSubscription userID with
  | none =>
    rw [firstSubscription, List.argmax_eq_none] at hfirst
    rw [hfirst]
    rfl
  | some row =>
    have hmem : row ∈ db.rows userID := List.argmax_mem hfirst
    have hmax : ∀ other ∈ db.rows userID, order other ≤ order row :=
      fun other hother => List.le_of_mem_argmax hother hfirst
    by_cases hactive : row.status = .active
    · rw [Option.filter_some, if_pos (by simpa using hactive), Option.map_some]
      have hin : row.tier ∈ ((db.rows userID).filter (·.status = .active)).map (·.tier) :=
        List.mem_map_of_mem (List.mem_filter.mpr ⟨hmem, by simpa using hactive⟩)
      cases htier : (((db.rows userID).filter (·.status = .active)).map (·.tier)).argmax tierRank with
      | none =>
        rw [List.argmax_eq_none.mp htier] at hin
        cases hin
      | some tier =>
        have hge : tierRank row.tier ≤ tierRank tier := List.le_of_mem_argmax hin htier
        obtain ⟨other, hother, rfl⟩ := List.mem_map.mp (List.argmax_mem htier)
        obtain ⟨hrows, hother⟩ := List.mem_filter.mp hother
        have hle := hmax other hrows
        simp only [order, of_decide_eq_true hother, hactive, Prod.Lex.toLex_le_toLex] at hle
        have hle : tierRank other.tier ≤ tierRank row.tier := by simpa using hle
        rw [tierRank_injective (le_antisymm hle hge)]
    · have hnone : (db.rows userID).filter (·.status = .active) = [] := by
        rw [List.filter_eq_nil_iff]
        intro other hother hact
        have hle := hmax other hother
        simp only [order, of_decide_eq_true hact, hactive, Prod.Lex.toLex_le_toLex] at hle
        have hle : true < false := by simpa using hle
        exact absurd hle (by decide)
      rw [hnone, Option.filter_some, if_neg (by simpa using hactive)]
      rfl

/-- `ResolveTier` is the tier of the accounts that the quotas are about. -/
theorem resolveTier_eq_accounts : db.resolveTier userID = db.accounts.tier userID := by
  have hknown : ((db.subTier userID).filter fun tier => isKnownTier (tierText tier))
      = db.subTier userID := by
    cases db.subTier userID <;> simp
  rw [resolveTier, hknown, Accounts.tier]
  show _ = (db.subTier userID).getD (db.override userID)
  cases db.subTier userID with
  | some tier => rfl
  | none =>
    rw [override]
    cases db.userTier userID with
    | none => rfl
    | some tier =>
      by_cases hfree : tier = .free
      · simp [hfree]
      · simp [hfree]

theorem checkAccess_eq :
    db.checkAccess driver userID =
      if (db.getSubscription driver userID).status ≠ .active then .error .subscriptionInactive
      else if (db.getSubscription driver userID).tier = .free then .ok (db.override userID)
      else .ok (db.getSubscription driver userID).tier := by
  simp only [checkAccess]
  split
  · rfl
  · split
    · next hfree =>
      rw [override]
      cases db.userTier userID with
      | none => rw [hfree]; rfl
      | some tier =>
        by_cases htier : tier = .free
        · simp [htier, hfree]
        · simp [htier]
    · rfl

/-! ## Agreement -/

/-- The condition for the resolvers to agree on a user. -/
def Agree (ifRefused : Prop) : Prop :=
  match db.firstSubscription userID with
  | none => True
  | some row =>
    if row.status = .active then
      (row.scan driver).isSome ∧ row.tier ≠ .free ∨ db.override userID = row.tier
    else row.scan driver = none ∨ ifRefused

end Database

theorem SubscriptionRow.scan_fields {row : SubscriptionRow} {sub : Subscription}
    (h : row.scan driver = some sub) : sub.tier = row.tier ∧ sub.status = row.status := by
  rw [SubscriptionRow.scan] at h
  simp only [Option.bind_eq_bind, Option.bind_eq_some_iff, Option.some.injEq] at h
  obtain ⟨subscriptionID, -, currentPeriod, -, rfl⟩ := h
  exact ⟨rfl, rfl⟩

namespace Database

variable {db : Database} {driver : Driver} {userID : UserID}

theorem checkAccess_default (h : (db.firstSubscription userID).bind (·.scan driver) = none) :
    db.checkAccess driver userID = .ok (db.override userID) := by
  rw [checkAccess_eq, getSubscription, h]
  rfl

theorem checkAccess_row {row : SubscriptionRow} {sub : Subscription}
    (h : db.firstSubscription userID = some row) (hscan : row.scan driver = some sub) :
    db.checkAccess driver userID =
      if row.status ≠ .active then .error .subscriptionInactive
      else if row.tier = .free then .ok (db.override userID)
      else .ok row.tier := by
  obtain ⟨htier, hstatus⟩ := row.scan_fields driver hscan
  rw [checkAccess_eq, getSubscription, h, Option.bind_some, hscan, Option.getD_some, htier, hstatus]

theorem resolveTier_eq (db : Database) (userID : UserID) :
    db.resolveTier userID =
      (((db.firstSubscription userID).filter (·.status = .active)).map (·.tier)).getD
        (db.override userID) := by
  rw [resolveTier_eq_accounts, Accounts.tier, ← subTier_eq]
  rfl

theorem resolveTier_active {row : SubscriptionRow} (h : db.firstSubscription userID = some row)
    (hactive : row.status = .active) : db.resolveTier userID = row.tier := by
  rw [resolveTier_eq, h, Option.filter_some, if_pos (by simpa using hactive)]
  rfl

theorem resolveTier_inactive {row : SubscriptionRow} (h : db.firstSubscription userID = some row)
    (hactive : row.status ≠ .active) : db.resolveTier userID = db.override userID := by
  rw [resolveTier_eq, h, Option.filter_some, if_neg (by simpa using hactive)]
  rfl

/-- **The resolvers agree** on a user in exactly these cases. -/
theorem resolvers_agree_iff (db : Database) (driver : Driver) (userID : UserID)
    (refused : Option Tier) :
    db.accessTier driver userID refused = some (db.resolveTier userID)
      ↔ db.Agree driver userID (refused = some (db.override userID)) := by
  rw [Agree, accessTier]
  cases hfirst : db.firstSubscription userID with
  | none =>
    rw [checkAccess_default (by rw [hfirst]; rfl), resolveTier_eq, hfirst]
    simp
  | some row =>
    cases hscan : row.scan driver with
    | none =>
      rw [checkAccess_default (by rw [hfirst]; exact hscan)]
      by_cases hactive : row.status = .active
      · rw [resolveTier_active hfirst hactive]
        simp [hactive, hscan]
      · rw [resolveTier_inactive hfirst hactive]
        simp [hactive, hscan]
    | some sub =>
      rw [checkAccess_row hfirst hscan]
      by_cases hactive : row.status = .active
      · rw [resolveTier_active hfirst hactive]
        by_cases hfree : row.tier = .free
        · simp [hactive, hscan, hfree]
        · simp [hactive, hscan, hfree]
      · rw [resolveTier_inactive hfirst hactive]
        simp [hactive, hscan]

/-- The row that `CreateCustomer` makes, of a user with a granted tier. -/
def granted : Database where
  subscriptions := [⟨"ada", some "local_cust_ada", none, .free, .active, 4891363200, none⟩]
  users _ := some (some .team)

/-- Billing goes by the grant, the quotas by the free subscription. -/
theorem granted_disagree :
    granted.resolveTier "ada" = .free
      ∧ ∀ driver refused, granted.accessTier driver "ada" refused = some .team :=
  ⟨rfl, fun _ _ => rfl⟩

end Database

end UsbVault.Billing
