import UsbVault.Billing.Tiers
import UsbVault.Lib.Calls
import UsbVault.Lib.Table

/-!
# Stripe webhooks

`BillingService.HandleWebhook` after the signature has been verified, and the
handlers of its events (`internal/billing/service.go`), over the tables
`subscriptions`, `users` and `processed_stripe_events`. The deliveries of all
events run side by side, one statement at a time; a statement may fail, its
answer may be lost, and the server may stop in between.

Beside the tables stands their history: which delivery has recorded an event,
how often an event's handler has done all its work, and the subscriptions that
a `deleted` event has cancelled.
-/

namespace UsbVault.Billing

open Members Tables

abbrev EventID := String

abbrev SubID := String

/-- `data.object`, a subscription or an invoice: a field that is missing or of
another type is empty. -/
structure StripeObject where
  id : Option String
  customer : String
  status : String
  metadataTier : Option String
  /-- `items.data[0].price.id` -/
  priceID : Option String
  currentPeriodEnd : ℤ
  deriving DecidableEq, Repr

structure StripeEvent where
  type : String
  object : Option StripeObject
  deriving DecidableEq, Repr

inductive Handler where
  | subscriptionCreated
  | subscriptionUpdated
  | subscriptionDeleted
  | paymentSucceeded
  | paymentFailed
  deriving DecidableEq, Repr

/-- The `switch` of `HandleWebhook`. -/
def handlerOf : String → Option Handler
  | "customer.subscription.created" => some .subscriptionCreated
  | "customer.subscription.updated" => some .subscriptionUpdated
  | "customer.subscription.deleted" => some .subscriptionDeleted
  | "invoice.payment_succeeded" => some .paymentSucceeded
  | "invoice.paid" => some .paymentSucceeded
  | "invoice.payment_failed" => some .paymentFailed
  | _ => none

/-- What a handler works on: its object, and the object's identifier. -/
structure Target where
  handler : Handler
  id : String
  object : StripeObject
  deriving DecidableEq, Repr

/-- None when there is no handler, or the handler returns at once because the
object has no identifier or no customer; such an event counts as applied. -/
def StripeEvent.target (event : StripeEvent) : Option Target := do
  let handler ← handlerOf event.type
  let object ← event.object
  let id ← object.id
  if object.customer = "" then none else some { handler, id, object }

/-! ## The statements -/

/-- The values of the enumeration `subscription_status`, by their text. -/
def parseStatus : String → Option SubscriptionStatus
  | "active" => some .active
  | "past_due" => some .pastDue
  | "cancelled" => some .cancelled
  | _ => none

def parseTier : String → Option Tier
  | "free" => some .free
  | "individual" => some .individual
  | "team" => some .team
  | "enterprise" => some .enterprise
  | _ => none

/-- The configured prices, in the order in which the map is ranged over. -/
def mapPriceToTier (prices : List (Tier × String)) (priceID : String) : Option Tier :=
  if priceID = "" then none
  else (prices.find? fun entry => entry.2 ≠ "" ∧ entry.2 = priceID).map (·.1)

def effectiveUserTier (tier : Tier) (status : String) : Tier :=
  if status = "active" then tier else .free

/-- `handleSubscriptionCreated`: the tier of the metadata, if it is valid. -/
def createdTier (object : StripeObject) : Tier :=
  (object.metadataTier.bind parseTier).getD .individual

/-- `handleSubscriptionUpdated`: the tier of the price, else the current one. -/
def resolvedTier (prices : List (Tier × String)) (object : StripeObject)
    (currentTier : Option Tier) : Tier :=
  ((object.priceID.bind (mapPriceToTier prices)).or currentTier).getD .individual

namespace Database

variable (db : Database)

def updateWhere (where_ : SubscriptionRow → Prop) [DecidablePred where_]
    (set : SubscriptionRow → SubscriptionRow) : Database :=
  { db with subscriptions := db.subscriptions.map fun row => if where_ row then set row else row }

/-- `SELECT user_id FROM subscriptions WHERE stripe_customer_id = $1` -/
def userOf (customerID : String) : Option UserID :=
  (db.subscriptions.find? (·.stripeCustomerID = some customerID)).map (·.userID)

/-- `SELECT tier FROM subscriptions WHERE stripe_subscription_id = $1` -/
def tierOf (subID : SubID) : Option Tier :=
  (db.subscriptions.find? (·.stripeSubscriptionID = some subID)).map (·.tier)

/-- `SELECT tier FROM subscriptions WHERE stripe_customer_id = $1` -/
def tierOfCustomer (customerID : String) : Option Tier :=
  (db.subscriptions.find? (·.stripeCustomerID = some customerID)).map (·.tier)

/-- `UPDATE users SET subscription_tier = $1 WHERE id = $2` -/
def propagateTierToUser (userID : UserID) (tier : Tier) (status : String) : Database :=
  { db with
    users := Function.update db.users userID <|
      (db.users userID).map fun _ => some (effectiveUserTier tier status) }

/-- The `UPDATE subscriptions` of a handler; none when the statement itself is
an error: a status that the enumeration does not have, or a subscription that
another user's row has. -/
def update (t : Target) (userID : UserID) (tier : Tier) (now : ℤ) : Option Database :=
  match t.handler with
  | .subscriptionCreated => do
      let status ← parseStatus t.object.status
      if ∃ row ∈ db.subscriptions, row.stripeSubscriptionID = some t.id ∧ row.userID ≠ userID then
        none
      else
        some <| db.updateWhere (·.userID = userID) fun row =>
          { row with
            stripeSubscriptionID := some t.id
            tier := tier
            status := status
            currentPeriodEnd := t.object.currentPeriodEnd }
  | .subscriptionUpdated => do
      let status ← parseStatus t.object.status
      some <| db.updateWhere (·.stripeSubscriptionID = some t.id) fun row =>
        { row with
          status := status
          tier := tier
          currentPeriodEnd := t.object.currentPeriodEnd }
  | .subscriptionDeleted =>
    some <| db.updateWhere (·.stripeSubscriptionID = some t.id) fun row =>
      { row with status := .cancelled, cancelledAt := some now }
  | .paymentSucceeded =>
    some <| db.updateWhere (fun row => row.userID = userID ∧ row.status = .pastDue) fun row =>
      { row with status := .active }
  | .paymentFailed =>
    some <| db.updateWhere (·.userID = userID) fun row => { row with status := .pastDue }

end Database

/-- The tier and the status that a handler propagates to the user. The payment
handlers propagate nothing. -/
def propagated (t : Target) (tier : Tier) : Option (Tier × String) :=
  match t.handler with
  | .subscriptionCreated => some (tier, t.object.status)
  | .subscriptionUpdated => some (tier, t.object.status)
  | .subscriptionDeleted => some (.free, "cancelled")
  | .paymentSucceeded => none
  | .paymentFailed => none

/-! ## A delivery -/

/-- The next statement of a delivery. -/
inductive Pc where
  | recording
  | lookup (t : Target)
  | reading (t : Target) (userID : UserID)
  | readingCustomer (t : Target) (userID : UserID)
  | updating (t : Target) (userID : UserID) (tier : Tier)
  | propagating (userID : UserID) (tier : Tier) (status : String)
  | responded (status : ℕ)
  | stopped
  deriving DecidableEq, Repr

structure Delivery where
  id : EventID
  pc : Pc
  deriving DecidableEq, Repr

/-- The handler is running. -/
def Pc.Handling : Pc → Prop
  | .recording => False
  | .responded _ => False
  | .stopped => False
  | _ => True

instance (pc : Pc) : Decidable pc.Handling := by
  cases pc <;> unfold Pc.Handling <;> infer_instance

/-- `processed` is the table of recorded events, with the delivery that has
recorded each. -/
structure Store where
  db : Database
  processed : EventID → Option Nat
  applied : EventID → Nat
  cancelled : List SubID

inductive Outcome where
  | statement (e : Execution) (now : ℤ)
  | stop
  deriving DecidableEq, Repr

/-- What has become of the handler after a statement: it goes on, it has done
all its work, or it has returned before. -/
inductive Verdict where
  | goesOn (pc : Pc)
  | applied
  | gaveUp
  deriving DecidableEq, Repr

/-- Where the handler of an event begins. -/
def enter (event : StripeEvent) : Verdict :=
  match event.target with
  | some t => .goesOn (.lookup t)
  | none => .applied

variable (prices : List (Tier × String))

def afterLookup (t : Target) (userID : UserID) : Pc :=
  match t.handler with
  | .subscriptionUpdated => .reading t userID
  | .subscriptionCreated => .updating t userID (createdTier t.object)
  | _ => .updating t userID .free

def afterUpdate (t : Target) (userID : UserID) (tier : Tier) (e : Execution) : Verdict :=
  match propagated t tier with
  | some (tier, status) => if e = .done then .goesOn (.propagating userID tier status) else .gaveUp
  | none => .applied

/-- One statement of a handler. -/
def handle (s : Store) (pc : Pc) (e : Execution) (now : ℤ) : Store × Verdict :=
  match pc with
  | .lookup t =>
    match s.db.userOf t.object.customer with
    | some userID => if e = .done then (s, .goesOn (afterLookup t userID)) else (s, .gaveUp)
    | none => (s, .gaveUp)
  | .reading t userID =>
    match s.db.tierOf t.id with
    | some tier =>
      if e = .done then
        (s, .goesOn (.updating t userID (resolvedTier prices t.object (some tier))))
      else (s, .goesOn (.readingCustomer t userID))
    | none => (s, .goesOn (.readingCustomer t userID))
  | .readingCustomer t userID =>
    let tier := if e = .done then s.db.tierOfCustomer t.object.customer else none
    (s, .goesOn (.updating t userID (resolvedTier prices t.object tier)))
  | .updating t userID tier =>
    match s.db.update t userID tier now with
    | some db =>
      if e.Took then
        ({ s with
            db := db
            cancelled := if t.handler = .subscriptionDeleted then t.id :: s.cancelled
              else s.cancelled }, afterUpdate t userID tier e)
      else (s, .gaveUp)
    | none => (s, .gaveUp)
  | .propagating userID tier status =>
    -- an error is logged
    if e.Took then ({ s with db := s.db.propagateTierToUser userID tier status }, .applied)
    else (s, .gaveUp)
  | _ => (s, .gaveUp)

/-- The response is 200, whatever has become of the handler. -/
def conclude (s : Store) (id : EventID) : Verdict → Store × Delivery
  | .goesOn pc => (s, ⟨id, pc⟩)
  | .applied =>
    ({ s with applied := Function.update s.applied id (s.applied id + 1) }, ⟨id, .responded 200⟩)
  | .gaveUp => (s, ⟨id, .responded 200⟩)

variable (events : EventID → StripeEvent)

/-- `INSERT INTO processed_stripe_events`: a unique violation is a duplicate. -/
def record (k : Nat) (s : Store) (id : EventID) (e : Execution) : Store × Delivery :=
  match s.processed id, e with
  | some _, .done => (s, ⟨id, .responded 200⟩)
  | some _, _ => (s, ⟨id, .responded 500⟩)
  | none, .failed => (s, ⟨id, .responded 500⟩)
  | none, .unacknowledged =>
    ({ s with processed := Function.update s.processed id (some k) }, ⟨id, .responded 500⟩)
  | none, .done =>
    conclude { s with processed := Function.update s.processed id (some k) } id
      (enter (events id))

def exec (k : Nat) (s : Store) (d : Delivery) : Outcome → Store × Delivery
  | .stop => match d.pc with
      | .responded _ => (s, d)
      | _ => (s, ⟨d.id, .stopped⟩)
  | .statement e now => match d.pc with
      | .recording => record events k s d.id e
      | .responded _ => (s, d)
      | .stopped => (s, d)
      | pc =>
        let (s, verdict) := handle prices s pc e now
        conclude s d.id verdict

/-- A delivery of an event, or any other statement on the two tables. -/
inductive Event where
  | deliver (id : EventID)
  | rest (db : Database)

/-- Without an identifier, an event is not recorded. -/
def world (s : Store) : Event → Store × Option Delivery
  | .deliver id =>
    if id = "" then
      let (s, d) := conclude s id (enter (events id))
      (s, some d)
    else (s, some ⟨id, .recording⟩)
  | .rest db => ({ s with db := db }, none)

def webhooks : Calls.Service Store Delivery Event Outcome where
  world := world events
  exec := exec prices events

abbrev State := Calls.State Store Delivery

abbrev Action := Calls.Action Event Outcome

def start (db : Database) : State := ⟨⟨db, fun _ => none, fun _ => 0, []⟩, []⟩

end UsbVault.Billing
