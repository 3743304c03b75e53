import Kinglet.Js.Json
import Kinglet.Js.Time

/-!
# The tables of Pub/Sub

A message is stored once, for its topic, with a delivery record for each subscription. Identifiers
come from one counter, so that a later one is a larger one; a date is the instant it denotes, and
its text in the tables is `toISOString` of that.
-/

namespace Kinglet.Pubsub

open Js

/-! ## Records -/

structure Topic where
  id : ℕ
  name : JsString
  deriving DecidableEq

/-- Messages are dead-lettered from `maxDeliveryAttempts` attempts on. -/
structure DeadLetterPolicy where
  deadLetterTopic : Option JsString
  maxDeliveryAttempts : Option ℤ
  deriving DecidableEq

/-- Durations that nothing has checked. -/
structure RetryPolicy where
  minimumBackoff : Option JsString
  maximumBackoff : Option JsString
  deriving DecidableEq

structure Subscription where
  id : ℕ
  name : JsString
  topic : JsString
  pushEndpoint : Option JsString
  ackDeadlineSeconds : ℤ
  deadLetterPolicy : Option DeadLetterPolicy
  retryPolicy : Option RetryPolicy
  detached : Bool
  deriving DecidableEq

structure PublishMessageInput where
  data : Option JsString
  attributes : Option JsValue
  orderingKey : Option JsString

/-- A message; its attributes are a JSON text. -/
structure Message where
  messageId : ℕ
  topicName : JsString
  data : Option JsString
  attributes : Option JsString
  orderingKey : Option JsString
  publishTime : ℤ
  deriving DecidableEq

inductive AckStatus
  | pending
  | acked
  deriving DecidableEq

/-- A `DeliveredMessageRecord`. -/
structure Delivery where
  id : ℕ
  ackId : ℕ
  subscriptionName : JsString
  messageId : ℕ
  deliveryAttempt : ℕ
  ackDeadline : ℤ
  ackStatus : AckStatus
  deriving DecidableEq

/-- A text that counts as true. -/
def given (text : Option JsString) : Option JsString := text.filter (· ≠ [])

/-! ## Tables -/

structure Db where
  topics : List Topic
  subscriptions : List Subscription
  messages : List Message
  deliveries : List Delivery
  nextId : ℕ

/-- `deadline <= now` between the texts of two dates. -/
def expired (deadline now : ℤ) : Bool := decide (toISOString deadline ≤ toISOString now)

namespace Db

variable (db : Db)

def empty : Db := ⟨[], [], [], [], 0⟩

/-- `getTopicByName(name)`. -/
def getTopicByName (name : JsString) : Option Topic := db.topics.find? fun topic => topic.name = name

/-- `getSubscriptionByName(name)`. -/
def getSubscriptionByName (name : JsString) : Option Subscription :=
  db.subscriptions.find? fun sub => sub.name = name

/-- `findActiveSubscriptionsForTopic(topicName)`. -/
def findActiveSubscriptionsForTopic (topicName : JsString) : List Subscription :=
  (db.subscriptions.filter fun sub => decide (sub.topic = topicName) && !sub.detached).insertionSort
    fun a b => a.name ≤ b.name

/-- `findPushSubscriptions()`. -/
def findPushSubscriptions : List Subscription :=
  db.subscriptions.filter fun sub => !sub.detached && (given sub.pushEndpoint).isSome

/-- The message of a delivery record. -/
def findMessage (messageId : ℕ) : Option Message :=
  db.messages.find? fun message => message.messageId = messageId

/-- The records of a subscription that are pending and past their deadline, up to a limit. -/
def findDeliverable (subscriptionName : JsString) (limit : ℕ) (now : ℤ) : List Delivery :=
  (db.deliveries.filter fun row =>
    decide (row.subscriptionName = subscriptionName) && decide (row.ackStatus = .pending) &&
      expired row.ackDeadline now).take limit

def createMessage (topicName : JsString) (input : PublishMessageInput) (now : ℤ) : Db :=
  { db with
    messages := db.messages ++
      [⟨db.nextId, topicName, input.data, input.attributes.bind jsonStringify, input.orderingKey, now⟩]
    nextId := db.nextId + 1 }

def createDelivery (subscriptionName : JsString) (messageId : ℕ) : Db :=
  { db with
    deliveries := db.deliveries ++
      [⟨db.nextId + 1, db.nextId, subscriptionName, messageId, 0, 0, .pending⟩]
    nextId := db.nextId + 2 }

/-- `updateMany` of the delivery records; `updateById` where the condition is on the id. -/
def updateDeliveries (condition : Delivery → Bool) (update : Delivery → Delivery) : Db :=
  { db with deliveries := db.deliveries.map fun row => if condition row then update row else row }

/-- `deleteMany` of the delivery records. -/
def deleteDeliveries (condition : Delivery → Bool) : Db :=
  { db with deliveries := db.deliveries.filter fun row => !condition row }

end Db

/-- What `acknowledgeMessages` and `modifyAckDeadline` look for. -/
def Delivery.isAck (subscriptionName : JsString) (ackId : ℕ) (row : Delivery) : Bool :=
  decide (row.ackId = ackId) && decide (row.subscriptionName = subscriptionName)

/-- `new Date(now + seconds * 1000)` for a whole number of seconds, `none` when its `toISOString`
throws. -/
def deadlineAfter (now seconds : ℤ) : Option ℤ :=
  let time := now + seconds * 1000
  if -8640000000000000 ≤ time ∧ time ≤ 8640000000000000 then some time else none

/-! ## Well-formed tables -/

/-- Identifiers and subscription names are unique, and identifiers were taken from the counter. -/
structure Db.WellFormed (db : Db) : Prop where
  ids : (db.deliveries.map Delivery.id).Nodup
  ackIds : (db.deliveries.map Delivery.ackId).Nodup
  below : ∀ row ∈ db.deliveries, row.id < db.nextId ∧ row.ackId < db.nextId
  names : (db.subscriptions.map Subscription.name).Nodup

instance (db : Db) : Decidable db.WellFormed :=
  decidable_of_iff
    ((db.deliveries.map Delivery.id).Nodup ∧ (db.deliveries.map Delivery.ackId).Nodup ∧
      (∀ row ∈ db.deliveries, row.id < db.nextId ∧ row.ackId < db.nextId) ∧
      (db.subscriptions.map Subscription.name).Nodup)
    ⟨fun ⟨h₁, h₂, h₃, h₄⟩ => ⟨h₁, h₂, h₃, h₄⟩, fun ⟨h₁, h₂, h₃, h₄⟩ => ⟨h₁, h₂, h₃, h₄⟩⟩

/-- What the later tables have of the earlier ones: the subscriptions, and every delivery record
under its id. -/
structure Db.Grows (db db' : Db) : Prop where
  subscriptions : db'.subscriptions = db.subscriptions
  nextId : db.nextId ≤ db'.nextId
  kept : ∀ row ∈ db.deliveries, ∃ row' ∈ db'.deliveries,
    row'.id = row.id ∧ row'.subscriptionName = row.subscriptionName
  origin : ∀ row' ∈ db'.deliveries, db.nextId ≤ row'.id ∨ ∃ row ∈ db.deliveries,
    row.id = row'.id ∧ row.subscriptionName = row'.subscriptionName

variable {db db' db'' : Db}

theorem filter_eq_singleton {α : Type*} {p : α → Bool} {l : List α} (hnodup : l.Nodup) {x : α}
    (hx : x ∈ l) (hp : ∀ y ∈ l, p y = true ↔ y = x) : l.filter p = [x] := by
  induction l with
  | nil => exact absurd hx List.not_mem_nil
  | cons y l ih =>
      obtain ⟨hy, hl⟩ := List.nodup_cons.1 hnodup
      rcases List.mem_cons.1 hx with rfl | hx
      · have hrest : l.filter p = [] := List.filter_eq_nil_iff.2 fun z hz hpz => by
          obtain rfl := (hp z (List.mem_cons_of_mem _ hz)).1 hpz
          exact hy hz
        rw [List.filter_cons_of_pos ((hp x List.mem_cons_self).2 rfl), hrest]
      · have hne : p y ≠ true := fun hpy => by
          obtain rfl := (hp y List.mem_cons_self).1 hpy
          exact hy hx
        rw [List.filter_cons_of_neg hne]
        exact ih hl hx fun z hz => hp z (List.mem_cons_of_mem _ hz)

/-! ## What a search finds -/

theorem mem_findDeliverable {row : Delivery} {subscriptionName : JsString} {limit : ℕ} {now : ℤ}
    (h : row ∈ db.findDeliverable subscriptionName limit now) :
    row ∈ db.deliveries ∧ row.subscriptionName = subscriptionName ∧ row.ackStatus = .pending ∧
      expired row.ackDeadline now = true := by
  obtain ⟨hmem, hfound⟩ := List.mem_filter.1 (List.mem_of_mem_take h)
  simp only [Bool.and_eq_true, decide_eq_true_eq] at hfound
  exact ⟨hmem, hfound.1.1, hfound.1.2, hfound.2⟩

theorem findDeliverable_sublist (db : Db) (subscriptionName : JsString) (limit : ℕ) (now : ℤ) :
    (db.findDeliverable subscriptionName limit now).Sublist db.deliveries :=
  (List.take_sublist ..).trans List.filter_sublist

namespace Db

theorem WellFormed.eq_of_id (h : db.WellFormed) {row other : Delivery} (hrow : row ∈ db.deliveries)
    (hother : other ∈ db.deliveries) (hid : row.id = other.id) : row = other :=
  List.inj_on_of_nodup_map h.ids hrow hother hid

theorem WellFormed.filter_isAck (h : db.WellFormed) {row : Delivery} (hrow : row ∈ db.deliveries) :
    db.deliveries.filter (Delivery.isAck row.subscriptionName row.ackId) = [row] := by
  refine filter_eq_singleton (List.Nodup.of_map _ h.ids) hrow fun other hother => ?_
  simp only [Delivery.isAck, Bool.and_eq_true, decide_eq_true_eq]
  constructor
  · exact fun hack => List.inj_on_of_nodup_map h.ackIds hother hrow hack.1
  · rintro rfl
    exact ⟨rfl, rfl⟩

theorem WellFormed.find_id (h : db.WellFormed) {row : Delivery} (hrow : row ∈ db.deliveries) :
    (db.deliveries.find? fun other => other.id = row.id) = some row := by
  have hfilter : (db.deliveries.filter fun other => other.id = row.id) = [row] :=
    filter_eq_singleton (List.Nodup.of_map _ h.ids) hrow fun other hother =>
      ⟨fun hid => h.eq_of_id hother hrow (of_decide_eq_true hid), by rintro rfl; simp⟩
  rw [← List.head?_filter, hfilter]
  rfl

namespace Grows

theorem refl (db : Db) : db.Grows db :=
  ⟨rfl, le_rfl, fun row hrow => ⟨row, hrow, rfl, rfl⟩, fun row hrow => .inr ⟨row, hrow, rfl, rfl⟩⟩

theorem trans (h : db.Grows db') (h' : db'.Grows db'') : db.Grows db'' where
  subscriptions := h'.subscriptions.trans h.subscriptions
  nextId := h.nextId.trans h'.nextId
  kept := by
    intro row hrow
    obtain ⟨row', hrow', hid, hname⟩ := h.kept row hrow
    obtain ⟨row'', hrow'', hid', hname'⟩ := h'.kept row' hrow'
    exact ⟨row'', hrow'', hid'.trans hid, hname'.trans hname⟩
  origin := by
    intro row'' hrow''
    rcases h'.origin row'' hrow'' with hnew | ⟨row', hrow', hid', hname'⟩
    · exact .inl (h.nextId.trans hnew)
    · rcases h.origin row' hrow' with hnew | ⟨row, hrow, hid, hname⟩
      · exact .inl (hid' ▸ hnew)
      · exact .inr ⟨row, hrow, hid.trans hid', hname.trans hname'⟩

end Grows

/-! ## What a write keeps -/

variable {condition : Delivery → Bool} {update : Delivery → Delivery}

/-- An update that leaves the identity of a record alone. -/
def KeepsIdentity (update : Delivery → Delivery) : Prop :=
  ∀ row, (update row).id = row.id ∧ (update row).ackId = row.ackId ∧
    (update row).subscriptionName = row.subscriptionName ∧ (update row).messageId = row.messageId

theorem map_updateDeliveries {β : Type*} {f : Delivery → β} (hf : ∀ row, f (update row) = f row) :
    (db.updateDeliveries condition update).deliveries.map f = db.deliveries.map f := by
  simp only [updateDeliveries, List.map_map]
  refine List.map_congr_left fun row _ => ?_
  simp only [Function.comp_apply]
  split
  · exact hf row
  · rfl

theorem mem_updateDeliveries {row : Delivery} :
    row ∈ (db.updateDeliveries condition update).deliveries ↔
      ∃ old ∈ db.deliveries, (if condition old then update old else old) = row := by
  simp [updateDeliveries]

theorem WellFormed.updateDeliveries (h : db.WellFormed) (hkeeps : KeepsIdentity update) :
    (db.updateDeliveries condition update).WellFormed where
  ids := by
    rw [map_updateDeliveries fun row => (hkeeps row).1]
    exact h.ids
  ackIds := by
    rw [map_updateDeliveries fun row => (hkeeps row).2.1]
    exact h.ackIds
  below := by
    intro row hrow
    obtain ⟨old, hold, rfl⟩ := mem_updateDeliveries.1 hrow
    split
    · rw [(hkeeps old).1, (hkeeps old).2.1]
      exact h.below old hold
    · exact h.below old hold
  names := h.names

theorem Grows.updateDeliveries (hkeeps : KeepsIdentity update) :
    db.Grows (db.updateDeliveries condition update) where
  subscriptions := rfl
  nextId := le_rfl
  kept := by
    intro row hrow
    refine ⟨_, mem_updateDeliveries.2 ⟨row, hrow, rfl⟩, ?_⟩
    split
    · exact ⟨(hkeeps row).1, (hkeeps row).2.2.1⟩
    · exact ⟨rfl, rfl⟩
  origin := by
    intro row hrow
    obtain ⟨old, hold, rfl⟩ := mem_updateDeliveries.1 hrow
    refine .inr ⟨old, hold, ?_⟩
    split
    · exact ⟨(hkeeps old).1.symm, (hkeeps old).2.2.1.symm⟩
    · exact ⟨rfl, rfl⟩

theorem WellFormed.createMessage (h : db.WellFormed) (topicName : JsString)
    (input : PublishMessageInput) (now : ℤ) : (db.createMessage topicName input now).WellFormed :=
  ⟨h.ids, h.ackIds, fun row hrow => by
    obtain ⟨hid, hack⟩ := h.below row hrow
    exact ⟨Nat.lt_succ_of_lt hid, Nat.lt_succ_of_lt hack⟩, h.names⟩

theorem Grows.createMessage (topicName : JsString) (input : PublishMessageInput) (now : ℤ) :
    db.Grows (db.createMessage topicName input now) :=
  ⟨rfl, Nat.le_succ _, (refl db).kept, (refl db).origin⟩

theorem WellFormed.createDelivery (h : db.WellFormed) (subscriptionName : JsString)
    (messageId : ℕ) : (db.createDelivery subscriptionName messageId).WellFormed where
  ids := by
    simp only [Db.createDelivery, List.map_append, List.map_cons, List.map_nil]
    refine List.nodup_append'.2 ⟨h.ids, List.nodup_singleton _, ?_⟩
    rintro id hid hnew
    obtain rfl := List.mem_singleton.1 hnew
    obtain ⟨row, hrow, hid⟩ := List.mem_map.1 hid
    have hbelow := (h.below row hrow).1
    omega
  ackIds := by
    simp only [Db.createDelivery, List.map_append, List.map_cons, List.map_nil]
    refine List.nodup_append'.2 ⟨h.ackIds, List.nodup_singleton _, ?_⟩
    rintro id hid hnew
    obtain rfl := List.mem_singleton.1 hnew
    obtain ⟨row, hrow, hid⟩ := List.mem_map.1 hid
    have hbelow := (h.below row hrow).2
    omega
  below := by
    intro row hrow
    simp only [Db.createDelivery] at hrow ⊢
    rcases List.mem_append.1 hrow with hrow | hrow
    · obtain ⟨hid, hack⟩ := h.below row hrow
      omega
    · obtain rfl := List.mem_singleton.1 hrow
      exact ⟨Nat.lt_succ_self _, by simp⟩
  names := h.names

theorem Grows.createDelivery (subscriptionName : JsString) (messageId : ℕ) :
    db.Grows (db.createDelivery subscriptionName messageId) where
  subscriptions := rfl
  nextId := Nat.le_add_right _ 2
  kept := fun row hrow => ⟨row, List.mem_append_left _ hrow, rfl, rfl⟩
  origin := by
    intro row hrow
    rcases List.mem_append.1 hrow with hrow | hrow
    · exact .inr ⟨row, hrow, rfl, rfl⟩
    · obtain rfl := List.mem_singleton.1 hrow
      exact .inl (Nat.le_succ _)

end Db

end Kinglet.Pubsub
