import Kinglet.Library.Interleaving
import Kinglet.Pubsub.Store

/-!
# Interleaved requests

The requests on topics, subscriptions and messages, each split at the awaits of its storage
operations. A segment is one storage operation with the code up to the next one; its input is the
time. `unique` says whether the provider enforces the unique column `name`, which only SQLite does.
-/

namespace Kinglet.Pubsub

open Js Library

/-! ## Publishing -/

/-- What `publishMessages` was called with, and the time it began. -/
structure Publication where
  topicName : JsString
  subscriptionNames : List JsString
  publishTime : ℤ

/-- `publishMessages` at one of its awaits: what it creates next is a message or a delivery record
of the last message. -/
inductive Publishing
  | message (messageIds : List ℕ) (inputs : List PublishMessageInput)
  | row (messageIds : List ℕ) (messageId : ℕ) (name : JsString) (names : List JsString)
      (inputs : List PublishMessageInput)

/-- The rest of the fan-out of a message. -/
def Publishing.next (messageIds : List ℕ) (messageId : ℕ) (inputs : List PublishMessageInput) :
    List JsString → Publishing
  | [] => .message messageIds inputs
  | name :: names => .row messageIds messageId name names inputs

def Publication.segment (publication : Publication) (db : Db) :
    Publishing → Db × Progress Publishing (List ℕ)
  | .message messageIds [] => (db, .finished messageIds)
  | .message messageIds (input :: inputs) =>
      (db.createMessage publication.topicName input publication.publishTime,
        .pending (.next (messageIds ++ [db.nextId]) db.nextId inputs publication.subscriptionNames))
  | .row messageIds messageId name names inputs =>
      (db.createDelivery name messageId, .pending (.next messageIds messageId inputs names))

/-! ## Pulling -/

/-- A message as `pullMessages` returns it: the record as it was found, with its message. -/
structure Received where
  row : Delivery
  message : Message
  deriving DecidableEq

/-- `pullMessages` at one of its awaits. -/
inductive Pulling
  | find (subscriptionName : JsString) (maxMessages : ℕ) (ackDeadlineSeconds : ℤ)
  | message (ackDeadlineSeconds now : ℤ) (results : List Received) (rows : List Delivery)
  | update (ackDeadlineSeconds now : ℤ) (results : List Received) (received : Received)
      (newDeadline : ℤ) (rows : List Delivery)

/-- A segment of `pullMessages`, which returns `none` when a date does not exist. -/
def Pulling.segment (db : Db) (time : ℤ) : Pulling → Db × Progress Pulling (Option (List Received))
  | .find name maxMessages seconds =>
      (db, .pending (.message seconds time [] (db.findDeliverable name maxMessages time)))
  | .message _ _ results [] => (db, .finished (some results))
  | .message seconds now results (row :: rows) =>
      match db.findMessage row.messageId with
      | none => (db, .pending (.message seconds now results rows))
      | some found =>
          match deadlineAfter now seconds with
          | none => (db, .finished none)
          | some newDeadline =>
              (db, .pending (.update seconds now results ⟨row, found⟩ newDeadline rows))
  | .update seconds now results received newDeadline rows =>
      (db.updateDeliveries (fun row => row.id = received.row.id) fun row =>
          { row with
            ackDeadline := newDeadline
            deliveryAttempt := received.row.deliveryAttempt + 1 },
        .pending (.message seconds now (results ++ [received]) rows))

/-! ## Requests -/

/-- What a subscription is created with; the schema has checked the ack deadline. -/
structure SubscriptionSettings where
  name : JsString
  topic : JsString
  pushEndpoint : Option JsString
  ackDeadlineSeconds : ℤ
  checked : 10 ≤ ackDeadlineSeconds ∧ ackDeadlineSeconds ≤ 600
  deadLetterPolicy : Option DeadLetterPolicy
  retryPolicy : Option RetryPolicy

def SubscriptionSettings.record (settings : SubscriptionSettings) (id : ℕ) : Subscription where
  id := id
  name := settings.name
  topic := settings.topic
  pushEndpoint := settings.pushEndpoint
  ackDeadlineSeconds := settings.ackDeadlineSeconds
  deadLetterPolicy := settings.deadLetterPolicy
  retryPolicy := settings.retryPolicy
  detached := false

inductive Request
  | createTopic (name : JsString)
  | deleteTopic (name : JsString)
  | createSubscription (settings : SubscriptionSettings)
  | detachSubscription (name : JsString)
  | deleteSubscription (name : JsString)
  | publish (topicName : JsString) (inputs : List PublishMessageInput)
  | pull (name : JsString) (maxMessages : ℕ)
  | acknowledge (name : JsString) (ackIds : List ℕ)
  | modifyAckDeadline (name : JsString) (ackIds : List ℕ) (ackDeadlineSeconds : ℤ)

/-- A call, by its next segment. A publish keeps the value of the counter with which it started. -/
inductive Call
  | createTopic (name : JsString)
  | insertTopic (name : JsString)
  | deleteTopic (name : JsString)
  | removeTopic (name : JsString) (id : ℕ)
  | findTopicMessages (name : JsString)
  | removeTopicRows (name : JsString) (messageIds : List ℕ)
  | createSubscription (settings : SubscriptionSettings)
  | checkSubscription (settings : SubscriptionSettings)
  | insertSubscription (settings : SubscriptionSettings)
  | detachSubscription (name : JsString)
  | findDetached (name : JsString)
  | setDetached (name : JsString) (id : ℕ)
  | deleteSubscription (name : JsString)
  | removeSubscription (name : JsString) (id : ℕ)
  | removeSubscriptionRows (name : JsString)
  | publish (topicName : JsString) (inputs : List PublishMessageInput)
  | publishFind (since : ℕ) (topicName : JsString) (inputs : List PublishMessageInput)
  | publishing (since : ℕ) (publication : Publication) (stage : Publishing)
  | pull (name : JsString) (maxMessages : ℕ)
  | pulling (stage : Pulling)
  | acknowledge (name : JsString) (ackIds : List ℕ)
  | acknowledging (name : JsString) (ackIds : List ℕ)
  | modify (name : JsString) (ackIds : List ℕ) (ackDeadlineSeconds : ℤ)
  | modifying (name : JsString) (newDeadline : ℤ) (ackIds : List ℕ)

inductive Outcome
  | invalidArgument
  | notFound (name : JsString)
  | alreadyExists (name : JsString)
  | failedPrecondition (name : JsString)
  | internal
  | created (name : JsString)
  | deleted (name : JsString)
  | detached (name : JsString)
  | published (topicName : JsString) (since : ℕ) (messageIds : List ℕ)
  | pulled (received : List Received)
  | acknowledged
  | modified
  deriving DecidableEq

def Request.begin : Request → Call
  | .createTopic name => .createTopic name
  | .deleteTopic name => .deleteTopic name
  | .createSubscription settings => .createSubscription settings
  | .detachSubscription name => .detachSubscription name
  | .deleteSubscription name => .deleteSubscription name
  | .publish topicName inputs => .publish topicName inputs
  | .pull name maxMessages => .pull name maxMessages
  | .acknowledge name ackIds => .acknowledge name ackIds
  | .modifyAckDeadline name ackIds seconds => .modify name ackIds seconds

namespace Db

variable (db : Db)

/-- `create` of a record, `none` when the provider refuses the name. -/
def createTopic (unique : Bool) (name : JsString) : Option Db :=
  if unique && (db.getTopicByName name).isSome then none
  else some { db with topics := db.topics ++ [⟨db.nextId, name⟩], nextId := db.nextId + 1 }

def createSubscription (unique : Bool) (settings : SubscriptionSettings) : Option Db :=
  if unique && (db.getSubscriptionByName settings.name).isSome then none
  else some { db with
    subscriptions := db.subscriptions ++ [settings.record db.nextId]
    nextId := db.nextId + 1 }

end Db

/-! ## Segments -/

/-- Requests on topics. -/
def topicSegment (unique : Bool) (db : Db) : Call → Db × Progress Call Outcome
  | .createTopic name =>
      match db.getTopicByName name with
      | some _ => (db, .finished (.alreadyExists name))
      | none => (db, .pending (.insertTopic name))
  | .insertTopic name =>
      match db.createTopic unique name with
      | some db => (db, .finished (.created name))
      | none => (db, .finished .internal)
  | .deleteTopic name =>
      match db.getTopicByName name with
      | none => (db, .finished (.notFound name))
      | some topic => (db, .pending (.removeTopic name topic.id))
  | .removeTopic name id =>
      if db.topics.any fun topic => topic.id = id then
        ({ db with topics := db.topics.filter fun topic => topic.id ≠ id },
          .pending (.findTopicMessages name))
      else (db, .finished (.notFound name))
  | .findTopicMessages name =>
      (db, .pending (.removeTopicRows name
        ((db.messages.filter fun message => message.topicName = name).map Message.messageId)))
  | .removeTopicRows name [] =>
      ({ db with messages := db.messages.filter fun message => message.topicName ≠ name },
        .finished (.deleted name))
  | .removeTopicRows name (messageId :: messageIds) =>
      (db.deleteDeliveries fun row => row.messageId = messageId,
        .pending (.removeTopicRows name messageIds))
  | call => (db, .pending call)

/-- Requests on subscriptions. -/
def subscriptionSegment (unique : Bool) (db : Db) : Call → Db × Progress Call Outcome
  | .createSubscription settings =>
      match db.getTopicByName settings.topic with
      | none => (db, .finished (.notFound settings.topic))
      | some _ => (db, .pending (.checkSubscription settings))
  | .checkSubscription settings =>
      match db.getSubscriptionByName settings.name with
      | some _ => (db, .finished (.alreadyExists settings.name))
      | none => (db, .pending (.insertSubscription settings))
  | .insertSubscription settings =>
      match db.createSubscription unique settings with
      | some db => (db, .finished (.created settings.name))
      | none => (db, .finished .internal)
  | .detachSubscription name =>
      match db.getSubscriptionByName name with
      | none => (db, .finished (.notFound name))
      | some _ => (db, .pending (.findDetached name))
  | .findDetached name =>
      match db.getSubscriptionByName name with
      | none => (db, .finished (.detached name))
      | some sub => (db, .pending (.setDetached name sub.id))
  | .setDetached name id =>
      ({ db with subscriptions := db.subscriptions.map fun sub =>
          if sub.id = id then { sub with detached := true } else sub },
        .finished (.detached name))
  | .deleteSubscription name =>
      match db.getSubscriptionByName name with
      | none => (db, .finished (.notFound name))
      | some sub => (db, .pending (.removeSubscription name sub.id))
  | .removeSubscription name id =>
      if db.subscriptions.any fun sub => sub.id = id then
        ({ db with subscriptions := db.subscriptions.filter fun sub => sub.id ≠ id },
          .pending (.removeSubscriptionRows name))
      else (db, .finished (.notFound name))
  | .removeSubscriptionRows name =>
      (db.deleteDeliveries fun row => row.subscriptionName = name, .finished (.deleted name))
  | call => (db, .pending call)

/-- Requests on messages. -/
def messageSegment (db : Db) (time : ℤ) : Call → Db × Progress Call Outcome
  | .publish _ [] => (db, .finished .invalidArgument)
  | .publish topicName inputs =>
      match db.getTopicByName topicName with
      | none => (db, .finished (.notFound topicName))
      | some _ => (db, .pending (.publishFind db.nextId topicName inputs))
  | .publishFind since topicName inputs =>
      let names := (db.findActiveSubscriptionsForTopic topicName).map Subscription.name
      (db, .pending (.publishing since ⟨topicName, names, time⟩ (.message [] inputs)))
  | .publishing since publication stage =>
      match publication.segment db stage with
      | (db, .finished messageIds) =>
          (db, .finished (.published publication.topicName since messageIds))
      | (db, .pending stage) | (db, .forked stage _) =>
          (db, .pending (.publishing since publication stage))
  | .pull name maxMessages =>
      match db.getSubscriptionByName name with
      | none => (db, .finished (.notFound name))
      | some sub =>
          if sub.detached then (db, .finished (.failedPrecondition name))
          else (db, .pending (.pulling (.find name maxMessages sub.ackDeadlineSeconds)))
  | .pulling stage =>
      match stage.segment db time with
      | (db, .finished (some received)) => (db, .finished (.pulled received))
      | (db, .finished none) => (db, .finished .internal)
      | (db, .pending stage) | (db, .forked stage _) => (db, .pending (.pulling stage))
  | .acknowledge name ackIds =>
      match db.getSubscriptionByName name with
      | none => (db, .finished (.notFound name))
      | some _ => (db, .pending (.acknowledging name ackIds))
  | .acknowledging _ [] => (db, .finished .acknowledged)
  | .acknowledging name (ackId :: ackIds) =>
      (db.updateDeliveries (Delivery.isAck name ackId) fun row => { row with ackStatus := .acked },
        .pending (.acknowledging name ackIds))
  | .modify name ackIds seconds =>
      match db.getSubscriptionByName name with
      | none => (db, .finished (.notFound name))
      | some _ =>
          match deadlineAfter time seconds with
          | none => (db, .finished .internal)
          | some newDeadline => (db, .pending (.modifying name newDeadline ackIds))
  | .modifying _ _ [] => (db, .finished .modified)
  | .modifying name newDeadline (ackId :: ackIds) =>
      (db.updateDeliveries (Delivery.isAck name ackId) fun row =>
          { row with ackDeadline := newDeadline },
        .pending (.modifying name newDeadline ackIds))
  | call => (db, .pending call)

def segment (unique : Bool) (db : Db) (call : Call) (time : ℤ) : Db × Progress Call Outcome :=
  match call with
  | .createTopic _ | .insertTopic _ | .deleteTopic _ | .removeTopic _ _ | .findTopicMessages _
  | .removeTopicRows _ _ => topicSegment unique db call
  | .createSubscription _ | .checkSubscription _ | .insertSubscription _ | .detachSubscription _
  | .findDetached _ | .setDetached _ _ | .deleteSubscription _ | .removeSubscription _ _
  | .removeSubscriptionRows _ => subscriptionSegment unique db call
  | _ => messageSegment db time call

/-- The requests of the Pub/Sub services. -/
def service (unique : Bool) : Async Db Request Call ℤ Outcome := ⟨Request.begin, segment unique⟩

/-! ## What a segment writes -/

/-- The deadline that the next segment of a call writes. -/
def Call.newDeadline? : Call → Option ℤ
  | .pulling (.update _ _ _ _ newDeadline _) | .modifying _ newDeadline _ => some newDeadline
  | _ => none

/-- The write of a segment. -/
inductive Effect (db : Db) : Call → Db → Prop
  | none (call : Call) : Effect db call db
  | insertTopic {name : JsString} : Effect db (.insertTopic name)
      { db with topics := db.topics ++ [⟨db.nextId, name⟩], nextId := db.nextId + 1 }
  | removeTopic {name : JsString} {id : ℕ} : Effect db (.removeTopic name id)
      { db with topics := db.topics.filter fun topic => topic.id ≠ id }
  | removeRows {name : JsString} {messageId : ℕ} {messageIds : List ℕ} :
      Effect db (.removeTopicRows name (messageId :: messageIds))
        (db.deleteDeliveries fun row => row.messageId = messageId)
  | removeMessages {name : JsString} : Effect db (.removeTopicRows name [])
      { db with messages := db.messages.filter fun message => message.topicName ≠ name }
  | insertSubscription {settings : SubscriptionSettings} :
      Effect db (.insertSubscription settings) { db with
        subscriptions := db.subscriptions ++ [settings.record db.nextId]
        nextId := db.nextId + 1 }
  | detach {name : JsString} {id : ℕ} : Effect db (.setDetached name id)
      { db with subscriptions := db.subscriptions.map fun sub =>
          if sub.id = id then { sub with detached := true } else sub }
  | removeSubscription {name : JsString} {id : ℕ} : Effect db (.removeSubscription name id)
      { db with subscriptions := db.subscriptions.filter fun sub => sub.id ≠ id }
  | removeSubscriptionRows {name : JsString} : Effect db (.removeSubscriptionRows name)
      (db.deleteDeliveries fun row => row.subscriptionName = name)
  | message {since : ℕ} {publication : Publication} {messageIds : List ℕ}
      {input : PublishMessageInput} {inputs : List PublishMessageInput} :
      Effect db (.publishing since publication (.message messageIds (input :: inputs)))
        (db.createMessage publication.topicName input publication.publishTime)
  | row {since : ℕ} {publication : Publication} {messageIds : List ℕ} {messageId : ℕ}
      {name : JsString} {names : List JsString} {inputs : List PublishMessageInput} :
      Effect db (.publishing since publication (.row messageIds messageId name names inputs))
        (db.createDelivery name messageId)
  | update {call : Call} {condition : Delivery → Bool} {update : Delivery → Delivery}
      (hkeeps : Db.KeepsIdentity update)
      (hdeadline : ∀ row, (update row).ackDeadline = row.ackDeadline ∨
        (update row).ackDeadline ∈ call.newDeadline?) :
      Effect db call (db.updateDeliveries condition update)

theorem topicSegment_effect (unique : Bool) (db : Db) (call : Call) :
    Effect db call (topicSegment unique db call).1 := by
  unfold topicSegment
  split
  · split <;> exact .none _
  · unfold Db.createTopic
    split
    · rename_i hcreated
      split at hcreated
      · cases hcreated
      · obtain rfl := Option.some.inj hcreated
        exact .insertTopic
    · exact .none _
  · split <;> exact .none _
  · split
    · exact .removeTopic
    · exact .none _
  · exact .none _
  · exact .removeMessages
  · exact .removeRows
  · exact .none _

theorem subscriptionSegment_effect (unique : Bool) (db : Db) (call : Call) :
    Effect db call (subscriptionSegment unique db call).1 := by
  unfold subscriptionSegment
  split
  · split <;> exact .none _
  · split <;> exact .none _
  · unfold Db.createSubscription
    split
    · rename_i hcreated
      split at hcreated
      · cases hcreated
      · obtain rfl := Option.some.inj hcreated
        exact .insertSubscription
    · exact .none _
  · split <;> exact .none _
  · split <;> exact .none _
  · exact .detach
  · split <;> exact .none _
  · split
    · exact .removeSubscription
    · exact .none _
  · exact .removeSubscriptionRows
  · exact .none _

theorem publishing_effect (db : Db) (since : ℕ) (publication : Publication) (stage : Publishing) :
    Effect db (.publishing since publication stage) (publication.segment db stage).1 := by
  match stage with
  | .message _ [] => exact .none _
  | .message _ (_ :: _) => exact .message
  | .row _ _ _ _ _ => exact .row

theorem pulling_effect (db : Db) (time : ℤ) (stage : Pulling) :
    Effect db (.pulling stage) (stage.segment db time).1 := by
  match stage with
  | .find _ _ _ | .message _ _ _ [] => exact .none _
  | .message seconds now results (row :: rows) =>
    simp only [Pulling.segment]
    split
    · exact .none _
    · split <;> exact .none _
  | .update _ _ _ _ _ _ => exact .update (fun _ => ⟨rfl, rfl, rfl, rfl⟩) fun _ => .inr rfl

theorem messageSegment_effect (db : Db) (time : ℤ) (call : Call) :
    Effect db call (messageSegment db time call).1 := by
  unfold messageSegment
  split
  · exact .none _
  · split <;> exact .none _
  · exact .none _
  · rename_i since publication stage
    have heffect := publishing_effect db since publication stage
    split <;> (rename_i heq; rw [heq] at heffect; exact heffect)
  · split
    · exact .none _
    · split <;> exact .none _
  · rename_i stage
    have heffect := pulling_effect db time stage
    split <;> (rename_i heq; rw [heq] at heffect; exact heffect)
  · split <;> exact .none _
  · exact .none _
  · exact .update (fun _ => ⟨rfl, rfl, rfl, rfl⟩) fun _ => .inl rfl
  · split
    · exact .none _
    · split <;> exact .none _
  · exact .none _
  · exact .update (fun _ => ⟨rfl, rfl, rfl, rfl⟩) fun _ => .inr rfl
  · exact .none _

/-- **What a segment writes.** -/
theorem segment_effect (unique : Bool) (db : Db) (call : Call) (time : ℤ) :
    Effect db call (segment unique db call time).1 := by
  unfold segment
  split
  all_goals first
    | exact topicSegment_effect ..
    | exact subscriptionSegment_effect ..
    | exact messageSegment_effect ..

/-! ## What a segment leaves -/

/-- The call that a segment leaves, and the tables in which it leaves it. -/
inductive Next (db : Db) (time : ℤ) : Call → Db → Call → Prop
  | insertTopic {name : JsString} : Next db time (.createTopic name) db (.insertTopic name)
  | removeTopic {name : JsString} {topic : Topic} (hfound : db.getTopicByName name = some topic) :
      Next db time (.deleteTopic name) db (.removeTopic name topic.id)
  | findTopicMessages {name : JsString} {id : ℕ} : Next db time (.removeTopic name id)
      { db with topics := db.topics.filter fun topic => topic.id ≠ id } (.findTopicMessages name)
  | removeTopicRows {name : JsString} : Next db time (.findTopicMessages name) db
      (.removeTopicRows name
        ((db.messages.filter fun message => message.topicName = name).map Message.messageId))
  | removeTopicRow {name : JsString} {messageId : ℕ} {messageIds : List ℕ} :
      Next db time (.removeTopicRows name (messageId :: messageIds))
        (db.deleteDeliveries fun row => row.messageId = messageId) (.removeTopicRows name messageIds)
  | checkSubscription {settings : SubscriptionSettings} :
      Next db time (.createSubscription settings) db (.checkSubscription settings)
  | insertSubscription {settings : SubscriptionSettings} :
      Next db time (.checkSubscription settings) db (.insertSubscription settings)
  | findDetached {name : JsString} :
      Next db time (.detachSubscription name) db (.findDetached name)
  | setDetached {name : JsString} {sub : Subscription}
      (hfound : db.getSubscriptionByName name = some sub) :
      Next db time (.findDetached name) db (.setDetached name sub.id)
  | removeSubscription {name : JsString} {sub : Subscription}
      (hfound : db.getSubscriptionByName name = some sub) :
      Next db time (.deleteSubscription name) db (.removeSubscription name sub.id)
  | removeSubscriptionRows {name : JsString} {id : ℕ} : Next db time (.removeSubscription name id)
      { db with subscriptions := db.subscriptions.filter fun sub => sub.id ≠ id }
      (.removeSubscriptionRows name)
  | publishFind {topicName : JsString} {inputs : List PublishMessageInput} {topic : Topic}
      (hfound : db.getTopicByName topicName = some topic) :
      Next db time (.publish topicName inputs) db (.publishFind db.nextId topicName inputs)
  | publishing {since : ℕ} {topicName : JsString} {inputs : List PublishMessageInput} :
      Next db time (.publishFind since topicName inputs) db (.publishing since
        ⟨topicName, (db.findActiveSubscriptionsForTopic topicName).map Subscription.name, time⟩
        (.message [] inputs))
  | message {since : ℕ} {publication : Publication} {messageIds : List ℕ}
      {input : PublishMessageInput} {inputs : List PublishMessageInput} :
      Next db time (.publishing since publication (.message messageIds (input :: inputs)))
        (db.createMessage publication.topicName input publication.publishTime)
        (.publishing since publication
          (.next (messageIds ++ [db.nextId]) db.nextId inputs publication.subscriptionNames))
  | row {since : ℕ} {publication : Publication} {messageIds : List ℕ} {messageId : ℕ}
      {name : JsString} {names : List JsString} {inputs : List PublishMessageInput} :
      Next db time (.publishing since publication (.row messageIds messageId name names inputs))
        (db.createDelivery name messageId)
        (.publishing since publication (.next messageIds messageId inputs names))
  | find {name : JsString} {maxMessages : ℕ} {sub : Subscription}
      (hfound : db.getSubscriptionByName name = some sub) :
      Next db time (.pull name maxMessages) db
        (.pulling (.find name maxMessages sub.ackDeadlineSeconds))
  | found {name : JsString} {maxMessages : ℕ} {seconds : ℤ} :
      Next db time (.pulling (.find name maxMessages seconds)) db
        (.pulling (.message seconds time [] (db.findDeliverable name maxMessages time)))
  | skip {seconds now : ℤ} {results : List Received} {row : Delivery} {rows : List Delivery} :
      Next db time (.pulling (.message seconds now results (row :: rows))) db
        (.pulling (.message seconds now results rows))
  | lease {seconds now : ℤ} {results : List Received} {row : Delivery} {rows : List Delivery}
      {message : Message} {newDeadline : ℤ} (hfound : db.findMessage row.messageId = some message)
      (hdeadline : deadlineAfter now seconds = some newDeadline) :
      Next db time (.pulling (.message seconds now results (row :: rows))) db
        (.pulling (.update seconds now results ⟨row, message⟩ newDeadline rows))
  | leased {seconds now : ℤ} {results : List Received} {received : Received} {newDeadline : ℤ}
      {rows : List Delivery} {db' : Db} :
      Next db time (.pulling (.update seconds now results received newDeadline rows)) db'
        (.pulling (.message seconds now (results ++ [received]) rows))
  | acknowledging {name : JsString} {ackIds : List ℕ} :
      Next db time (.acknowledge name ackIds) db (.acknowledging name ackIds)
  | acknowledged {name : JsString} {ackId : ℕ} {ackIds : List ℕ} {db' : Db} :
      Next db time (.acknowledging name (ackId :: ackIds)) db' (.acknowledging name ackIds)
  | modifying {name : JsString} {ackIds : List ℕ} {seconds newDeadline : ℤ}
      (hdeadline : deadlineAfter time seconds = some newDeadline) :
      Next db time (.modify name ackIds seconds) db (.modifying name newDeadline ackIds)
  | modified {name : JsString} {newDeadline : ℤ} {ackId : ℕ} {ackIds : List ℕ} {db' : Db} :
      Next db time (.modifying name newDeadline (ackId :: ackIds)) db'
        (.modifying name newDeadline ackIds)

theorem publishing_next {db : Db} {since : ℕ} {publication : Publication} {stage : Publishing}
    {time : ℤ} {rest : Call}
    (h : rest ∈ (messageSegment db time (.publishing since publication stage)).2.calls) :
    Next db time (.publishing since publication stage)
      (messageSegment db time (.publishing since publication stage)).1 rest := by
  match stage with
  | .message _ [] => cases h
  | .message _ (_ :: _) =>
    obtain rfl := List.mem_singleton.1 h
    exact .message
  | .row _ _ _ _ _ =>
    obtain rfl := List.mem_singleton.1 h
    exact .row

theorem pulling_next {db : Db} {stage : Pulling} {time : ℤ} {rest : Call}
    (h : rest ∈ (messageSegment db time (.pulling stage)).2.calls) :
    Next db time (.pulling stage) (messageSegment db time (.pulling stage)).1 rest := by
  match stage with
  | .find _ _ _ =>
    obtain rfl := List.mem_singleton.1 h
    exact .found
  | .message _ _ _ [] => cases h
  | .message seconds now results (row :: rows) =>
    cases hfound : db.findMessage row.messageId with
    | none =>
      simp only [messageSegment, Pulling.segment, hfound] at h ⊢
      obtain rfl := List.mem_singleton.1 h
      exact .skip
    | some message =>
      cases hdeadline : deadlineAfter now seconds with
      | none =>
        simp only [messageSegment, Pulling.segment, hfound, hdeadline] at h
        cases h
      | some newDeadline =>
        simp only [messageSegment, Pulling.segment, hfound, hdeadline] at h ⊢
        obtain rfl := List.mem_singleton.1 h
        exact .lease hfound hdeadline
  | .update _ _ _ _ _ _ =>
    obtain rfl := List.mem_singleton.1 h
    exact .leased

/-- **What a segment leaves.** -/
theorem segment_next (unique : Bool) {db : Db} {call rest : Call} {time : ℤ}
    (h : rest ∈ (segment unique db call time).2.calls) :
    Next db time call (segment unique db call time).1 rest := by
  cases call with
  | createTopic name =>
    simp only [segment, topicSegment] at h ⊢
    cases hfound : db.getTopicByName name with
    | none =>
      rw [hfound] at h
      obtain rfl := List.mem_singleton.1 h
      exact .insertTopic
    | some topic =>
      rw [hfound] at h
      cases h
  | insertTopic name =>
    simp only [segment, topicSegment] at h
    split at h <;> cases h
  | deleteTopic name =>
    simp only [segment, topicSegment] at h ⊢
    cases hfound : db.getTopicByName name with
    | none =>
      rw [hfound] at h
      cases h
    | some topic =>
      rw [hfound] at h
      obtain rfl := List.mem_singleton.1 h
      exact .removeTopic hfound
  | removeTopic name id =>
    simp only [segment, topicSegment] at h ⊢
    split at h
    · rw [if_pos ‹_›]
      obtain rfl := List.mem_singleton.1 h
      exact .findTopicMessages
    · cases h
  | findTopicMessages name =>
    obtain rfl := List.mem_singleton.1 h
    exact .removeTopicRows
  | removeTopicRows name messageIds =>
    cases messageIds with
    | nil => cases h
    | cons messageId messageIds =>
      obtain rfl := List.mem_singleton.1 h
      exact .removeTopicRow
  | createSubscription settings =>
    simp only [segment, subscriptionSegment] at h ⊢
    cases hfound : db.getTopicByName settings.topic with
    | none =>
      rw [hfound] at h
      cases h
    | some topic =>
      rw [hfound] at h
      obtain rfl := List.mem_singleton.1 h
      exact .checkSubscription
  | checkSubscription settings =>
    simp only [segment, subscriptionSegment] at h ⊢
    cases hfound : db.getSubscriptionByName settings.name with
    | none =>
      rw [hfound] at h
      obtain rfl := List.mem_singleton.1 h
      exact .insertSubscription
    | some sub =>
      rw [hfound] at h
      cases h
  | insertSubscription settings =>
    simp only [segment, subscriptionSegment] at h
    split at h <;> cases h
  | detachSubscription name =>
    simp only [segment, subscriptionSegment] at h ⊢
    cases hfound : db.getSubscriptionByName name with
    | none =>
      rw [hfound] at h
      cases h
    | some sub =>
      rw [hfound] at h
      obtain rfl := List.mem_singleton.1 h
      exact .findDetached
  | findDetached name =>
    simp only [segment, subscriptionSegment] at h ⊢
    cases hfound : db.getSubscriptionByName name with
    | none =>
      rw [hfound] at h
      cases h
    | some sub =>
      rw [hfound] at h
      obtain rfl := List.mem_singleton.1 h
      exact .setDetached hfound
  | setDetached name id => cases h
  | deleteSubscription name =>
    simp only [segment, subscriptionSegment] at h ⊢
    cases hfound : db.getSubscriptionByName name with
    | none =>
      rw [hfound] at h
      cases h
    | some sub =>
      rw [hfound] at h
      obtain rfl := List.mem_singleton.1 h
      exact .removeSubscription hfound
  | removeSubscription name id =>
    simp only [segment, subscriptionSegment] at h ⊢
    split at h
    · rw [if_pos ‹_›]
      obtain rfl := List.mem_singleton.1 h
      exact .removeSubscriptionRows
    · cases h
  | removeSubscriptionRows name => cases h
  | publish topicName inputs =>
    cases inputs with
    | nil => cases h
    | cons input inputs =>
      simp only [segment, messageSegment] at h ⊢
      cases hfound : db.getTopicByName topicName with
      | none =>
        rw [hfound] at h
        cases h
      | some topic =>
        rw [hfound] at h
        obtain rfl := List.mem_singleton.1 h
        exact .publishFind hfound
  | publishFind since topicName inputs =>
    obtain rfl := List.mem_singleton.1 h
    exact .publishing
  | publishing since publication stage => exact publishing_next h
  | pull name maxMessages =>
    simp only [segment, messageSegment] at h ⊢
    cases hfound : db.getSubscriptionByName name with
    | none =>
      rw [hfound] at h
      cases h
    | some sub =>
      simp only [hfound] at h ⊢
      split at h
      · cases h
      · rw [if_neg ‹_›]
        obtain rfl := List.mem_singleton.1 h
        exact .find hfound
  | pulling stage => exact pulling_next h
  | acknowledge name ackIds =>
    simp only [segment, messageSegment] at h ⊢
    cases hfound : db.getSubscriptionByName name with
    | none =>
      rw [hfound] at h
      cases h
    | some sub =>
      rw [hfound] at h
      obtain rfl := List.mem_singleton.1 h
      exact .acknowledging
  | acknowledging name ackIds =>
    cases ackIds with
    | nil => cases h
    | cons ackId ackIds =>
      obtain rfl := List.mem_singleton.1 h
      exact .acknowledged
  | modify name ackIds seconds =>
    simp only [segment, messageSegment] at h ⊢
    cases hfound : db.getSubscriptionByName name with
    | none =>
      rw [hfound] at h
      cases h
    | some sub =>
      simp only [hfound] at h ⊢
      cases hdeadline : deadlineAfter time seconds with
      | none =>
        rw [hdeadline] at h
        cases h
      | some newDeadline =>
        rw [hdeadline] at h
        obtain rfl := List.mem_singleton.1 h
        exact .modifying hdeadline
  | modifying name newDeadline ackIds =>
    cases ackIds with
    | nil => cases h
    | cons ackId ackIds =>
      obtain rfl := List.mem_singleton.1 h
      exact .modified

/-- A segment starts no other calls. -/
theorem segment_calls_pairwise (unique : Bool) (db : Db) (call : Call) (time : ℤ)
    (R : Call → Call → Prop) : (segment unique db call time).2.calls.Pairwise R := by
  have hmessage : ∀ db time call, (messageSegment db time call).2.calls.Pairwise R := by
    intro db time call
    unfold messageSegment
    repeat' split
    all_goals simp [Progress.calls]
  have htopic : (topicSegment unique db call).2.calls.Pairwise R := by
    unfold topicSegment
    repeat' split
    all_goals simp [Progress.calls]
  have hsubscription : (subscriptionSegment unique db call).2.calls.Pairwise R := by
    unfold subscriptionSegment
    repeat' split
    all_goals simp [Progress.calls]
  unfold segment
  split
  all_goals first
    | exact htopic
    | exact hsubscription
    | exact hmessage ..

end Kinglet.Pubsub
