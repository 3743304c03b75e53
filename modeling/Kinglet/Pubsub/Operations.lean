import Kinglet.Pubsub.Store

/-!
# Operations on messages, one after the other

Publish, pull, acknowledge, modify, seek, cleanup and the tick of the delivery engine, each run to
its end. What they deliver and what they write is logged. Times and the answers to the POSTs come
from outside.
-/

namespace Kinglet.Pubsub

open Js

/-- What happens to a delivery record; each event shows the record as it was before. -/
inductive Event
  | searched (subscriptionName : JsString) (rows : List Delivery)
  | pulled (row : Delivery)
  | posted (row : Delivery)
  | deadLettered (row : Delivery)
  | acked (row : Delivery)
  | rescheduled (row row' : Delivery)
  deriving DecidableEq

structure State where
  db : Db
  log : List Event

namespace State

def emit (s : State) (events : List Event) : State := { s with log := s.log ++ events }

@[simp] theorem emit_db (s : State) (events : List Event) : (s.emit events).db = s.db := rfl

@[simp] theorem emit_log (s : State) (events : List Event) :
    (s.emit events).log = s.log ++ events := rfl

/-! ## The message repository -/

/-- The fan-out of a message. -/
def fanOut (messageId : ℕ) (db : Db) (subscriptionNames : List JsString) : Db :=
  subscriptionNames.foldl (fun db name => db.createDelivery name messageId) db

/-- `publishMessages(topicName, messages, subscriptionNames)`. -/
def publishMessages (topicName : JsString) (subscriptionNames : List JsString) (now : ℤ) :
    Db → List PublishMessageInput → Db × List ℕ
  | db, [] => (db, [])
  | db, input :: inputs =>
      let (db', ids) := publishMessages topicName subscriptionNames now
        (fanOut db.nextId (db.createMessage topicName input now) subscriptionNames) inputs
      (db', db.nextId :: ids)

/-- One turn of `acknowledgeMessages`. -/
def acknowledgeOne (subscriptionName : JsString) (s : State) (ackId : ℕ) : State :=
  let condition := Delivery.isAck subscriptionName ackId
  { db := s.db.updateDeliveries condition fun row => { row with ackStatus := .acked }
    log := s.log ++ (s.db.deliveries.filter condition).map .acked }

/-- `acknowledgeMessages(subscriptionName, ackIds)`. -/
def acknowledgeMessages (s : State) (subscriptionName : JsString) (ackIds : List ℕ) : State :=
  ackIds.foldl (acknowledgeOne subscriptionName) s

/-- `modifyAckDeadline(subscriptionName, ackIds, ackDeadlineSeconds)`, where nothing is written when
the date does not exist. -/
def modifyAckDeadline (s : State) (subscriptionName : JsString) (ackIds : List ℕ)
    (ackDeadlineSeconds now : ℤ) : State :=
  match deadlineAfter now ackDeadlineSeconds with
  | none => s
  | some newDeadline =>
      { s with db := ackIds.foldl (fun db ackId =>
          db.updateDeliveries (Delivery.isAck subscriptionName ackId) fun row =>
            { row with ackDeadline := newDeadline }) s.db }

/-- One turn of `pullMessages`, `none` when the new deadline does not exist. -/
def pullOne (ackDeadlineSeconds now : ℤ) (s : State) (row : Delivery) : Option State :=
  match s.db.findMessage row.messageId with
  | none => some s
  | some _ =>
      (deadlineAfter now ackDeadlineSeconds).map fun newDeadline =>
        { db := s.db.updateDeliveries (fun other => other.id = row.id) fun other =>
            { other with ackDeadline := newDeadline, deliveryAttempt := row.deliveryAttempt + 1 }
          log := s.log ++ [.pulled row] }

/-- `pullMessages(subscriptionName, maxMessages, ackDeadlineSeconds)`; a date that does not exist
ends it, with what was written so far. -/
def pullMessages (ackDeadlineSeconds now : ℤ) : State → List Delivery → State
  | s, [] => s
  | s, row :: rows =>
      match pullOne ackDeadlineSeconds now s row with
      | none => s
      | some s => pullMessages ackDeadlineSeconds now s rows

/-- `resetDeliveredMessagesByTime(subscriptionName, beforeTime)`. -/
def resetDeliveredMessagesByTime (s : State) (subscriptionName beforeTime : JsString) : State :=
  let found := s.db.deliveries.filter fun row =>
    decide (row.subscriptionName = subscriptionName) && decide (row.ackStatus = .pending)
  { s with db := found.foldl (fun db row =>
      match db.findMessage row.messageId with
      | some message =>
          if toISOString message.publishTime ≤ beforeTime then
            db.updateDeliveries (fun other => other.id = row.id) fun other =>
              { other with ackDeadline := 0 }
          else db
      | none => db) s.db }

/-- `cleanupAckedMessages()`. -/
def cleanupAckedMessages (s : State) : State :=
  { s with db := s.db.deleteDeliveries fun row => row.ackStatus = .acked }

/-- `findPushDeliverableMessages(subscriptionName, limit)`. -/
def findPushDeliverableMessages (db : Db) (subscriptionName : JsString) (limit : ℕ) (now : ℤ) :
    List (Delivery × Message) :=
  (db.findDeliverable subscriptionName limit now).filterMap fun row =>
    (db.findMessage row.messageId).map fun message => (row, message)

/-- `incrementDeliveryAttempt(deliveredMessageId, newAckDeadline)`. -/
def incrementDeliveryAttempt (s : State) (id : ℕ) (newAckDeadline : ℤ) : State :=
  match s.db.deliveries.find? fun row => row.id = id with
  | none => s
  | some record =>
      let record' :=
        { record with deliveryAttempt := record.deliveryAttempt + 1, ackDeadline := newAckDeadline }
      { db := s.db.updateDeliveries (fun row => row.id = id) fun row =>
          { row with
            deliveryAttempt := record.deliveryAttempt + 1
            ackDeadline := newAckDeadline }
        log := s.log ++ [.rescheduled record record'] }

end State

/-! ## The subscription service -/

namespace State

variable (s : State)

/-- `publish(topicName, body)`. -/
def publish (topicName : JsString) (messages : List PublishMessageInput) (now : ℤ) : State :=
  match s.db.getTopicByName topicName with
  | none => s
  | some _ =>
      let subscriptionNames := (s.db.findActiveSubscriptionsForTopic topicName).map Subscription.name
      { s with db := (publishMessages topicName subscriptionNames now s.db messages).1 }

/-- `pull(subscriptionName, body, ackDeadlineOverride)`. -/
def pull (subscriptionName : JsString) (maxMessages : ℕ) (ackDeadlineOverride : Option ℤ)
    (now : ℤ) : State :=
  match s.db.getSubscriptionByName subscriptionName with
  | none => s
  | some sub =>
      if sub.detached then s
      else
        pullMessages (ackDeadlineOverride.getD sub.ackDeadlineSeconds) now s
          (s.db.findDeliverable subscriptionName maxMessages now)

/-- `acknowledge(subscriptionName, body)`. -/
def acknowledge (subscriptionName : JsString) (ackIds : List ℕ) : State :=
  match s.db.getSubscriptionByName subscriptionName with
  | none => s
  | some _ => s.acknowledgeMessages subscriptionName ackIds

/-- `modifyAckDeadline(subscriptionName, body)`. -/
def modify (subscriptionName : JsString) (ackIds : List ℕ) (ackDeadlineSeconds now : ℤ) : State :=
  match s.db.getSubscriptionByName subscriptionName with
  | none => s
  | some _ => s.modifyAckDeadline subscriptionName ackIds ackDeadlineSeconds now

/-- `seek(subscriptionName, body)` to a time. -/
def seek (subscriptionName time : JsString) : State :=
  match s.db.getSubscriptionByName subscriptionName with
  | none => s
  | some _ => if time = [] then s else s.resetDeliveredMessagesByTime subscriptionName time

end State

/-! ## The delivery engine -/

/-- The answer to a POST: a response that is `ok`, another one, or none. The times are those of the
calls of `handlePushFailure`, of which the second is made when the first one throws. -/
inductive Answer
  | ok
  | refused (failedAt caughtAt : ℤ)
  | unreachable (caughtAt : ℤ)
  deriving DecidableEq

def Answer.failures : Answer → List ℤ
  | .ok => []
  | .refused failedAt caughtAt => [failedAt, caughtAt]
  | .unreachable caughtAt => [caughtAt]

/-- What a tick meets outside: the time of each search and of each dead-letter publish, and the
answer to the POST of each record. -/
structure Outside where
  searchedAt : JsString → ℤ
  publishedAt : ℕ → ℤ
  post : ℕ → Answer

/-- A stored duration in seconds, `none` when parsing it throws. -/
def backoffOr (duration : Option JsString) (default : Float) : Option Float :=
  match given duration with
  | some text => parseDurationSeconds text
  | none => some default

/-- `computeBackoff(attempt, retryPolicy)`, `none` when it throws. -/
def computeBackoff (attempt : ℕ) (retryPolicy : Option RetryPolicy) : Option Float := do
  let minBackoff ← backoffOr (retryPolicy.bind RetryPolicy.minimumBackoff) 10
  let maxBackoff ← backoffOr (retryPolicy.bind RetryPolicy.maximumBackoff) 600
  return mathMin (minBackoff * twoPow attempt) maxBackoff

/-- The deadline `handlePushFailure` computes, `none` when its `toISOString` throws. -/
def retryDeadline (attempt : ℕ) (retryPolicy : Option RetryPolicy) (now : ℤ) : Option ℤ :=
  dateAfter now ((computeBackoff attempt retryPolicy).getD (mathMin (10 * twoPow attempt) 600))

/-- The policy by which a record has used up its attempts. -/
def Subscription.exhausted (sub : Subscription) (row : Delivery) : Option DeadLetterPolicy :=
  sub.deadLetterPolicy.filter fun policy =>
    policy.maxDeliveryAttempts.any fun attempts => decide (attempts ≤ (row.deliveryAttempt : ℤ))

/-- The message for the dead-letter topic, `none` when `JSON.parse` throws. -/
def Message.deadLetter (message : Message) : Option PublishMessageInput :=
  match given message.attributes with
  | none => some ⟨message.data, none, message.orderingKey⟩
  | some text => (jsonParse text).map fun attributes =>
      ⟨message.data, some attributes, message.orderingKey⟩

namespace State

/-- The engine's `publishFn`, which does not look the topic up. -/
def publishFn (s : State) (topicName : JsString) (input : PublishMessageInput) (now : ℤ) : State :=
  let subscriptionNames := (s.db.findActiveSubscriptionsForTopic topicName).map Subscription.name
  { s with db := (publishMessages topicName subscriptionNames now s.db [input]).1 }

/-- The message on the dead-letter topic, when there is such a topic and its attributes parse. -/
def publishDeadLetter (s : State) (policy : DeadLetterPolicy) (message : Message) (now : ℤ) : State :=
  match given policy.deadLetterTopic, message.deadLetter with
  | some topicName, some input => s.publishFn topicName input now
  | _, _ => s

/-- `routeToDeadLetter(deadLetterPolicy, message, ackId, subscriptionName)`. -/
def routeToDeadLetter (s : State) (policy : DeadLetterPolicy) (row : Delivery) (message : Message)
    (subscriptionName : JsString) (now : ℤ) : State :=
  ((s.publishDeadLetter policy message now).emit [.deadLettered row]).acknowledgeMessages
    subscriptionName [row.ackId]

/-- `pushMessage(pushEndpoint, subscriptionName, delivered, message, retryPolicy)`, with whether it
returns: a second `handlePushFailure` that throws ends it. -/
def pushMessage (outside : Outside) (sub : Subscription) (s : State) (row : Delivery) :
    State × Bool :=
  let s := s.emit [.posted row]
  match outside.post row.id with
  | .ok => (s.acknowledgeMessages sub.name [row.ackId], true)
  | answer =>
      match answer.failures.findSome? (retryDeadline row.deliveryAttempt sub.retryPolicy) with
      | some newDeadline => (s.incrementDeliveryAttempt row.id newDeadline, true)
      | none => (s, false)

/-- The body of the loop over the messages, with whether it returns. -/
def deliver (outside : Outside) (sub : Subscription) (s : State) (item : Delivery × Message) :
    State × Bool :=
  match sub.exhausted item.1 with
  | some policy =>
      (s.routeToDeadLetter policy item.1 item.2 sub.name (outside.publishedAt item.1.id), true)
  | none => pushMessage outside sub s item.1

/-- The loop over the messages. -/
def deliverAll (outside : Outside) (sub : Subscription) :
    State → List (Delivery × Message) → State × Bool
  | s, [] => (s, true)
  | s, item :: items =>
      match deliver outside sub s item with
      | (s, true) => deliverAll outside sub s items
      | (s, false) => (s, false)

/-- `DEFAULT_BATCH_SIZE`. -/
def batchSize : ℕ := 10

/-- What a tick selects of a subscription. -/
def batch (outside : Outside) (sub : Subscription) (s : State) : List (Delivery × Message) :=
  findPushDeliverableMessages s.db sub.name batchSize (outside.searchedAt sub.name)

/-- The body of the loop over the subscriptions. -/
def visit (outside : Outside) (s : State) (sub : Subscription) : State × Bool :=
  let items := s.batch outside sub
  deliverAll outside sub (s.emit [.searched sub.name (items.map Prod.fst)]) items

/-- The loop over the subscriptions. -/
def visitAll (outside : Outside) : State → List Subscription → State × Bool
  | s, [] => (s, true)
  | s, sub :: subs =>
      match visit outside s sub with
      | (s, true) => visitAll outside s subs
      | (s, false) => (s, false)

end State

/-- The engine's own fields. -/
structure Engine where
  running : Bool
  cleanupCounter : ℕ
  cleanupIntervalTicks : ℕ

/-- `tick()`. An exception in the loops skips the cleanup. -/
def tick (outside : Outside) (engine : Engine) (s : State) : Engine × State :=
  if engine.running then (engine, s)
  else
    match s.visitAll outside s.db.findPushSubscriptions with
    | (s, false) => (engine, s)
    | (s, true) =>
        let cleanupCounter := engine.cleanupCounter + 1
        if engine.cleanupIntervalTicks ≤ cleanupCounter then
          ({ engine with cleanupCounter := 0 }, s.cleanupAckedMessages)
        else ({ engine with cleanupCounter := cleanupCounter }, s)

/-! ## What the operations write -/

variable {s : State} {row : Delivery}

/-- The record after a reschedule. -/
def Delivery.retried (row : Delivery) (deadline : ℤ) : Delivery :=
  { row with deliveryAttempt := row.deliveryAttempt + 1, ackDeadline := deadline }

/-- Tables to which records were appended. -/
structure Appended (db db' : Db) : Prop where
  wellFormed : db'.WellFormed
  grows : db.Grows db'
  deliveries : db.deliveries <+: db'.deliveries

theorem Appended.refl {db : Db} (h : db.WellFormed) : Appended db db :=
  ⟨h, .refl db, List.prefix_rfl⟩

theorem Appended.trans {db db' db'' : Db} (h : Appended db db') (h' : Appended db' db'') :
    Appended db db'' :=
  ⟨h'.wellFormed, h.grows.trans h'.grows, h.deliveries.trans h'.deliveries⟩

theorem appended_fanOut {db : Db} (h : db.WellFormed) (messageId : ℕ) (names : List JsString) :
    Appended db (State.fanOut messageId db names) := by
  induction names generalizing db with
  | nil => exact .refl h
  | cons name names ih =>
      have hone : Appended db (db.createDelivery name messageId) :=
        ⟨h.createDelivery name messageId, .createDelivery name messageId, List.prefix_append ..⟩
      exact hone.trans (ih hone.wellFormed)

theorem appended_publishMessages {db : Db} (h : db.WellFormed) (topicName : JsString)
    (names : List JsString) (now : ℤ) (inputs : List PublishMessageInput) :
    Appended db (State.publishMessages topicName names now db inputs).1 := by
  induction inputs generalizing db with
  | nil => exact .refl h
  | cons input inputs ih =>
      have hmessage : Appended db (db.createMessage topicName input now) :=
        ⟨h.createMessage topicName input now, .createMessage topicName input now, List.prefix_rfl⟩
      have hone := hmessage.trans (appended_fanOut hmessage.wellFormed db.nextId names)
      exact hone.trans (ih hone.wellFormed)

/-- What the handling of a message does: the record is written to, and others may be appended. -/
structure Writes (row : Delivery) (db db' : Db) : Prop where
  wellFormed : db'.WellFormed
  grows : db.Grows db'
  others : ∀ other ∈ db.deliveries, other.id ≠ row.id → other ∈ db'.deliveries

theorem Writes.of_update {db : Db} (h : db.WellFormed) {condition : Delivery → Bool}
    {update : Delivery → Delivery} (hkeeps : Db.KeepsIdentity update)
    (hcondition : ∀ other ∈ db.deliveries, condition other = true → other.id = row.id) :
    Writes row db (db.updateDeliveries condition update) where
  wellFormed := h.updateDeliveries hkeeps
  grows := .updateDeliveries hkeeps
  others := by
    intro other hother hne
    refine Db.mem_updateDeliveries.2 ⟨other, hother, if_neg fun htrue => ?_⟩
    exact hne (hcondition other hother htrue)

theorem Appended.writes {db db' db'' : Db} (h : Appended db db') (h' : Writes row db' db'') :
    Writes row db db'' :=
  ⟨h'.wellFormed, h.grows.trans h'.grows, fun other hother => h'.others other (h.deliveries.subset hother)⟩

theorem acknowledge_spec (h : s.db.WellFormed) (hrow : row ∈ s.db.deliveries) :
    Writes row s.db (s.acknowledgeMessages row.subscriptionName [row.ackId]).db ∧
      (s.acknowledgeMessages row.subscriptionName [row.ackId]).log = s.log ++ [.acked row] := by
  constructor
  · refine .of_update h (fun _ => ⟨rfl, rfl, rfl, rfl⟩) fun other hother hack => ?_
    have hmem := List.mem_filter.2 ⟨hother, hack⟩
    rw [h.filter_isAck hrow, List.mem_singleton] at hmem
    rw [hmem]
  · change s.log ++ (s.db.deliveries.filter _).map Event.acked = _
    rw [h.filter_isAck hrow]
    rfl

theorem incrementDeliveryAttempt_spec (h : s.db.WellFormed) (hrow : row ∈ s.db.deliveries)
    (deadline : ℤ) :
    Writes row s.db (s.incrementDeliveryAttempt row.id deadline).db ∧
      (s.incrementDeliveryAttempt row.id deadline).log =
        s.log ++ [.rescheduled row (row.retried deadline)] := by
  rw [State.incrementDeliveryAttempt, h.find_id hrow]
  exact ⟨.of_update h (fun _ => ⟨rfl, rfl, rfl, rfl⟩) fun other _ hid => of_decide_eq_true hid, rfl⟩

theorem appended_publishDeadLetter (h : s.db.WellFormed) (policy : DeadLetterPolicy)
    (message : Message) (now : ℤ) :
    Appended s.db (s.publishDeadLetter policy message now).db ∧
      (s.publishDeadLetter policy message now).log = s.log := by
  unfold State.publishDeadLetter
  split
  · exact ⟨appended_publishMessages h _ _ _ _, rfl⟩
  · exact ⟨.refl h, rfl⟩

theorem routeToDeadLetter_spec (h : s.db.WellFormed) (hrow : row ∈ s.db.deliveries)
    (policy : DeadLetterPolicy) (message : Message) (now : ℤ) :
    Writes row s.db (s.routeToDeadLetter policy row message row.subscriptionName now).db ∧
      (s.routeToDeadLetter policy row message row.subscriptionName now).log =
        s.log ++ [.deadLettered row, .acked row] := by
  obtain ⟨happended, hlog⟩ := appended_publishDeadLetter h policy message now
  obtain ⟨hwrites, hacked⟩ := acknowledge_spec
    (s := (s.publishDeadLetter policy message now).emit [.deadLettered row]) happended.wellFormed
    (happended.deliveries.subset hrow)
  refine ⟨happended.writes hwrites, hacked.trans ?_⟩
  simp [hlog]

end Kinglet.Pubsub
