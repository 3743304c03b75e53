import Kinglet.Pubsub.Runs

/-!
# Subscriptions do not see each other's acknowledgements

`AgreeOff a` compares two states by everything but the delivery records of the subscription `a` and
what was delivered to it. Operations on other subscriptions keep the agreement, and an operation on
`a` stays within what is not compared, unless it puts a message on a dead-letter topic.

## Main statements

* `AgreeOff.apply`: an operation keeps the agreement;
* `acknowledged_means_gone`: the three promises of an acknowledgement, for every run.
-/

namespace Kinglet.Pubsub

open Js

def ofOthers (a : JsString) (row : Delivery) : Bool := row.subscriptionName ≠ a

/-- The event delivers to a subscription other than `a`. -/
def Event.toOthers (a : JsString) (event : Event) : Bool := event.delivered?.any (ofOthers a)

/-- The tables agree off the records of `a`. -/
structure Db.AgreeOff (a : JsString) (subs : List Subscription) (db db' : Db) : Prop where
  left : db.subscriptions = subs
  right : db'.subscriptions = subs
  topics : db.topics = db'.topics
  messages : db.messages = db'.messages
  nextId : db.nextId = db'.nextId
  deliveries : db.deliveries.filter (ofOthers a) = db'.deliveries.filter (ofOthers a)

structure AgreeOff (a : JsString) (subs : List Subscription) (s t : State) : Prop where
  db : s.db.AgreeOff a subs t.db
  log : s.log.filter (Event.toOthers a) = t.log.filter (Event.toOthers a)

variable {a : JsString} {subs : List Subscription} {db db' db'' : Db} {s t u : State}
  {row : Delivery}

/-! ## Tables -/

namespace Db.AgreeOff

theorem refl (h : db.subscriptions = subs) : db.AgreeOff a subs db := ⟨h, h, rfl, rfl, rfl, rfl⟩

theorem symm (h : db.AgreeOff a subs db') : db'.AgreeOff a subs db :=
  ⟨h.right, h.left, h.topics.symm, h.messages.symm, h.nextId.symm, h.deliveries.symm⟩

theorem trans (h : db.AgreeOff a subs db') (h' : db'.AgreeOff a subs db'') :
    db.AgreeOff a subs db'' :=
  ⟨h.left, h'.right, h.topics.trans h'.topics, h.messages.trans h'.messages,
    h.nextId.trans h'.nextId, h.deliveries.trans h'.deliveries⟩

theorem filter_updateDeliveries {condition : Delivery → Bool} {update : Delivery → Delivery}
    (hname : ∀ row, (update row).subscriptionName = row.subscriptionName) :
    (db.updateDeliveries condition update).deliveries.filter (ofOthers a) =
      (db.deliveries.filter (ofOthers a)).map
        fun row => if condition row then update row else row := by
  simp only [Db.updateDeliveries, List.filter_map]
  congr 1
  refine List.filter_congr fun row _ => ?_
  simp only [Function.comp_apply, ofOthers]
  split
  · rw [hname row]
  · rfl

theorem updateDeliveries (h : db.AgreeOff a subs db') {condition : Delivery → Bool}
    {update : Delivery → Delivery}
    (hname : ∀ row, (update row).subscriptionName = row.subscriptionName) :
    (db.updateDeliveries condition update).AgreeOff a subs
      (db'.updateDeliveries condition update) where
  left := h.left
  right := h.right
  topics := h.topics
  messages := h.messages
  nextId := h.nextId
  deliveries := by
    rw [filter_updateDeliveries hname, filter_updateDeliveries hname, h.deliveries]

/-- A write on the records of `a`. -/
theorem own (h : db.subscriptions = subs) {condition : Delivery → Bool}
    {update : Delivery → Delivery}
    (hname : ∀ row, (update row).subscriptionName = row.subscriptionName)
    (hown : ∀ row ∈ db.deliveries, condition row = true → row.subscriptionName = a) :
    db.AgreeOff a subs (db.updateDeliveries condition update) where
  left := h
  right := h
  topics := rfl
  messages := rfl
  nextId := rfl
  deliveries := by
    rw [filter_updateDeliveries hname]
    refine (List.map_id _).symm.trans (List.map_congr_left fun row hrow => ?_)
    obtain ⟨hmem, hother⟩ := List.mem_filter.1 hrow
    exact (if_neg fun htrue => of_decide_eq_true hother (hown row hmem htrue)).symm

theorem deleteDeliveries (h : db.AgreeOff a subs db') (condition : Delivery → Bool) :
    (db.deleteDeliveries condition).AgreeOff a subs (db'.deleteDeliveries condition) where
  left := h.left
  right := h.right
  topics := h.topics
  messages := h.messages
  nextId := h.nextId
  deliveries := by
    simp only [Db.deleteDeliveries]
    rw [List.filter_comm, h.deliveries, List.filter_comm]

theorem createDelivery (h : db.AgreeOff a subs db') (subscriptionName : JsString)
    (messageId : ℕ) : (db.createDelivery subscriptionName messageId).AgreeOff a subs
      (db'.createDelivery subscriptionName messageId) where
  left := h.left
  right := h.right
  topics := h.topics
  messages := h.messages
  nextId := congrArg (· + 2) h.nextId
  deliveries := by
    simp only [Db.createDelivery, List.filter_append, h.deliveries, h.nextId]

theorem createMessage (h : db.AgreeOff a subs db') (topicName : JsString)
    (input : PublishMessageInput) (now : ℤ) : (db.createMessage topicName input now).AgreeOff a subs
      (db'.createMessage topicName input now) where
  left := h.left
  right := h.right
  topics := h.topics
  messages := by simp only [Db.createMessage, h.messages, h.nextId]
  nextId := congrArg (· + 1) h.nextId
  deliveries := h.deliveries

theorem fanOut (h : db.AgreeOff a subs db') (messageId : ℕ) (names : List JsString) :
    (State.fanOut messageId db names).AgreeOff a subs (State.fanOut messageId db' names) := by
  induction names generalizing db db' with
  | nil => exact h
  | cons name names ih => exact ih (h.createDelivery name messageId)

theorem publishMessages (h : db.AgreeOff a subs db') (topicName : JsString)
    (names : List JsString) (now : ℤ) (inputs : List PublishMessageInput) :
    (State.publishMessages topicName names now db inputs).1.AgreeOff a subs
      (State.publishMessages topicName names now db' inputs).1 := by
  induction inputs generalizing db db' with
  | nil => exact h
  | cons input inputs ih =>
    refine ih ?_
    have hmessage := h.createMessage topicName input now
    rw [h.nextId]
    exact hmessage.fanOut db'.nextId names

/-! ### Searches -/

theorem findMessage (h : db.AgreeOff a subs db') : db.findMessage = db'.findMessage := by
  funext messageId
  rw [Db.findMessage, Db.findMessage, h.messages]

theorem getTopicByName (h : db.AgreeOff a subs db') : db.getTopicByName = db'.getTopicByName := by
  funext name
  rw [Db.getTopicByName, Db.getTopicByName, h.topics]

theorem getSubscriptionByName (h : db.AgreeOff a subs db') :
    db.getSubscriptionByName = db'.getSubscriptionByName := by
  funext name
  rw [Db.getSubscriptionByName, Db.getSubscriptionByName, h.left, h.right]

theorem findActive (h : db.AgreeOff a subs db') :
    db.findActiveSubscriptionsForTopic = db'.findActiveSubscriptionsForTopic := by
  funext topicName
  rw [Db.findActiveSubscriptionsForTopic, Db.findActiveSubscriptionsForTopic, h.left, h.right]

/-- A loop of writes. -/
theorem foldl {α : Type*} {f : Db → α → Db}
    (hf : ∀ db db' x, db.AgreeOff a subs db' → (f db x).AgreeOff a subs (f db' x))
    (h : db.AgreeOff a subs db') (xs : List α) :
    (xs.foldl f db).AgreeOff a subs (xs.foldl f db') := by
  induction xs generalizing db db' with
  | nil => exact h
  | cons x xs ih => exact ih (hf db db' x h)

/-- A loop of writes on the records of `a`, as long as they keep `P`. -/
theorem own_foldl {α : Type*} {f : Db → α → Db} {P : Db → Prop} {xs : List α}
    (hf : ∀ db, ∀ x ∈ xs, db.subscriptions = subs → P db →
      db.AgreeOff a subs (f db x) ∧ P (f db x))
    (h : db.subscriptions = subs) (hP : P db) : db.AgreeOff a subs (xs.foldl f db) := by
  induction xs generalizing db with
  | nil => exact .refl h
  | cons x xs ih =>
    obtain ⟨hagree, hP'⟩ := hf db x List.mem_cons_self h hP
    exact hagree.trans
      (ih (fun db y hy => hf db y (List.mem_cons_of_mem _ hy)) hagree.right hP')

theorem filter_eq (h : db.AgreeOff a subs db') {p : Delivery → Bool}
    (hp : ∀ row, p row = true → ofOthers a row = true) :
    db.deliveries.filter p = db'.deliveries.filter p := by
  have hboth : ∀ rows : List Delivery, rows.filter p = (rows.filter (ofOthers a)).filter p := by
    intro rows
    rw [List.filter_filter]
    refine List.filter_congr fun row _ => ?_
    cases hrow : p row with
    | true => rw [hp row hrow]; rfl
    | false => rfl
  rw [hboth, hboth db'.deliveries, h.deliveries]

theorem findDeliverable (h : db.AgreeOff a subs db') {name : JsString} (hname : name ≠ a)
    (limit : ℕ) (now : ℤ) :
    db.findDeliverable name limit now = db'.findDeliverable name limit now := by
  unfold Db.findDeliverable
  rw [h.filter_eq]
  intro row hrow
  simp only [Bool.and_eq_true, decide_eq_true_eq] at hrow
  exact decide_eq_true (hrow.1.1 ▸ hname)

end Db.AgreeOff

/-! ## The repository -/

namespace AgreeOff

theorem refl (h : s.db.subscriptions = subs) : AgreeOff a subs s s := ⟨.refl h, rfl⟩

theorem symm (h : AgreeOff a subs s t) : AgreeOff a subs t s := ⟨h.db.symm, h.log.symm⟩

theorem trans (h : AgreeOff a subs s t) (h' : AgreeOff a subs t u) : AgreeOff a subs s u :=
  ⟨h.db.trans h'.db, h.log.trans h'.log⟩

/-- The same event in both. -/
theorem emit (h : AgreeOff a subs s t) (events : List Event) :
    AgreeOff a subs (s.emit events) (t.emit events) where
  db := h.db
  log := by simp only [State.emit_log, List.filter_append, h.log]

/-- An event that is not about a delivery to the others. -/
theorem emit_own (h : AgreeOff a subs s t) (events : List Event)
    (hown : ∀ event ∈ events, event.toOthers a = false) :
    AgreeOff a subs s (t.emit events) where
  db := h.db
  log := by
    have hnil : events.filter (Event.toOthers a) = [] :=
      List.filter_eq_nil_iff.2 fun event hevent => by simp [hown event hevent]
    rw [State.emit_log, List.filter_append, hnil, List.append_nil, h.log]

theorem toOthers_acked {rows : List Delivery} :
    ∀ event ∈ rows.map Event.acked, event.toOthers a = false := by
  intro event hevent
  obtain ⟨row, -, rfl⟩ := List.mem_map.1 hevent
  rfl

theorem acknowledgeMessages (h : AgreeOff a subs s t) (name : JsString) (ackIds : List ℕ) :
    AgreeOff a subs (s.acknowledgeMessages name ackIds) (t.acknowledgeMessages name ackIds) := by
  induction ackIds generalizing s t with
  | nil => exact h
  | cons ackId ackIds ih =>
    have hupdated : AgreeOff a subs
        { s with db := s.db.updateDeliveries (Delivery.isAck name ackId) fun row =>
          { row with ackStatus := .acked } }
        { t with db := t.db.updateDeliveries (Delivery.isAck name ackId) fun row =>
          { row with ackStatus := .acked } } := ⟨h.db.updateDeliveries fun _ => rfl, h.log⟩
    exact ih ((hupdated.emit_own _ toOthers_acked).symm.emit_own _ toOthers_acked).symm

theorem acknowledgeMessages_own (h : s.db.subscriptions = subs) (ackIds : List ℕ) :
    AgreeOff a subs s (s.acknowledgeMessages a ackIds) := by
  induction ackIds generalizing s with
  | nil => exact .refl h
  | cons ackId ackIds ih =>
    have hupdated : AgreeOff a subs s
        { s with db := s.db.updateDeliveries (Delivery.isAck a ackId) fun row =>
          { row with ackStatus := .acked } } :=
      ⟨.own h (fun _ => rfl) fun row _ hack => by
        simp only [Delivery.isAck, Bool.and_eq_true, decide_eq_true_eq] at hack
        exact hack.2, rfl⟩
    exact (hupdated.emit_own _ toOthers_acked).trans (ih (s := State.acknowledgeOne a s ackId) h)

theorem pullOne (h : AgreeOff a subs s t) (ackDeadlineSeconds now : ℤ) (row : Delivery) :
    Option.Rel (AgreeOff a subs) (State.pullOne ackDeadlineSeconds now s row)
      (State.pullOne ackDeadlineSeconds now t row) := by
  unfold State.pullOne
  rw [h.db.findMessage]
  split
  · exact .some h
  · cases deadlineAfter now ackDeadlineSeconds with
    | none => exact .none
    | some newDeadline =>
      refine .some ⟨h.db.updateDeliveries fun _ => rfl, ?_⟩
      exact (h.emit [.pulled row]).log

theorem pullMessages (h : AgreeOff a subs s t) (ackDeadlineSeconds now : ℤ)
    (rows : List Delivery) :
    AgreeOff a subs (State.pullMessages ackDeadlineSeconds now s rows)
      (State.pullMessages ackDeadlineSeconds now t rows) := by
  induction rows generalizing s t with
  | nil => exact h
  | cons row rows ih =>
    have hone := h.pullOne ackDeadlineSeconds now row
    rw [State.pullMessages, State.pullMessages]
    cases hs : State.pullOne ackDeadlineSeconds now s row with
    | none =>
      cases ht : State.pullOne ackDeadlineSeconds now t row with
      | none => exact h
      | some t' =>
        rw [hs, ht] at hone
        cases hone
    | some s' =>
      cases ht : State.pullOne ackDeadlineSeconds now t row with
      | none =>
        rw [hs, ht] at hone
        cases hone
      | some t' =>
        rw [hs, ht] at hone
        obtain hone | hone := hone
        exact ih hone

end AgreeOff

/-- The records with an id, if there are any, are those of `a`. -/
def OwnId (a : JsString) (db : Db) (id : ℕ) : Prop :=
  ∀ row ∈ db.deliveries, row.id = id → row.subscriptionName = a

theorem OwnId.updateDeliveries {id : ℕ} (h : OwnId a db id) {condition : Delivery → Bool}
    {update : Delivery → Delivery} (hkeeps : Db.KeepsIdentity update) :
    OwnId a (db.updateDeliveries condition update) id := by
  intro row hrow hid
  obtain ⟨old, hold, rfl⟩ := Db.mem_updateDeliveries.1 hrow
  split at hid
  · rw [if_pos ‹_›, (hkeeps old).2.2.1]
    exact h old hold ((hkeeps old).1.symm.trans hid)
  · rw [if_neg ‹_›]
    exact h old hold hid

theorem OwnId.of_mem (h : db.WellFormed) (hrow : row ∈ db.deliveries)
    (hname : row.subscriptionName = a) : OwnId a db row.id := fun _ hother hid =>
  h.eq_of_id hother hrow hid ▸ hname

namespace AgreeOff

/-- A write on a record of `a`. -/
theorem own_id (h : s.db.subscriptions = subs) {id : ℕ} (hown : OwnId a s.db id)
    (update : Delivery → Delivery)
    (hname : ∀ row, (update row).subscriptionName = row.subscriptionName) :
    AgreeOff a subs s { s with db := s.db.updateDeliveries (fun row => row.id = id) update } :=
  ⟨.own h hname fun row hrow hid => hown row hrow (of_decide_eq_true hid), rfl⟩

theorem pullMessages_own (h : s.db.subscriptions = subs) (ackDeadlineSeconds now : ℤ)
    {rows : List Delivery}
    (hrows : ∀ row ∈ rows, row.subscriptionName = a ∧ OwnId a s.db row.id) :
    AgreeOff a subs s (State.pullMessages ackDeadlineSeconds now s rows) := by
  induction rows generalizing s with
  | nil => exact .refl h
  | cons row rows ih =>
    obtain ⟨⟨hname, hown⟩, hrest⟩ := List.forall_mem_cons.1 hrows
    rw [State.pullMessages]
    split
    · exact .refl h
    · rename_i s' hone
      unfold State.pullOne at hone
      split at hone
      · obtain rfl := Option.some.inj hone
        exact ih h hrest
      · obtain ⟨newDeadline, -, rfl⟩ := Option.map_eq_some_iff.1 hone
        have hupdated := own_id h hown (fun other => { other with
          ackDeadline := newDeadline, deliveryAttempt := row.deliveryAttempt + 1 }) fun _ => rfl
        have hpulled := hupdated.emit_own [.pulled row] fun event hevent => by
          obtain rfl := List.mem_singleton.1 hevent
          simp [Event.toOthers, Event.delivered?, ofOthers, hname]
        refine hpulled.trans (ih h fun other hother => ⟨(hrest other hother).1, ?_⟩)
        exact (hrest other hother).2.updateDeliveries fun _ => ⟨rfl, rfl, rfl, rfl⟩

/-! ## The service -/

theorem publish (h : AgreeOff a subs s t) (topicName : JsString)
    (messages : List PublishMessageInput) (now : ℤ) :
    AgreeOff a subs (s.publish topicName messages now) (t.publish topicName messages now) := by
  unfold State.publish
  rw [h.db.getTopicByName, h.db.findActive]
  split
  · exact h
  · exact ⟨h.db.publishMessages .., h.log⟩

theorem pull_own (h : s.db.subscriptions = subs) (hs : History s) (maxMessages : ℕ)
    (ackDeadlineOverride : Option ℤ) (now : ℤ) :
    AgreeOff a subs s (s.pull a maxMessages ackDeadlineOverride now) := by
  unfold State.pull
  split
  · exact .refl h
  · split
    · exact .refl h
    · refine pullMessages_own h _ _ fun row hrow => ?_
      obtain ⟨hmem, hname, -, -⟩ := mem_findDeliverable hrow
      exact ⟨hname, .of_mem hs.keyed.wellFormed hmem hname⟩

theorem pull (h : AgreeOff a subs s t) (hs : History s) (ht : History t) (name : JsString)
    (maxMessages : ℕ) (ackDeadlineOverride : Option ℤ) (now : ℤ) :
    AgreeOff a subs (s.pull name maxMessages ackDeadlineOverride now)
      (t.pull name maxMessages ackDeadlineOverride now) := by
  by_cases hname : name = a
  · subst hname
    exact ((pull_own h.db.left hs ..).symm.trans h).trans (pull_own h.db.right ht ..)
  · unfold State.pull
    rw [h.db.getSubscriptionByName, h.db.findDeliverable hname]
    split
    · exact h
    · split
      · exact h
      · exact h.pullMessages ..

theorem acknowledge (h : AgreeOff a subs s t) (name : JsString) (ackIds : List ℕ) :
    AgreeOff a subs (s.acknowledge name ackIds) (t.acknowledge name ackIds) := by
  unfold State.acknowledge
  rw [h.db.getSubscriptionByName]
  split
  · exact h
  · exact h.acknowledgeMessages name ackIds

theorem acknowledge_own (h : s.db.subscriptions = subs) (ackIds : List ℕ) :
    AgreeOff a subs s (s.acknowledge a ackIds) := by
  unfold State.acknowledge
  split
  · exact .refl h
  · exact acknowledgeMessages_own h ackIds

theorem modify (h : AgreeOff a subs s t) (name : JsString) (ackIds : List ℕ)
    (ackDeadlineSeconds now : ℤ) :
    AgreeOff a subs (s.modify name ackIds ackDeadlineSeconds now)
      (t.modify name ackIds ackDeadlineSeconds now) := by
  unfold State.modify State.modifyAckDeadline
  rw [h.db.getSubscriptionByName]
  split
  · exact h
  · split
    · exact h
    · refine ⟨h.db.foldl (fun db db' ackId h => ?_) ackIds, h.log⟩
      exact h.updateDeliveries fun _ => rfl

theorem seek_own (h : s.db.subscriptions = subs) (hs : History s) (time : JsString) :
    AgreeOff a subs s (s.seek a time) := by
  unfold State.seek State.resetDeliveredMessagesByTime
  split
  · exact .refl h
  · split
    · exact .refl h
    · refine ⟨?_, rfl⟩
      generalize hfound : s.db.deliveries.filter _ = found
      have hown : ∀ row ∈ found, OwnId a s.db row.id := by
        intro row hrow
        obtain ⟨hmem, hrow⟩ := List.mem_filter.1 (hfound ▸ hrow)
        simp only [Bool.and_eq_true, decide_eq_true_eq] at hrow
        exact .of_mem hs.keyed.wellFormed hmem hrow.1
      refine Db.AgreeOff.own_foldl (P := fun db => ∀ row ∈ found, OwnId a db row.id)
        (fun db row hrow hsubs hown => ?_) h hown
      split
      · split
        · refine ⟨.own hsubs (fun _ => rfl) fun other hother hid => ?_, fun other hother => ?_⟩
          · exact hown row hrow other hother (of_decide_eq_true hid)
          · exact (hown other hother).updateDeliveries fun _ => ⟨rfl, rfl, rfl, rfl⟩
        · exact ⟨.refl hsubs, hown⟩
      · exact ⟨.refl hsubs, hown⟩

theorem seek (h : AgreeOff a subs s t) (hs : History s) (ht : History t)
    (name time : JsString) : AgreeOff a subs (s.seek name time) (t.seek name time) := by
  by_cases hname : name = a
  · subst hname
    exact ((seek_own h.db.left hs time).symm.trans h).trans (seek_own h.db.right ht time)
  · unfold State.seek State.resetDeliveredMessagesByTime
    rw [h.db.getSubscriptionByName, h.db.filter_eq]
    · split
      · exact h
      · split
        · exact h
        · refine ⟨h.db.foldl (fun db db' row h => ?_) _, h.log⟩
          rw [h.findMessage]
          split
          · split
            · exact h.updateDeliveries fun _ => rfl
            · exact h
          · exact h
    · intro row hrow
      simp only [Bool.and_eq_true, decide_eq_true_eq] at hrow
      exact decide_eq_true (hrow.1 ▸ hname)

end AgreeOff

/-! ## The engine -/

/-- The subscription has no dead-letter topic. -/
def ForwardsNothing (sub : Subscription) : Prop :=
  ∀ policy ∈ sub.deadLetterPolicy, given policy.deadLetterTopic = none

theorem ForwardsNothing.publishDeadLetter {sub : Subscription} (h : ForwardsNothing sub)
    {policy : DeadLetterPolicy} (hpolicy : sub.exhausted row = some policy) (message : Message)
    (now : ℤ) : s.publishDeadLetter policy message now = s := by
  have hmem : policy ∈ sub.deadLetterPolicy := (Option.filter_eq_some_iff.1 hpolicy).1
  rw [State.publishDeadLetter, h policy hmem]

namespace AgreeOff

variable {outside : Outside} {sub : Subscription}

/-! ### On the subscription itself -/

theorem incrementDeliveryAttempt_own (h : s.db.subscriptions = subs) {id : ℕ}
    (hown : OwnId a s.db id) (newAckDeadline : ℤ) :
    AgreeOff a subs s (s.incrementDeliveryAttempt id newAckDeadline) := by
  unfold State.incrementDeliveryAttempt
  split
  · exact .refl h
  · rename_i record _
    have hupdated := own_id h hown (fun row => { row with
      deliveryAttempt := record.deliveryAttempt + 1, ackDeadline := newAckDeadline }) fun _ => rfl
    refine hupdated.emit_own [_] fun event hevent => ?_
    obtain rfl := List.mem_singleton.1 hevent
    rfl

theorem deliver_own (h : s.db.subscriptions = subs) (hquiet : ForwardsNothing sub)
    (hsub : sub.name = a) (hown : OwnId a s.db row.id) (hname : row.subscriptionName = a)
    (outside : Outside) (message : Message) :
    AgreeOff a subs s (s.deliver outside sub (row, message)).1 := by
  have hposted : AgreeOff a subs s (s.emit [.posted row]) :=
    (refl h).emit_own _ fun event hevent => by
      obtain rfl := List.mem_singleton.1 hevent
      simp [Event.toOthers, Event.delivered?, ofOthers, hname]
  unfold State.deliver State.pushMessage
  split
  · rename_i policy hpolicy
    rw [State.routeToDeadLetter, hquiet.publishDeadLetter hpolicy, hsub]
    have hrouted : AgreeOff a subs s (s.emit [.deadLettered row]) :=
      (refl h).emit_own _ fun event hevent => by
        obtain rfl := List.mem_singleton.1 hevent
        rfl
    exact hrouted.trans (acknowledgeMessages_own hrouted.db.right [row.ackId])
  · rw [hsub]
    split
    · exact hposted.trans (acknowledgeMessages_own hposted.db.right [row.ackId])
    · split
      · exact hposted.trans (incrementDeliveryAttempt_own hposted.db.right hown _)
      · exact hposted

theorem deliverAll_own (h : s.db.subscriptions = subs) (hwf : s.db.WellFormed)
    (hquiet : ForwardsNothing sub) (hsub : sub.name = a) (outside : Outside)
    {items : List (Delivery × Message)}
    (hitems : ∀ item ∈ items, item.1 ∈ s.db.deliveries ∧ item.1.subscriptionName = sub.name)
    (hnodup : ((items.map Prod.fst).map Delivery.id).Nodup) :
    AgreeOff a subs s (s.deliverAll outside sub items).1 := by
  induction items generalizing s with
  | nil => exact .refl h
  | cons item items ih =>
    obtain ⟨row, message⟩ := item
    obtain ⟨⟨hrow, hname⟩, hrest⟩ := List.forall_mem_cons.1 hitems
    obtain ⟨hnotMem, hnodup⟩ := List.nodup_cons.1 hnodup
    have hdelivered := deliver_own h hquiet hsub (.of_mem hwf hrow (hname.trans hsub))
      (hname.trans hsub) outside message
    obtain ⟨hwrites, -, -⟩ := deliver_spec outside hwf hrow hname message
    rw [State.deliverAll]
    split
    · rename_i s' heq
      rw [heq] at hdelivered hwrites
      refine hdelivered.trans (ih hdelivered.db.right hwrites.wellFormed (fun item hitem => ?_)
        hnodup)
      obtain ⟨hmem, hrest⟩ := hrest item hitem
      refine ⟨hwrites.others item.1 hmem fun hid => hnotMem ?_, hrest⟩
      exact List.mem_map.2 ⟨item.1, List.mem_map_of_mem hitem, hid⟩
    · rename_i s' heq
      rw [heq] at hdelivered
      exact hdelivered

theorem visit_own (h : s.db.subscriptions = subs) (hwf : s.db.WellFormed)
    (hquiet : ForwardsNothing sub) (hsub : sub.name = a) (outside : Outside) :
    AgreeOff a subs s (s.visit outside sub).1 := by
  have hsearched : AgreeOff a subs s
      (s.emit [.searched sub.name ((s.batch outside sub).map Prod.fst)]) :=
    (refl h).emit_own _ fun event hevent => by
      obtain rfl := List.mem_singleton.1 hevent
      rfl
  exact hsearched.trans (deliverAll_own hsearched.db.right hwf hquiet hsub outside
    (fun item hitem => ⟨(mem_batch hitem).1, (mem_batch hitem).2.1⟩)
    (batch_nodup outside sub hwf))

/-! ### On another subscription -/

theorem publishDeadLetter (h : AgreeOff a subs s t) (policy : DeadLetterPolicy)
    (message : Message) (now : ℤ) : AgreeOff a subs (s.publishDeadLetter policy message now)
      (t.publishDeadLetter policy message now) := by
  unfold State.publishDeadLetter State.publishFn
  rw [h.db.findActive]
  split
  · exact ⟨h.db.publishMessages .., h.log⟩
  · exact h

theorem deliver (h : AgreeOff a subs s t) (hs : s.db.WellFormed) (ht : t.db.WellFormed)
    (hrow : row ∈ s.db.deliveries) (hrow' : row ∈ t.db.deliveries) (outside : Outside)
    (sub : Subscription) (message : Message) :
    AgreeOff a subs (s.deliver outside sub (row, message)).1
        (t.deliver outside sub (row, message)).1 ∧
      (s.deliver outside sub (row, message)).2 = (t.deliver outside sub (row, message)).2 := by
  unfold State.deliver State.pushMessage
  split
  · exact ⟨((h.publishDeadLetter ..).emit _).acknowledgeMessages .., rfl⟩
  · split
    · exact ⟨(h.emit _).acknowledgeMessages .., rfl⟩
    · split
      · rename_i newDeadline _
        refine ⟨?_, rfl⟩
        simp only [State.incrementDeliveryAttempt, State.emit_db, hs.find_id hrow,
          ht.find_id hrow']
        refine ⟨h.db.updateDeliveries fun _ => rfl, ?_⟩
        exact ((h.emit [.posted row]).emit _).log
      · exact ⟨h.emit _, rfl⟩

theorem deliverAll (h : AgreeOff a subs s t) (hs : s.db.WellFormed) (ht : t.db.WellFormed)
    (outside : Outside) {items : List (Delivery × Message)}
    (hitems : ∀ item ∈ items, item.1 ∈ s.db.deliveries ∧ item.1 ∈ t.db.deliveries ∧
      item.1.subscriptionName = sub.name)
    (hnodup : ((items.map Prod.fst).map Delivery.id).Nodup) :
    AgreeOff a subs (s.deliverAll outside sub items).1 (t.deliverAll outside sub items).1 ∧
      (s.deliverAll outside sub items).2 = (t.deliverAll outside sub items).2 := by
  induction items generalizing s t with
  | nil => exact ⟨h, rfl⟩
  | cons item items ih =>
    obtain ⟨row, message⟩ := item
    obtain ⟨⟨hrow, hrow', hname⟩, hrest⟩ := List.forall_mem_cons.1 hitems
    obtain ⟨hnotMem, hnodup⟩ := List.nodup_cons.1 hnodup
    obtain ⟨hagree, hflag⟩ := h.deliver hs ht hrow hrow' outside sub message
    obtain ⟨hwrites, -, -⟩ := deliver_spec outside hs hrow hname message
    obtain ⟨hwrites', -, -⟩ := deliver_spec outside ht hrow' hname message
    rw [State.deliverAll, State.deliverAll]
    generalize s.deliver outside sub (row, message) = result at hagree hflag hwrites ⊢
    generalize t.deliver outside sub (row, message) = result' at hagree hflag hwrites' ⊢
    obtain ⟨s', flag⟩ := result
    obtain ⟨t', flag'⟩ := result'
    obtain rfl : flag = flag' := hflag
    cases flag with
    | true =>
      refine ih hagree hwrites.wellFormed hwrites'.wellFormed (fun item hitem => ?_) hnodup
      obtain ⟨hmem, hmem', hrest⟩ := hrest item hitem
      have hne : item.1.id ≠ row.id := fun hid =>
        hnotMem (List.mem_map.2 ⟨item.1, List.mem_map_of_mem hitem, hid⟩)
      exact ⟨hwrites.others item.1 hmem hne, hwrites'.others item.1 hmem' hne, hrest⟩
    | false => exact ⟨hagree, rfl⟩

theorem batch (h : AgreeOff a subs s t) (hsub : sub.name ≠ a) (outside : Outside) :
    s.batch outside sub = t.batch outside sub := by
  unfold State.batch State.findPushDeliverableMessages
  rw [h.db.findDeliverable hsub, h.db.findMessage]

theorem visit (h : AgreeOff a subs s t) (hs : s.db.WellFormed) (ht : t.db.WellFormed)
    (hsub : sub.name ≠ a) (outside : Outside) :
    AgreeOff a subs (s.visit outside sub).1 (t.visit outside sub).1 ∧
      (s.visit outside sub).2 = (t.visit outside sub).2 := by
  unfold State.visit
  rw [h.batch hsub outside]
  refine (h.emit _).deliverAll hs ht outside (fun item hitem => ?_) (batch_nodup outside sub ht)
  obtain ⟨hmem, hname, -⟩ := mem_batch hitem
  rw [← h.batch hsub outside] at hitem
  exact ⟨(mem_batch hitem).1, hmem, hname⟩

/-! ### Ticks -/

theorem visitAll_of_returns {sub : Subscription} {subs : List Subscription}
    (h : (s.visitAll outside (sub :: subs)).2 = true) :
    s.visitAll outside (sub :: subs) = (s.visit outside sub).1.visitAll outside subs := by
  rw [State.visitAll] at h ⊢
  split
  · rename_i heq
    rw [heq]
  · rename_i heq
    rw [heq] at h
    cases h

theorem visitAll (h : AgreeOff a subs s t) (hs : History s) (ht : History t)
    {pushed : List Subscription} (hquiet : ∀ sub ∈ pushed, sub.name = a → ForwardsNothing sub)
    (hreturns : (s.visitAll outside pushed).2 = true)
    (hreturns' : (t.visitAll outside pushed).2 = true) :
    AgreeOff a subs (s.visitAll outside pushed).1 (t.visitAll outside pushed).1 := by
  induction pushed generalizing s t with
  | nil => exact h
  | cons sub pushed ih =>
    obtain ⟨hsub, hrest⟩ := List.forall_mem_cons.1 hquiet
    have hvisit : AgreeOff a subs (s.visit outside sub).1 (t.visit outside sub).1 := by
      by_cases hname : sub.name = a
      · have hown := visit_own h.db.left hs.keyed.wellFormed (hsub hname) hname outside
        have hown' := visit_own h.db.right ht.keyed.wellFormed (hsub hname) hname outside
        exact (hown.symm.trans h).trans hown'
      · exact (h.visit hs.keyed.wellFormed ht.keyed.wellFormed hname outside).1
    have heq := visitAll_of_returns hreturns
    have heq' := visitAll_of_returns hreturns'
    rw [heq] at hreturns ⊢
    rw [heq'] at hreturns' ⊢
    exact ih hvisit (hs.visit outside sub) (ht.visit outside sub) hrest hreturns hreturns'

end AgreeOff

/-- A tick goes through all its subscriptions. -/
def Op.completes (w : World) : Op → Bool
  | .tick outside =>
      w.engine.running || (w.state.visitAll outside w.state.db.findPushSubscriptions).2
  | _ => true

def Completes : World → List Op → Prop
  | _, [] => True
  | w, op :: ops => op.completes w = true ∧ Completes (op.apply w) ops

instance : ∀ w ops, Decidable (Completes w ops)
  | _, [] => .isTrue trivial
  | w, op :: ops =>
      have := instDecidableCompletes (op.apply w) ops
      inferInstanceAs (Decidable (op.completes w = true ∧ Completes (op.apply w) ops))

namespace AgreeOff

theorem tick (h : AgreeOff a subs s t) (hs : History s) (ht : History t)
    (hquiet : ∀ sub ∈ subs, sub.name = a → ForwardsNothing sub) {outside : Outside}
    {engine : Engine} (hcompletes : (Op.tick outside).completes ⟨engine, s⟩ = true)
    (hcompletes' : (Op.tick outside).completes ⟨engine, t⟩ = true) :
    (Pubsub.tick outside engine s).1 = (Pubsub.tick outside engine t).1 ∧
      AgreeOff a subs (Pubsub.tick outside engine s).2 (Pubsub.tick outside engine t).2 := by
  have hpushed : s.db.findPushSubscriptions = t.db.findPushSubscriptions := by
    rw [Db.findPushSubscriptions, Db.findPushSubscriptions, h.db.left, h.db.right]
  simp only [Op.completes, Bool.or_eq_true] at hcompletes hcompletes'
  unfold Pubsub.tick
  rw [hpushed] at hcompletes ⊢
  split
  · exact ⟨rfl, h⟩
  · rename_i hidle
    have hreturns := hcompletes.resolve_left hidle
    have hreturns' := hcompletes'.resolve_left hidle
    have hvisited : AgreeOff a subs (s.visitAll outside t.db.findPushSubscriptions).1
        (t.visitAll outside t.db.findPushSubscriptions).1 :=
      h.visitAll hs ht (fun sub hsub => hquiet sub (h.db.right ▸ List.mem_of_mem_filter hsub))
        hreturns hreturns'
    generalize s.visitAll outside t.db.findPushSubscriptions = result at hreturns hvisited ⊢
    generalize t.visitAll outside t.db.findPushSubscriptions = result' at hreturns' hvisited ⊢
    obtain ⟨s', flag⟩ := result
    obtain ⟨t', flag'⟩ := result'
    obtain rfl : flag = true := hreturns
    obtain rfl : flag' = true := hreturns'
    dsimp only
    split
    · exact ⟨rfl, hvisited.db.deleteDeliveries _, hvisited.log⟩
    · exact ⟨rfl, hvisited⟩

/-- **An operation keeps the agreement.** -/
theorem apply {w w' : World} (hengine : w.engine = w'.engine)
    (h : AgreeOff a subs w.state w'.state) (hs : History w.state) (ht : History w'.state)
    (hquiet : ∀ sub ∈ subs, sub.name = a → ForwardsNothing sub) (op : Op)
    (hcompletes : op.completes w = true) (hcompletes' : op.completes w' = true) :
    (op.apply w).engine = (op.apply w').engine ∧
      AgreeOff a subs (op.apply w).state (op.apply w').state := by
  cases op with
  | publish topicName messages now => exact ⟨hengine, h.publish topicName messages now⟩
  | pull name maxMessages override now => exact ⟨hengine, h.pull hs ht name maxMessages override now⟩
  | acknowledge name ackIds => exact ⟨hengine, h.acknowledge name ackIds⟩
  | modifyAckDeadline name ackIds seconds now =>
    exact ⟨hengine, h.modify name ackIds seconds now⟩
  | seek name time => exact ⟨hengine, h.seek hs ht name time⟩
  | cleanup => exact ⟨hengine, h.db.deleteDeliveries _, h.log⟩
  | tick outside =>
    obtain ⟨engine, s⟩ := w
    obtain ⟨engine', t⟩ := w'
    obtain rfl : engine = engine' := hengine
    exact h.tick hs ht hquiet hcompletes hcompletes'

/-- **A run keeps it.** -/
theorem run {w w' : World} (hengine : w.engine = w'.engine)
    (h : AgreeOff a subs w.state w'.state) (hs : History w.state) (ht : History w'.state)
    (hquiet : ∀ sub ∈ subs, sub.name = a → ForwardsNothing sub) {ops : List Op}
    (hcompletes : Completes w ops) (hcompletes' : Completes w' ops) :
    AgreeOff a subs (run w ops).state (run w' ops).state := by
  induction ops generalizing w w' with
  | nil => exact h
  | cons op ops ih =>
    obtain ⟨hengine', h'⟩ := h.apply hengine hs ht hquiet op hcompletes.1 hcompletes'.1
    exact ih hengine' h' (hs.apply op) (ht.apply op) hcompletes.2 hcompletes'.2

end AgreeOff

/-! ## Pulls and deadlines -/

theorem pullMessages_log (ackDeadlineSeconds now : ℤ) (s : State) (rows : List Delivery) :
    ∃ events, (State.pullMessages ackDeadlineSeconds now s rows).log = s.log ++ events ∧
      ∀ event ∈ events, ∃ row ∈ rows, event = .pulled row := by
  induction rows generalizing s with
  | nil => exact ⟨[], (List.append_nil _).symm, nofun⟩
  | cons row rows ih =>
    rw [State.pullMessages]
    split
    · exact ⟨[], (List.append_nil _).symm, nofun⟩
    · rename_i s' hone
      obtain ⟨events, hevents, hrows⟩ := ih s'
      unfold State.pullOne at hone
      split at hone
      · obtain rfl := Option.some.inj hone
        refine ⟨events, hevents, fun event hevent => ?_⟩
        obtain ⟨found, hfound, heq⟩ := hrows event hevent
        exact ⟨found, List.mem_cons_of_mem _ hfound, heq⟩
      · obtain ⟨newDeadline, -, rfl⟩ := Option.map_eq_some_iff.1 hone
        refine ⟨.pulled row :: events, hevents.trans (List.append_assoc ..), ?_⟩
        intro event hevent
        rcases List.mem_cons.1 hevent with rfl | hevent
        · exact ⟨row, List.mem_cons_self, rfl⟩
        · obtain ⟨found, hfound, heq⟩ := hrows event hevent
          exact ⟨found, List.mem_cons_of_mem _ hfound, heq⟩

/-- What a pull returns is pending and past its deadline, in the order of the texts. -/
theorem pulled_of_pull {name : JsString} {maxMessages : ℕ} {ackDeadlineOverride : Option ℤ}
    {now : ℤ} {events : List Event}
    (h : (s.pull name maxMessages ackDeadlineOverride now).log = s.log ++ events)
    (hrow : .pulled row ∈ events) :
    row ∈ s.db.deliveries ∧ row.ackStatus = .pending ∧ expired row.ackDeadline now = true := by
  unfold State.pull at h
  split at h
  · obtain rfl := List.append_cancel_left (h.symm.trans (List.append_nil _).symm)
    exact absurd hrow List.not_mem_nil
  · split at h
    · obtain rfl := List.append_cancel_left (h.symm.trans (List.append_nil _).symm)
      exact absurd hrow List.not_mem_nil
    · obtain ⟨events', hevents', hrows⟩ := pullMessages_log _ now s _
      obtain rfl := List.append_cancel_left (h.symm.trans hevents')
      obtain ⟨found, hfound, heq⟩ := hrows _ hrow
      obtain rfl := Event.pulled.inj heq
      obtain ⟨hmem, -, hpending, hexpired⟩ := mem_findDeliverable hfound
      exact ⟨hmem, hpending, hexpired⟩

theorem expired_iff {deadline now : ℤ} (hle : yearZero ≤ now) (hlt : now < year10000) :
    expired deadline now = true ↔ deadline ≤ now ∨ year10000 ≤ deadline := by
  rw [expired, decide_eq_true_eq, toISOString_le_iff hle hlt]

/-! ## Acknowledged messages -/

/-- **An acknowledgement in any run of operations.** What was acknowledged on a subscription is not
delivered to it later. The acknowledgement leaves the records of the other subscriptions alone; and
where no message goes to a dead-letter topic, the other subscriptions are later delivered what they
would have been without it, as long as ticks run to their ends. A pull returns messages that were
not acknowledged and whose deadline has passed, if that lies before the year 10000. -/
theorem acknowledged_means_gone (engine : Engine) (db : Db) (h : db.Keyed) (ops : List Op) :
    let w := run ⟨engine, ⟨db, []⟩⟩ ops
    w.state.log.Pairwise GoneAfter ∧
    (∀ a ackIds, AgreeOff a w.state.db.subscriptions w.state (w.state.acknowledge a ackIds)) ∧
    (∀ a ackIds later,
      (∀ sub ∈ w.state.db.subscriptions, sub.name = a → ForwardsNothing sub) →
      Completes w later → Completes ((Op.acknowledge a ackIds).apply w) later →
      (run ((Op.acknowledge a ackIds).apply w) later).state.log.filter (Event.toOthers a) =
        (run w later).state.log.filter (Event.toOthers a)) ∧
    ∀ name maxMessages ackDeadlineOverride now events row, yearZero ≤ now → now < year10000 →
      (w.state.pull name maxMessages ackDeadlineOverride now).log = w.state.log ++ events →
      .pulled row ∈ events → row ∈ w.state.db.deliveries ∧ row.ackStatus = .pending ∧
        (row.ackDeadline < year10000 → row.ackDeadline ≤ now) := by
  intro w
  have hhistory : History w.state := History.run h.history ops
  refine ⟨hhistory.gone, fun a ackIds => .acknowledge_own rfl ackIds, ?_, ?_⟩
  · intro a ackIds later hquiet hcompletes hcompletes'
    have hagree : AgreeOff a w.state.db.subscriptions w.state (w.state.acknowledge a ackIds) :=
      .acknowledge_own rfl ackIds
    have hengine : ((Op.acknowledge a ackIds).apply w).engine = w.engine := rfl
    exact (AgreeOff.run hengine hagree.symm (hhistory.acknowledge a ackIds) hhistory hquiet
      hcompletes' hcompletes).log
  · intro name maxMessages ackDeadlineOverride now events row hle hlt hlog hrow
    obtain ⟨hmem, hpending, hexpired⟩ := pulled_of_pull hlog hrow
    refine ⟨hmem, hpending, fun hdeadline => ?_⟩
    exact ((expired_iff hle hlt).1 hexpired).resolve_right (not_le.2 hdeadline)

section Sample

/-- The push subscription `a` forwards to the topic of `b`. -/
def forwardingDb : Db where
  topics := [⟨0, js "main"⟩, ⟨1, js "dead"⟩]
  subscriptions :=
    [⟨2, js "a", js "main", some (js "http://localhost/push"), 10,
      some ⟨some (js "dead"), some 1⟩, none, false⟩,
      ⟨3, js "b", js "dead", none, 10, none, none, false⟩]
  messages := [⟨4, js "main", none, none, none, 0⟩]
  deliveries := [⟨6, 5, js "a", 4, 1, 0, .pending⟩]
  nextId := 7

def forwardingOps : List Op :=
  [.tick ⟨fun _ => 1000, fun _ => 1000, fun _ => .ok⟩, .pull (js "b") 1 none 2000]

/-- An acknowledgement on `a` keeps a message from `b`. -/
theorem acknowledge_keeps_dead_letter :
    ∃ (db : Db) (engine : Engine) (a : JsString) (ackIds : List ℕ) (later : List Op), db.Keyed ∧
      (run ((Op.acknowledge a ackIds).apply ⟨engine, ⟨db, []⟩⟩) later).state.log.filter
          (Event.toOthers a) ≠
        (run ⟨engine, ⟨db, []⟩⟩ later).state.log.filter (Event.toOthers a) := by
  refine ⟨forwardingDb, ⟨false, 0, 60⟩, js "a", [5], forwardingOps, ?_⟩
  decide +kernel

def plainDb : Db :=
  { forwardingDb with subscriptions := forwardingDb.subscriptions.map fun sub =>
      { sub with deadLetterPolicy := none } }

/-- Without the policy the same tick completes, and `b` is delivered the same. -/
theorem acknowledged_means_gone_plain :
    (run ((Op.acknowledge (js "a") [5]).apply ⟨⟨false, 0, 60⟩, ⟨plainDb, []⟩⟩)
        forwardingOps).state.log.filter (Event.toOthers (js "a")) =
      (run ⟨⟨false, 0, 60⟩, ⟨plainDb, []⟩⟩ forwardingOps).state.log.filter
        (Event.toOthers (js "a")) := by
  refine (acknowledged_means_gone ⟨false, 0, 60⟩ plainDb (by decide +kernel) []).2.2.1 (js "a") [5]
    forwardingOps ?_ (by decide +kernel) (by decide +kernel)
  intro sub hsub _ policy hpolicy
  obtain ⟨old, -, rfl⟩ := List.mem_map.1 hsub
  exact nomatch hpolicy

end Sample

end Kinglet.Pubsub
