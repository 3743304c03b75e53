import Kinglet.Pubsub.Runs

/-!
# Dead letters

The attempts of one push delivery over a run of ticks. The count of attempts is compared with the
limit of the dead-letter policy before each POST, it goes up by one when the POST fails, and nothing
sets it back. Publishes, deadline changes, seeks and cleanups may come between the ticks.

`Course` lists the states of a delivery record: it waits after some failed attempts, was delivered,
or was dead-lettered. `Publishes` accounts for the messages a tick publishes. A POST that fails
without a date for the next attempt counts nothing, so the results need every failed attempt of the
record to be rescheduled.

## Main statements

* `Course.deliver`: the handling of one message, of this record or of another;
* `Course.apply`: one operation of a run;
* `dead_lettering`: a whole run.
-/

namespace Kinglet.Pubsub

open Js

variable {s s' : State} {db db' db'' : Db} {row row₀ : Delivery} {sub sub₀ : Subscription}
  {outside : Outside} {m : ℕ}

/-! ## The course of a record -/

/-- The events of failed attempts: each POST with its reschedule. -/
def failures (attempts : List (Delivery × Delivery)) : List Event :=
  attempts.flatMap fun (row, row') => [.posted row, .rescheduled row row']

/-- The record is pending after so many attempts. -/
def Waiting (row₀ : Delivery) (attempts : ℕ) (db : Db) : Prop :=
  ∃ row ∈ db.deliveries, row.id = row₀.id ∧ row.key = row₀.key ∧ row.ackStatus = .pending ∧
    row.deliveryAttempt = attempts

/-- The record is acknowledged, as long as it is there. -/
def Settled (id : ℕ) (db : Db) : Prop :=
  id < db.nextId ∧ ∀ row ∈ db.deliveries, row.id = id → row.ackStatus = .acked

/-- What became of a record by the log, where `m` attempts are allowed. -/
inductive Course (row₀ : Delivery) (m : ℕ) (s : State) : Prop
  | waiting (attempts : List (Delivery × Delivery)) (hlog : about row₀ s.log = failures attempts)
      (hle : attempts.length ≤ m) (hrow : Waiting row₀ attempts.length s.db)
  | delivered (attempts : List (Delivery × Delivery)) (row : Delivery)
      (hlog : about row₀ s.log = failures attempts ++ [.posted row, .acked row])
      (hlt : attempts.length < m) (hsettled : Settled row₀.id s.db)
  | deadLettered (attempts : List (Delivery × Delivery)) (row : Delivery)
      (hlog : about row₀ s.log = failures attempts ++ [.deadLettered row, .acked row])
      (hall : attempts.length = m) (hkey : row.key = row₀.key)
      (hsettled : Settled row₀.id s.db)

/-- Every failed attempt within the limit can be rescheduled. -/
def CanRetry (outside : Outside) (sub : Subscription) (id m : ℕ) : Prop :=
  ∀ attempt < m, outside.post id ≠ .ok →
    ((outside.post id).failures.findSome? (retryDeadline attempt sub.retryPolicy)).isSome

/-- The number of attempts a policy allows; a limit below zero allows none. -/
def Subscription.Allows (sub : Subscription) (m : ℕ) : Prop :=
  ∃ policy limit, sub.deadLetterPolicy = some policy ∧
    policy.maxDeliveryAttempts = some limit ∧ limit.toNat = m

theorem failures_append (attempts : List (Delivery × Delivery)) (row row' : Delivery) :
    failures (attempts ++ [(row, row')]) =
      failures attempts ++ [.posted row, .rescheduled row row'] := by
  simp [failures]

theorem Subscription.Allows.exhausted_eq_none (h : sub.Allows m) :
    sub.exhausted row = none ↔ row.deliveryAttempt < m := by
  obtain ⟨policy, limit, hpolicy, hlimit, rfl⟩ := h
  rw [Subscription.exhausted, hpolicy, Option.filter_some, hlimit]
  simp only [Option.any_some, decide_eq_true_eq]
  constructor
  · intro hnone
    by_contra hge
    rw [if_pos (by omega)] at hnone
    cases hnone
  · intro hlt
    exact if_neg (by omega)

/-! ## Writes that leave a record alone -/

theorem Settled.updateDeliveries (h : Settled row₀.id db) {condition : Delivery → Bool}
    {update : Delivery → Delivery} (hkeeps : Db.KeepsIdentity update)
    (hstatus : ∀ row, row.ackStatus = .acked → (update row).ackStatus = .acked) :
    Settled row₀.id (db.updateDeliveries condition update) := by
  refine ⟨h.1, fun row hrow hid => ?_⟩
  obtain ⟨old, hold, rfl⟩ := Db.mem_updateDeliveries.1 hrow
  by_cases hcondition : condition old = true
  · rw [if_pos hcondition] at hid ⊢
    exact hstatus old (h.2 old hold ((hkeeps old).1.symm.trans hid))
  · rw [if_neg hcondition] at hid ⊢
    exact h.2 old hold hid

theorem Settled.deleteDeliveries (h : Settled row₀.id db) (condition : Delivery → Bool) :
    Settled row₀.id (db.deleteDeliveries condition) :=
  ⟨h.1, fun row hrow => h.2 row (List.mem_of_mem_filter hrow)⟩

theorem Settled.createDelivery (h : Settled row₀.id db) (subscriptionName : JsString)
    (messageId : ℕ) : Settled row₀.id (db.createDelivery subscriptionName messageId) := by
  refine ⟨h.1.trans_le (Nat.le_add_right _ 2), fun row hrow hid => ?_⟩
  rcases List.mem_append.1 hrow with hrow | hrow
  · exact h.2 row hrow hid
  · obtain rfl := List.mem_singleton.1 hrow
    have hbelow := h.1
    have hnew : db.nextId + 1 = row₀.id := hid
    omega

theorem Settled.publishMessages (h : Settled row₀.id db) (topicName : JsString)
    (names : List JsString) (now : ℤ) (inputs : List PublishMessageInput) :
    Settled row₀.id (State.publishMessages topicName names now db inputs).1 := by
  have hfanOut : ∀ {db : Db} (messageId : ℕ) (names : List JsString), Settled row₀.id db →
      Settled row₀.id (State.fanOut messageId db names) := by
    intro db messageId names h
    induction names generalizing db with
    | nil => exact h
    | cons name names ih => exact ih (h.createDelivery name messageId)
  induction inputs generalizing db with
  | nil => exact h
  | cons input inputs ih =>
    have hmessage : Settled row₀.id (db.createMessage topicName input now) :=
      ⟨h.1.trans (Nat.lt_succ_self _), h.2⟩
    exact ih (hfanOut db.nextId names hmessage)

theorem Waiting.mono {attempts : ℕ} (h : Waiting row₀ attempts db)
    (hsub : db.deliveries ⊆ db'.deliveries) : Waiting row₀ attempts db' := by
  obtain ⟨row, hrow, hrest⟩ := h
  exact ⟨row, hsub hrow, hrest⟩

/-- Updates that leave the status and the attempts alone. -/
theorem Waiting.updateDeliveries {attempts : ℕ} (h : Waiting row₀ attempts db)
    {condition : Delivery → Bool} {update : Delivery → Delivery}
    (hkeeps : Db.KeepsIdentity update)
    (hrest : ∀ row, (update row).ackStatus = row.ackStatus ∧
      (update row).deliveryAttempt = row.deliveryAttempt) :
    Waiting row₀ attempts (db.updateDeliveries condition update) := by
  obtain ⟨row, hrow, hid, hkey, hpending, hattempt⟩ := h
  refine ⟨_, Db.mem_updateDeliveries.2 ⟨row, hrow, rfl⟩, ?_⟩
  split
  · obtain ⟨hsame, -, hname, hmessage⟩ := hkeeps row
    exact ⟨hsame.trans hid, (Prod.ext hname hmessage : (update row).key = row.key).trans hkey,
      (hrest row).1.trans hpending, (hrest row).2.trans hattempt⟩
  · exact ⟨hid, hkey, hpending, hattempt⟩

/-- Appended records, and a log that says nothing of this one. -/
theorem Course.congr (h : Course row₀ m s) (hlog : about row₀ s'.log = about row₀ s.log)
    (hwaiting : ∀ attempts, Waiting row₀ attempts s.db → Waiting row₀ attempts s'.db)
    (hsettled : Settled row₀.id s.db → Settled row₀.id s'.db) : Course row₀ m s' := by
  cases h with
  | waiting attempts hlog' hle hrow =>
    exact .waiting attempts (hlog.trans hlog') hle (hwaiting _ hrow)
  | delivered attempts row hlog' hlt hdone =>
    exact .delivered attempts row (hlog.trans hlog') hlt (hsettled hdone)
  | deadLettered attempts row hlog' hall hkey hdone =>
    exact .deadLettered attempts row (hlog.trans hlog') hall hkey (hsettled hdone)

/-! ## The handling of one message -/

/-- After an acknowledgement the record is settled. -/
theorem settled_acknowledge (h : s.db.WellFormed) (hrow : row ∈ s.db.deliveries) :
    Settled row.id (s.acknowledgeMessages row.subscriptionName [row.ackId]).db := by
  refine ⟨(h.below row hrow).1, fun other hother hid => ?_⟩
  obtain ⟨old, hold, rfl⟩ := Db.mem_updateDeliveries.1 hother
  have hack : Delivery.isAck row.subscriptionName row.ackId row = true := by
    simp [Delivery.isAck]
  have hsame : old.id = row.id := by
    split at hid <;> exact hid
  obtain rfl := h.eq_of_id hold hrow hsame
  rw [if_pos hack]

theorem Settled.acknowledge (h : Settled row₀.id s.db) (name : JsString) (ackId : ℕ) :
    Settled row₀.id (s.acknowledgeMessages name [ackId]).db :=
  h.updateDeliveries (fun _ => ⟨rfl, rfl, rfl, rfl⟩) fun _ _ => rfl

theorem Settled.publishDeadLetter (h : Settled row₀.id s.db) (policy : DeadLetterPolicy)
    (message : Message) (now : ℤ) :
    Settled row₀.id (s.publishDeadLetter policy message now).db := by
  unfold State.publishDeadLetter
  split
  · exact h.publishMessages _ _ _ _
  · exact h

theorem Settled.incrementDeliveryAttempt (h : Settled row₀.id s.db) (id : ℕ) (deadline : ℤ) :
    Settled row₀.id (s.incrementDeliveryAttempt id deadline).db := by
  unfold State.incrementDeliveryAttempt
  split
  · exact h
  · exact h.updateDeliveries (fun _ => ⟨rfl, rfl, rfl, rfl⟩) fun _ hacked => hacked

theorem Settled.deliver (h : Settled row₀.id s.db) (outside : Outside) (sub : Subscription)
    (item : Delivery × Message) : Settled row₀.id (s.deliver outside sub item).1.db := by
  unfold State.deliver State.pushMessage State.routeToDeadLetter
  split
  · exact Settled.acknowledge (s := (s.publishDeadLetter _ _ _).emit _)
      (h.publishDeadLetter _ _ _) _ _
  · dsimp only
    split
    · exact Settled.acknowledge (s := s.emit _) h _ _
    · split
      · exact Settled.incrementDeliveryAttempt (s := s.emit _) h _ _
      · exact h

/-- The record that was rescheduled waits with one more attempt. -/
theorem waiting_incrementDeliveryAttempt (h : s.db.WellFormed) (hrow : row ∈ s.db.deliveries)
    (hid : row.id = row₀.id) (hkey : row.key = row₀.key) (hpending : row.ackStatus = .pending)
    (deadline : ℤ) :
    Waiting row₀ (row.deliveryAttempt + 1) (s.incrementDeliveryAttempt row.id deadline).db := by
  rw [State.incrementDeliveryAttempt, h.find_id hrow]
  refine ⟨row.retried deadline, Db.mem_updateDeliveries.2 ⟨row, hrow, ?_⟩, hid, hkey, hpending, rfl⟩
  rw [if_pos (by simp)]
  rfl

theorem about_congr (hid : row.id = row₀.id) (log : List Event) : about row₀ log = about row log := by
  simp only [about, hid]

theorem settled_routeToDeadLetter (h : s.db.WellFormed) (hrow : row ∈ s.db.deliveries)
    (policy : DeadLetterPolicy) (message : Message) (now : ℤ) :
    Settled row.id (s.routeToDeadLetter policy row message row.subscriptionName now).db := by
  obtain ⟨happended, -⟩ := appended_publishDeadLetter h policy message now
  exact settled_acknowledge
    (s := (s.publishDeadLetter policy message now).emit [.deadLettered row])
    happended.wellFormed (happended.deliveries.subset hrow)

/-- A failed POST with a date for the next attempt. -/
theorem deliver_of_retry (hpolicy : sub.exhausted row = none) (hpost : outside.post row.id ≠ .ok)
    {deadline : ℤ} (hdeadline : (outside.post row.id).failures.findSome?
      (retryDeadline row.deliveryAttempt sub.retryPolicy) = some deadline) (message : Message) :
    handling outside sub row = ([.posted row, .rescheduled row (row.retried deadline)], true) ∧
      s.deliver outside sub (row, message) =
        ((s.emit [.posted row]).incrementDeliveryAttempt row.id deadline, true) := by
  unfold handling State.deliver State.pushMessage
  rw [hpolicy]
  cases hanswer : outside.post row.id with
  | ok => exact absurd hanswer hpost
  | refused | unreachable =>
    rw [hanswer] at hdeadline
    simp only [hdeadline, and_self]

/-- **One message**: the record goes on by its own attempt, and by no other. -/
theorem Course.deliver (h : Course row₀ m s) (hwf : s.db.WellFormed) (hrow : row ∈ s.db.deliveries)
    (hname : row.subscriptionName = sub.name) (hpending : row.ackStatus = .pending)
    (hsub : row.key = row₀.key → sub = sub₀) (hallows : sub₀.Allows m)
    (hretry : CanRetry outside sub₀ row₀.id m) (message : Message) :
    Course row₀ m (s.deliver outside sub (row, message)).1 := by
  obtain ⟨hwrites, hlog, -⟩ := deliver_spec outside hwf hrow hname message
  by_cases hid : row.id = row₀.id
  · have habout := hlog ▸ about_append row₀ s.log (handling outside sub row).1
    rw [about_congr hid (handling outside sub row).1, about_handling_self] at habout
    cases h with
    | delivered attempts other hlog' hlt hsettled =>
      cases hpending.symm.trans (hsettled.2 row hrow hid)
    | deadLettered attempts other hlog' hall hkey hsettled =>
      cases hpending.symm.trans (hsettled.2 row hrow hid)
    | waiting attempts hlog' hle hwaiting =>
      obtain ⟨found, hfound, hfoundId, hkey, -, hattempt⟩ := hwaiting
      obtain rfl := hwf.eq_of_id hfound hrow (hfoundId.trans hid.symm)
      obtain rfl := hsub hkey
      rw [hlog'] at habout
      have hlimit : sub.exhausted found = none ↔ found.deliveryAttempt < m :=
        hallows.exhausted_eq_none
      rw [hattempt] at hlimit
      cases hpolicy : sub.exhausted found with
      | some policy =>
        have hall : attempts.length = m := by
          have hnot := hlimit.not.1 (fun h => by cases h.symm.trans hpolicy)
          omega
        have hhandling : handling outside sub found =
            ([.deadLettered found, .acked found], true) := by rw [handling, hpolicy]
        rw [hhandling] at habout
        refine .deadLettered attempts found habout hall hkey ?_
        have hsettled := settled_routeToDeadLetter hwf hrow policy message
          (outside.publishedAt found.id)
        rw [hid, hname] at hsettled
        simpa [State.deliver, hpolicy, ← hid] using hsettled
      | none =>
        have hlt := hlimit.1 hpolicy
        cases hpost : outside.post found.id with
        | ok =>
          have hhandling : handling outside sub found =
              ([.posted found, .acked found], true) := by rw [handling, hpolicy, hpost]
          rw [hhandling] at habout
          refine .delivered attempts found habout hlt ?_
          have hsettled := settled_acknowledge (s := s.emit [.posted found]) hwf hrow
          rw [hid, hname] at hsettled
          simpa [State.deliver, State.pushMessage, hpolicy, hpost] using hsettled
        | refused | unreachable =>
          have hfailed : outside.post found.id ≠ .ok := fun h => by cases h.symm.trans hpost
          have hsome := hretry attempts.length hlt (hid ▸ hfailed)
          rw [← hid, ← hattempt] at hsome
          obtain ⟨deadline, hdeadline⟩ := Option.isSome_iff_exists.1 hsome
          obtain ⟨hhandling, hdeliver⟩ :=
            deliver_of_retry (s := s) hpolicy hfailed hdeadline message
          rw [hhandling, ← failures_append] at habout
          have hwaits := waiting_incrementDeliveryAttempt (s := s.emit [.posted found])
            hwf hrow hid hkey hpending deadline
          rw [hattempt] at hwaits
          refine .waiting (attempts ++ [(found, found.retried deadline)]) habout ?_ ?_
          · rw [List.length_append]
            exact hlt
          · rw [List.length_append, hdeliver]
            exact hwaits
  · have hnone : about row₀ (handling outside sub row).1 = [] := by
      refine about_eq_nil fun event hevent other hother hsame => hid ?_
      obtain rfl := Option.some.inj ((of_mem_handling hevent).1.symm.trans hother)
      exact hsame
    refine h.congr ?_ (fun attempts hwaiting => ?_) fun hsettled => hsettled.deliver outside sub _
    · rw [hlog, about_append, hnone, List.append_nil]
    · obtain ⟨found, hfound, hfoundId, hrest⟩ := hwaiting
      exact ⟨found, hwrites.others found hfound fun hsame => hid (hsame.symm.trans hfoundId),
        hfoundId, hrest⟩

/-! ## What a tick publishes -/

/-- A message without its id and its time. -/
def Message.content (message : Message) :
    JsString × Option JsString × Option JsString × Option JsString :=
  (message.topicName, message.data, message.attributes, message.orderingKey)

def Event.deadLetter? : Event → Option Delivery
  | .deadLettered row => some row
  | _ => none

/-- What the dead-letter topic of a record gets: the message again, when there is such a topic and
its attributes can be read. -/
def deadLetterOf (db : Db) (row : Delivery) :
    Option (JsString × Option JsString × Option JsString × Option JsString) := do
  let sub ← db.getSubscriptionByName row.subscriptionName
  let policy ← sub.deadLetterPolicy
  let topicName ← given policy.deadLetterTopic
  let message ← db.findMessage row.messageId
  let input ← message.deadLetter
  return (topicName, input.data, input.attributes.bind jsonStringify, input.orderingKey)

/-- The messages added are those of the dead-lettered records, one for each, in order. -/
structure Publishes (db db' : Db) (log : List Event) : Prop where
  subscriptions : db'.subscriptions = db.subscriptions
  messages : ∃ new : List Message, db'.messages = db.messages ++ new ∧
    new.map Message.content = (log.filterMap Event.deadLetter?).filterMap (deadLetterOf db')
  found : ∀ row ∈ log.filterMap Event.deadLetter?, (db'.findMessage row.messageId).isSome

theorem findMessage_append {new : List Message} (h : db'.messages = db.messages ++ new)
    {messageId : ℕ} {message : Message} (hfound : db.findMessage messageId = some message) :
    db'.findMessage messageId = some message := by
  rw [Db.findMessage, h, List.find?_append]
  rw [Db.findMessage] at hfound
  rw [hfound]
  rfl

theorem Publishes.quiet {log : List Event} (hsubs : db'.subscriptions = db.subscriptions)
    (hmessages : db'.messages = db.messages) (hlog : log.filterMap Event.deadLetter? = []) :
    Publishes db db' log where
  subscriptions := hsubs
  messages := ⟨[], by rw [hmessages, List.append_nil], by rw [hlog]; rfl⟩
  found := by
    rw [hlog]
    nofun

theorem Publishes.trans {log log' : List Event} (h : Publishes db db' log)
    (h' : Publishes db' db'' log') : Publishes db db'' (log ++ log') := by
  obtain ⟨new, hnew, hcontent⟩ := h.messages
  obtain ⟨new', hnew', hcontent'⟩ := h'.messages
  have hlater : ∀ row ∈ log.filterMap Event.deadLetter?,
      deadLetterOf db'' row = deadLetterOf db' row := by
    intro row hrow
    obtain ⟨message, hmessage⟩ := Option.isSome_iff_exists.1 (h.found row hrow)
    rw [deadLetterOf, deadLetterOf, hmessage, findMessage_append hnew' hmessage,
      Db.getSubscriptionByName, Db.getSubscriptionByName, h'.subscriptions]
  refine ⟨h'.subscriptions.trans h.subscriptions, ⟨new ++ new', ?_, ?_⟩, ?_⟩
  · rw [hnew', hnew, List.append_assoc]
  · rw [List.map_append, hcontent, hcontent', List.filterMap_append, List.filterMap_append,
      List.filterMap_congr hlater]
  · intro row hrow
    rw [List.filterMap_append] at hrow
    rcases List.mem_append.1 hrow with hearlier | hrow
    · obtain ⟨message, hmessage⟩ := Option.isSome_iff_exists.1 (h.found row hearlier)
      rw [findMessage_append hnew' hmessage]
      rfl
    · exact h'.found row hrow

theorem fanOut_keeps (names : List JsString) (messageId : ℕ) (db : Db) :
    (State.fanOut messageId db names).messages = db.messages ∧
      (State.fanOut messageId db names).subscriptions = db.subscriptions := by
  induction names generalizing db with
  | nil => exact ⟨rfl, rfl⟩
  | cons name names ih => exact ih (db.createDelivery name messageId)

/-- One message is published for one input. -/
theorem messages_publishFn (s : State) (topicName : JsString) (input : PublishMessageInput)
    (now : ℤ) : ∃ message : Message, (s.publishFn topicName input now).db.messages =
        s.db.messages ++ [message] ∧
      message.content = (topicName, input.data, input.attributes.bind jsonStringify,
        input.orderingKey) ∧
      (s.publishFn topicName input now).db.subscriptions = s.db.subscriptions := by
  have hone := fanOut_keeps ((s.db.findActiveSubscriptionsForTopic topicName).map Subscription.name)
    s.db.nextId (s.db.createMessage topicName input now)
  exact ⟨_, hone.1, rfl, hone.2⟩

theorem Publishes.deliver (outside : Outside) {message : Message}
    (hsub : s.db.getSubscriptionByName row.subscriptionName = some sub)
    (hmessage : s.db.findMessage row.messageId = some message) :
    Publishes s.db (s.deliver outside sub (row, message)).1.db (handling outside sub row).1 := by
  cases hpolicy : sub.exhausted row with
  | none =>
    have hquiet : ∀ event ∈ (handling outside sub row).1, event.deadLetter? = none := by
      intro event hevent
      rcases handling_cases outside sub row with
        ⟨heq, hsome⟩ | ⟨heq, -⟩ | ⟨deadline, heq, -⟩ | ⟨heq, -⟩
      · exact absurd hpolicy hsome
      all_goals
        rw [heq] at hevent
        simp only [List.mem_cons, List.not_mem_nil, or_false] at hevent
      · rcases hevent with rfl | rfl <;> rfl
      · rcases hevent with rfl | rfl <;> rfl
      · rw [hevent]
        rfl
    have hdb : (s.deliver outside sub (row, message)).1.db.subscriptions = s.db.subscriptions ∧
        (s.deliver outside sub (row, message)).1.db.messages = s.db.messages := by
      unfold State.deliver State.pushMessage State.incrementDeliveryAttempt
      rw [hpolicy]
      dsimp only
      split
      · exact ⟨rfl, rfl⟩
      · split
        · split <;> exact ⟨rfl, rfl⟩
        · exact ⟨rfl, rfl⟩
    exact .quiet hdb.1 hdb.2 (List.filterMap_eq_nil_iff.2 hquiet)
  | some policy =>
    have hgiven : sub.deadLetterPolicy = some policy := (Option.filter_eq_some_iff.1 hpolicy).1
    have hhandling : (handling outside sub row).1 = [.deadLettered row, .acked row] := by
      rw [handling, hpolicy]
    rw [hhandling]
    have hdeliver : (s.deliver outside sub (row, message)).1 =
        s.routeToDeadLetter policy row message sub.name (outside.publishedAt row.id) := by
      simp [State.deliver, hpolicy]
    rw [hdeliver]
    -- the acknowledgement after it adds no message
    have hafter : ∀ s' : State, s'.db.subscriptions = s.db.subscriptions →
        (∃ new : List Message, s'.db.messages = s.db.messages ++ new ∧
          new.map Message.content = (deadLetterOf s'.db row).toList) →
        Publishes s.db ((s'.emit [.deadLettered row]).acknowledgeMessages sub.name [row.ackId]).db
          [.deadLettered row, .acked row] := by
      intro s' hsubs hmessages
      obtain ⟨new, hnew, hcontent⟩ := hmessages
      refine ⟨hsubs, ⟨new, hnew, ?_⟩, fun other hother => ?_⟩
      · rw [hcontent]
        change _ = List.filterMap (deadLetterOf s'.db) [row]
        cases hletter : deadLetterOf s'.db row <;> simp [hletter]
      · obtain rfl : other = row := List.mem_singleton.1 hother
        have hfound : s'.db.findMessage other.messageId = some message :=
          findMessage_append hnew hmessage
        exact Option.isSome_iff_exists.2 ⟨message, hfound⟩
    have hletter : ∀ {db' : Db} {new : List Message}, db'.subscriptions = s.db.subscriptions →
        db'.messages = s.db.messages ++ new → deadLetterOf db' row = (do
          let topicName ← given policy.deadLetterTopic
          let input ← message.deadLetter
          return (topicName, input.data, input.attributes.bind jsonStringify,
            input.orderingKey)) := by
      intro db' new hsubs hnew
      rw [Db.getSubscriptionByName] at hsub
      rw [deadLetterOf, Db.getSubscriptionByName, hsubs, hsub, findMessage_append hnew hmessage]
      simp [hgiven]
    refine hafter _ ?_ ?_
    all_goals
      unfold State.publishDeadLetter
      split
    · exact (messages_publishFn s _ _ _).choose_spec.2.2
    · rfl
    · rename_i topicName input htopic hinput
      obtain ⟨added, hmessages, hcontent, hsubs⟩ :=
        messages_publishFn s topicName input (outside.publishedAt row.id)
      refine ⟨[added], hmessages, ?_⟩
      rw [hletter hsubs hmessages, htopic, hinput, List.map_singleton, hcontent]
      rfl
    · rename_i hnone
      refine ⟨[], (List.append_nil _).symm, ?_⟩
      rw [hletter rfl (List.append_nil _).symm]
      cases htopic : given policy.deadLetterTopic with
      | none => rfl
      | some topicName =>
        cases hinput : message.deadLetter with
        | none => rfl
        | some input => exact absurd hinput (hnone topicName input htopic)

/-! ## Ticks -/

theorem Db.WellFormed.find_name (h : db.WellFormed) (hsub : sub ∈ db.subscriptions) :
    db.getSubscriptionByName sub.name = some sub := by
  have hfilter : (db.subscriptions.filter fun other => other.name = sub.name) = [sub] :=
    filter_eq_singleton (List.Nodup.of_map _ h.names) hsub fun other hother =>
      ⟨fun hname => List.inj_on_of_nodup_map h.names hother hsub (of_decide_eq_true hname),
        by rintro rfl; simp⟩
  rw [Db.getSubscriptionByName, ← List.head?_filter, hfilter]
  rfl

/-- What goes on between two states of a tick: the record follows its course, and messages are
published for the dead-lettered records only. -/
structure Proceeds (row₀ : Delivery) (m : ℕ) (s s' : State) : Prop where
  wellFormed : s'.db.WellFormed
  course : Course row₀ m s → Course row₀ m s'
  published : ∃ log, s'.log = s.log ++ log ∧ Publishes s.db s'.db log

theorem Proceeds.refl (h : s.db.WellFormed) : Proceeds row₀ m s s :=
  ⟨h, id, [], (List.append_nil _).symm, .quiet rfl rfl rfl⟩

theorem Proceeds.trans {s'' : State} (h : Proceeds row₀ m s s') (h' : Proceeds row₀ m s' s'') :
    Proceeds row₀ m s s'' := by
  obtain ⟨log, hlog, hpublishes⟩ := h.published
  obtain ⟨log', hlog', hpublishes'⟩ := h'.published
  refine ⟨h'.wellFormed, h'.course ∘ h.course, log ++ log', ?_, hpublishes.trans hpublishes'⟩
  rw [hlog', hlog, List.append_assoc]

theorem Proceeds.subscriptions (h : Proceeds row₀ m s s') :
    s'.db.subscriptions = s.db.subscriptions := by
  obtain ⟨log, -, hpublishes⟩ := h.published
  exact hpublishes.subscriptions

theorem Db.WellFormed.deleteDeliveries (h : db.WellFormed) (condition : Delivery → Bool) :
    (db.deleteDeliveries condition).WellFormed := by
  have hsub : (db.deleteDeliveries condition).deliveries.Sublist db.deliveries :=
    List.filter_sublist
  exact ⟨(hsub.map _).nodup h.ids, (hsub.map _).nodup h.ackIds,
    fun row hrow => h.below row (hsub.subset hrow), h.names⟩

/-- The cleanup removes no pending record. -/
theorem Course.cleanup (h : Course row₀ m s) : Course row₀ m s.cleanupAckedMessages := by
  refine h.congr rfl (fun attempts hwaiting => ?_) fun hsettled => hsettled.deleteDeliveries _
  obtain ⟨row, hrow, hid, hkey, hpending, hattempt⟩ := hwaiting
  refine ⟨row, List.mem_filter.2 ⟨hrow, ?_⟩, hid, hkey, hpending, hattempt⟩
  simp [hpending]

section Tick

variable (hallows : sub₀.Allows m) (hname₀ : row₀.subscriptionName = sub₀.name)
  (hretry : CanRetry outside sub₀ row₀.id m)

include hallows hname₀ hretry

theorem proceeds_deliver (h : s.db.WellFormed) (hsub₀ : sub₀ ∈ s.db.subscriptions)
    (hsub : sub ∈ s.db.subscriptions) (hrow : row ∈ s.db.deliveries)
    (hname : row.subscriptionName = sub.name) (hpending : row.ackStatus = .pending)
    {message : Message} (hmessage : s.db.findMessage row.messageId = some message) :
    Proceeds row₀ m s (s.deliver outside sub (row, message)).1 := by
  obtain ⟨hwrites, hlog, -⟩ := deliver_spec outside h hrow hname message
  have hsame : row.key = row₀.key → sub = sub₀ := by
    intro hkey
    have hnames : sub.name = sub₀.name := by
      rw [← hname, ← hname₀]
      exact congrArg Prod.fst hkey
    exact List.inj_on_of_nodup_map h.names hsub hsub₀ hnames
  refine ⟨hwrites.wellFormed, fun hcourse => ?_, (handling outside sub row).1, hlog, ?_⟩
  · exact hcourse.deliver h hrow hname hpending hsame hallows hretry message
  · exact .deliver outside (hname ▸ h.find_name hsub) hmessage

theorem proceeds_deliverAll {items : List (Delivery × Message)} (h : s.db.WellFormed)
    (hsub₀ : sub₀ ∈ s.db.subscriptions) (hsub : sub ∈ s.db.subscriptions)
    (hitems : ∀ item ∈ items, (item.1 ∈ s.db.deliveries ∧ item.1.subscriptionName = sub.name ∧
      item.1.ackStatus = .pending) ∧ s.db.findMessage item.1.messageId = some item.2)
    (hnodup : ((items.map Prod.fst).map Delivery.id).Nodup) :
    Proceeds row₀ m s (s.deliverAll outside sub items).1 := by
  induction items generalizing s with
  | nil => exact .refl h
  | cons item items ih =>
    obtain ⟨row, message⟩ := item
    obtain ⟨⟨⟨hrow, hname, hpending⟩, hmessage⟩, hrest⟩ := List.forall_mem_cons.1 hitems
    obtain ⟨hnotMem, hnodup⟩ := List.nodup_cons.1 hnodup
    have hone := proceeds_deliver hallows hname₀ hretry h hsub₀ hsub hrow hname hpending hmessage
    obtain ⟨hwrites, -, -⟩ := deliver_spec outside h hrow hname message
    rw [State.deliverAll]
    generalize s.deliver outside sub (row, message) = result at hone hwrites ⊢
    obtain ⟨s', returns⟩ := result
    cases returns with
    | false => exact hone
    | true =>
      obtain ⟨log, -, hpublishes⟩ := hone.published
      obtain ⟨new, hnew, -⟩ := hpublishes.messages
      refine hone.trans (ih hone.wellFormed (hone.subscriptions ▸ hsub₀)
        (hone.subscriptions ▸ hsub) (fun item hitem => ?_) hnodup)
      obtain ⟨⟨hmem, hkept⟩, hfound⟩ := hrest item hitem
      refine ⟨⟨hwrites.others item.1 hmem fun hid => hnotMem ?_, hkept⟩,
        findMessage_append hnew hfound⟩
      exact List.mem_map.2 ⟨item.1, List.mem_map_of_mem hitem, hid⟩

theorem proceeds_visit (h : s.db.WellFormed) (hsub₀ : sub₀ ∈ s.db.subscriptions)
    (hsub : sub ∈ s.db.subscriptions) : Proceeds row₀ m s (s.visit outside sub).1 := by
  have hsearch : Proceeds row₀ m s
      (s.emit [.searched sub.name ((s.batch outside sub).map Prod.fst)]) := by
    refine ⟨h, fun hcourse => ?_, _, rfl, .quiet rfl rfl rfl⟩
    refine hcourse.congr ?_ (fun _ => id) id
    rw [State.emit_log, about_append]
    exact List.append_nil _
  refine hsearch.trans (proceeds_deliverAll hallows hname₀ hretry h hsub₀ hsub
    (fun item hitem => ⟨mem_batch hitem, ?_⟩) (batch_nodup outside sub h))
  obtain ⟨row, -, hmessage⟩ := List.mem_filterMap.1 hitem
  obtain ⟨message, hfound, rfl⟩ := Option.map_eq_some_iff.1 hmessage
  exact hfound

theorem proceeds_visitAll {subs : List Subscription} (h : s.db.WellFormed)
    (hsub₀ : sub₀ ∈ s.db.subscriptions) (hsubs : subs ⊆ s.db.subscriptions) :
    Proceeds row₀ m s (s.visitAll outside subs).1 := by
  induction subs generalizing s with
  | nil => exact .refl h
  | cons sub subs ih =>
    obtain ⟨hsub, hsubs⟩ := List.cons_subset.1 hsubs
    have hone := proceeds_visit hallows hname₀ hretry h hsub₀ hsub
    rw [State.visitAll]
    generalize s.visit outside sub = result at hone ⊢
    obtain ⟨s', returns⟩ := result
    cases returns with
    | false => exact hone
    | true =>
      exact hone.trans (ih hone.wellFormed (hone.subscriptions ▸ hsub₀)
        (hone.subscriptions ▸ hsubs))

/-- **One tick.** -/
theorem proceeds_tick (h : s.db.WellFormed) (hsub₀ : sub₀ ∈ s.db.subscriptions) (engine : Engine) :
    Proceeds row₀ m s (tick outside engine s).2 := by
  have hpush : s.db.findPushSubscriptions ⊆ s.db.subscriptions := List.filter_sublist.subset
  have hall := proceeds_visitAll hallows hname₀ hretry h hsub₀ hpush
  unfold tick
  split
  · exact .refl h
  · generalize s.visitAll outside s.db.findPushSubscriptions = result at hall ⊢
    obtain ⟨s', returns⟩ := result
    cases returns with
    | false => exact hall
    | true =>
      dsimp only
      split
      · exact hall.trans ⟨hall.wellFormed.deleteDeliveries _, Course.cleanup, [],
          (List.append_nil _).symm, .quiet rfl rfl rfl⟩
      · exact hall

end Tick

/-! ## Runs -/

/-- What may happen to a subscription besides the ticks: neither a pull nor an acknowledgement. -/
def Op.PushOnly : Op → Prop
  | .pull .. | .acknowledge .. => False
  | _ => True

instance : DecidablePred Op.PushOnly
  | .pull .. | .acknowledge .. => .isFalse id
  | .publish .. | .modifyAckDeadline .. | .seek .. | .cleanup | .tick .. => .isTrue trivial

/-- The failed attempts of a record can be rescheduled in a tick. -/
def Op.CanRetry (sub : Subscription) (id m : ℕ) : Op → Prop
  | .tick outside => Pubsub.CanRetry outside sub id m
  | _ => True

/-- What every operation of a run keeps. -/
structure Follows (row₀ : Delivery) (m : ℕ) (s s' : State) : Prop where
  wellFormed : s'.db.WellFormed
  subscriptions : s'.db.subscriptions = s.db.subscriptions
  messages : s.db.messages <+: s'.db.messages
  course : Course row₀ m s → Course row₀ m s'

theorem Follows.refl (h : s.db.WellFormed) : Follows row₀ m s s := ⟨h, rfl, List.prefix_rfl, id⟩

theorem Follows.trans {s'' : State} (h : Follows row₀ m s s') (h' : Follows row₀ m s' s'') :
    Follows row₀ m s s'' :=
  ⟨h'.wellFormed, h'.subscriptions.trans h.subscriptions, h.messages.trans h'.messages,
    h'.course ∘ h.course⟩

theorem Proceeds.follows (h : Proceeds row₀ m s s') : Follows row₀ m s s' := by
  obtain ⟨log, -, hpublishes⟩ := h.published
  obtain ⟨new, hnew, -⟩ := hpublishes.messages
  exact ⟨h.wellFormed, h.subscriptions, hnew ▸ List.prefix_append .., h.course⟩

theorem messages_publishMessages (topicName : JsString) (names : List JsString) (now : ℤ)
    (inputs : List PublishMessageInput) (db : Db) :
    db.messages <+: (State.publishMessages topicName names now db inputs).1.messages := by
  induction inputs generalizing db with
  | nil => exact List.prefix_rfl
  | cons input inputs ih =>
    have hmessage : db.messages <+:
        (State.fanOut db.nextId (db.createMessage topicName input now) names).messages := by
      rw [(fanOut_keeps names db.nextId _).1]
      exact List.prefix_append ..
    exact hmessage.trans (ih _)

theorem follows_publish (h : s.db.WellFormed) (topicName : JsString)
    (messages : List PublishMessageInput) (now : ℤ) :
    Follows row₀ m s (s.publish topicName messages now) := by
  unfold State.publish
  split
  · exact .refl h
  · have happended := appended_publishMessages h topicName
      ((s.db.findActiveSubscriptionsForTopic topicName).map Subscription.name) now messages
    refine ⟨happended.wellFormed, happended.grows.subscriptions,
      messages_publishMessages .., fun hcourse => ?_⟩
    exact hcourse.congr rfl (fun _ hwaiting => hwaiting.mono happended.deliveries.subset)
      fun hsettled => hsettled.publishMessages _ _ _ _

/-- A loop that writes deadlines only. -/
theorem follows_setDeadlines {α : Type*} {log : List Event} {f : Db → α → Db}
    (hf : ∀ db x, f db x = db ∨ ∃ condition deadline, f db x =
      db.updateDeliveries condition fun row => { row with ackDeadline := deadline })
    {db : Db} (h : db.WellFormed) (xs : List α) :
    Follows row₀ m ⟨db, log⟩ ⟨xs.foldl f db, log⟩ := by
  induction xs generalizing db with
  | nil => exact .refl h
  | cons x xs ih =>
    have hone : Follows row₀ m ⟨db, log⟩ ⟨f db x, log⟩ := by
      rcases hf db x with hsame | ⟨condition, deadline, hwrite⟩
      · rw [hsame]
        exact .refl h
      · rw [hwrite]
        refine ⟨h.updateDeliveries fun _ => ⟨rfl, rfl, rfl, rfl⟩, rfl, List.prefix_rfl,
          fun hcourse => ?_⟩
        refine hcourse.congr rfl (fun _ hwaiting => ?_) fun hsettled => ?_
        · exact hwaiting.updateDeliveries (fun _ => ⟨rfl, rfl, rfl, rfl⟩) fun _ => ⟨rfl, rfl⟩
        · exact hsettled.updateDeliveries (fun _ => ⟨rfl, rfl, rfl, rfl⟩) fun _ hacked => hacked
    exact hone.trans (ih hone.wellFormed)

theorem follows_seek (h : s.db.WellFormed) (subscriptionName time : JsString) :
    Follows row₀ m s (s.seek subscriptionName time) := by
  unfold State.seek State.resetDeliveredMessagesByTime
  split
  · exact .refl h
  · split
    · exact .refl h
    · refine follows_setDeadlines (fun db row => ?_) h _
      split
      · split
        · exact .inr ⟨_, _, rfl⟩
        · exact .inl rfl
      · exact .inl rfl

theorem follows_modify (h : s.db.WellFormed) (subscriptionName : JsString) (ackIds : List ℕ)
    (ackDeadlineSeconds now : ℤ) :
    Follows row₀ m s (s.modify subscriptionName ackIds ackDeadlineSeconds now) := by
  unfold State.modify State.modifyAckDeadline
  split
  · exact .refl h
  · split
    · exact .refl h
    · exact follows_setDeadlines (fun db ackId => .inr ⟨_, _, rfl⟩) h _

section Run

variable (hallows : sub₀.Allows m) (hname₀ : row₀.subscriptionName = sub₀.name)

include hallows hname₀

/-- **One operation.** -/
theorem follows_apply {w : World} (h : w.state.db.WellFormed)
    (hsub₀ : sub₀ ∈ w.state.db.subscriptions) {op : Op} (hop : op.PushOnly)
    (hretry : op.CanRetry sub₀ row₀.id m) : Follows row₀ m w.state (op.apply w).state := by
  cases op with
  | publish topicName messages now => exact follows_publish h topicName messages now
  | pull => exact absurd hop id
  | acknowledge => exact absurd hop id
  | modifyAckDeadline name ackIds seconds now => exact follows_modify h name ackIds seconds now
  | seek name time => exact follows_seek h name time
  | cleanup => exact ⟨h.deleteDeliveries _, rfl, List.prefix_rfl, Course.cleanup⟩
  | tick outside => exact (proceeds_tick hallows hname₀ hretry h hsub₀ w.engine).follows

/-- **A run.** -/
theorem follows_run {w : World} (h : w.state.db.WellFormed)
    (hsub₀ : sub₀ ∈ w.state.db.subscriptions) {ops : List Op} (hops : ∀ op ∈ ops, op.PushOnly)
    (hretry : ∀ op ∈ ops, op.CanRetry sub₀ row₀.id m) :
    Follows row₀ m w.state (run w ops).state := by
  induction ops generalizing w with
  | nil => exact .refl h
  | cons op ops ih =>
    obtain ⟨hop, hops⟩ := List.forall_mem_cons.1 hops
    obtain ⟨hfirst, hretry⟩ := List.forall_mem_cons.1 hretry
    have hone := follows_apply hallows hname₀ h hsub₀ hop hfirst
    exact hone.trans (ih hone.wellFormed (hone.subscriptions ▸ hsub₀) hops hretry)

end Run

/-! ## The whole run -/

def Event.isPosted : Event → Bool
  | .posted _ => true
  | _ => false

def Event.isDeadLettered : Event → Bool
  | .deadLettered _ => true
  | _ => false

/-- How often a record was POSTed. -/
def posts (row₀ : Delivery) (log : List Event) : ℕ := (about row₀ log).countP Event.isPosted

/-- How often a record was dead-lettered. -/
def deadLetters (row₀ : Delivery) (log : List Event) : ℕ :=
  (about row₀ log).countP Event.isDeadLettered

theorem countP_failures (attempts : List (Delivery × Delivery)) :
    (failures attempts).countP Event.isPosted = attempts.length ∧
      (failures attempts).countP Event.isDeadLettered = 0 ∧
      (failures attempts).length = 2 * attempts.length := by
  induction attempts with
  | nil => exact ⟨rfl, rfl, rfl⟩
  | cons attempt attempts ih =>
    obtain ⟨hposted, hletters, hlength⟩ := ih
    have hcons : failures (attempt :: attempts) =
        .posted attempt.1 :: .rescheduled attempt.1 attempt.2 :: failures attempts := rfl
    rw [hcons]
    simp only [List.countP_cons, List.length_cons, hposted, hletters, hlength, Event.isPosted,
      Event.isDeadLettered]
    simp
    omega

theorem Course.counts (h : Course row₀ m s) : posts row₀ s.log ≤ m ∧ deadLetters row₀ s.log ≤ 1 := by
  unfold posts deadLetters
  cases h with
  | waiting attempts hlog hle hrow =>
    obtain ⟨hposted, hletters, -⟩ := countP_failures attempts
    rw [hlog, hposted, hletters]
    exact ⟨hle, Nat.zero_le 1⟩
  | delivered attempts row hlog hlt hsettled =>
    obtain ⟨hposted, hletters, -⟩ := countP_failures attempts
    rw [hlog, List.countP_append, List.countP_append, hposted, hletters]
    exact ⟨hlt, Nat.zero_le 1⟩
  | deadLettered attempts row hlog hall hkey hsettled =>
    obtain ⟨hposted, hletters, -⟩ := countP_failures attempts
    rw [hlog, List.countP_append, List.countP_append, hposted, hletters]
    exact ⟨hall.le, le_rfl⟩

/-- Once all attempts have failed, what comes next for the record is the dead-letter path. -/
theorem Course.next (h : Course row₀ m s) {attempts : List (Delivery × Delivery)}
    {events : List Event} (hlog : about row₀ s.log = failures attempts ++ events)
    (hall : attempts.length = m) (hne : events ≠ []) :
    ∃ row, row.key = row₀.key ∧
      about row₀ s.log = failures attempts ++ [.deadLettered row, .acked row] := by
  obtain ⟨-, -, hlength⟩ := countP_failures attempts
  have hpos := List.length_pos_of_ne_nil hne
  have htotal := congrArg List.length hlog
  rw [List.length_append, hlength] at htotal
  cases h with
  | waiting attempts' hlog' hle hrow =>
    obtain ⟨-, -, hlength'⟩ := countP_failures attempts'
    rw [hlog', hlength'] at htotal
    omega
  | delivered attempts' row hlog' hlt hsettled =>
    obtain ⟨-, -, hlength'⟩ := countP_failures attempts'
    rw [hlog', List.length_append, hlength'] at htotal
    simp only [List.length_cons, List.length_nil] at htotal
    omega
  | deadLettered attempts' row hlog' hall' hkey hsettled =>
    obtain ⟨-, -, hlength'⟩ := countP_failures attempts'
    have hsame := List.append_inj (hlog'.symm.trans hlog) (by omega)
    exact ⟨row, hkey, by rw [hlog', hsame.1]⟩

/-- What a run says of the message of a record: the dead-letter topic gets it as it was published. -/
theorem deadLetterOf_eq {policy : DeadLetterPolicy} {topicName : JsString} {message : Message}
    {input : PublishMessageInput} (hwf : db.WellFormed) (hsub : sub ∈ db.subscriptions)
    (hname : row₀.subscriptionName = sub.name) (hpolicy : sub.deadLetterPolicy = some policy)
    (htopic : given policy.deadLetterTopic = some topicName)
    (hmessage : db.findMessage row₀.messageId = some message)
    (hinput : message.deadLetter = some input)
    (hsubs : db'.subscriptions = db.subscriptions) (hmessages : db.messages <+: db'.messages)
    (hkey : row.key = row₀.key) : deadLetterOf db' row =
      some (topicName, input.data, input.attributes.bind jsonStringify, input.orderingKey) := by
  obtain ⟨new, hnew⟩ := hmessages
  have hrowName : row.subscriptionName = sub.name := (congrArg Prod.fst hkey).trans hname
  have hrowMessage : row.messageId = row₀.messageId := congrArg Prod.snd hkey
  have hfind := hwf.find_name hsub
  rw [Db.getSubscriptionByName] at hfind
  rw [deadLetterOf, Db.getSubscriptionByName, hsubs, hrowName, hfind, hrowMessage,
    findMessage_append hnew.symm hmessage]
  simp [hpolicy, htopic, hinput]

/-- **Dead-lettering.** In a run of ticks that can reschedule the failed attempts of a record, the
record follows its course: it is POSTed at most `m` times and dead-lettered at most once, after `m`
failures and never after a success, and acknowledged with it. A further tick publishes one message
for each record it dead-letters, which for this record is its own message, and the record is
dead-lettered as soon as a tick gets to it after `m` failures. -/
theorem dead_lettering {engine : Engine} (hwf : db.WellFormed) (hsub : sub ∈ db.subscriptions)
    {policy : DeadLetterPolicy} (hpolicy : sub.deadLetterPolicy = some policy) {limit : ℤ}
    (hlimit : policy.maxDeliveryAttempts = some limit) {topicName : JsString}
    (htopic : given policy.deadLetterTopic = some topicName) (hrow : row₀ ∈ db.deliveries)
    (hname : row₀.subscriptionName = sub.name) (hpending : row₀.ackStatus = .pending)
    (hfresh : row₀.deliveryAttempt = 0) {message : Message}
    (hmessage : db.findMessage row₀.messageId = some message) {input : PublishMessageInput}
    (hinput : message.deadLetter = some input) {ops : List Op} (hops : ∀ op ∈ ops, op.PushOnly)
    (hretry : ∀ op ∈ ops, op.CanRetry sub row₀.id limit.toNat) :
    posts row₀ (run ⟨engine, db, []⟩ ops).state.log ≤ limit.toNat ∧
      deadLetters row₀ (run ⟨engine, db, []⟩ ops).state.log ≤ 1 ∧
      Course row₀ limit.toNat (run ⟨engine, db, []⟩ ops).state ∧
      ∀ outside, CanRetry outside sub row₀.id limit.toNat → ∀ s',
        s' = (tick outside (run ⟨engine, db, []⟩ ops).engine (run ⟨engine, db, []⟩ ops).state).2 →
          (∃ log, s'.log = (run ⟨engine, db, []⟩ ops).state.log ++ log ∧
            Publishes (run ⟨engine, db, []⟩ ops).state.db s'.db log) ∧
          (∀ row, row.key = row₀.key → deadLetterOf s'.db row = some (topicName, input.data,
            input.attributes.bind jsonStringify, input.orderingKey)) ∧
          ∀ attempts, about row₀ (run ⟨engine, db, []⟩ ops).state.log = failures attempts →
            attempts.length = limit.toNat →
            about row₀ s'.log ≠ about row₀ (run ⟨engine, db, []⟩ ops).state.log →
              ∃ row, row.key = row₀.key ∧
                about row₀ s'.log = failures attempts ++ [.deadLettered row, .acked row] := by
  have hallows : sub.Allows limit.toNat := ⟨policy, limit, hpolicy, hlimit, rfl⟩
  have hstart : Course row₀ limit.toNat ⟨db, []⟩ :=
    .waiting [] rfl (Nat.zero_le _) ⟨row₀, hrow, rfl, rfl, hpending, hfresh⟩
  have hrun := follows_run (w := ⟨engine, db, []⟩) hallows hname hwf hsub hops hretry
  have hcourse := hrun.course hstart
  refine ⟨hcourse.counts.1, hcourse.counts.2, hcourse, ?_⟩
  rintro outside hcan s' rfl
  have htick := proceeds_tick hallows hname hcan hrun.wellFormed
    (hrun.subscriptions ▸ hsub) (run ⟨engine, db, []⟩ ops).engine
  have hall := hrun.trans htick.follows
  refine ⟨htick.published, fun row hkey => ?_, fun attempts hattempts hlength hchanged => ?_⟩
  · exact deadLetterOf_eq hwf hsub hname hpolicy htopic hmessage hinput hall.subscriptions
      hall.messages hkey
  · obtain ⟨log, hlog, -⟩ := htick.published
    have habout := hlog ▸ about_append row₀ (run ⟨engine, db, []⟩ ops).state.log log
    rw [hattempts] at habout hchanged
    refine (htick.course hcourse).next habout hlength fun hnil => hchanged ?_
    rw [habout, hnil, List.append_nil]

/-! ## Two runs of one record -/

section Sample

instance (outside : Outside) (sub : Subscription) (id m : ℕ) :
    Decidable (CanRetry outside sub id m) :=
  inferInstanceAs <| Decidable <| ∀ attempt < m, outside.post id ≠ .ok →
    ((outside.post id).failures.findSome? (retryDeadline attempt sub.retryPolicy)).isSome

instance (sub : Subscription) (id m : ℕ) : DecidablePred (Op.CanRetry sub id m)
  | .tick outside => inferInstanceAs <| Decidable <| CanRetry outside sub id m
  | .publish .. | .pull .. | .acknowledge .. | .modifyAckDeadline .. | .seek .. | .cleanup =>
      .isTrue trivial

/-- One attempt is allowed. -/
def singleAttempt : DeadLetterPolicy := ⟨some (js "projects/p/topics/dead"), some 1⟩

def singleRow : Delivery := ⟨3, 2, js "projects/p/subscriptions/s", 1, 0, 0, .pending⟩

def singleSubscription (retryPolicy : Option RetryPolicy) : Subscription :=
  { sampleSubscription with deadLetterPolicy := some singleAttempt, retryPolicy }

/-- One message waits for a push subscription with this retry policy. -/
def singleDb (retryPolicy : Option RetryPolicy) : Db :=
  { sampleDb with subscriptions := [singleSubscription retryPolicy], deliveries := [singleRow] }

/-- The endpoint refuses every POST. -/
def refusedAt (now : ℤ) : Outside := ⟨fun _ => now, fun _ => now, fun _ => .refused now now⟩

/-- One refused POST with the default backoff. -/
def singleRun : World := run ⟨⟨false, 0, 60⟩, singleDb none, []⟩ [.tick (refusedAt 1000)]

/-- The POST of the first tick fails, and the second tick dead-letters the message. -/
theorem dead_lettering_single : ∃ row, row.key = singleRow.key ∧
    about singleRow (tick (refusedAt 60000) singleRun.engine singleRun.state).2.log =
      failures [(singleRow, singleRow.retried 11000)] ++ [.deadLettered row, .acked row] := by
  have hwf : (singleDb none).WellFormed := by decide +kernel
  have htopic : given singleAttempt.deadLetterTopic = some (js "projects/p/topics/dead") := by
    decide
  have hlimit : singleAttempt.maxDeliveryAttempts = some 1 := rfl
  have hrow : singleRow ∈ (singleDb none).deliveries := List.mem_singleton.2 rfl
  have hmessage : (singleDb none).findMessage singleRow.messageId =
      some ⟨1, js "projects/p/topics/t", none, none, none, 0⟩ := by decide +kernel
  have hops : ∀ op ∈ [Op.tick (refusedAt 1000)], op.PushOnly := by decide +kernel
  have hretry : ∀ op ∈ [Op.tick (refusedAt 1000)], op.CanRetry (singleSubscription none) 3 1 := by
    decide +kernel
  obtain ⟨-, -, -, htick⟩ := @dead_lettering _ _ _ ⟨false, 0, 60⟩ hwf (List.mem_singleton.2 rfl)
    _ rfl _ hlimit _ htopic hrow rfl rfl rfl _ hmessage _ rfl _ hops hretry
  obtain ⟨-, -, hletter⟩ := htick (refusedAt 60000) (by decide +kernel) _ rfl
  have hfailed : about singleRow singleRun.state.log =
      failures [(singleRow, singleRow.retried 11000)] := by decide +kernel
  have hchanged : about singleRow (tick (refusedAt 60000) singleRun.engine singleRun.state).2.log ≠
      about singleRow singleRun.state.log := by decide +kernel
  rw [singleRun] at hfailed hchanged ⊢
  exact hletter _ hfailed rfl hchanged

/-- Without a date for the next attempt the attempt is not counted: the message is POSTed in every
tick. -/
theorem not_dead_lettering : ∃ (engine : Engine) (db : Db) (sub : Subscription)
    (policy : DeadLetterPolicy) (row : Delivery) (ops : List Op), db.WellFormed ∧
      sub ∈ db.subscriptions ∧ sub.deadLetterPolicy = some policy ∧
      policy.maxDeliveryAttempts = some 1 ∧ row ∈ db.deliveries ∧
      row.subscriptionName = sub.name ∧ row.ackStatus = .pending ∧ row.deliveryAttempt = 0 ∧
      (∀ op ∈ ops, ∃ outside, op = .tick outside) ∧
      1 < posts row (run ⟨engine, db, []⟩ ops).state.log := by
  refine ⟨⟨false, 0, 60⟩, singleDb (some samplePolicy), _, singleAttempt, singleRow,
    [.tick (refusedAt 1000), .tick (refusedAt 2000)], by decide +kernel, List.mem_singleton.2 rfl,
    rfl, rfl, List.mem_singleton.2 rfl, rfl, rfl, rfl, ?_, by decide +kernel⟩
  intro op hop
  simp only [List.mem_cons, List.not_mem_nil, or_false] at hop
  rcases hop with rfl | rfl
  · exact ⟨_, rfl⟩
  · exact ⟨_, rfl⟩

end Sample

end Kinglet.Pubsub
