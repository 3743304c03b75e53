import Kinglet.Js.DateOrder
import Kinglet.Library.Custody
import Kinglet.Pubsub.Calls
import Kinglet.Pubsub.Operations

/-!
# What a pull returns

A pull looks at no more delivery records than it may return, and skips those whose message is gone.
A publish that a deletion of its topic overtakes leaves such records behind, or messages of a topic
that does not exist. As long as the two do not overlap, and no deadline lies where the order of the
texts of dates is not that of the dates, each record has its message and a pull returns as many as
there are.
-/

namespace Kinglet.Pubsub

open Js Library

/-- The records of a subscription that are pending and past their deadline, and whose message still
exists. -/
def Db.deliverable (db : Db) (name : JsString) (now : ℤ) : List Delivery :=
  db.deliveries.filter fun row =>
    decide (row.subscriptionName = name) && decide (row.ackStatus = .pending) &&
      decide (row.ackDeadline ≤ now) && (db.findMessage row.messageId).isSome

/-! ## A pull on its own -/

section Alone

variable {db : Db} {seconds now newDeadline : ℤ}

/-- What `pullMessages` makes of the records it found. -/
def Db.receive (db : Db) (rows : List Delivery) : List Received :=
  rows.filterMap fun row => (db.findMessage row.messageId).map (Received.mk row)

/-- The tables after `pullMessages` handed a record out. -/
def Db.lease (db : Db) (row : Delivery) (newDeadline : ℤ) : Db :=
  db.updateDeliveries (fun other => other.id = row.id) fun other =>
    { other with ackDeadline := newDeadline, deliveryAttempt := row.deliveryAttempt + 1 }

theorem deadlineAfter_eq {seconds now newDeadline : ℤ}
    (h : deadlineAfter now seconds = some newDeadline) : newDeadline = now + seconds * 1000 := by
  simp only [deadlineAfter] at h
  split at h
  · exact (Option.some.inj h).symm
  · cases h

/-- A deadline within the years that have four digits exists. -/
theorem deadlineAfter_isSome (hnow : yearZero ≤ now) (hseconds : 0 ≤ seconds)
    (hlt : now + seconds * 1000 < year10000) : (deadlineAfter now seconds).isSome := by
  simp only [deadlineAfter, yearZero, year10000] at hnow hlt ⊢
  rw [if_pos (by omega)]
  rfl

/-- From the search on, with the time of each later segment. -/
theorem alone_pulling (unique : Bool) (hdeadline : deadlineAfter now seconds = some newDeadline)
    (rows : List Delivery) (results : List Received) (s : State) {inputs : List ℤ}
    (hinputs : 2 * rows.length < inputs.length) :
    (service unique).alone s.db (.pulling (.message seconds now results rows)) inputs =
      some ((State.pullMessages seconds now s rows).db,
        .pulled (results ++ s.db.receive rows)) := by
  induction rows generalizing results s inputs with
  | nil =>
    obtain ⟨time, inputs, rfl⟩ := List.exists_cons_of_length_pos (Nat.zero_lt_of_lt hinputs)
    simp [Async.alone, service, segment, messageSegment, Pulling.segment, State.pullMessages,
      Db.receive]
  | cons row rows ih =>
    obtain ⟨time, inputs, rfl⟩ := List.exists_cons_of_length_pos (Nat.zero_lt_of_lt hinputs)
    simp only [List.length_cons] at hinputs
    obtain ⟨time', inputs, rfl⟩ := List.exists_cons_of_length_pos (l := inputs) (by omega)
    simp only [List.length_cons] at hinputs
    cases hfound : s.db.findMessage row.messageId with
    | none =>
      -- the record is skipped, which takes one segment
      have hlength : 2 * rows.length < (time' :: inputs).length := by
        simp only [List.length_cons]
        omega
      have hrest := ih results s hlength
      simpa [Async.alone, service, segment, messageSegment, Pulling.segment, hfound,
        State.pullMessages, State.pullOne, Db.receive] using hrest
    | some found =>
      have hlength : 2 * rows.length < inputs.length := by omega
      have hrest := ih (results ++ [⟨row, found⟩])
        ⟨s.db.lease row newDeadline, s.log ++ [.pulled row]⟩ hlength
      have halone : (service unique).alone s.db
          (.pulling (.message seconds now results (row :: rows))) (time :: time' :: inputs) =
          (service unique).alone (s.db.lease row newDeadline)
            (.pulling (.message seconds now (results ++ [⟨row, found⟩]) rows)) inputs := by
        simp [Async.alone, service, segment, messageSegment, Pulling.segment, hfound,
          hdeadline, Db.lease]
      have hone : State.pullOne seconds now s row =
          some ⟨s.db.lease row newDeadline, s.log ++ [.pulled row]⟩ := by
        simp [State.pullOne, hfound, hdeadline, Db.lease]
      have hreceive : s.db.receive (row :: rows) = ⟨row, found⟩ :: s.db.receive rows := by
        simp [Db.receive, hfound]
      rw [halone, State.pullMessages, hone, hreceive,
        List.append_cons results _ (s.db.receive rows)]
      exact hrest

/-- **A pull that runs alone**: it writes what the sequential `pull` writes, and returns those of the
first `maxMessages` records found whose message exists. -/
theorem alone_pull (unique : Bool) {name : JsString} {maxMessages : ℕ} {sub : Subscription}
    {time : ℤ} {inputs : List ℤ} (hsub : db.getSubscriptionByName name = some sub)
    (hactive : sub.detached = false)
    (hdeadline : (deadlineAfter now sub.ackDeadlineSeconds).isSome)
    (hinputs : 2 * maxMessages < inputs.length) :
    (service unique).alone db (.pull name maxMessages) (time :: now :: inputs) =
      some ((State.pull ⟨db, []⟩ name maxMessages none now).db,
        .pulled (db.receive (db.findDeliverable name maxMessages now))) := by
  obtain ⟨newDeadline, hdeadline⟩ := Option.isSome_iff_exists.1 hdeadline
  have hlength : (db.findDeliverable name maxMessages now).length ≤ maxMessages :=
    List.length_take_le ..
  have hinputs' : 2 * (db.findDeliverable name maxMessages now).length < inputs.length := by omega
  have hrest := alone_pulling unique hdeadline (db.findDeliverable name maxMessages now) []
    ⟨db, []⟩ hinputs'
  simpa [Async.alone, service, segment, messageSegment, Pulling.segment, hsub, hactive,
    State.pull] using hrest

/-- When each record has its message, they are all it returns. -/
theorem map_row_receive {rows : List Delivery}
    (hrows : ∀ row ∈ rows, (db.findMessage row.messageId).isSome) :
    (db.receive rows).map Received.row = rows := by
  induction rows with
  | nil => rfl
  | cons row rows ih =>
    obtain ⟨hrow, hrows⟩ := List.forall_mem_cons.1 hrows
    obtain ⟨found, hfound⟩ := Option.isSome_iff_exists.1 hrow
    have hreceive : db.receive (row :: rows) = ⟨row, found⟩ :: db.receive rows := by
      simp [Db.receive, hfound]
    rw [hreceive, List.map_cons, ih hrows]

theorem findMessage_some {messageId : ℕ} {message : Message}
    (h : db.findMessage messageId = some message) :
    message ∈ db.messages ∧ message.messageId = messageId := by
  have hid := List.find?_some h
  exact ⟨List.mem_of_find?_eq_some h, of_decide_eq_true hid⟩

theorem getTopicByName_some {name : JsString} {topic : Topic}
    (h : db.getTopicByName name = some topic) : topic ∈ db.topics ∧ topic.name = name := by
  have hname := List.find?_some h
  exact ⟨List.mem_of_find?_eq_some h, of_decide_eq_true hname⟩

theorem findMessage_isSome {messageId : ℕ} :
    (db.findMessage messageId).isSome ↔ ∃ message ∈ db.messages, message.messageId = messageId := by
  simp [Db.findMessage]

theorem mem_receive {rows : List Delivery} {received : Received} (h : received ∈ db.receive rows) :
    received.message ∈ db.messages ∧ received.message.messageId = received.row.messageId := by
  obtain ⟨row, -, hfound⟩ := List.mem_filterMap.1 h
  obtain ⟨message, hmessage, rfl⟩ := Option.map_eq_some_iff.1 hfound
  exact findMessage_some hmessage

end Alone

/-! ## Publishing and deleting keep apart -/

/-- The topic to which a call publishes that has found it. -/
def Call.publishesTo : Call → Option JsString
  | .publishFind _ topicName _ => topicName
  | .publishing _ publication _ => publication.topicName
  | _ => none

/-- The topic whose messages a call deletes that has removed it. -/
def Call.empties : Call → Option JsString
  | .findTopicMessages name | .removeTopicRows name _ => name
  | _ => none

/-- The topic that a publish looks up next. -/
def Call.looksUp : Call → Option JsString
  | .publish topicName _ => topicName
  | _ => none

/-- The topic that a call removes next. -/
def Call.removes : Call → Option JsString
  | .removeTopic name _ => name
  | _ => none

/-- The deadline that a call computes next. -/
def Call.deadlineAt (time : ℤ) : Call → Option ℤ
  | .pulling (.find _ _ seconds) | .modify _ _ seconds => time + seconds * 1000
  | _ => none

/-- No publish looks up a topic whose messages are being deleted, no topic is removed while a
publish that found it is in flight, and deadlines lie before the year 10000. -/
def Orderly (pool : Pool Db Call Outcome) : Move Request ℤ → Prop
  | .start _ => True
  | .resume index time => ∀ call ∈ pool.calls[index]?,
      (∀ name ∈ call.looksUp, ∀ other ∈ pool.calls, other.empties ≠ some name) ∧
      (∀ name ∈ call.removes, ∀ other ∈ pool.calls, other.publishesTo ≠ some name) ∧
      ∀ deadline ∈ call.deadlineAt time, deadline < year10000

instance (pool : Pool Db Call Outcome) : ∀ m, Decidable (Orderly pool m)
  | .start _ => .isTrue trivial
  | .resume index time => inferInstanceAs <| Decidable <| ∀ call ∈ pool.calls[index]?,
      (∀ name ∈ call.looksUp, ∀ other ∈ pool.calls, other.empties ≠ some name) ∧
      (∀ name ∈ call.removes, ∀ other ∈ pool.calls, other.publishesTo ≠ some name) ∧
      ∀ deadline ∈ call.deadlineAt time, deadline < year10000

section Stages

variable {call : Call} {name : JsString}

theorem Call.of_publishesTo (h : call.publishesTo = some name) :
    (∃ since inputs, call = .publishFind since name inputs) ∨
      ∃ since publication stage, publication.topicName = name ∧
        call = .publishing since publication stage := by
  unfold Call.publishesTo at h
  split at h
  · exact .inl ⟨_, _, by rw [Option.some.inj h]⟩
  · exact .inr ⟨_, _, _, Option.some.inj h, rfl⟩
  · cases h

theorem Call.of_empties (h : call.empties = some name) :
    call = .findTopicMessages name ∨ ∃ messageIds, call = .removeTopicRows name messageIds := by
  unfold Call.empties at h
  split at h
  · exact .inl (by rw [Option.some.inj h])
  · exact .inr ⟨_, by rw [Option.some.inj h]⟩
  · cases h

theorem Call.of_removes (h : call.removes = some name) : ∃ id, call = .removeTopic name id := by
  unfold Call.removes at h
  split at h
  · exact ⟨_, by rw [Option.some.inj h]⟩
  · cases h

theorem Call.not_removes_of_publishesTo {name' : JsString} (h : call.publishesTo = some name) :
    call.removes ≠ some name' := by
  intro hremoves
  obtain ⟨id, rfl⟩ := Call.of_removes hremoves
  cases h

end Stages

/-! ## Tables without orphans -/

/-- Each delivery record has its message and a deadline of the years with four digits, and each
subscription has checked settings. -/
structure Sound (db : Db) : Prop where
  topicIds : (db.topics.map Topic.id).Nodup
  topicsBelow : ∀ topic ∈ db.topics, topic.id < db.nextId
  messageIds : (db.messages.map Message.messageId).Nodup
  messagesBelow : ∀ message ∈ db.messages, message.messageId < db.nextId
  rows : ∀ row ∈ db.deliveries, ∃ message ∈ db.messages, message.messageId = row.messageId
  deadlines : ∀ row ∈ db.deliveries, row.ackDeadline < year10000
  settings : ∀ sub ∈ db.subscriptions, 10 ≤ sub.ackDeadlineSeconds ∧ sub.ackDeadlineSeconds ≤ 600

/-- What a call in flight relies on. -/
def Relies (db : Db) : Call → Prop
  | .removeTopic name id =>
      id < db.nextId ∧ ∀ topic ∈ db.topics, topic.id = id → topic.name = name
  | .removeTopicRows name messageIds => ∀ row ∈ db.deliveries, ∀ message ∈ db.messages,
      message.messageId = row.messageId → message.topicName = name → row.messageId ∈ messageIds
  | .publishFind _ topicName _ => ∃ topic ∈ db.topics, topic.name = topicName
  | .publishing _ publication stage =>
      (∃ topic ∈ db.topics, topic.name = publication.topicName) ∧
        match stage with
        | .message _ _ => True
        | .row _ messageId _ _ _ => ∃ message ∈ db.messages,
            message.messageId = messageId ∧ message.topicName = publication.topicName
  | .pulling (.message seconds now _ _) => now + seconds * 1000 < year10000
  | .pulling (.update seconds now _ _ newDeadline _) =>
      now + seconds * 1000 < year10000 ∧ newDeadline < year10000
  | .modifying _ newDeadline _ => newDeadline < year10000
  | _ => True

/-- No call deletes the messages of a topic to which another publishes. -/
def Apart (call other : Call) : Prop :=
  ∀ name, (call.publishesTo = some name → other.empties ≠ some name) ∧
    (other.publishesTo = some name → call.empties ≠ some name)

section Segments

variable {db db' : Db} {call other rest : Call} {time : ℤ}

theorem Sound.eq_of_messageId (h : Sound db) {message message' : Message}
    (hmem : message ∈ db.messages) (hmem' : message' ∈ db.messages)
    (hid : message.messageId = message'.messageId) : message = message' :=
  List.inj_on_of_nodup_map h.messageIds hmem hmem' hid

theorem Relies.newDeadline (h : Relies db call) {deadline : ℤ}
    (hdeadline : deadline ∈ call.newDeadline?) : deadline < year10000 := by
  unfold Call.newDeadline? at hdeadline
  split at hdeadline
  · obtain rfl := Option.some.inj hdeadline
    exact h.2
  · obtain rfl := Option.some.inj hdeadline
    exact h
  · cases hdeadline

theorem nodup_map_append {α : Type*} {f : α → ℕ} {l : List α} {next : ℕ} {x : α}
    (h : (l.map f).Nodup) (hbelow : ∀ y ∈ l, f y < next) (hx : f x = next) :
    ((l ++ [x]).map f).Nodup := by
  rw [List.map_append, List.map_singleton]
  refine List.nodup_append'.2 ⟨h, List.nodup_singleton _, ?_⟩
  intro n hn hnext
  obtain rfl := List.mem_singleton.1 hnext
  obtain ⟨y, hy, hn⟩ := List.mem_map.1 hn
  have hlt := hbelow y hy
  omega

theorem Sound.deleteDeliveries (h : Sound db) (condition : Delivery → Bool) :
    Sound (db.deleteDeliveries condition) :=
  { h with
    rows := fun row hrow => h.rows row (List.mem_of_mem_filter hrow)
    deadlines := fun row hrow => h.deadlines row (List.mem_of_mem_filter hrow) }

/-- A write keeps the tables sound. -/
theorem Sound.effect (h : Sound db) (hrelies : Relies db call) (heffect : Effect db call db') :
    Sound db' := by
  cases heffect with
  | none => exact h
  | insertTopic =>
    refine { h with
      topicIds := nodup_map_append h.topicIds h.topicsBelow rfl
      topicsBelow := fun topic hmem => ?_
      messagesBelow := fun message hmem => Nat.lt_succ_of_lt (h.messagesBelow message hmem) }
    rcases List.mem_append.1 hmem with hmem | hmem
    · exact Nat.lt_succ_of_lt (h.topicsBelow topic hmem)
    · obtain rfl := List.mem_singleton.1 hmem
      exact Nat.lt_succ_self _
  | removeTopic =>
    exact { h with
      topicIds := h.topicIds.sublist (List.filter_sublist.map _)
      topicsBelow := fun topic hmem => h.topicsBelow topic (List.mem_of_mem_filter hmem) }
  | removeRows => exact h.deleteDeliveries _
  | @removeMessages name =>
    refine { h with
      messageIds := h.messageIds.sublist (List.filter_sublist.map _)
      messagesBelow := fun message hmem => h.messagesBelow message (List.mem_of_mem_filter hmem)
      rows := fun row hrow => ?_ }
    -- the records of the topic's messages were removed before
    obtain ⟨message, hmem, hid⟩ := h.rows row hrow
    refine ⟨message, List.mem_filter.2 ⟨hmem, decide_eq_true fun htopic => ?_⟩, hid⟩
    exact List.not_mem_nil (hrelies row hrow message hmem hid htopic)
  | @insertSubscription settings =>
    refine { h with
      topicsBelow := fun topic hmem => Nat.lt_succ_of_lt (h.topicsBelow topic hmem)
      messagesBelow := fun message hmem => Nat.lt_succ_of_lt (h.messagesBelow message hmem)
      settings := fun sub hsub => ?_ }
    rcases List.mem_append.1 hsub with hsub | hsub
    · exact h.settings sub hsub
    · obtain rfl := List.mem_singleton.1 hsub
      exact settings.checked
  | detach =>
    refine { h with settings := fun sub hsub => ?_ }
    obtain ⟨old, hold, rfl⟩ := List.mem_map.1 hsub
    have hchecked := h.settings old hold
    split <;> exact hchecked
  | removeSubscription =>
    exact { h with settings := fun sub hsub => h.settings sub (List.mem_of_mem_filter hsub) }
  | removeSubscriptionRows => exact h.deleteDeliveries _
  | message =>
    refine { h with
      topicsBelow := fun topic hmem => Nat.lt_succ_of_lt (h.topicsBelow topic hmem)
      messageIds := nodup_map_append h.messageIds h.messagesBelow rfl
      messagesBelow := fun message hmem => ?_
      rows := fun row hrow => ?_ }
    · rcases List.mem_append.1 hmem with hmem | hmem
      · exact Nat.lt_succ_of_lt (h.messagesBelow message hmem)
      · obtain rfl := List.mem_singleton.1 hmem
        exact Nat.lt_succ_self _
    · obtain ⟨message, hmem, hid⟩ := h.rows row hrow
      exact ⟨message, List.mem_append_left _ hmem, hid⟩
  | row =>
    obtain ⟨-, message, hmessage, hid, -⟩ := hrelies
    refine { h with
      topicsBelow := fun topic hmem => Nat.lt_add_right 2 (h.topicsBelow topic hmem)
      messagesBelow := fun message hmem => Nat.lt_add_right 2 (h.messagesBelow message hmem)
      rows := fun row hrow => ?_
      deadlines := fun row hrow => ?_ }
    · rcases List.mem_append.1 hrow with hrow | hrow
      · exact h.rows row hrow
      · obtain rfl := List.mem_singleton.1 hrow
        exact ⟨message, hmessage, hid⟩
    · rcases List.mem_append.1 hrow with hrow | hrow
      · exact h.deadlines row hrow
      · obtain rfl := List.mem_singleton.1 hrow
        have hepoch : (0 : ℤ) < year10000 := by decide
        exact hepoch
  | update hkeeps hdeadline =>
    refine { h with
      rows := fun row hrow => ?_
      deadlines := fun row hrow => ?_ }
    · obtain ⟨old, hold, rfl⟩ := Db.mem_updateDeliveries.1 hrow
      obtain ⟨message, hmem, hid⟩ := h.rows old hold
      refine ⟨message, hmem, ?_⟩
      split
      · rw [hid, (hkeeps old).2.2.2]
      · exact hid
    · obtain ⟨old, hold, rfl⟩ := Db.mem_updateDeliveries.1 hrow
      split
      · rcases hdeadline old with hsame | hnew
        · rw [hsame]
          exact h.deadlines old hold
        · exact hrelies.newDeadline hnew
      · exact h.deadlines old hold

/-- What a write may change, topic by topic. -/
structure Touches (db : Db) (call : Call) (db' : Db) : Prop where
  nextId : db.nextId ≤ db'.nextId
  topicOrigin : ∀ topic ∈ db'.topics, topic ∈ db.topics ∨ db.nextId ≤ topic.id
  topicKept : ∀ topic ∈ db.topics, topic ∈ db'.topics ∨ call.removes = some topic.name
  messageOrigin : ∀ message ∈ db'.messages, message ∈ db.messages ∨
    db.nextId ≤ message.messageId ∧ call.publishesTo = some message.topicName
  messageKept : ∀ message ∈ db.messages, message ∈ db'.messages ∨
    call.empties = some message.topicName
  rowOrigin : ∀ row ∈ db'.deliveries, (∃ old ∈ db.deliveries, old.messageId = row.messageId) ∨
    ∃ message ∈ db.messages, message.messageId = row.messageId ∧
      call.publishesTo = some message.topicName

theorem Touches.refl (db : Db) (call : Call) : Touches db call db :=
  ⟨le_rfl, fun _ h => .inl h, fun _ h => .inl h, fun _ h => .inl h, fun _ h => .inl h,
    fun row h => .inl ⟨row, h, rfl⟩⟩

theorem Touches.deleteDeliveries (db : Db) (call : Call) (condition : Delivery → Bool) :
    Touches db call (db.deleteDeliveries condition) :=
  { Touches.refl db call with
    rowOrigin := fun row hrow => .inl ⟨row, List.mem_of_mem_filter hrow, rfl⟩ }

theorem touches_of_effect (hrelies : Relies db call) (heffect : Effect db call db') :
    Touches db call db' := by
  have hrefl := Touches.refl db call
  cases heffect with
  | none => exact hrefl
  | insertTopic =>
    refine { hrefl with
      nextId := Nat.le_succ _
      topicOrigin := fun topic hmem => ?_
      topicKept := fun topic hmem => .inl (List.mem_append_left _ hmem) }
    rcases List.mem_append.1 hmem with hmem | hmem
    · exact .inl hmem
    · obtain rfl := List.mem_singleton.1 hmem
      exact .inr le_rfl
  | @removeTopic name id =>
    refine { hrefl with
      topicOrigin := fun topic hmem => .inl (List.mem_of_mem_filter hmem)
      topicKept := fun topic hmem => ?_ }
    by_cases hid : topic.id = id
    · exact .inr (congrArg some (hrelies.2 topic hmem hid).symm)
    · exact .inl (List.mem_filter.2 ⟨hmem, decide_eq_true hid⟩)
  | removeRows => exact .deleteDeliveries ..
  | @removeMessages name =>
    refine { hrefl with
      messageOrigin := fun message hmem => .inl (List.mem_of_mem_filter hmem)
      messageKept := fun message hmem => ?_ }
    by_cases htopic : message.topicName = name
    · exact .inr (congrArg some htopic.symm)
    · exact .inl (List.mem_filter.2 ⟨hmem, decide_eq_true htopic⟩)
  | insertSubscription => exact { hrefl with nextId := Nat.le_succ _ }
  | detach => exact { hrefl with }
  | removeSubscription => exact { hrefl with }
  | removeSubscriptionRows => exact .deleteDeliveries ..
  | message =>
    refine { hrefl with
      nextId := Nat.le_succ _
      messageOrigin := fun message hmem => ?_
      messageKept := fun message hmem => .inl (List.mem_append_left _ hmem) }
    rcases List.mem_append.1 hmem with hmem | hmem
    · exact .inl hmem
    · obtain rfl := List.mem_singleton.1 hmem
      exact .inr ⟨le_rfl, rfl⟩
  | row =>
    obtain ⟨-, message, hmessage, hid, htopic⟩ := hrelies
    refine { hrefl with
      nextId := Nat.le_add_right _ 2
      rowOrigin := fun row hrow => ?_ }
    rcases List.mem_append.1 hrow with hrow | hrow
    · exact .inl ⟨row, hrow, rfl⟩
    · obtain rfl := List.mem_singleton.1 hrow
      exact .inr ⟨message, hmessage, hid, congrArg some htopic.symm⟩
  | update hkeeps =>
    refine { hrefl with rowOrigin := fun row hrow => ?_ }
    obtain ⟨old, hold, rfl⟩ := Db.mem_updateDeliveries.1 hrow
    refine .inl ⟨old, hold, ?_⟩
    split
    · exact (hkeeps old).2.2.2.symm
    · rfl

/-- A write of a call spares what another relies on. -/
theorem Relies.spared (h : Sound db) (hother : Relies db other) (hapart : Apart call other)
    (hremoves : ∀ name ∈ call.removes, other.publishesTo ≠ some name)
    (htouches : Touches db call db') : Relies db' other := by
  have htopic : ∀ name, other.publishesTo = some name →
      (∃ topic ∈ db.topics, topic.name = name) → ∃ topic ∈ db'.topics, topic.name = name := by
    rintro name hname ⟨topic, hmem, rfl⟩
    refine ⟨topic, (htouches.topicKept topic hmem).resolve_right fun hremoved => ?_, rfl⟩
    exact hremoves topic.name hremoved hname
  match other with
  | .removeTopic name id =>
    obtain ⟨hid, hnames⟩ := hother
    refine ⟨hid.trans_le htouches.nextId, fun topic hmem htopicId => ?_⟩
    rcases htouches.topicOrigin topic hmem with hold | hnew
    · exact hnames topic hold htopicId
    · omega
  | .removeTopicRows name messageIds =>
    intro row hrow message hmem hid hname
    have hpublishes : call.publishesTo ≠ some name := fun hcall => (hapart name).1 hcall rfl
    -- neither the record nor the message is one of a publish to this topic
    rcases htouches.messageOrigin message hmem with hmessage | ⟨-, hnew⟩
    · rcases htouches.rowOrigin row hrow with ⟨old, hold, hsame⟩ | ⟨found, hfound, hfoundId, hnew⟩
      · exact hsame ▸ hother old hold message hmessage (hid.trans hsame.symm) hname
      · obtain rfl := h.eq_of_messageId hfound hmessage (hfoundId.trans hid.symm)
        exact absurd (hname ▸ hnew) hpublishes
    · exact absurd (hname ▸ hnew) hpublishes
  | .publishFind _ _ _ => exact htopic _ rfl hother
  | .publishing _ publication stage =>
    refine ⟨htopic _ rfl hother.1, ?_⟩
    match stage with
    | .message _ _ => trivial
    | .row _ messageId _ _ _ =>
      obtain ⟨message, hmem, hid, hname⟩ := hother.2
      refine ⟨message, (htouches.messageKept message hmem).resolve_right ?_, hid, hname⟩
      rw [hname]
      exact (hapart _).2 rfl
  | .pulling (.message _ _ _ _) | .pulling (.update _ _ _ _ _ _) | .modifying _ _ _ => exact hother
  | .createTopic _ | .insertTopic _ | .deleteTopic _ | .findTopicMessages _
  | .createSubscription _ | .checkSubscription _ | .insertSubscription _ | .detachSubscription _
  | .findDetached _ | .setDetached _ _ | .deleteSubscription _ | .removeSubscription _ _
  | .removeSubscriptionRows _ | .publish _ _ | .pull _ _ | .pulling (.find _ _ _)
  | .acknowledge _ _ | .acknowledging _ _ | .modify _ _ _ => trivial

theorem Relies.next_stage {since : ℕ} {publication : Publication} {messageIds : List ℕ}
    {messageId : ℕ} {inputs : List PublishMessageInput} (names : List JsString)
    (htopic : ∃ topic ∈ db.topics, topic.name = publication.topicName)
    (hmessage : ∃ message ∈ db.messages,
      message.messageId = messageId ∧ message.topicName = publication.topicName) :
    Relies db (.publishing since publication (.next messageIds messageId inputs names)) := by
  cases names with
  | nil => exact ⟨htopic, trivial⟩
  | cons name names => exact ⟨htopic, hmessage⟩

/-- A call can rely on its next segment's assertion. -/
theorem Relies.next (h : Sound db) (hrelies : Relies db call)
    (hdeadline : ∀ deadline ∈ call.deadlineAt time, deadline < year10000)
    (hnext : Next db time call db' rest) : Relies db' rest := by
  cases hnext with
  | removeTopic hfound =>
    obtain ⟨hmem, hname⟩ := getTopicByName_some hfound
    refine ⟨h.topicsBelow _ hmem, fun topic htopic hid => ?_⟩
    obtain rfl := List.inj_on_of_nodup_map h.topicIds htopic hmem hid
    exact hname
  | removeTopicRows =>
    intro row _ message hmem hid hname
    rw [← hid]
    exact List.mem_map_of_mem (List.mem_filter.2 ⟨hmem, decide_eq_true hname⟩)
  | removeTopicRow =>
    intro row hrow message hmem hid hname
    obtain ⟨hrow, hkept⟩ := List.mem_filter.1 hrow
    refine (List.mem_cons.1 (hrelies row hrow message hmem hid hname)).resolve_left fun hhead => ?_
    simp [hhead] at hkept
  | publishFind hfound =>
    exact ⟨_, getTopicByName_some hfound⟩
  | publishing => exact ⟨hrelies, trivial⟩
  | message =>
    exact Relies.next_stage _ hrelies.1
      ⟨_, List.mem_append_right _ List.mem_cons_self, rfl, rfl⟩
  | row => exact Relies.next_stage _ hrelies.1 hrelies.2
  | found => exact hdeadline _ rfl
  | skip => exact hrelies
  | lease _ hnew =>
    refine ⟨hrelies, ?_⟩
    rw [deadlineAfter_eq hnew]
    exact hrelies
  | leased => exact hrelies.1
  | modifying hnew =>
    have hlt := hdeadline _ rfl
    rw [← deadlineAfter_eq hnew] at hlt
    exact hlt
  | modified => exact hrelies
  | insertTopic | findTopicMessages | checkSubscription | insertSubscription | findDetached
  | setDetached | removeSubscription | removeSubscriptionRows | find | acknowledging
  | acknowledged => trivial

theorem Next.publishesTo {name : JsString} (hnext : Next db time call db' rest)
    (h : rest.publishesTo = some name) : call.publishesTo = some name ∨ call.looksUp = some name := by
  cases hnext <;> simp_all [Call.publishesTo, Call.looksUp]

theorem Next.empties {name : JsString} (hnext : Next db time call db' rest)
    (h : rest.empties = some name) : call.empties = some name ∨ call.removes = some name := by
  cases hnext <;> simp_all [Call.empties, Call.removes]

end Segments

/-! ## Every run -/

/-- The tables are sound, each call can rely on its assertion, and no two calls collide. -/
def noOrphans : Outline Db Call Outcome where
  Inv db _ := Sound db
  Local := Relies
  Pair := Apart
  symm h name := ⟨(h name).2, (h name).1⟩

/-- A message has its topic, or a call in flight deletes it. -/
def topicOrDeletion : Custody Db Call Message where
  Present db message := message ∈ db.messages
  Settled db message := ∃ topic ∈ db.topics,
    topic.name = message.topicName ∧ topic.id < message.messageId
  Holds call message := call.empties = some message.topicName

theorem begins_noOrphans (unique : Bool) :
    Outline.Begins (service unique) noOrphans Orderly := by
  intro pool request _ _
  cases request <;> exact ⟨trivial, fun other _ name => ⟨nofun, nofun⟩⟩

/-- What an allowed segment writes, of a call with its assertions. -/
theorem touches_of_segment (unique : Bool) {pool : Pool Db Call Outcome} {i : ℕ} {call : Call}
    (time : ℤ) (h : noOrphans.Holds pool) (hcall : pool.calls[i]? = some call) :
    Touches pool.shared call (segment unique pool.shared call time).1 :=
  touches_of_effect (h.each call (List.mem_of_getElem? hcall)) (segment_effect ..)

theorem segments_noOrphans (unique : Bool) :
    Outline.Segments (service unique) noOrphans Orderly := by
  intro pool i time call h hallowed hcall
  obtain ⟨hlooksUp, hremoves, hdeadline⟩ := hallowed call hcall
  have hmem : call ∈ pool.calls := List.mem_of_getElem? hcall
  have hrelies : Relies pool.shared call := h.each call hmem
  have htouches := touches_of_segment unique time h hcall
  refine ⟨.of_calls (fun _ => ?_) (fun rest hrest => ?_) (segment_calls_pairwise ..),
    fun other hother => ?_⟩
  · exact h.inv.effect hrelies (segment_effect ..)
  · exact hrelies.next h.inv hdeadline (segment_next unique hrest)
  · have hotherMem : other ∈ pool.calls := List.mem_of_mem_eraseIdx hother
    obtain ⟨-, hotherRelies, hapart⟩ := h.pair_of_others hcall hother
    refine .of ?_ fun rest hrest name => ⟨fun hrestName => ?_, fun hotherName => ?_⟩
    · exact hotherRelies.spared h.inv hapart
        (fun name hname => hremoves name hname other hotherMem) htouches
    · -- a publish that begins, or goes on
      rcases (segment_next unique hrest).publishesTo hrestName with hname | hname
      · exact (hapart name).1 hname
      · exact hlooksUp name hname other hotherMem
    · -- a deletion that begins, or goes on
      intro hrestName
      rcases (segment_next unique hrest).empties hrestName with hname | hname
      · exact (hapart name).2 hotherName hname
      · exact hremoves name hname other hotherMem hotherName

/-- A deletion goes on until no message of the topic is left. -/
theorem empties_goes_on (unique : Bool) {db : Db} {call : Call} {name : JsString} (time : ℤ)
    (h : call.empties = some name) :
    (∃ rest ∈ (segment unique db call time).2.calls, rest.empties = some name) ∨
      ∀ message ∈ (segment unique db call time).1.messages, message.topicName ≠ name := by
  rcases Call.of_empties h with rfl | ⟨ids, rfl⟩
  · exact .inl ⟨_, List.mem_cons_self, rfl⟩
  · cases ids with
    | cons id ids => exact .inl ⟨_, List.mem_cons_self, rfl⟩
    | nil =>
      right
      intro message hmem
      obtain ⟨-, hkept⟩ := List.mem_filter.1 hmem
      exact of_decide_eq_true hkept

/-- The removal of a topic goes on with the deletion of its messages. -/
theorem removes_goes_on (unique : Bool) {db : Db} {call : Call} {topic : Topic} (time : ℤ)
    (h : call.removes = some topic.name) (hmem : topic ∈ db.topics) :
    topic ∈ (segment unique db call time).1.topics ∨
      ∃ rest ∈ (segment unique db call time).2.calls, rest.empties = some topic.name := by
  obtain ⟨id, rfl⟩ := Call.of_removes h
  simp only [segment, topicSegment]
  split
  · exact .inr ⟨_, List.mem_cons_self, rfl⟩
  · exact .inl hmem

/-- A publish relies on its topic. -/
theorem Relies.topic {db : Db} {call : Call} {name : JsString} (hrelies : Relies db call)
    (h : call.publishesTo = some name) : ∃ topic ∈ db.topics, topic.name = name := by
  rcases Call.of_publishesTo h with ⟨since, inputs, rfl⟩ | ⟨since, publication, stage, rfl, rfl⟩
  · exact hrelies
  · exact hrelies.1

theorem passes_topicOrDeletion (unique : Bool) :
    Custody.Segments (service unique) noOrphans topicOrDeletion Orderly := by
  intro pool i time call h hallowed hcall message hmem
  have hrelies : Relies pool.shared call := h.each call (List.mem_of_getElem? hcall)
  have htouches := touches_of_segment unique time h hcall
  rcases htouches.messageOrigin message hmem with hold | ⟨hnew, hpublishes⟩
  · by_cases hsettled : topicOrDeletion.Settled pool.shared message
    · obtain ⟨topic, htopic, hname, hid⟩ := hsettled
      rcases htouches.topicKept topic htopic with hkept | hremoved
      · exact .inl ⟨topic, hkept, hname, hid⟩
      · rcases removes_goes_on unique time hremoved htopic with hkept | ⟨rest, hrest, hempties⟩
        · exact .inl ⟨topic, hkept, hname, hid⟩
        · exact .inr (.inl ⟨rest, hrest, hempties.trans (congrArg some hname)⟩)
    · by_cases hholds : topicOrDeletion.Holds call message
      · rcases empties_goes_on unique time hholds with ⟨rest, hrest, hempties⟩ | hgone
        · exact .inr (.inl ⟨rest, hrest, hempties⟩)
        · exact absurd rfl (hgone message hmem)
      · exact .inr (.inr ⟨hold, hsettled, hholds⟩)
  · -- a publish relies on the topic, which is older than what it creates
    obtain ⟨topic, htopic, hname⟩ := hrelies.topic hpublishes
    have hkept : topic ∈ (segment unique pool.shared call time).1.topics := by
      refine (htouches.topicKept topic htopic).resolve_right fun hremoves => ?_
      exact Call.not_removes_of_publishesTo hpublishes hremoves
    exact .inl ⟨topic, hkept, hname, (h.inv.topicsBelow topic htopic).trans_le hnew⟩

theorem sound_empty : Sound .empty where
  topicIds := List.nodup_nil
  topicsBelow _ h := absurd h List.not_mem_nil
  messageIds := List.nodup_nil
  messagesBelow _ h := absurd h List.not_mem_nil
  rows _ h := absurd h List.not_mem_nil
  deadlines _ h := absurd h List.not_mem_nil
  settings _ h := absurd h List.not_mem_nil

theorem noOrphans_empty : noOrphans.Holds ⟨.empty, [], []⟩ := .start sound_empty

/-- In sound tables, the records found are those to return. -/
theorem Sound.findDeliverable (h : Sound db) {name : JsString} {maxMessages : ℕ} {now : ℤ}
    (hle : yearZero ≤ now) (hlt : now < year10000) :
    db.findDeliverable name maxMessages now = (db.deliverable name now).take maxMessages := by
  unfold Db.findDeliverable Db.deliverable
  refine congrArg (List.take maxMessages) (List.filter_congr fun row hrow => ?_)
  have hexpired : expired row.ackDeadline now = decide (row.ackDeadline ≤ now) := by
    have hbound := h.deadlines row hrow
    refine decide_eq_decide.2 ((toISOString_le_iff hle hlt).trans ?_)
    omega
  rw [hexpired, findMessage_isSome.2 (h.rows row hrow), Bool.and_true]

/-- What a run reaches. -/
theorem noOrphans_of_run (unique : Bool) {ms : List (Move Request ℤ)} {pool : Pool Db Call Outcome}
    (hrun : Run ((service unique).Step Orderly) ⟨.empty, [], []⟩ ms pool) :
    noOrphans.Holds pool ∧ topicOrDeletion.Covers pool :=
  Custody.Covers.of_run (begins_noOrphans unique) (segments_noOrphans unique)
    (passes_topicOrDeletion unique) hrun noOrphans_empty nofun

/-- A pull of at most `maxMessages` that runs alone returns the first records to return, as many as
there are, each with its message. -/
def PullsAll (unique : Bool) (db : Db) : Prop :=
  ∀ name sub, db.getSubscriptionByName name = some sub → sub.detached = false →
    ∀ maxMessages, 1 ≤ maxMessages → ∀ time now inputs, yearZero ≤ now →
      now + 600 * 1000 < year10000 → 2 * maxMessages < inputs.length →
      ∃ db' received,
        (service unique).alone db (.pull name maxMessages) (time :: now :: inputs) =
          some (db', .pulled received) ∧
        received.length = min maxMessages (db.deliverable name now).length ∧
        received.map Received.row = (db.deliverable name now).take maxMessages ∧
        ∀ r ∈ received, r.message ∈ db.messages ∧ r.message.messageId = r.row.messageId

/-- Each message has a topic that is older than it, or a call in flight is deleting the messages of
that topic. -/
def TopicsKept (pool : Pool Db Call Outcome) : Prop :=
  ∀ message ∈ pool.shared.messages,
    (∃ topic ∈ pool.shared.topics,
      topic.name = message.topicName ∧ topic.id < message.messageId) ∨
    ∃ call ∈ pool.calls, call.empties = some message.topicName

theorem Sound.pullsAll (unique : Bool) (h : Sound db) : PullsAll unique db := by
  intro name sub hsub hactive maxMessages _ time now inputs hle hlt hinputs
  obtain ⟨hseconds, hseconds'⟩ := h.settings sub (List.mem_of_find?_eq_some hsub)
  have hdeadline := deadlineAfter_isSome hle (by omega) (show now + sub.ackDeadlineSeconds * 1000 <
    year10000 by omega)
  have hfound : db.findDeliverable name maxMessages now =
      (db.deliverable name now).take maxMessages := h.findDeliverable hle (by omega)
  have hrows : (db.receive (db.findDeliverable name maxMessages now)).map Received.row =
      db.findDeliverable name maxMessages now := by
    refine map_row_receive fun row hrow => findMessage_isSome.2 (h.rows row ?_)
    exact (mem_findDeliverable hrow).1
  refine ⟨_, _, alone_pull unique hsub hactive hdeadline hinputs, ?_, ?_, fun r hr =>
    mem_receive hr⟩
  · rw [← List.length_map, hrows, hfound, List.length_take]
  · rw [hrows, hfound]

/-- **Pull completeness.** In every state of a run in which publishes and deletions of a topic keep
apart and deadlines lie before the year 10000, a pull that runs alone returns all there is to return,
up to its limit, and nothing of a topic that was deleted. -/
theorem pull_complete (unique : Bool) {ms : List (Move Request ℤ)} {pool : Pool Db Call Outcome}
    (hrun : Run ((service unique).Step Orderly) ⟨.empty, [], []⟩ ms pool) :
    PullsAll unique pool.shared ∧ TopicsKept pool := by
  obtain ⟨hholds, hcovers⟩ := noOrphans_of_run unique hrun
  exact ⟨hholds.inv.pullsAll unique, hcovers⟩

/-! ## Samples -/

def aloneSettings : SubscriptionSettings where
  name := "s"
  topic := "t"
  pushEndpoint := none
  ackDeadlineSeconds := 10
  checked := by decide
  deadLetterPolicy := none
  retryPolicy := none

/-- A segment in June 2024. -/
def resumeInJune (index : ℕ) : Move Request ℤ := .resume index 1717200000000

/-- A request that meets no other. -/
def soloRequest (request : Request) (segments : ℕ) : List (Move Request ℤ) :=
  .start request :: List.replicate segments (resumeInJune 0)

def setUp : List (Move Request ℤ) :=
  soloRequest (.createTopic "t") 2 ++ soloRequest (.createSubscription aloneSettings) 3

def onePublish : List (Move Request ℤ) :=
  soloRequest (.publish "t" [⟨some "m", none, none⟩]) 5

/-- The topic is deleted between the message and its delivery record, and created again. -/
def overtakenPublish : List (Move Request ℤ) :=
  setUp ++ soloRequest (.publish "t" [⟨some "m", none, none⟩]) 3 ++ .start (.deleteTopic "t") ::
    List.replicate 5 (resumeInJune 1) ++ List.replicate 2 (resumeInJune 0) ++
    soloRequest (.createTopic "t") 2 ++ onePublish

def noTables : Pool Db Call Outcome := ⟨.empty, [], []⟩

theorem pull_complete_onePublish : ∃ pool,
    Run ((service true).Step Orderly) noTables (setUp ++ onePublish) pool ∧
      pool.shared.deliveries.length = 1 ∧ PullsAll true pool.shared ∧ TopicsKept pool := by
  obtain ⟨pool, hrun, htest⟩ : ∃ pool,
      Run ((service true).Step Orderly) noTables (setUp ++ onePublish) pool ∧
        decide (pool.shared.deliveries.length = 1) = true :=
    Async.exists_run (by decide +kernel)
  exact ⟨pool, hrun, of_decide_eq_true htest, pull_complete true hrun⟩

/-- A pull of one message returns none, although there is one. -/
def fallsShort (db : Db) : Bool :=
  ((db.getSubscriptionByName "s").any fun sub => !sub.detached) &&
    decide ((db.deliverable "s" 1717200000000).length = 1) &&
    match (service true).alone db (.pull "s" 1) (List.replicate 5 1717200000000) with
    | some (_, .pulled received) => received.isEmpty
    | _ => false

theorem not_pullsAll {db : Db} (h : fallsShort db = true) : ¬PullsAll true db := by
  intro hpulls
  simp only [fallsShort, Bool.and_eq_true, decide_eq_true_eq] at h
  obtain ⟨⟨hsub, hone⟩, halone⟩ := h
  obtain ⟨sub, hfound, hactive⟩ := (Option.any_eq_true _ _).1 hsub
  obtain ⟨db', received, hreturned, hlength, -⟩ := hpulls "s" sub hfound (by simpa using hactive) 1
    le_rfl 1717200000000 1717200000000 (List.replicate 3 1717200000000) (by decide) (by decide)
    (by decide)
  rw [show List.replicate 5 (1717200000000 : ℤ) =
    1717200000000 :: 1717200000000 :: List.replicate 3 1717200000000 from rfl, hreturned] at halone
  rw [hone, List.isEmpty_iff.1 halone] at hlength
  exact absurd hlength (by decide)

/-- A publish that a deletion overtakes leaves a record without its message, which a later pull
returns in place of another. -/
theorem not_pull_complete : ¬∀ (ms : List (Move Request ℤ)) (pool : Pool Db Call Outcome),
    Run ((service true).Step fun _ _ => True) noTables ms pool →
    PullsAll true pool.shared ∧ TopicsKept pool := by
  intro hclaim
  obtain ⟨pool, hrun, htest⟩ : ∃ pool,
      Run ((service true).Step fun _ _ => True) noTables overtakenPublish pool ∧
        fallsShort pool.shared = true :=
    Async.exists_run (by decide +kernel)
  exact not_pullsAll htest (hclaim _ pool hrun).1

end Kinglet.Pubsub
