import Kinglet.Js.DateOrder
import Kinglet.Pubsub.PushIsolation

/-!
# Runs of operations

Publishes, pulls, acknowledges, deadline changes, seeks, cleanups and ticks follow one another in
any order. `History` ties the status of a delivery record to the log: a message that was
acknowledged on a subscription has no pending record there, and is not delivered there again.
-/

namespace Kinglet.Pubsub

open Js

/-! ## Operations -/

structure World where
  engine : Engine
  state : State

inductive Op
  | publish (topicName : JsString) (messages : List PublishMessageInput) (now : ℤ)
  | pull (subscriptionName : JsString) (maxMessages : ℕ) (ackDeadlineOverride : Option ℤ) (now : ℤ)
  | acknowledge (subscriptionName : JsString) (ackIds : List ℕ)
  | modifyAckDeadline (subscriptionName : JsString) (ackIds : List ℕ)
      (ackDeadlineSeconds now : ℤ)
  | seek (subscriptionName time : JsString)
  | cleanup
  | tick (outside : Outside)

def Op.apply (w : World) : Op → World
  | .publish topicName messages now => { w with state := w.state.publish topicName messages now }
  | .pull name maxMessages override now =>
      { w with state := w.state.pull name maxMessages override now }
  | .acknowledge name ackIds => { w with state := w.state.acknowledge name ackIds }
  | .modifyAckDeadline name ackIds seconds now =>
      { w with state := w.state.modify name ackIds seconds now }
  | .seek name time => { w with state := w.state.seek name time }
  | .cleanup => { w with state := w.state.cleanupAckedMessages }
  | .tick outside =>
      let (engine, state) := Pubsub.tick outside w.engine w.state
      ⟨engine, state⟩

def run (w : World) (ops : List Op) : World := ops.foldl Op.apply w

/-! ## Histories -/

/-- The message and the subscription a record is about. -/
def Delivery.key (row : Delivery) : JsString × ℕ := (row.subscriptionName, row.messageId)

/-- The record whose message an event delivers. -/
def Event.delivered? : Event → Option Delivery
  | .pulled row | .posted row => some row
  | _ => none

/-- The later event does not deliver what the earlier one acknowledged. -/
def GoneAfter (earlier later : Event) : Prop :=
  ∀ row other, earlier = .acked row → later.delivered? = some other → other.key ≠ row.key

/-- A message has one record for a subscription, and came before. -/
structure Db.Keyed (db : Db) : Prop where
  wellFormed : db.WellFormed
  keys : (db.deliveries.map Delivery.key).Nodup
  messageIds : ∀ row ∈ db.deliveries, row.messageId < db.nextId

structure History (s : State) : Prop where
  keyed : s.db.Keyed
  acked : ∀ row, .acked row ∈ s.log → row.messageId < s.db.nextId ∧
    ∀ other ∈ s.db.deliveries, other.key = row.key → other.ackStatus = .acked
  gone : s.log.Pairwise GoneAfter

instance (db : Db) : Decidable db.Keyed :=
  decidable_of_iff
    (db.WellFormed ∧ (db.deliveries.map Delivery.key).Nodup ∧
      ∀ row ∈ db.deliveries, row.messageId < db.nextId)
    ⟨fun ⟨h₁, h₂, h₃⟩ => ⟨h₁, h₂, h₃⟩, fun ⟨h₁, h₂, h₃⟩ => ⟨h₁, h₂, h₃⟩⟩

variable {db : Db} {s : State} {row : Delivery}

theorem Db.Keyed.history (h : db.Keyed) : History ⟨db, []⟩ := ⟨h, nofun, .nil⟩

namespace History

/-! ### Events -/

theorem emit (h : History s) (event : Event) (hacked : ∀ row, event ≠ .acked row)
    (hgone : ∀ other, event.delivered? = some other →
      other ∈ s.db.deliveries ∧ other.ackStatus = .pending) : History (s.emit [event]) where
  keyed := h.keyed
  acked := by
    intro row hrow
    rcases List.mem_append.1 hrow with hrow | hrow
    · exact h.acked row hrow
    · exact absurd (List.mem_singleton.1 hrow).symm (hacked row)
  gone := by
    refine List.pairwise_append.2 ⟨h.gone, List.pairwise_singleton .., ?_⟩
    intro earlier hearlier later hlater row other hrow hother hkey
    obtain rfl := List.mem_singleton.1 hlater
    obtain ⟨hmem, hpending⟩ := hgone other hother
    have hstatus := (h.acked row (hrow ▸ hearlier)).2 other hmem hkey
    exact nomatch hpending.symm.trans hstatus

theorem emit_quiet (h : History s) (event : Event) (hacked : ∀ row, event ≠ .acked row)
    (hquiet : event.delivered? = none) : History (s.emit [event]) :=
  h.emit event hacked fun _ hother => nomatch hquiet.symm.trans hother

/-! ### Writes -/

theorem updateDeliveries (h : History s) (condition : Delivery → Bool)
    (update : Delivery → Delivery) (hkeeps : Db.KeepsIdentity update)
    (hstatus : ∀ row, row.ackStatus = .acked → (update row).ackStatus = .acked) :
    History { s with db := s.db.updateDeliveries condition update } where
  keyed := by
    refine ⟨h.keyed.wellFormed.updateDeliveries hkeeps, ?_, ?_⟩
    · rw [Db.map_updateDeliveries fun row => Prod.ext (hkeeps row).2.2.1 (hkeeps row).2.2.2]
      exact h.keyed.keys
    · intro row hrow
      obtain ⟨old, hold, rfl⟩ := Db.mem_updateDeliveries.1 hrow
      split
      · rw [(hkeeps old).2.2.2]
        exact h.keyed.messageIds old hold
      · exact h.keyed.messageIds old hold
  acked := by
    intro row hrow
    refine ⟨(h.acked row hrow).1, fun other hother hkey => ?_⟩
    obtain ⟨old, hold, rfl⟩ := Db.mem_updateDeliveries.1 hother
    by_cases hcondition : condition old = true
    · rw [if_pos hcondition] at hkey ⊢
      have hsame : (update old).key = old.key := Prod.ext (hkeeps old).2.2.1 (hkeeps old).2.2.2
      exact hstatus old ((h.acked row hrow).2 old hold (hsame.symm.trans hkey))
    · rw [if_neg hcondition] at hkey ⊢
      exact (h.acked row hrow).2 old hold hkey
  gone := h.gone

theorem deleteDeliveries (h : History s) (condition : Delivery → Bool) :
    History { s with db := s.db.deleteDeliveries condition } where
  keyed := by
    obtain ⟨⟨hids, hackIds, hbelow, hnames⟩, hkeys, hmessageIds⟩ := h.keyed
    have hsub : (s.db.deleteDeliveries condition).deliveries.Sublist s.db.deliveries :=
      List.filter_sublist
    exact ⟨⟨(hsub.map _).nodup hids, (hsub.map _).nodup hackIds,
      fun row hrow => hbelow row (hsub.subset hrow), hnames⟩, (hsub.map _).nodup hkeys,
      fun row hrow => hmessageIds row (hsub.subset hrow)⟩
  acked := by
    intro row hrow
    refine ⟨(h.acked row hrow).1, fun other hother hkey => ?_⟩
    exact (h.acked row hrow).2 other (List.mem_of_mem_filter hother) hkey
  gone := h.gone

theorem acknowledgeOne (h : History s) (subscriptionName : JsString) (ackId : ℕ) :
    History (State.acknowledgeOne subscriptionName s ackId) := by
  have hupdated := h.updateDeliveries (Delivery.isAck subscriptionName ackId)
    (fun row => { row with ackStatus := .acked }) (fun _ => ⟨rfl, rfl, rfl, rfl⟩) fun _ _ => rfl
  refine ⟨hupdated.keyed, fun row hrow => ?_, ?_⟩
  · rcases List.mem_append.1 hrow with hrow | hrow
    · exact hupdated.acked row hrow
    · obtain ⟨old, hold, heq⟩ := List.mem_map.1 hrow
      obtain rfl := Event.acked.inj heq
      obtain ⟨hmem, hack⟩ := List.mem_filter.1 hold
      refine ⟨h.keyed.messageIds old hmem, fun other hother hkey => ?_⟩
      obtain ⟨old', hold', rfl⟩ := Db.mem_updateDeliveries.1 hother
      by_cases hack' : Delivery.isAck subscriptionName ackId old' = true
      · rw [if_pos hack']
      · rw [if_neg hack'] at hkey
        obtain rfl := List.inj_on_of_nodup_map h.keyed.keys hold' hmem hkey
        exact absurd hack hack'
  · refine List.pairwise_append.2 ⟨h.gone, ?_, ?_⟩
    · refine List.pairwise_map.2 (List.pairwise_of_forall fun earlier later => ?_)
      exact fun _ _ _ hother => nomatch hother
    · intro earlier _ later hlater row other _ hother
      obtain ⟨old, -, rfl⟩ := List.mem_map.1 hlater
      cases hother

theorem acknowledgeMessages (h : History s) (subscriptionName : JsString) (ackIds : List ℕ) :
    History (s.acknowledgeMessages subscriptionName ackIds) := by
  induction ackIds generalizing s with
  | nil => exact h
  | cons ackId ackIds ih => exact ih (h.acknowledgeOne subscriptionName ackId)

theorem createDelivery (h : History s) {subscriptionName : JsString} {messageId : ℕ}
    (hid : messageId < s.db.nextId) (hacked : ∀ row, .acked row ∈ s.log → row.messageId ≠ messageId)
    (hfresh : ∀ row ∈ s.db.deliveries, row.messageId = messageId →
      row.subscriptionName ≠ subscriptionName) :
    History { s with db := s.db.createDelivery subscriptionName messageId } where
  keyed := by
    refine ⟨h.keyed.wellFormed.createDelivery subscriptionName messageId, ?_, ?_⟩
    · simp only [Db.createDelivery, List.map_append, List.map_cons, List.map_nil]
      refine List.nodup_append'.2 ⟨h.keyed.keys, List.nodup_singleton _, ?_⟩
      intro key hkey hnew
      obtain rfl := List.mem_singleton.1 hnew
      obtain ⟨row, hrow, hkey⟩ := List.mem_map.1 hkey
      exact hfresh row hrow (congrArg Prod.snd hkey) (congrArg Prod.fst hkey)
    · intro row hrow
      rcases List.mem_append.1 hrow with hrow | hrow
      · exact (h.keyed.messageIds row hrow).trans_le (Nat.le_add_right _ 2)
      · obtain rfl := List.mem_singleton.1 hrow
        exact hid.trans_le (Nat.le_add_right _ 2)
  acked := by
    intro row hrow
    obtain ⟨hbelow, hstatus⟩ := h.acked row hrow
    refine ⟨hbelow.trans_le (Nat.le_add_right _ 2), fun other hother hkey => ?_⟩
    rcases List.mem_append.1 hother with hother | hother
    · exact hstatus other hother hkey
    · obtain rfl := List.mem_singleton.1 hother
      exact absurd (congrArg Prod.snd hkey).symm (hacked row hrow)
  gone := h.gone

theorem fanOut (h : History s) (messageId : ℕ) (names : List JsString)
    (hid : messageId < s.db.nextId) (hacked : ∀ row, .acked row ∈ s.log → row.messageId ≠ messageId)
    (hfresh : ∀ row ∈ s.db.deliveries, row.messageId = messageId →
      row.subscriptionName ∉ names) (hnames : names.Nodup) :
    History { s with db := State.fanOut messageId s.db names } := by
  induction names generalizing s with
  | nil => exact h
  | cons name names ih =>
      obtain ⟨hname, hnames⟩ := List.nodup_cons.1 hnames
      have hone := h.createDelivery hid hacked fun row hrow hrowId heq =>
        hfresh row hrow hrowId (heq ▸ List.mem_cons_self)
      refine ih hone (hid.trans_le (Nat.le_add_right _ 2)) hacked (fun row hrow hrowId => ?_) hnames
      rcases List.mem_append.1 hrow with hrow | hrow
      · exact fun hmem => hfresh row hrow hrowId (List.mem_cons_of_mem _ hmem)
      · obtain rfl := List.mem_singleton.1 hrow
        exact hname

theorem createMessage (h : History s) (topicName : JsString) (input : PublishMessageInput)
    (now : ℤ) : History { s with db := s.db.createMessage topicName input now } where
  keyed := ⟨h.keyed.wellFormed.createMessage topicName input now, h.keyed.keys,
    fun row hrow => (h.keyed.messageIds row hrow).trans (Nat.lt_succ_self _)⟩
  acked := fun row hrow =>
    ⟨(h.acked row hrow).1.trans (Nat.lt_succ_self _), (h.acked row hrow).2⟩
  gone := h.gone

theorem publishMessages (h : History s) (topicName : JsString) {names : List JsString}
    (hnames : names.Nodup) (now : ℤ) (inputs : List PublishMessageInput) :
    History { s with db := (State.publishMessages topicName names now s.db inputs).1 } := by
  induction inputs generalizing s with
  | nil => exact h
  | cons input inputs ih =>
      have hmessage := h.createMessage topicName input now
      have hone := hmessage.fanOut s.db.nextId names
        (Nat.lt_succ_self _) (fun row hrow heq => ?_) (fun row hrow heq => ?_) hnames
      · exact ih hone
      · have hbelow := (h.acked row hrow).1
        omega
      · have hbelow := h.keyed.messageIds row hrow
        omega

theorem names_nodup (h : History s) (topicName : JsString) :
    ((s.db.findActiveSubscriptionsForTopic topicName).map Subscription.name).Nodup := by
  have hperm := (List.perm_insertionSort (fun a b : Subscription => a.name ≤ b.name)
    (s.db.subscriptions.filter fun sub => decide (sub.topic = topicName) && !sub.detached)).map
      Subscription.name
  exact hperm.nodup_iff.2 ((List.filter_sublist.map _).nodup h.keyed.wellFormed.names)

/-! ### Operations -/

theorem publish (h : History s) (topicName : JsString) (messages : List PublishMessageInput)
    (now : ℤ) : History (s.publish topicName messages now) := by
  unfold State.publish
  split
  · exact h
  · exact h.publishMessages topicName (h.names_nodup topicName) now messages

/-- A loop of writes that log nothing. -/
theorem foldl {α : Type*} {f : Db → α → Db} {log : List Event}
    (hf : ∀ db x, History ⟨db, log⟩ → History ⟨f db x, log⟩) {db : Db} (h : History ⟨db, log⟩)
    (xs : List α) : History ⟨xs.foldl f db, log⟩ := by
  induction xs generalizing db with
  | nil => exact h
  | cons x xs ih => exact ih (hf db x h)

theorem modify (h : History s) (subscriptionName : JsString) (ackIds : List ℕ)
    (ackDeadlineSeconds now : ℤ) :
    History (s.modify subscriptionName ackIds ackDeadlineSeconds now) := by
  unfold State.modify State.modifyAckDeadline
  split
  · exact h
  · split
    · exact h
    · refine foldl (fun db ackId h => ?_) h ackIds
      exact h.updateDeliveries _ _ (fun _ => ⟨rfl, rfl, rfl, rfl⟩) fun _ hacked => hacked

theorem acknowledge (h : History s) (subscriptionName : JsString) (ackIds : List ℕ) :
    History (s.acknowledge subscriptionName ackIds) := by
  unfold State.acknowledge
  split
  · exact h
  · exact h.acknowledgeMessages subscriptionName ackIds

theorem seek (h : History s) (subscriptionName time : JsString) :
    History (s.seek subscriptionName time) := by
  unfold State.seek State.resetDeliveredMessagesByTime
  split
  · exact h
  · split
    · exact h
    · refine foldl (fun db row h => ?_) h _
      split
      · split
        · exact h.updateDeliveries _ _ (fun _ => ⟨rfl, rfl, rfl, rfl⟩) fun _ hacked => hacked
        · exact h
      · exact h

theorem pullOne (h : History s) {ackDeadlineSeconds now : ℤ} {s' : State}
    (hrow : row ∈ s.db.deliveries) (hpending : row.ackStatus = .pending)
    (hone : State.pullOne ackDeadlineSeconds now s row = some s') :
    History s' ∧ ∀ other ∈ s.db.deliveries, other.id ≠ row.id → other ∈ s'.db.deliveries := by
  unfold State.pullOne at hone
  split at hone
  · obtain rfl := Option.some.inj hone
    exact ⟨h, fun _ hother _ => hother⟩
  · obtain ⟨newDeadline, -, rfl⟩ := Option.map_eq_some_iff.1 hone
    have hemitted := h.emit (.pulled row) (fun _ => nofun) fun other hother => by
      obtain rfl := Option.some.inj hother
      exact ⟨hrow, hpending⟩
    refine ⟨hemitted.updateDeliveries _ _ (fun _ => ⟨rfl, rfl, rfl, rfl⟩) fun _ hacked => hacked, ?_⟩
    have hwrites : Writes row s.db (s.db.updateDeliveries (fun other => other.id = row.id)
        fun other => { other with
          ackDeadline := newDeadline, deliveryAttempt := row.deliveryAttempt + 1 }) :=
      .of_update h.keyed.wellFormed (fun _ => ⟨rfl, rfl, rfl, rfl⟩)
        fun other _ hid => of_decide_eq_true hid
    exact hwrites.others

theorem pullMessages (h : History s) {ackDeadlineSeconds now : ℤ} {rows : List Delivery}
    (hrows : ∀ row ∈ rows, row ∈ s.db.deliveries ∧ row.ackStatus = .pending)
    (hnodup : (rows.map Delivery.id).Nodup) :
    History (State.pullMessages ackDeadlineSeconds now s rows) := by
  induction rows generalizing s with
  | nil => exact h
  | cons row rows ih =>
      obtain ⟨⟨hrow, hpending⟩, hrest⟩ := List.forall_mem_cons.1 hrows
      obtain ⟨hnotMem, hnodup⟩ := List.nodup_cons.1 hnodup
      rw [State.pullMessages]
      split
      · exact h
      · rename_i s' hone
        obtain ⟨h', hothers⟩ := h.pullOne hrow hpending hone
        refine ih h' (fun other hother => ⟨hothers other (hrest other hother).1 fun hid => ?_,
          (hrest other hother).2⟩) hnodup
        exact hnotMem (List.mem_map.2 ⟨other, hother, hid⟩)

theorem pull (h : History s) (subscriptionName : JsString) (maxMessages : ℕ)
    (ackDeadlineOverride : Option ℤ) (now : ℤ) :
    History (s.pull subscriptionName maxMessages ackDeadlineOverride now) := by
  unfold State.pull
  split
  · exact h
  · split
    · exact h
    · refine h.pullMessages (fun row hrow => ?_)
        (((findDeliverable_sublist ..).map _).nodup h.keyed.wellFormed.ids)
      obtain ⟨hmem, -, hpending, -⟩ := mem_findDeliverable hrow
      exact ⟨hmem, hpending⟩

theorem incrementDeliveryAttempt (h : History s) (id : ℕ) (newAckDeadline : ℤ) :
    History (s.incrementDeliveryAttempt id newAckDeadline) := by
  unfold State.incrementDeliveryAttempt
  split
  · exact h
  · rename_i record _
    have hupdated := h.updateDeliveries (fun row => row.id = id)
      (fun row =>
        { row with deliveryAttempt := record.deliveryAttempt + 1, ackDeadline := newAckDeadline })
      (fun _ => ⟨rfl, rfl, rfl, rfl⟩) fun _ hacked => hacked
    exact hupdated.emit_quiet _ (fun _ => nofun) rfl

theorem routeToDeadLetter (h : History s) (policy : DeadLetterPolicy) (row : Delivery)
    (message : Message) (subscriptionName : JsString) (now : ℤ) :
    History (s.routeToDeadLetter policy row message subscriptionName now) := by
  have hpublished : History (s.publishDeadLetter policy message now) := by
    unfold State.publishDeadLetter
    split
    · exact h.publishMessages _ (h.names_nodup _) now _
    · exact h
  have hemitted := hpublished.emit_quiet (.deadLettered row) (fun _ => nofun) rfl
  exact hemitted.acknowledgeMessages subscriptionName [row.ackId]

variable {outside : Outside} {sub : Subscription}

theorem deliver (h : History s) (outside : Outside) (sub : Subscription) (hrow : row ∈ s.db.deliveries)
    (hpending : row.ackStatus = .pending) (message : Message) :
    History (s.deliver outside sub (row, message)).1 := by
  have hposted := h.emit (.posted row) (fun _ => nofun) fun other hother => by
    obtain rfl := Option.some.inj hother
    exact ⟨hrow, hpending⟩
  unfold State.deliver State.pushMessage
  split
  · exact h.routeToDeadLetter ..
  · split
    · exact hposted.acknowledgeMessages ..
    · split
      · exact hposted.incrementDeliveryAttempt ..
      · exact hposted

theorem deliverAll (h : History s) {items : List (Delivery × Message)}
    (hitems : ∀ item ∈ items, item.1 ∈ s.db.deliveries ∧ item.1.subscriptionName = sub.name ∧
      item.1.ackStatus = .pending)
    (hnodup : ((items.map Prod.fst).map Delivery.id).Nodup) :
    History (s.deliverAll outside sub items).1 := by
  induction items generalizing s with
  | nil => exact h
  | cons item items ih =>
      obtain ⟨row, message⟩ := item
      obtain ⟨⟨hrow, hname, hpending⟩, hrest⟩ := List.forall_mem_cons.1 hitems
      obtain ⟨hnotMem, hnodup⟩ := List.nodup_cons.1 hnodup
      have hdelivered := h.deliver outside sub hrow hpending message
      obtain ⟨hwrites, -, -⟩ :=
        deliver_spec outside h.keyed.wellFormed hrow hname message
      rw [State.deliverAll]
      split
      · rename_i s' heq
        rw [heq] at hdelivered hwrites
        refine ih hdelivered (fun item hitem => ?_) hnodup
        obtain ⟨hmem, hrest⟩ := hrest item hitem
        refine ⟨hwrites.others item.1 hmem fun hid => hnotMem ?_, hrest⟩
        exact List.mem_map.2 ⟨item.1, List.mem_map_of_mem hitem, hid⟩
      · rename_i s' heq
        rw [heq] at hdelivered
        exact hdelivered

theorem visit (h : History s) (outside : Outside) (sub : Subscription) : History (s.visit outside sub).1 := by
  have hsearched := h.emit_quiet (.searched sub.name ((s.batch outside sub).map Prod.fst))
    (fun _ => nofun) rfl
  exact hsearched.deliverAll (fun item hitem => mem_batch hitem)
    (batch_nodup outside sub h.keyed.wellFormed)

theorem visitAll (h : History s) (outside : Outside) (subs : List Subscription) :
    History (s.visitAll outside subs).1 := by
  induction subs generalizing s with
  | nil => exact h
  | cons sub subs ih =>
      have hvisited := h.visit outside sub
      rw [State.visitAll]
      split
      · rename_i s' heq
        rw [heq] at hvisited
        exact ih hvisited
      · rename_i s' heq
        rw [heq] at hvisited
        exact hvisited

theorem tick (h : History s) (outside : Outside) (engine : Engine) :
    History (Pubsub.tick outside engine s).2 := by
  have hvisited := h.visitAll outside s.db.findPushSubscriptions
  unfold Pubsub.tick
  split
  · exact h
  · split
    · rename_i s' heq
      rw [heq] at hvisited
      exact hvisited
    · rename_i s' heq
      rw [heq] at hvisited
      dsimp only
      split
      · exact hvisited.deleteDeliveries _
      · exact hvisited

end History

theorem History.apply {w : World} (h : History w.state) (op : Op) : History (op.apply w).state := by
  cases op with
  | publish topicName messages now => exact h.publish topicName messages now
  | pull name maxMessages override now => exact h.pull name maxMessages override now
  | acknowledge name ackIds => exact h.acknowledge name ackIds
  | modifyAckDeadline name ackIds seconds now => exact h.modify name ackIds seconds now
  | seek name time => exact h.seek name time
  | cleanup => exact h.deleteDeliveries _
  | tick outside => exact h.tick outside w.engine

theorem History.run {w : World} (h : History w.state) (ops : List Op) :
    History (run w ops).state := by
  induction ops generalizing w with
  | nil => exact h
  | cons op ops ih => exact ih (h.apply op)

end Kinglet.Pubsub
