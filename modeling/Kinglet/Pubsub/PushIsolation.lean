import Kinglet.Pubsub.Operations

/-!
# One tick handles every message once

A tick searches each push subscription and handles what it selects, unless computing the deadline of
a reschedule throws: then the tick ends, and the later messages and subscriptions wait for the next
one, which selects the same message first. What the log of a tick says of each message is put
together from one message, one batch, and all batches.

## Main statements

* `deliver_spec`: one message writes to its own record only, and logs `handling`;
* `visitAll_spec`: the loop over the subscriptions;
* `tick_isolated_iff`: the tick handles everything it selects exactly when no backoff fails.
-/

namespace Kinglet.Pubsub

open Js

variable {outside : Outside} {sub : Subscription} {s s' : State} {row row' : Delivery}

/-! ## What a log says of a message -/

/-- The record an event is about. -/
def Event.row? : Event → Option Delivery
  | .searched _ _ => none
  | .pulled row | .posted row | .deadLettered row | .acked row | .rescheduled row _ => some row

def Event.search? : Event → Option JsString
  | .searched name _ => some name
  | _ => none

def Event.selection : Event → List Delivery
  | .searched _ rows => rows
  | _ => []

/-- The records an event mentions. -/
def Event.mentions (event : Event) : List Delivery := event.selection ++ event.row?.toList

def about (row : Delivery) (log : List Event) : List Event :=
  log.filter fun event => event.row?.any fun other => other.id = row.id

/-- One POST with an ack, or with a reschedule to a later deadline and one more attempt; or the
dead-letter path, with its ack. -/
inductive HandledOnce (row : Delivery) (log : List Event) : Prop
  | acked (h : about row log = [.posted row, .acked row])
  | rescheduled {row' : Delivery} (h : about row log = [.posted row, .rescheduled row row'])
      (hlater : row.ackDeadline < row'.ackDeadline)
      (hattempt : row'.deliveryAttempt = row.deliveryAttempt + 1)
  | deadLettered (h : about row log = [.deadLettered row, .acked row])

/-- The searches are those of the given subscriptions, and every selected message is handled. -/
structure Isolated (names : List JsString) (log : List Event) : Prop where
  searched : log.filterMap Event.search? = names
  handled : ∀ row ∈ log.flatMap Event.selection, HandledOnce row log

/-- A message whose POST fails can be rescheduled: the backoff gives a date, and a later one. -/
def Reschedulable (outside : Outside) (sub : Subscription) (row : Delivery) : Prop :=
  sub.exhausted row = none → outside.post row.id ≠ .ok →
    ∃ deadline, (outside.post row.id).failures.findSome?
        (retryDeadline row.deliveryAttempt sub.retryPolicy) = some deadline ∧
      row.ackDeadline < deadline

/-- Every message a tick selects is reschedulable, where the batch of a subscription is that of the
state in which its turn comes. -/
def AllReschedulable (outside : Outside) : State → List Subscription → Prop
  | _, [] => True
  | s, sub :: subs =>
      (∀ item ∈ s.batch outside sub, Reschedulable outside sub item.1) ∧
        AllReschedulable outside (s.visit outside sub).1 subs

instance (outside : Outside) (sub : Subscription) (row : Delivery) :
    Decidable (Reschedulable outside sub row) :=
  decidable_of_iff
    (sub.exhausted row = none → outside.post row.id ≠ .ok →
      ((outside.post row.id).failures.findSome?
        (retryDeadline row.deliveryAttempt sub.retryPolicy)).any
          fun deadline => decide (row.ackDeadline < deadline))
    (by simp [Reschedulable, Option.any_eq_true])

instance (outside : Outside) : ∀ s subs, Decidable (AllReschedulable outside s subs)
  | _, [] => .isTrue trivial
  | s, sub :: subs =>
      have := instDecidableAllReschedulable outside (s.visit outside sub).1 subs
      inferInstanceAs <| Decidable <|
        (∀ item ∈ s.batch outside sub, Reschedulable outside sub item.1) ∧
          AllReschedulable outside (s.visit outside sub).1 subs

/-! ## Logs -/

@[simp] theorem about_append (row : Delivery) (log log' : List Event) :
    about row (log ++ log') = about row log ++ about row log' :=
  List.filter_append ..

theorem about_eq_nil {log : List Event}
    (h : ∀ event ∈ log, ∀ other ∈ event.row?, other.id ≠ row.id) : about row log = [] := by
  refine List.filter_eq_nil_iff.2 fun event hevent => ?_
  cases hrow : event.row? with
  | none => simp
  | some other => simpa using h event hevent other hrow

theorem about_of_forall {log : List Event}
    (h : ∀ event ∈ log, ∃ other ∈ event.row?, other.id = row.id) : about row log = log := by
  refine List.filter_eq_self.2 fun event hevent => ?_
  obtain ⟨other, hother, hid⟩ := h event hevent
  simp [Option.mem_def.1 hother, hid]

theorem HandledOnce.congr {log log' : List Event} (h : about row log = about row log') :
    HandledOnce row log ↔ HandledOnce row log' := by
  constructor
  · rintro (h' | ⟨h', hlater, hattempt⟩ | h')
    · exact .acked (h ▸ h')
    · exact .rescheduled (h ▸ h') hlater hattempt
    · exact .deadLettered (h ▸ h')
  · rintro (h' | ⟨h', hlater, hattempt⟩ | h')
    · exact .acked (h ▸ h')
    · exact .rescheduled (h ▸ h') hlater hattempt
    · exact .deadLettered (h ▸ h')

/-! ## One message -/

/-- What the handling of a message logs, with whether it returns. -/
def handling (outside : Outside) (sub : Subscription) (row : Delivery) : List Event × Bool :=
  match sub.exhausted row with
  | some _ => ([.deadLettered row, .acked row], true)
  | none =>
      match outside.post row.id with
      | .ok => ([.posted row, .acked row], true)
      | answer =>
          match answer.failures.findSome? (retryDeadline row.deliveryAttempt sub.retryPolicy) with
          | some deadline => ([.posted row, .rescheduled row (row.retried deadline)], true)
          | none => ([.posted row], false)

/-- The ways in which a message is handled. -/
theorem handling_cases (outside : Outside) (sub : Subscription) (row : Delivery) :
    handling outside sub row = ([.deadLettered row, .acked row], true) ∧ sub.exhausted row ≠ none ∨
    handling outside sub row = ([.posted row, .acked row], true) ∧ outside.post row.id = .ok ∨
    (∃ deadline, handling outside sub row =
          ([.posted row, .rescheduled row (row.retried deadline)], true) ∧
        sub.exhausted row = none ∧ outside.post row.id ≠ .ok ∧
        (outside.post row.id).failures.findSome?
          (retryDeadline row.deliveryAttempt sub.retryPolicy) = some deadline) ∨
    handling outside sub row = ([.posted row], false) ∧ sub.exhausted row = none ∧
      outside.post row.id ≠ .ok ∧ (outside.post row.id).failures.findSome?
        (retryDeadline row.deliveryAttempt sub.retryPolicy) = none := by
  unfold handling
  cases hpolicy : sub.exhausted row with
  | some policy => exact .inl ⟨rfl, nofun⟩
  | none =>
    cases hpost : outside.post row.id with
    | ok => exact .inr (.inl ⟨rfl, rfl⟩)
    | refused | unreachable =>
      dsimp only
      split
      · exact .inr (.inr (.inl ⟨_, rfl, rfl, nofun, ‹_›⟩))
      · exact .inr (.inr (.inr ⟨rfl, rfl, nofun, ‹_›⟩))

theorem of_mem_handling {event : Event} (h : event ∈ (handling outside sub row).1) :
    event.row? = some row ∧ event.search? = none ∧ event.selection = [] := by
  rcases handling_cases outside sub row with ⟨heq, -⟩ | ⟨heq, -⟩ | ⟨deadline, heq, -⟩ | ⟨heq, -⟩ <;>
    rw [heq] at h
  · rcases List.mem_pair.1 h with rfl | rfl <;> exact ⟨rfl, rfl, rfl⟩
  · rcases List.mem_pair.1 h with rfl | rfl <;> exact ⟨rfl, rfl, rfl⟩
  · rcases List.mem_pair.1 h with rfl | rfl <;> exact ⟨rfl, rfl, rfl⟩
  · obtain rfl := List.mem_singleton.1 h
    exact ⟨rfl, rfl, rfl⟩

theorem about_handling_self :
    about row (handling outside sub row).1 = (handling outside sub row).1 :=
  about_of_forall fun _ hevent => ⟨row, (of_mem_handling hevent).1, rfl⟩

/-- **One message is handled** exactly when it is reschedulable, should its POST fail. -/
theorem handledOnce_handling :
    HandledOnce row (handling outside sub row).1 ↔ Reschedulable outside sub row := by
  rcases handling_cases outside sub row with
    ⟨heq, hpolicy⟩ | ⟨heq, hpost⟩ | ⟨deadline, heq, hpolicy, hpost, hdeadline⟩ |
      ⟨heq, hpolicy, hpost, hdeadline⟩
  · exact ⟨fun _ hnone => absurd hnone hpolicy,
      fun _ => .deadLettered (about_handling_self.trans (by rw [heq]))⟩
  · exact ⟨fun _ _ hfailed => absurd hpost hfailed,
      fun _ => .acked (about_handling_self.trans (by rw [heq]))⟩
  · have habout := about_handling_self.trans (congrArg Prod.fst heq)
    constructor
    · rintro (h | ⟨h, hlater, -⟩ | h) _ _
      · exact nomatch habout.symm.trans h
      · simp only [habout, List.cons.injEq, Event.rescheduled.injEq, true_and, and_true] at h
        obtain rfl := h
        exact ⟨deadline, hdeadline, hlater⟩
      · exact nomatch habout.symm.trans h
    · intro h
      obtain ⟨deadline', hdeadline', hlater⟩ := h hpolicy hpost
      obtain rfl := Option.some.inj (hdeadline.symm.trans hdeadline')
      exact .rescheduled habout hlater rfl
  · have habout := about_handling_self.trans (congrArg Prod.fst heq)
    constructor
    · rintro (h | ⟨h, -, -⟩ | h)
      all_goals exact nomatch habout.symm.trans h
    · intro h
      obtain ⟨deadline', hdeadline', -⟩ := h hpolicy hpost
      exact nomatch hdeadline.symm.trans hdeadline'

theorem Reschedulable.returns (h : Reschedulable outside sub row) :
    (handling outside sub row).2 = true := by
  rcases handling_cases outside sub row with
    ⟨heq, -⟩ | ⟨heq, -⟩ | ⟨deadline, heq, -⟩ | ⟨heq, hpolicy, hpost, hdeadline⟩
  · rw [heq]
  · rw [heq]
  · rw [heq]
  · obtain ⟨deadline, hdeadline', -⟩ := h hpolicy hpost
    exact nomatch hdeadline.symm.trans hdeadline'

/-- **One message.** -/
theorem deliver_spec (outside : Outside) (h : s.db.WellFormed) (hrow : row ∈ s.db.deliveries)
    (hname : row.subscriptionName = sub.name) (message : Message) :
    Writes row s.db (s.deliver outside sub (row, message)).1.db ∧
      (s.deliver outside sub (row, message)).1.log = s.log ++ (handling outside sub row).1 ∧
      (s.deliver outside sub (row, message)).2 = (handling outside sub row).2 := by
  have hacked := acknowledge_spec (s := s.emit [.posted row]) h hrow
  have hretried := incrementDeliveryAttempt_spec (s := s.emit [.posted row]) h hrow
  unfold State.deliver handling
  rw [← hname]
  cases sub.exhausted row with
  | some policy =>
    obtain ⟨hwrites, hlog⟩ :=
      routeToDeadLetter_spec h hrow policy message (outside.publishedAt row.id)
    exact ⟨hwrites, hlog, rfl⟩
  | none =>
    simp only [State.pushMessage, ← hname]
    cases outside.post row.id with
    | ok => exact ⟨hacked.1, hacked.2.trans (by simp), rfl⟩
    | refused failedAt caughtAt =>
      dsimp only
      cases List.findSome? _ (Answer.refused failedAt caughtAt).failures with
      | some deadline =>
        exact ⟨(hretried deadline).1, (hretried deadline).2.trans (by simp), rfl⟩
      | none => exact ⟨⟨h, .refl _, fun _ hother _ => hother⟩, rfl, rfl⟩
    | unreachable caughtAt =>
      dsimp only
      cases List.findSome? _ (Answer.unreachable caughtAt).failures with
      | some deadline =>
        exact ⟨(hretried deadline).1, (hretried deadline).2.trans (by simp), rfl⟩
      | none => exact ⟨⟨h, .refl _, fun _ hother _ => hother⟩, rfl, rfl⟩

/-! ## One batch -/

/-- What the handling of a batch logs, with whether it returns. -/
def handlings (outside : Outside) (sub : Subscription) : List Delivery → List Event × Bool
  | [] => ([], true)
  | row :: rows =>
      let (events, returns) := handling outside sub row
      if returns then (events ++ (handlings outside sub rows).1, (handlings outside sub rows).2)
      else (events, false)

theorem handlings_cons_of_returns {rows : List Delivery}
    (h : (handling outside sub row).2 = true) : handlings outside sub (row :: rows) =
      ((handling outside sub row).1 ++ (handlings outside sub rows).1,
        (handlings outside sub rows).2) := by
  simp [handlings, h]

theorem handlings_cons_of_throws {rows : List Delivery}
    (h : (handling outside sub row).2 = false) : handlings outside sub (row :: rows) =
      ((handling outside sub row).1, false) := by
  simp [handlings, h]

theorem of_mem_handlings {rows : List Delivery} {event : Event}
    (h : event ∈ (handlings outside sub rows).1) :
    event.search? = none ∧ event.selection = [] ∧ ∃ row ∈ rows, event.row? = some row := by
  induction rows with
  | nil => exact absurd h List.not_mem_nil
  | cons row rows ih =>
    have hor : event ∈ (handling outside sub row).1 ∨ event ∈ (handlings outside sub rows).1 := by
      cases hreturns : (handling outside sub row).2 with
      | true =>
        rw [handlings_cons_of_returns hreturns] at h
        exact List.mem_append.1 h
      | false =>
        rw [handlings_cons_of_throws hreturns] at h
        exact .inl h
    rcases hor with h | h
    · obtain ⟨hrow, hsearch, hselection⟩ := of_mem_handling h
      exact ⟨hsearch, hselection, row, List.mem_cons_self, hrow⟩
    · obtain ⟨hsearch, hselection, other, hother, hrow⟩ := ih h
      exact ⟨hsearch, hselection, other, List.mem_cons_of_mem _ hother, hrow⟩

theorem about_handlings_of_notMem {rows : List Delivery} (h : row.id ∉ rows.map Delivery.id) :
    about row (handlings outside sub rows).1 = [] := by
  refine about_eq_nil fun event hevent other hother hid => h ?_
  obtain ⟨-, -, found, hfound, hrow⟩ := of_mem_handlings hevent
  obtain rfl := Option.some.inj (hrow.symm.trans hother)
  exact List.mem_map.2 ⟨found, hfound, hid⟩

/-- **One batch is handled** exactly when its messages are reschedulable. -/
theorem handledOnce_handlings (outside : Outside) (sub : Subscription) {rows : List Delivery}
    (h : (rows.map Delivery.id).Nodup) :
    (∀ row ∈ rows, HandledOnce row (handlings outside sub rows).1) ↔
      ∀ row ∈ rows, Reschedulable outside sub row := by
  induction rows with
  | nil => simp
  | cons row rows ih =>
    obtain ⟨hrow, hrows⟩ := List.nodup_cons.1 h
    have hself : about row (handlings outside sub (row :: rows)).1 =
        about row (handling outside sub row).1 := by
      cases hreturns : (handling outside sub row).2 with
      | true =>
        rw [handlings_cons_of_returns hreturns, about_append, about_handlings_of_notMem hrow,
          List.append_nil]
      | false => rw [handlings_cons_of_throws hreturns]
    have hothers : Reschedulable outside sub row → ∀ other ∈ rows,
        about other (handlings outside sub (row :: rows)).1 =
          about other (handlings outside sub rows).1 := by
      intro hsound other hother
      have hnil : about other (handling outside sub row).1 = [] := by
        refine about_eq_nil fun event hevent found hfound hid => hrow ?_
        obtain rfl := Option.some.inj ((of_mem_handling hevent).1.symm.trans hfound)
        exact List.mem_map.2 ⟨other, hother, hid.symm⟩
      rw [handlings_cons_of_returns hsound.returns, about_append, hnil, List.nil_append]
    constructor
    · intro hall
      obtain ⟨hfirst, hrest⟩ := List.forall_mem_cons.1 hall
      have hsound := handledOnce_handling.1 ((HandledOnce.congr hself).1 hfirst)
      refine List.forall_mem_cons.2 ⟨hsound, (ih hrows).1 fun other hother => ?_⟩
      exact (HandledOnce.congr (hothers hsound other hother)).1 (hrest other hother)
    · intro hall
      obtain ⟨hsound, hrest⟩ := List.forall_mem_cons.1 hall
      refine List.forall_mem_cons.2
        ⟨(HandledOnce.congr hself).2 (handledOnce_handling.2 hsound), fun other hother => ?_⟩
      exact (HandledOnce.congr (hothers hsound other hother)).2 ((ih hrows).2 hrest other hother)

theorem handlings_returns {rows : List Delivery}
    (h : ∀ row ∈ rows, Reschedulable outside sub row) : (handlings outside sub rows).2 = true := by
  induction rows with
  | nil => rfl
  | cons row rows ih =>
    obtain ⟨hrow, hrows⟩ := List.forall_mem_cons.1 h
    rw [handlings_cons_of_returns hrow.returns]
    exact ih hrows

theorem deliverAll_spec (outside : Outside) (sub : Subscription) (h : s.db.WellFormed)
    {items : List (Delivery × Message)}
    (hitems : ∀ item ∈ items, item.1 ∈ s.db.deliveries ∧ item.1.subscriptionName = sub.name)
    (hnodup : ((items.map Prod.fst).map Delivery.id).Nodup) :
    (s.deliverAll outside sub items).1.db.WellFormed ∧
      s.db.Grows (s.deliverAll outside sub items).1.db ∧
      (s.deliverAll outside sub items).1.log =
        s.log ++ (handlings outside sub (items.map Prod.fst)).1 ∧
      (s.deliverAll outside sub items).2 = (handlings outside sub (items.map Prod.fst)).2 := by
  induction items generalizing s with
  | nil => exact ⟨h, .refl _, (List.append_nil _).symm, rfl⟩
  | cons item items ih =>
    obtain ⟨row, message⟩ := item
    obtain ⟨⟨hrow, hname⟩, hrest⟩ := List.forall_mem_cons.1 hitems
    obtain ⟨hnotMem, hnodup⟩ := List.nodup_cons.1 hnodup
    obtain ⟨hwrites, hlog, hreturns⟩ := deliver_spec outside h hrow hname message
    rw [State.deliverAll, List.map_cons]
    generalize s.deliver outside sub (row, message) = result at hwrites hlog hreturns ⊢
    obtain ⟨s', returns⟩ := result
    cases returns with
    | true =>
      have hitems' : ∀ item ∈ items,
          item.1 ∈ s'.db.deliveries ∧ item.1.subscriptionName = sub.name := by
        intro item hitem
        refine ⟨hwrites.others item.1 (hrest item hitem).1 fun hid => hnotMem ?_,
          (hrest item hitem).2⟩
        exact List.mem_map.2 ⟨item.1, List.mem_map_of_mem hitem, hid⟩
      obtain ⟨hwf, hgrows, hlog', hreturns'⟩ := ih hwrites.wellFormed hitems' hnodup
      rw [handlings_cons_of_returns hreturns.symm]
      refine ⟨hwf, hwrites.grows.trans hgrows, hlog'.trans ?_, hreturns'⟩
      rw [hlog, List.append_assoc]
    | false =>
      rw [handlings_cons_of_throws hreturns.symm]
      exact ⟨hwrites.wellFormed, hwrites.grows, hlog, rfl⟩

/-! ## All batches -/

theorem mem_batch {item : Delivery × Message} (h : item ∈ s.batch outside sub) :
    item.1 ∈ s.db.deliveries ∧ item.1.subscriptionName = sub.name ∧
      item.1.ackStatus = .pending := by
  obtain ⟨row, hrow, hmessage⟩ := List.mem_filterMap.1 h
  obtain ⟨message, -, rfl⟩ := Option.map_eq_some_iff.1 hmessage
  obtain ⟨hmem, hname, hpending, -⟩ := mem_findDeliverable hrow
  exact ⟨hmem, hname, hpending⟩

/-- The records of a batch are the deliverable ones whose message is still there. -/
theorem rows_batch (outside : Outside) (sub : Subscription) (s : State) :
    (s.batch outside sub).map Prod.fst =
      (s.db.findDeliverable sub.name State.batchSize (outside.searchedAt sub.name)).filter
        fun row => (s.db.findMessage row.messageId).isSome := by
  unfold State.batch State.findPushDeliverableMessages
  generalize s.db.findDeliverable sub.name State.batchSize (outside.searchedAt sub.name) = rows
  induction rows with
  | nil => rfl
  | cons row rows ih => cases hmessage : s.db.findMessage row.messageId <;> simp [hmessage, ih]

theorem batch_nodup (outside : Outside) (sub : Subscription) (h : s.db.WellFormed) :
    (((s.batch outside sub).map Prod.fst).map Delivery.id).Nodup := by
  rw [rows_batch]
  have hsub := findDeliverable_sublist s.db sub.name State.batchSize (outside.searchedAt sub.name)
  exact ((List.filter_sublist.trans hsub).map Delivery.id).nodup h.ids

theorem visit_spec (outside : Outside) (sub : Subscription) (h : s.db.WellFormed) :
    (s.visit outside sub).1.db.WellFormed ∧ s.db.Grows (s.visit outside sub).1.db ∧
      (s.visit outside sub).1.log = s.log ++
        .searched sub.name ((s.batch outside sub).map Prod.fst) ::
          (handlings outside sub ((s.batch outside sub).map Prod.fst)).1 ∧
      (s.visit outside sub).2 = (handlings outside sub ((s.batch outside sub).map Prod.fst)).2 := by
  have hitems : ∀ item ∈ s.batch outside sub, item.1 ∈ s.db.deliveries ∧
      item.1.subscriptionName = sub.name := fun item hitem =>
    ⟨(mem_batch hitem).1, (mem_batch hitem).2.1⟩
  obtain ⟨hwf, hgrows, hlog, hreturns⟩ := deliverAll_spec outside sub
    (s := s.emit [.searched sub.name ((s.batch outside sub).map Prod.fst)]) h hitems
    (batch_nodup outside sub h)
  refine ⟨hwf, hgrows, hlog.trans ?_, hreturns⟩
  rw [State.emit_log, List.append_assoc, List.singleton_append]

/-- The log of a batch followed by a log about other records. -/
theorem isolated_cons {name : JsString} {names : List JsString} {rows : List Delivery}
    {log rest : List Event}
    (hlog : ∀ event ∈ log, event.search? = none ∧ event.selection = [] ∧
      ∃ row ∈ rows, event.row? = some row)
    (hrest : ∀ event ∈ rest, ∀ other ∈ event.mentions, other.id ∉ rows.map Delivery.id) :
    Isolated (name :: names) (.searched name rows :: (log ++ rest)) ↔
      (∀ row ∈ rows, HandledOnce row log) ∧ Isolated names rest := by
  have hsearch : (Event.searched name rows :: (log ++ rest)).filterMap Event.search? =
      name :: rest.filterMap Event.search? := by
    have hnil : log.filterMap Event.search? = [] :=
      List.filterMap_eq_nil_iff.2 fun event hevent => (hlog event hevent).1
    simp [Event.search?, List.filterMap_append, hnil]
  have hselection : (Event.searched name rows :: (log ++ rest)).flatMap Event.selection =
      rows ++ rest.flatMap Event.selection := by
    have hnil : log.flatMap Event.selection = [] :=
      List.flatMap_eq_nil_iff.2 fun event hevent => (hlog event hevent).2.1
    rw [List.flatMap_cons, List.flatMap_append, hnil, List.nil_append]
    rfl
  have hbatch : ∀ row ∈ rows,
      about row (.searched name rows :: (log ++ rest)) = about row log := by
    intro row hrow
    have hnil : about row rest = [] := about_eq_nil fun event hevent other hother hid =>
      hrest event hevent other (List.mem_append_right _ (Option.mem_toList.2 hother))
        (List.mem_map.2 ⟨row, hrow, hid.symm⟩)
    change about row (log ++ rest) = about row log
    rw [about_append, hnil, List.append_nil]
  have hlater : ∀ row ∈ rest.flatMap Event.selection,
      about row (.searched name rows :: (log ++ rest)) = about row rest := by
    intro row hrow
    obtain ⟨event, hevent, hrow⟩ := List.mem_flatMap.1 hrow
    have hnil : about row log = [] := by
      refine about_eq_nil fun event' hevent' other hother hid => ?_
      obtain ⟨-, -, found, hfound, hfound'⟩ := hlog event' hevent'
      obtain rfl := Option.some.inj (hfound'.symm.trans hother)
      exact hrest event hevent row (List.mem_append_left _ hrow)
        (List.mem_map.2 ⟨found, hfound, hid⟩)
    change about row (log ++ rest) = about row rest
    rw [about_append, hnil, List.nil_append]
  constructor
  · rintro ⟨hsearched, hhandled⟩
    rw [hsearch] at hsearched
    rw [hselection] at hhandled
    refine ⟨fun row hrow => ?_, (List.cons.inj hsearched).2, fun row hrow => ?_⟩
    · exact (HandledOnce.congr (hbatch row hrow)).1 (hhandled row (List.mem_append_left _ hrow))
    · exact (HandledOnce.congr (hlater row hrow)).1 (hhandled row (List.mem_append_right _ hrow))
  · rintro ⟨hrows, hsearched, hhandled⟩
    refine ⟨hsearch.trans (congrArg _ hsearched), fun row hrow => ?_⟩
    rw [hselection] at hrow
    rcases List.mem_append.1 hrow with hrow | hrow
    · exact (HandledOnce.congr (hbatch row hrow)).2 (hrows row hrow)
    · exact (HandledOnce.congr (hlater row hrow)).2 (hhandled row hrow)

/-- A record that the given subscriptions have in the tables, or may get later. -/
def Foreseen (db : Db) (names : List JsString) (row : Delivery) : Prop :=
  db.nextId ≤ row.id ∨ ∃ old ∈ db.deliveries, old.id = row.id ∧ old.subscriptionName ∈ names

theorem Foreseen.of_grows {db db' : Db} {names : List JsString} (h : db.Grows db')
    (hrow : Foreseen db' names row) : Foreseen db names row := by
  rcases hrow with hnew | ⟨old', hold', hid', hname⟩
  · exact .inl (h.nextId.trans hnew)
  · rcases h.origin old' hold' with hnew | ⟨old, hold, hid, hsame⟩
    · exact .inl (hid' ▸ hnew)
    · exact .inr ⟨old, hold, hid.trans hid', hsame ▸ hname⟩

theorem Foreseen.mono {db : Db} {names names' : List JsString} (h : names ⊆ names')
    (hrow : Foreseen db names row) : Foreseen db names' row :=
  hrow.imp_right fun ⟨old, hold, hid, hname⟩ => ⟨old, hold, hid, h hname⟩

/-- Records of one subscription are not among those of others. -/
theorem Foreseen.id_ne {db : Db} {names : List JsString} {other : Delivery} (h : db.WellFormed)
    (hrow : Foreseen db names row) (hother : other ∈ db.deliveries)
    (hname : other.subscriptionName ∉ names) : row.id ≠ other.id := by
  intro hid
  rcases hrow with hnew | ⟨old, hold, hid', hmem⟩
  · have hbelow := (h.below other hother).1
    omega
  · obtain rfl := h.eq_of_id hold hother (hid'.trans hid)
    exact hname hmem

/-- **All batches.** -/
theorem visitAll_spec (outside : Outside) {subs : List Subscription} (h : s.db.WellFormed)
    (hnames : (subs.map Subscription.name).Nodup) :
    ∃ log, (s.visitAll outside subs).1.log = s.log ++ log ∧
      (∀ event ∈ log, ∀ row ∈ event.mentions,
        Foreseen s.db (subs.map Subscription.name) row) ∧
      (Isolated (subs.map Subscription.name) log ↔ AllReschedulable outside s subs) := by
  induction subs generalizing s with
  | nil => exact ⟨[], (List.append_nil _).symm, nofun, ⟨fun _ => trivial, fun _ => ⟨rfl, nofun⟩⟩⟩
  | cons sub subs ih =>
    obtain ⟨hname, hnames⟩ := List.nodup_cons.1 hnames
    obtain ⟨hwf, hgrows, hlog, hreturns⟩ := visit_spec outside sub h
    have hhandled := handledOnce_handlings outside sub (batch_nodup outside sub h)
    have hall : AllReschedulable outside s (sub :: subs) ↔
        (∀ row ∈ (s.batch outside sub).map Prod.fst, Reschedulable outside sub row) ∧
          AllReschedulable outside (s.visit outside sub).1 subs := by
      rw [List.forall_mem_map]
      rfl
    have hmem : ∀ row ∈ (s.batch outside sub).map Prod.fst,
        row ∈ s.db.deliveries ∧ row.subscriptionName = sub.name := by
      rw [List.forall_mem_map]
      exact fun item hitem => ⟨(mem_batch hitem).1, (mem_batch hitem).2.1⟩
    rw [hall, ← hhandled, State.visitAll, List.map_cons]
    generalize (s.batch outside sub).map Prod.fst = rows at hlog hreturns hhandled hmem ⊢
    generalize s.visit outside sub = result at hwf hgrows hlog hreturns ⊢
    obtain ⟨s', returns⟩ := result
    have hforeseen : ∀ row ∈ rows,
        Foreseen s.db (sub.name :: subs.map Subscription.name) row := fun row hrow =>
      .inr ⟨row, (hmem row hrow).1, rfl, (hmem row hrow).2 ▸ List.mem_cons_self⟩
    have hevents : ∀ event ∈ (handlings outside sub rows).1, ∀ row ∈ event.mentions,
        Foreseen s.db (sub.name :: subs.map Subscription.name) row := by
      intro event hevent row hrow
      obtain ⟨-, hselection, found, hfound, hfound'⟩ := of_mem_handlings hevent
      rw [Event.mentions, hselection, hfound', List.nil_append] at hrow
      obtain rfl := List.mem_singleton.1 hrow
      exact hforeseen row hfound
    cases returns with
    | true =>
      obtain ⟨rest, hrest, hmentions, hisolated⟩ := ih (s := s') hwf hnames
      refine ⟨.searched sub.name rows :: ((handlings outside sub rows).1 ++ rest), ?_, ?_, ?_⟩
      · rw [hrest, hlog, List.append_assoc, List.cons_append]
      · intro event hevent row hrow
        rcases List.mem_cons.1 hevent with rfl | hevent
        · exact hforeseen row (List.append_nil rows ▸ hrow)
        · rcases List.mem_append.1 hevent with hevent | hevent
          · exact hevents event hevent row hrow
          · exact ((hmentions event hevent row hrow).of_grows hgrows).mono
              (List.subset_cons_self ..)
      · rw [isolated_cons (fun event => of_mem_handlings), hisolated]
        intro event hevent other hother hid
        obtain ⟨row, hrow, hid⟩ := List.mem_map.1 hid
        obtain ⟨row', hrow', hid', hname'⟩ := hgrows.kept row (hmem row hrow).1
        refine (hmentions event hevent other hother).id_ne hwf hrow' ?_ (hid.symm.trans hid'.symm)
        rwa [hname', (hmem row hrow).2]
    | false =>
      refine ⟨.searched sub.name rows :: (handlings outside sub rows).1, hlog, ?_, ?_⟩
      · intro event hevent row hrow
        rcases List.mem_cons.1 hevent with rfl | hevent
        · exact hforeseen row (List.append_nil rows ▸ hrow)
        · exact hevents event hevent row hrow
      · -- the message at which the loop ended has its POST only
        have hfails : ¬∀ row ∈ rows, HandledOnce row (handlings outside sub rows).1 := by
          intro hrows
          have hreturned := handlings_returns (hhandled.1 hrows)
          exact nomatch hreturns.trans hreturned
        refine ⟨fun hisolated => absurd (fun row hrow => ?_) hfails,
          fun hsound => absurd hsound.1 hfails⟩
        have hsame : about row (.searched sub.name rows :: (handlings outside sub rows).1) =
            about row (handlings outside sub rows).1 := rfl
        exact (HandledOnce.congr hsame).1
          (hisolated.handled row (List.mem_append_left _ hrow))

/-- The cleanup logs nothing. -/
theorem tick_log (outside : Outside) {engine : Engine} (hidle : engine.running = false)
    (s : State) :
    (tick outside engine s).2.log = (s.visitAll outside s.db.findPushSubscriptions).1.log := by
  simp only [tick, hidle, Bool.false_eq_true, if_false]
  generalize s.visitAll outside s.db.findPushSubscriptions = result
  obtain ⟨s', _ | _⟩ := result
  · rfl
  · dsimp only
    split <;> rfl

/-- **One tick handles each message it selects exactly once, of every push subscription, and goes
on past every failing POST, if and only if each message whose POST fails can be rescheduled.** -/
theorem tick_isolated_iff (outside : Outside) (engine : Engine) (db : Db) (h : db.WellFormed)
    (hidle : engine.running = false) :
    Isolated (db.findPushSubscriptions.map Subscription.name)
        (tick outside engine ⟨db, []⟩).2.log ↔
      AllReschedulable outside ⟨db, []⟩ db.findPushSubscriptions := by
  have hnames : (db.findPushSubscriptions.map Subscription.name).Nodup :=
    (List.filter_sublist.map _).nodup h.names
  obtain ⟨log, hlog, -, hisolated⟩ := visitAll_spec outside (s := ⟨db, []⟩) h hnames
  rw [tick_log outside hidle, hlog, List.nil_append, hisolated]

/-! ## A tick that ends early -/

section Sample

def samplePolicy : RetryPolicy := ⟨some (js "99999999999999s"), some (js "99999999999999s")⟩

def sampleSubscription : Subscription where
  id := 0
  name := js "projects/p/subscriptions/s"
  topic := js "projects/p/topics/t"
  pushEndpoint := some (js "http://localhost/push")
  ackDeadlineSeconds := 10
  deadLetterPolicy := none
  retryPolicy := some samplePolicy
  detached := false

/-- Two messages wait for a push subscription. -/
def sampleDb : Db where
  topics := []
  subscriptions := [sampleSubscription]
  messages := [⟨1, js "projects/p/topics/t", none, none, none, 0⟩,
    ⟨4, js "projects/p/topics/t", none, none, none, 0⟩]
  deliveries := [⟨3, 2, js "projects/p/subscriptions/s", 1, 0, 0, .pending⟩,
    ⟨6, 5, js "projects/p/subscriptions/s", 4, 0, 0, .pending⟩]
  nextId := 7

/-- The endpoint refuses every POST. -/
def sampleOutside : Outside := ⟨fun _ => 1000, fun _ => 1000, fun _ => .refused 1000 1000⟩

/-- The backoff of the first message gives no date; the second one is not handled. -/
theorem backoff_without_date_ends_tick :
    ∃ (outside : Outside) (engine : Engine) (db : Db), db.WellFormed ∧ engine.running = false ∧
      ¬Isolated (db.findPushSubscriptions.map Subscription.name)
        (tick outside engine ⟨db, []⟩).2.log := by
  refine ⟨sampleOutside, ⟨false, 0, 60⟩, sampleDb, by decide +kernel, rfl, fun hisolated => ?_⟩
  have hlog : (tick sampleOutside ⟨false, 0, 60⟩ ⟨sampleDb, []⟩).2.log =
      [.searched sampleSubscription.name sampleDb.deliveries,
        .posted ⟨3, 2, js "projects/p/subscriptions/s", 1, 0, 0, .pending⟩] := by
    decide +kernel
  have hhandled := hisolated.handled ⟨6, 5, js "projects/p/subscriptions/s", 4, 0, 0, .pending⟩
  rw [hlog] at hhandled
  rcases hhandled (by decide +kernel) with h | ⟨h, -, -⟩ | h <;> exact nomatch h

/-- The same tables with the default policy. -/
def sampleDefaults : Db :=
  { sampleDb with subscriptions := [{ sampleSubscription with retryPolicy := none }] }

/-- With it both messages are rescheduled. -/
theorem tick_isolated_defaults :
    Isolated (sampleDefaults.findPushSubscriptions.map Subscription.name)
      (tick sampleOutside ⟨false, 0, 60⟩ ⟨sampleDefaults, []⟩).2.log :=
  (tick_isolated_iff sampleOutside ⟨false, 0, 60⟩ sampleDefaults (by decide +kernel) rfl).2
    (by decide +kernel)

end Sample

end Kinglet.Pubsub
