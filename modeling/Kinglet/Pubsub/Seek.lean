import Kinglet.Js.Rfc3339
import Kinglet.Pubsub.Operations

/-!
# Seek to a time

`seek` makes the pending records of a subscription deliverable again whose message was published up
to a time. The time is the text of the request, and it is compared with the stored text of the
instant of publication. `seek_by_time` says when that selects the records published at or before
the instant the text denotes.
-/

namespace Kinglet.Pubsub

open Js

/-- The pending records of a subscription. -/
def State.pendingRows (s : State) (subscriptionName : JsString) : List Delivery :=
  s.db.deliveries.filter fun row =>
    decide (row.subscriptionName = subscriptionName) && decide (row.ackStatus = .pending)

/-- Whether the message of a record is stored and its instant of publication satisfies a condition. -/
def State.publishedAt (s : State) (row : Delivery) (condition : ℤ → Bool) : Bool :=
  (s.db.findMessage row.messageId).any fun message => condition message.publishTime

/-- The records `seek` acts on. -/
def State.soughtRows (s : State) (subscriptionName beforeTime : JsString) : List Delivery :=
  (s.pendingRows subscriptionName).filter fun row =>
    s.publishedAt row fun time => decide (toISOString time ≤ beforeTime)

/-- The records published at or before an instant. -/
def State.rowsUpTo (s : State) (subscriptionName : JsString) (instant : ℚ) : List Delivery :=
  (s.pendingRows subscriptionName).filter fun row =>
    s.publishedAt row fun time => decide ((time : ℚ) ≤ instant)

/-- The records with the deadlines of some of them reset. -/
def resetRows (rows : List Delivery) (deliveries : List Delivery) : List Delivery :=
  deliveries.map fun row =>
    if rows.any fun sought => row.id = sought.id then { row with ackDeadline := 0 } else row

variable {s : State}

theorem resetRows_nil (deliveries : List Delivery) : resetRows [] deliveries = deliveries :=
  List.map_id' deliveries

/-- One more record is reset. -/
theorem resetRows_cons (row : Delivery) (rows deliveries : List Delivery) :
    resetRows rows (deliveries.map fun other =>
      if decide (other.id = row.id) then { other with ackDeadline := 0 } else other) =
        resetRows (row :: rows) deliveries := by
  rw [resetRows, resetRows, List.map_map]
  refine List.map_congr_left fun other _ => ?_
  by_cases hid : other.id = row.id
  · simp [hid]
  · simp [hid]

/-- The loop of `resetDeliveredMessagesByTime`: messages stay, and so do the records passed over. -/
theorem deliveries_reset_foldl (messages : List Message) (beforeTime : JsString)
    (rows : List Delivery) {db : Db} (hmessages : db.messages = messages) :
    (rows.foldl (fun db row =>
      match db.findMessage row.messageId with
      | some message =>
          if toISOString message.publishTime ≤ beforeTime then
            db.updateDeliveries (fun other => other.id = row.id) fun other =>
              { other with ackDeadline := 0 }
          else db
      | none => db) db).deliveries =
      resetRows (rows.filter fun row =>
        (messages.find? fun message => message.messageId = row.messageId).any fun message =>
          decide (toISOString message.publishTime ≤ beforeTime)) db.deliveries := by
  induction rows generalizing db with
  | nil => exact (resetRows_nil db.deliveries).symm
  | cons row rows ih =>
      have hfind : db.findMessage row.messageId =
          messages.find? fun message => message.messageId = row.messageId := by
        rw [Db.findMessage, hmessages]
      rw [List.foldl_cons, List.filter_cons, hfind]
      cases messages.find? fun message => message.messageId = row.messageId with
      | none => exact ih hmessages
      | some message =>
          by_cases hsought : toISOString message.publishTime ≤ beforeTime
          · simp only [hsought, if_true, Option.any_some, decide_true]
            refine Eq.trans (ih hmessages) ?_
            rw [← resetRows_cons]
            rfl
          · simp only [hsought, if_false, Option.any_some, decide_false, Bool.false_eq_true]
            exact ih hmessages

/-- **What `seek` does**: it resets the deadlines of the records it acts on. -/
theorem deliveries_seek {subscriptionName time : JsString}
    (hsub : (s.db.getSubscriptionByName subscriptionName).isSome) (htime : time ≠ []) :
    (s.seek subscriptionName time).db.deliveries =
      resetRows (s.soughtRows subscriptionName time) s.db.deliveries := by
  obtain ⟨sub, hsub⟩ := Option.isSome_iff_exists.1 hsub
  rw [State.seek, hsub]
  dsimp only
  rw [if_neg htime]
  exact deliveries_reset_foldl s.db.messages time _ rfl

theorem text_ne_nil (sp : Spelling) : sp.text ≠ [] := by
  obtain ⟨digit, more, -, hdate⟩ := exists_digit_dateText sp.day
  rw [Spelling.text, hdate]
  exact List.cons_ne_nil _ _

/-- Two selections from one list agree when they do on each member. -/
theorem filter_eq_filter_iff {α : Type*} {p q : α → Bool} {l : List α} :
    l.filter p = l.filter q ↔ ∀ a ∈ l, p a = q a := by
  constructor
  · intro h a ha
    have hmem : a ∈ l.filter p ↔ a ∈ l.filter q := by rw [h]
    simp only [List.mem_filter, ha, true_and] at hmem
    exact Bool.eq_iff_iff.2 hmem
  · exact fun h => List.filter_congr h

/-- **Seek by time**: for every spelling of the time, `seek` resets the pending records it selects,
and these are the ones published at or before the denoted instant exactly when no pending record was
published in the gap of the spelling. -/
theorem seek_by_time (s : State) (subscriptionName : JsString) (sp : Spelling)
    (hsub : (s.db.getSubscriptionByName subscriptionName).isSome) :
    (s.seek subscriptionName sp.text).db.deliveries =
        resetRows (s.soughtRows subscriptionName sp.text) s.db.deliveries ∧
      (s.soughtRows subscriptionName sp.text = s.rowsUpTo subscriptionName sp.instant ↔
        ∀ row ∈ s.pendingRows subscriptionName, ∀ message,
          s.db.findMessage row.messageId = some message → ¬ sp.InGap message.publishTime) := by
  refine ⟨deliveries_seek hsub (text_ne_nil sp), ?_⟩
  rw [State.soughtRows, State.rowsUpTo, filter_eq_filter_iff]
  refine forall₂_congr fun row _ => ?_
  unfold State.publishedAt
  cases s.db.findMessage row.messageId with
  | none => exact iff_of_true rfl nofun
  | some message =>
      have hgap := Spelling.toISOString_le_text_iff_le_instant sp message.publishTime
      rw [Option.any_some, Option.any_some, decide_eq_decide, hgap]
      constructor
      · intro hnot other hother
        rwa [← Option.some.inj hother]
      · exact fun h => h message rfl

/-- One pending record of a message published at an instant. -/
def publishedOnce (time : ℤ) : State where
  db := ⟨[⟨0, "t"⟩], [⟨1, "s", "t", none, 10, none, none, false⟩],
    [⟨2, "t", some "d", none, none, time⟩], [⟨4, 3, "s", 2, 1, time + 10000, .pending⟩], 5⟩
  log := []

/-- Midnight of 2024-01-01 in UTC, without fractional digits. -/
def midnight : Spelling where
  day := 19723
  second := 0
  smallT := false
  fraction := []
  zone := .utc false
  dayInYears := by decide
  secondInDay := by decide
  digits := by decide
  zoneInRange := trivial

/-- The same instant an hour east of Greenwich. -/
def midnightEast : Spelling where
  day := 19723
  second := 3600
  smallT := false
  fraction := []
  zone := .offset false 1 0
  dayInYears := by decide
  secondInDay := by decide
  digits := by decide
  zoneInRange := ⟨by decide, by decide⟩

theorem seek_by_time_before_midnight :
    (publishedOnce 1704067199999).soughtRows "s" midnight.text =
        (publishedOnce 1704067199999).rowsUpTo "s" midnight.instant ↔
      ∀ row ∈ (publishedOnce 1704067199999).pendingRows "s", ∀ message,
        (publishedOnce 1704067199999).db.findMessage row.messageId = some message →
          ¬ midnight.InGap message.publishTime :=
  (seek_by_time (publishedOnce 1704067199999) "s" midnight (by decide)).2

/-- Half a second after the instant sought a message is reset for the spelling without a fraction,
and half an hour after it for the one with an offset. -/
theorem not_seek_by_time :
    ¬ (∀ (s : State) (subscriptionName : JsString) (sp : Spelling),
        s.soughtRows subscriptionName sp.text = s.rowsUpTo subscriptionName sp.instant) ∧
      midnight.text = js "2024-01-01T00:00:00Z" ∧
      midnightEast.text = js "2024-01-01T01:00:00+01:00" ∧
      midnight.instant = midnightEast.instant ∧
      (publishedOnce 1704067200500).rowsUpTo "s" midnight.instant = [] ∧
      (publishedOnce 1704067200500).soughtRows "s" midnight.text ≠ [] ∧
      (publishedOnce 1704069000000).rowsUpTo "s" midnightEast.instant = [] ∧
      (publishedOnce 1704069000000).soughtRows "s" midnightEast.text ≠ [] := by
  have hnone : (publishedOnce 1704067200500).rowsUpTo "s" midnight.instant = [] := by decide +kernel
  have hsome : (publishedOnce 1704067200500).soughtRows "s" midnight.text ≠ [] := by decide +kernel
  refine ⟨fun h => hsome ((h _ _ _).trans hnone), by decide +kernel, by decide +kernel,
    by decide +kernel, hnone, hsome, by decide +kernel, by decide +kernel⟩

end Kinglet.Pubsub
