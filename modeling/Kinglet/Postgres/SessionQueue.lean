import Kinglet.Js.Utf8
import Kinglet.Library.Run

/-!
# The session queue

Connections share one backend, which executes one message at a time and may be in a transaction. The
drain loop runs the pending messages; while a transaction is open it runs those of the connection
that owns it. Messages are enqueued and connections detached at any point of the loop. With the
state go the transaction's opener and what was enqueued and handed over, which the code does not
keep.

* `handed_of_step`: a message is handed over while none is executing and no other connection has a
  transaction open.
* `handed_sublist`: those of one connection are handed over in the order in which they were enqueued.
-/

namespace Kinglet.Postgres

open Js Library

/-- A queued message. It is numbered by its `enqueue`, and either a client's or a `ROLLBACK` that the
queue sends for one. -/
structure QueuedMessage where
  number : ℕ
  connectionId : JsString
  bytes : List ℕ
  compensating : Bool
  deriving DecidableEq

/-- `setInt32` of a length. -/
def int32Bytes (n : ℕ) : List ℕ := [n / 2 ^ 24 % 256, n / 2 ^ 16 % 256, n / 2 ^ 8 % 256, n % 256]

/-- `buildSimpleQueryMessage(sql)`. -/
def buildSimpleQueryMessage (sql : JsString) : List ℕ :=
  let body := encode sql
  0x51 :: int32Bytes (5 + body.length) ++ body ++ [0]

/-- `ROLLBACK_QUERY_MESSAGE`. -/
def rollbackQueryMessage : List ℕ := buildSimpleQueryMessage "ROLLBACK"

/-- Where the drain loop is: it does not run, awaits the backend, has the backend's answer before it
goes on, or is about to take the next message. -/
inductive Drain
  | idle
  | executing (message : QueuedMessage)
  | executed (message : QueuedMessage) (ok : Bool)
  | between
  deriving DecidableEq

structure SessionQueue where
  pending : List QueuedMessage
  drain : Drain
  detachedConnectionIds : List JsString
  transactionOwnerId : Option JsString
  /-- Of the backend: whether it is in a transaction, and whose message opened that. -/
  inTransaction : Bool
  opener : Option JsString
  enqueued : List QueuedMessage
  handed : List QueuedMessage
  /-- The settled promises of `enqueue`, with whether they were resolved. -/
  settled : List (QueuedMessage × Bool)

namespace SessionQueue

def empty : SessionQueue where
  pending := []
  drain := .idle
  detachedConnectionIds := []
  transactionOwnerId := none
  inTransaction := false
  opener := none
  enqueued := []
  handed := []
  settled := []

variable (q : SessionQueue)

def executing : Option QueuedMessage :=
  match q.drain with
  | .executing message => some message
  | _ => none

/-- `takeNextRunnableMessage()`, with the messages that stay. -/
def takeNextRunnableMessage : Option (QueuedMessage × List QueuedMessage) :=
  let index :=
    match q.transactionOwnerId with
    | none => 0
    | some owner => q.pending.findIdx fun message => message.connectionId = owner
  (q.pending[index]?).map fun message => (message, q.pending.eraseIdx index)

/-- A turn of the loop of `drain()`, up to the backend. -/
def takeNext : SessionQueue :=
  match q.takeNextRunnableMessage with
  | none => { q with drain := .idle }
  | some (message, rest) =>
      { q with pending := rest, drain := .executing message, handed := q.handed ++ [message] }

/-- `drain()`, up to its first await. -/
def startDrain : SessionQueue := if q.drain = .idle then q.takeNext else q

/-- `this.pending.push(…)`. -/
def append (compensating : Bool) (connectionId : JsString) (bytes : List ℕ) : SessionQueue :=
  let message := ⟨q.enqueued.length, connectionId, bytes, compensating⟩
  { q with pending := q.pending ++ [message], enqueued := q.enqueued ++ [message] }

/-- `enqueue(connectionId, bytes, onData)`, of a client or of the queue. -/
def push (compensating : Bool) (connectionId : JsString) (bytes : List ℕ) : SessionQueue :=
  (q.append compensating connectionId bytes).startDrain

/-- `rollback(connectionId)`. -/
def rollback (connectionId : JsString) : SessionQueue :=
  let pushed := q.push true connectionId rollbackQueryMessage
  { pushed with
    detachedConnectionIds := pushed.detachedConnectionIds.filter fun id => id ≠ connectionId }

/-- What `detach(connectionId)` does before it looks at the owner. -/
def abandon (connectionId : JsString) : SessionQueue :=
  let abandoned := q.pending.filter fun message => message.connectionId = connectionId
  { q with
    pending := q.pending.filter fun message => message.connectionId ≠ connectionId
    settled := q.settled ++ abandoned.map fun message => (message, false)
    detachedConnectionIds := q.detachedConnectionIds.insert connectionId }

/-- `detach(connectionId)`. -/
def detach (connectionId : JsString) : SessionQueue :=
  if q.transactionOwnerId = some connectionId then (q.abandon connectionId).rollback connectionId
  else q.abandon connectionId

/-- The `finally` of `run(message)`. -/
def settle (message : QueuedMessage) (ok : Bool) : SessionQueue :=
  { q with
    drain := .between
    settled := q.settled ++ [(message, ok)]
    transactionOwnerId := if q.inTransaction then some message.connectionId else none }

/-- What `run(message)` does once the backend is done. -/
def finish (message : QueuedMessage) (ok : Bool) : SessionQueue :=
  if q.inTransaction ∧ message.connectionId ∈ q.detachedConnectionIds then
    (q.settle message ok).rollback message.connectionId
  else q.settle message ok

/-- The backend's part: it may succeed or fail, and end up in a transaction, which the message opened
or which was open before. -/
def execute (message : QueuedMessage) (ok inTransaction opened : Bool) : SessionQueue :=
  { q with
    drain := .executed message ok
    inTransaction := inTransaction
    opener :=
      if inTransaction then
        if opened then some message.connectionId else q.opener.or (some message.connectionId)
      else none }

end SessionQueue

inductive Event
  | enqueue (connectionId : JsString) (bytes : List ℕ)
  | detach (connectionId : JsString)
  | execute (ok inTransaction opened : Bool)
  | finish
  | next
  deriving DecidableEq

namespace SessionQueue

def step (q : SessionQueue) : Event → Option SessionQueue
  | .enqueue connectionId bytes => some (q.push false connectionId bytes)
  | .detach connectionId => some (q.detach connectionId)
  | .execute ok inTransaction opened =>
      match q.drain with
      | .executing message => some (q.execute message ok inTransaction opened)
      | _ => none
  | .finish =>
      match q.drain with
      | .executed message ok => some (q.finish message ok)
      | _ => none
  | .next =>
      match q.drain with
      | .between => some q.takeNext
      | _ => none

/-- The step relation of the queue, with whatever backend. -/
def Steps (q : SessionQueue) (event : Event) (q' : SessionQueue) : Prop := q.step event = some q'

end SessionQueue

namespace SessionQueue

variable {q q' : SessionQueue} {event : Event}

/-! ## What an event does -/

/-- What an event does, where it may happen. -/
inductive Reacts (q : SessionQueue) : Event → SessionQueue → Prop
  | enqueue (connectionId : JsString) (bytes : List ℕ) :
      Reacts q (.enqueue connectionId bytes) (q.push false connectionId bytes)
  | detach (connectionId : JsString) : Reacts q (.detach connectionId) (q.detach connectionId)
  | execute {message : QueuedMessage} (hdrain : q.drain = .executing message)
      (ok inTransaction opened : Bool) :
      Reacts q (.execute ok inTransaction opened) (q.execute message ok inTransaction opened)
  | finish {message : QueuedMessage} {ok : Bool} (hdrain : q.drain = .executed message ok) :
      Reacts q .finish (q.finish message ok)
  | next (hdrain : q.drain = .between) : Reacts q .next q.takeNext

theorem reacts_of_step (hstep : q.step event = some q') : Reacts q event q' := by
  unfold step at hstep
  split at hstep
  · obtain rfl := Option.some.inj hstep
    exact .enqueue _ _
  · obtain rfl := Option.some.inj hstep
    exact .detach _
  · split at hstep
    · obtain rfl := Option.some.inj hstep
      exact .execute ‹_› _ _ _
    · cases hstep
  · split at hstep
    · obtain rfl := Option.some.inj hstep
      exact .finish ‹_›
    · cases hstep
  · split at hstep
    · obtain rfl := Option.some.inj hstep
      exact .next ‹_›
    · cases hstep

/-! ## Taking the next message -/

/-- Nothing may run: whatever is pending waits for the transaction of another connection. -/
def Blocked (q : SessionQueue) : Prop :=
  ∀ message ∈ q.pending, ∃ owner, q.transactionOwnerId = some owner ∧ message.connectionId ≠ owner

/-- A turn of the loop takes the first message of its connection, or finds none that may run. -/
inductive Takes (q : SessionQueue) : SessionQueue → Prop
  | none (hblocked : q.Blocked) : Takes q { q with drain := .idle }
  | some {before after : List QueuedMessage} {message : QueuedMessage}
      (hpending : q.pending = before ++ message :: after)
      (hfirst : ∀ other ∈ before, other.connectionId ≠ message.connectionId)
      (howner : q.transactionOwnerId = none ∨ q.transactionOwnerId = some message.connectionId) :
      Takes q { q with
        pending := before ++ after
        drain := .executing message
        handed := q.handed ++ [message] }

/-- The element at `findIdx`, and what is left without it. -/
theorem exists_split_findIdx {α : Type*} {p : α → Bool} {l : List α} {x : α}
    (h : l[l.findIdx p]? = some x) :
    ∃ before after, l = before ++ x :: after ∧ l.eraseIdx (l.findIdx p) = before ++ after ∧
      (∀ y ∈ before, p y = false) ∧ p x = true := by
  induction l with
  | nil => cases h
  | cons y l ih =>
      cases hy : p y with
      | true =>
          simp only [List.findIdx_cons, hy, cond_true, List.getElem?_cons_zero] at h ⊢
          obtain rfl := Option.some.inj h
          exact ⟨[], l, rfl, rfl, by simp, hy⟩
      | false =>
          simp only [List.findIdx_cons, hy, cond_false, List.getElem?_cons_succ] at h ⊢
          obtain ⟨before, after, hl, herase, hbefore, hx⟩ := ih h
          refine ⟨y :: before, after, congrArg (y :: ·) hl, congrArg (y :: ·) herase, ?_, hx⟩
          exact List.forall_mem_cons.2 ⟨hy, hbefore⟩

theorem takeNextRunnableMessage_none (h : q.takeNextRunnableMessage = none) : q.Blocked := by
  have hindex := List.getElem?_eq_none_iff.1 (Option.map_eq_none_iff.1 h)
  intro message hmem
  cases howner : q.transactionOwnerId with
  | none =>
      simp only [howner, Nat.le_zero] at hindex
      rw [List.eq_nil_of_length_eq_zero hindex] at hmem
      exact absurd hmem List.not_mem_nil
  | some owner =>
      simp only [howner] at hindex
      have hnone := List.findIdx_eq_length.1 (hindex.antisymm List.findIdx_le_length).symm
      exact ⟨owner, rfl, of_decide_eq_false (hnone message hmem)⟩

theorem takeNextRunnableMessage_some {message : QueuedMessage} {rest : List QueuedMessage}
    (h : q.takeNextRunnableMessage = some (message, rest)) :
    ∃ before after, q.pending = before ++ message :: after ∧ rest = before ++ after ∧
      (∀ other ∈ before, other.connectionId ≠ message.connectionId) ∧
      (q.transactionOwnerId = none ∨ q.transactionOwnerId = some message.connectionId) := by
  cases howner : q.transactionOwnerId with
  | none =>
      cases hpending : q.pending with
      | nil => simp [takeNextRunnableMessage, howner, hpending] at h
      | cons first after =>
          simp only [takeNextRunnableMessage, howner, hpending] at h
          obtain ⟨rfl, rfl⟩ := Prod.mk.inj (Option.some.inj h)
          exact ⟨[], after, rfl, rfl, by simp, .inl rfl⟩
  | some owner =>
      simp only [takeNextRunnableMessage, howner] at h
      obtain ⟨found, hfound, heq⟩ := Option.map_eq_some_iff.1 h
      obtain ⟨rfl, rfl⟩ := Prod.mk.inj heq
      obtain ⟨before, after, hpending, herase, hbefore, hfound⟩ := exists_split_findIdx hfound
      obtain rfl := of_decide_eq_true hfound
      exact ⟨before, after, hpending, herase, fun other hother =>
        of_decide_eq_false (hbefore other hother), .inr rfl⟩

theorem takes_takeNext (q : SessionQueue) : Takes q q.takeNext := by
  unfold takeNext
  split
  · exact .none (takeNextRunnableMessage_none ‹_›)
  · obtain ⟨before, after, hpending, rfl, hfirst, howner⟩ := takeNextRunnableMessage_some ‹_›
    exact .some hpending hfirst howner

/-! ## Isolation and order -/

/-- The owner that the queue knows, against the opener of the backend's transaction. -/
def Owned (q : SessionQueue) : Prop :=
  match q.drain with
  | .idle | .between => q.transactionOwnerId = q.opener
  | .executing message => q.transactionOwnerId = q.opener ∧
      (q.opener = none ∨ q.opener = some message.connectionId)
  | .executed message _ => q.opener = (if q.inTransaction then some message.connectionId else none) ∧
      (q.transactionOwnerId = none ∨ q.transactionOwnerId = some message.connectionId)

structure Isolated (q : SessionQueue) : Prop where
  numbers : q.enqueued.map QueuedMessage.number = List.range q.enqueued.length
  inOrder : ∀ connectionId,
    ((q.handed ++ q.pending).filter fun message => message.connectionId = connectionId).Sublist
      (q.enqueued.filter fun message => message.connectionId = connectionId)
  inTransaction : q.inTransaction = q.opener.isSome
  owned : q.Owned

theorem isolated_empty : Isolated empty where
  numbers := rfl
  inOrder _ := List.Sublist.refl _
  inTransaction := rfl
  owned := rfl

theorem Isolated.append (h : Isolated q) (compensating : Bool) (connectionId : JsString)
    (bytes : List ℕ) :
    Isolated (q.append compensating connectionId bytes) :=
  { h with
    numbers := by
      simp [SessionQueue.append, h.numbers, List.range_succ]
    inOrder := fun id => by
      have hboth := (h.inOrder id).append (List.Sublist.refl
        ([⟨q.enqueued.length, connectionId, bytes, compensating⟩].filter
          fun message : QueuedMessage => message.connectionId = id))
      simpa only [SessionQueue.append, List.filter_append, List.append_assoc] using hboth }

theorem Isolated.takes (h : Isolated q) (hopener : q.transactionOwnerId = q.opener)
    (htakes : Takes q q') : Isolated q' := by
  cases htakes with
  | none => exact { h with owned := hopener }
  | @some before after message hpending hfirst howner =>
      refine { h with
        inOrder := fun id => ?_
        owned := ⟨hopener, hopener ▸ howner⟩ }
      refine List.Sublist.trans ?_ (h.inOrder id)
      rw [hpending]
      by_cases hid : message.connectionId = id
      · -- the message is the first of its connection
        have hnone : before.filter (fun other => decide (other.connectionId = id)) = [] := by
          refine List.filter_eq_nil_iff.2 fun other hother => ?_
          simpa [← hid] using hfirst other hother
        rw [List.append_assoc, List.filter_append, List.filter_append, List.filter_append,
          List.filter_append, hnone]
        simp [hid]
      · rw [List.append_assoc, List.filter_append, List.filter_append, List.filter_append,
          List.filter_append]
        simp [hid]

theorem Isolated.push (h : Isolated q) (compensating : Bool) (connectionId : JsString)
    (bytes : List ℕ) : Isolated (q.push compensating connectionId bytes) := by
  have happend := h.append compensating connectionId bytes
  unfold SessionQueue.push startDrain
  split
  · have howned := happend.owned
    simp only [Owned, ‹SessionQueue.drain _ = _›] at howned
    exact happend.takes howned (takes_takeNext _)
  · exact happend

theorem Isolated.rollback (h : Isolated q) (connectionId : JsString) :
    Isolated (q.rollback connectionId) :=
  { h.push true connectionId rollbackQueryMessage with }

theorem Isolated.abandon (h : Isolated q) (connectionId : JsString) :
    Isolated (q.abandon connectionId) :=
  { h with
    inOrder := fun id => by
      refine List.Sublist.trans ?_ (h.inOrder id)
      simp only [SessionQueue.abandon, List.filter_append]
      exact (List.Sublist.refl _).append (List.filter_sublist.filter _) }

theorem Isolated.detach (h : Isolated q) (connectionId : JsString) :
    Isolated (q.detach connectionId) := by
  have habandon := h.abandon connectionId
  unfold SessionQueue.detach
  split
  · exact habandon.rollback connectionId
  · exact habandon

theorem Isolated.finish (h : Isolated q) {message : QueuedMessage} {ok : Bool}
    (hdrain : q.drain = .executed message ok) : Isolated (q.finish message ok) := by
  have hopener := h.owned
  simp only [Owned, hdrain] at hopener
  have hsettle : Isolated (q.settle message ok) := { h with owned := hopener.1.symm }
  unfold SessionQueue.finish
  split
  · exact hsettle.rollback _
  · exact hsettle

theorem Isolated.execute (h : Isolated q) {message : QueuedMessage}
    (hdrain : q.drain = .executing message) (ok inTransaction opened : Bool) :
    Isolated (q.execute message ok inTransaction opened) := by
  have howned := h.owned
  simp only [Owned, hdrain] at howned
  obtain ⟨howner, hopener⟩ := howned
  have hopened : q.opener.or (some message.connectionId) = some message.connectionId := by
    rcases hopener with hopener | hopener <;> simp [hopener]
  refine { h with inTransaction := ?_, owned := ⟨?_, howner ▸ hopener⟩ }
  · cases inTransaction <;> cases opened <;> simp [SessionQueue.execute, hopened]
  · cases inTransaction <;> cases opened <;> simp [SessionQueue.execute, hopened]

theorem Isolated.step (h : Isolated q) (hstep : q.Steps event q') : Isolated q' := by
  cases reacts_of_step hstep with
  | enqueue connectionId bytes => exact h.push false connectionId bytes
  | detach connectionId => exact h.detach connectionId
  | execute hdrain ok inTransaction opened => exact h.execute hdrain ok inTransaction opened
  | finish hdrain => exact h.finish hdrain
  | next hdrain =>
      have howned := h.owned
      simp only [Owned, hdrain] at howned
      exact h.takes howned (takes_takeNext q)

/-- The step hands over nothing, or one message: then none is executing, and a transaction that is open
was opened by the connection of the message. -/
def HandsOver (q q' : SessionQueue) : Prop :=
  q'.handed = q.handed ∨ ∃ message, q'.handed = q.handed ++ [message] ∧ q.executing = none ∧
    ∀ opener, q.opener = some opener → opener = message.connectionId

theorem handsOver_takes (hdrain : q.executing = none) (hopener : q.transactionOwnerId = q.opener)
    (htakes : Takes q q') : HandsOver q q' := by
  cases htakes with
  | none => exact .inl rfl
  | @some before after message hpending hfirst howner =>
      refine .inr ⟨message, rfl, hdrain, fun opener hopen => ?_⟩
      rw [hopener, hopen] at howner
      simpa using howner

theorem Isolated.handsOver_push (h : Isolated q) (compensating : Bool) (connectionId : JsString)
    (bytes : List ℕ) : HandsOver q (q.push compensating connectionId bytes) := by
  unfold SessionQueue.push startDrain
  split
  · have hidle : q.drain = .idle := ‹_›
    have howned := h.owned
    simp only [Owned, hidle] at howned
    have hexecuting : q.executing = none := by simp [executing, hidle]
    exact handsOver_takes (q := q.append compensating connectionId bytes) hexecuting howned
      (takes_takeNext _)
  · exact .inl rfl

theorem Isolated.handsOver (h : Isolated q) (hstep : q.Steps event q') : HandsOver q q' := by
  cases reacts_of_step hstep with
  | enqueue connectionId bytes => exact h.handsOver_push false connectionId bytes
  | detach connectionId =>
      unfold SessionQueue.detach
      split
      · exact (h.abandon connectionId).handsOver_push true connectionId rollbackQueryMessage
      · exact .inl rfl
  | execute => exact .inl rfl
  | finish =>
      -- the loop goes on only with the next step
      unfold SessionQueue.finish
      split <;> exact .inl rfl
  | next hdrain =>
      have howned := h.owned
      simp only [Owned, hdrain] at howned
      exact handsOver_takes (by simp [executing, hdrain]) howned (takes_takeNext q)

theorem isolated_of_run {es : List Event} (hrun : Run Steps empty es q) : Isolated q :=
  hrun.invariant (fun _ _ _ (_ : True) hstep h => h.step hstep) (fun _ _ => trivial) isolated_empty

/-- **Transaction isolation.** In every run, each message is handed over while none is executing and
no other connection has a transaction open, and those of a connection in the order of their
`enqueue`, each once. -/
theorem session_isolated {es : List Event} (hrun : Run Steps empty es q) :
    (∀ event q', q.Steps event q' → HandsOver q q') ∧
      q.enqueued.map QueuedMessage.number = List.range q.enqueued.length ∧
      ∀ connectionId,
        (q.handed.filter fun message => message.connectionId = connectionId).Sublist
          (q.enqueued.filter fun message => message.connectionId = connectionId) := by
  have h := isolated_of_run hrun
  refine ⟨fun event q' hstep => h.handsOver hstep, h.numbers, fun connectionId => ?_⟩
  exact ((List.sublist_append_left q.handed q.pending).filter _).trans (h.inOrder connectionId)

/-- A transaction of `a` holds back a message of `b`. -/
def heldBack : List Event :=
  [.enqueue "a" [1], .enqueue "b" [2], .execute true true true, .finish, .next, .enqueue "a" [3],
    .execute true false false, .finish, .next]

theorem session_isolated_heldBack : ∃ q, Run Steps empty heldBack q ∧
    q.handed.map QueuedMessage.bytes = [[1], [3], [2]] ∧
    ((∀ event q', q.Steps event q' → HandsOver q q') ∧
      q.enqueued.map QueuedMessage.number = List.range q.enqueued.length ∧
      ∀ connectionId,
        (q.handed.filter fun message => message.connectionId = connectionId).Sublist
          (q.enqueued.filter fun message => message.connectionId = connectionId)) := by
  obtain ⟨q, hrun, htest⟩ : ∃ q, Run Steps empty heldBack q ∧
      decide (q.handed.map QueuedMessage.bytes = [[1], [3], [2]]) = true :=
    Run.exists_of_foldlM (by decide)
  exact ⟨q, hrun, of_decide_eq_true htest, session_isolated hrun⟩

end SessionQueue

end Kinglet.Postgres
