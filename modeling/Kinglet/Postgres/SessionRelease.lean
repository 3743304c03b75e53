import Kinglet.Postgres.SessionQueue

/-!
# The session is released

A connection may be detached before, during or after the message that opens its transaction. While
that message is with the backend the connection is remembered as detached; from the moment it owns
the transaction a `ROLLBACK` is pending for it or with the backend. So once each connection has
detached and the loop is idle, no transaction is open and nothing waits.
-/

namespace Kinglet.Postgres

open Js Library

namespace SessionQueue

variable {q q' : SessionQueue} {es : List Event} {event : Event} {connectionId : JsString}

/-- After its last `enqueue` the connection detaches. -/
def DetachesLast (es : List Event) (connectionId : JsString) : Prop :=
  ∀ es₁ bytes es₂, es = es₁ ++ .enqueue connectionId bytes :: es₂ → .detach connectionId ∈ es₂

/-- A `ROLLBACK` of the queue ends the transaction. -/
def rollsBack (q : SessionQueue) : Event → Bool
  | .execute _ inTransaction _ =>
      q.executing.all fun message => !(message.compensating && inTransaction)
  | _ => true

def StepsRollingBack (q : SessionQueue) (event : Event) (q' : SessionQueue) : Prop :=
  q.Steps event q' ∧ q.rollsBack event = true

theorem DetachesLast.of_snoc (h : DetachesLast (es ++ [event]) connectionId) :
    event = .detach connectionId ∨
      DetachesLast es connectionId ∧ ∀ bytes, event ≠ .enqueue connectionId bytes := by
  by_cases hdetach : event = .detach connectionId
  · exact .inl hdetach
  · refine .inr ⟨fun es₁ bytes es₂ hes => ?_, fun bytes hevent => ?_⟩
    · have hmem := h es₁ bytes (es₂ ++ [event]) (by simp [hes])
      rcases List.mem_append.1 hmem with hmem | hmem
      · exact hmem
      · exact absurd (List.mem_singleton.1 hmem).symm hdetach
    · exact absurd (h es bytes [] (by rw [hevent])) List.not_mem_nil

theorem detachesLast_nil : DetachesLast [] connectionId := by
  intro es₁ bytes es₂ hes
  simp at hes

theorem detachesLast_cons : DetachesLast (event :: es) connectionId ↔
    ((∃ bytes, event = .enqueue connectionId bytes) → .detach connectionId ∈ es) ∧
      DetachesLast es connectionId := by
  constructor
  · refine fun h => ⟨?_, fun es₁ bytes es₂ hes => h (event :: es₁) bytes es₂ (by simp [hes])⟩
    rintro ⟨bytes, rfl⟩
    exact h [] bytes es rfl
  · rintro ⟨hhead, htail⟩ es₁ bytes es₂ hes
    cases es₁ with
    | nil =>
        obtain ⟨rfl, rfl⟩ := List.cons.inj hes
        exact hhead ⟨bytes, rfl⟩
    | cons first es₁ => exact htail es₁ bytes es₂ (List.cons.inj hes).2

/-- The message with the backend, or whose answer is to be dealt with. -/
def current (q : SessionQueue) : Option QueuedMessage :=
  match q.drain with
  | .executing message | .executed message _ => some message
  | _ => none

/-! ## Idle only when blocked -/

/-- An idle loop has nothing to run. -/
def IdleBlocked (q : SessionQueue) : Prop := q.drain = .idle → q.Blocked

theorem idleBlocked_takeNext (q : SessionQueue) : IdleBlocked q.takeNext := by
  have htakes := takes_takeNext q
  generalize q.takeNext = q' at htakes
  cases htakes with
  | none hblocked => exact fun _ => hblocked
  | some => exact nofun

theorem idleBlocked_push (q : SessionQueue) (compensating : Bool) (connectionId : JsString)
    (bytes : List ℕ) : IdleBlocked (q.push compensating connectionId bytes) := by
  unfold SessionQueue.push startDrain
  split
  · exact idleBlocked_takeNext _
  · exact fun hidle => absurd hidle ‹_›

theorem idleBlocked_step (h : IdleBlocked q) (hstep : q.Steps event q') : IdleBlocked q' := by
  cases reacts_of_step hstep with
  | enqueue connectionId bytes => exact idleBlocked_push q false connectionId bytes
  | detach connectionId =>
      unfold SessionQueue.detach
      split
      · exact idleBlocked_push (q.abandon connectionId) true connectionId rollbackQueryMessage
      · exact fun hidle message hmem => h hidle message (List.mem_of_mem_filter hmem)
  | execute => exact nofun
  | finish =>
      unfold SessionQueue.finish
      split
      · exact idleBlocked_push (q.settle _ _) true _ rollbackQueryMessage
      · exact nofun
  | next => exact idleBlocked_takeNext q

theorem idleBlocked_of_run (hrun : Run Steps empty es q) : IdleBlocked q :=
  hrun.invariant (fun _ _ _ (_ : True) hstep h => idleBlocked_step h hstep) (fun _ _ => trivial)
    fun _ => nofun

/-! ## A departed owner is rolled back -/

/-- What holds of the connections that have detached since their last `enqueue`. -/
structure Released (es : List Event) (q : SessionQueue) : Prop where
  pending : ∀ message ∈ q.pending, DetachesLast es message.connectionId →
    message.compensating = true
  owner : ∀ owner, q.transactionOwnerId = some owner → DetachesLast es owner →
    ∃ message, (message ∈ q.pending ∨ q.current = some message) ∧
      message.connectionId = owner ∧ message.compensating = true
  current : ∀ message, q.current = some message → DetachesLast es message.connectionId →
    message.compensating = true ∨ q.transactionOwnerId = some message.connectionId ∨
      message.connectionId ∈ q.detachedConnectionIds
  rolledBack : ∀ message ok, q.drain = .executed message ok → message.compensating = true →
    q.inTransaction = false

theorem Released.takes (h : Released es q) (hcurrent : q.current = none) (htakes : Takes q q') :
    Released es q' := by
  cases htakes with
  | none =>
      refine { h with
        owner := fun owner howner hlast => ?_
        current := nofun
        rolledBack := nofun }
      obtain ⟨message, hmem, hsame⟩ := h.owner owner howner hlast
      exact ⟨message, .inl (hmem.resolve_right (by simp [hcurrent])), hsame⟩
  | @some before after taken hpending =>
      have hsub : ∀ message ∈ before ++ after, message ∈ q.pending := by
        intro message hmem
        rw [hpending]
        rcases List.mem_append.1 hmem with hmem | hmem
        · exact List.mem_append_left _ hmem
        · exact List.mem_append_right _ (List.mem_cons_of_mem _ hmem)
      have htaken : taken ∈ q.pending := by simp [hpending]
      refine {
        pending := fun message hmem => h.pending message (hsub message hmem)
        owner := fun owner howner hlast => ?_
        current := fun message hmessage hlast => ?_
        rolledBack := nofun }
      · obtain ⟨message, hmem, hsame⟩ := h.owner owner howner hlast
        have hmem := hmem.resolve_right (by simp [hcurrent])
        rw [hpending, List.mem_append, List.mem_cons] at hmem
        rcases hmem with hmem | rfl | hmem
        · exact ⟨message, .inl (List.mem_append_left _ hmem), hsame⟩
        · exact ⟨message, .inr rfl, hsame⟩
        · exact ⟨message, .inl (List.mem_append_right _ hmem), hsame⟩
      · obtain rfl := Option.some.inj hmessage
        exact .inl (h.pending taken htaken hlast)

theorem Released.startDrain (h : Released es q) : Released es q.startDrain := by
  unfold SessionQueue.startDrain
  split
  · refine h.takes ?_ (takes_takeNext q)
    simp [SessionQueue.current, ‹q.drain = _›]
  · exact h

/-- A client's message is appended, which its connection sends. -/
theorem Released.enqueue (h : Released es q) (connectionId : JsString) (bytes : List ℕ) :
    Released (es ++ [.enqueue connectionId bytes]) (q.push false connectionId bytes) := by
  have hlast : ∀ {other}, DetachesLast (es ++ [.enqueue connectionId bytes]) other →
      DetachesLast es other ∧ other ≠ connectionId := by
    intro other hother
    rcases hother.of_snoc with hdetach | ⟨hlast, hne⟩
    · cases hdetach
    · refine ⟨hlast, fun hsame => hne bytes ?_⟩
      rw [hsame]
  refine Released.startDrain ⟨fun message hmem hgone => ?_, fun owner howner hgone => ?_,
    fun message hmessage hgone => h.current message hmessage (hlast hgone).1, h.rolledBack⟩
  · rcases List.mem_append.1 hmem with hmem | hmem
    · exact h.pending message hmem (hlast hgone).1
    · obtain rfl := List.mem_singleton.1 hmem
      exact absurd rfl (hlast hgone).2
  · obtain ⟨message, hmem, hsame⟩ := h.owner owner howner (hlast hgone).1
    exact ⟨message, hmem.imp_left (List.mem_append_left _), hsame⟩

@[simp] theorem startDrain_transactionOwnerId (q : SessionQueue) :
    q.startDrain.transactionOwnerId = q.transactionOwnerId := by
  unfold SessionQueue.startDrain takeNext
  split
  · split <;> rfl
  · rfl

/-- The `ROLLBACK` for the owner is pending or with the backend. -/
theorem released_rollback (howner : q.transactionOwnerId = some connectionId)
    (hpending : ∀ message ∈ q.pending, DetachesLast es message.connectionId →
      message.compensating = true)
    (hcurrent : ∀ message, q.current = some message → DetachesLast es message.connectionId →
      message.compensating = true ∨ q.transactionOwnerId = some message.connectionId ∨
        message.connectionId ∈ q.detachedConnectionIds)
    (hrolledBack : ∀ message ok, q.drain = .executed message ok → message.compensating = true →
      q.inTransaction = false) : Released es (q.rollback connectionId) := by
  have happend : Released es (q.append true connectionId rollbackQueryMessage) := by
    refine ⟨fun message hmem hlast => ?_, fun owner hother _ => ?_, hcurrent, hrolledBack⟩
    · rcases List.mem_append.1 hmem with hmem | hmem
      · exact hpending message hmem hlast
      · obtain rfl := List.mem_singleton.1 hmem
        rfl
    · obtain rfl := Option.some.inj (howner.symm.trans hother)
      exact ⟨_, .inl (List.mem_append_right _ List.mem_cons_self), rfl, rfl⟩
  have hdrained := happend.startDrain
  have howner' : (q.append true connectionId rollbackQueryMessage).startDrain.transactionOwnerId =
      some connectionId := (startDrain_transactionOwnerId _).trans howner
  refine { hdrained with current := fun message hmessage hlast => ?_ }
  -- the connection that is no longer remembered is the owner
  rcases hdrained.current message hmessage hlast with hcompensating | hown | hdetached
  · exact .inl hcompensating
  · exact .inr (.inl hown)
  · by_cases hsame : message.connectionId = connectionId
    · exact .inr (.inl (hsame ▸ howner'))
    · exact .inr (.inr (List.mem_filter.2 ⟨hdetached, decide_eq_true hsame⟩))

theorem Released.detach (h : Released es q) (connectionId : JsString) :
    Released (es ++ [.detach connectionId]) (q.detach connectionId) := by
  have hlast : ∀ {other}, DetachesLast (es ++ [.detach connectionId]) other →
      other ≠ connectionId → DetachesLast es other := by
    intro other hother hne
    rcases hother.of_snoc with hdetach | ⟨hlast, -⟩
    · obtain rfl := Event.detach.inj hdetach
      exact absurd rfl hne
    · exact hlast
  have hpending : ∀ message ∈ (q.abandon connectionId).pending,
      DetachesLast (es ++ [.detach connectionId]) message.connectionId →
        message.compensating = true := by
    intro message hmem hgone
    obtain ⟨hmem, hne⟩ := List.mem_filter.1 hmem
    exact h.pending message hmem (hlast hgone (of_decide_eq_true hne))
  have hcurrent : ∀ message, (q.abandon connectionId).current = some message →
      DetachesLast (es ++ [.detach connectionId]) message.connectionId →
        message.compensating = true ∨ q.transactionOwnerId = some message.connectionId ∨
          message.connectionId ∈ (q.abandon connectionId).detachedConnectionIds := by
    intro message hmessage hgone
    by_cases hsame : message.connectionId = connectionId
    · exact .inr (.inr (hsame ▸ List.mem_insert_self))
    · have hold := h.current message hmessage (hlast hgone hsame)
      exact hold.imp_right (Or.imp_right List.mem_insert_of_mem)
  unfold SessionQueue.detach
  split
  · exact released_rollback ‹_› hpending hcurrent h.rolledBack
  · refine ⟨hpending, fun owner howner hgone => ?_, hcurrent, h.rolledBack⟩
    have hne : owner ≠ connectionId := by
      rintro rfl
      exact absurd howner ‹_›
    obtain ⟨message, hmem, hsame, hcompensating⟩ := h.owner owner howner (hlast hgone hne)
    refine ⟨message, hmem.imp_left fun hmem => List.mem_filter.2 ⟨hmem, ?_⟩, hsame, hcompensating⟩
    exact decide_eq_true (hsame ▸ hne)

/-- Nothing happens to the connections but what the message with the backend does. -/
theorem Released.finish (h : Released es q) {message : QueuedMessage} {ok : Bool}
    (hdrain : q.drain = .executed message ok) : Released es (q.finish message ok) := by
  have hmessage : q.current = some message := by simp [SessionQueue.current, hdrain]
  unfold SessionQueue.finish
  split
  · refine released_rollback ?_ h.pending nofun nofun
    exact if_pos (‹_ ∧ _›).1
  · refine ⟨h.pending, fun owner howner hlast => ?_, nofun, nofun⟩
    have hnot := ‹¬_›
    cases htransaction : q.inTransaction with
    | false => simp [settle, htransaction] at howner
    | true =>
        obtain rfl : message.connectionId = owner := by
          simpa [settle, htransaction] using howner
        -- the connection was detached while it owned the transaction before
        rcases h.current message hmessage hlast with hcompensating | hown | hdetached
        · rw [h.rolledBack message ok hdrain hcompensating] at htransaction
          cases htransaction
        · obtain ⟨other, hmem, hsame, hcompensating⟩ := h.owner _ hown hlast
          rcases hmem with hmem | hcurrent
          · exact ⟨other, .inl hmem, hsame, hcompensating⟩
          · obtain rfl := Option.some.inj (hmessage.symm.trans hcurrent)
            rw [h.rolledBack message ok hdrain hcompensating] at htransaction
            cases htransaction
        · exact absurd ⟨htransaction, hdetached⟩ hnot

/-- A step of the loop is no event of a connection. -/
theorem Released.of_loop (h : Released es q) (hdetach : ∀ id, event ≠ .detach id) :
    Released (es ++ [event]) q := by
  have hlast : ∀ {other}, DetachesLast (es ++ [event]) other → DetachesLast es other := by
    intro other hother
    exact (hother.of_snoc.resolve_left (hdetach other)).1
  exact ⟨fun message hmem hgone => h.pending message hmem (hlast hgone),
    fun owner howner hgone => h.owner owner howner (hlast hgone),
    fun message hmessage hgone => h.current message hmessage (hlast hgone), h.rolledBack⟩

theorem Released.step (h : Released es q) (hstep : q.StepsRollingBack event q') :
    Released (es ++ [event]) q' := by
  obtain ⟨hstep, hrollback⟩ := hstep
  cases reacts_of_step hstep with
  | enqueue connectionId bytes => exact h.enqueue connectionId bytes
  | detach connectionId => exact h.detach connectionId
  | @execute message hdrain ok inTransaction opened =>
      have hmessage : q.current = some message := by simp [SessionQueue.current, hdrain]
      refine Released.of_loop ⟨h.pending, fun owner howner hlast => ?_,
        fun other hother hlast => ?_, fun other ok' hother hcompensating => ?_⟩
        fun id hdetach => by cases hdetach
      · obtain ⟨other, hmem, hsame⟩ := h.owner owner howner hlast
        refine ⟨other, hmem.imp_right fun hcurrent => ?_, hsame⟩
        exact hmessage.symm.trans hcurrent
      · exact h.current other (hmessage.trans hother) hlast
      · obtain ⟨rfl, -⟩ := Drain.executed.inj hother
        have hended : inTransaction = false := by
          simpa [rollsBack, executing, hdrain, hcompensating] using hrollback
        exact hended
  | finish hdrain => exact (h.finish hdrain).of_loop fun id hdetach => by cases hdetach
  | next hdrain =>
      refine (h.takes ?_ (takes_takeNext q)).of_loop fun id hdetach => by cases hdetach
      simp [SessionQueue.current, hdrain]

theorem released_empty : Released [] empty := ⟨nofun, nofun, nofun, nofun⟩

theorem released_of_run (hrun : Run StepsRollingBack empty es q) : Released es q := by
  have h := hrun.history_invariant (fun _ _ _ _ hstep h => Released.step h hstep) released_empty
  simpa using h

/-- While the loop is idle no connection that has detached owns the transaction. -/
theorem Released.ne_owner (h : Released es q) (hblocked : q.Blocked) (hidle : q.drain = .idle)
    (hlast : DetachesLast es connectionId) : q.transactionOwnerId ≠ some connectionId := by
  intro howner
  obtain ⟨message, hmem, hsame, -⟩ := h.owner connectionId howner hlast
  have hpending := hmem.resolve_right (by simp [SessionQueue.current, hidle])
  obtain ⟨other, hother, hne⟩ := hblocked message hpending
  exact hne (hsame.trans (Option.some.inj (howner.symm.trans hother)))

/-- **No wedge.** An idle loop has only messages that wait for the transaction of another connection;
and once each connection has detached, none at all, and the backend is free. -/
theorem no_wedge :
    (∀ es q, Run Steps empty es q → q.drain = .idle → q.Blocked) ∧
      ∀ es q, Run StepsRollingBack empty es q → (∀ connectionId, DetachesLast es connectionId) →
        q.drain = .idle →
          q.pending = [] ∧ q.inTransaction = false ∧ q.transactionOwnerId = none := by
  refine ⟨fun es q hrun => idleBlocked_of_run hrun, fun es q hrun hlast hidle => ?_⟩
  have hrun' : Run Steps empty es q := hrun.mono fun _ _ _ _ hstep => hstep.1
  have hblocked := idleBlocked_of_run hrun' hidle
  have howner : q.transactionOwnerId = none := by
    by_contra hsome
    obtain ⟨owner, howner⟩ := Option.ne_none_iff_exists'.1 hsome
    exact (released_of_run hrun).ne_owner hblocked hidle (hlast owner) howner
  have hisolated := isolated_of_run hrun'
  have howned := hisolated.owned
  simp only [Owned, hidle] at howned
  refine ⟨List.eq_nil_iff_forall_not_mem.2 fun message hmem => ?_, ?_, howner⟩
  · obtain ⟨owner, hsome, -⟩ := hblocked message hmem
    cases howner.symm.trans hsome
  · rw [hisolated.inTransaction, ← howned, howner]
    rfl

/-- `a` detaches while its `BEGIN` is with the backend, and `b` waits. -/
def detachedInFlight : List Event :=
  [.enqueue "a" [1], .enqueue "b" [2], .detach "a", .execute true true true, .finish, .next,
    .execute true false false, .finish, .next, .execute true false false, .finish, .next,
    .detach "b"]

theorem no_wedge_detachedInFlight : ∃ q, Run StepsRollingBack empty detachedInFlight q ∧
    q.handed.map QueuedMessage.bytes = [[1], rollbackQueryMessage, [2]] ∧
      q.pending = [] ∧ q.inTransaction = false ∧ q.transactionOwnerId = none := by
  obtain ⟨q, hrun, htest⟩ : ∃ q,
      Run (fun (q : SessionQueue) event q' =>
        (if q.rollsBack event then q.step event else none) = some q') empty detachedInFlight q ∧
        (decide (q.handed.map QueuedMessage.bytes = [[1], rollbackQueryMessage, [2]]) &&
          decide (q.drain = .idle)) = true :=
    Run.exists_of_foldlM (by decide)
  obtain ⟨hhanded, hidle⟩ := Bool.and_eq_true_iff.1 htest
  have hrun' : Run StepsRollingBack empty detachedInFlight q := by
    refine hrun.mono fun event _ q q' hstep => ?_
    split at hstep
    · exact ⟨hstep, ‹_›⟩
    · cases hstep
  refine ⟨q, hrun', of_decide_eq_true hhanded, no_wedge.2 _ q hrun' (fun connectionId => ?_)
    (of_decide_eq_true hidle)⟩
  simp only [detachedInFlight, detachesLast_cons]
  refine ⟨?_, ?_, ?_, ?_, ?_, ?_, ?_, ?_, ?_, ?_, ?_, ?_, ?_, detachesLast_nil⟩ <;>
    simp +contextual

end SessionQueue

end Kinglet.Postgres
