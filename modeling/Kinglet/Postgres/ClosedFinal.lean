import Kinglet.Postgres.WireServer

/-!
# Closed is final

A connection that is closed while its database is resolved is taken back to life by the resolution:
the phase is written again, and the startup packet and whatever was buffered with it reach the
backend, whose transaction nobody ends. Otherwise a closed connection stays closed. It holds no
database, so it hands over nothing more, and its `detach` comes after each of its messages, so the
queue releases its transaction.
-/

namespace Kinglet.Postgres

open Js Library

namespace SessionQueue

variable {q q' : SessionQueue} {id : JsString} {es : List Event} {event : Event}

/-- The messages of the connection's client that the backend was handed. -/
def handedOf (q : SessionQueue) (id : JsString) : List QueuedMessage :=
  q.handed.filter fun message => message.connectionId = id && !message.compensating

theorem handedOf_takes (hpending : ∀ message ∈ q.pending, message.connectionId = id →
    message.compensating = true) (htakes : Takes q q') : q'.handedOf id = q.handedOf id := by
  cases htakes with
  | none => rfl
  | @some before after message hmem =>
      have hcompensating := hpending message (by simp [hmem])
      by_cases hid : message.connectionId = id
      · simp [handedOf, hid, hcompensating hid]
      · simp [handedOf, hid]

theorem handedOf_push (hpending : ∀ message ∈ q.pending, message.connectionId = id →
    message.compensating = true) {compensating : Bool} {connectionId : JsString}
    (hnew : connectionId = id → compensating = true) (bytes : List ℕ) :
    (q.push compensating connectionId bytes).handedOf id = q.handedOf id := by
  have happend : ∀ message ∈ (q.append compensating connectionId bytes).pending,
      message.connectionId = id → message.compensating = true := by
    intro message hmem
    rcases List.mem_append.1 hmem with hmem | hmem
    · exact hpending message hmem
    · obtain rfl := List.mem_singleton.1 hmem
      exact hnew
  unfold SessionQueue.push startDrain
  split
  · exact handedOf_takes (q := q.append compensating connectionId bytes) happend (takes_takeNext _)
  · rfl

/-- Only an `enqueue` of the connection leads to another message of its client. -/
theorem handedOf_step (hpending : ∀ message ∈ q.pending, message.connectionId = id →
    message.compensating = true) (hevent : ∀ bytes, event ≠ .enqueue id bytes)
    (hstep : q.Steps event q') : q'.handedOf id = q.handedOf id := by
  cases reacts_of_step hstep with
  | enqueue connectionId bytes =>
      refine handedOf_push hpending (fun hid => ?_) bytes
      exact absurd (by rw [hid]) (hevent bytes)
  | detach connectionId =>
      have habandon : ∀ message ∈ (q.abandon connectionId).pending, message.connectionId = id →
          message.compensating = true := by
        intro message hmem
        exact hpending message (List.mem_filter.1 hmem).1
      unfold SessionQueue.detach
      split
      · exact handedOf_push habandon (fun _ => rfl) rollbackQueryMessage
      · rfl
  | execute => rfl
  | finish =>
      -- the loop goes on only with the next step
      unfold SessionQueue.finish
      split <;> rfl
  | next => exact handedOf_takes hpending (takes_takeNext q)

theorem detachesLast_snoc (es : List Event) (id : JsString) :
    DetachesLast (es ++ [.detach id]) id := by
  intro es₁ bytes es₂ hes
  rcases List.eq_nil_or_concat es₂ with rfl | ⟨es₂, last, rfl⟩
  · have hlast := congrArg List.getLast? hes
    simp at hlast
  · have hlast : Event.detach id = last := by
      have hlast := congrArg List.getLast? hes
      simpa [List.getLast?_cons] using hlast
    simp [hlast]

/-- What other connections and the loop do leaves a detached connection detached. -/
theorem DetachesLast.snoc (h : DetachesLast es id) (hevent : ∀ bytes, event ≠ .enqueue id bytes) :
    DetachesLast (es ++ [event]) id := by
  intro es₁ bytes es₂ hes
  rcases List.eq_nil_or_concat es₂ with rfl | ⟨es₂, last, rfl⟩
  · have hlast : event = .enqueue id bytes := by
      have hlast := congrArg List.getLast? hes
      simpa using hlast
    exact absurd hlast (hevent bytes)
  · have hes' : es ++ [event] = (es₁ ++ .enqueue id bytes :: es₂) ++ [last] := by simpa using hes
    obtain ⟨hes', -⟩ := List.append_inj' hes' rfl
    rw [List.concat_eq_append]
    exact List.mem_append_left _ (h es₁ bytes es₂ hes')

end SessionQueue

namespace WireServer

variable {s s' : WireServer} {event : WireEvent} {es : List Event}

/-! ## What the connection has done to the queue -/

/-- The queue's run so far: without a database the connection has detached after its last message,
and before the resolution and after the end it has none. -/
structure Attached (es : List Event) (s : WireServer) : Prop where
  run : Run SessionQueue.StepsRollingBack .empty es s.queue
  released : s.state.connection = none → SessionQueue.DetachesLast es s.state.id
  detached : s.state.phase = .startup ∨ s.state.phase = .closed → s.state.connection = none

def Tracked (s : WireServer) : Prop := ∃ es, Attached es s

theorem tracked_releaseConnection (hrun : Run SessionQueue.StepsRollingBack .empty es s.queue)
    (hreleased : s.state.connection = none → SessionQueue.DetachesLast es s.state.id) :
    s.releaseConnection.Tracked := by
  cases hconnection : s.state.connection with
  | none =>
      refine ⟨es, ?_, fun _ => hreleased hconnection, fun _ => rfl⟩
      simpa [releaseConnection, hconnection] using hrun
  | some connection =>
      refine ⟨es ++ [.detach s.state.id], ?_, fun _ => ?_, fun _ => rfl⟩
      · simp only [releaseConnection, hconnection, Option.isSome_some, if_true]
        exact hrun.append (.single ⟨rfl, rfl⟩)
      · exact SessionQueue.detachesLast_snoc es s.state.id

theorem Attached.fail (h : Attached es s) (sqlState message : JsString) :
    (s.fail sqlState message).Tracked := by
  unfold WireServer.fail
  split
  · exact ⟨es, h⟩
  · exact tracked_releaseConnection (s := (({ s with state := { s.state with
      phase := .closed
      pendingBatch := [] } } : WireServer).write _).finish) h.run h.released

theorem Attached.applyReadBackpressure (h : Attached es s) :
    Attached es s.applyReadBackpressure := by
  unfold WireServer.applyReadBackpressure
  split
  · exact h
  · split <;> exact { h with }

theorem Tracked.proceed (h : s.Tracked) : s.proceed.Tracked := by
  obtain ⟨es, h⟩ := h
  exact ⟨es, { h with }⟩

theorem Tracked.stop (h : s.Tracked) : s.stop.Tracked := by
  obtain ⟨es, h⟩ := h
  exact ⟨es, Attached.applyReadBackpressure (s := { s with pump := .idle }) { h with }⟩

/-- A live connection hands a message to its queue, or fails without one. -/
theorem tracked_forward (hrun : Run SessionQueue.StepsRollingBack .empty es s.queue)
    (hreleased : s.state.connection = none → SessionQueue.DetachesLast es s.state.id)
    (hphase : s.state.phase = .streaming) (bytes : List ℕ) : (s.forward bytes).Tracked := by
  unfold WireServer.forward
  split
  · rename_i hsome
    have hstep : s.queue.StepsRollingBack (.enqueue s.state.id bytes)
        (s.queue.push false s.state.id bytes) := ⟨rfl, rfl⟩
    refine ⟨_, hrun.append (.single hstep), fun hnone => ?_, fun hor => ?_⟩
    · rw [show s.state.connection = none from hnone] at hsome
      cases hsome
    · rw [show s.state.phase = _ from hphase] at hor
      simp at hor
  · refine Tracked.proceed (Attached.fail ⟨hrun, hreleased, fun hor => ?_⟩ _ _)
    simp [hphase] at hor

theorem tracked_beginStreaming (hrun : Run SessionQueue.StepsRollingBack .empty es s.queue)
    (hreleased : s.state.connection = none → SessionQueue.DetachesLast es s.state.id)
    (hphase : s.state.phase ≠ .closed) : s.beginStreaming.Tracked := by
  unfold WireServer.beginStreaming
  split
  · unfold WireServer.fail
    rw [if_neg hphase]
    exact (tracked_releaseConnection (s := (({ s with state := { s.state with
      phase := .closed
      pendingBatch := [] } } : WireServer).write _).finish) hrun hreleased).proceed
  · exact tracked_forward (s := { s with state := { s.state with phase := .streaming } })
      hrun hreleased rfl _

theorem Attached.handleStartupFrame (h : Attached es s) (hphase : s.state.phase = .startup)
    (frame : List ℕ) : (s.handleStartupFrame frame).Tracked := by
  unfold WireServer.handleStartupFrame
  split
  · exact (h.fail _ _).proceed
  · exact Tracked.proceed ⟨es, { h with }⟩
  · exact Tracked.proceed ⟨es, { h with }⟩
  · exact Tracked.proceed ⟨es, h.run, h.released, fun _ => h.detached (.inl hphase)⟩
  · unfold WireServer.handleStartup
    split
    · exact (h.fail _ _).proceed
    · split
      · exact (h.fail _ _).proceed
      · exact ⟨es, { h with }⟩

theorem Attached.handlePasswordFrame (h : Attached es s) (hphase : s.state.phase = .password)
    (frame : List ℕ) : (s.handlePasswordFrame frame).Tracked := by
  unfold WireServer.handlePasswordFrame
  split
  · exact (h.fail _ _).proceed
  · split
    · exact (h.fail _ _).proceed
    · exact tracked_beginStreaming h.run h.released (by simp [hphase])

theorem Attached.handleNamespaced (h : Attached es s) (hphase : s.state.phase = .streaming)
    (namespaced : List ℕ) : (s.handleNamespaced namespaced).Tracked := by
  have hbatch : Attached es (s.batch namespaced) := { h with }
  unfold WireServer.handleNamespaced
  split
  · exact (hbatch.fail _ _).proceed
  · split
    · exact Tracked.proceed ⟨es, hbatch⟩
    · exact tracked_forward (s := { s with state := { s.state with pendingBatch := [] } })
        h.run h.released hphase _

theorem Attached.handleFrame (h : Attached es s) (hphase : s.state.phase ≠ .closed)
    (frame : List ℕ) : (s.handleFrame frame).Tracked := by
  unfold WireServer.handleFrame
  split
  · exact h.handleStartupFrame ‹_› frame
  · exact h.handlePasswordFrame ‹_› frame
  · rename_i hstartup hpassword
    have hstreaming : s.state.phase = .streaming := by
      cases hcase : s.state.phase with
      | startup => exact absurd hcase hstartup
      | password => exact absurd hcase hpassword
      | streaming => rfl
      | closed => exact absurd hcase hphase
    split
    · obtain ⟨es', h'⟩ := tracked_releaseConnection
        (s := { s with state := { s.state with pendingBatch := [] } }) h.run h.released
      exact ⟨es', { h' with }⟩
    · exact h.handleNamespaced hstreaming _

theorem Attached.turn (h : Attached es s) : s.turn.Tracked := by
  unfold WireServer.turn
  split
  · exact Tracked.stop ⟨es, h⟩
  · split
    · exact (h.fail _ _).stop
    · exact Tracked.stop ⟨es, h⟩
    · rename_i hphase _ frame rest _
      exact Attached.handleFrame (s := { s with state := { s.state with buffer := rest } })
        { h with } hphase frame

theorem Attached.data (h : Attached es s) (chunk : List ℕ) : (s.data chunk).Tracked := by
  have hreceived := Attached.applyReadBackpressure
    (s := { s with state := { s.state with buffer := s.state.buffer ++ chunk } }) { h with }
  unfold WireServer.data
  split
  · exact hreceived.turn
  · exact ⟨es, hreceived⟩

/-- The resolution finds the connection open, or does not allow it. -/
def resolvesOpen (s : WireServer) : WireEvent → Bool
  | .resolved (.allowed _) => s.state.phase ≠ .closed
  | _ => true

theorem Attached.resolved (h : Attached es s) {resolution : ConnectionResolution}
    (hopen : s.resolvesOpen (.resolved resolution) = true) : (s.resolved resolution).Tracked := by
  cases resolution with
  | allowed connection =>
      simp only [WireServer.resolved]
      split
      · refine Tracked.proceed ⟨es, h.run, (fun hnone => nomatch hnone), fun hor => ?_⟩
        simp [WireServer.write] at hor
      · exact tracked_beginStreaming (s := { s with state := { s.state with
          connection := some connection } }) h.run (fun hnone => nomatch hnone)
          (of_decide_eq_true hopen)
  | rejected sqlState message => exact (h.fail sqlState message).proceed
  | thrown message => exact (h.fail _ message).stop

/-- A step that finds the connection open where it resolves it. -/
def StepsOpen (s : WireServer) (event : WireEvent) (s' : WireServer) : Prop :=
  s.Steps event s' ∧ s.resolvesOpen event = true

theorem foreign_ne_enqueue {inner : Event} {id : JsString} (h : inner.isForeign id = true)
    (bytes : List ℕ) : inner ≠ .enqueue id bytes := by
  rintro rfl
  simp [Event.isForeign] at h

theorem Attached.step (h : Attached es s) (hstep : s.StepsOpen event s') : s'.Tracked := by
  obtain ⟨⟨hstep, hrollback⟩, hopen⟩ := hstep
  cases reacts_of_step hstep with
  | data chunk => exact h.data chunk
  | close => exact tracked_releaseConnection h.run h.released
  | resolved => exact h.resolved hopen
  | turn => exact h.turn
  | forwarded => exact Tracked.proceed ⟨es, h⟩
  | forwardFailed => exact (h.fail _ _).proceed
  | released => exact Tracked.proceed ⟨es, { h with }⟩
  | releaseFailed => exact (h.fail _ _).stop
  | response bytes =>
      split
      · exact ⟨es, h⟩
      · exact ⟨es, { h with }⟩
  | @queue inner queue hforeign hqueue =>
      refine ⟨es ++ [inner], h.run.append (.single ⟨hqueue, hrollback⟩), fun hnone => ?_,
        h.detached⟩
      exact (h.released hnone).snoc (foreign_ne_enqueue hforeign)

/-! ## A closed connection -/

/-- Closed, with the same of the connection's messages handed over. -/
structure StaysClosed (s s' : WireServer) : Prop where
  phase : s'.state.phase = .closed
  id : s'.state.id = s.state.id
  handed : s'.queue.handedOf s.state.id = s.queue.handedOf s.state.id

theorem applyReadBackpressure_of_closed (hclosed : s.state.phase = .closed) :
    s.applyReadBackpressure = s := if_pos hclosed

theorem fail_of_closed (hclosed : s.state.phase = .closed) (sqlState message : JsString) :
    s.fail sqlState message = s := if_pos hclosed

theorem staysClosed_stop (hclosed : s.state.phase = .closed) : StaysClosed s s.stop := by
  have hstop : s.stop = { s with pump := .idle } :=
    applyReadBackpressure_of_closed (s := { s with pump := .idle }) hclosed
  rw [hstop]
  exact ⟨hclosed, rfl, rfl⟩

theorem staysClosed_turn (hclosed : s.state.phase = .closed) : StaysClosed s s.turn := by
  have hturn : s.turn = s.stop := if_pos hclosed
  rw [hturn]
  exact staysClosed_stop hclosed

theorem staysClosed_data (hclosed : s.state.phase = .closed) (chunk : List ℕ) :
    StaysClosed s (s.data chunk) := by
  unfold WireServer.data
  rw [applyReadBackpressure_of_closed (s := { s with state := { s.state with
    buffer := s.state.buffer ++ chunk } }) hclosed]
  split
  · have hturn := staysClosed_turn (s := { s with state := { s.state with
      buffer := s.state.buffer ++ chunk } }) hclosed
    exact ⟨hturn.phase, hturn.id, hturn.handed⟩
  · exact ⟨hclosed, rfl, rfl⟩

theorem staysClosed_releaseConnection (hnone : s.state.connection = none) :
    StaysClosed s s.releaseConnection := by
  refine ⟨rfl, rfl, ?_⟩
  simp [releaseConnection, hnone]

theorem Attached.staysClosed (h : Attached es s) (hclosed : s.state.phase = .closed)
    (hstep : s.StepsOpen event s') : StaysClosed s s' := by
  obtain ⟨⟨hstep, hrollback⟩, hopen⟩ := hstep
  have hnone := h.detached (.inr hclosed)
  cases reacts_of_step hstep with
  | data chunk => exact staysClosed_data hclosed chunk
  | close => exact staysClosed_releaseConnection hnone
  | resolved hpump resolution =>
      cases resolution with
      | allowed connection => exact absurd hclosed (of_decide_eq_true hopen)
      | rejected sqlState message =>
          simp only [WireServer.resolved, fail_of_closed hclosed]
          exact ⟨hclosed, rfl, rfl⟩
      | thrown message =>
          simp only [WireServer.resolved, fail_of_closed hclosed]
          exact staysClosed_stop hclosed
  | turn => exact staysClosed_turn hclosed
  | forwarded | released => exact ⟨hclosed, rfl, rfl⟩
  | forwardFailed =>
      rw [fail_of_closed hclosed]
      exact ⟨hclosed, rfl, rfl⟩
  | releaseFailed =>
      rw [fail_of_closed hclosed]
      exact staysClosed_stop hclosed
  | response bytes =>
      rw [if_pos hclosed]
      exact ⟨hclosed, rfl, rfl⟩
  | queue hforeign hqueue =>
      refine ⟨hclosed, rfl, ?_⟩
      -- whatever of the connection is pending is a `ROLLBACK`
      refine SessionQueue.handedOf_step (fun message hmem hid => ?_) (foreign_ne_enqueue hforeign) hqueue
      refine (SessionQueue.released_of_run h.run).pending message hmem ?_
      rw [hid]
      exact h.released hnone

/-! ## Runs -/

/-- What the later state `s'` of a closed connection may not differ in from `s`, and that no
transaction of the connection is open once the queue's loop is idle. -/
structure StaysFinal (s s' : WireServer) : Prop extends StaysClosed s s' where
  rolledBack : s'.queue.drain = .idle →
    s'.queue.transactionOwnerId ≠ some s.state.id ∧ s'.queue.opener ≠ some s.state.id

theorem attached_start (id : JsString) : Attached [] (start id) :=
  ⟨.refl _, fun _ => SessionQueue.detachesLast_nil, fun _ => rfl⟩

theorem tracked_of_run {events : List WireEvent} (hrun : Run StepsOpen s events s')
    (h : s.Tracked) : s'.Tracked :=
  hrun.invariant (fun _ _ _ (_ : True) hstep h => h.elim fun _ h => h.step hstep)
    (fun _ _ => trivial) h

theorem StaysClosed.trans {s'' : WireServer} (h : StaysClosed s s') (h' : StaysClosed s' s'') :
    StaysClosed s s'' := by
  refine ⟨h'.phase, h'.id.trans h.id, ?_⟩
  have hhanded := h'.handed
  rw [h.id] at hhanded
  exact hhanded.trans h.handed

theorem staysClosed_of_run {events : List WireEvent} (hrun : Run StepsOpen s events s')
    (h : s.Tracked) (hclosed : s.state.phase = .closed) : StaysClosed s s' := by
  induction hrun with
  | refl s => exact ⟨hclosed, rfl, rfl⟩
  | head hstep _ ih =>
      obtain ⟨es, h⟩ := h
      have hfirst := h.staysClosed hclosed hstep
      exact hfirst.trans (ih (h.step hstep) hfirst.phase)

/-- The startup packet of user `a`. -/
def startupOfA : List ℕ := [0, 0, 0, 16, 0, 3, 0, 0, 117, 115, 101, 114, 0, 97, 0, 0]

/-- The Query frame of `BEGIN`. -/
def beginQuery : List ℕ := [0x51, 0, 0, 0, 10, 66, 69, 71, 73, 78, 0]

/-- **Closed is final**, in every run whose resolutions are allowed only while the connection is
open. -/
theorem closed_is_final {id : JsString} {before after : List WireEvent}
    (hrun : Run StepsOpen (start id) before s) (hclosed : s.state.phase = .closed)
    (hafter : Run StepsOpen s after s') : StaysFinal s s' := by
  have htracked := tracked_of_run hrun ⟨[], attached_start id⟩
  have hstays := staysClosed_of_run hafter htracked hclosed
  obtain ⟨es, h⟩ := tracked_of_run hafter htracked
  have hsteps : Run SessionQueue.Steps .empty es s'.queue := h.run.mono fun _ _ _ _ hstep => hstep.1
  refine { hstays with rolledBack := fun hidle => ?_ }
  have hblocked : s'.queue.Blocked := SessionQueue.idleBlocked_of_run hsteps hidle
  have howner := (SessionQueue.released_of_run h.run).ne_owner hblocked hidle
    (h.released (h.detached (.inr hstays.phase)))
  have hopener := (SessionQueue.isolated_of_run hsteps).owned
  simp only [SessionQueue.Owned, hidle] at hopener
  rw [hstays.id] at howner
  exact ⟨howner, hopener ▸ howner⟩

/-- `BEGIN` is with the backend when the socket closes. -/
def beforeClose : List WireEvent :=
  [.data startupOfA, .resolved (.allowed ⟨[], false⟩), .queue (.execute true false false),
    .queue .finish, .queue .next, .forwarded none, .data beginQuery, .turn, .close]

def afterClose : List WireEvent :=
  [.queue (.execute true true true), .queue .finish, .data beginQuery, .queue .next,
    .queue (.execute true false false), .queue .finish, .forwarded none, .turn, .queue .next]

theorem closed_is_final_beforeClose : ∃ s s', Run StepsOpen (start "conn-1") beforeClose s ∧
    Run StepsOpen s afterClose s' ∧ s'.queue.handed.map QueuedMessage.bytes =
      [startupOfA, beginQuery, rollbackQueryMessage] ∧ StaysFinal s s' := by
  have hsteps : ∀ {s s' es}, Run (fun s event s' => (if s.rollsBack event && s.resolvesOpen event
      then s.step event else none) = some s') s es s' → Run StepsOpen s es s' := by
    intro s s' es hrun
    refine hrun.mono fun event _ s s' hstep => ?_
    split at hstep
    · obtain ⟨hrollback, hopen⟩ := Bool.and_eq_true_iff.1 ‹_›
      exact ⟨⟨hstep, hrollback⟩, hopen⟩
    · exact nomatch hstep
  obtain ⟨s, hrun, htest⟩ : ∃ s,
      Run (fun s event s' => (if s.rollsBack event && s.resolvesOpen event then s.step event
        else none) = some s') (start "conn-1") beforeClose s ∧
        (decide (s.state.phase = .closed) && (afterClose.foldlM (fun s event =>
          if s.rollsBack event && s.resolvesOpen event then s.step event else none) s).any fun s' =>
            s'.queue.handed.map QueuedMessage.bytes =
              [startupOfA, beginQuery, rollbackQueryMessage]) = true :=
    Run.exists_of_foldlM (by decide +kernel)
  obtain ⟨hclosed, htest⟩ := Bool.and_eq_true_iff.1 htest
  obtain ⟨s', hafter, hhanded⟩ := Run.exists_of_foldlM htest
  exact ⟨s, s', hsteps hrun, hsteps hafter, of_decide_eq_true hhanded,
    closed_is_final (hsteps hrun) (of_decide_eq_true hclosed) (hsteps hafter)⟩

/-- The socket closes while the database is resolved. -/
def closedWhileResolving : List WireEvent := [.data (startupOfA ++ beginQuery), .close]

def afterResolution : List WireEvent :=
  [.resolved (.allowed ⟨[], false⟩), .queue (.execute true false false), .queue .finish,
    .queue .next, .forwarded none, .turn, .queue (.execute true true true), .queue .finish,
    .queue .next, .forwarded none, .turn]

/-- The connection streams again, its `BEGIN` reaches the backend, and the transaction stays open. -/
theorem not_closed_is_final : ∃ s s', Run Steps (start "conn-1") closedWhileResolving s ∧
    s.state.phase = .closed ∧ Run Steps s afterResolution s' ∧ s'.state.phase = .streaming ∧
      s'.queue.handed.map QueuedMessage.bytes = [startupOfA, beginQuery] ∧
        s'.queue.drain = .idle ∧ s'.queue.transactionOwnerId = some (js "conn-1") ∧
          ¬StaysFinal s s' := by
  have hsteps : ∀ {s s' es}, Run (fun s event s' => (if s.rollsBack event then s.step event
      else none) = some s') s es s' → Run Steps s es s' := by
    intro s s' es hrun
    refine hrun.mono fun event _ s s' hstep => ?_
    split at hstep
    · exact ⟨hstep, ‹_›⟩
    · exact nomatch hstep
  obtain ⟨s, hrun, htest⟩ : ∃ s,
      Run (fun s event s' => (if s.rollsBack event then s.step event else none) = some s')
        (start "conn-1") closedWhileResolving s ∧
        (decide (s.state.phase = .closed) && (afterResolution.foldlM (fun (s : WireServer) event =>
          if s.rollsBack event then s.step event else none) s).any fun s' : WireServer =>
            s'.state.phase = .streaming ∧
              s'.queue.handed.map QueuedMessage.bytes = [startupOfA, beginQuery] ∧
                s'.queue.drain = .idle ∧
                  s'.queue.transactionOwnerId = some (js "conn-1")) = true :=
    Run.exists_of_foldlM (by decide +kernel)
  obtain ⟨hclosed, htest⟩ := Bool.and_eq_true_iff.1 htest
  obtain ⟨s', hafter, htest⟩ := Run.exists_of_foldlM htest
  obtain ⟨hstreaming, hhanded, hidle, howner⟩ := of_decide_eq_true htest
  refine ⟨s, s', hsteps hrun, of_decide_eq_true hclosed, hsteps hafter, hstreaming, hhanded, hidle,
    howner, fun hfinal => ?_⟩
  rw [hfinal.phase] at hstreaming
  exact nomatch hstreaming

end WireServer

end Kinglet.Postgres
