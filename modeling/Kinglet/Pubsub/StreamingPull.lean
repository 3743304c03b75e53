import Kinglet.Library.Run
import Kinglet.Pubsub.Operations

/-!
# Streaming pull

One stream of `streamingPull`: the variables that its handlers and its poll loop share, beside what the
runtime keeps for it, the timers that are set, the pulls that are awaited, whether the stream has yet to
drain, and whether its stopper is registered. A handler, the callback of a timer and the rest of a poll
each run to their end; what a pull finds, and what others do to the store, comes from outside. A log
tells what happened and what was done.

The loop has one token: the timer that is set, the pull that is awaited, or the drain that is awaited.
A step passes it on or, once the stream has stopped, lets it go.
-/

namespace Kinglet.Pubsub.StreamingPull

open Js Library

/-! ## The stream -/

/-- A `StreamingPullRequest`. -/
structure Request where
  subscription : Option JsString
  ackIds : Option (List ℕ)
  modifyDeadlineSeconds : Option (List ℤ)
  modifyDeadlineAckIds : Option (List ℕ)
  streamAckDeadlineSeconds : Option ℤ

/-- A `ReceivedMessageResponse`. -/
structure ReceivedMessage where
  ackId : ℕ
  message : Message
  deliveryAttempt : ℕ

structure Failure where
  code : JsString
  message : JsString

/-- What `call.write` does. -/
inductive Written
  | accepted
  | full
  | threw (err : Failure)

/-- What happens to the stream. -/
inductive Input
  | data (request : Request) (now : ℤ)
  | timer (id : ℕ)
  | polled (result : Except Failure (List ReceivedMessage)) (written : Written) (now : ℤ)
  | drain
  | cancelled
  | ended
  | errored
  | shutdown
  | elsewhere (store : State)

/-- What the stream does. -/
inductive Effect
  | pull (subscriptionName : JsString) (maxMessages : ℕ) (ackDeadlineSeconds : ℤ)
  | acknowledge (subscriptionName : JsString) (ackIds : List ℕ)
  | modifyAckDeadline (subscriptionName : JsString) (ackIds : List ℕ) (ackDeadlineSeconds : ℤ)
  | write (messages : List ReceivedMessage)
  | emitError (err : Failure)
  | endCall

inductive Entry
  | input (input : Input)
  | effect (effect : Effect)

/-- The stream stops with the entry: the client or the service ends it, or it fails. -/
def Entry.stops : Entry → Bool
  | .input .cancelled | .input .ended | .input .errored | .input .shutdown => true
  | .effect (.emitError _) => true
  | _ => false

def Entry.writes : Entry → Bool
  | .effect (.write _) => true
  | _ => false

structure World where
  subscriptionName : JsString
  streamAckDeadlineSeconds : ℤ
  cancelled : Bool
  paused : Bool
  pollTimeoutId : Option ℕ
  /-- The timers that are set, and the id that the next one gets. -/
  timers : List ℕ
  nextTimer : ℕ
  /-- The calls of `pullMessages` that wait for their pull. -/
  inFlight : ℕ
  /-- A write has filled the buffer, which has not drained since. -/
  needDrain : Bool
  /-- Whether `activeStreamStoppers` has the stopper. -/
  registered : Bool
  store : State
  log : List Entry

namespace World

def record (entry : Entry) (w : World) : World := { w with log := w.log ++ [entry] }

def emit (effect : Effect) (w : World) : World := w.record (.effect effect)

def stopPolling (w : World) : World :=
  match w.pollTimeoutId with
  | some id => { w with cancelled := true, timers := w.timers.erase id, pollTimeoutId := none }
  | none => { w with cancelled := true }

/-- `this.activeStreamStoppers.delete(stopStream)`. -/
def unregister (w : World) : World := { w with registered := false }

/-- `stopStream()`. -/
def stopStream (w : World) : World := w.stopPolling.unregister.emit .endCall

/-- The handlers of `cancelled` and of `error`. -/
def onStop (w : World) : World := w.stopPolling.unregister

/-- The handler of `end`. -/
def onEnd (w : World) : World := w.onStop.emit .endCall

/-- `call.emit('error', …)`, whose handler runs at once. -/
def emitError (err : Failure) (w : World) : World := (w.emit (.emitError err)).onStop

def scheduleNextPoll (w : World) : World :=
  if w.cancelled || w.paused then w
  else
    { w with
      pollTimeoutId := some w.nextTimer
      timers := w.timers ++ [w.nextTimer]
      nextTimer := w.nextTimer + 1 }

/-- `pollMessages()` up to its pull. -/
def pollMessages (w : World) : World :=
  if w.cancelled || w.subscriptionName = [] || w.paused then w
  else
    { w.emit (.pull w.subscriptionName 100 w.streamAckDeadlineSeconds) with
      inFlight := w.inFlight + 1 }

def acknowledge (ackIds : List ℕ) (w : World) : World :=
  { w.emit (.acknowledge w.subscriptionName ackIds) with
    store := w.store.acknowledge w.subscriptionName ackIds }

def modifyAckDeadline (ackIds : List ℕ) (ackDeadlineSeconds now : ℤ) (w : World) : World :=
  { w.emit (.modifyAckDeadline w.subscriptionName ackIds ackDeadlineSeconds) with
    store := w.store.modify w.subscriptionName ackIds ackDeadlineSeconds now }

/-- The `catch` of `pollMessages`, with what follows. -/
def pollFailed (err : Failure) (w : World) : World :=
  if w.cancelled then w.scheduleNextPoll else w.stopPolling.unregister.emitError err

/-- The rest of `pollMessages`, from its pull on. -/
def pollCompleted (result : Except Failure (List ReceivedMessage)) (written : Written) (now : ℤ)
    (w : World) : World :=
  match result with
  | .ok messages =>
      if w.cancelled && messages.length > 0 then
        w.modifyAckDeadline (messages.map ReceivedMessage.ackId) 0 now
      else if messages.length > 0 && !w.cancelled then
        match written with
        | .accepted => (w.emit (.write messages)).scheduleNextPoll
        | .full => { w.emit (.write messages) with paused := true, needDrain := true }
        | .threw err => w.pollFailed err
      else w.scheduleNextPoll
  | .error err => w.pollFailed err

def invalidArgument (message : JsString) : Failure := ⟨"INVALID_ARGUMENT", message⟩

def deadlineText (deadline : ℤ) : JsString :=
  if deadline < 0 then 45 :: decimal deadline.natAbs else decimal deadline.toNat

/-- The part of the handler of `data` about acknowledgements and deadlines. -/
def onRequests (request : Request) (now : ℤ) (w : World) : World :=
  let acknowledged :=
    match request.ackIds with
    | some (ackId :: ackIds) => w.acknowledge (ackId :: ackIds)
    | _ => w
  let modSeconds := request.modifyDeadlineSeconds.getD []
  (request.modifyDeadlineAckIds.getD []).zipIdx.foldl (fun w (ackId, i) =>
    w.modifyAckDeadline [ackId] (modSeconds[i]?.getD w.streamAckDeadlineSeconds) now) acknowledged

/-- The handler of `data`. -/
def onData (request : Request) (now : ℤ) (w : World) : World :=
  if w.subscriptionName = [] then
    match request.subscription with
    | none | some [] =>
        w.stopPolling.emitError (invalidArgument "subscription must be provided")
    | some subscription =>
        let deadline := request.streamAckDeadlineSeconds.getD 0
        if deadline < 10 || deadline > 600 then
          w.stopPolling.emitError (invalidArgument
            (js "streamAckDeadlineSeconds must be between 10 and 600 seconds, got " ++
              deadlineText deadline))
        else
          onRequests request now
            { w with
              subscriptionName := subscription
              streamAckDeadlineSeconds := deadline }.scheduleNextPoll
  else if (request.subscription.getD []).length > 0 then
    w.stopPolling.unregister.emitError (invalidArgument
      "subscription field must only be set on the first StreamingPull request")
  else onRequests request now w

/-- What the stream does at an input. -/
def handle (w : World) : Input → World
  | .data request now => w.onData request now
  | .timer id => { w with timers := w.timers.erase id }.pollMessages
  | .polled result written now =>
      { w with inFlight := w.inFlight - 1 }.pollCompleted result written now
  | .drain => { w with paused := false, needDrain := false }.scheduleNextPoll
  | .cancelled | .errored => w.onStop
  | .ended => w.onEnd
  | .shutdown => w.stopStream
  | .elsewhere store => { w with store := store }

/-- A timer fires that is set, a pull ends that is awaited; a stream drains after a write that filled
the buffer, and the shutdown stops the streams that are registered. -/
def Enabled (w : World) : Input → Prop
  | .timer id => id ∈ w.timers
  | .polled _ _ _ => 0 < w.inFlight
  | .drain => w.needDrain
  | .shutdown => w.registered
  | _ => True

/-- `streamingPull(call)`. -/
def start (store : State) : World where
  subscriptionName := []
  streamAckDeadlineSeconds := 10
  cancelled := false
  paused := false
  pollTimeoutId := none
  timers := []
  nextTimer := 0
  inFlight := 0
  needDrain := false
  registered := true
  store := store
  log := []

/-- The polls that are scheduled or in flight. -/
def polls (w : World) : ℕ := w.timers.length + w.inFlight

/-- The stream has stopped. -/
def Stopped (w : World) : Prop := ∃ entry ∈ w.log, entry.stops

end World

/-- An input that is possible, and what is done at it. -/
def Step (w : World) (input : Input) (w' : World) : Prop :=
  w.Enabled input ∧ w' = (w.record (.input input)).handle input

/-! ## The invariant -/

/-- The loop has no token: no timer is set, no pull is awaited, and no drain is. -/
structure World.Idle (w : World) : Prop where
  timers : w.timers = []
  inFlight : w.inFlight = 0
  needDrain : w.needDrain = false

/-- What holds before and after a stop is recorded. -/
structure Sound (w : World) : Prop where
  token : w.timers.length + w.inFlight + w.needDrain.toNat ≤ 1
  unnamed : w.subscriptionName = [] → w.Idle
  armed : ∀ id ∈ w.timers, w.pollTimeoutId = some id
  disarmed : w.cancelled → w.timers = []
  quiet : w.log.Pairwise fun earlier later => earlier.stops → later.writes = false

structure Inv (w : World) : Prop extends Sound w where
  stopped : w.Stopped → w.cancelled

theorem inv_start (store : State) : Inv (.start store) where
  token := Nat.zero_le 1
  unnamed _ := ⟨rfl, rfl, rfl⟩
  armed := List.forall_mem_nil _
  disarmed := nofun
  quiet := .nil
  stopped := fun ⟨_, hmem, _⟩ => absurd hmem List.not_mem_nil

section Steps

variable {w : World} {entry : Entry}

theorem Sound.record (h : Sound w) (hquiet : entry.writes = false) : Sound (w.record entry) where
  token := h.token
  unnamed := fun hname => ⟨(h.unnamed hname).timers, (h.unnamed hname).inFlight,
    (h.unnamed hname).needDrain⟩
  armed := h.armed
  disarmed := h.disarmed
  quiet := by
    refine List.pairwise_append.2 ⟨h.quiet, List.pairwise_singleton .., ?_⟩
    intro earlier _ later hlater _
    rwa [List.mem_singleton.1 hlater]

theorem Inv.record (h : Inv w) (hquiet : entry.writes = false) (hstops : entry.stops = false) :
    Inv (w.record entry) where
  toSound := h.toSound.record hquiet
  stopped := by
    rintro ⟨earlier, hmem, hstop⟩
    rcases List.mem_append.1 hmem with hmem | hmem
    · exact h.stopped ⟨earlier, hmem, hstop⟩
    · rw [List.mem_singleton.1 hmem, hstops] at hstop
      cases hstop

theorem Sound.timers_erase (h : Sound w) {id : ℕ} (hid : w.pollTimeoutId = some id) :
    w.timers.erase id = [] := by
  cases htimers : w.timers with
  | nil => rfl
  | cons timer timers =>
      have hlength := h.token
      rw [htimers, List.length_cons] at hlength
      have htimer := h.armed timer (htimers ▸ List.mem_cons_self)
      obtain rfl : timer = id := Option.some.inj (htimer.symm.trans hid)
      have hnil : timers = [] := List.eq_nil_of_length_eq_zero (by omega)
      rw [hnil, List.erase_cons_head]

theorem Sound.timers_eq_nil (h : Sound w) (hid : w.pollTimeoutId = none) : w.timers = [] := by
  refine List.eq_nil_iff_forall_not_mem.2 fun timer hmem => ?_
  rw [h.armed timer hmem] at hid
  cases hid

/-- Once stopped, no timer is set. -/
theorem Sound.stopPolling (h : Sound w) : Inv w.stopPolling := by
  have htoken := h.token
  unfold World.stopPolling
  split
  · rename_i id hid
    have htimers : w.timers.erase id = [] := h.timers_erase hid
    exact {
      token := by
        show (w.timers.erase id).length + w.inFlight + w.needDrain.toNat ≤ 1
        rw [htimers, List.length_nil]
        omega
      unnamed := fun hname => ⟨htimers, (h.unnamed hname).inFlight, (h.unnamed hname).needDrain⟩
      armed := fun timer hmem => absurd (htimers ▸ hmem : timer ∈ []) List.not_mem_nil
      disarmed := fun _ => htimers
      quiet := h.quiet
      stopped := fun _ => rfl }
  · rename_i hid
    have htimers : w.timers = [] := h.timers_eq_nil hid
    exact {
      token := h.token
      unnamed := fun hname => ⟨htimers, (h.unnamed hname).inFlight, (h.unnamed hname).needDrain⟩
      armed := h.armed
      disarmed := fun _ => htimers
      quiet := h.quiet
      stopped := fun _ => rfl }

theorem Inv.unregister (h : Inv w) : Inv w.unregister :=
  { token := h.token, unnamed := fun hname => ⟨(h.unnamed hname).timers, (h.unnamed hname).inFlight,
      (h.unnamed hname).needDrain⟩, armed := h.armed, disarmed := h.disarmed, quiet := h.quiet,
    stopped := h.stopped }

theorem Sound.onStop (h : Sound w) : Inv w.onStop := h.stopPolling.unregister

theorem Sound.emitError (h : Sound w) (err : Failure) : Inv (w.emitError err) :=
  (h.record rfl).onStop

/-- An idle loop gets its token. -/
theorem Inv.scheduleNextPoll (h : Inv w) (hidle : w.Idle) (hname : w.subscriptionName ≠ []) :
    Inv w.scheduleNextPoll := by
  unfold World.scheduleNextPoll
  split
  · exact h
  · rename_i hrunning
    obtain ⟨hcancelled, -⟩ := Bool.or_eq_false_iff.1 (Bool.eq_false_iff.2 hrunning)
    have htimers : w.timers ++ [w.nextTimer] = [w.nextTimer] := by rw [hidle.timers, List.nil_append]
    exact {
      token := by
        show (w.timers ++ [w.nextTimer]).length + w.inFlight + w.needDrain.toNat ≤ 1
        rw [htimers, hidle.inFlight, hidle.needDrain]
        exact Nat.le_refl 1
      unnamed := fun hnil => absurd hnil hname
      armed := fun timer hmem => congrArg some (List.mem_singleton.1 (htimers ▸ hmem)).symm
      disarmed := fun hstopped => absurd (hcancelled.symm.trans hstopped) Bool.false_ne_true
      quiet := h.quiet
      stopped := h.stopped }

end Steps

/-! ## Steps -/

section Handlers

variable {w : World}

theorem Inv.withStore (h : Inv w) (store : State) : Inv { w with store := store } :=
  { token := h.token, unnamed := fun hname => ⟨(h.unnamed hname).timers, (h.unnamed hname).inFlight,
      (h.unnamed hname).needDrain⟩, armed := h.armed, disarmed := h.disarmed, quiet := h.quiet,
    stopped := h.stopped }

theorem Inv.acknowledge (h : Inv w) (ackIds : List ℕ) : Inv (w.acknowledge ackIds) :=
  (h.record rfl rfl).withStore _

theorem Inv.modifyAckDeadline (h : Inv w) (ackIds : List ℕ) (ackDeadlineSeconds now : ℤ) :
    Inv (w.modifyAckDeadline ackIds ackDeadlineSeconds now) :=
  (h.record rfl rfl).withStore _

/-- A stream that has not stopped may be written to. -/
theorem Inv.write (h : Inv w) (hrunning : w.cancelled = false) (messages : List ReceivedMessage) :
    Inv (w.emit (.write messages)) where
  token := h.token
  unnamed := fun hname => ⟨(h.unnamed hname).timers, (h.unnamed hname).inFlight,
    (h.unnamed hname).needDrain⟩
  armed := h.armed
  disarmed := h.disarmed
  quiet := by
    refine List.pairwise_append.2 ⟨h.quiet, List.pairwise_singleton .., ?_⟩
    intro earlier hearlier later _ hstops
    have hcancelled := h.stopped ⟨earlier, hearlier, hstops⟩
    exact absurd (hrunning.symm.trans hcancelled) Bool.false_ne_true
  stopped := by
    rintro ⟨earlier, hmem, hstops⟩
    rcases List.mem_append.1 hmem with hmem | hmem
    · exact h.stopped ⟨earlier, hmem, hstops⟩
    · rw [List.mem_singleton.1 hmem] at hstops
      cases hstops

/-- The token is passed on, or let go. -/
theorem Inv.passToken {w' : World} (h : Inv w) (hname : w'.subscriptionName = w.subscriptionName)
    (hcancelled : w'.cancelled = w.cancelled) (hlog : w'.log = w.log) (htimers : w'.timers = [])
    (htoken : w'.inFlight + w'.needDrain.toNat ≤ 1)
    (hnamed : w.subscriptionName ≠ [] ∨ w'.inFlight = 0 ∧ w'.needDrain = false) : Inv w' where
  token := by
    rw [htimers, List.length_nil, Nat.zero_add]
    exact htoken
  unnamed hnil := by
    have hidle := hnamed.resolve_left (not_not_intro (hname ▸ hnil))
    exact ⟨htimers, hidle.1, hidle.2⟩
  armed := by
    rw [htimers]
    exact List.forall_mem_nil _
  disarmed _ := htimers
  quiet := hlog ▸ h.quiet
  stopped hstopped := by
    rw [hcancelled]
    unfold World.Stopped at hstopped
    rw [hlog] at hstopped
    exact h.stopped hstopped

theorem Inv.pollMessages (h : Inv w) (hidle : w.Idle) : Inv w.pollMessages := by
  unfold World.pollMessages
  split
  · exact h
  · rename_i hready
    have hname : w.subscriptionName ≠ [] := by
      intro hnil
      simp [hnil] at hready
    have hrecord : Inv (w.emit (.pull w.subscriptionName 100 w.streamAckDeadlineSeconds)) :=
      h.record rfl rfl
    refine hrecord.passToken rfl rfl rfl hidle.timers ?_ (.inl hname)
    show w.inFlight + 1 + w.needDrain.toNat ≤ 1
    rw [hidle.inFlight, hidle.needDrain]
    exact Nat.le_refl 1

theorem Inv.pollFailed (h : Inv w) (hidle : w.Idle) (hname : w.subscriptionName ≠ [])
    (err : Failure) : Inv (w.pollFailed err) := by
  unfold World.pollFailed
  split
  · exact h.scheduleNextPoll hidle hname
  · exact h.stopPolling.unregister.emitError err

/-- The rest of a poll keeps the invariant, whatever its pull found. -/
theorem Inv.pollCompleted (h : Inv w) (hidle : w.Idle) (hname : w.subscriptionName ≠ [])
    (result : Except Failure (List ReceivedMessage)) (written : Written) (now : ℤ) :
    Inv (w.pollCompleted result written now) := by
  unfold World.pollCompleted
  cases result with
  | error err => exact h.pollFailed hidle hname err
  | ok messages =>
      dsimp only
      split
      · exact h.modifyAckDeadline _ 0 now
      · split
        · rename_i hwrite
          have hrunning : w.cancelled = false := by simpa using (Bool.and_eq_true_iff.1 hwrite).2
          have hwritten := h.write hrunning messages
          cases written with
          | accepted =>
              exact hwritten.scheduleNextPoll ⟨hidle.timers, hidle.inFlight, hidle.needDrain⟩ hname
          | full =>
              refine hwritten.passToken rfl rfl rfl hidle.timers ?_ (.inl hname)
              show w.inFlight + 1 ≤ 1
              rw [hidle.inFlight]
          | threw err => exact h.pollFailed hidle hname err
        · exact h.scheduleNextPoll hidle hname

theorem Inv.onRequests (h : Inv w) (request : Request) (now : ℤ) :
    Inv (w.onRequests request now) := by
  have hfold : ∀ (changes : List (ℕ × ℕ)) (w : World), Inv w → Inv (changes.foldl (fun w change =>
      w.modifyAckDeadline [change.1]
        ((request.modifyDeadlineSeconds.getD [])[change.2]?.getD w.streamAckDeadlineSeconds) now) w) := by
    intro changes
    induction changes with
    | nil => exact fun w h => h
    | cons change changes ih => exact fun w h => ih _ (h.modifyAckDeadline _ _ now)
  unfold World.onRequests
  refine hfold _ _ ?_
  split
  · exact h.acknowledge _
  · exact h

theorem Inv.onData (h : Inv w) (request : Request) (now : ℤ) : Inv (w.onData request now) := by
  unfold World.onData
  split
  · rename_i hname
    have hidle := h.unnamed hname
    split
    · exact h.stopPolling.emitError _
    · exact h.stopPolling.emitError _
    · rename_i subscription hne _
      dsimp only
      split
      · exact h.stopPolling.emitError _
      · have hnamed : Inv { w with
            subscriptionName := subscription
            streamAckDeadlineSeconds := request.streamAckDeadlineSeconds.getD 0 } := {
          token := h.token
          unnamed := fun _ => ⟨hidle.timers, hidle.inFlight, hidle.needDrain⟩
          armed := h.armed
          disarmed := h.disarmed
          quiet := h.quiet
          stopped := h.stopped }
        have hscheduled := hnamed.scheduleNextPoll ⟨hidle.timers, hidle.inFlight, hidle.needDrain⟩ hne
        exact hscheduled.onRequests request now
  · split
    · exact h.stopPolling.unregister.emitError _
    · exact h.onRequests request now

/-- **The step lemma.** -/
theorem Inv.step {input : Input} {w' : World} (h : Inv w) (hstep : Step w input w') : Inv w' := by
  obtain ⟨henabled, rfl⟩ := hstep
  have htoken := h.token
  have hrecord : Sound (w.record (.input input)) := h.toSound.record rfl
  cases input with
  | data request now => exact (h.record rfl rfl).onData request now
  | elsewhere store => exact (h.record rfl rfl).withStore store
  | cancelled | errored => exact hrecord.onStop
  | ended => exact hrecord.onStop.record rfl rfl
  | shutdown => exact hrecord.onStop.record rfl rfl
  | timer id =>
      -- the token is the timer
      have hmem : id ∈ w.timers := henabled
      have hlength := List.length_pos_of_mem hmem
      have herase : w.timers.erase id = [] := h.timers_erase (h.armed id hmem)
      have hinFlight : w.inFlight = 0 := by omega
      have hneedDrain : w.needDrain = false := Bool.toNat_eq_zero.1 (by omega)
      have hlogged : Inv (w.record (.input (.timer id))) := h.record rfl rfl
      refine Inv.pollMessages (hlogged.passToken rfl rfl rfl herase ?_ (.inr ⟨hinFlight, hneedDrain⟩))
        ⟨herase, hinFlight, hneedDrain⟩
      show w.inFlight + w.needDrain.toNat ≤ 1
      omega
  | polled result written now =>
      -- the token is the pull
      have hpositive : 0 < w.inFlight := henabled
      have htimers : w.timers = [] := List.eq_nil_of_length_eq_zero (by omega)
      have hneedDrain : w.needDrain = false := Bool.toNat_eq_zero.1 (by omega)
      have hname : w.subscriptionName ≠ [] := fun hnil => by
        have hidle := (h.unnamed hnil).inFlight
        omega
      have hlogged : Inv (w.record (.input (.polled result written now))) := h.record rfl rfl
      have hinFlight : w.inFlight - 1 = 0 := by omega
      have hpolled : Inv { w.record (.input (.polled result written now)) with
          inFlight := w.inFlight - 1 } := by
        refine hlogged.passToken rfl rfl rfl htimers ?_ (.inl hname)
        show w.inFlight - 1 + w.needDrain.toNat ≤ 1
        omega
      exact hpolled.pollCompleted ⟨htimers, hinFlight, hneedDrain⟩ hname result written now
  | drain =>
      -- the token is the drain
      have hneedDrain : w.needDrain = true := henabled
      rw [hneedDrain, Bool.toNat_true] at htoken
      have htimers : w.timers = [] := List.eq_nil_of_length_eq_zero (by omega)
      have hinFlight : w.inFlight = 0 := by omega
      have hname : w.subscriptionName ≠ [] := fun hnil => by
        have hidle := (h.unnamed hnil).needDrain
        exact absurd (hneedDrain.symm.trans hidle) Bool.true_eq_false.mp
      have hlogged : Inv (w.record (.input .drain)) := h.record rfl rfl
      refine Inv.scheduleNextPoll (hlogged.passToken rfl rfl rfl htimers ?_ (.inl hname))
        ⟨htimers, hinFlight, rfl⟩ hname
      show w.inFlight + 0 ≤ 1
      omega

end Handlers

/-- Every run keeps the invariant. -/
theorem Inv.run {w w' : World} {inputs : List Input} (h : Inv w) (hrun : Run Step w inputs w') :
    Inv w' :=
  hrun.invariant (fun _ _ _ _ hstep h => h.step hstep) (fun _ _ => trivial) h

/-! ## Deadlines -/

section Deadlines

variable {subscriptionName : JsString} {newDeadline : ℤ}

def setDeadline (subscriptionName : JsString) (newDeadline : ℤ) (db : Db) (ackId : ℕ) : Db :=
  db.updateDeliveries (Delivery.isAck subscriptionName ackId) fun row =>
    { row with ackDeadline := newDeadline }

/-- The records with one of the ids have the deadline. -/
def HaveDeadline (subscriptionName : JsString) (newDeadline : ℤ) (ackIds : List ℕ) (db : Db) : Prop :=
  ∀ row ∈ db.deliveries, row.subscriptionName = subscriptionName → row.ackId ∈ ackIds →
    row.ackDeadline = newDeadline

theorem HaveDeadline.setDeadline {done : List ℕ} {db : Db} (ackId : ℕ)
    (h : HaveDeadline subscriptionName newDeadline done db) :
    HaveDeadline subscriptionName newDeadline (done ++ [ackId])
      (setDeadline subscriptionName newDeadline db ackId) := by
  intro row hrow hname hack
  obtain ⟨before, hbefore, rfl⟩ := List.mem_map.1 hrow
  by_cases hset : before.isAck subscriptionName ackId
  · rw [if_pos hset]
  · rw [if_neg hset] at hname hack ⊢
    refine h before hbefore hname ((List.mem_append.1 hack).resolve_right fun hack => hset ?_)
    simp [Delivery.isAck, hname, List.mem_singleton.1 hack]

theorem HaveDeadline.foldl (ackIds : List ℕ) :
    ∀ (done : List ℕ) (db : Db), HaveDeadline subscriptionName newDeadline done db →
      HaveDeadline subscriptionName newDeadline (done ++ ackIds)
        (ackIds.foldl (StreamingPull.setDeadline subscriptionName newDeadline) db) := by
  induction ackIds with
  | nil =>
      intro done db h
      rwa [List.append_nil]
  | cons ackId ackIds ih =>
      intro done db h
      have hrest := ih _ _ (h.setDeadline ackId)
      rwa [List.append_assoc] at hrest

/-- Deadline 0 makes the messages available at once. -/
theorem expired_of_modify {s : State} {ackIds : List ℕ} {now : ℤ} {row : Delivery}
    (hsub : (s.db.getSubscriptionByName subscriptionName).isSome)
    (hnow : -8640000000000000 ≤ now ∧ now ≤ 8640000000000000)
    (hrow : row ∈ (s.modify subscriptionName ackIds 0 now).db.deliveries)
    (hname : row.subscriptionName = subscriptionName) (hack : row.ackId ∈ ackIds) :
    expired row.ackDeadline now := by
  have hdeadline : deadlineAfter now 0 = some now := by
    simp [deadlineAfter, hnow]
  obtain ⟨sub, hsub⟩ := Option.isSome_iff_exists.1 hsub
  rw [State.modify, hsub] at hrow
  simp only [State.modifyAckDeadline, hdeadline] at hrow
  have hset : row.ackDeadline = now :=
    HaveDeadline.foldl ackIds [] s.db
      (fun _ _ _ h => absurd h List.not_mem_nil) row hrow hname hack
  rw [hset]
  exact decide_eq_true (List.le_refl _)

end Deadlines

/-- What a poll does with the messages it gets after the stream has stopped. -/
theorem step_polled_of_cancelled {w w' : World} {messages : List ReceivedMessage} {written : Written}
    {now : ℤ} (hcancelled : w.cancelled) (hne : messages ≠ [])
    (hstep : Step w (.polled (.ok messages) written now) w') :
    w' = World.modifyAckDeadline (messages.map ReceivedMessage.ackId) 0 now
      { w.record (.input (.polled (.ok messages) written now)) with inFlight := w.inFlight - 1 } := by
  obtain ⟨-, rfl⟩ := hstep
  have hlength : 0 < messages.length := List.length_pos_iff.2 hne
  show World.pollCompleted (.ok messages) written now _ = _
  unfold World.pollCompleted
  refine if_pos ?_
  rw [Bool.and_eq_true, decide_eq_true_eq]
  exact ⟨hcancelled, hlength⟩

/-- **Streaming pull.** In every order of requests, timers, polls and ends, at most one poll is
scheduled or in flight; nothing is written after the stream has stopped; and the messages of a poll that
completes after that have their deadlines set to 0 in the same step, which makes them available again.
-/
theorem streamingPull_safe {store : State} {inputs : List Input} {w : World}
    (hrun : Run Step (.start store) inputs w) :
    w.polls ≤ 1 ∧
      (w.log.Pairwise fun earlier later => earlier.stops → later.writes = false) ∧
      ∀ messages written now w', Step w (.polled (.ok messages) written now) w' → w.Stopped →
        messages ≠ [] →
        w'.log = w.log ++ [.input (.polled (.ok messages) written now),
          .effect (.modifyAckDeadline w.subscriptionName (messages.map ReceivedMessage.ackId) 0)] ∧
        ((w.store.db.getSubscriptionByName w.subscriptionName).isSome →
          -8640000000000000 ≤ now ∧ now ≤ 8640000000000000 →
          ∀ row ∈ w'.store.db.deliveries, row.subscriptionName = w.subscriptionName →
            row.ackId ∈ messages.map ReceivedMessage.ackId → expired row.ackDeadline now) := by
  have hinv : Inv w := (inv_start store).run hrun
  refine ⟨?_, hinv.quiet, ?_⟩
  · have htoken := hinv.token
    unfold World.polls
    omega
  · intro messages written now w' hstep hstopped hne
    rw [step_polled_of_cancelled (hinv.stopped hstopped) hne hstep]
    refine ⟨?_, fun hsub hnow row hrow hname hack => expired_of_modify hsub hnow hrow hname hack⟩
    show w.log ++ [_] ++ [_] = _
    rw [List.append_assoc]
    rfl

/-- A stream that is cancelled while its first pull is awaited. -/
def cancelledStream : World :=
  [.data ⟨some (js "s"), none, none, none, some 10⟩ 0, .timer 0, .cancelled].foldl
    (fun w input => (w.record (.input input)).handle input) (.start ⟨.empty, []⟩)

theorem run_cancelledStream : Run Step (.start ⟨.empty, []⟩)
    [.data ⟨some (js "s"), none, none, none, some 10⟩ 0, .timer 0, .cancelled] cancelledStream :=
  .head ⟨trivial, rfl⟩ (.head ⟨List.mem_singleton.2 rfl, rfl⟩ (.head ⟨trivial, rfl⟩ (.refl _)))

theorem streamingPull_safe_cancelledStream :
    cancelledStream.polls ≤ 1 ∧
      (cancelledStream.log.Pairwise fun earlier later => earlier.stops → later.writes = false) ∧
      ∀ messages written now w', Step cancelledStream (.polled (.ok messages) written now) w' →
        cancelledStream.Stopped → messages ≠ [] →
        w'.log = cancelledStream.log ++ [.input (.polled (.ok messages) written now),
          .effect (.modifyAckDeadline cancelledStream.subscriptionName
            (messages.map ReceivedMessage.ackId) 0)] ∧
        ((cancelledStream.store.db.getSubscriptionByName cancelledStream.subscriptionName).isSome →
          -8640000000000000 ≤ now ∧ now ≤ 8640000000000000 →
          ∀ row ∈ w'.store.db.deliveries,
            row.subscriptionName = cancelledStream.subscriptionName →
            row.ackId ∈ messages.map ReceivedMessage.ackId → expired row.ackDeadline now) :=
  streamingPull_safe run_cancelledStream

end Kinglet.Pubsub.StreamingPull
