import Kinglet.Library.Framing
import Kinglet.Postgres.ClosedFinal

/-!
# However the bytes arrive

Data is buffered while a frame is handled, and one loop cuts the frames. So it makes no difference
how the bytes of a client are split and when they arrive: the frames that are handled and the
messages that are forwarded depend on the bytes alone, and on what the database and the backend
answer. The argument compares a connection with one that gets its answers at once. Once the loop is
idle nothing is left to do, and the socket is read.
-/

namespace Kinglet.Postgres

open Js Library

/-! ## A connection that gets its answers at once -/

/-- What the handlers wait for: the resolution, and which of the messages the backend rejects. -/
structure Answers where
  resolution : ConnectionResolution
  fails : ℕ → Bool

/-- What handling a frame depends on, with the messages forwarded so far. -/
structure Dialogue where
  phase : ConnectionPhase
  pendingBatch : List (List ℕ)
  startupPacket : Option (List ℕ)
  connection : Option ResolvedConnection
  forwarded : List (List ℕ)

namespace Dialogue

variable (answers : Answers) (d : Dialogue)

def close : Dialogue := { d with phase := .closed, pendingBatch := [], connection := none }

def fail : Dialogue := if d.phase = .closed then d else d.close

/-- The backend is done with the last message. -/
def answered : Dialogue := if answers.fails (d.forwarded.length - 1) then d.fail else d

def forward (bytes : List ℕ) : Dialogue :=
  if d.connection.isSome then
    ({ d with forwarded := d.forwarded ++ [bytes] } : Dialogue).answered answers
  else d.fail

def beginStreaming : Dialogue :=
  match d.startupPacket with
  | none => d.fail
  | some startupPacket =>
      ({ d with phase := .streaming } : Dialogue).forward answers startupPacket

def resolved : Dialogue :=
  match answers.resolution with
  | .allowed connection =>
      if connection.loginDisabled ∨ connection.password ≠ [] then
        { d with phase := .password, connection := some connection }
      else ({ d with connection := some connection } : Dialogue).beginStreaming answers
  | .rejected _ _ | .thrown _ => d.fail

def handleStartupFrame (frame : List ℕ) : Dialogue :=
  match parseStartupPacket frame with
  | .error _ => d.fail
  | .ok .sslRequest | .ok .gssencRequest => d
  | .ok .cancelRequest => { d with phase := .closed }
  | .ok (.startup protocolVersion parameters) =>
      if protocolVersion ≠ protocolVersion30 then d.fail
      else if (parameters.lookup (js "user")).getD [] = [] then d.fail
      else ({ d with startupPacket := some frame } : Dialogue).resolved answers

def handlePasswordFrame (frame : List ℕ) : Dialogue :=
  if frame.headD 0 ≠ passwordMessageTag then d.fail
  else if d.connection.any ResolvedConnection.loginDisabled ∨
      some (WireServer.suppliedPassword frame) ≠ d.connection.map ResolvedConnection.password then
    d.fail
  else d.beginStreaming answers

def batch (namespaced : List ℕ) : Dialogue :=
  { d with pendingBatch := d.pendingBatch ++ [namespaced] }

def handleNamespaced (namespaced : List ℕ) : Dialogue :=
  if maxPendingBatchLength < ((d.batch namespaced).pendingBatch.map List.length).sum then
    (d.batch namespaced).fail
  else if isExtendedQueryFrame (namespaced.headD 0) then d.batch namespaced
  else ({ d with pendingBatch := [] } : Dialogue).forward answers
    (d.batch namespaced).pendingBatch.flatten

def handleFrame (connectionNamespace : JsString) (frame : List ℕ) : Dialogue :=
  match d.phase with
  | .startup => d.handleStartupFrame answers frame
  | .password => d.handlePasswordFrame answers frame
  | _ =>
      if frame.headD 0 = terminateMessageTag then d.close
      else d.handleNamespaced answers (namespaceFrameNames frame connectionNamespace)

end Dialogue

/-! ## Frames -/

/-- `takeNextFrame(socket)` in a phase; there is none once the connection is closed. -/
def cutFrame (phase : ConnectionPhase) (bytes : List ℕ) : Option (List ℕ × List ℕ) :=
  if phase = .closed then none
  else
    match ({ ConnectionState.create [] with phase := phase, buffer := bytes } :
      ConnectionState).takeNextFrame with
    | .ok found => found
    | .error _ => none

theorem getInt32_append {bytes : List ℕ} {offset : ℕ} (h : offset + 4 ≤ bytes.length)
    (more : List ℕ) : getInt32 (bytes ++ more) offset = getInt32 bytes offset := by
  rw [getInt32, getInt32, List.drop_append_of_le_length (by omega),
    List.take_append_of_le_length (by rw [List.length_drop]; omega)]

section Frames

variable {s : ConnectionState} {frameLength : ℤ} {frame rest : List ℕ}

/-- The connection with more in its buffer. -/
def ConnectionState.receive (s : ConnectionState) (more : List ℕ) : ConnectionState :=
  { s with buffer := s.buffer ++ more }

theorem frameLengthAtHead_receive (h : s.frameLengthAtHead = some frameLength) (more : List ℕ) :
    (s.receive more).frameLengthAtHead = some frameLength := by
  unfold ConnectionState.frameLengthAtHead ConnectionState.receive at *
  simp only [List.length_append]
  split at h
  · rw [if_pos ‹_›]
    split at h
    · cases h
    · rw [if_neg (by omega), getInt32_append (by omega)]
      exact h
  · rw [if_neg ‹_›]
    split at h
    · cases h
    · rw [if_neg (by omega), getInt32_append (by omega)]
      exact h

/-- What a frame is: its length is known, valid, and there. -/
theorem takeNextFrame_eq_some (h : s.takeNextFrame = .ok (some (frame, rest))) :
    ∃ frameLength, s.frameLengthAtHead = some frameLength ∧
      ¬(s.declaredLength frameLength < 4 ∨ s.maxLength < s.declaredLength frameLength) ∧
      frameLength ≤ s.buffer.length ∧ frame = s.buffer.take frameLength.toNat ∧
      rest = s.buffer.drop frameLength.toNat := by
  unfold ConnectionState.takeNextFrame at h
  split at h
  · cases h
  · rename_i frameLength hlength
    split at h
    · cases h
    · split at h
      · cases h
      · obtain ⟨rfl, rfl⟩ := Prod.mk.inj (Option.some.inj (Except.ok.inj h))
        exact ⟨frameLength, hlength, ‹_›, not_lt.1 ‹_›, rfl, rfl⟩

theorem takeNextFrame_receive (h : s.takeNextFrame = .ok (some (frame, rest))) (more : List ℕ) :
    (s.receive more).takeNextFrame = .ok (some (frame, rest ++ more)) := by
  obtain ⟨frameLength, hlength, hvalid, hthere, rfl, rfl⟩ := takeNextFrame_eq_some h
  have hle : frameLength.toNat ≤ s.buffer.length := by omega
  unfold ConnectionState.takeNextFrame
  rw [frameLengthAtHead_receive hlength more]
  have hvalid' : ¬((s.receive more).declaredLength frameLength < 4 ∨
      (s.receive more).maxLength < (s.receive more).declaredLength frameLength) := hvalid
  have hthere' : ¬((s.receive more).buffer.length : ℤ) < frameLength := by
    rw [ConnectionState.receive, List.length_append]
    omega
  simp only [if_neg hvalid', if_neg hthere']
  rw [ConnectionState.receive, List.take_append_of_le_length hle, List.drop_append_of_le_length hle]

theorem takeNextFrame_receive_error {message : JsString} (h : s.takeNextFrame = .error message)
    (more : List ℕ) : (s.receive more).takeNextFrame = .error message := by
  unfold ConnectionState.takeNextFrame at h
  split at h
  · cases h
  · rename_i frameLength hlength
    split at h
    · rename_i hinvalid
      have hinvalid' : (s.receive more).declaredLength frameLength < 4 ∨
          (s.receive more).maxLength < (s.receive more).declaredLength frameLength := hinvalid
      unfold ConnectionState.takeNextFrame
      rw [frameLengthAtHead_receive hlength more]
      simp only [if_pos hinvalid']
      exact h
    · split at h <;> cases h

theorem length_of_takeNextFrame (h : s.takeNextFrame = .ok (some (frame, rest))) :
    rest.length < s.buffer.length := by
  obtain ⟨frameLength, -, hvalid, hthere, -, rfl⟩ := takeNextFrame_eq_some h
  have hpositive : 4 ≤ frameLength := by
    unfold ConnectionState.declaredLength at hvalid
    split at hvalid <;> omega
  rw [List.length_drop]
  omega

end Frames

theorem cutFrame_eq (s : ConnectionState) :
    cutFrame s.phase s.buffer = if s.phase = .closed then none else
      match s.takeNextFrame with
      | .ok found => found
      | .error _ => none := rfl

/-- The connection that gets its answers at once, and shows what it forwards. -/
def dialogues (answers : Answers) (connectionNamespace : JsString) :
    Framing Dialogue ℕ (List (List ℕ)) where
  cut d := cutFrame d.phase
  handle d := d.handleFrame answers connectionNamespace
  output := Dialogue.forwarded
  cut_append := by
    intro d input frame rest h more
    unfold cutFrame at h ⊢
    split at h
    · cases h
    · rw [if_neg ‹_›]
      split at h
      · rename_i found hfound
        subst h
        have hmore := takeNextFrame_receive hfound more
        rw [ConnectionState.receive] at hmore
        rw [hmore]
      · cases h
  cut_length := by
    intro d input frame rest h
    unfold cutFrame at h
    split at h
    · cases h
    · split at h
      · rename_i found hfound
        subst h
        exact length_of_takeNextFrame hfound
      · cases h

/-! ## The messages of a connection -/

namespace SessionQueue

variable {q q' : SessionQueue} {id : JsString}

/-- What the client of a connection had the queue enqueue. -/
def forwardedOf (q : SessionQueue) (id : JsString) : List (List ℕ) :=
  (q.enqueued.filter fun message => message.connectionId = id && !message.compensating).map
    QueuedMessage.bytes

theorem enqueued_takeNext (q : SessionQueue) : q.takeNext.enqueued = q.enqueued := by
  unfold takeNext
  split <;> rfl

theorem enqueued_push (q : SessionQueue) (compensating : Bool) (connectionId : JsString)
    (bytes : List ℕ) : (q.push compensating connectionId bytes).enqueued =
      q.enqueued ++ [⟨q.enqueued.length, connectionId, bytes, compensating⟩] := by
  unfold SessionQueue.push startDrain
  split
  · exact enqueued_takeNext _
  · rfl

theorem forwardedOf_push_self (q : SessionQueue) (id : JsString) (bytes : List ℕ) :
    (q.push false id bytes).forwardedOf id = q.forwardedOf id ++ [bytes] := by
  rw [forwardedOf, enqueued_push, List.filter_append, List.map_append]
  simp [forwardedOf]

theorem forwardedOf_push (q : SessionQueue) {compensating : Bool} {connectionId : JsString}
    (h : connectionId = id → compensating = true) (bytes : List ℕ) :
    (q.push compensating connectionId bytes).forwardedOf id = q.forwardedOf id := by
  have hother : (decide (connectionId = id) && !compensating) = false := by
    by_cases hid : connectionId = id
    · rw [h hid, Bool.not_true, Bool.and_false]
    · rw [decide_eq_false hid, Bool.false_and]
  rw [forwardedOf, enqueued_push, List.filter_append, List.filter_singleton, hother, cond_false,
    List.append_nil]
  rfl

theorem forwardedOf_detach (q : SessionQueue) (id connectionId : JsString) :
    (q.detach connectionId).forwardedOf id = q.forwardedOf id := by
  unfold SessionQueue.detach
  split
  · exact forwardedOf_push (q.abandon connectionId) (fun _ => rfl) rollbackQueryMessage
  · rfl

/-- What other connections and the loop do adds no message of this one. -/
theorem forwardedOf_step {event : Event} (hforeign : event.isForeign id = true)
    (hstep : q.step event = some q') : q'.forwardedOf id = q.forwardedOf id := by
  cases reacts_of_step hstep with
  | enqueue connectionId bytes =>
    refine forwardedOf_push q (fun hid => ?_) bytes
    exact absurd hid (of_decide_eq_true hforeign)
  | detach connectionId => exact forwardedOf_detach q id connectionId
  | execute => rfl
  | finish =>
    unfold SessionQueue.finish
    split
    · exact forwardedOf_push (q.settle _ _) (fun _ => rfl) rollbackQueryMessage
    · rfl
  | next =>
    rw [forwardedOf, enqueued_takeNext]
    rfl

end SessionQueue

namespace WireServer

variable {s s' : WireServer} {answers : Answers}

/-! ## The connection of the server -/

def forwarded (s : WireServer) : List (List ℕ) := s.queue.forwardedOf s.state.id

def dialogue (s : WireServer) : Dialogue where
  phase := s.state.phase
  pendingBatch := s.state.pendingBatch
  startupPacket := s.state.startupPacket
  connection := s.state.connection
  forwarded := s.forwarded

/-- The connection once what the handler waits for has come. -/
def settled (answers : Answers) (s : WireServer) : Dialogue :=
  match s.pump with
  | .idle | .running | .releasing _ => s.dialogue
  | .resolving => s.dialogue.resolved answers
  | .forwarding _ => s.dialogue.answered answers

theorem forwarded_releaseConnection (s : WireServer) :
    s.releaseConnection.forwarded = s.forwarded := by
  unfold WireServer.releaseConnection WireServer.forwarded
  by_cases hsome : s.state.connection.isSome
  · simp only [if_pos hsome]
    exact SessionQueue.forwardedOf_detach _ _ _
  · simp only [if_neg hsome]

theorem dialogue_fail (s : WireServer) (sqlState message : JsString) :
    (s.fail sqlState message).dialogue = s.dialogue.fail := by
  unfold WireServer.fail Dialogue.fail
  by_cases hclosed : s.state.phase = .closed
  · rw [if_pos hclosed, if_pos (show s.dialogue.phase = .closed from hclosed)]
  · rw [if_neg hclosed, if_neg (show ¬s.dialogue.phase = .closed from hclosed)]
    unfold dialogue
    rw [forwarded_releaseConnection]
    rfl

theorem settled_fail (answers : Answers) (s : WireServer) (sqlState message : JsString) :
    (s.fail sqlState message).proceed.settled answers = s.dialogue.fail :=
  dialogue_fail s sqlState message

/-- Pausing and resuming is only seen by the socket. -/
theorem applyReadBackpressure_eq (s : WireServer) : ∃ isReadPaused socket,
    s.applyReadBackpressure =
      { s with state := { s.state with isReadPaused := isReadPaused }, socket := socket } := by
  unfold WireServer.applyReadBackpressure
  split
  · exact ⟨_, _, rfl⟩
  · split <;> exact ⟨_, _, rfl⟩

theorem dialogue_applyReadBackpressure (s : WireServer) :
    s.applyReadBackpressure.dialogue = s.dialogue := by
  obtain ⟨_, _, h⟩ := applyReadBackpressure_eq s
  rw [h]
  rfl

theorem pump_applyReadBackpressure (s : WireServer) : s.applyReadBackpressure.pump = s.pump := by
  obtain ⟨_, _, h⟩ := applyReadBackpressure_eq s
  rw [h]

theorem settled_stop (answers : Answers) (s : WireServer) :
    s.stop.settled answers = s.dialogue := by
  have hpump : s.stop.pump = .idle := pump_applyReadBackpressure _
  rw [settled, hpump]
  exact dialogue_applyReadBackpressure _

theorem settled_forward (answers : Answers) (s : WireServer) (bytes : List ℕ) :
    (s.forward bytes).settled answers = s.dialogue.forward answers bytes := by
  unfold WireServer.forward Dialogue.forward
  by_cases hsome : s.state.connection.isSome
  · have hforwarded := SessionQueue.forwardedOf_push_self s.queue s.state.id bytes
    rw [if_pos hsome, if_pos (show s.dialogue.connection.isSome = true from hsome)]
    show Dialogue.answered answers (dialogue _) = _
    unfold dialogue WireServer.forwarded
    rw [hforwarded]
  · rw [if_neg hsome, if_neg (show ¬s.dialogue.connection.isSome = true from hsome)]
    exact settled_fail answers s _ _

theorem settled_beginStreaming (answers : Answers) (s : WireServer) :
    s.beginStreaming.settled answers = s.dialogue.beginStreaming answers := by
  unfold WireServer.beginStreaming Dialogue.beginStreaming
  split
  · rename_i hpacket
    rw [show s.dialogue.startupPacket = none from hpacket]
    exact settled_fail answers s _ _
  · rename_i packet hpacket
    split
    · rename_i hnone
      cases hpacket.symm.trans hnone
    · rename_i packet' hpacket'
      obtain rfl : packet = packet' := Option.some.inj (hpacket.symm.trans hpacket')
      exact settled_forward answers _ _

theorem settled_resolved (s : WireServer) :
    (s.resolved answers.resolution).settled answers = s.dialogue.resolved answers := by
  unfold WireServer.resolved Dialogue.resolved
  cases answers.resolution with
  | allowed connection =>
    dsimp only
    split
    · rfl
    · exact settled_beginStreaming answers _
  | rejected sqlState message => exact settled_fail answers s _ _
  | thrown message =>
    exact (settled_stop answers _).trans (dialogue_fail s _ _)

theorem settled_handleStartupFrame (answers : Answers) (s : WireServer) (frame : List ℕ) :
    (s.handleStartupFrame frame).settled answers = s.dialogue.handleStartupFrame answers frame := by
  unfold WireServer.handleStartupFrame Dialogue.handleStartupFrame
  cases parseStartupPacket frame with
  | error message => exact settled_fail answers s _ _
  | ok packet =>
    cases packet with
    | sslRequest | gssencRequest | cancelRequest => rfl
    | startup protocolVersion parameters =>
      dsimp only
      unfold WireServer.handleStartup
      split
      · exact settled_fail answers s _ _
      · split
        · exact settled_fail answers s _ _
        · rfl

theorem settled_handlePasswordFrame (answers : Answers) (s : WireServer) (frame : List ℕ) :
    (s.handlePasswordFrame frame).settled answers =
      s.dialogue.handlePasswordFrame answers frame := by
  have hsame : s.dialogue.connection = s.state.connection := rfl
  unfold WireServer.handlePasswordFrame Dialogue.handlePasswordFrame
  rw [hsame]
  split
  · exact settled_fail answers s _ _
  · split
    · exact settled_fail answers s _ _
    · exact settled_beginStreaming answers s

theorem settled_handleNamespaced (answers : Answers) (s : WireServer) (namespaced : List ℕ) :
    (s.handleNamespaced namespaced).settled answers =
      s.dialogue.handleNamespaced answers namespaced := by
  have hbatch : (s.batch namespaced).dialogue = s.dialogue.batch namespaced := rfl
  unfold WireServer.handleNamespaced Dialogue.handleNamespaced
  split
  · rename_i hlong
    rw [if_pos (show _ < ((s.dialogue.batch namespaced).pendingBatch.map List.length).sum from hlong),
      ← hbatch]
    exact settled_fail answers _ _ _
  · rename_i hshort
    rw [if_neg (show ¬_ < ((s.dialogue.batch namespaced).pendingBatch.map List.length).sum
      from hshort)]
    split
    · exact hbatch
    · exact settled_forward answers _ _

/-- A handler does to the connection what it does to the one that gets its answers at once. -/
theorem settled_handleFrame (answers : Answers) (s : WireServer) (hopen : s.state.phase ≠ .closed)
    (frame : List ℕ) : (s.handleFrame frame).settled answers =
      s.dialogue.handleFrame answers s.state.connectionNamespace frame := by
  unfold WireServer.handleFrame Dialogue.handleFrame
  cases hphase : s.state.phase with
  | startup =>
    rw [show s.dialogue.phase = .startup from hphase]
    exact settled_handleStartupFrame answers s frame
  | password =>
    rw [show s.dialogue.phase = .password from hphase]
    exact settled_handlePasswordFrame answers s frame
  | closed => exact absurd hphase hopen
  | streaming =>
    rw [show s.dialogue.phase = .streaming from hphase]
    dsimp only
    split
    · show dialogue (releaseConnection _) = _
      unfold dialogue
      rw [forwarded_releaseConnection]
      rfl
    · exact settled_handleNamespaced answers s _

/-! ## What the handlers leave alone -/

/-- The loop has not ended; it waits for a release only of a closed connection. -/
def Ongoing (s : WireServer) : Prop :=
  match s.pump with
  | .idle => False
  | .releasing _ => s.state.phase = .closed
  | .running | .resolving | .forwarding _ => True

/-- A handler leaves the buffer and the name of the connection alone, and does not end the loop. -/
structure Handles (s s' : WireServer) : Prop where
  buffer : s'.state.buffer = s.state.buffer
  connectionNamespace : s'.state.connectionNamespace = s.state.connectionNamespace
  ongoing : s'.Ongoing

theorem handles_fail (s : WireServer) (sqlState message : JsString) :
    Handles s (s.fail sqlState message).proceed := by
  unfold WireServer.fail
  split <;> exact ⟨rfl, rfl, trivial⟩

theorem handles_forward (s : WireServer) (bytes : List ℕ) : Handles s (s.forward bytes) := by
  unfold WireServer.forward
  split
  · exact ⟨rfl, rfl, trivial⟩
  · exact handles_fail s _ _

theorem handles_beginStreaming (s : WireServer) : Handles s s.beginStreaming := by
  unfold WireServer.beginStreaming
  split
  · exact handles_fail s _ _
  · exact { handles_forward { s with state := { s.state with phase := .streaming } } _ with }

theorem handles_handleFrame (s : WireServer) (frame : List ℕ) :
    Handles s (s.handleFrame frame) := by
  unfold WireServer.handleFrame
  split
  · unfold WireServer.handleStartupFrame
    split
    · exact handles_fail s _ _
    · exact ⟨rfl, rfl, trivial⟩
    · exact ⟨rfl, rfl, trivial⟩
    · exact ⟨rfl, rfl, trivial⟩
    · unfold WireServer.handleStartup
      split
      · exact handles_fail s _ _
      · split
        · exact handles_fail s _ _
        · exact ⟨rfl, rfl, trivial⟩
  · unfold WireServer.handlePasswordFrame
    split
    · exact handles_fail s _ _
    · split
      · exact handles_fail s _ _
      · exact handles_beginStreaming s
  · split
    · exact ⟨rfl, rfl, rfl⟩
    · unfold WireServer.handleNamespaced
      split
      · exact { handles_fail (s.batch _) _ _ with }
      · split
        · exact ⟨rfl, rfl, trivial⟩
        · exact { handles_forward { s with state := { s.state with pendingBatch := [] } } _ with }

/-! ## Nothing is left over -/

/-- Once the loop has ended on an open connection, the socket is read and no frame is buffered. -/
def Rested (s : WireServer) : Prop :=
  s.pump = .idle → s.state.phase ≠ .closed →
    s.state.isReadPaused = false ∧ s.state.holdsCompleteFrame = false

theorem rested_stop (h : s.state.phase = .closed ∨ s.state.holdsCompleteFrame = false) :
    s.stop.Rested := by
  intro _ hopen
  unfold WireServer.stop WireServer.applyReadBackpressure at hopen ⊢
  split at hopen
  · exact absurd ‹_› hopen
  · rename_i hphase
    have hnone : s.state.holdsCompleteFrame = false := h.resolve_left hphase
    rw [if_neg hphase]
    simp only [hnone, Bool.and_false]
    cases hpaused : s.state.isReadPaused with
    | true => exact ⟨rfl, hnone⟩
    | false => exact ⟨hpaused, hnone⟩

theorem holdsCompleteFrame_of_none {s : ConnectionState} (h : s.takeNextFrame = .ok none) :
    s.holdsCompleteFrame = false := by
  unfold ConnectionState.takeNextFrame at h
  unfold ConnectionState.holdsCompleteFrame
  cases hlength : s.frameLengthAtHead with
  | none => rfl
  | some frameLength =>
    simp only [hlength] at h
    split at h
    · cases h
    · split at h
      · exact decide_eq_false (not_le.2 ‹_›)
      · cases h

theorem Ongoing.rested (h : s.Ongoing) : s.Rested := by
  intro hidle
  rw [Ongoing, hidle] at h
  exact h.elim

theorem phase_fail (s : WireServer) (sqlState message : JsString) :
    (s.fail sqlState message).state.phase = .closed := by
  unfold WireServer.fail
  split
  · exact ‹_›
  · rfl

theorem rested_turn (s : WireServer) : s.turn.Rested := by
  unfold WireServer.turn
  split
  · exact rested_stop (.inl ‹_›)
  · split
    · exact rested_stop (.inl (phase_fail s _ _))
    · exact rested_stop (.inr (holdsCompleteFrame_of_none ‹_›))
    · exact (handles_handleFrame _ _).ongoing.rested

/-! ## A turn of the loop -/

/-- The frame that a turn takes. -/
def frameTaken (s : WireServer) : Option (List ℕ) :=
  (cutFrame s.state.phase s.state.buffer).map Prod.fst

/-- What the loop and its handlers keep: the frames handled and what is buffered stand for the bytes
received. -/
structure InStep (answers : Answers) (id : JsString) (received : List ℕ)
    (frames : List (List ℕ)) (s : WireServer) : Prop where
  connectionNamespace : s.state.connectionNamespace = buildConnectionNamespace id
  ongoing : s.pump = .idle ∨ s.Ongoing
  follows : (dialogues answers (buildConnectionNamespace id)).Follows
    (WireServer.start id).dialogue received (s.settled answers) s.state.buffer frames

section Turn

variable {id : JsString} {received : List ℕ} {frames : List (List ℕ)}

theorem buffer_fail (s : WireServer) (sqlState message : JsString) :
    (s.fail sqlState message).state.buffer = s.state.buffer ∧
      (s.fail sqlState message).state.connectionNamespace = s.state.connectionNamespace := by
  unfold WireServer.fail
  split <;> exact ⟨rfl, rfl⟩

theorem state_applyReadBackpressure (s : WireServer) :
    s.applyReadBackpressure.state.buffer = s.state.buffer ∧
      s.applyReadBackpressure.state.connectionNamespace = s.state.connectionNamespace ∧
      s.applyReadBackpressure.state.phase = s.state.phase := by
  obtain ⟨_, _, h⟩ := applyReadBackpressure_eq s
  rw [h]
  exact ⟨rfl, rfl, rfl⟩

/-- The loop ends. -/
theorem inStep_stop (hnamespace : s.state.connectionNamespace = buildConnectionNamespace id)
    (h : (dialogues answers (buildConnectionNamespace id)).Follows (WireServer.start id).dialogue
      received s.dialogue s.state.buffer frames) : InStep answers id received frames s.stop := by
  obtain ⟨hbuffer, hsame, -⟩ := state_applyReadBackpressure { s with pump := .idle }
  refine ⟨hsame.trans hnamespace, .inl (pump_applyReadBackpressure _), ?_⟩
  rw [settled_stop, show s.stop.state.buffer = s.state.buffer from hbuffer]
  exact h

/-- A turn takes the frame at the head of the buffer, or ends the loop. -/
theorem inStep_turn (hnamespace : s.state.connectionNamespace = buildConnectionNamespace id)
    (h : (dialogues answers (buildConnectionNamespace id)).Follows (WireServer.start id).dialogue
      received s.dialogue s.state.buffer frames) :
    InStep answers id received (frames ++ s.frameTaken.toList) s.turn := by
  have hcut : cutFrame s.state.phase s.state.buffer = _ := cutFrame_eq s.state
  have hnone : cutFrame s.state.phase s.state.buffer = none →
      frames ++ s.frameTaken.toList = frames := by
    intro hnone
    rw [frameTaken, hnone, Option.map_none, Option.toList_none, List.append_nil]
  unfold WireServer.turn
  split
  · rename_i hclosed
    rw [if_pos hclosed] at hcut
    rw [hnone hcut]
    exact inStep_stop hnamespace h
  · rename_i hopen
    rw [if_neg hopen] at hcut
    split
    · rename_i message herror
      obtain ⟨hbuffer, hsame⟩ := buffer_fail s sqlstateProtocolViolation message
      have hphase := phase_fail s sqlstateProtocolViolation message
      rw [herror] at hcut
      rw [hnone hcut]
      refine inStep_stop (hsame.trans hnamespace) ?_
      rw [hbuffer]
      refine h.stuck (fun more => ?_) (fun more => if_pos hphase) ?_
      · have hmore : (s.state.receive more).takeNextFrame = .error message :=
          takeNextFrame_receive_error herror more
        have hcut' : cutFrame s.state.phase (s.state.buffer ++ more) = _ :=
          cutFrame_eq (s.state.receive more)
        rw [if_neg (show ¬(s.state.receive more).phase = .closed from hopen), hmore] at hcut'
        exact hcut'
      · rw [dialogue_fail]
        unfold Dialogue.fail
        split <;> rfl
    · rename_i hwait
      rw [hwait] at hcut
      rw [hnone hcut]
      exact inStep_stop hnamespace h
    · rename_i frame rest hsome
      rw [hsome] at hcut
      have hhandles := handles_handleFrame { s with state := { s.state with buffer := rest } } frame
      have hsettled := settled_handleFrame answers
        { s with state := { s.state with buffer := rest } } hopen frame
      rw [frameTaken, hcut, Option.map_some, Option.toList_some]
      refine ⟨hhandles.connectionNamespace.trans hnamespace, .inr hhandles.ongoing, ?_⟩
      rw [hsettled, hhandles.buffer]
      have hframe := h.frame hcut
      rw [← hnamespace] at hframe ⊢
      exact hframe

end Turn

/-! ## Runs -/

def receive (s : WireServer) (chunk : List ℕ) : WireServer :=
  { s with state := s.state.receive chunk }

/-- The frames that an event takes off the buffer. -/
def handled (s : WireServer) : WireEvent → List (List ℕ)
  | .turn => s.frameTaken.toList
  | .data chunk => if s.pump = .idle then (s.receive chunk).frameTaken.toList else []
  | _ => []

theorem data_eq (s : WireServer) (chunk : List ℕ) : s.data chunk =
    if s.pump = .idle then (s.receive chunk).applyReadBackpressure.turn
    else (s.receive chunk).applyReadBackpressure := rfl

theorem handled_data (s : WireServer) (chunk : List ℕ) : s.handled (.data chunk) =
    if s.pump = .idle then (s.receive chunk).frameTaken.toList else [] := rfl

end WireServer

/-- The bytes that an event delivers. -/
def WireEvent.chunk : WireEvent → List ℕ
  | .data chunk => chunk
  | _ => []

/-- The event is no close, and an answer is the one that is given. -/
def Answers.Give (answers : Answers) (s : WireServer) : WireEvent → Prop
  | .close => False
  | .resolved resolution => resolution = answers.resolution
  | .forwarded error => error.isSome = answers.fails (s.forwarded.length - 1)
  | _ => True

/-- A server with the bytes received and the frames handled so far. -/
structure Observed where
  server : WireServer
  received : List ℕ
  frames : List (List ℕ)

namespace Observed

def start (id : JsString) : Observed := ⟨.start id, [], []⟩

def next (o : Observed) (event : WireEvent) : Option Observed :=
  (o.server.step event).map fun server =>
    ⟨server, o.received ++ event.chunk, o.frames ++ o.server.handled event⟩

/-- A step under given answers. -/
def Steps (answers : Answers) (o : Observed) (event : WireEvent) (o' : Observed) : Prop :=
  o.next event = some o' ∧ o.server.rollsBack event = true ∧ answers.Give o.server event

end Observed

namespace WireServer

variable {s s' : WireServer} {answers : Answers} {id : JsString} {received : List ℕ}
  {frames : List (List ℕ)} {event : WireEvent}

theorem settled_of_eq (hpump : s'.pump = s.pump) (hdialogue : s'.dialogue = s.dialogue) :
    s'.settled answers = s.settled answers := by
  rw [settled, settled, hpump, hdialogue]

theorem Ongoing.of_eq (h : s.pump = .idle ∨ s.Ongoing) (hpump : s'.pump = s.pump)
    (hphase : s'.state.phase = s.state.phase) : s'.pump = .idle ∨ s'.Ongoing := by
  rw [Ongoing, hpump, hphase]
  exact h

/-- A handler goes on, as the connection with all answers did. -/
theorem InStep.handles (h : InStep answers id received frames s) (hhandles : Handles s s')
    (hsettled : s'.settled answers = s.settled answers) : InStep answers id received frames s' := by
  refine ⟨hhandles.connectionNamespace.trans h.connectionNamespace, .inr hhandles.ongoing, ?_⟩
  rw [hsettled, hhandles.buffer]
  exact h.follows

theorem InStep.data (h : InStep answers id received frames s) (chunk : List ℕ) :
    InStep answers id (received ++ chunk) (frames ++ s.handled (.data chunk)) (s.data chunk) := by
  have hfollows := h.follows.receive chunk
  obtain ⟨hbuffer, hnamespace, hphase⟩ := state_applyReadBackpressure (s.receive chunk)
  have hdialogue := dialogue_applyReadBackpressure (s.receive chunk)
  have hpump := pump_applyReadBackpressure (s.receive chunk)
  rw [data_eq, handled_data]
  by_cases hidle : s.pump = .idle
  · rw [if_pos hidle, if_pos hidle]
    have htaken : (s.receive chunk).frameTaken =
        (s.receive chunk).applyReadBackpressure.frameTaken := by
      rw [frameTaken, frameTaken, hphase, hbuffer]
    rw [htaken]
    refine inStep_turn (hnamespace.trans h.connectionNamespace) ?_
    rw [hbuffer, hdialogue]
    rw [settled, hidle] at hfollows
    exact hfollows
  · rw [if_neg hidle, if_neg hidle, List.append_nil]
    refine ⟨hnamespace.trans h.connectionNamespace, Ongoing.of_eq h.ongoing hpump hphase, ?_⟩
    rw [settled_of_eq hpump hdialogue, hbuffer]
    exact hfollows

theorem handles_resolved (s : WireServer) {resolution : ConnectionResolution}
    (h : ∀ message, resolution ≠ .thrown message) : Handles s (s.resolved resolution) := by
  cases resolution with
  | allowed connection =>
    unfold WireServer.resolved
    dsimp only
    split
    · exact ⟨rfl, rfl, trivial⟩
    · exact { handles_beginStreaming { s with state := { s.state with
        connection := some connection } } with }
  | rejected sqlState message => exact handles_fail s _ _
  | thrown message => exact absurd rfl (h message)

theorem InStep.resolved (h : InStep answers id received frames s) (hpump : s.pump = .resolving) :
    InStep answers id received frames (s.resolved answers.resolution) := by
  have hsettled : (s.resolved answers.resolution).settled answers = s.settled answers := by
    rw [settled_resolved, settled, hpump]
  cases hthrown : answers.resolution with
  | allowed connection | rejected sqlState message =>
    rw [hthrown] at hsettled
    exact h.handles (handles_resolved s fun _ => ConnectionResolution.noConfusion) hsettled
  | thrown message =>
    rw [hthrown] at hsettled
    obtain ⟨hbuffer, hsame⟩ := buffer_fail s sqlstateInternalError message
    refine inStep_stop (hsame.trans h.connectionNamespace) ?_
    have hstop : (s.resolved (.thrown message)).settled answers =
        (s.fail sqlstateInternalError message).dialogue := settled_stop answers _
    rw [hbuffer, ← hstop, hsettled]
    exact h.follows

/-- An event that delivers nothing and takes no frame. -/
theorem InStep.quiet (h : InStep answers id received frames s') (hchunk : event.chunk = [])
    (hhandled : s.handled event = []) :
    InStep answers id (received ++ event.chunk) (frames ++ s.handled event) s' := by
  rw [hchunk, hhandled, List.append_nil, List.append_nil]
  exact h

/-- **The step lemma.** -/
theorem InStep.step (h : InStep answers id received frames s) (hstep : s.step event = some s')
    (hgive : answers.Give s event) :
    InStep answers id (received ++ event.chunk) (frames ++ s.handled event) s' := by
  cases reacts_of_step hstep with
  | data chunk => exact h.data chunk
  | close => exact hgive.elim
  | turn hrunning =>
    have hfollows := h.follows
    rw [settled, hrunning] at hfollows
    have hchunk : WireEvent.turn.chunk = [] := rfl
    rw [hchunk, List.append_nil]
    exact inStep_turn h.connectionNamespace hfollows
  | resolved hpump resolution =>
    obtain rfl : resolution = answers.resolution := hgive
    exact InStep.quiet (h.resolved hpump) rfl rfl
  | forwarded hpump =>
    have hfails : false = answers.fails (s.dialogue.forwarded.length - 1) := hgive
    have hsettled : s.settled answers = s.dialogue.answered answers := by rw [settled, hpump]
    rw [Dialogue.answered, ← hfails] at hsettled
    exact InStep.quiet (h.handles ⟨rfl, rfl, trivial⟩ hsettled.symm) rfl rfl
  | forwardFailed hpump message =>
    have hfails : true = answers.fails (s.dialogue.forwarded.length - 1) := hgive
    have hsettled : s.settled answers = s.dialogue.answered answers := by rw [settled, hpump]
    rw [Dialogue.answered, ← hfails] at hsettled
    refine InStep.quiet (h.handles (handles_fail s _ _) ?_) rfl rfl
    rw [settled_fail]
    exact hsettled.symm
  | released hpump =>
    have hsettled : s.settled answers = s.dialogue := by rw [settled, hpump]
    exact InStep.quiet (h.handles ⟨rfl, rfl, trivial⟩ hsettled.symm) rfl rfl
  | releaseFailed hpump message =>
    have hsettled : s.settled answers = s.dialogue := by rw [settled, hpump]
    have hclosed : s.state.phase = .closed := by
      rcases h.ongoing with hidle | hongoing
      · cases hpump.symm.trans hidle
      · rwa [Ongoing, hpump] at hongoing
    -- the connection is closed before the loop waits for the release
    have hsame : s.fail sqlstateInternalError message = s := if_pos hclosed
    rw [hsame]
    refine InStep.quiet (inStep_stop h.connectionNamespace ?_) rfl rfl
    rw [← hsettled]
    exact h.follows
  | response bytes =>
    refine InStep.quiet ?_ rfl rfl
    split
    · exact h
    · exact { h with }
  | @queue inner queue hforeign hqueue =>
    have hforwarded := SessionQueue.forwardedOf_step hforeign hqueue
    have hdialogue : ({ s with queue := queue } : WireServer).dialogue = s.dialogue := by
      unfold dialogue WireServer.forwarded
      rw [hforwarded]
    have hsettled : ({ s with queue := queue } : WireServer).settled answers =
        s.settled answers := settled_of_eq rfl hdialogue
    refine InStep.quiet ⟨h.connectionNamespace, h.ongoing, ?_⟩ rfl rfl
    rw [hsettled]
    exact h.follows

theorem rested_step (h : s.Rested) (hstep : s.step event = some s') : s'.Rested := by
  cases reacts_of_step hstep with
  | data chunk =>
    rw [data_eq]
    split
    · exact rested_turn _
    · rename_i hbusy
      intro hidle
      exact absurd ((pump_applyReadBackpressure (s.receive chunk)).symm.trans hidle) hbusy
  | close => exact fun _ hopen => absurd rfl hopen
  | turn => exact rested_turn s
  | resolved hpump resolution =>
    cases resolution with
    | thrown message => exact rested_stop (.inl (phase_fail s _ _))
    | allowed connection | rejected sqlState message =>
      exact (handles_resolved s fun _ => ConnectionResolution.noConfusion).ongoing.rested
  | forwarded | forwardFailed | released => exact fun hidle => nomatch hidle
  | releaseFailed => exact rested_stop (.inl (phase_fail s _ _))
  | response bytes => split <;> exact h
  | queue => exact h

theorem rested_of_run {events : List WireEvent} (hrun : Run Steps (start id) events s) :
    s.Rested := by
  have hstep : ∀ s event s', True → Steps s event s' → s.Rested → s'.Rested :=
    fun _ _ _ _ hstep h => rested_step h hstep.1
  exact hrun.invariant hstep (fun _ _ => trivial) fun _ _ => ⟨rfl, rfl⟩

theorem inStep_of_run {events : List WireEvent} {o : Observed}
    (hrun : Run (Observed.Steps answers) (.start id) events o) :
    InStep answers id o.received o.frames o.server := by
  have hstart : InStep answers id [] [] (WireServer.start id) :=
    ⟨rfl, .inl rfl, Framing.Follows.start _ _⟩
  have hstep : ∀ o event o', True → Observed.Steps answers o event o' →
      InStep answers id o.received o.frames o.server →
      InStep answers id o'.received o'.frames o'.server := by
    intro o event o' _ hstep h
    obtain ⟨server, hserver, rfl⟩ := Option.map_eq_some_iff.1 hstep.1
    exact h.step hserver hstep.2.2
  have hend := hrun.invariant hstep (fun _ _ => trivial) hstart
  exact hend

theorem cutFrame_eq_none {s : ConnectionState} (h : s.holdsCompleteFrame = false) :
    cutFrame s.phase s.buffer = none := by
  have hcut := cutFrame_eq s
  split at hcut
  · exact hcut
  · split at hcut
    · rename_i found hfound
      cases found with
      | none => exact hcut
      | some found =>
        obtain ⟨frameLength, hlength, -, hthere, -⟩ := takeNextFrame_eq_some hfound
        rw [ConnectionState.holdsCompleteFrame, hlength] at h
        exact absurd hthere (of_decide_eq_false h)
    · exact hcut

theorem run_server {events : List WireEvent} {o o' : Observed}
    (hrun : Run (Observed.Steps answers) o events o') : Run Steps o.server events o'.server := by
  induction hrun with
  | refl => exact .refl _
  | head hstep _ ih =>
    obtain ⟨server, hserver, rfl⟩ := Option.map_eq_some_iff.1 hstep.1
    exact .head ⟨hserver, hstep.2.1⟩ ih

/-- Once the loop is idle, the frames handled and the messages forwarded are those of the bytes
received, all at once and with all answers. -/
theorem served_of_run {events : List WireEvent} {o : Observed}
    (hrun : Run (Observed.Steps answers) (.start id) events o) (hidle : o.server.pump = .idle) :
    (dialogues answers (buildConnectionNamespace id)).serve (WireServer.start id).dialogue
      o.received = (o.frames, o.server.forwarded) := by
  have hfollows := (inStep_of_run hrun).follows
  rw [settled, hidle] at hfollows
  refine hfollows.served ?_
  show cutFrame o.server.state.phase o.server.state.buffer = none
  by_cases hclosed : o.server.state.phase = .closed
  · exact if_pos hclosed
  · exact cutFrame_eq_none (rested_of_run (run_server hrun) hidle hclosed).2

/-- **Chunk independence and no stall.** Two runs of a connection that receive the same bytes and get
the same answers, however the bytes are split and whenever they arrive, have handled the same frames
and forwarded the same messages once their loops are idle. Whenever the loop of an open connection is
idle, reads are not paused and the buffer holds no complete frame. -/
theorem chunk_independence (id : JsString) :
    (∀ (answers : Answers) (events events' : List WireEvent) (o o' : Observed),
      Run (Observed.Steps answers) (.start id) events o →
      Run (Observed.Steps answers) (.start id) events' o' →
      o'.received = o.received → o.server.pump = .idle → o'.server.pump = .idle →
      o'.frames = o.frames ∧ o'.server.forwarded = o.server.forwarded) ∧
    ∀ (events : List WireEvent) (s : WireServer), Run Steps (start id) events s →
      s.pump = .idle → s.state.phase ≠ .closed →
      s.state.isReadPaused = false ∧ s.state.holdsCompleteFrame = false := by
  refine ⟨fun answers events events' o o' hrun hrun' hreceived hidle hidle' => ?_,
    fun events s hrun => rested_of_run hrun⟩
  have hserved := served_of_run hrun hidle
  have hserved' := served_of_run hrun' hidle'
  rw [hreceived] at hserved'
  exact Prod.mk.inj (hserved'.symm.trans hserved)

/-! ## Sample runs -/

instance (answers : Answers) (s : WireServer) : ∀ event, Decidable (answers.Give s event)
  | .close => .isFalse not_false
  | .resolved resolution => inferInstanceAs (Decidable (resolution = answers.resolution))
  | .forwarded error =>
      inferInstanceAs (Decidable (error.isSome = answers.fails (s.forwarded.length - 1)))
  | .data _ | .turn | .released _ | .response _ | .queue _ => .isTrue trivial

/-- The user needs no password, and the backend rejects nothing. -/
def sampleAnswers : Answers := ⟨.allowed ⟨[], false⟩, fun _ => false⟩

def backendAnswers : List WireEvent :=
  [.queue (.execute true false false), .queue .finish, .queue .next, .forwarded none, .turn]

def atOnce : List WireEvent :=
  .data (startupOfA ++ beginQuery) :: .resolved sampleAnswers.resolution :: backendAnswers ++
    backendAnswers

/-- The startup packet comes in two pieces, and so does the query, around the answer to the first. -/
def inPieces : List WireEvent :=
  [.data (startupOfA.take 3), .data (startupOfA.drop 3), .data (beginQuery.take 2),
    .resolved sampleAnswers.resolution] ++ backendAnswers ++ .data (beginQuery.drop 2) ::
    backendAnswers

theorem exists_observed {Allowed : Observed → WireEvent → Prop} [∀ o event, Decidable (Allowed o event)]
    {o₀ : Observed} {events : List WireEvent} {test : Observed → Bool}
    (h : (events.foldlM (fun o event => if Allowed o event then o.next event else none) o₀).any
      test = true) :
    ∃ o, Run (fun o event o' => o.next event = some o' ∧ Allowed o event) o₀ events o ∧
      test o = true := by
  obtain ⟨o, hrun, htest⟩ := Run.exists_of_foldlM h
  refine ⟨o, hrun.mono fun event _ o o' hstep => ?_, htest⟩
  split at hstep
  · exact ⟨hstep, ‹_›⟩
  · cases hstep

theorem chunk_independence_pieces : ∃ o o',
    Run (Observed.Steps sampleAnswers) (.start "conn-1") atOnce o ∧
      Run (Observed.Steps sampleAnswers) (.start "conn-1") inPieces o' ∧
      o.frames = [startupOfA, beginQuery] ∧
      (o'.frames = o.frames ∧ o'.server.forwarded = o.server.forwarded) ∧
      o'.server.state.isReadPaused = false ∧ o'.server.state.holdsCompleteFrame = false := by
  obtain ⟨o, hrun, htest⟩ : ∃ o, Run (Observed.Steps sampleAnswers) (.start "conn-1") atOnce o ∧
      (decide (o.server.pump = .idle) && decide (o.frames = [startupOfA, beginQuery]) &&
        decide (o.received = startupOfA ++ beginQuery)) = true :=
    exists_observed (by decide +kernel)
  obtain ⟨o', hrun', htest'⟩ : ∃ o',
      Run (Observed.Steps sampleAnswers) (.start "conn-1") inPieces o' ∧
      (decide (o'.server.pump = .idle) && decide (o'.server.state.phase ≠ .closed) &&
        decide (o'.received = startupOfA ++ beginQuery)) = true :=
    exists_observed (by decide +kernel)
  simp only [Bool.and_eq_true, decide_eq_true_eq] at htest htest'
  obtain ⟨⟨hidle, hframes⟩, hreceived⟩ := htest
  obtain ⟨⟨hidle', hopen⟩, hreceived'⟩ := htest'
  have hserver : Run Steps (start "conn-1") inPieces o'.server := run_server hrun'
  exact ⟨o, o', hrun, hrun', hframes,
    (chunk_independence "conn-1").1 sampleAnswers atOnce inPieces o o' hrun hrun'
      (hreceived'.trans hreceived.symm) hidle hidle',
    (chunk_independence "conn-1").2 inPieces o'.server hserver hidle' hopen⟩

end WireServer

end Kinglet.Postgres
