import Kinglet.Postgres.ChunkIndependence

/-!
# The gate before the backend

A connection forwards nothing before it streams. It streams once its startup packet was resolved to a
user who may log in, and who has no password or sent it in a frame. A startup or a password that is
refused closes the connection, and a connection that has ended stays so. The database and the user of
the startup packet are resolved by a callback, of which it only matters what it answers to them.
-/

namespace Kinglet.Postgres

open Js Library

/-! ## Who may pass -/

/-- One of the frames is a startup packet that names the user and the database. -/
def Introduces (frames : List (List ℕ)) (database user : JsString) : Prop :=
  ∃ frame ∈ frames, ∃ parameters, parseStartupPacket frame =
      .ok (.startup protocolVersion30 parameters) ∧
    user = (parameters.lookup (js "user")).getD [] ∧ user ≠ [] ∧
    database = (parameters.lookup (js "database")).getD user

/-- One of the frames is a password frame with the password. -/
def SuppliesPassword (frames : List (List ℕ)) (password : JsString) : Prop :=
  ∃ frame ∈ frames, frame.headD 0 = passwordMessageTag ∧
    WireServer.suppliedPassword frame = password

/-- `resolveConnection` may answer a database and a user with a resolution. -/
abbrev Resolves := JsString → JsString → ConnectionResolution → Prop

/-- The frames introduce a user who may log in, and who has no password or supplied it. -/
def Authenticated (resolves : Resolves) (frames : List (List ℕ)) : Prop :=
  ∃ database user connection, Introduces frames database user ∧
    resolves database user (.allowed connection) ∧ connection.loginDisabled = false ∧
    (connection.password = [] ∨ SuppliesPassword frames connection.password)

theorem Introduces.mono {frames : List (List ℕ)} {database user : JsString}
    (h : Introduces frames database user) (more : List (List ℕ)) :
    Introduces (frames ++ more) database user := by
  obtain ⟨frame, hframe, hstartup⟩ := h
  exact ⟨frame, List.mem_append_left _ hframe, hstartup⟩

theorem Authenticated.mono {resolves : Resolves} {frames : List (List ℕ)}
    (h : Authenticated resolves frames) (more : List (List ℕ)) :
    Authenticated resolves (frames ++ more) := by
  obtain ⟨database, user, connection, hstartup, hresolves, hlogin, hpassword⟩ := h
  refine ⟨database, user, connection, hstartup.mono more, hresolves, hlogin, ?_⟩
  rcases hpassword with hnone | ⟨frame, hframe, hsupplied⟩
  · exact .inl hnone
  · exact .inr ⟨frame, List.mem_append_left _ hframe, hsupplied⟩

namespace WireServer

variable {s s' : WireServer} {resolves : Resolves} {frames : List (List ℕ)} {event : WireEvent}

/-- What holds in the phases: nothing is forwarded before the gate. -/
def PhaseGated (resolves : Resolves) (frames : List (List ℕ)) (s : WireServer) : Prop :=
  match s.state.phase with
  | .startup => s.forwarded = []
  | .password => s.forwarded = [] ∧ Introduces frames s.state.database s.state.user ∧
      ∃ connection, s.state.connection = some connection ∧
        resolves s.state.database s.state.user (.allowed connection)
  | .streaming => Authenticated resolves frames
  | .closed => True

structure Gated (resolves : Resolves) (frames : List (List ℕ)) (s : WireServer) : Prop where
  sent : s.forwarded = [] ∨ Authenticated resolves frames
  resolving : s.pump = .resolving →
    s.forwarded = [] ∧ Introduces frames s.state.database s.state.user
  phase : PhaseGated resolves frames s

theorem Gated.mono (h : Gated resolves frames s) (more : List (List ℕ)) :
    Gated resolves (frames ++ more) s := by
  refine ⟨h.sent.imp_right (·.mono more), fun hpump => ?_, ?_⟩
  · exact ⟨(h.resolving hpump).1, (h.resolving hpump).2.mono more⟩
  · have hphase := h.phase
    unfold PhaseGated at hphase ⊢
    split at hphase
    · exact hphase
    · exact ⟨hphase.1, hphase.2.1.mono more, hphase.2.2⟩
    · exact hphase.mono more
    · trivial

/-- A closed connection that nothing takes back to life. -/
theorem gated_of_closed (hsent : s.forwarded = [] ∨ Authenticated resolves frames)
    (hpump : s.pump ≠ .resolving) (hclosed : s.state.phase = .closed) :
    Gated resolves frames s := by
  refine ⟨hsent, fun hresolving => absurd hresolving hpump, ?_⟩
  rw [PhaseGated, hclosed]
  trivial

theorem forwarded_fail (s : WireServer) (sqlState message : JsString) :
    (s.fail sqlState message).forwarded = s.forwarded := by
  have hforwarded : (s.fail sqlState message).forwarded = s.dialogue.fail.forwarded :=
    congrArg Dialogue.forwarded (dialogue_fail s sqlState message)
  rw [hforwarded, Dialogue.fail]
  split <;> rfl

theorem gated_fail (hsent : s.forwarded = [] ∨ Authenticated resolves frames)
    (sqlState message : JsString) : Gated resolves frames (s.fail sqlState message).proceed := by
  refine gated_of_closed ?_ Pump.noConfusion (phase_fail s sqlState message)
  rw [show (s.fail sqlState message).proceed.forwarded = s.forwarded from forwarded_fail s _ _]
  exact hsent

theorem gated_stop (hsent : s.forwarded = [] ∨ Authenticated resolves frames)
    (hphase : PhaseGated resolves frames s) : Gated resolves frames s.stop := by
  obtain ⟨_, _, h⟩ := applyReadBackpressure_eq { s with pump := .idle }
  rw [show s.stop = _ from h]
  exact ⟨hsent, Pump.noConfusion, hphase⟩

theorem gated_fail_stop (hsent : s.forwarded = [] ∨ Authenticated resolves frames)
    (sqlState message : JsString) : Gated resolves frames (s.fail sqlState message).stop := by
  have hfail : Gated resolves frames (s.fail sqlState message).proceed := gated_fail hsent _ _
  exact gated_stop hfail.sent hfail.phase

/-- An authenticated connection may forward what it likes. -/
theorem gated_forward (h : Authenticated resolves frames) (hphase : s.state.phase = .streaming)
    (bytes : List ℕ) : Gated resolves frames (s.forward bytes) := by
  unfold WireServer.forward
  split
  · refine ⟨.inr h, Pump.noConfusion, ?_⟩
    show PhaseGated resolves frames { s with queue := _, pump := _ }
    rw [PhaseGated, show s.state.phase = .streaming from hphase]
    exact h
  · exact gated_fail (.inr h) _ _

theorem gated_beginStreaming (h : Authenticated resolves frames) :
    Gated resolves frames s.beginStreaming := by
  unfold WireServer.beginStreaming
  split
  · exact gated_fail (.inr h) _ _
  · exact gated_forward h rfl _

/-! ## The handlers -/

theorem phaseGated_startup (hphase : s.state.phase = .startup) (hsent : s.forwarded = []) :
    PhaseGated resolves frames s := by
  rw [PhaseGated, hphase]
  exact hsent

theorem gated_handleStartupFrame (hphase : s.state.phase = .startup) (hsent : s.forwarded = [])
    (frame : List ℕ) : Gated resolves (frames ++ [frame]) (s.handleStartupFrame frame) := by
  unfold WireServer.handleStartupFrame
  split
  · exact gated_fail (.inl hsent) _ _
  · exact ⟨.inl hsent, Pump.noConfusion, phaseGated_startup hphase hsent⟩
  · exact ⟨.inl hsent, Pump.noConfusion, phaseGated_startup hphase hsent⟩
  · exact gated_of_closed (.inl hsent) Pump.noConfusion rfl
  · rename_i protocolVersion parameters hparse
    unfold WireServer.handleStartup
    split
    · exact gated_fail (.inl hsent) _ _
    · rename_i hversion
      split
      · exact gated_fail (.inl hsent) _ _
      · rename_i huser
        obtain rfl : protocolVersion = protocolVersion30 := not_not.1 hversion
        refine ⟨.inl hsent, fun _ => ⟨hsent, frame, ?_, parameters, hparse, rfl, huser, rfl⟩,
          phaseGated_startup hphase hsent⟩
        exact List.mem_append_right _ List.mem_cons_self

theorem gated_handlePasswordFrame (h : Gated resolves frames s)
    (hphase : s.state.phase = .password) (frame : List ℕ) :
    Gated resolves (frames ++ [frame]) (s.handlePasswordFrame frame) := by
  have hgated := h.phase
  rw [PhaseGated, hphase] at hgated
  obtain ⟨hsent, hstartup, connection, hconnection, hresolves⟩ := hgated
  unfold WireServer.handlePasswordFrame
  split
  · exact gated_fail (.inl hsent) _ _
  · rename_i htag
    split
    · exact gated_fail (.inl hsent) _ _
    · rename_i hright
      rw [hconnection] at hright
      obtain ⟨hlogin, hpassword⟩ := not_or.1 hright
      refine gated_beginStreaming ⟨_, _, connection, hstartup.mono [frame], hresolves,
        Bool.not_eq_true _ ▸ hlogin, .inr ⟨frame, ?_, not_not.1 htag, ?_⟩⟩
      · exact List.mem_append_right _ List.mem_cons_self
      · exact Option.some.inj (not_not.1 hpassword)

theorem gated_handleNamespaced (h : Authenticated resolves frames)
    (hphase : s.state.phase = .streaming) (namespaced : List ℕ) :
    Gated resolves frames (s.handleNamespaced namespaced) := by
  unfold WireServer.handleNamespaced
  split
  · exact gated_fail (.inr h) _ _
  · split
    · refine ⟨.inr h, Pump.noConfusion, ?_⟩
      show PhaseGated resolves frames { s.batch namespaced with pump := .running }
      rw [PhaseGated, show (s.batch namespaced).state.phase = .streaming from hphase]
      exact h
    · exact gated_forward (s := { s with state := { s.state with pendingBatch := [] } }) h hphase _

theorem gated_handleFrame (h : Gated resolves frames s) (hopen : s.state.phase ≠ .closed)
    (frame : List ℕ) : Gated resolves (frames ++ [frame]) (s.handleFrame frame) := by
  have hgated := h.phase
  unfold WireServer.handleFrame
  cases hphase : s.state.phase with
  | startup =>
    rw [PhaseGated, hphase] at hgated
    exact gated_handleStartupFrame hphase hgated frame
  | password => exact gated_handlePasswordFrame h hphase frame
  | closed => exact absurd hphase hopen
  | streaming =>
    rw [PhaseGated, hphase] at hgated
    have hmore := hgated.mono [frame]
    dsimp only
    split
    · exact gated_of_closed (.inr hmore) Pump.noConfusion rfl
    · exact gated_handleNamespaced hmore hphase _

theorem gated_turn (h : Gated resolves frames s) :
    Gated resolves (frames ++ s.frameTaken.toList) s.turn := by
  have hcut : cutFrame s.state.phase s.state.buffer = _ := cutFrame_eq s.state
  have hmore := h.mono s.frameTaken.toList
  unfold WireServer.turn
  split
  · exact gated_stop hmore.sent hmore.phase
  · rename_i hopen
    split
    · exact gated_fail_stop hmore.sent _ _
    · exact gated_stop hmore.sent hmore.phase
    · rename_i frame rest hsome
      rw [if_neg hopen, hsome] at hcut
      rw [frameTaken, hcut, Option.map_some, Option.toList_some]
      exact gated_handleFrame (s := { s with state := { s.state with buffer := rest } })
        ⟨h.sent, h.resolving, h.phase⟩ hopen frame

theorem gated_data (h : Gated resolves frames s) (chunk : List ℕ) :
    Gated resolves (frames ++ s.handled (.data chunk)) (s.data chunk) := by
  obtain ⟨_, _, hreceived⟩ := applyReadBackpressure_eq (s.receive chunk)
  have hgated : Gated resolves frames (s.receive chunk).applyReadBackpressure := by
    rw [hreceived]
    exact ⟨h.sent, h.resolving, h.phase⟩
  have htaken : (s.receive chunk).applyReadBackpressure.frameTaken =
      (s.receive chunk).frameTaken := by
    rw [hreceived]
    rfl
  rw [data_eq, handled_data]
  split
  · rw [← htaken]
    exact gated_turn hgated
  · exact hgated.mono []

theorem gated_resolved (h : Gated resolves frames s) (hpump : s.pump = .resolving)
    {resolution : ConnectionResolution}
    (hresolves : resolves s.state.database s.state.user resolution) :
    Gated resolves frames (s.resolved resolution) := by
  obtain ⟨hsent, hstartup⟩ := h.resolving hpump
  cases resolution with
  | allowed connection =>
    unfold WireServer.resolved
    dsimp only
    split
    · exact ⟨.inl hsent, Pump.noConfusion, hsent, hstartup, connection, rfl, hresolves⟩
    · rename_i hfree
      obtain ⟨hlogin, hpassword⟩ := not_or.1 hfree
      exact gated_beginStreaming ⟨_, _, connection, hstartup, hresolves,
        Bool.not_eq_true _ ▸ hlogin, .inl (not_not.1 hpassword)⟩
  | rejected sqlState message => exact gated_fail h.sent _ _
  | thrown message => exact gated_fail_stop h.sent _ _

/-! ## Steps -/

/-- The resolution is what `resolveConnection` may answer to the database and the user. -/
def Asks (resolves : Resolves) (s : WireServer) : WireEvent → Prop
  | .resolved resolution => resolves s.state.database s.state.user resolution
  | _ => True

/-- **The step lemma.** -/
theorem gated_step (h : Gated resolves frames s) (hstep : s.step event = some s')
    (hasks : s.Asks resolves event) : Gated resolves (frames ++ s.handled event) s' := by
  have hmore := h.mono (s.handled event)
  cases reacts_of_step hstep with
  | data chunk => exact gated_data h chunk
  | close =>
    have hsent := hmore.sent
    rw [← forwarded_releaseConnection] at hsent
    refine ⟨hsent, fun hpump => ?_, trivial⟩
    rw [forwarded_releaseConnection]
    exact hmore.resolving hpump
  | turn => exact gated_turn h
  | resolved hpump resolution => exact gated_resolved hmore hpump hasks
  | forwarded | released => exact ⟨hmore.sent, Pump.noConfusion, hmore.phase⟩
  | forwardFailed => exact gated_fail hmore.sent _ _
  | releaseFailed => exact gated_fail_stop hmore.sent _ _
  | response bytes =>
    split
    · exact hmore
    · exact ⟨hmore.sent, hmore.resolving, hmore.phase⟩
  | @queue inner queue hforeign hqueue =>
    have hsame : ({ s with queue := queue } : WireServer).forwarded = s.forwarded :=
      SessionQueue.forwardedOf_step hforeign hqueue
    refine ⟨hsame ▸ hmore.sent, fun hpump => hsame ▸ hmore.resolving hpump, ?_⟩
    have hphase := hmore.phase
    unfold PhaseGated at hphase ⊢
    rw [hsame]
    exact hphase

/-! ## Refusals -/

/-- The packet is malformed, of another protocol, or names no user. -/
def RefusedStartup (frame : List ℕ) : Prop :=
  match parseStartupPacket frame with
  | .error _ => True
  | .ok (.startup protocolVersion parameters) =>
      protocolVersion ≠ protocolVersion30 ∨ (parameters.lookup (js "user")).getD [] = []
  | .ok _ => False

/-- The frame is no password frame, or has not the password of a user who may log in. -/
def RefusedPassword (connection : Option ResolvedConnection) (frame : List ℕ) : Prop :=
  frame.headD 0 ≠ passwordMessageTag ∨ connection.any ResolvedConnection.loginDisabled = true ∨
    some (suppliedPassword frame) ≠ connection.map ResolvedConnection.password

/-- The frame at the head of the buffer has an invalid length, or is a startup packet or a password
that is refused. -/
def RefusesFrame (s : WireServer) : Prop :=
  match s.state.phase, s.state.takeNextFrame with
  | .startup, .error _ | .password, .error _ => True
  | .startup, .ok (some (frame, _)) => RefusedStartup frame
  | .password, .ok (some (frame, _)) => RefusedPassword s.state.connection frame
  | _, _ => False

/-- The event refuses a startup or a password. -/
def Refuses (s : WireServer) : WireEvent → Prop
  | .turn => s.RefusesFrame
  | .data chunk => s.pump = .idle ∧ (s.receive chunk).RefusesFrame
  | .resolved (.rejected _ _) | .resolved (.thrown _) => True
  | _ => False

/-- The connection has ended with nothing forwarded. -/
structure Ended (s : WireServer) : Prop where
  phase : s.state.phase = .closed
  pump : s.pump ≠ .resolving
  forwarded : s.forwarded = []

theorem ended_fail (hsent : s.forwarded = []) (sqlState message : JsString) :
    Ended (s.fail sqlState message).proceed :=
  ⟨phase_fail s sqlState message, Pump.noConfusion, (forwarded_fail s sqlState message).trans hsent⟩

theorem ended_stop (hclosed : s.state.phase = .closed) (hsent : s.forwarded = []) :
    Ended s.stop := by
  obtain ⟨_, _, h⟩ := applyReadBackpressure_eq { s with pump := .idle }
  rw [show s.stop = _ from h]
  exact ⟨hclosed, Pump.noConfusion, hsent⟩

theorem ended_fail_stop (hsent : s.forwarded = []) (sqlState message : JsString) :
    Ended (s.fail sqlState message).stop :=
  ended_stop (phase_fail s sqlState message) ((forwarded_fail s sqlState message).trans hsent)

theorem ended_turn_of_closed (hclosed : s.state.phase = .closed) (hsent : s.forwarded = []) :
    Ended s.turn := by
  have hturn : s.turn = s.stop := if_pos hclosed
  rw [hturn]
  exact ended_stop hclosed hsent

theorem ended_handleStartupFrame (hsent : s.forwarded = []) {frame : List ℕ}
    (hrefused : RefusedStartup frame) : Ended (s.handleStartupFrame frame) := by
  unfold RefusedStartup at hrefused
  unfold WireServer.handleStartupFrame
  split
  · exact ended_fail hsent _ _
  · rename_i hparse
    rw [hparse] at hrefused
    exact hrefused.elim
  · rename_i hparse
    rw [hparse] at hrefused
    exact hrefused.elim
  · rename_i hparse
    rw [hparse] at hrefused
    exact hrefused.elim
  · rename_i hparse
    rw [hparse] at hrefused
    unfold WireServer.handleStartup
    split
    · exact ended_fail hsent _ _
    · rw [if_pos (hrefused.resolve_left ‹_›)]
      exact ended_fail hsent _ _

theorem ended_handlePasswordFrame (hsent : s.forwarded = []) {frame : List ℕ}
    (hrefused : RefusedPassword s.state.connection frame) : Ended (s.handlePasswordFrame frame) := by
  unfold WireServer.handlePasswordFrame
  split
  · exact ended_fail hsent _ _
  · rw [if_pos (hrefused.resolve_left ‹_›)]
    exact ended_fail hsent _ _

theorem handleFrame_startup (hphase : s.state.phase = .startup) (frame : List ℕ) :
    s.handleFrame frame = s.handleStartupFrame frame := by
  rw [handleFrame, hphase]

theorem handleFrame_password (hphase : s.state.phase = .password) (frame : List ℕ) :
    s.handleFrame frame = s.handlePasswordFrame frame := by
  rw [handleFrame, hphase]

theorem ended_turn (h : Gated resolves frames s) (hrefuses : s.RefusesFrame) : Ended s.turn := by
  have hgated := h.phase
  have hsent : s.forwarded = [] ∧ s.state.phase ≠ .closed := by
    unfold RefusesFrame at hrefuses
    unfold PhaseGated at hgated
    cases hphase : s.state.phase with
    | startup => exact ⟨by simpa [hphase] using hgated, ConnectionPhase.noConfusion⟩
    | password =>
      rw [hphase] at hgated
      exact ⟨hgated.1, ConnectionPhase.noConfusion⟩
    | streaming | closed => simp [hphase] at hrefuses
  unfold WireServer.turn
  rw [if_neg hsent.2]
  unfold RefusesFrame at hrefuses
  cases htake : s.state.takeNextFrame with
  | error message => exact ended_fail_stop hsent.1 _ _
  | ok found =>
    cases found with
    | none => simp [htake] at hrefuses
    | some found =>
      obtain ⟨frame, rest⟩ := found
      show Ended (({ s with state := { s.state with buffer := rest } } :
        WireServer).handleFrame frame)
      cases hphase : s.state.phase with
      | startup =>
        simp only [hphase, htake] at hrefuses
        rw [handleFrame_startup (s := { s with state := { s.state with buffer := rest } }) hphase]
        exact ended_handleStartupFrame (s := { s with state := { s.state with
          buffer := rest } }) hsent.1 hrefuses
      | password =>
        simp only [hphase, htake] at hrefuses
        rw [handleFrame_password (s := { s with state := { s.state with buffer := rest } }) hphase]
        exact ended_handlePasswordFrame (s := { s with state := { s.state with
          buffer := rest } }) hsent.1 hrefuses
      | streaming | closed => simp [hphase] at hrefuses

theorem ended_of_refuses (h : Gated resolves frames s) (hstep : s.step event = some s')
    (hrefuses : s.Refuses event) : s'.Ended := by
  cases reacts_of_step hstep with
  | data chunk =>
    obtain ⟨hidle, hrefuses⟩ := hrefuses
    obtain ⟨_, _, hreceived⟩ := applyReadBackpressure_eq (s.receive chunk)
    rw [data_eq, if_pos hidle, hreceived]
    have hended : ∀ g, Gated resolves frames g → g.RefusesFrame → g.turn.Ended :=
      fun _ hgated => ended_turn hgated
    exact hended _ ⟨h.sent, h.resolving, h.phase⟩ hrefuses
  | turn => exact ended_turn h hrefuses
  | resolved hpump resolution =>
    have hsent := (h.resolving hpump).1
    cases resolution with
    | allowed connection => exact hrefuses.elim
    | rejected sqlState message => exact ended_fail hsent _ _
    | thrown message => exact ended_fail_stop hsent _ _
  | _ => exact hrefuses.elim

/-- Only a resolution takes a closed connection back to life. -/
theorem Ended.step (h : s.Ended) (hstep : s.step event = some s') : s'.Ended := by
  have hfail : ∀ sqlState message, s.fail sqlState message = s := fun _ _ => if_pos h.phase
  cases reacts_of_step hstep with
  | data chunk =>
    obtain ⟨_, _, hreceived⟩ := applyReadBackpressure_eq (s.receive chunk)
    rw [data_eq, hreceived]
    split
    · exact ended_turn_of_closed h.phase h.forwarded
    · exact ⟨h.phase, h.pump, h.forwarded⟩
  | close => exact ⟨rfl, h.pump, (forwarded_releaseConnection s).trans h.forwarded⟩
  | turn => exact ended_turn_of_closed h.phase h.forwarded
  | resolved hpump => exact absurd hpump h.pump
  | forwarded | released => exact ⟨h.phase, Pump.noConfusion, h.forwarded⟩
  | forwardFailed =>
    rw [hfail]
    exact ⟨h.phase, Pump.noConfusion, h.forwarded⟩
  | releaseFailed =>
    rw [hfail]
    exact ended_stop h.phase h.forwarded
  | response bytes => split <;> exact ⟨h.phase, h.pump, h.forwarded⟩
  | queue hforeign hqueue =>
    exact ⟨h.phase, h.pump, (SessionQueue.forwardedOf_step hforeign hqueue).trans h.forwarded⟩

/-! ## The bytes of the frames -/

theorem buffer_stop (s : WireServer) : s.stop.state.buffer = s.state.buffer :=
  (state_applyReadBackpressure { s with pump := .idle }).1

/-- A turn moves bytes from the buffer to the frame, or leaves them. -/
theorem flatten_turn (s : WireServer) :
    s.frameTaken.toList.flatten ++ s.turn.state.buffer = s.state.buffer := by
  have hcut : cutFrame s.state.phase s.state.buffer = _ := cutFrame_eq s.state
  have hnone : cutFrame s.state.phase s.state.buffer = none → s.frameTaken.toList.flatten = [] := by
    intro hnone
    rw [frameTaken, hnone]
    rfl
  unfold WireServer.turn
  split
  · rw [if_pos ‹_›] at hcut
    rw [hnone hcut, buffer_stop]
    rfl
  · rw [if_neg ‹_›] at hcut
    split
    · rename_i herror
      rw [herror] at hcut
      rw [hnone hcut, buffer_stop, (buffer_fail s _ _).1]
      rfl
    · rename_i hwait
      rw [hwait] at hcut
      rw [hnone hcut, buffer_stop]
      rfl
    · rename_i frame rest hsome
      rw [hsome] at hcut
      obtain ⟨frameLength, -, -, -, hframe, hrest⟩ := takeNextFrame_eq_some hsome
      rw [(handles_handleFrame _ frame).buffer, frameTaken, hcut]
      simp [hframe, hrest]

theorem flatten_step (hstep : s.step event = some s') :
    (s.handled event).flatten ++ s'.state.buffer = s.state.buffer ++ event.chunk := by
  have hquiet : s'.state.buffer = s.state.buffer → s.handled event = [] → event.chunk = [] →
      (s.handled event).flatten ++ s'.state.buffer = s.state.buffer ++ event.chunk := by
    intro hbuffer hhandled hchunk
    rw [hhandled, hchunk, hbuffer, List.append_nil]
    rfl
  cases reacts_of_step hstep with
  | data chunk =>
    obtain ⟨_, _, hreceived⟩ := applyReadBackpressure_eq (s.receive chunk)
    have hturn := flatten_turn (s.receive chunk).applyReadBackpressure
    rw [data_eq, handled_data]
    rw [hreceived] at hturn ⊢
    split
    · exact hturn
    · rfl
  | close => exact hquiet rfl rfl rfl
  | turn => exact (flatten_turn s).trans (List.append_nil _).symm
  | resolved hpump resolution =>
    refine hquiet ?_ rfl rfl
    cases resolution with
    | allowed connection | rejected sqlState message =>
      exact (handles_resolved s fun _ => ConnectionResolution.noConfusion).buffer
    | thrown message => exact (buffer_stop _).trans (buffer_fail s _ _).1
  | forwarded | released | queue => exact hquiet rfl rfl rfl
  | forwardFailed => exact hquiet (buffer_fail s _ _).1 rfl rfl
  | releaseFailed => exact hquiet ((buffer_stop _).trans (buffer_fail s _ _).1) rfl rfl
  | response bytes =>
    refine hquiet ?_ rfl rfl
    split <;> rfl

end WireServer

/-! ## Runs -/

namespace Observed

variable {resolves : Resolves} {id : JsString} {o o' o'' : Observed} {event : WireEvent}
  {events : List WireEvent}

/-- A step whose resolution is an answer of `resolveConnection`. -/
def Asking (resolves : Resolves) (o : Observed) (event : WireEvent) (o' : Observed) : Prop :=
  o.next event = some o' ∧ o.server.rollsBack event = true ∧ o.server.Asks resolves event

/-- The frames are cut off the bytes received, in order, and authenticate what was forwarded. -/
structure Guarded (resolves : Resolves) (o : Observed) : Prop where
  bytes : o.frames.flatten ++ o.server.state.buffer = o.received
  gated : WireServer.Gated resolves o.frames o.server

theorem Guarded.step (h : Guarded resolves o) (hstep : Asking resolves o event o') :
    Guarded resolves o' := by
  obtain ⟨hnext, -, hasks⟩ := hstep
  obtain ⟨server, hserver, rfl⟩ := Option.map_eq_some_iff.1 hnext
  refine ⟨?_, WireServer.gated_step h.gated hserver hasks⟩
  show (o.frames ++ o.server.handled event).flatten ++ server.state.buffer = o.received ++ event.chunk
  rw [List.flatten_append, List.append_assoc, WireServer.flatten_step hserver, ← h.bytes,
    List.append_assoc]

theorem guarded_of_run (hrun : Run (Asking resolves) (start id) events o) : Guarded resolves o :=
  hrun.invariant (fun _ _ _ (_ : True) hstep h => h.step hstep) (fun _ _ => trivial)
    ⟨rfl, .inl rfl, Pump.noConfusion, rfl⟩

theorem ended_of_run (hrun : Run (Asking resolves) o events o') (h : o.server.Ended) :
    o'.server.Ended := by
  induction hrun with
  | refl => exact h
  | head hstep _ ih =>
    obtain ⟨server, hserver, rfl⟩ := Option.map_eq_some_iff.1 hstep.1
    exact ih (h.step hserver)

/-- **The authentication gate.** In every run of a connection, the frames handled are cut off the
bytes received. If a message was forwarded, they introduce a user whom `resolveConnection` accepted
and whose login is not disabled, and the password resolved is empty or one of the frames supplies it.
Once a startup or a password was refused, the connection is closed and nothing is ever forwarded. -/
theorem authentication_gate (resolves : Resolves) (id : JsString) (events : List WireEvent)
    (o : Observed) (hrun : Run (Asking resolves) (start id) events o) :
    o.frames.flatten <+: o.received ∧
    (o.server.forwarded ≠ [] → Authenticated resolves o.frames) ∧
    ∀ event events' o' o'', Asking resolves o event o' → o.server.Refuses event →
      Run (Asking resolves) o' events' o'' →
      o''.server.state.phase = .closed ∧ o''.server.forwarded = [] := by
  have hguarded : Guarded resolves o := guarded_of_run hrun
  refine ⟨⟨_, hguarded.bytes⟩, fun hsent => hguarded.gated.sent.resolve_left hsent, ?_⟩
  intro event events' o' o'' hstep hrefuses hafter
  obtain ⟨server, hserver, rfl⟩ := Option.map_eq_some_iff.1 hstep.1
  have hended : server.Ended := WireServer.ended_of_refuses hguarded.gated hserver hrefuses
  exact ⟨(ended_of_run hafter hended).phase, (ended_of_run hafter hended).forwarded⟩

/-! ## A sample run -/

instance (resolves : Resolves) [∀ database user resolution, Decidable (resolves database user resolution)]
    (s : WireServer) : ∀ event, Decidable (s.Asks resolves event)
  | .resolved resolution =>
      inferInstanceAs (Decidable (resolves s.state.database s.state.user resolution))
  | .data _ | .turn | .close | .forwarded _ | .released _ | .response _ | .queue _ => .isTrue trivial

/-- Everyone has the password `pw`. -/
def sampleResolves : Resolves := fun _ _ resolution => resolution = .allowed ⟨js "pw", false⟩

instance (database user : JsString) (resolution : ConnectionResolution) :
    Decidable (sampleResolves database user resolution) :=
  inferInstanceAs (Decidable (resolution = _))

/-- The password frame comes with the startup packet. -/
def logIn : List WireEvent :=
  [.data (WireServer.startupOfA ++ [0x70, 0, 0, 0, 7, 112, 119, 0]),
    .resolved (.allowed ⟨js "pw", false⟩), .turn]

theorem authentication_gate_logIn : ∃ o, Run (Asking sampleResolves) (start "conn-1") logIn o ∧
    o.server.forwarded = [WireServer.startupOfA] ∧ Authenticated sampleResolves o.frames := by
  obtain ⟨o, hrun, htest⟩ : ∃ o, Run (Asking sampleResolves) (start "conn-1") logIn o ∧
      decide (o.server.forwarded = [WireServer.startupOfA]) = true :=
    WireServer.exists_observed (by decide +kernel)
  have hsent : o.server.forwarded = [WireServer.startupOfA] := of_decide_eq_true htest
  refine ⟨o, hrun, hsent, (authentication_gate sampleResolves "conn-1" logIn o hrun).2.1 ?_⟩
  rw [hsent]
  exact List.cons_ne_nil _ _

end Observed

end Kinglet.Postgres
