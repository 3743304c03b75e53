import Kinglet.Memorystore.ValkeyProcesses
import Kinglet.Shared.Exclusive
import Mathlib.Data.List.Nodup

/-!
# The ports of Valkey instances

The starts and stops of one instance act on its own part of the ports alone: the ports that are claimed
for it, its server and its degraded port. Each of them leaves claimed just what is tracked, as long as
no spawn throws and a process that never became ready can be stopped.
-/

namespace Kinglet.Memorystore

open Js Library Shared

/-! ## What is accounted for -/

/-- What may hold a port. -/
inductive Holder where
  | server (instanceName : JsString)
  | degraded (instanceName : JsString)

def Holder.instanceName : Holder → JsString
  | .server name | .degraded name => name

namespace ValkeyPlane

variable (plane : ValkeyPlane)

def portOf : Holder → Option ℕ
  | .server name => (plane.serversByInstanceName name).map RunningServer.port
  | .degraded name => plane.degradedPortsByInstanceName name

/-- Every held port belongs to exactly one tracked server or degraded instance, which hold no others, and
no two instances advertise the same port while the data plane is enabled. -/
structure PortsAccounted (options : ValkeyProcessManagerOptions) : Prop where
  held : ∀ port, plane.has port = true → ∃! holder, plane.portOf holder = some port
  tracked : ∀ holder, ∀ port ∈ plane.portOf holder, plane.has port = true
  advertised : options.enabled = true → ∀ name other, name ≠ other →
    ∀ endpoint ∈ plane.advertised name, ∀ endpoint' ∈ plane.advertised other,
      endpoint.port ≠ endpoint'.port

end ValkeyPlane

/-! ## The part of one instance -/

structure PlanePart where
  ports : List ℕ
  server : Option RunningServer
  degraded : Option ℕ
  advertised : Option ValkeyEndpoint

def ValkeyPlane.part (name : JsString) (plane : ValkeyPlane) : PlanePart where
  ports := (plane.allocatedPorts.filter fun claim => claim.2 = name).map Prod.fst
  server := plane.serversByInstanceName name
  degraded := plane.degradedPortsByInstanceName name
  advertised := plane.advertised name

/-- What comes from outside the part with an ask, some of it from the rest of the state. -/
structure PartInput where
  rejected : Option JsString
  binaryPath : Option JsString
  isListening : Bool
  claimed : Bool
  process : ℕ

namespace PlanePart

variable (part : PlanePart)

def release (port : ℕ) : PlanePart := { part with ports := part.ports.filter (· ≠ port) }

def handle (ask : PlaneAsk) (input : PartInput) : PlanePart × Except Thrown (PlaneAnswer ask) :=
  match ask with
  | .untrackDegraded _ =>
      let released := match part.degraded with
        | none => part
        | some port => part.release port
      ({ released with degraded := none }, .ok part.server)
  | .shutdown _ _ =>
      match input.rejected with
      | some message => (part, .error (.error message))
      | none => (part, .ok ())
  | .untrackServer _ port => ({ part.release port with server := none }, .ok ())
  | .resolveBinaryPath => (part, .ok input.binaryPath)
  | .claim _ port =>
      if input.claimed then ({ part with ports := part.ports ++ [port] }, .ok true)
      else (part, .ok false)
  | .isPortListening _ => (part, .ok input.isListening)
  | .release port => (part.release port, .ok ())
  | .spawn _ _ =>
      match input.rejected with
      | some message => (part, .error (.error message))
      | none => (part, .ok input.process)
  | .waitUntilPortIsListening _ _ => (part, .ok input.isListening)
  | .trackServer _ server => ({ part with server := some server }, .ok ())
  | .trackDegraded _ port => ({ part with degraded := some port }, .ok ())
  | .advertise _ endpoint => ({ part with advertised := endpoint }, .ok ())

/-- A claim is of a port that is not claimed, no spawn throws, and a shutdown fails only for a server that
is tracked. -/
def Allows (part : PlanePart) (ask : PlaneAsk) (input : PartInput) : Prop :=
  match ask with
  | .claim _ port => input.claimed = true → port ∉ part.ports
  | .spawn _ _ => input.rejected = none
  | .shutdown _ process => input.rejected = none ∨ ∃ server ∈ part.server, server.process = process
  | _ => True

/-- The ports of an instance are the one of its server, or of its degraded endpoint, and it advertises
no other. -/
structure Accounted (options : ValkeyProcessManagerOptions) : Prop where
  ports : part.ports = ((part.server.map RunningServer.port).or part.degraded).toList
  single : part.server = none ∨ part.degraded = none
  advertised : options.enabled = true → ∀ endpoint ∈ part.advertised, endpoint.port ∈ part.ports

/-- What a call of an instance may ask for. -/
def May (name : JsString) (part : PlanePart) : PlaneAsk → Prop
  | .untrackDegraded other => other = name ∧ ∀ port ∈ part.degraded, port ∈ part.ports
  | .untrackServer other port => other = name ∧ port ∈ part.ports
  | .release port => port ∈ part.ports
  | .shutdown other _ | .claim other _ | .trackServer other _ | .trackDegraded other _
  | .advertise other _ => other = name
  | _ => True

end PlanePart

/-- What the part of an instance sees of the input of an ask. -/
def ValkeyPlane.seen (plane : ValkeyPlane) (input : PlaneInput) : PlaneAsk → PartInput
  | .claim _ port => ⟨input.rejected, input.binaryPath, input.isListening, !plane.has port, plane.nextProcess⟩
  | .waitUntilPortIsListening _ process =>
      ⟨input.rejected, input.binaryPath,
        input.isListening && plane.processes.any fun running => running.1 = process, false,
        plane.nextProcess⟩
  | _ => ⟨input.rejected, input.binaryPath, input.isListening, false, plane.nextProcess⟩

def partWorld : World PlaneAsk PlaneAnswer Thrown PlanePart PartInput :=
  ⟨PlanePart.handle, PlanePart.Allows⟩

/-- No spawn throws, and a shutdown fails only for a server that is tracked. -/
def KeepsPorts (plane : ValkeyPlane) (ask : PlaneAsk) (input : PlaneInput) : Prop :=
  match ask with
  | .spawn _ _ => input.rejected = none
  | .shutdown name process => input.rejected = none ∨
      ∃ server ∈ plane.serversByInstanceName name, server.process = process
  | _ => True

/-- The data plane, with inputs of which some are allowed. -/
def planeWorld (allows : ValkeyPlane → PlaneAsk → PlaneInput → Prop) :
    World PlaneAsk PlaneAnswer Thrown ValkeyPlane PlaneInput := ⟨ValkeyPlane.handle, allows⟩

/-! ## Separation -/

section separation

variable {plane : ValkeyPlane} {name other : JsString} {port : ℕ}

/-- No port is claimed twice. -/
def ValkeyPlane.ClaimedOnce (plane : ValkeyPlane) : Prop := (plane.allocatedPorts.map Prod.fst).Nodup

theorem ValkeyPlane.has_eq_true : plane.has port = true ↔ port ∈ plane.allocatedPorts.map Prod.fst := by
  simp [ValkeyPlane.has]

theorem mem_part_ports : port ∈ (plane.part name).ports ↔ (port, name) ∈ plane.allocatedPorts := by
  simp [ValkeyPlane.part]

theorem part_release : (plane.release port).part name = (plane.part name).release port := by
  rw [ValkeyPlane.part, ValkeyPlane.part, PlanePart.release, ValkeyPlane.release, PlanePart.mk.injEq]
  refine ⟨?_, rfl, rfl, rfl⟩
  rw [List.filter_filter, List.filter_map, List.filter_filter]
  exact congrArg (List.map _) (List.filter_congr fun claim _ => Bool.and_comm ..)

/-- A port of one instance is none of another's. -/
theorem ValkeyPlane.ClaimedOnce.owner (h : plane.ClaimedOnce) (hport : port ∈ (plane.part name).ports)
    (hother : port ∈ (plane.part other).ports) : other = name := by
  have hsame : (port, other) = (port, name) :=
    List.inj_on_of_nodup_map h (mem_part_ports.1 hother) (mem_part_ports.1 hport) rfl
  exact (Prod.mk.inj hsame).2

theorem release_others (h : plane.ClaimedOnce) (hport : port ∈ (plane.part name).ports)
    (hne : other ≠ name) : (plane.release port).part other = plane.part other := by
  have hnone : ∀ claimed ∈ (plane.part other).ports, claimed ≠ port := by
    rintro claimed hclaimed rfl
    exact hne (h.owner hport hclaimed)
  rw [part_release, PlanePart.release, List.filter_eq_self.2 fun claimed hclaimed => by
    simpa using hnone claimed hclaimed]

theorem ValkeyPlane.ClaimedOnce.release (h : plane.ClaimedOnce) (port : ℕ) :
    (plane.release port).ClaimedOnce :=
  h.sublist (List.filter_sublist.map _)

theorem ValkeyPlane.ClaimedOnce.perform (h : plane.ClaimedOnce) (ask : PlaneAsk) (input : PlaneInput) :
    (plane.perform input ask).1.ClaimedOnce := by
  cases ask with
  | untrackDegraded name =>
    dsimp only [ValkeyPlane.perform]
    split
    · exact h
    · exact h.release _
  | untrackServer name port => exact h.release port
  | release port => exact h.release port
  | claim name port =>
    dsimp only [ValkeyPlane.perform]
    split
    · exact h
    · next hfree =>
        rw [ValkeyPlane.has_eq_true] at hfree
        rw [ValkeyPlane.ClaimedOnce, List.map_append, List.nodup_append]
        refine ⟨h, List.nodup_singleton _, ?_⟩
        rintro claimed hmem _ hnew rfl
        obtain rfl : claimed = port := List.mem_singleton.1 hnew
        exact hfree hmem
  | shutdown name process =>
    dsimp only [ValkeyPlane.perform]
    split <;> exact h
  | spawn name port =>
    dsimp only [ValkeyPlane.perform]
    split <;> exact h
  | resolveBinaryPath | isPortListening | waitUntilPortIsListening | trackServer | trackDegraded
  | advertise => exact h

/-- The state after an ask, on the part of its instance. -/
theorem part_perform (ask : PlaneAsk) (input : PlaneInput)
    (hmay : PlanePart.May name (plane.part name) ask) :
    (plane.perform input ask).1.part name =
        ((plane.part name).handle ask (plane.seen input ask)).1 ∧
      (plane.perform input ask).2 = ((plane.part name).handle ask (plane.seen input ask)).2 := by
  cases ask with
  | untrackDegraded other =>
    obtain ⟨rfl, -⟩ := hmay
    have hdegraded : (plane.part other).degraded = plane.degradedPortsByInstanceName other := rfl
    refine ⟨?_, rfl⟩
    dsimp only [ValkeyPlane.perform, PlanePart.handle]
    rw [hdegraded]
    cases plane.degradedPortsByInstanceName other with
    | none => simp [ValkeyPlane.part]
    | some port =>
      dsimp only
      rw [← part_release]
      simp [ValkeyPlane.part, ValkeyPlane.release]
  | untrackServer other port =>
    obtain ⟨rfl, -⟩ := hmay
    refine ⟨?_, rfl⟩
    dsimp only [ValkeyPlane.perform, PlanePart.handle]
    rw [← part_release]
    simp [ValkeyPlane.part, ValkeyPlane.release]
  | release port => exact ⟨part_release, rfl⟩
  | claim other port =>
    obtain rfl : other = name := hmay
    dsimp only [ValkeyPlane.perform, PlanePart.handle, ValkeyPlane.seen]
    cases plane.has port with
    | true => exact ⟨rfl, rfl⟩
    | false => simp [ValkeyPlane.part]
  | shutdown other process | spawn other port =>
    dsimp only [ValkeyPlane.perform, PlanePart.handle, ValkeyPlane.seen]
    cases input.rejected with
    | none => exact ⟨rfl, rfl⟩
    | some message => exact ⟨rfl, rfl⟩
  | trackServer other server =>
    obtain rfl : other = name := hmay
    simp [ValkeyPlane.perform, PlanePart.handle, ValkeyPlane.part]
  | trackDegraded other port =>
    obtain rfl : other = name := hmay
    simp [ValkeyPlane.perform, PlanePart.handle, ValkeyPlane.part]
  | advertise other endpoint =>
    obtain rfl : other = name := hmay
    simp [ValkeyPlane.perform, PlanePart.handle, ValkeyPlane.part]
  | resolveBinaryPath | isPortListening | waitUntilPortIsListening => exact ⟨rfl, rfl⟩

theorem allows_seen {ask : PlaneAsk} {input : PlaneInput}
    (hmay : PlanePart.May name (plane.part name) ask) (hallows : KeepsPorts plane ask input) :
    (plane.part name).Allows ask (plane.seen input ask) := by
  cases ask with
  | claim other port =>
    intro hclaimed hport
    have hhas : plane.has port = true :=
      ValkeyPlane.has_eq_true.2 (List.mem_map_of_mem (mem_part_ports.1 hport))
    simp [ValkeyPlane.seen, hhas] at hclaimed
  | spawn other port => exact hallows
  | shutdown other process =>
    obtain rfl : other = name := hmay
    exact hallows
  | _ => trivial

/-- An ask leaves the parts of other instances. -/
theorem perform_others (h : plane.ClaimedOnce) {ask : PlaneAsk} (input : PlaneInput)
    (hmay : PlanePart.May name (plane.part name) ask) (hne : other ≠ name) :
    (plane.perform input ask).1.part other = plane.part other := by
  cases ask with
  | untrackDegraded owner =>
    obtain ⟨rfl, hheld⟩ := hmay
    dsimp only [ValkeyPlane.perform]
    cases hdegraded : plane.degradedPortsByInstanceName owner with
    | none => simp [ValkeyPlane.part, hne]
    | some port =>
      rw [← release_others h (hheld port hdegraded) hne]
      simp [ValkeyPlane.part, ValkeyPlane.release, hne]
  | untrackServer owner port =>
    obtain ⟨rfl, hheld⟩ := hmay
    rw [← release_others h hheld hne]
    simp [ValkeyPlane.perform, ValkeyPlane.part, ValkeyPlane.release, hne]
  | release port => exact release_others h hmay hne
  | claim owner port =>
    obtain rfl : owner = name := hmay
    dsimp only [ValkeyPlane.perform]
    cases plane.has port with
    | true => rfl
    | false => simp [ValkeyPlane.part, hne.symm]
  | shutdown owner process | spawn owner port =>
    dsimp only [ValkeyPlane.perform]
    cases input.rejected with
    | none => rfl
    | some message => rfl
  | trackServer owner server =>
    obtain rfl : owner = name := hmay
    simp [ValkeyPlane.perform, ValkeyPlane.part, hne]
  | trackDegraded owner port =>
    obtain rfl : owner = name := hmay
    simp [ValkeyPlane.perform, ValkeyPlane.part, hne]
  | advertise owner endpoint =>
    obtain rfl : owner = name := hmay
    simp [ValkeyPlane.perform, ValkeyPlane.part, hne]
  | resolveBinaryPath | isPortListening | waitUntilPortIsListening => rfl

/-- **The ports separate by instances.** The exits of processes are seen by none of them. -/
theorem ports_separate : Exclusive.Separates (planeWorld KeepsPorts) partWorld ValkeyPlane.part
    ValkeyPlane.ClaimedOnce PlanePart.May where
  keeps {_ plane ask input} h _ _ := by
    have honce : (plane.exit input.exits).ClaimedOnce := h
    exact honce.perform ask input
  own {name plane ask input} _ hmay hallows := by
    have hmay' : PlanePart.May name ((plane.exit input.exits).part name) ask := hmay
    have hallows' : KeepsPorts (plane.exit input.exits) ask input := hallows
    exact ⟨(plane.exit input.exits).seen input ask, allows_seen hmay' hallows',
      part_perform ask input hmay'⟩
  others {name _ plane ask input} h hmay _ hne := by
    have honce : (plane.exit input.exits).ClaimedOnce := h
    have hmay' : PlanePart.May name ((plane.exit input.exits).part name) ask := hmay
    exact perform_others honce input hmay' hne

end separation

/-! ## Calls on the part of their instance -/

section calls

variable {options : ValkeyProcessManagerOptions} {name : JsString} {part : PlanePart}

/-- The part of an instance that has nothing and advertises nothing. -/
def PlanePart.empty : PlanePart := ⟨[], none, none, none⟩

/-- The part of an instance for which just a port is held. -/
def PlanePart.holding (port : ℕ) : PlanePart := ⟨[port], none, none, none⟩

theorem holding_release (port : ℕ) : (PlanePart.holding port).release port = PlanePart.empty := by
  simp [PlanePart.holding, PlanePart.release, PlanePart.empty]

/-- A port is held for the instance, or nothing is. -/
def Claimed (part : PlanePart) : Except Thrown (Option ℕ) → Prop
  | .ok (some port) => part = PlanePart.holding port
  | .ok none => part = PlanePart.empty
  | .error _ => False

theorem claim_safe (options : ValkeyProcessManagerOptions) (name : JsString) (port : ℕ) :
    Script.Safe partWorld (PlanePart.May name)
      (fun part result => match result with
        | .ok true => part = PlanePart.holding port
        | .ok false => part = PlanePart.empty
        | .error _ => False)
      (options.claim name port) PlanePart.empty := by
  rw [ValkeyProcessManagerOptions.claim]
  split
  · exact rfl
  · refine Script.Safe.bind ⟨rfl, ?_⟩
    rintro ⟨rejected, binaryPath, isListening, claimed, process⟩ -
    cases claimed with
    | false => exact rfl
    | true =>
      refine Script.Safe.bind ⟨trivial, ?_⟩
      rintro ⟨rejected, binaryPath, isListening, claimed, process⟩ -
      cases isListening with
      | false => exact rfl
      | true =>
        refine Script.Safe.bind ⟨List.mem_singleton_self port, fun _ _ => ?_⟩
        exact holding_release port

theorem scan_safe (options : ValkeyProcessManagerOptions) (name : JsString) (ports : List ℕ) :
    Script.Safe partWorld (PlanePart.May name) Claimed (options.scan name ports) PlanePart.empty := by
  induction ports with
  | nil => exact rfl
  | cons port ports ih =>
    refine Script.Safe.bind ((claim_safe options name port).mono ?_)
    rintro part (thrown | claimed) hclaimed
    · exact hclaimed.elim
    · cases claimed with
      | true => exact hclaimed
      | false =>
        obtain rfl : part = PlanePart.empty := hclaimed
        exact ih

theorem allocate_safe (options : ValkeyProcessManagerOptions) (name : JsString)
    (preferredPort : Option ℕ) : Script.Safe partWorld (PlanePart.May name) Claimed
      (options.allocate name preferredPort) PlanePart.empty := by
  cases preferredPort with
  | none => exact scan_safe options name _
  | some port =>
    refine Script.Safe.bind ((claim_safe options name port).mono ?_)
    rintro part (thrown | claimed) hclaimed
    · exact hclaimed.elim
    · cases claimed with
      | true => exact hclaimed
      | false =>
        obtain rfl : part = PlanePart.empty := hclaimed
        exact scan_safe options name _

/-- The port that is held is that of a server or a degraded endpoint. -/
def PlanePart.Serves (part : PlanePart) (port : ℕ) : Prop :=
  (∃ process, part = { PlanePart.holding port with server := some ⟨process, port⟩ }) ∨
    part = { PlanePart.holding port with degraded := some port }

/-- What a start leaves: with the data plane, the port of the endpoint is served. -/
def Started (options : ValkeyProcessManagerOptions) (part : PlanePart) :
    Except Thrown ValkeyEndpoint → Prop
  | .ok endpoint => if options.enabled then part.Serves endpoint.port else part = PlanePart.empty
  | .error _ => part = PlanePart.empty

theorem started_of_serves {endpoint : ValkeyEndpoint} (henabled : options.enabled = true)
    (h : part.Serves endpoint.port) : Started options part (.ok endpoint) :=
  (if_pos henabled).mpr h

theorem degraded_safe (options : ValkeyProcessManagerOptions) (name : JsString) :
    Script.Safe partWorld (PlanePart.May name) (Started options) (options.buildDegradedEndpoint name)
      PlanePart.empty := by
  rw [ValkeyProcessManagerOptions.buildDegradedEndpoint]
  cases henabled : options.enabled with
  | false => simp [Started, henabled]
  | true =>
    refine Script.Safe.bind ((allocate_safe options name _).mono ?_)
    rintro part (thrown | _ | port) hclaimed
    · exact hclaimed.elim
    · exact hclaimed
    · obtain rfl : part = PlanePart.holding port := hclaimed
      refine Script.Safe.bind ⟨rfl, fun _ _ => ?_⟩
      exact started_of_serves henabled (.inr rfl)

theorem spawn_safe (henabled : options.enabled = true) (name : JsString) (port : ℕ) :
    Script.Safe partWorld (PlanePart.May name) (Started options) (spawnServer options name port)
      (PlanePart.holding port) := by
  refine Script.Safe.bind ⟨trivial, ?_⟩
  rintro ⟨rejected, binaryPath, isListening, claimed, process⟩ (rfl : rejected = none)
  refine Script.Safe.bind ⟨trivial, ?_⟩
  rintro ⟨rejected, binaryPath, isReady, claimed, _⟩ -
  cases isReady with
  | true =>
    refine Script.Safe.bind ⟨rfl, fun _ _ => ?_⟩
    exact started_of_serves henabled (.inl ⟨process, rfl⟩)
  | false =>
    -- no server is tracked, so the process that is shut down is not one that may resist
    refine Script.Safe.bind ⟨rfl, ?_⟩
    rintro ⟨rejected, binaryPath, isListening, claimed, _⟩ (rfl | ⟨server, hserver, -⟩)
    · refine Script.Safe.bind ⟨List.mem_singleton_self port, fun _ _ => ?_⟩
      change Script.Safe _ _ _ _ ((PlanePart.holding port).release port)
      rw [holding_release]
      exact degraded_safe options name
    · cases hserver

/-- What a stop leaves: nothing, or the server that it could not shut down. -/
def Stopped (options : ValkeyProcessManagerOptions) (advertised : Option ValkeyEndpoint)
    (part : PlanePart) : Except Thrown Unit → Prop
  | .ok _ => part = { PlanePart.empty with advertised := advertised }
  | .error _ => part.Accounted options

theorem stop_safe (h : part.Accounted options) (name : JsString) :
    Script.Safe partWorld (PlanePart.May name) (Stopped options part.advertised)
      (stopServerForInstance name) part := by
  obtain ⟨ports, server, degraded, advertised⟩ := part
  obtain ⟨hports, hsingle, hadvertised⟩ := h
  cases server with
  | none =>
    obtain rfl : ports = degraded.toList := hports
    refine Script.Safe.bind ⟨⟨rfl, fun port hport => Option.mem_toList.2 hport⟩, fun _ _ => ?_⟩
    cases degraded with
    | none => exact rfl
    | some port =>
      change PlanePart.mk _ _ _ _ = _
      simp [PlanePart.release, PlanePart.empty]
  | some server =>
    obtain rfl : degraded = none := hsingle.resolve_left nofun
    obtain rfl : ports = [server.port] := hports
    refine Script.Safe.bind ⟨⟨rfl, nofun⟩, fun _ _ => ?_⟩
    refine Script.Safe.bind ⟨rfl, ?_⟩
    rintro ⟨_ | message, binaryPath, isListening, claimed, process⟩ -
    · refine ⟨⟨rfl, List.mem_singleton_self _⟩, fun _ _ => ?_⟩
      change PlanePart.mk ([server.port].filter (· ≠ server.port)) none none advertised = _
      simp [PlanePart.empty]
    · exact ⟨rfl, .inr rfl, hadvertised⟩

theorem accounted_empty (options : ValkeyProcessManagerOptions) : PlanePart.empty.Accounted options :=
  ⟨rfl, .inl rfl, nofun⟩

theorem startServer_safe (h : part.Accounted options) (hadvertised : part.advertised = none)
    (name : JsString) : Script.Safe partWorld (PlanePart.May name)
      (fun part result => match result with
        | .ok _ => Started options part result
        | .error _ => part.Accounted options) (startServerForInstance options name) part := by
  have hstarted : ∀ part result, Started options part result → match result with
      | .ok _ => Started options part result
      | .error _ => part.Accounted options := by
    rintro part (thrown | endpoint) hstarted
    · obtain rfl : part = PlanePart.empty := hstarted
      exact accounted_empty options
    · exact hstarted
  refine Script.Safe.bind ((stop_safe h name).mono ?_)
  rintro part' (thrown | _) hstopped
  · exact hstopped
  · rw [hadvertised] at hstopped
    obtain rfl : part' = PlanePart.empty := hstopped
    cases henabled : options.enabled with
    | false =>
      exact (degraded_safe options name).mono hstarted
    | true =>
      refine Script.Safe.bind ⟨trivial, ?_⟩
      rintro ⟨rejected, binaryPath, isListening, claimed, process⟩ -
      cases binaryPath with
      | none => exact (degraded_safe options name).mono hstarted
      | some path =>
        refine Script.Safe.bind ((allocate_safe options name none).mono ?_)
        rintro part (thrown | _ | port) hclaimed
        · exact hclaimed.elim
        · obtain rfl : part = PlanePart.empty := hclaimed
          exact (degraded_safe options name).mono hstarted
        · obtain rfl : part = PlanePart.holding port := hclaimed
          exact (spawn_safe henabled name port).mono hstarted

theorem start_keeps (h : part.Accounted options) (name : JsString) :
    Script.Safe partWorld (PlanePart.May name) (fun part _ => part.Accounted options)
      (start options name) part := by
  refine Script.Safe.bind ⟨rfl, fun _ _ => ?_⟩
  have hforgotten : ({ part with advertised := none } : PlanePart).Accounted options :=
    ⟨h.ports, h.single, nofun⟩
  refine Script.Safe.bind ((startServer_safe hforgotten rfl name).mono ?_)
  rintro part (thrown | endpoint) hresult
  · exact hresult
  · refine ⟨rfl, fun _ _ => ?_⟩
    change PlanePart.Accounted { part with advertised := some endpoint } options
    cases henabled : options.enabled with
    | false =>
      obtain rfl : part = PlanePart.empty := by simpa [Started, henabled] using hresult
      exact ⟨rfl, .inl rfl, fun h => nomatch henabled.symm.trans h⟩
    | true =>
      have hserves : part.Serves endpoint.port := by simpa [Started, henabled] using hresult
      rcases hserves with ⟨process, rfl⟩ | rfl
      · exact ⟨rfl, .inr rfl, by simp [PlanePart.holding]⟩
      · exact ⟨rfl, .inl rfl, by simp [PlanePart.holding]⟩

theorem stop_keeps (h : part.Accounted options) (name : JsString) :
    Script.Safe partWorld (PlanePart.May name) (fun part _ => part.Accounted options)
      (stop name) part := by
  refine Script.Safe.bind ((stop_safe h name).mono ?_)
  rintro part (thrown | _) hstopped
  · exact hstopped
  · refine ⟨rfl, fun _ _ => ?_⟩
    change PlanePart.Accounted { part with advertised := none } options
    rw [Stopped] at hstopped
    rw [hstopped]
    exact accounted_empty options

end calls

/-! ## Runs -/

abbrev PlaneMachine := Exclusive PlaneAsk PlaneAnswer Thrown Unit ValkeyPlane

abbrev PlaneEvent := ExclusiveEvent PlaneAsk PlaneAnswer Thrown Unit PlaneInput

/-- The calls of an instance. -/
inductive PlaneCall (options : ValkeyProcessManagerOptions) (name : JsString) : PlaneScript Unit → Prop
  | start : PlaneCall options name (start options name)
  | stop : PlaneCall options name (stop name)

/-- The starts and stops under the mutex of their instances, with inputs of which some are allowed. -/
def PlaneStep (options : ValkeyProcessManagerOptions)
    (allows : ValkeyPlane → PlaneAsk → PlaneInput → Prop) : PlaneMachine → PlaneEvent → PlaneMachine → Prop :=
  Exclusive.Step (planeWorld allows) (PlaneCall options)

section runs

variable {options : ValkeyProcessManagerOptions} {plane : ValkeyPlane} {machine : PlaneMachine}
  {events : List PlaneEvent}

/-- The ports of an instance are what its server and its degraded endpoint hold. -/
theorem mem_ports_iff {part : PlanePart} (h : part.Accounted options) {port : ℕ} :
    port ∈ part.ports ↔ part.server.map RunningServer.port = some port ∨ part.degraded = some port := by
  rw [h.ports, Option.mem_toList, Option.or_eq_some_iff]
  constructor
  · rintro (hserver | ⟨-, hdegraded⟩)
    · exact .inl hserver
    · exact .inr hdegraded
  · rintro (hserver | hdegraded)
    · exact .inl hserver
    · refine .inr ⟨?_, hdegraded⟩
      rw [h.single.resolve_right fun hnone => nomatch hnone.symm.trans hdegraded]
      rfl

/-- The ports are accounted for, from those of each instance. -/
theorem portsAccounted_of_parts (h : ∀ name, (plane.part name).Accounted options)
    (honce : plane.ClaimedOnce) : plane.PortsAccounted options := by
  have hheld : ∀ holder port, plane.portOf holder = some port →
      port ∈ (plane.part holder.instanceName).ports := by
    intro holder port hport
    cases holder with
    | server name => exact (mem_ports_iff (h name)).2 (.inl hport)
    | degraded name => exact (mem_ports_iff (h name)).2 (.inr hport)
  have hhas : ∀ {port name}, port ∈ (plane.part name).ports → plane.has port = true :=
    fun hport => ValkeyPlane.has_eq_true.2 (List.mem_map_of_mem (mem_part_ports.1 hport))
  refine ⟨fun port hport => ?_, fun holder port hport => hhas (hheld holder port hport),
    fun henabled name other hne endpoint hendpoint endpoint' hendpoint' hsame => ?_⟩
  · obtain ⟨⟨_, name⟩, hclaim, rfl⟩ := List.mem_map.1 (ValkeyPlane.has_eq_true.1 hport)
    have hmem := mem_part_ports.2 hclaim
    -- another holder of the port is of the same instance, and so of the same kind
    have howner : ∀ holder, plane.portOf holder = some _ → holder.instanceName = name :=
      fun holder hholder => honce.owner hmem (hheld holder _ hholder)
    rcases (mem_ports_iff (h name)).1 hmem with hserver | hdegraded
    · refine ⟨.server name, hserver, fun holder hholder => ?_⟩
      have hname := howner holder hholder
      cases holder with
      | server other => exact congrArg Holder.server hname
      | degraded other =>
        obtain rfl : other = name := hname
        rcases (h other).single with hnone | hnone
        · rw [hnone] at hserver
          cases hserver
        · exact nomatch hnone.symm.trans hholder
    · refine ⟨.degraded name, hdegraded, fun holder hholder => ?_⟩
      have hname := howner holder hholder
      cases holder with
      | server other =>
        obtain rfl : other = name := hname
        rcases (h other).single with hnone | hnone
        · have hserver : (plane.part other).server.map RunningServer.port = some _ := hholder
          rw [hnone] at hserver
          cases hserver
        · exact nomatch hnone.symm.trans hdegraded
      | degraded other => exact congrArg Holder.degraded hname
  · have hport := (h name).advertised henabled endpoint hendpoint
    have hport' := (h other).advertised henabled endpoint' hendpoint'
    rw [← hsame] at hport'
    exact hne (honce.owner hport' hport)

end runs

/-! ## Runs by evaluation -/

instance (plane : ValkeyPlane) (ask : PlaneAsk) (input : PlaneInput) :
    Decidable (KeepsPorts plane ask input) :=
  match ask with
  | .spawn _ _ => inferInstanceAs (Decidable (input.rejected = none))
  | .shutdown name process => inferInstanceAs (Decidable (input.rejected = none ∨
      ∃ server ∈ plane.serversByInstanceName name, server.process = process))
  | .untrackDegraded _ | .untrackServer _ _ | .resolveBinaryPath | .claim _ _ | .isPortListening _
  | .release _ | .waitUntilPortIsListening _ _ | .trackServer _ _ | .trackDegraded _ _
  | .advertise _ _ => inferInstanceAs (Decidable True)

instance (allows : ValkeyPlane → PlaneAsk → PlaneInput → Prop)
    [∀ plane ask input, Decidable (allows plane ask input)] (plane : ValkeyPlane) (ask : PlaneAsk)
    (input : PlaneInput) : Decidable ((planeWorld allows).Allows plane ask input) :=
  inferInstanceAs (Decidable (allows plane ask input))

namespace PlaneInput

/-- Nothing listens, and nothing is rejected. -/
def quiet : PlaneInput := ⟨none, none, false, []⟩

def withBinary : PlaneInput := { quiet with binaryPath := some (js "/usr/bin/valkey-server") }

def listening : PlaneInput := { quiet with isListening := true }

def spawnFails : PlaneInput := { quiet with rejected := some (js "posix_spawn failed") }

end PlaneInput

def sampleOptions : ValkeyProcessManagerOptions := ⟨true, 6380, 6479, by decide⟩

/-- An instance gets a server and another one a degraded endpoint, and the first one is stopped. -/
def startsAndStop : List PlaneEvent :=
  Exclusive.alone 0 "a" (start sampleOptions "a")
      [.quiet, .quiet, .withBinary, .quiet, .quiet, .quiet, .listening, .quiet, .quiet] ++
    Exclusive.alone 1 "b" (start sampleOptions "b") (List.replicate 7 .quiet) ++
    Exclusive.alone 2 "a" (stop "a") (List.replicate 4 .quiet)

theorem calls_startsAndStop {key : JsString} {script : PlaneScript Unit}
    (hcall : .call key script ∈ startsAndStop) : PlaneCall sampleOptions key script := by
  simp only [startsAndStop, List.mem_append, or_assoc] at hcall
  rcases hcall with hcall | hcall | hcall
  · obtain ⟨rfl, rfl⟩ := Exclusive.mem_alone hcall
    exact .start
  · obtain ⟨rfl, rfl⟩ := Exclusive.mem_alone hcall
    exact .start
  · obtain ⟨rfl, rfl⟩ := Exclusive.mem_alone hcall
    exact .stop

/-- A start whose spawn throws. -/
def startThrows : List PlaneEvent :=
  Exclusive.alone 0 "a" (start sampleOptions "a")
    [.quiet, .quiet, .withBinary, .quiet, .quiet, .spawnFails]

/-- Whether an ask gives a holder to a port. -/
def PlaneAsk.tracks : PlaneAsk → Bool
  | .trackServer _ _ | .trackDegraded _ _ => true
  | _ => false

theorem portOf_perform {plane : ValkeyPlane} {ask : PlaneAsk} (input : PlaneInput)
    (hask : ask.tracks = false) (h : ∀ holder, plane.portOf holder = none) (holder : Holder) :
    (plane.perform input ask).1.portOf holder = none := by
  have hupdate : ∀ {α : Type} {map : JsString → Option α} (name : JsString), (∀ name, map name = none) →
      ∀ other, Function.update map name none other = none := by
    intro α map name hmap other
    rw [Function.update_apply]
    split
    · rfl
    · exact hmap other
  have hservers : ∀ name, plane.serversByInstanceName name = none :=
    fun name => Option.map_eq_none_iff.1 (h (.server name))
  have hdegraded : ∀ name, plane.degradedPortsByInstanceName name = none := fun name => h (.degraded name)
  cases ask with
  | trackServer | trackDegraded => cases hask
  | untrackDegraded name =>
    dsimp only [ValkeyPlane.perform]
    rw [hdegraded name]
    cases holder with
    | server other => exact h (.server other)
    | degraded other => exact hupdate name hdegraded other
  | untrackServer name port =>
    cases holder with
    | server other => exact Option.map_eq_none_iff.2 (hupdate name hservers other)
    | degraded other => exact hdegraded other
  | claim name port =>
    dsimp only [ValkeyPlane.perform]
    split <;> exact h holder
  | shutdown name process | spawn name port =>
    dsimp only [ValkeyPlane.perform]
    split <;> exact h holder
  | resolveBinaryPath | isPortListening | release | waitUntilPortIsListening | advertise => exact h holder

end Kinglet.Memorystore
