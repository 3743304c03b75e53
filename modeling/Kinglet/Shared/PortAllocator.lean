import Kinglet.Library.Interleaving
import Mathlib.Data.Int.Interval

/-!
# The port allocator

A port is claimed before it is probed, and given back when something answers there. `allocateBound`
goes on with the next port when one cannot be bound, and keeps those it tried until it ends. Calls
interleave at every await of a claim. With the claimed ports go the ports that callers hold, which
the code does not keep; that each `release` gives back such a port is a condition on the callers.

* `Call.reserved`: the ports that a call in flight has claimed, which are nobody else's.
* `Turn`: what a segment does with the ports.
-/

namespace Kinglet.Shared

open Library

structure PortAllocatorOptions where
  portRangeStart : ℤ
  portRangeEnd : ℤ

/-- The claimed ports, and those that `allocate` and `allocateBound` returned and nobody released. -/
structure Ports where
  allocatedPorts : Finset ℤ
  held : List ℤ

/-- `allocate()` at one of its awaits: it claimed a port and probes it, or its claim failed; with the
next port to scan. -/
inductive Allocating
  | claimed (port next : ℤ)
  | refused (next : ℤ)

inductive PortRequest
  | allocate (preferredPort : Option ℤ)
  | allocateBound (preferredPort : Option ℤ)
  | release (port : ℤ)

inductive PortCall
  | allocate (preferredPort : Option ℤ)
  | allocating (stage : Allocating)
  | allocateBound (preferredPort : Option ℤ)
  | binding (preferredPort : Option ℤ) (portsThatRefusedToBind : List ℤ) (stage : Allocating)
  | release (port : ℤ)

/-- The port that a call gives back. -/
def PortCall.releases : PortCall → Option ℤ
  | .release port => port
  | _ => none

/-- What a call returns; an `allocateBound` with the ports that refused to bind. -/
inductive PortOutcome
  | allocated (port : Option ℤ)
  | bound (port : ℤ) (refused : List ℤ)
  | exhausted (refused : List ℤ)
  | threw (refused : List ℤ)
  | released
  deriving DecidableEq

/-- Whether something answers at the probed port, whether `bind` succeeds, and whether
`onBindFailure` throws. -/
structure PortInput where
  isListening : Bool
  binds : Bool
  reportThrows : Bool

def PortRequest.begin : PortRequest → PortCall
  | .allocate preferredPort => .allocate preferredPort
  | .allocateBound preferredPort => .allocateBound preferredPort
  | .release port => .release port

namespace PortAllocatorOptions

variable (options : PortAllocatorOptions)

def InRange (port : ℤ) : Prop := options.portRangeStart ≤ port ∧ port ≤ options.portRangeEnd

instance (port : ℤ) : Decidable (options.InRange port) :=
  inferInstanceAs (Decidable (_ ∧ _))

/-- How many ports the range has. -/
def size : ℕ := (options.portRangeEnd + 1 - options.portRangeStart).toNat

/-! ## Allocating -/

/-- `claim(port)`, up to the probe. -/
def claim (ports : Finset ℤ) (port next : ℤ) : Finset ℤ × Progress Allocating (Option ℤ) :=
  if options.InRange port ∧ port ∉ ports then (insert port ports, .pending (.claimed port next))
  else (ports, .pending (.refused next))

/-- A turn of the loop over the range. -/
def scan (ports : Finset ℤ) (port : ℤ) : Finset ℤ × Progress Allocating (Option ℤ) :=
  if port ≤ options.portRangeEnd then options.claim ports port (port + 1) else (ports, .finished none)

/-- `allocate(options)`, up to its first await. -/
def beginAllocate (ports : Finset ℤ) (preferredPort : Option ℤ) :
    Finset ℤ × Progress Allocating (Option ℤ) :=
  match preferredPort with
  | some port => options.claim ports port options.portRangeStart
  | none => options.scan ports options.portRangeStart

def allocateSegment (ports : Finset ℤ) (isListening : Bool) :
    Allocating → Finset ℤ × Progress Allocating (Option ℤ)
  | .claimed port next =>
      if isListening then (ports.erase port, .pending (.refused next))
      else (ports, .finished (some port))
  | .refused next => options.scan ports next

/-- `allocate` that began or goes on. -/
def allocateLoop (ports : Ports) :
    Finset ℤ × Progress Allocating (Option ℤ) → Ports × Progress PortCall PortOutcome
  | (allocated, .pending stage) | (allocated, .forked stage _) =>
      ({ ports with allocatedPorts := allocated }, .pending (.allocating stage))
  | (allocated, .finished port) =>
      ({ allocatedPorts := allocated, held := ports.held ++ port.toList },
        .finished (.allocated port))

/-! ## Binding -/

/-- The `finally` of `allocateBound`. -/
def releaseAll (ports : Finset ℤ) (refused : List ℤ) : Finset ℤ := refused.foldl Finset.erase ports

/-- The loop of `allocateBound`, behind an `allocate` that began or goes on; the port that it returns
is bound. -/
def bindLoop (ports : Ports) (preferredPort : Option ℤ) (refused : List ℤ) :
    Finset ℤ × Progress Allocating (Option ℤ) → Ports × Progress PortCall PortOutcome
  | (allocated, .pending stage) | (allocated, .forked stage _) =>
      ({ ports with allocatedPorts := allocated }, .pending (.binding preferredPort refused stage))
  | (allocated, .finished none) =>
      ({ ports with allocatedPorts := releaseAll allocated refused }, .finished (.exhausted refused))
  | (allocated, .finished (some port)) =>
      ({ allocatedPorts := releaseAll allocated refused, held := ports.held ++ [port] },
        .finished (.bound port refused))

/-- What `allocateBound` does when `bind(port)` throws. -/
def refuse (ports : Ports) (preferredPort : Option ℤ) (refused : List ℤ) (reportThrows : Bool) :
    Ports × Progress PortCall PortOutcome :=
  if reportThrows then
    ({ ports with allocatedPorts := releaseAll ports.allocatedPorts refused },
      .finished (.threw refused))
  else
    bindLoop ports preferredPort refused (options.beginAllocate ports.allocatedPorts preferredPort)

def segment (ports : Ports) (call : PortCall) (input : PortInput) :
    Ports × Progress PortCall PortOutcome :=
  match call with
  | .allocate preferredPort =>
      allocateLoop ports (options.beginAllocate ports.allocatedPorts preferredPort)
  | .allocating stage =>
      allocateLoop ports (options.allocateSegment ports.allocatedPorts input.isListening stage)
  | .allocateBound preferredPort =>
      bindLoop ports preferredPort [] (options.beginAllocate ports.allocatedPorts preferredPort)
  | .binding preferredPort refused (.claimed port next) =>
      if !input.isListening && !input.binds then
        options.refuse ports preferredPort (refused ++ [port]) input.reportThrows
      else
        bindLoop ports preferredPort refused
          (options.allocateSegment ports.allocatedPorts input.isListening (.claimed port next))
  | .binding preferredPort refused (.refused next) =>
      bindLoop ports preferredPort refused
        (options.allocateSegment ports.allocatedPorts input.isListening (.refused next))
  | .release port =>
      ({ allocatedPorts := ports.allocatedPorts.erase port, held := ports.held.erase port },
        .finished .released)

def allocator : Async Ports PortRequest PortCall PortInput PortOutcome :=
  ⟨PortRequest.begin, options.segment⟩

end PortAllocatorOptions

/-- A caller releases a port that it holds. -/
def ReleasesHeld (pool : Pool Ports PortCall PortOutcome) : Move PortRequest PortInput → Prop
  | .start _ => True
  | .resume index _ => ∀ call ∈ pool.calls[index]?,
      ∀ port ∈ call.releases, port ∈ pool.shared.held

instance (pool : Pool Ports PortCall PortOutcome) : ∀ m, Decidable (ReleasesHeld pool m)
  | .start _ => .isTrue trivial
  | .resume index _ => inferInstanceAs <| Decidable <| ∀ call ∈ pool.calls[index]?,
      ∀ port ∈ call.releases, port ∈ pool.shared.held

/-! ## What a segment does with the ports -/

/-- The ports that a call in flight has claimed. -/
def PortCall.reserved : PortCall → List ℤ
  | .allocating (.claimed port _) => [port]
  | .binding _ refused (.claimed port _) => port :: refused
  | .binding _ refused (.refused _) => refused
  | _ => []

def PortOutcome.refused : PortOutcome → List ℤ
  | .bound _ refused | .exhausted refused | .threw refused => refused
  | _ => []

/-- How often the call tried to bind. -/
def PortOutcome.attempts : PortOutcome → ℕ
  | .bound _ refused => refused.length + 1
  | .exhausted refused | .threw refused => refused.length
  | _ => 0

/-- A port that a caller holds is claimed, and held by one caller only. -/
structure Sound (options : PortAllocatorOptions) (ports : Ports) : Prop where
  claimed : ∀ port ∈ ports.held, port ∈ ports.allocatedPorts
  nodup : ports.held.Nodup
  inRange : ∀ port ∈ ports.allocatedPorts, options.InRange port

/-- A list of claimed ports that nobody holds. -/
def Reserves (ports : Ports) (reserved : List ℤ) : Prop :=
  reserved.Nodup ∧ ∀ port ∈ reserved, port ∈ ports.allocatedPorts ∧ port ∉ ports.held

structure Turn (options : PortAllocatorOptions) (ports : Ports) (reserved : List ℤ)
    (result : Ports × Progress PortCall PortOutcome) : Prop where
  sound : Sound options result.1
  /-- Ports of others stay claimed, -/
  kept : ∀ port ∈ ports.allocatedPorts, port ∉ reserved → port ∉ ports.held →
    port ∈ result.1.allocatedPorts
  /-- a port that is held now was held before or the call's, -/
  held : ∀ port ∈ result.1.held, port ∈ ports.held ∨ port ∈ reserved
  /-- and what the call reserves was its own before or free. -/
  reserves : ∀ rest ∈ result.2.calls, Reserves result.1 rest.reserved ∧
    ∀ port ∈ rest.reserved, port ∈ reserved ∨ port ∉ ports.allocatedPorts
  single : result.2.calls.length ≤ 1
  freed : ∀ outcome, result.2 = .finished outcome → ∀ port ∈ outcome.refused,
    port ∉ result.1.allocatedPorts
  attempts : ∀ outcome, result.2 = .finished outcome → outcome.attempts ≤ options.size

variable {options : PortAllocatorOptions} {ports : Ports} {reserved refused : List ℤ}

theorem mem_releaseAll {allocated : Finset ℤ} {port : ℤ} :
    port ∈ PortAllocatorOptions.releaseAll allocated refused ↔ port ∈ allocated ∧ port ∉ refused := by
  unfold PortAllocatorOptions.releaseAll
  induction refused generalizing allocated with
  | nil => simp
  | cons first refused ih =>
    rw [List.foldl_cons, ih, Finset.mem_erase, List.mem_cons]
    tauto

/-- Distinct ports of the range are no more than the range has. -/
theorem length_le_size (hnodup : refused.Nodup) (hrange : ∀ port ∈ refused, options.InRange port) :
    refused.length ≤ options.size := by
  have hsub : refused.toFinset ⊆ Finset.Icc options.portRangeStart options.portRangeEnd := by
    intro port hport
    exact Finset.mem_Icc.2 (hrange port (List.mem_toFinset.1 hport))
  have hcard := Finset.card_le_card hsub
  rwa [List.toFinset_card_of_nodup hnodup, Int.card_Icc] at hcard

/-- What the beginning of `allocate` does, and a turn of its loop: it claims a free port of the
range, or fails to. -/
inductive Claims (options : PortAllocatorOptions) (allocated : Finset ℤ) :
    Finset ℤ × Progress Allocating (Option ℤ) → Prop
  | claimed {port next : ℤ} (hrange : options.InRange port) (hfree : port ∉ allocated) :
      Claims options allocated (insert port allocated, .pending (.claimed port next))
  | refused {next : ℤ} : Claims options allocated (allocated, .pending (.refused next))
  | exhausted : Claims options allocated (allocated, .finished none)

theorem claims_claim (allocated : Finset ℤ) (port next : ℤ) :
    Claims options allocated (options.claim allocated port next) := by
  unfold PortAllocatorOptions.claim
  split
  · exact .claimed (‹_ ∧ _›).1 (‹_ ∧ _›).2
  · exact .refused

theorem claims_scan (allocated : Finset ℤ) (port : ℤ) :
    Claims options allocated (options.scan allocated port) := by
  unfold PortAllocatorOptions.scan
  split
  · exact claims_claim ..
  · exact .exhausted

theorem claims_beginAllocate (allocated : Finset ℤ) (preferredPort : Option ℤ) :
    Claims options allocated (options.beginAllocate allocated preferredPort) := by
  unfold PortAllocatorOptions.beginAllocate
  split
  · exact claims_claim ..
  · exact claims_scan ..

theorem Sound.insert (h : Sound options ports) {port : ℤ} (hrange : options.InRange port) :
    Sound options { ports with allocatedPorts := insert port ports.allocatedPorts } :=
  { h with
    claimed := fun held hheld => Finset.mem_insert_of_mem (h.claimed held hheld)
    inRange := fun other hother => by
      rcases Finset.mem_insert.1 hother with rfl | hother
      · exact hrange
      · exact h.inRange other hother }

/-- Ports that nobody holds can be given back. -/
theorem Sound.releaseAll (h : Sound options ports) (hrefused : ∀ port ∈ refused, port ∉ ports.held) :
    Sound options { ports with
      allocatedPorts := PortAllocatorOptions.releaseAll ports.allocatedPorts refused } :=
  { h with
    claimed := fun held hheld => mem_releaseAll.2 ⟨h.claimed held hheld, fun hmem =>
      hrefused held hmem hheld⟩
    inRange := fun port hport => h.inRange port (mem_releaseAll.1 hport).1 }

/-- A claimed port that nobody holds can be returned. -/
theorem Sound.hold (h : Sound options ports) {port : ℤ} (hclaimed : port ∈ ports.allocatedPorts)
    (hfree : port ∉ ports.held) : Sound options { ports with held := ports.held ++ [port] } :=
  { h with
    claimed := fun held hheld => by
      rcases List.mem_append.1 hheld with hheld | hheld
      · exact h.claimed held hheld
      · obtain rfl := List.mem_singleton.1 hheld
        exact hclaimed
    nodup := List.nodup_append'.2 ⟨h.nodup, List.nodup_singleton _, by simpa using hfree⟩ }

theorem turn_allocateLoop (h : Sound options ports)
    {result : Finset ℤ × Progress Allocating (Option ℤ)}
    (hclaims : Claims options ports.allocatedPorts result) :
    Turn options ports [] (PortAllocatorOptions.allocateLoop ports result) := by
  cases hclaims with
  | @claimed port next hrange hfree =>
    refine ⟨h.insert hrange, fun other hother _ _ => Finset.mem_insert_of_mem hother,
      fun _ hheld => .inl hheld, fun rest hrest => ?_, le_rfl, nofun, nofun⟩
    obtain rfl := List.mem_singleton.1 hrest
    have hheld : port ∉ ports.held := fun hheld => hfree (h.claimed port hheld)
    exact ⟨⟨List.nodup_singleton _,
      List.forall_mem_singleton.2 ⟨Finset.mem_insert_self _ _, hheld⟩⟩,
      List.forall_mem_singleton.2 (.inr hfree)⟩
  | refused =>
    refine ⟨h, fun _ hother _ _ => hother, fun _ hheld => .inl hheld, fun rest hrest => ?_, le_rfl,
      nofun, nofun⟩
    obtain rfl := List.mem_singleton.1 hrest
    exact ⟨⟨List.nodup_nil, nofun⟩, nofun⟩
  | exhausted =>
    refine ⟨?_, fun _ hother _ _ => hother, fun port hheld => .inl ?_, nofun, Nat.zero_le _, ?_, ?_⟩
    · simpa [PortAllocatorOptions.allocateLoop] using h
    · simpa [PortAllocatorOptions.allocateLoop] using hheld
    · rintro _ ⟨⟩ port hport
      cases hport
    · rintro _ ⟨⟩
      exact Nat.zero_le _

/-- The loop of `allocateBound`, with the ports that refused so far. -/
theorem turn_bindLoop (h : Sound options ports) (preferredPort : Option ℤ)
    (hrefused : Reserves ports refused) (hown : ∀ port, port ∈ refused ↔ port ∈ reserved)
    {result : Finset ℤ × Progress Allocating (Option ℤ)}
    (hclaims : Claims options ports.allocatedPorts result) :
    Turn options ports reserved
      (PortAllocatorOptions.bindLoop ports preferredPort refused result) := by
  obtain ⟨hnodup, hreserved⟩ := hrefused
  have hsize : refused.length ≤ options.size :=
    length_le_size hnodup fun port hport => h.inRange port (hreserved port hport).1
  cases hclaims with
  | @claimed port next hrange hfree =>
    refine ⟨h.insert hrange, fun other hother _ _ => Finset.mem_insert_of_mem hother,
      fun _ hheld => .inl hheld, fun rest hrest => ?_, le_rfl, nofun, nofun⟩
    obtain rfl := List.mem_singleton.1 hrest
    have hheld : port ∉ ports.held := fun hheld => hfree (h.claimed port hheld)
    refine ⟨⟨List.nodup_cons.2 ⟨fun hmem => hfree (hreserved port hmem).1, hnodup⟩,
      List.forall_mem_cons.2 ⟨⟨Finset.mem_insert_self _ _, hheld⟩, fun other hother => ?_⟩⟩,
      List.forall_mem_cons.2 ⟨.inr hfree, fun other hother => .inl ((hown other).1 hother)⟩⟩
    exact ⟨Finset.mem_insert_of_mem (hreserved other hother).1, (hreserved other hother).2⟩
  | refused =>
    refine ⟨h, fun _ hother _ _ => hother, fun _ hheld => .inl hheld, fun rest hrest => ?_, le_rfl,
      nofun, nofun⟩
    obtain rfl := List.mem_singleton.1 hrest
    exact ⟨⟨hnodup, hreserved⟩, fun port hport => .inl ((hown port).1 hport)⟩
  | exhausted =>
    refine ⟨h.releaseAll fun port hport => (hreserved port hport).2, fun port hport hnot _ => ?_,
      fun _ hheld => .inl hheld, nofun, Nat.zero_le _, ?_, ?_⟩
    · exact mem_releaseAll.2 ⟨hport, fun hmem => hnot ((hown port).1 hmem)⟩
    · rintro _ ⟨⟩ port hport
      exact fun hmem => (mem_releaseAll.1 hmem).2 hport
    · rintro _ ⟨⟩
      exact hsize

/-- Something answers at the claimed port, which is given back. -/
theorem Sound.erase (h : Sound options ports) {port : ℤ} (hfree : port ∉ ports.held) :
    Sound options { ports with allocatedPorts := ports.allocatedPorts.erase port } :=
  { h with
    claimed := fun held hheld => by
      refine Finset.mem_erase.2 ⟨?_, h.claimed held hheld⟩
      rintro rfl
      exact hfree hheld
    inRange := fun other hother => h.inRange other (Finset.mem_of_mem_erase hother) }

/-- The probe of a claimed port ends. -/
theorem turn_allocating (h : Sound options ports) {port next : ℤ}
    (hreserved : Reserves ports [port]) (isListening : Bool) :
    Turn options ports [port] (PortAllocatorOptions.allocateLoop ports
      (options.allocateSegment ports.allocatedPorts isListening (.claimed port next))) := by
  obtain ⟨hclaimed, hfree⟩ := hreserved.2 port List.mem_cons_self
  cases isListening with
  | true =>
    refine ⟨h.erase hfree, fun other hother hne _ => ?_, fun _ hheld => .inl hheld,
      fun rest hrest => ?_, le_rfl, nofun, nofun⟩
    · exact Finset.mem_erase.2 ⟨fun heq => hne (List.mem_singleton.2 heq), hother⟩
    · obtain rfl := List.mem_singleton.1 hrest
      exact ⟨⟨List.nodup_nil, nofun⟩, nofun⟩
  | false =>
    refine ⟨h.hold hclaimed hfree, fun _ hother _ _ => hother, fun other hother => ?_, nofun,
      Nat.zero_le _, ?_, ?_⟩
    · exact List.mem_append.1 hother
    · rintro _ ⟨⟩ other hother
      cases hother
    · rintro _ ⟨⟩
      exact Nat.zero_le _

/-- The same for `allocateBound`, where `bind` may fail. -/
theorem turn_binding (h : Sound options ports) (preferredPort : Option ℤ) {port next : ℤ}
    (hreserved : Reserves ports (port :: refused)) (input : PortInput) :
    Turn options ports (port :: refused)
      (options.segment ports (.binding preferredPort refused (.claimed port next)) input) := by
  obtain ⟨hnodup, hall⟩ := hreserved
  obtain ⟨hfresh, hrest⟩ := List.nodup_cons.1 hnodup
  obtain ⟨⟨hclaimed, hfree⟩, hrefused⟩ := List.forall_mem_cons.1 hall
  have hsize : refused.length + 1 ≤ options.size :=
    length_le_size hnodup fun other hother => h.inRange other (hall other hother).1
  obtain ⟨isListening, binds, reportThrows⟩ := input
  simp only [PortAllocatorOptions.segment]
  cases isListening with
  | true =>
    refine ⟨h.erase hfree, fun other hother hne _ => ?_, fun _ hheld => .inl hheld,
      fun rest hrest' => ?_, le_rfl, nofun, nofun⟩
    · exact Finset.mem_erase.2 ⟨fun heq => hne (heq ▸ List.mem_cons_self), hother⟩
    · obtain rfl := List.mem_singleton.1 hrest'
      refine ⟨⟨hrest, fun other hother => ⟨?_, (hrefused other hother).2⟩⟩,
        fun other hother => .inl (List.mem_cons_of_mem _ hother)⟩
      refine Finset.mem_erase.2 ⟨?_, (hrefused other hother).1⟩
      rintro rfl
      exact hfresh hother
  | false =>
    cases binds with
    | true =>
      have hreleased := h.releaseAll fun other hother => (hrefused other hother).2
      refine ⟨hreleased.hold (mem_releaseAll.2 ⟨hclaimed, hfresh⟩) hfree,
        fun other hother hne _ => ?_, fun other hother => ?_, nofun, Nat.zero_le _, ?_, ?_⟩
      · exact mem_releaseAll.2 ⟨hother, fun hmem => hne (List.mem_cons_of_mem _ hmem)⟩
      · rcases List.mem_append.1 hother with hother | hother
        · exact .inl hother
        · exact .inr (List.mem_singleton.1 hother ▸ List.mem_cons_self)
      · rintro _ ⟨⟩ other hother
        exact fun hmem => (mem_releaseAll.1 hmem).2 hother
      · rintro _ ⟨⟩
        exact hsize
    | false =>
      -- the port joins those that refused
      have hown : ∀ other, other ∈ refused ++ [port] ↔ other ∈ port :: refused := by
        intro other
        simp [or_comm]
      have hreserves : Reserves ports (refused ++ [port]) := by
        refine ⟨?_, fun other hother => hall other ((hown other).1 hother)⟩
        exact List.nodup_append'.2 ⟨hrest, List.nodup_singleton _, by simpa using hfresh⟩
      simp only [Bool.not_false, Bool.and_self, if_true, PortAllocatorOptions.refuse]
      cases reportThrows with
      | true =>
        refine ⟨h.releaseAll fun other hother => (hreserves.2 other hother).2,
          fun other hother hne _ => ?_, fun _ hheld => .inl hheld, nofun, Nat.zero_le _, ?_, ?_⟩
        · exact mem_releaseAll.2 ⟨hother, fun hmem => hne ((hown other).1 hmem)⟩
        · rintro _ ⟨⟩ other hother
          exact fun hmem => (mem_releaseAll.1 hmem).2 hother
        · rintro _ ⟨⟩
          simpa [PortOutcome.attempts] using hsize
      | false => exact turn_bindLoop h preferredPort hreserves hown (claims_beginAllocate ..)

theorem turn_segment (h : Sound options ports) {call : PortCall}
    (hreserved : Reserves ports call.reserved)
    (hreleases : ∀ port ∈ call.releases, port ∈ ports.held) (input : PortInput) :
    Turn options ports call.reserved (options.segment ports call input) := by
  cases call with
  | allocate preferredPort => exact turn_allocateLoop h (claims_beginAllocate ..)
  | allocating stage =>
    cases stage with
    | claimed port next => exact turn_allocating h hreserved _
    | refused next => exact turn_allocateLoop h (claims_scan ..)
  | allocateBound preferredPort =>
    exact turn_bindLoop h preferredPort ⟨List.nodup_nil, nofun⟩ (fun _ => Iff.rfl)
      (claims_beginAllocate ..)
  | binding preferredPort refused stage =>
    cases stage with
    | claimed port next => exact turn_binding h preferredPort hreserved input
    | refused next =>
      exact turn_bindLoop h preferredPort hreserved (fun _ => Iff.rfl) (claims_scan ..)
  | release port =>
    have hheld : port ∈ ports.held := hreleases port rfl
    refine ⟨⟨fun other hother => ?_, h.nodup.erase _, fun other hother =>
      h.inRange other (Finset.mem_of_mem_erase hother)⟩, fun other hother _ hnot => ?_,
      fun other hother => .inl (List.mem_of_mem_erase hother), nofun, Nat.zero_le _, ?_, ?_⟩
    · obtain ⟨hne, hother⟩ := (h.nodup.mem_erase_iff).1 hother
      exact Finset.mem_erase.2 ⟨hne, h.claimed other hother⟩
    · refine Finset.mem_erase.2 ⟨?_, hother⟩
      rintro rfl
      exact hnot hheld
    · rintro _ ⟨⟩ other hother
      cases hother
    · rintro _ ⟨⟩
      exact Nat.zero_le _

/-! ## How long a call takes -/

/-- How many segments of `allocate` are left, at most. -/
def Allocating.fuel (options : PortAllocatorOptions) : Allocating → ℕ
  | .claimed _ next => 2 * (options.portRangeEnd + 1 - next).toNat + 2
  | .refused next => 2 * (options.portRangeEnd + 1 - next).toNat + 1

/-- How many segments of a call are left, at most. -/
def PortCall.fuel (options : PortAllocatorOptions) : PortCall → ℕ
  | .allocate _ => 2 * options.size + 3
  | .allocating stage => stage.fuel options
  | .allocateBound _ => options.size * (2 * options.size + 3) + (2 * options.size + 3)
  | .binding _ refused stage =>
      (options.size - refused.length) * (2 * options.size + 3) + stage.fuel options
  | .release _ => 1

theorem fuel_claim {allocated : Finset ℤ} {port next : ℤ} {stage : Allocating}
    (h : (options.claim allocated port next).2 = .pending stage) :
    stage.fuel options ≤ 2 * (options.portRangeEnd + 1 - next).toNat + 2 := by
  unfold PortAllocatorOptions.claim at h
  split at h
  · obtain rfl := Progress.pending.inj h
    exact le_rfl
  · obtain rfl := Progress.pending.inj h
    exact Nat.le_succ _

theorem fuel_scan {allocated : Finset ℤ} {next : ℤ} {stage : Allocating}
    (h : (options.scan allocated next).2 = .pending stage) :
    stage.fuel options ≤ 2 * (options.portRangeEnd + 1 - next).toNat := by
  unfold PortAllocatorOptions.scan at h
  split at h
  · have hclaim := fuel_claim h
    omega
  · cases h

theorem fuel_beginAllocate {allocated : Finset ℤ} {preferredPort : Option ℤ} {stage : Allocating}
    (h : (options.beginAllocate allocated preferredPort).2 = .pending stage) :
    stage.fuel options ≤ 2 * options.size + 2 := by
  unfold PortAllocatorOptions.beginAllocate at h
  split at h
  · exact fuel_claim h
  · exact (fuel_scan h).trans (Nat.le_add_right _ 2)

theorem fuel_allocateSegment {allocated : Finset ℤ} {isListening : Bool} {stage rest : Allocating}
    (h : (options.allocateSegment allocated isListening stage).2 = .pending rest) :
    rest.fuel options < stage.fuel options := by
  cases stage with
  | claimed port next =>
    cases isListening with
    | true =>
      obtain rfl := Progress.pending.inj h
      exact Nat.lt_succ_self _
    | false => cases h
  | refused next => exact Nat.lt_succ_of_le (fuel_scan h)

theorem mem_allocateLoop {result : Finset ℤ × Progress Allocating (Option ℤ)} {rest : PortCall}
    (hsingle : ∀ stage started, result.2 ≠ .forked stage started)
    (h : rest ∈ (PortAllocatorOptions.allocateLoop ports result).2.calls) :
    ∃ stage, result.2 = .pending stage ∧ rest = .allocating stage := by
  obtain ⟨allocated, stage | ⟨stage, started⟩ | port⟩ := result
  · exact ⟨stage, rfl, List.mem_singleton.1 h⟩
  · exact absurd rfl (hsingle stage started)
  · cases h

theorem mem_bindLoop {preferredPort : Option ℤ}
    {result : Finset ℤ × Progress Allocating (Option ℤ)} {rest : PortCall}
    (hsingle : ∀ stage started, result.2 ≠ .forked stage started)
    (h : rest ∈ (PortAllocatorOptions.bindLoop ports preferredPort refused result).2.calls) :
    ∃ stage, result.2 = .pending stage ∧ rest = .binding preferredPort refused stage := by
  obtain ⟨allocated, stage | ⟨stage, started⟩ | _ | port⟩ := result
  · exact ⟨stage, rfl, List.mem_singleton.1 h⟩
  · exact absurd rfl (hsingle stage started)
  · cases h
  · cases h

theorem Claims.single {allocated : Finset ℤ} {result : Finset ℤ × Progress Allocating (Option ℤ)}
    (h : Claims options allocated result) (stage : Allocating) (started : List Allocating) :
    result.2 ≠ .forked stage started := by
  cases h <;> exact nofun

theorem allocateSegment_single (allocated : Finset ℤ) (isListening : Bool) (stage rest : Allocating)
    (started : List Allocating) :
    (options.allocateSegment allocated isListening stage).2 ≠ .forked rest started := by
  cases stage with
  | claimed port next => cases isListening <;> exact nofun
  | refused next => exact (claims_scan allocated next).single rest started

/-- **Each segment brings its call closer to the end.** -/
theorem fuel_segment (h : Sound options ports) {call rest : PortCall}
    (hreserved : Reserves ports call.reserved) {input : PortInput}
    (hrest : rest ∈ (options.segment ports call input).2.calls) :
    rest.fuel options < call.fuel options := by
  cases call with
  | allocate preferredPort =>
    obtain ⟨stage, hstage, rfl⟩ := mem_allocateLoop (claims_beginAllocate ..).single hrest
    exact Nat.lt_succ_of_le (fuel_beginAllocate hstage)
  | allocating stage =>
    obtain ⟨stage, hstage, rfl⟩ := mem_allocateLoop (allocateSegment_single _ _ _) hrest
    exact fuel_allocateSegment hstage
  | allocateBound preferredPort =>
    obtain ⟨stage, hstage, rfl⟩ := mem_bindLoop (claims_beginAllocate ..).single hrest
    exact Nat.add_lt_add_left (Nat.lt_succ_of_le (fuel_beginAllocate hstage)) _
  | binding preferredPort refused stage =>
    have hgo : ∀ stage', (options.allocateSegment ports.allocatedPorts input.isListening stage).2 =
        .pending stage' →
        (PortCall.binding preferredPort refused stage').fuel options <
          (PortCall.binding preferredPort refused stage).fuel options :=
      fun stage' hstage => Nat.add_lt_add_left (fuel_allocateSegment hstage) _
    cases stage with
    | claimed port next =>
      simp only [PortAllocatorOptions.segment] at hrest
      split at hrest
      · unfold PortAllocatorOptions.refuse at hrest
        split at hrest
        · cases hrest
        · obtain ⟨stage, hstage, rfl⟩ := mem_bindLoop (claims_beginAllocate ..).single hrest
          have hlt : refused.length + 1 ≤ options.size :=
            length_le_size hreserved.1 fun other hother =>
              h.inRange other (hreserved.2 other hother).1
          have hfuel := fuel_beginAllocate hstage
          -- one more port has refused, which pays for the new search
          obtain ⟨left, hleft⟩ : ∃ left, options.size - refused.length = left + 1 :=
            ⟨options.size - refused.length - 1, by omega⟩
          have hleft' : options.size - (refused ++ [port]).length = left := by
            simp only [List.length_append, List.length_singleton]
            omega
          simp only [PortCall.fuel, hleft, hleft', Nat.add_mul, Nat.one_mul]
          omega
      · obtain ⟨stage, hstage, rfl⟩ := mem_bindLoop (allocateSegment_single _ _ _) hrest
        exact hgo stage hstage
    | refused next =>
      obtain ⟨stage, hstage, rfl⟩ := mem_bindLoop (allocateSegment_single _ _ _) hrest
      exact hgo stage hstage
  | release port => cases hrest

/-! ## Every run -/

def portsApart (options : PortAllocatorOptions) : Outline Ports PortCall PortOutcome where
  Inv ports outcomes := Sound options ports ∧ ∀ outcome ∈ outcomes, outcome.attempts ≤ options.size
  Local ports call := Reserves ports call.reserved
  Pair call other := ∀ port ∈ call.reserved, port ∉ other.reserved
  symm h port hport hother := h port hother hport

theorem begins_portsApart : Outline.Begins options.allocator (portsApart options) ReleasesHeld := by
  intro pool request _ _
  cases request <;> exact ⟨⟨List.nodup_nil, nofun⟩, fun other _ port _ => List.not_mem_nil⟩

theorem segments_portsApart :
    Outline.Segments options.allocator (portsApart options) ReleasesHeld := by
  intro pool i input call h hallowed hcall
  have hreserved : Reserves pool.shared call.reserved := h.each call (List.mem_of_getElem? hcall)
  have hturn := turn_segment h.inv.1 hreserved (hallowed call hcall) input
  constructor
  · have hsound := hturn.sound
    have hrest := hturn.reserves
    have hattempts := hturn.attempts
    have hsingle := hturn.single
    simp only [PortAllocatorOptions.allocator]
    generalize options.segment pool.shared call input = result at hsound hrest hattempts hsingle
    obtain ⟨ports, rest | ⟨rest, started⟩ | outcome⟩ := result
    · exact ⟨⟨hsound, h.inv.2⟩, (hrest rest List.mem_cons_self).1⟩
    · obtain rfl : started = [] := by simpa [Progress.calls] using hsingle
      exact ⟨⟨hsound, h.inv.2⟩, fun call hmem => (hrest call hmem).1, List.pairwise_singleton ..⟩
    · refine ⟨hsound, fun other hother => ?_⟩
      rcases List.mem_append.1 hother with hother | hother
      · exact h.inv.2 other hother
      · obtain rfl := List.mem_singleton.1 hother
        exact hattempts other rfl
  · intro other hother
    obtain ⟨-, hlocal, hpair⟩ := h.pair_of_others hcall hother
    refine .of ⟨hlocal.1, fun port hport => ?_⟩ fun rest hrest port hport hmem => ?_
    · obtain ⟨hclaimed, hfree⟩ := hlocal.2 port hport
      have hnot : port ∉ call.reserved := fun hmem => hpair port hmem hport
      refine ⟨hturn.kept port hclaimed hnot hfree, fun hheld => ?_⟩
      rcases hturn.held port hheld with hheld | hmem
      · exact hfree hheld
      · exact hnot hmem
    · rcases (hturn.reserves rest hrest).2 port hport with hown | hfresh
      · exact hpair port hown hmem
      · exact hfresh (hlocal.2 port hmem).1

theorem portsApart_empty : (portsApart options).Holds ⟨⟨∅, []⟩, [], []⟩ :=
  .start ⟨⟨nofun, List.nodup_nil, nofun⟩, nofun⟩

/-- **The law of the allocator.** In every run in which callers release only what they hold, no port
is held twice, each held port is in the range, and no `allocateBound` binds more often than the range
has ports; each segment of a call brings it closer to its end, and the one that ends an
`allocateBound` leaves no port claimed that refused. -/
theorem port_allocator_law {ms : List (Move PortRequest PortInput)}
    {pool : Pool Ports PortCall PortOutcome}
    (hrun : Run (options.allocator.Step ReleasesHeld) ⟨⟨∅, []⟩, [], []⟩ ms pool) :
    pool.shared.held.Nodup ∧ (∀ port ∈ pool.shared.held, options.InRange port) ∧
      (∀ outcome ∈ pool.outcomes, outcome.attempts ≤ options.size) ∧
      ∀ i input, ReleasesHeld pool (.resume i input) → ∀ call, pool.calls[i]? = some call →
        (∀ rest ∈ (options.segment pool.shared call input).2.calls,
          rest.fuel options < call.fuel options) ∧
        ∀ outcome, (options.segment pool.shared call input).2 = .finished outcome →
          ∀ port ∈ outcome.refused,
            port ∉ (options.segment pool.shared call input).1.allocatedPorts := by
  have h := Outline.Holds.of_run begins_portsApart segments_portsApart hrun portsApart_empty
  obtain ⟨hsound, hattempts⟩ := h.inv
  refine ⟨hsound.nodup, fun port hport => hsound.inRange port (hsound.claimed port hport),
    hattempts, fun i input hallowed call hcall => ?_⟩
  have hreserved : Reserves pool.shared call.reserved := h.each call (List.mem_of_getElem? hcall)
  exact ⟨fun rest hrest => fuel_segment hsound hreserved hrest,
    (turn_segment hsound hreserved (hallowed call hcall) input).freed⟩

def twoPorts : PortAllocatorOptions := ⟨5432, 5433⟩

/-- Nothing answers, and what is bound is as given. -/
def resumeBinding (index : ℕ) (binds : Bool) : Move PortRequest PortInput :=
  .resume index ⟨false, binds, false⟩

def noPorts : Pool Ports PortCall PortOutcome := ⟨⟨∅, []⟩, [], []⟩

/-- The first port cannot be bound, the second can, and is released. -/
def boundOnce : List (Move PortRequest PortInput) :=
  [.start (.allocateBound none), resumeBinding 0 true, resumeBinding 0 false, resumeBinding 0 true,
    resumeBinding 0 true, .start (.release 5433), resumeBinding 0 true]

theorem port_allocator_law_boundOnce : ∃ pool,
    Run (twoPorts.allocator.Step ReleasesHeld) noPorts boundOnce pool ∧
      pool.outcomes = [.bound 5433 [5432], .released] ∧
      pool.shared.held.Nodup ∧ ∀ outcome ∈ pool.outcomes, outcome.attempts ≤ twoPorts.size := by
  obtain ⟨pool, hrun, htest⟩ : ∃ pool,
      Run (twoPorts.allocator.Step ReleasesHeld) noPorts boundOnce pool ∧
        decide (pool.outcomes = [.bound 5433 [5432], .released]) = true :=
    Async.exists_run (by decide)
  obtain ⟨hnodup, -, hattempts, -⟩ := port_allocator_law hrun
  exact ⟨pool, hrun, of_decide_eq_true htest, hnodup, hattempts⟩

/-- A port is released while it is probed for a caller, who then holds it together with the next. -/
def releasedInProbe : List (Move PortRequest PortInput) :=
  [.start (.allocate none), resumeBinding 0 true, .start (.release 5432), resumeBinding 1 true,
    .start (.allocate none), resumeBinding 1 true, resumeBinding 0 true, resumeBinding 0 true]

theorem not_port_allocator_law : ¬∀ (ms : List (Move PortRequest PortInput))
    (pool : Pool Ports PortCall PortOutcome),
    Run (twoPorts.allocator.Step fun _ _ => True) noPorts ms pool → pool.shared.held.Nodup := by
  intro hclaim
  obtain ⟨pool, hrun, htest⟩ : ∃ pool,
      Run (twoPorts.allocator.Step fun _ _ => True) noPorts releasedInProbe pool ∧
        decide (pool.shared.held = [5432, 5432]) = true :=
    Async.exists_run (by decide)
  have hnodup := hclaim _ pool hrun
  rw [of_decide_eq_true htest] at hnodup
  exact absurd hnodup (by decide)

end Kinglet.Shared
