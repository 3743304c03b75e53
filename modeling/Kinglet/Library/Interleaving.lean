import Kinglet.Library.Run
import Mathlib.Data.List.Perm.Basic
import Mathlib.Tactic.Tauto

/-!
# Interleaved calls

Calls share a state and run in segments: a segment is atomic, and between two segments of one call
any segments of the others may run. A proof outline gives an invariant of the shared state, an
assertion for each call in flight, and a relation between any two of them. It is enough that each
segment keeps its own assertions and those of every other call.
-/

namespace Kinglet.Library

/-- What a segment leaves of its call; it may start further calls. -/
inductive Progress (κ ω : Type*) where
  | pending (rest : κ)
  | forked (rest : κ) (started : List κ)
  | finished (outcome : ω)

/-- The calls a segment leaves in flight. -/
def Progress.calls {κ ω : Type*} : Progress κ ω → List κ
  | .pending rest => [rest]
  | .forked rest started => rest :: started
  | .finished _ => []

/-- What a segment's call returns, if it ends. -/
def Progress.outcomes {κ ω : Type*} : Progress κ ω → List ω
  | .finished outcome => [outcome]
  | .pending _ | .forked _ _ => []

/-- The calls in flight, with what the finished ones returned. -/
structure Pool (σ κ ω : Type*) where
  shared : σ
  calls : List κ
  outcomes : List ω

inductive Move (ρ ι : Type*) where
  | start (request : ρ)
  | resume (index : ℕ) (input : ι)

/-- A kind of call: how one begins, and its next segment. -/
structure Async (σ ρ κ ι ω : Type*) where
  begin : ρ → κ
  segment : σ → κ → ι → σ × Progress κ ω

variable {σ ρ κ ι ω : Type*}

namespace Async

variable (async : Async σ ρ κ ι ω)

/-- The pool after a segment of the call at an index. -/
def advance (pool : Pool σ κ ω) (index : ℕ) (result : σ × Progress κ ω) : Pool σ κ ω :=
  match result with
  | (shared, .pending rest) => { pool with shared := shared, calls := pool.calls.set index rest }
  | (shared, .forked rest started) =>
      { pool with shared := shared, calls := pool.calls.set index rest ++ started }
  | (shared, .finished outcome) =>
      { shared := shared
        calls := pool.calls.eraseIdx index
        outcomes := pool.outcomes ++ [outcome] }

def move (pool : Pool σ κ ω) : Move ρ ι → Option (Pool σ κ ω)
  | .start request => some { pool with calls := pool.calls ++ [async.begin request] }
  | .resume index input =>
      (pool.calls[index]?).map fun call =>
        advance pool index (async.segment pool.shared call input)

/-- A move that is allowed and possible. -/
def Step (Allowed : Pool σ κ ω → Move ρ ι → Prop) (pool : Pool σ κ ω) (m : Move ρ ι)
    (pool' : Pool σ κ ω) : Prop :=
  Allowed pool m ∧ async.move pool m = some pool'

/-- The moves from a pool, as long as they are allowed and possible. -/
def play (Allowed : Pool σ κ ω → Move ρ ι → Prop) [∀ pool m, Decidable (Allowed pool m)]
    (pool : Pool σ κ ω) : List (Move ρ ι) → Option (Pool σ κ ω)
  | [] => some pool
  | m :: ms =>
      if Allowed pool m then
        match async.move pool m with
        | some next => play Allowed next ms
        | none => none
      else none

variable {async}

/-- A move makes at most one call return, whose last segment it is. -/
theorem outcome_of_move {pool pool' : Pool σ κ ω} {m : Move ρ ι} {outcome : ω}
    (h : async.move pool m = some pool') (hmem : outcome ∈ pool'.outcomes) :
    outcome ∈ pool.outcomes ∨ ∃ index input call shared, m = .resume index input ∧
      pool.calls[index]? = some call ∧
      async.segment pool.shared call input = (shared, .finished outcome) ∧
      pool' = ⟨shared, pool.calls.eraseIdx index, pool.outcomes ++ [outcome]⟩ := by
  cases m with
  | start request =>
      obtain rfl := Option.some.inj h
      exact .inl hmem
  | resume index input =>
      obtain ⟨call, hcall, rfl⟩ := Option.map_eq_some_iff.1 h
      cases hsegment : async.segment pool.shared call input with
      | mk shared progress =>
          rw [hsegment] at hmem
          cases progress with
          | pending | forked => exact .inl hmem
          | finished returned =>
              rcases List.mem_append.1 hmem with hmem | hmem
              · exact .inl hmem
              · obtain rfl := List.mem_singleton.1 hmem
                exact .inr ⟨index, input, call, shared, rfl, hcall, hsegment, rfl⟩

theorem run_of_play {Allowed : Pool σ κ ω → Move ρ ι → Prop}
    [∀ pool m, Decidable (Allowed pool m)] {pool pool' : Pool σ κ ω} {ms : List (Move ρ ι)}
    (h : async.play Allowed pool ms = some pool') : Run (async.Step Allowed) pool ms pool' := by
  induction ms generalizing pool with
  | nil =>
      obtain rfl := Option.some.inj h
      exact .refl _
  | cons m ms ih =>
      rw [play] at h
      split at h
      · split at h
        · exact .head ⟨‹_›, ‹_›⟩ (ih h)
        · cases h
      · cases h

/-- What a run of given moves ends in, by evaluation. -/
theorem exists_run {Allowed : Pool σ κ ω → Move ρ ι → Prop}
    [∀ pool m, Decidable (Allowed pool m)] {pool : Pool σ κ ω} {ms : List (Move ρ ι)}
    {test : Pool σ κ ω → Bool} (h : (async.play Allowed pool ms).any test = true) :
    ∃ pool', Run (async.Step Allowed) pool ms pool' ∧ test pool' = true := by
  cases hplay : async.play Allowed pool ms with
  | none =>
      rw [hplay] at h
      cases h
  | some pool' =>
      rw [hplay] at h
      exact ⟨pool', run_of_play hplay, h⟩

variable (async)

/-- One call on its own, with an input for each segment, as long as it starts no others. -/
def alone (shared : σ) (call : κ) : List ι → Option (σ × ω)
  | [] => none
  | input :: inputs =>
      match async.segment shared call input with
      | (shared, .pending rest) => alone shared rest inputs
      | (_, .forked _ _) => none
      | (shared, .finished outcome) => some (shared, outcome)

@[simp] theorem advance_shared (pool : Pool σ κ ω) (index : ℕ) (result : σ × Progress κ ω) :
    (advance pool index result).shared = result.1 := by
  obtain ⟨s, rest | ⟨rest, started⟩ | outcome⟩ := result <;> rfl

@[simp] theorem advance_outcomes (pool : Pool σ κ ω) (index : ℕ) (result : σ × Progress κ ω) :
    (advance pool index result).outcomes = pool.outcomes ++ result.2.outcomes := by
  obtain ⟨s, rest | ⟨rest, started⟩ | outcome⟩ := result
  · exact (List.append_nil _).symm
  · exact (List.append_nil _).symm
  · rfl

/-- What allowed segments preserve of the shared state, steps preserve. -/
theorem shared_of_step {Allowed : Pool σ κ ω → Move ρ ι → Prop} {Inv : σ → Prop}
    (hsegment : ∀ pool index input call, Allowed pool (.resume index input) →
      pool.calls[index]? = some call → Inv pool.shared →
        Inv (async.segment pool.shared call input).1)
    {pool pool' : Pool σ κ ω} {m : Move ρ ι} (h : async.Step Allowed pool m pool')
    (hinv : Inv pool.shared) : Inv pool'.shared := by
  obtain ⟨hallowed, hmove⟩ := h
  cases m with
  | start request =>
      obtain rfl := Option.some.inj hmove
      exact hinv
  | resume index input =>
      obtain ⟨call, hcall, rfl⟩ := Option.map_eq_some_iff.1 hmove
      rw [advance_shared]
      exact hsegment pool index input call hallowed hcall hinv

/-- The calls after a segment: those it left, and the others. -/
theorem advance_perm {pool : Pool σ κ ω} {index : ℕ} {call : κ} {result : σ × Progress κ ω}
    (hcall : pool.calls[index]? = some call) :
    (advance pool index result).calls.Perm (result.2.calls ++ pool.calls.eraseIdx index) := by
  obtain ⟨hindex, -⟩ := List.getElem?_eq_some_iff.1 hcall
  obtain ⟨s, rest | ⟨rest, started⟩ | outcome⟩ := result
  · exact List.set_perm_cons_eraseIdx hindex rest
  · exact ((List.set_perm_cons_eraseIdx hindex rest).append_right started).trans
      (List.perm_append_comm.cons rest)
  · exact .refl _

theorem mem_advance {pool : Pool σ κ ω} {index : ℕ} {call other : κ}
    {result : σ × Progress κ ω} (hcall : pool.calls[index]? = some call) :
    other ∈ (advance pool index result).calls ↔
      other ∈ result.2.calls ∨ other ∈ pool.calls.eraseIdx index :=
  (advance_perm hcall).mem_iff.trans List.mem_append

/-- A segment takes its call out of a count of the calls, and adds those that it left. -/
theorem countP_advance (p : κ → Bool) {pool : Pool σ κ ω} {index : ℕ} {call : κ}
    {result : σ × Progress κ ω} (hcall : pool.calls[index]? = some call) :
    (advance pool index result).calls.countP p + [call].countP p =
      pool.calls.countP p + result.2.calls.countP p := by
  obtain ⟨hindex, rfl⟩ := List.getElem?_eq_some_iff.1 hcall
  have hbefore : pool.calls.countP p =
      ([pool.calls[index]] ++ pool.calls.eraseIdx index).countP p :=
    (List.getElem_cons_eraseIdx_perm hindex).symm.countP_eq p
  rw [(advance_perm hcall).countP_eq p, hbefore, List.countP_append, List.countP_append]
  omega

theorem mem_eraseIdx_of_ne {calls : List κ} {index : ℕ} {call other : κ}
    (hcall : calls[index]? = some call) (hother : other ∈ calls) (hne : other ≠ call) :
    other ∈ calls.eraseIdx index := by
  obtain ⟨hindex, rfl⟩ := List.getElem?_eq_some_iff.1 hcall
  have hmem := (List.getElem_cons_eraseIdx_perm hindex).mem_iff.2 hother
  exact (List.mem_cons.1 hmem).resolve_left hne

end Async

/-! ## Proof outlines -/

/-- What holds of the shared state and the outcomes, of each call in flight, and of any two. -/
structure Outline (σ κ ω : Type*) where
  Inv : σ → List ω → Prop
  Local : σ → κ → Prop
  Pair : κ → κ → Prop
  symm : ∀ {call other}, Pair call other → Pair other call

namespace Outline

variable (outline : Outline σ κ ω)

structure Holds (pool : Pool σ κ ω) : Prop where
  inv : outline.Inv pool.shared pool.outcomes
  each : ∀ call ∈ pool.calls, outline.Local pool.shared call
  pairs : pool.calls.Pairwise outline.Pair

/-- What the call that ran has to keep. -/
def Keeps (outcomes : List ω) : σ × Progress κ ω → Prop
  | (s, .pending rest) => outline.Inv s outcomes ∧ outline.Local s rest
  | (s, .forked rest started) => outline.Inv s outcomes ∧
      (∀ call ∈ rest :: started, outline.Local s call) ∧ (rest :: started).Pairwise outline.Pair
  | (s, .finished outcome) => outline.Inv s (outcomes ++ [outcome])

/-- What it has to keep of another call. -/
def Spares (other : κ) : σ × Progress κ ω → Prop
  | (s, .pending rest) => outline.Local s other ∧ outline.Pair rest other
  | (s, .forked rest started) =>
      outline.Local s other ∧ ∀ call ∈ rest :: started, outline.Pair call other
  | (s, .finished _) => outline.Local s other

variable {outline}

/-- Before any call is in flight only the invariant is asked for. -/
theorem Holds.start {s : σ} {outcomes : List ω} (h : outline.Inv s outcomes) :
    outline.Holds ⟨s, [], outcomes⟩ :=
  ⟨h, List.forall_mem_nil _, .nil⟩

theorem Keeps.of_calls {outcomes : List ω} {result : σ × Progress κ ω}
    (hinv : ∀ outcomes, outline.Inv result.1 outcomes)
    (hlocal : ∀ call ∈ result.2.calls, outline.Local result.1 call)
    (hpair : result.2.calls.Pairwise outline.Pair) : outline.Keeps outcomes result := by
  obtain ⟨s, rest | ⟨rest, started⟩ | outcome⟩ := result
  · exact ⟨hinv _, hlocal rest List.mem_cons_self⟩
  · exact ⟨hinv _, hlocal, hpair⟩
  · exact hinv _

theorem Spares.of {other : κ} {result : σ × Progress κ ω} (hlocal : outline.Local result.1 other)
    (hpair : ∀ call ∈ result.2.calls, outline.Pair call other) : outline.Spares other result := by
  obtain ⟨s, rest | ⟨rest, started⟩ | outcome⟩ := result
  · exact ⟨hlocal, hpair rest List.mem_cons_self⟩
  · exact ⟨hlocal, hpair⟩
  · exact hlocal

variable {async : Async σ ρ κ ι ω} {Allowed : Pool σ κ ω → Move ρ ι → Prop}
  {pool pool' : Pool σ κ ω} {m : Move ρ ι} {ms : List (Move ρ ι)}

/-- A call in flight and the others. -/
theorem Holds.pair_of_others (h : outline.Holds pool) {i : ℕ} {call other : κ}
    (hcall : pool.calls[i]? = some call) (hother : other ∈ pool.calls.eraseIdx i) :
    outline.Local pool.shared call ∧ outline.Local pool.shared other ∧
      outline.Pair call other := by
  obtain ⟨hi, rfl⟩ := List.getElem?_eq_some_iff.1 hcall
  have hperm := List.getElem_cons_eraseIdx_perm hi
  refine ⟨h.each _ (List.getElem_mem hi), h.each _ (List.mem_of_mem_eraseIdx hother), ?_⟩
  have hpairs := (hperm.pairwise_iff outline.symm).2 h.pairs
  exact (List.pairwise_cons.1 hpairs).1 other hother

theorem Holds.advance (h : outline.Holds pool) {i : ℕ} {call : κ} {result : σ × Progress κ ω}
    (hcall : pool.calls[i]? = some call) (hown : outline.Keeps pool.outcomes result)
    (hothers : ∀ other ∈ pool.calls.eraseIdx i, outline.Spares other result) :
    outline.Holds (Async.advance pool i result) := by
  obtain ⟨hi, -⟩ := List.getElem?_eq_some_iff.1 hcall
  have hrest := h.pairs.sublist (List.eraseIdx_sublist pool.calls i)
  obtain ⟨s, rest | ⟨rest, started⟩ | outcome⟩ := result
  · have hperm := List.set_perm_cons_eraseIdx hi rest
    refine ⟨hown.1, fun other hother => ?_, ?_⟩
    · rcases List.mem_cons.1 (hperm.mem_iff.1 hother) with rfl | hother
      · exact hown.2
      · exact (hothers other hother).1
    · refine (hperm.pairwise_iff outline.symm).2 (List.pairwise_cons.2 ⟨?_, hrest⟩)
      exact fun other hother => (hothers other hother).2
  · have hperm : (pool.calls.set i rest ++ started).Perm
        ((rest :: started) ++ pool.calls.eraseIdx i) :=
      (((List.set_perm_cons_eraseIdx hi rest).append_right started).trans
        (List.perm_append_comm.cons rest))
    obtain ⟨hinv, hlocal, hpairs⟩ := hown
    refine ⟨hinv, fun other hother => ?_, ?_⟩
    · rcases List.mem_append.1 (hperm.mem_iff.1 hother) with hother | hother
      · exact hlocal other hother
      · exact (hothers other hother).1
    · refine (hperm.pairwise_iff outline.symm).2 (List.pairwise_append.2 ⟨hpairs, hrest, ?_⟩)
      exact fun call hcall other hother => (hothers other hother).2 call hcall
  · exact ⟨hown, hothers, hrest⟩

/-- What a call has to begin with. -/
def Begins (async : Async σ ρ κ ι ω) (outline : Outline σ κ ω)
    (Allowed : Pool σ κ ω → Move ρ ι → Prop) : Prop :=
  ∀ pool request, outline.Holds pool → Allowed pool (.start request) →
    outline.Local pool.shared (async.begin request) ∧
      ∀ other ∈ pool.calls, outline.Pair other (async.begin request)

/-- What an allowed segment has to keep. -/
def Segments (async : Async σ ρ κ ι ω) (outline : Outline σ κ ω)
    (Allowed : Pool σ κ ω → Move ρ ι → Prop) : Prop :=
  ∀ pool i input call, outline.Holds pool → Allowed pool (.resume i input) →
    pool.calls[i]? = some call →
    outline.Keeps pool.outcomes (async.segment pool.shared call input) ∧
      ∀ other ∈ pool.calls.eraseIdx i,
        outline.Spares other (async.segment pool.shared call input)

/-- **The proof rule.** A call begins under the assertions, and an allowed segment keeps its own
assertions and those of each other call; then an allowed move keeps all of them. -/
theorem Holds.of_step (hbegin : Begins async outline Allowed)
    (hsegment : Segments async outline Allowed) (hstep : async.Step Allowed pool m pool')
    (h : outline.Holds pool) : outline.Holds pool' := by
  obtain ⟨hallowed, hmove⟩ := hstep
  cases m with
  | start request =>
      obtain rfl := Option.some.inj hmove
      obtain ⟨hlocal, hpair⟩ := hbegin pool request h hallowed
      refine ⟨h.inv, fun call hmem => ?_, List.pairwise_append.2 ⟨h.pairs, by simp, ?_⟩⟩
      · rcases List.mem_append.1 hmem with hmem | hmem
        · exact h.each call hmem
        · obtain rfl := List.mem_singleton.1 hmem
          exact hlocal
      · intro call hmem other hother
        obtain rfl := List.mem_singleton.1 hother
        exact hpair call hmem
  | resume i input =>
      obtain ⟨call, hcall, rfl⟩ := Option.map_eq_some_iff.1 hmove
      obtain ⟨hown, hothers⟩ := hsegment pool i input call h hallowed hcall
      exact h.advance hcall hown hothers

theorem Holds.of_run (hbegin : Begins async outline Allowed)
    (hsegment : Segments async outline Allowed) (hrun : Run (async.Step Allowed) pool ms pool')
    (h : outline.Holds pool) : outline.Holds pool' :=
  hrun.invariant (fun _ _ _ (_ : True) hstep h => h.of_step hbegin hsegment hstep)
    (fun _ _ => trivial) h

end Outline

end Kinglet.Library
