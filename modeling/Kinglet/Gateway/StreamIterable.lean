import Kinglet.Library.Run
import Mathlib.Data.List.Infix
import Mathlib.Data.List.TakeWhile
import Mathlib.Logic.Relation

/-!
# The requests of a client stream

`createAsyncIterable` turns the events of a client stream into an async generator. Event handlers and the
generator share a buffer, the resolver of the promise the generator waits for, and a finished flag; the
generator runs between the events, from one await or yield to the next.

What the consumer is owed is a matter of the trace alone: the events, the consumer's requests for the next
item and the answers to them, in the order in which they happen.
-/

namespace Kinglet.Gateway

open Library

variable {α : Type*}

/-! ## Traces -/

inductive StreamEvent (α : Type*) where
  | data (chunk : α)
  | endOfStream
  | error

inductive Answer (α : Type*) where
  | item (value : α)
  | done
  | rejected
deriving DecidableEq

inductive Observation (α : Type*) where
  | event (event : StreamEvent α)
  | request
  | answer (answer : Answer α)

abbrev Trace (α : Type*) := List (Observation α)

def StreamEvent.isEnd : StreamEvent α → Bool
  | .endOfStream => true
  | _ => false

def StreamEvent.isError : StreamEvent α → Bool
  | .error => true
  | _ => false

namespace Trace

def events (trace : Trace α) : List (StreamEvent α) :=
  trace.filterMap fun
    | .event event => some event
    | _ => none

def answers (trace : Trace α) : List (Answer α) :=
  trace.filterMap fun
    | .answer answer => some answer
    | _ => none

def requests (trace : Trace α) : ℕ :=
  trace.countP fun
    | .request => true
    | _ => false

/-- The chunks emitted before the end. -/
def sent (trace : Trace α) : List α :=
  (trace.events.takeWhile fun event => !event.isEnd).filterMap fun
    | .data chunk => some chunk
    | _ => none

def ended (trace : Trace α) : Bool := trace.events.any StreamEvent.isEnd

def failed (trace : Trace α) : Bool := trace.events.any StreamEvent.isError

/-- The answers the consumer is owed: the chunks, and no more after the end. -/
def expected (trace : Trace α) : List (Answer α) :=
  trace.sent.map .item ++ if trace.ended then List.replicate trace.requests .done else []

end Trace

/-! ## The generator -/

/-- Where the generator stands. It awaits the promise of its resolver, goes on after that promise has been
resolved, awaits the chunk it yields, or waits for the next request. -/
inductive Control (α : Type*) where
  | idle
  | awaiting
  | resolved (result : Option α)
  | yielding (chunk : α)
  | suspended
  | returned
deriving DecidableEq

structure StreamIterable (α : Type*) where
  chunks : List α
  resolve : Bool
  finished : Bool
  control : Control α
  pending : ℕ
  trace : Trace α

namespace StreamIterable

/-- An iterator of which nothing has been requested: the listeners are added with the first request. -/
def start : StreamIterable α := ⟨[], false, false, .idle, 0, []⟩

def observe (s : StreamIterable α) (observation : Observation α) : StreamIterable α :=
  { s with trace := s.trace ++ [observation] }

/-- The answer to the first pending request. -/
def deliver (s : StreamIterable α) (answer : Answer α) : StreamIterable α :=
  { s with pending := s.pending - 1, trace := s.trace ++ [.answer answer] }

/-- The generator returns, and every pending request is told. -/
def complete (s : StreamIterable α) : StreamIterable α :=
  { s with
    control := .returned
    pending := 0
    trace := s.trace ++ List.replicate s.pending (.answer .done) }

/-- `currentResolve(result)`. -/
def settle (s : StreamIterable α) (result : Option α) : StreamIterable α :=
  { s with
    resolve := false
    control := match s.control with
      | .awaiting => .resolved result
      | control => control }

variable (isUndefined : α → Bool)

/-- The rounds of the loop up to its next await: an undefined chunk is dropped. -/
def pull (s : StreamIterable α) : List α → StreamIterable α
  | [] => { s with chunks := [], resolve := true, control := .awaiting }
  | chunk :: chunks =>
      if isUndefined chunk then pull s chunks
      else { s with chunks := chunks, control := .yielding chunk }

/-- `while (!finished)`, to the next await. -/
def loop (s : StreamIterable α) : StreamIterable α :=
  if s.finished then s.complete else s.pull isUndefined s.chunks

/-- `next()`: requests are queued while the generator runs. -/
def request (s : StreamIterable α) : StreamIterable α :=
  let queued := { s with pending := s.pending + 1, trace := s.trace ++ [.request] }
  match s.control with
  | .idle | .suspended => queued.loop isUndefined
  | .returned => queued.deliver .done
  | _ => queued

/-- An event. Before the first request nobody listens; the error of an awaited promise is thrown at whoever
emits the event, and the promise is left as it is. -/
def emit (s : StreamIterable α) (event : StreamEvent α) : StreamIterable α :=
  let seen := s.observe (.event event)
  match s.control with
  | .idle => seen
  | _ =>
      match event with
      | .data chunk =>
          if s.resolve then seen.settle (some chunk) else { seen with chunks := s.chunks ++ [chunk] }
      | .endOfStream =>
          let ended := { seen with finished := true }
          if s.resolve then ended.settle none else ended
      | .error => { seen with finished := true, resolve := false }

/-- The generator goes on after what it awaited, when that has come. -/
def turn (s : StreamIterable α) : Option (StreamIterable α) :=
  match s.control with
  | .resolved (some chunk) => some { s with control := .yielding chunk }
  | .resolved none => some s.complete
  | .yielding chunk =>
      let answered := s.deliver (.item chunk)
      some (if answered.pending = 0 then { answered with control := .suspended }
        else answered.loop isUndefined)
  | _ => none

inductive Action (α : Type*) where
  | request
  | emit (event : StreamEvent α)
  | turn

inductive Step : StreamIterable α → Action α → StreamIterable α → Prop
  | request (s : StreamIterable α) : Step s .request (s.request isUndefined)
  | emit (s : StreamIterable α) (event : StreamEvent α) : Step s (.emit event) (s.emit event)
  | turn {s t : StreamIterable α} (h : s.turn isUndefined = some t) : Step s .turn t

/-- The generator has nothing left to do until the next event or request. -/
def Quiet (s : StreamIterable α) : Prop := s.turn isUndefined = none

/-! ## What the consumer is owed -/

/-- Chunks are answered once and in order, then the end; after an error the next answer is a rejection; and
the generator comes to rest with no request pending that an event has answered. -/
structure Delivers (s : StreamIterable α) : Prop where
  inOrder : s.trace.failed = false → s.trace.answers <+: s.trace.expected
  complete : s.trace.failed = false → Quiet isUndefined s →
    s.trace.answers = s.trace.expected.take s.trace.requests
  rejected : ∀ before after, s.trace = before ++ .event .error :: after → Trace.failed before = false →
    ∀ answer, (Trace.answers after).head? = some answer → answer = .rejected
  answered : Quiet isUndefined s → s.trace.ended ∨ s.trace.failed →
    s.trace.answers.length = s.trace.requests
  rests : ∃ t, Relation.ReflTransGen (fun u v => u.turn isUndefined = some v) s t ∧ Quiet isUndefined t

/-- The steps that go well: somebody listens, no error is emitted, the stream ends when the buffer is empty,
and no undefined chunk is put into the buffer. -/
def Orderly (s : StreamIterable α) : Action α → Prop
  | .emit event =>
      s.control ≠ .idle ∧
        match event with
        | .data chunk => s.finished = false → isUndefined chunk = true → s.resolve = true
        | .endOfStream => s.finished = false → s.chunks = []
        | .error => False
  | _ => True

/-! ## Observing one more thing -/

section trace

variable (trace : Trace α) (event : StreamEvent α)

@[simp] theorem events_append (trace' : Trace α) :
    Trace.events (trace ++ trace') = trace.events ++ trace'.events := List.filterMap_append

@[simp] theorem answers_append (trace' : Trace α) :
    Trace.answers (trace ++ trace') = trace.answers ++ trace'.answers := List.filterMap_append

@[simp] theorem requests_append (trace' : Trace α) :
    Trace.requests (trace ++ trace') = trace.requests + trace'.requests := List.countP_append

@[simp] theorem events_nil : Trace.events ([] : Trace α) = [] := rfl
@[simp] theorem events_event : Trace.events (.event event :: trace) = event :: trace.events := rfl
@[simp] theorem events_request : Trace.events (.request :: trace) = trace.events := rfl
@[simp] theorem events_answer (answer : Answer α) :
    Trace.events (.answer answer :: trace) = trace.events := rfl
@[simp] theorem answers_nil : Trace.answers ([] : Trace α) = [] := rfl
@[simp] theorem answers_event : Trace.answers (.event event :: trace) = trace.answers := rfl
@[simp] theorem answers_request : Trace.answers (.request :: trace) = trace.answers := rfl
@[simp] theorem answers_answer (answer : Answer α) :
    Trace.answers (.answer answer :: trace) = answer :: trace.answers := rfl
@[simp] theorem requests_nil : Trace.requests ([] : Trace α) = 0 := rfl
@[simp] theorem requests_event : Trace.requests (.event event :: trace) = trace.requests :=
  List.countP_cons_of_neg (by simp)
@[simp] theorem requests_request : Trace.requests (.request :: trace) = trace.requests + 1 :=
  List.countP_cons_of_pos rfl
@[simp] theorem requests_answer (answer : Answer α) :
    Trace.requests (.answer answer :: trace) = trace.requests :=
  List.countP_cons_of_neg (by simp)

@[simp] theorem events_replicate (n : ℕ) (answer : Answer α) :
    Trace.events (List.replicate n (.answer answer)) = [] := by
  induction n with
  | zero => rfl
  | succ n ih => rw [List.replicate_succ, events_answer, ih]

@[simp] theorem answers_replicate (n : ℕ) (answer : Answer α) :
    Trace.answers (List.replicate n (.answer answer)) = List.replicate n answer := by
  induction n with
  | zero => rfl
  | succ n ih => rw [List.replicate_succ, answers_answer, ih, List.replicate_succ]

@[simp] theorem requests_replicate (n : ℕ) (answer : Answer α) :
    Trace.requests (List.replicate n (.answer answer)) = 0 := by
  induction n with
  | zero => rfl
  | succ n ih => rw [List.replicate_succ, requests_answer, ih]

variable {trace event}

/-- What is sent and whether the stream ended or failed depend on the events alone. -/
theorem same_events {trace' : Trace α} (h : trace.events = trace'.events) :
    trace.sent = trace'.sent ∧ trace.ended = trace'.ended ∧ trace.failed = trace'.failed := by
  simp only [Trace.sent, Trace.ended, Trace.failed, h, true_and]

theorem ended_event : Trace.ended (trace ++ [.event event]) = (trace.ended || event.isEnd) := by
  simp [Trace.ended]

theorem failed_event : Trace.failed (trace ++ [.event event]) = (trace.failed || event.isError) := by
  simp [Trace.failed]

theorem sent_of_ended (h : trace.ended = true) : Trace.sent (trace ++ [.event event]) = trace.sent := by
  obtain ⟨last, hlast, hend⟩ := List.any_eq_true.1 h
  have hsame : (trace.events ++ [event]).takeWhile (fun event => !event.isEnd) =
      trace.events.takeWhile fun event => !event.isEnd := by
    rw [List.takeWhile_append, if_neg]
    intro hall
    have htake := (@List.takeWhile_sublist _ trace.events fun event => !event.isEnd).eq_of_length hall
    have := List.takeWhile_eq_self_iff.1 htake last hlast
    simp [hend] at this
  rw [Trace.sent, events_append, events_event, events_nil, hsame, Trace.sent]

/-- What has been answered and sent stays so after the end. -/
theorem answered_of_ended (h : trace.ended = true)
    (hanswers : ∃ n, trace.answers = trace.sent.map .item ++ List.replicate n .done) :
    ∃ n, Trace.answers (trace ++ [.event event]) =
      (Trace.sent (trace ++ [.event event])).map .item ++ List.replicate n .done := by
  obtain ⟨n, hanswers⟩ := hanswers
  refine ⟨n, ?_⟩
  rw [sent_of_ended h]
  simpa using hanswers

theorem sent_of_not_ended (h : trace.ended = false) :
    Trace.sent (trace ++ [.event event]) =
      trace.sent ++ match event with
        | .data chunk => [chunk]
        | _ => [] := by
  have hall : trace.events.takeWhile (fun event => !event.isEnd) = trace.events := by
    refine List.takeWhile_eq_self_iff.2 fun earlier hearlier => ?_
    have := List.any_eq_false.1 h earlier hearlier
    simpa using this
  rw [Trace.sent, Trace.sent, events_append, events_event, events_nil, List.takeWhile_append, hall,
    if_pos rfl, List.filterMap_append]
  cases event <;> rfl

end trace

/-! ## The invariant -/

/-- The chunks that will still be yielded from the buffer. -/
def rest (s : StreamIterable α) : List α := if s.finished then [] else s.chunks

/-- What was sent is what was answered, what the generator holds, and what it will find in the buffer. -/
def Owes (s : StreamIterable α) (held : List α) : Prop :=
  ∃ given, s.trace.answers = given.map .item ∧ s.trace.sent = given ++ held ++ s.rest

def Stands (s : StreamIterable α) : Prop :=
  match s.control with
  | .idle => s.trace.sent = [] ∧ s.trace.answers = [] ∧ s.finished = false ∧ s.chunks = [] ∧ s.pending = 0
  | .awaiting => s.Owes [] ∧ s.finished = false ∧ s.chunks = [] ∧ 0 < s.pending
  | .resolved none => s.Owes [] ∧ s.finished = true ∧ 0 < s.pending
  | .resolved (some chunk) | .yielding chunk => s.Owes [chunk] ∧ 0 < s.pending
  | .suspended => s.Owes [] ∧ s.pending = 0
  | .returned =>
      (∃ n, s.trace.answers = s.trace.sent.map .item ++ List.replicate n .done) ∧ s.finished = true ∧
        s.pending = 0

structure Inv (s : StreamIterable α) : Prop where
  sound : s.trace.failed = false
  finished : s.finished = s.trace.ended
  resolve : s.resolve = true ↔ s.control = .awaiting
  defined : s.finished = false → ∀ chunk ∈ s.chunks, isUndefined chunk = false
  count : s.trace.requests = s.trace.answers.length + s.pending
  stands : s.Stands

theorem inv_start : Inv isUndefined (start : StreamIterable α) where
  sound := rfl
  finished := rfl
  resolve := by simp [start]
  defined := by simp [start]
  count := rfl
  stands := ⟨rfl, rfl, rfl, rfl, rfl⟩

variable {isUndefined} {s t : StreamIterable α}

/-- From the head of its loop with a request to answer, the generator comes to its next await. -/
theorem Inv.loop (sound : s.trace.failed = false) (finished : s.finished = s.trace.ended)
    (resolve : s.resolve = false)
    (defined : s.finished = false → ∀ chunk ∈ s.chunks, isUndefined chunk = false)
    (count : s.trace.requests = s.trace.answers.length + s.pending) (howes : s.Owes [])
    (hpending : 0 < s.pending) : Inv isUndefined (s.loop isUndefined) := by
  obtain ⟨given, hanswers, hsent⟩ := howes
  rw [List.append_nil] at hsent
  unfold StreamIterable.loop
  cases hfinished : s.finished with
  | true =>
    rw [if_pos rfl]
    have hrest : s.trace.sent = given := by simpa [rest, hfinished] using hsent
    have hsame : Trace.events s.complete.trace = s.trace.events := by simp [complete]
    obtain ⟨hsent', hended', hfailed'⟩ := same_events hsame
    refine ⟨hfailed'.trans sound, (finished.trans hended'.symm), ?_, ?_, ?_, ?_⟩
    · simp [complete, resolve]
    · intro h
      exact absurd (hfinished.symm.trans h) (by decide)
    · simp [complete, count]
    · refine ⟨⟨s.pending, ?_⟩, hfinished, rfl⟩
      rw [hsent', hrest, ← hanswers]
      simp [complete]
  | false =>
    rw [if_neg Bool.false_ne_true]
    cases hchunks : s.chunks with
    | nil =>
      exact ⟨sound, finished, by simp [pull], by simp [pull], count,
        ⟨given, hanswers, by simpa [rest, hfinished, hchunks, pull] using hsent⟩, hfinished, rfl, hpending⟩
    | cons chunk chunks =>
      have hall := defined hfinished
      rw [hchunks, List.forall_mem_cons] at hall
      rw [pull, if_neg (by simp [hall.1])]
      refine ⟨sound, finished, by simp [resolve], fun _ => hall.2, count, ⟨given, hanswers, ?_⟩, hpending⟩
      simpa [rest, hfinished, hchunks] using hsent

/-- What is owed does not change with a request or with what is pending. -/
theorem Owes.queued {held : List α} (h : s.Owes held) :
    Owes { s with pending := s.pending + 1, trace := s.trace ++ [.request] } held := by
  obtain ⟨given, hanswers, hsent⟩ := h
  have hsame : Trace.events (s.trace ++ [.request]) = s.trace.events := by simp
  exact ⟨given, by simpa using hanswers, (same_events hsame).1.trans hsent⟩

theorem Inv.request (h : Inv isUndefined s) : Inv isUndefined (s.request isUndefined) := by
  have hsame : Trace.events (s.trace ++ [.request]) = s.trace.events := by simp
  obtain ⟨hsent, hended, hfailed⟩ := same_events hsame
  have hcount : Trace.requests (s.trace ++ [.request]) =
      (Trace.answers (s.trace ++ [.request])).length + (s.pending + 1) := by
    simp [h.count, Nat.add_assoc]
  have hsound := hfailed.trans h.sound
  have hfinished := h.finished.trans hended.symm
  have hstands := h.stands
  obtain ⟨chunks, resolve, finished, control, pending, trace⟩ := s
  cases control with
  | idle =>
    obtain ⟨hsent', hanswers, hopen, hchunks, -⟩ := hstands
    refine Inv.loop hsound hfinished (by simpa using h.resolve) h.defined hcount
      ⟨[], by simpa using hanswers, ?_⟩ (Nat.succ_pos _)
    dsimp only at hchunks hsent'
    exact hsent.trans (by simp [rest, hchunks, hsent'])
  | suspended =>
    obtain ⟨howes, -⟩ := hstands
    exact Inv.loop hsound hfinished (by simpa using h.resolve) h.defined hcount howes.queued (Nat.succ_pos _)
  | awaiting =>
    obtain ⟨howes, hopen, hchunks, -⟩ := hstands
    exact ⟨hsound, hfinished, h.resolve, h.defined, hcount, howes.queued, hopen, hchunks, Nat.succ_pos _⟩
  | resolved result =>
    cases result with
    | none =>
      obtain ⟨howes, hclosed, -⟩ := hstands
      exact ⟨hsound, hfinished, h.resolve, h.defined, hcount, howes.queued, hclosed, Nat.succ_pos _⟩
    | some chunk =>
      exact ⟨hsound, hfinished, h.resolve, h.defined, hcount, hstands.1.queued, Nat.succ_pos _⟩
  | yielding chunk =>
    exact ⟨hsound, hfinished, h.resolve, h.defined, hcount, hstands.1.queued, Nat.succ_pos _⟩
  | returned =>
    obtain ⟨⟨n, hanswers⟩, hclosed, hnone⟩ := hstands
    dsimp only at hanswers hclosed hnone
    have hsame' : Trace.events ((trace ++ [.request]) ++ [.answer .done]) = trace.events := by simp
    obtain ⟨hsent', hended', hfailed'⟩ := same_events hsame'
    refine ⟨hfailed'.trans h.sound, h.finished.trans hended'.symm, h.resolve, h.defined, ?_, ⟨n + 1, ?_⟩,
      hclosed, ?_⟩
    · have := h.count
      simp only at this
      simp [StreamIterable.request, deliver, this, hnone]
    · change Trace.answers ((trace ++ [.request]) ++ [.answer .done]) =
        (Trace.sent ((trace ++ [.request]) ++ [.answer .done])).map .item ++ List.replicate (n + 1) .done
      rw [hsent']
      simp [hanswers, List.replicate_succ']
    · simp [StreamIterable.request, deliver, hnone]

/-- A chunk for which nobody waits joins the end of what is owed. -/
theorem Owes.data {held : List α} {chunk : α} (h : s.Owes held) (hfinished : s.finished = s.trace.ended) :
    Owes { s with chunks := s.chunks ++ [chunk], trace := s.trace ++ [.event (.data chunk)] } held := by
  obtain ⟨given, hanswers, hsent⟩ := h
  refine ⟨given, by simpa using hanswers, ?_⟩
  cases hended : s.trace.ended with
  | true =>
    have hrest : s.trace.sent = given ++ held := by simpa [rest, hfinished, hended] using hsent
    simp [rest, hfinished, hended, sent_of_ended, hrest]
  | false =>
    have hrest : s.trace.sent = given ++ held ++ s.chunks := by
      simpa only [rest, hfinished, hended, Bool.false_eq_true, if_false] using hsent
    simp [rest, hfinished, hended, sent_of_not_ended, hrest]

/-- Nothing is lost when the stream ends with an empty buffer. -/
theorem Owes.endOfStream {held : List α} (h : s.Owes held) (hfinished : s.finished = s.trace.ended)
    (hempty : s.finished = false → s.chunks = []) :
    Owes { s with finished := true, trace := s.trace ++ [.event .endOfStream] } held := by
  obtain ⟨given, hanswers, hsent⟩ := h
  refine ⟨given, by simpa using hanswers, ?_⟩
  cases hended : s.trace.ended with
  | true =>
    have hrest : s.trace.sent = given ++ held := by simpa [rest, hfinished, hended] using hsent
    simp [rest, sent_of_ended, hended, hrest]
  | false =>
    have hnone := hempty (hfinished.trans hended)
    have hrest : s.trace.sent = given ++ held := by simpa [rest, hnone] using hsent
    simp [rest, sent_of_not_ended, hended, hrest]

theorem inv_data {chunk : α} (h : Inv isUndefined s) (hlistens : s.control ≠ .idle)
    (hdefined : s.finished = false → isUndefined chunk = true → s.resolve = true) :
    Inv isUndefined (s.emit (.data chunk)) := by
  have hsound : Trace.failed (s.trace ++ [.event (.data chunk)]) = false := by
    rw [failed_event, h.sound]
    rfl
  have hended : s.finished = Trace.ended (s.trace ++ [.event (.data chunk)]) := by
    rw [ended_event, ← h.finished]
    exact (Bool.or_false _).symm
  have hcount : Trace.requests (s.trace ++ [.event (.data chunk)]) =
      (Trace.answers (s.trace ++ [.event (.data chunk)])).length + s.pending := by
    simp [h.count]
  have hstands := h.stands
  have hfinished := h.finished
  have hresolve := h.resolve
  have hbuffer : s.resolve = false → s.finished = false →
      ∀ earlier ∈ s.chunks ++ [chunk], isUndefined earlier = false := by
    intro hbusy hopen earlier hearlier
    rcases List.mem_append.1 hearlier with hbefore | hnew
    · exact h.defined hopen earlier hbefore
    · rw [List.mem_singleton.1 hnew]
      by_contra hundefined
      rw [hdefined hopen (by simpa using hundefined)] at hbusy
      cases hbusy
  obtain ⟨chunks, resolve, finished, control, pending, trace⟩ := s
  cases control with
  | idle => exact absurd rfl hlistens
  | awaiting =>
    obtain rfl : resolve = true := hresolve.2 rfl
    obtain ⟨⟨given, hanswers, hsent⟩, hopen, hchunks, hpending⟩ := hstands
    dsimp only at hanswers hsent hopen hchunks hfinished
    have hnew : Trace.sent (trace ++ [.event (.data chunk)]) = trace.sent ++ [chunk] :=
      sent_of_not_ended (hfinished.symm.trans hopen)
    have hanswers' : Trace.answers (trace ++ [.event (.data chunk)]) = given.map .item := by
      simpa using hanswers
    refine ⟨hsound, hended, by simp [StreamIterable.emit, settle, observe], h.defined, hcount,
      ⟨given, hanswers', ?_⟩, hpending⟩
    change Trace.sent (trace ++ [.event (.data chunk)]) = _
    rw [hnew, hsent]
    simp [rest, hchunks, StreamIterable.emit, settle, observe]
  | resolved result =>
    obtain rfl : resolve = false := by simpa using hresolve
    cases result with
    | none =>
      obtain ⟨howes, hclosed, hpending⟩ := hstands
      exact ⟨hsound, hended, hresolve, hbuffer rfl, hcount, howes.data hfinished, hclosed, hpending⟩
    | some earlier =>
      exact ⟨hsound, hended, hresolve, hbuffer rfl, hcount, hstands.1.data hfinished, hstands.2⟩
  | yielding earlier =>
    obtain rfl : resolve = false := by simpa using hresolve
    exact ⟨hsound, hended, hresolve, hbuffer rfl, hcount, hstands.1.data hfinished, hstands.2⟩
  | suspended =>
    obtain rfl : resolve = false := by simpa using hresolve
    exact ⟨hsound, hended, hresolve, hbuffer rfl, hcount, hstands.1.data hfinished, hstands.2⟩
  | returned =>
    obtain rfl : resolve = false := by simpa using hresolve
    obtain ⟨hanswers, hclosed, hnone⟩ := hstands
    exact ⟨hsound, hended, hresolve, hbuffer rfl, hcount,
      answered_of_ended (hfinished.symm.trans hclosed) hanswers, hclosed, hnone⟩

theorem inv_endOfStream (h : Inv isUndefined s) (hlistens : s.control ≠ .idle)
    (hempty : s.finished = false → s.chunks = []) : Inv isUndefined (s.emit .endOfStream) := by
  have hsound : Trace.failed (s.trace ++ [.event .endOfStream]) = false := by
    rw [failed_event, h.sound]
    rfl
  have hended : true = Trace.ended (s.trace ++ [.event .endOfStream]) := by
    rw [ended_event]
    exact (Bool.or_true _).symm
  have hcount : Trace.requests (s.trace ++ [.event .endOfStream]) =
      (Trace.answers (s.trace ++ [.event .endOfStream])).length + s.pending := by
    simp [h.count]
  have hstands := h.stands
  have hfinished := h.finished
  have hresolve := h.resolve
  have hdefined : true = false → ∀ chunk ∈ s.chunks, isUndefined chunk = false := fun h => nomatch h
  obtain ⟨chunks, resolve, finished, control, pending, trace⟩ := s
  cases control with
  | idle => exact absurd rfl hlistens
  | awaiting =>
    obtain rfl : resolve = true := hresolve.2 rfl
    obtain ⟨howes, -, -, hpending⟩ := hstands
    exact ⟨hsound, hended, by simp [StreamIterable.emit, settle, observe], hdefined, hcount,
      howes.endOfStream hfinished hempty, rfl, hpending⟩
  | resolved result =>
    obtain rfl : resolve = false := by simpa using hresolve
    cases result with
    | none =>
      obtain ⟨howes, -, hpending⟩ := hstands
      exact ⟨hsound, hended, hresolve, hdefined, hcount, howes.endOfStream hfinished hempty, rfl, hpending⟩
    | some earlier =>
      exact ⟨hsound, hended, hresolve, hdefined, hcount, hstands.1.endOfStream hfinished hempty, hstands.2⟩
  | yielding earlier =>
    obtain rfl : resolve = false := by simpa using hresolve
    exact ⟨hsound, hended, hresolve, hdefined, hcount, hstands.1.endOfStream hfinished hempty, hstands.2⟩
  | suspended =>
    obtain rfl : resolve = false := by simpa using hresolve
    exact ⟨hsound, hended, hresolve, hdefined, hcount, hstands.1.endOfStream hfinished hempty, hstands.2⟩
  | returned =>
    obtain rfl : resolve = false := by simpa using hresolve
    obtain ⟨hanswers, hclosed, hnone⟩ := hstands
    exact ⟨hsound, hended, hresolve, hdefined, hcount,
      answered_of_ended (hfinished.symm.trans hclosed) hanswers, rfl, hnone⟩

theorem Inv.turn (h : Inv isUndefined s) (hturn : s.turn isUndefined = some t) : Inv isUndefined t := by
  have hstands := h.stands
  obtain ⟨chunks, resolve, finished, control, pending, trace⟩ := s
  cases control with
  | resolved result =>
    cases result with
    | none =>
      obtain rfl := Option.some.inj hturn
      obtain ⟨⟨given, hanswers, hsent⟩, hclosed, hpending⟩ := hstands
      dsimp only at hanswers hsent hclosed
      have hrest : trace.sent = given := by simpa [rest, hclosed] using hsent
      have hsame : Trace.events (trace ++ List.replicate pending (.answer .done)) = trace.events := by simp
      obtain ⟨hsent', hended', hfailed'⟩ := same_events hsame
      refine ⟨hfailed'.trans h.sound, h.finished.trans hended'.symm, ?_, h.defined, ?_, ⟨pending, ?_⟩,
        hclosed, rfl⟩
      · simpa [complete] using h.resolve
      · simpa [complete] using h.count
      · change Trace.answers (trace ++ List.replicate pending (.answer .done)) =
          (Trace.sent (trace ++ List.replicate pending (.answer .done))).map .item ++
            List.replicate pending .done
        rw [hsent', hrest, ← hanswers]
        simp
    | some chunk =>
      obtain rfl := Option.some.inj hturn
      exact ⟨h.sound, h.finished, by simpa using h.resolve, h.defined, h.count, hstands⟩
  | yielding chunk =>
    obtain rfl := Option.some.inj hturn
    obtain ⟨⟨given, hanswers, hsent⟩, hpending⟩ := hstands
    dsimp only at hanswers hsent hpending
    have hsame : Trace.events (trace ++ [.answer (.item chunk)]) = trace.events := by simp
    obtain ⟨hsent', hended', hfailed'⟩ := same_events hsame
    have hresolve : resolve = false := by simpa using h.resolve
    have hcount : Trace.requests (trace ++ [.answer (.item chunk)]) =
        (Trace.answers (trace ++ [.answer (.item chunk)])).length + (pending - 1) := by
      have := h.count
      dsimp only at this
      simp only [requests_append, answers_append, requests_answer, answers_answer, requests_nil, answers_nil,
        List.length_append, List.length_singleton]
      omega
    have howes : Owes (⟨chunks, resolve, finished, .yielding chunk, pending - 1,
        trace ++ [.answer (.item chunk)]⟩ : StreamIterable α) [] := by
      refine ⟨given ++ [chunk], by simp [hanswers], ?_⟩
      rw [hsent', hsent, List.append_nil]
      rfl
    split
    · next hnone =>
        exact ⟨hfailed'.trans h.sound, h.finished.trans hended'.symm, by simpa [deliver] using hresolve,
          h.defined, hcount, howes, hnone⟩
    · next hmore =>
        exact Inv.loop (hfailed'.trans h.sound) (h.finished.trans hended'.symm) hresolve h.defined hcount
          howes (Nat.pos_of_ne_zero hmore)
  | idle | awaiting | suspended | returned => cases hturn

theorem Inv.step {action : Action α} (h : Inv isUndefined s) (hstep : Step isUndefined s action t)
    (horderly : Orderly isUndefined s action) : Inv isUndefined t := by
  cases hstep with
  | request => exact h.request
  | turn hturn => exact h.turn hturn
  | emit event =>
    obtain ⟨hlistens, horder⟩ := horderly
    cases event with
    | data chunk => exact inv_data h hlistens horder
    | endOfStream => exact inv_endOfStream h hlistens horder
    | error => exact horder.elim

/-! ## The generator comes to rest -/

/-- The turns the generator can take before the next event or request, at most. -/
def work (s : StreamIterable α) : ℕ :=
  3 * s.pending + match s.control with
    | .resolved _ => 2
    | .yielding _ => 1
    | _ => 0

theorem work_pull (chunks : List α) : (s.pull isUndefined chunks).work ≤ 3 * s.pending + 1 := by
  induction chunks with
  | nil => simp [pull, work]
  | cons chunk chunks ih =>
    rw [pull]
    split
    · exact ih
    · simp [work]

theorem work_loop : (s.loop isUndefined).work ≤ 3 * s.pending + 1 := by
  unfold loop
  split
  · simp [complete, work]
  · exact work_pull s.chunks

theorem work_turn (h : s.turn isUndefined = some t) : t.work < s.work := by
  unfold StreamIterable.turn at h
  cases hcontrol : s.control <;> simp only [hcontrol] at h
  case resolved result =>
    cases result with
    | none =>
      obtain rfl := Option.some.inj h
      simp [work, complete, hcontrol]
    | some chunk =>
      obtain rfl := Option.some.inj h
      simp [work, hcontrol]
  case yielding chunk =>
    obtain rfl := Option.some.inj h
    have hwork : s.work = 3 * s.pending + 1 := by simp [work, hcontrol]
    rw [hwork]
    split
    · simp only [work, deliver]
      omega
    · next hmore =>
        have hloop := @work_loop α isUndefined (s.deliver (.item chunk))
        simp only [deliver] at hloop hmore ⊢
        omega
  all_goals cases h

theorem exists_rest (s : StreamIterable α) :
    ∃ t, Relation.ReflTransGen (fun u v => u.turn isUndefined = some v) s t ∧ Quiet isUndefined t := by
  induction hwork : s.work using Nat.strong_induction_on generalizing s with
  | _ n ih =>
    cases hturn : s.turn isUndefined with
    | none => exact ⟨s, .refl, hturn⟩
    | some t =>
      obtain ⟨u, hturns, hquiet⟩ := ih t.work (hwork ▸ work_turn hturn) t rfl
      exact ⟨u, .head hturn hturns, hquiet⟩

/-! ## Every orderly run -/

/-- The answers so far are the first of those that are owed. -/
theorem Inv.inOrder (h : Inv isUndefined s) : s.trace.answers <+: s.trace.expected := by
  have howed (held : List α) (howes : s.Owes held) : s.trace.answers <+: s.trace.expected := by
    obtain ⟨given, hanswers, hsent⟩ := howes
    rw [Trace.expected, hanswers, hsent, List.append_assoc, List.map_append, List.append_assoc]
    exact List.prefix_append _ _
  have hstands := h.stands
  unfold Stands at hstands
  split at hstands
  · rw [hstands.2.1]
    exact List.nil_prefix
  · exact howed [] hstands.1
  · exact howed [] hstands.1
  · exact howed _ hstands.1
  · exact howed _ hstands.1
  · exact howed [] hstands.1
  · obtain ⟨⟨n, hanswers⟩, hclosed, hnone⟩ := hstands
    have hcount := h.count
    rw [hnone, hanswers, List.length_append, List.length_replicate] at hcount
    rw [Trace.expected, if_pos (h.finished.symm.trans hclosed), hanswers]
    refine (List.prefix_append_right_inj _).2 ⟨List.replicate (s.trace.requests - n) .done, ?_⟩
    rw [List.replicate_append_replicate]
    congr 1
    omega

/-- At rest, every request has been answered, or all that was sent and no end. -/
theorem Inv.quiet (h : Inv isUndefined s) (hquiet : Quiet isUndefined s) :
    s.trace.requests = s.trace.answers.length ∨
      s.trace.ended = false ∧ s.trace.answers = s.trace.expected ∧
        s.trace.answers.length ≤ s.trace.requests := by
  have hcount := h.count
  have hstands := h.stands
  unfold Stands at hstands
  unfold Quiet StreamIterable.turn at hquiet
  cases hcontrol : s.control <;> simp only [hcontrol] at hstands hquiet
  case idle => exact .inl (by rw [hcount, hstands.2.2.2.2, Nat.add_zero])
  case suspended => exact .inl (by rw [hcount, hstands.2, Nat.add_zero])
  case returned => exact .inl (by rw [hcount, hstands.2.2, Nat.add_zero])
  case awaiting =>
    obtain ⟨⟨given, hanswers, hsent⟩, hopen, hchunks, -⟩ := hstands
    have hended : s.trace.ended = false := h.finished.symm.trans hopen
    refine .inr ⟨hended, ?_, by omega⟩
    have hall : s.trace.sent = given := by simpa [rest, hchunks] using hsent
    rw [Trace.expected, hended, hall, hanswers]
    simp
  case resolved result => cases result <;> cases hquiet
  case yielding chunk => cases hquiet

theorem Inv.delivers (h : Inv isUndefined s) : Delivers isUndefined s where
  inOrder _ := h.inOrder
  complete _ hquiet := by
    rcases h.quiet hquiet with hall | ⟨-, hall, hle⟩
    · rw [hall]
      exact List.prefix_iff_eq_take.1 h.inOrder
    · rw [hall] at hle ⊢
      exact (List.take_of_length_le hle).symm
  rejected before after htrace _ := by
    have hsound := h.sound
    rw [htrace] at hsound
    simp [Trace.failed, StreamEvent.isError] at hsound
  answered hquiet hclosed := by
    rcases h.quiet hquiet with hall | ⟨hended, -⟩
    · exact hall.symm
    · rw [hended, h.sound] at hclosed
      exact absurd hclosed (by decide)
  rests := exists_rest s

/-- **Delivery**: after every run of events, requests and turns of the generator in which every event comes
in good order, the consumer has been answered what it is owed. -/
theorem stream_delivered {actions : List (Action α)}
    (h : Run (fun s action t => Step isUndefined s action t ∧ Orderly isUndefined s action) start actions s) :
    Delivers isUndefined s := by
  have hinv : Inv isUndefined s :=
    Run.invariant (fun _ _ _ _ hstep hinv => hinv.step hstep.1 hstep.2) h (fun _ _ => trivial)
      (inv_start isUndefined)
  exact hinv.delivers

/-- A chunk is answered, and the end that comes after it. -/
theorem stream_delivered_chunk :
    ∃ t : StreamIterable ℕ, t.trace.answers = [.item 7, .done] ∧ Delivers (fun _ => false) t := by
  have hrun : Run (fun s action t => Step (fun _ => false) s action t ∧
      Orderly (fun _ => false) s action) start _ _ :=
    .head ⟨.request start, trivial⟩ <| .head ⟨.emit _ (.data 7), by decide, nofun⟩ <|
      .head ⟨.turn rfl, trivial⟩ <| .head ⟨.turn rfl, trivial⟩ <|
      .head ⟨.emit _ .endOfStream, by decide, fun _ => rfl⟩ <| .head ⟨.request _, trivial⟩ <| .refl _
  exact ⟨_, rfl, stream_delivered hrun⟩

/-- A chunk in the buffer is lost when the stream ends, and a request that waits when an error comes waits
for ever. -/
theorem not_stream_delivered :
    (∃ actions, ∃ t : StreamIterable ℕ, Run (Step fun _ => false) start actions t ∧
        t.trace.failed = false ∧ t.trace.sent = [1, 2] ∧ t.trace.answers = [.item 1, .done] ∧
        ¬ Delivers (fun _ => false) t) ∧
      ∃ actions, ∃ t : StreamIterable ℕ, Run (Step fun _ => false) start actions t ∧
        t.trace.failed = true ∧ t.trace.requests = 1 ∧ t.trace.answers = [] ∧
        Quiet (fun _ => false) t ∧ ¬ Delivers (fun _ => false) t := by
  constructor
  · refine ⟨_, _, .head (.request _) <| .head (.emit _ (.data 1)) <| .head (.turn rfl) <|
      .head (.emit _ (.data 2)) <| .head (.emit _ .endOfStream) <| .head (.turn rfl) <|
      .head (.request _) (.refl _), rfl, rfl, rfl, fun hdelivers => ?_⟩
    exact absurd (hdelivers.inOrder rfl) (by decide)
  · refine ⟨_, _, .head (.request _) <| .head (.emit _ .error) (.refl _), rfl, rfl, rfl, rfl,
      fun hdelivers => ?_⟩
    exact absurd (hdelivers.answered rfl (.inr rfl)) (by decide)

end StreamIterable

end Kinglet.Gateway
