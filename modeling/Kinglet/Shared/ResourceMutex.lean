import Kinglet.Js.Text
import Kinglet.Library.Run
import Mathlib.Data.List.Nodup
import Mathlib.Logic.Function.Basic
import Mathlib.Tactic.Common

/-!
# The resource mutex

Each call of `runExclusively` chains its operation to the promise of the call before it on the same
key, and forgets the key when it is answered and no later call has replaced its promise. An
operation may settle at any time; the reactions to its promise run one after the other, and calls
come in between.

`Chained` is the invariant: behind a call that has no answer yet, every later one of its key is
queued.
-/

namespace Kinglet.Shared

open Js Library

variable {E T : Type*}

/-- Where a call is. Its operation has run once its promise is settled; then its caller is answered. -/
inductive Stage (E T : Type*)
  | queued
  | running
  | settled (result : Except E T)
  | answered (result : Except E T)

def Stage.isSettled : Stage E T → Bool
  | .settled _ | .answered _ => true
  | _ => false

def Stage.isAnswered : Stage E T → Bool
  | .answered _ => true
  | _ => false

/-- The result with which the promise of a call has settled. -/
def Stage.result? : Stage E T → Option (Except E T)
  | .settled result | .answered result => some result
  | _ => none

theorem Stage.isSettled_of_isAnswered {stage : Stage E T} (h : stage.isAnswered = true) :
    stage.isSettled = true := by
  cases stage <;> first | rfl | cases h

/-- A reaction to a promise: the operation of the next call starts, or a call goes on behind its
`await`. -/
inductive Job
  | start (call : ℕ)
  | answer (call : ℕ)
  deriving DecidableEq

/-- The calls so far, by number, with the promise of each; `previous` is the call to which one is
chained. The reactions that are due run in order. -/
structure ResourceMutex (E T : Type*) where
  tailByKey : JsString → Option ℕ
  count : ℕ
  key : ℕ → JsString
  previous : ℕ → Option ℕ
  stage : ℕ → Stage E T
  jobs : List Job
  started : List ℕ

inductive MutexEvent (E T : Type*)
  | call (key : JsString)
  | settle (call : ℕ) (result : Except E T)
  | react

namespace ResourceMutex

def empty : ResourceMutex E T where
  tailByKey _ := none
  count := 0
  key _ := []
  previous _ := none
  stage _ := .queued
  jobs := []
  started := []

variable (m : ResourceMutex E T)

/-- `runExclusively(key, operation)`, up to its await. -/
def runExclusively (key : JsString) : ResourceMutex E T :=
  { m with
    tailByKey := Function.update m.tailByKey key (some m.count)
    count := m.count + 1
    key := Function.update m.key m.count key
    previous := Function.update m.previous m.count (m.tailByKey key)
    stage := Function.update m.stage m.count .queued
    jobs :=
      if (m.tailByKey key).all fun previous => (m.stage previous).isSettled then
        m.jobs ++ [.start m.count]
      else m.jobs }

/-- The calls chained to one. -/
def chainedTo (call : ℕ) : List ℕ :=
  (List.range m.count).filter fun next => m.previous next = some call

/-- The promise of a call settles, with which the reactions to it are due. -/
def settle (call : ℕ) (result : Except E T) : ResourceMutex E T :=
  { m with
    stage := Function.update m.stage call (.settled result)
    jobs := m.jobs ++ .answer call :: (m.chainedTo call).map .start }

def start (call : ℕ) (jobs : List Job) : ResourceMutex E T :=
  { m with
    stage := Function.update m.stage call .running
    jobs := jobs
    started := m.started ++ [call] }

/-- The `finally` of `runExclusively`. -/
def answer (call : ℕ) (result : Except E T) (jobs : List Job) : ResourceMutex E T :=
  { m with
    stage := Function.update m.stage call (.answered result)
    jobs := jobs
    tailByKey :=
      if m.tailByKey (m.key call) = some call then Function.update m.tailByKey (m.key call) none
      else m.tailByKey }

def step : MutexEvent E T → Option (ResourceMutex E T)
  | .call key => some (m.runExclusively key)
  | .settle call result =>
      match m.stage call with
      | .running => some (m.settle call result)
      | _ => none
  | .react =>
      match m.jobs with
      | [] => none
      | .start call :: jobs => some (m.start call jobs)
      | .answer call :: jobs =>
          match m.stage call with
          | .settled result => some (m.answer call result jobs)
          | _ => none

def Steps (m : ResourceMutex E T) (event : MutexEvent E T) (m' : ResourceMutex E T) : Prop :=
  m.step event = some m'

/-! ## The invariant -/

structure Chained (m : ResourceMutex E T) : Prop where
  fresh : ∀ i, m.count ≤ i → m.stage i = .queued
  /-- A call is chained to the one before it on its key, -/
  previous : ∀ i < m.count, ∀ p, m.previous i = some p →
    p < i ∧ m.key p = m.key i ∧ ∀ j < i, m.key j = m.key i → j ≤ p
  /-- or all before it have been answered. -/
  first : ∀ i < m.count, m.previous i = none → ∀ j < i, m.key j = m.key i →
    (m.stage j).isAnswered
  order : ∀ i j, i < j → j < m.count → m.key i = m.key j → (m.stage i).isAnswered = false →
    m.stage j = .queued
  waits : ∀ i < m.count, m.stage i = .queued →
    .start i ∈ m.jobs ∨ ∃ p, m.previous i = some p ∧ (m.stage p).isSettled = false
  start : ∀ i, .start i ∈ m.jobs → i < m.count ∧ m.stage i = .queued ∧
    ∀ j < i, m.key j = m.key i → (m.stage j).isSettled
  answer : ∀ i, .answer i ∈ m.jobs ↔ i < m.count ∧ ∃ result, m.stage i = .settled result
  nodup : m.jobs.Nodup
  fifo : m.jobs.Pairwise fun job job' => ∀ i j, job = .start j → job' = .answer i → i < j →
    m.key i ≠ m.key j
  tail : ∀ key t, m.tailByKey key = some t → t < m.count ∧ m.key t = key ∧
    (m.stage t).isAnswered = false ∧ ∀ i < m.count, m.key i = key → i ≤ t
  forgotten : ∀ key, m.tailByKey key = none → ∀ i < m.count, m.key i = key →
    (m.stage i).isAnswered
  started : ∀ i, i ∈ m.started ↔ i < m.count ∧ m.stage i ≠ .queued
  inOrder : m.started.Pairwise fun i j => m.key i = m.key j → i < j

theorem chained_empty : Chained (empty : ResourceMutex E T) where
  fresh _ _ := rfl
  previous := nofun
  first := nofun
  order _ j _ h := nomatch h
  waits := nofun
  start := nofun
  answer i := by simp [empty]
  nodup := .nil
  fifo := .nil
  tail := nofun
  forgotten _ _ i h := nomatch h
  started i := by simp [empty]
  inOrder := .nil

variable {m}

section Call

variable {i : ℕ} (newKey : JsString)

theorem key_of_lt (h : i < m.count) : (m.runExclusively newKey).key i = m.key i :=
  Function.update_of_ne (Nat.ne_of_lt h) _ _

theorem previous_of_lt (h : i < m.count) : (m.runExclusively newKey).previous i = m.previous i :=
  Function.update_of_ne (Nat.ne_of_lt h) _ _

theorem stage_of_lt (h : i < m.count) : (m.runExclusively newKey).stage i = m.stage i :=
  Function.update_of_ne (Nat.ne_of_lt h) _ _

@[simp] theorem key_count : (m.runExclusively newKey).key m.count = newKey :=
  Function.update_self ..

@[simp] theorem previous_count :
    (m.runExclusively newKey).previous m.count = m.tailByKey newKey := Function.update_self ..

@[simp] theorem stage_count : (m.runExclusively newKey).stage m.count = .queued :=
  Function.update_self ..

@[simp] theorem tailByKey_self : (m.runExclusively newKey).tailByKey newKey = some m.count :=
  Function.update_self ..

theorem tailByKey_of_ne {key : JsString} (h : key ≠ newKey) :
    (m.runExclusively newKey).tailByKey key = m.tailByKey key := Function.update_of_ne h _ _

theorem mem_jobs_runExclusively {job : Job} : job ∈ (m.runExclusively newKey).jobs ↔
    job ∈ m.jobs ∨ job = .start m.count ∧
      (m.tailByKey newKey).all (fun previous => (m.stage previous).isSettled) = true := by
  simp only [ResourceMutex.runExclusively]
  split
  · simp [*]
  · simp [*]

end Call

theorem Chained.lt_of_mem_jobs (h : Chained m) {i : ℕ}
    (hmem : .start i ∈ m.jobs ∨ .answer i ∈ m.jobs) : i < m.count := by
  rcases hmem with hmem | hmem
  · exact (h.start i hmem).1
  · exact ((h.answer i).1 hmem).1

theorem Chained.runExclusively (h : Chained m) (newKey : JsString) :
    Chained (m.runExclusively newKey) where
  fresh := by
    intro i hi
    have hne : i ≠ m.count := Nat.ne_of_gt hi
    exact (Function.update_of_ne hne _ _).trans (h.fresh i (Nat.le_of_succ_le hi))
  previous := by
    intro i hi p hp
    rcases Nat.lt_succ_iff_lt_or_eq.1 hi with hi | rfl
    · rw [previous_of_lt newKey hi] at hp
      obtain ⟨hlt, hkey, hlast⟩ := h.previous i hi p hp
      rw [key_of_lt newKey hi, key_of_lt newKey (hlt.trans hi)]
      refine ⟨hlt, hkey, fun j hj hsame => hlast j hj ?_⟩
      rwa [key_of_lt newKey (hj.trans hi)] at hsame
    · rw [previous_count] at hp
      obtain ⟨hlt, hkey, -, hlast⟩ := h.tail newKey p hp
      rw [key_count, key_of_lt newKey hlt]
      refine ⟨hlt, hkey, fun j hj hsame => hlast j hj ?_⟩
      rwa [key_of_lt newKey hj] at hsame
  first := by
    intro i hi hnone j hj hsame
    rcases Nat.lt_succ_iff_lt_or_eq.1 hi with hi | rfl
    · rw [previous_of_lt newKey hi] at hnone
      rw [key_of_lt newKey hi, key_of_lt newKey (hj.trans hi)] at hsame
      rw [stage_of_lt newKey (hj.trans hi)]
      exact h.first i hi hnone j hj hsame
    · rw [previous_count] at hnone
      rw [key_count, key_of_lt newKey hj] at hsame
      rw [stage_of_lt newKey hj]
      exact h.forgotten newKey hnone j hj hsame
  order := by
    intro i j hij hj hsame hopen
    rcases Nat.lt_succ_iff_lt_or_eq.1 hj with hj | rfl
    · rw [key_of_lt newKey hj, key_of_lt newKey (hij.trans hj)] at hsame
      rw [stage_of_lt newKey (hij.trans hj)] at hopen
      rw [stage_of_lt newKey hj]
      exact h.order i j hij hj hsame hopen
    · exact stage_count newKey
  waits := by
    intro i hi hqueued
    rcases Nat.lt_succ_iff_lt_or_eq.1 hi with hi | rfl
    · rw [stage_of_lt newKey hi] at hqueued
      rcases h.waits i hi hqueued with hstart | ⟨p, hp, hopen⟩
      · exact .inl ((mem_jobs_runExclusively newKey).2 (.inl hstart))
      · have hlt := (h.previous i hi p hp).1.trans hi
        rw [previous_of_lt newKey hi]
        exact .inr ⟨p, hp, by rwa [stage_of_lt newKey hlt]⟩
    · rw [mem_jobs_runExclusively, previous_count]
      cases htail : m.tailByKey newKey with
      | none => exact .inl (.inr ⟨rfl, rfl⟩)
      | some p =>
        have hstage := stage_of_lt newKey (h.tail newKey p htail).1
        cases hsettled : (m.stage p).isSettled with
        | true => exact .inl (.inr ⟨rfl, hsettled⟩)
        | false => exact .inr ⟨p, rfl, hstage ▸ hsettled⟩
  start := by
    intro i hmem
    rcases (mem_jobs_runExclusively newKey).1 hmem with hmem | ⟨hnew, hready⟩
    · obtain ⟨hi, hqueued, hbefore⟩ := h.start i hmem
      refine ⟨Nat.lt_succ_of_lt hi, by rwa [stage_of_lt newKey hi], fun j hj hsame => ?_⟩
      rw [key_of_lt newKey hi, key_of_lt newKey (hj.trans hi)] at hsame
      rw [stage_of_lt newKey (hj.trans hi)]
      exact hbefore j hj hsame
    · obtain rfl := Job.start.inj hnew
      refine ⟨Nat.lt_succ_self _, stage_count newKey, fun j hj hsame => ?_⟩
      rw [key_count, key_of_lt newKey hj] at hsame
      rw [stage_of_lt newKey hj]
      cases htail : m.tailByKey newKey with
      | none => exact Stage.isSettled_of_isAnswered (h.forgotten newKey htail j hj hsame)
      | some t =>
        -- behind a call without an answer the last one would be queued
        rw [htail] at hready
        obtain ⟨ht, hkey, -, hlast⟩ := h.tail newKey t htail
        rcases (hlast j hj hsame).lt_or_eq with hlt | rfl
        · cases hanswered : (m.stage j).isAnswered with
          | true => exact Stage.isSettled_of_isAnswered hanswered
          | false =>
            have hqueued := h.order j t hlt ht (hsame.trans hkey.symm) hanswered
            rw [Option.all_some, hqueued] at hready
            cases hready
        · exact hready
  answer := by
    intro i
    have hmem : .answer i ∈ (m.runExclusively newKey).jobs ↔ .answer i ∈ m.jobs := by
      simp [mem_jobs_runExclusively]
    rw [hmem, h.answer i]
    constructor
    · rintro ⟨hi, hsettled⟩
      exact ⟨Nat.lt_succ_of_lt hi, by rwa [stage_of_lt newKey hi]⟩
    · rintro ⟨hi, result, hsettled⟩
      rcases Nat.lt_succ_iff_lt_or_eq.1 hi with hi | rfl
      · rw [stage_of_lt newKey hi] at hsettled
        exact ⟨hi, result, hsettled⟩
      · exact nomatch (stage_count newKey).symm.trans hsettled
  nodup := by
    have hnew : .start m.count ∉ m.jobs := fun hmem => absurd (h.start _ hmem).1 (lt_irrefl _)
    simp only [ResourceMutex.runExclusively]
    split
    · exact List.nodup_append'.2 ⟨h.nodup, List.nodup_singleton _, by simpa using hnew⟩
    · exact h.nodup
  fifo := by
    have hold : m.jobs.Pairwise fun job job' => ∀ i j, job = .start j → job' = .answer i → i < j →
        (m.runExclusively newKey).key i ≠ (m.runExclusively newKey).key j := by
      refine h.fifo.imp_of_mem fun {job job'} hjob hjob' hpair i j hi hj hlt => ?_
      rw [key_of_lt newKey (h.lt_of_mem_jobs (.inr (hj ▸ hjob'))),
        key_of_lt newKey (h.lt_of_mem_jobs (.inl (hi ▸ hjob)))]
      exact hpair i j hi hj hlt
    simp only [ResourceMutex.runExclusively]
    split
    · refine List.pairwise_append.2 ⟨hold, List.pairwise_singleton .., ?_⟩
      intro job _ job' hjob' i j _ hanswer
      obtain rfl := List.mem_singleton.1 hjob'
      cases hanswer
    · exact hold
  tail := by
    intro key t ht
    by_cases hkey : key = newKey
    · subst hkey
      obtain rfl := Option.some.inj ((tailByKey_self key).symm.trans ht)
      rw [key_count, stage_count]
      exact ⟨Nat.lt_succ_self _, rfl, rfl, fun i hi _ => Nat.le_of_lt_succ hi⟩
    · rw [tailByKey_of_ne newKey hkey] at ht
      obtain ⟨hlt, hsame, hopen, hlast⟩ := h.tail key t ht
      rw [key_of_lt newKey hlt, stage_of_lt newKey hlt]
      refine ⟨Nat.lt_succ_of_lt hlt, hsame, hopen, fun i hi hikey => ?_⟩
      rcases Nat.lt_succ_iff_lt_or_eq.1 hi with hi | rfl
      · rw [key_of_lt newKey hi] at hikey
        exact hlast i hi hikey
      · rw [key_count] at hikey
        exact absurd hikey.symm hkey
  forgotten := by
    intro key hnone i hi hikey
    have hkey : key ≠ newKey := by
      rintro rfl
      exact nomatch (tailByKey_self key).symm.trans hnone
    rw [tailByKey_of_ne newKey hkey] at hnone
    rcases Nat.lt_succ_iff_lt_or_eq.1 hi with hi | rfl
    · rw [key_of_lt newKey hi] at hikey
      rw [stage_of_lt newKey hi]
      exact h.forgotten key hnone i hi hikey
    · rw [key_count] at hikey
      exact absurd hikey.symm hkey
  started := by
    intro i
    refine (h.started i).trans ?_
    constructor
    · rintro ⟨hi, hstarted⟩
      exact ⟨Nat.lt_succ_of_lt hi, by rwa [stage_of_lt newKey hi]⟩
    · rintro ⟨hi, hstarted⟩
      rcases Nat.lt_succ_iff_lt_or_eq.1 hi with hi | rfl
      · rw [stage_of_lt newKey hi] at hstarted
        exact ⟨hi, hstarted⟩
      · exact absurd (stage_count newKey) hstarted
  inOrder := by
    refine h.inOrder.imp_of_mem fun {i j} hi hj hpair hsame => hpair ?_
    rwa [key_of_lt newKey ((h.started i).1 hi).1, key_of_lt newKey ((h.started j).1 hj).1] at hsame

/-- A call whose operation has not settled keeps the later ones of its key queued, and not due. -/
theorem Chained.behind (h : Chained m) {i j : ℕ} (hlt : i < j) (hkey : m.key i = m.key j)
    (hopen : (m.stage i).isSettled = false) : .start j ∉ m.jobs := by
  intro hmem
  obtain ⟨-, -, hbefore⟩ := h.start j hmem
  rw [hbefore i hlt hkey] at hopen
  cases hopen

section Stages

variable {stage : Stage E T} {i j : ℕ}

theorem update_stage_of_ne (h : j ≠ i) : Function.update m.stage i stage j = m.stage j :=
  Function.update_of_ne h _ _

theorem isAnswered_update (h : stage.isAnswered = (m.stage i).isAnswered) :
    (Function.update m.stage i stage j).isAnswered = (m.stage j).isAnswered := by
  by_cases hij : j = i
  · rw [hij, Function.update_self, h]
  · rw [update_stage_of_ne hij]

theorem isSettled_update (h : (m.stage i).isSettled → stage.isSettled)
    (hj : (m.stage j).isSettled) : (Function.update m.stage i stage j).isSettled := by
  by_cases hij : j = i
  · rw [hij, Function.update_self]
    exact h (hij ▸ hj)
  · rwa [update_stage_of_ne hij]

end Stages

theorem Chained.settle (h : Chained m) {call : ℕ} (hrunning : m.stage call = .running)
    (hcall : call < m.count) (result : Except E T) : Chained (m.settle call result) := by
  have hanswered : ∀ j, ((m.settle call result).stage j).isAnswered = (m.stage j).isAnswered :=
    fun j => isAnswered_update (by rw [hrunning]; rfl)
  have hsettled : ∀ j, (m.stage j).isSettled → ((m.settle call result).stage j).isSettled :=
    fun j => isSettled_update fun _ => rfl
  have hother : ∀ {j}, j ≠ call → (m.settle call result).stage j = m.stage j :=
    update_stage_of_ne
  have hself : (m.settle call result).stage call = .settled result := Function.update_self ..
  have hopen : (m.stage call).isSettled = false := by rw [hrunning]; rfl
  have hne : ∀ {j}, m.stage j = .queued → j ≠ call := by
    rintro j hqueued rfl
    exact nomatch hrunning.symm.trans hqueued
  have hchained : ∀ {j}, j ∈ m.chainedTo call ↔ j < m.count ∧ m.previous j = some call := by
    simp [chainedTo]
  have hjobs : ∀ {job}, job ∈ (m.settle call result).jobs ↔ job ∈ m.jobs ∨ job = .answer call ∨
      ∃ j ∈ m.chainedTo call, .start j = job := by
    simp [ResourceMutex.settle]
  refine { h with
    fresh := fun i hi => (hother (Nat.ne_of_gt (hcall.trans_le hi))).trans (h.fresh i hi)
    first := ?_
    order := ?_
    waits := ?_
    start := ?_
    answer := ?_
    nodup := ?_
    fifo := ?_
    tail := ?_
    forgotten := ?_
    started := ?_ }
  · intro i hi hnone j hj hkey
    rw [hanswered]
    exact h.first i hi hnone j hj hkey
  · intro i j hij hj hkey hnot
    rw [hanswered] at hnot
    have hqueued := h.order i j hij hj hkey hnot
    rw [hother (hne hqueued), hqueued]
  · intro i hi hqueued
    have hi' : i ≠ call := by
      rintro rfl
      exact nomatch hself.symm.trans hqueued
    rw [hother hi'] at hqueued
    rcases h.waits i hi hqueued with hstart | ⟨p, hp, hunsettled⟩
    · exact .inl (hjobs.2 (.inl hstart))
    · by_cases hpc : p = call
      · -- its promise is the one that settled
        exact .inl (hjobs.2 (.inr (.inr ⟨i, hchained.2 ⟨hi, hpc ▸ hp⟩, rfl⟩)))
      · exact .inr ⟨p, hp, by rwa [hother hpc]⟩
  · intro i hmem
    rcases hjobs.1 hmem with hmem | hmem | ⟨j, hj, hji⟩
    · obtain ⟨hi, hqueued, hbefore⟩ := h.start i hmem
      refine ⟨hi, by rw [hother (hne hqueued), hqueued], fun j hj hkey => ?_⟩
      exact hsettled j (hbefore j hj hkey)
    · cases hmem
    · obtain rfl := Job.start.inj hji
      obtain ⟨hj, hp⟩ := hchained.1 hj
      obtain ⟨hlt, hkey, hlast⟩ := h.previous j hj call hp
      have hnot : (m.stage call).isAnswered = false := by rw [hrunning]; rfl
      have hqueued := h.order call j hlt hj hkey hnot
      refine ⟨hj, by rw [hother (hne hqueued), hqueued], fun i hi hsame => ?_⟩
      rcases (hlast i hi hsame).lt_or_eq with hic | rfl
      · cases hi' : (m.stage i).isAnswered with
        | true => exact hsettled i (Stage.isSettled_of_isAnswered hi')
        | false =>
          have hqueued := h.order i call hic hcall (hsame.trans hkey.symm) hi'
          exact nomatch hrunning.symm.trans hqueued
      · rw [hself]
        rfl
  · intro i
    have hmem : .answer i ∈ (m.settle call result).jobs ↔ .answer i ∈ m.jobs ∨ i = call := by
      rw [hjobs]
      simp
    rw [hmem]
    by_cases hi : i = call
    · subst hi
      exact ⟨fun _ => ⟨hcall, result, hself⟩, fun _ => .inr rfl⟩
    · rw [hother hi]
      exact (or_iff_left hi).trans (h.answer i)
  · refine List.nodup_append'.2 ⟨h.nodup, List.nodup_cons.2 ⟨by simp, ?_⟩, ?_⟩
    · refine List.Nodup.map (fun i j hij => Job.start.inj hij) ?_
      exact List.nodup_range.filter _
    · intro job hjob hnew
      rcases List.mem_cons.1 hnew with rfl | hnew
      · obtain ⟨-, result', hresult⟩ := (h.answer call).1 hjob
        exact nomatch hrunning.symm.trans hresult
      · obtain ⟨j, hj, rfl⟩ := List.mem_map.1 hnew
        obtain ⟨hj, hp⟩ := hchained.1 hj
        obtain ⟨hlt, hkey, -⟩ := h.previous j hj call hp
        exact h.behind hlt hkey hopen hjob
  · refine List.pairwise_append.2 ⟨h.fifo, List.pairwise_cons.2 ⟨?_, ?_⟩, ?_⟩
    · intro job _ i j hstart
      cases hstart
    · refine List.pairwise_map.2 (List.pairwise_of_forall fun _ _ i j _ hanswer => ?_)
      cases hanswer
    · intro job hjob job' hjob' i j hstart hanswer hlt hkey
      rcases List.mem_cons.1 hjob' with rfl | hjob'
      · obtain rfl := Job.answer.inj hanswer
        exact h.behind hlt hkey hopen (hstart ▸ hjob)
      · obtain ⟨k, -, rfl⟩ := List.mem_map.1 hjob'
        cases hanswer
  · intro key t ht
    obtain ⟨hlt, hkey, hnot, hlast⟩ := h.tail key t ht
    exact ⟨hlt, hkey, (hanswered t).trans hnot, hlast⟩
  · intro key hnone i hi hkey
    rw [hanswered]
    exact h.forgotten key hnone i hi hkey
  · intro i
    rw [show (m.settle call result).started = m.started from rfl, h.started i]
    by_cases hi : i = call
    · subst hi
      simp [hrunning, hcall, ResourceMutex.settle]
    · rw [hother hi]
      rfl

theorem Chained.startJob (h : Chained m) {call : ℕ} {jobs : List Job}
    (hjobs : m.jobs = .start call :: jobs) : Chained (m.start call jobs) := by
  obtain ⟨hcall, hqueued, hbefore⟩ := h.start call (by simp [hjobs])
  have hanswered : ∀ j, ((m.start call jobs).stage j).isAnswered = (m.stage j).isAnswered :=
    fun j => isAnswered_update (by rw [hqueued]; rfl)
  have hsettled : ∀ j, (m.stage j).isSettled → ((m.start call jobs).stage j).isSettled :=
    fun j => isSettled_update (by rw [hqueued]; exact id)
  have hother : ∀ {j}, j ≠ call → (m.start call jobs).stage j = m.stage j := update_stage_of_ne
  have hself : (m.start call jobs).stage call = .running := Function.update_self ..
  have hnodup := h.nodup
  have hfifo := h.fifo
  rw [hjobs] at hnodup hfifo
  obtain ⟨hfresh, hnodup⟩ := List.nodup_cons.1 hnodup
  obtain ⟨hhead, hfifo⟩ := List.pairwise_cons.1 hfifo
  have hmem : ∀ {job}, job ∈ m.jobs ↔ job = .start call ∨ job ∈ jobs := by simp [hjobs]
  -- the calls before it on its key have been answered
  have hclear : ∀ i < call, m.key i = m.key call → (m.stage i).isAnswered := by
    intro i hi hkey
    have hbefore := hbefore i hi hkey
    cases hstage : m.stage i with
    | queued | running =>
      rw [hstage] at hbefore
      cases hbefore
    | answered => rfl
    | settled result =>
      have hdue := (h.answer i).2 ⟨hi.trans hcall, result, hstage⟩
      have hdue := (hmem.1 hdue).resolve_left nofun
      exact absurd hkey (hhead _ hdue i call rfl rfl hi)
  refine { h with
    fresh := fun i hi => (hother (Nat.ne_of_gt (hcall.trans_le hi))).trans (h.fresh i hi)
    first := ?_
    order := ?_
    waits := ?_
    start := ?_
    answer := ?_
    nodup := hnodup
    fifo := hfifo
    tail := ?_
    forgotten := ?_
    started := ?_
    inOrder := ?_ }
  · intro i hi hnone j hj hkey
    rw [hanswered]
    exact h.first i hi hnone j hj hkey
  · intro i j hij hj hkey hnot
    rw [hanswered] at hnot
    have hne : j ≠ call := by
      rintro rfl
      rw [hclear i hij hkey] at hnot
      cases hnot
    rw [hother hne]
    exact h.order i j hij hj hkey hnot
  · intro i hi hwaiting
    have hne : i ≠ call := by
      rintro rfl
      exact nomatch hself.symm.trans hwaiting
    rw [hother hne] at hwaiting
    rcases h.waits i hi hwaiting with hstart | ⟨p, hp, hunsettled⟩
    · refine .inl ((hmem.1 hstart).resolve_left fun heq => hne (Job.start.inj heq))
    · refine .inr ⟨p, hp, ?_⟩
      by_cases hpc : p = call
      · rw [hpc, hself]
        rfl
      · rwa [hother hpc]
  · intro i hi
    obtain ⟨hlt, hwaiting, hbefore⟩ := h.start i (hmem.2 (.inr hi))
    have hne : i ≠ call := by
      rintro rfl
      exact hfresh hi
    exact ⟨hlt, by rw [hother hne, hwaiting], fun j hj hkey => hsettled j (hbefore j hj hkey)⟩
  · intro i
    have hjob : .answer i ∈ jobs ↔ .answer i ∈ m.jobs := by simp [hmem]
    rw [show (m.start call jobs).jobs = jobs from rfl, hjob, h.answer i]
    by_cases hi : i = call
    · subst hi
      simp [hself, hqueued]
    · rw [hother hi]
      rfl
  · intro key t ht
    obtain ⟨hlt, hkey, hnot, hlast⟩ := h.tail key t ht
    exact ⟨hlt, hkey, (hanswered t).trans hnot, hlast⟩
  · intro key hnone i hi hkey
    rw [hanswered]
    exact h.forgotten key hnone i hi hkey
  · intro i
    rw [show (m.start call jobs).started = m.started ++ [call] from rfl, List.mem_append,
      List.mem_singleton]
    by_cases hi : i = call
    · subst hi
      simp [hcall, ResourceMutex.start]
    · rw [hother hi, h.started i]
      simp [hi, ResourceMutex.start]
  · refine List.pairwise_append.2 ⟨h.inOrder, List.pairwise_singleton .., ?_⟩
    intro j hj i hi hkey
    obtain rfl := List.mem_singleton.1 hi
    obtain ⟨hlt, hstarted⟩ := (h.started j).1 hj
    rcases lt_trichotomy j i with hji | rfl | hij
    · exact hji
    · exact absurd hqueued hstarted
    · refine absurd (h.order i j hij hlt hkey.symm ?_) hstarted
      rw [hqueued]
      rfl

theorem Chained.answerJob (h : Chained m) {call : ℕ} {result : Except E T} {jobs : List Job}
    (hjobs : m.jobs = .answer call :: jobs) (hstage : m.stage call = .settled result) :
    Chained (m.answer call result jobs) := by
  have hcall : call < m.count := ((h.answer call).1 (by simp [hjobs])).1
  have hother : ∀ {j}, j ≠ call → (m.answer call result jobs).stage j = m.stage j :=
    update_stage_of_ne
  have hself : (m.answer call result jobs).stage call = .answered result := Function.update_self ..
  have hanswered : ∀ j, (m.stage j).isAnswered →
      ((m.answer call result jobs).stage j).isAnswered := by
    intro j hj
    by_cases hjc : j = call
    · rw [hjc, hself]
      rfl
    · rwa [hother hjc]
  have hsettled : ∀ j, (m.stage j).isSettled →
      ((m.answer call result jobs).stage j).isSettled := fun j => isSettled_update fun _ => rfl
  have hnodup := h.nodup
  have hfifo := h.fifo
  rw [hjobs] at hnodup hfifo
  obtain ⟨hfresh, hnodup⟩ := List.nodup_cons.1 hnodup
  have hfifo := (List.pairwise_cons.1 hfifo).2
  have hmem : ∀ {job}, job ∈ m.jobs ↔ job = .answer call ∨ job ∈ jobs := by simp [hjobs]
  have hne : ∀ {j}, m.stage j = .queued → j ≠ call := by
    rintro j hqueued rfl
    exact nomatch hstage.symm.trans hqueued
  refine { h with
    fresh := fun i hi => (hother (Nat.ne_of_gt (hcall.trans_le hi))).trans (h.fresh i hi)
    first := ?_
    order := ?_
    waits := ?_
    start := ?_
    answer := ?_
    nodup := hnodup
    fifo := hfifo
    tail := ?_
    forgotten := ?_
    started := ?_ }
  · intro i hi hnone j hj hkey
    exact hanswered j (h.first i hi hnone j hj hkey)
  · intro i j hij hj hkey hnot
    have hopen : (m.stage i).isAnswered = false := by
      by_contra hyes
      rw [hanswered i (by simpa using hyes)] at hnot
      cases hnot
    have hqueued := h.order i j hij hj hkey hopen
    rw [hother (hne hqueued), hqueued]
  · intro i hi hwaiting
    have hic : i ≠ call := by
      rintro rfl
      exact nomatch hself.symm.trans hwaiting
    rw [hother hic] at hwaiting
    rcases h.waits i hi hwaiting with hstart | ⟨p, hp, hunsettled⟩
    · exact .inl ((hmem.1 hstart).resolve_left nofun)
    · refine .inr ⟨p, hp, ?_⟩
      have hpc : p ≠ call := by
        rintro rfl
        rw [hstage] at hunsettled
        cases hunsettled
      rwa [hother hpc]
  · intro i hi
    obtain ⟨hlt, hqueued, hbefore⟩ := h.start i (hmem.2 (.inr hi))
    refine ⟨hlt, by rw [hother (hne hqueued), hqueued], fun j hj hkey => ?_⟩
    exact hsettled j (hbefore j hj hkey)
  · intro i
    rw [show (m.answer call result jobs).jobs = jobs from rfl]
    by_cases hi : i = call
    · subst hi
      simp [hself, hfresh]
    · have hjob : .answer i ∈ jobs ↔ .answer i ∈ m.jobs := by simp [hmem, hi]
      rw [hjob, h.answer i, hother hi]
      rfl
  · intro key t ht
    have hold : m.tailByKey key = some t ∧ t ≠ call := by
      simp only [ResourceMutex.answer] at ht
      split at ht
      · rename_i htail
        by_cases hkey : key = m.key call
        · rw [hkey, Function.update_self] at ht
          cases ht
        · rw [Function.update_of_ne hkey] at ht
          refine ⟨ht, ?_⟩
          rintro rfl
          exact hkey (h.tail key t ht).2.1.symm
      · refine ⟨ht, ?_⟩
        rintro rfl
        exact absurd ((h.tail key t ht).2.1.symm ▸ ht) ‹_›
    obtain ⟨hlt, hkey, hnot, hlast⟩ := h.tail key t hold.1
    exact ⟨hlt, hkey, by rwa [hother hold.2], hlast⟩
  · intro key hnone i hi hkey
    simp only [ResourceMutex.answer] at hnone
    split at hnone
    · rename_i htail
      by_cases hsame : key = m.key call
      · -- no later call has replaced the promise, and those before have been answered
        rcases ((h.tail _ _ htail).2.2.2 i hi (hkey.trans hsame)).lt_or_eq with hlt | rfl
        · by_contra hnot
          have hopen : (m.stage i).isAnswered = false := by
            by_contra hyes
            exact hnot (hanswered i (by simpa using hyes))
          exact hne (h.order i call hlt hcall (hkey.trans hsame) hopen) rfl
        · rw [hself]
          rfl
      · rw [Function.update_of_ne hsame] at hnone
        exact hanswered i (h.forgotten key hnone i hi hkey)
    · exact hanswered i (h.forgotten key hnone i hi hkey)
  · intro i
    rw [show (m.answer call result jobs).started = m.started from rfl, h.started i]
    by_cases hi : i = call
    · subst hi
      simp [hstage, ResourceMutex.answer]
    · rw [hother hi]
      rfl

theorem Chained.lt_of_running (h : Chained m) {call : ℕ} (hrunning : m.stage call = .running) :
    call < m.count := by
  by_contra hge
  exact nomatch hrunning.symm.trans (h.fresh call (Nat.le_of_not_lt hge))

/-- At most one operation of a key runs. -/
theorem Chained.exclusive (h : Chained m) {i j : ℕ} (hi : m.stage i = .running)
    (hj : m.stage j = .running) (hkey : m.key i = m.key j) : i = j := by
  have hlt : ∀ i j, m.stage i = .running → m.stage j = .running → m.key i = m.key j → ¬i < j := by
    intro i j hi hj hkey hij
    have hopen : (m.stage i).isAnswered = false := by rw [hi]; rfl
    exact nomatch hj.symm.trans (h.order i j hij (h.lt_of_running hj) hkey hopen)
  exact le_antisymm (Nat.le_of_not_lt (hlt j i hj hi hkey.symm)) (Nat.le_of_not_lt (hlt i j hi hj hkey))

theorem Chained.step (h : Chained m) {event : MutexEvent E T} {m' : ResourceMutex E T}
    (hstep : m.Steps event m') : Chained m' := by
  cases event with
  | call key =>
    obtain rfl := Option.some.inj hstep
    exact h.runExclusively key
  | settle call result =>
    simp only [Steps, ResourceMutex.step] at hstep
    split at hstep
    · obtain rfl := Option.some.inj hstep
      exact h.settle ‹_› (h.lt_of_running ‹_›) result
    · cases hstep
  | react =>
    simp only [Steps, ResourceMutex.step] at hstep
    split at hstep
    · cases hstep
    · obtain rfl := Option.some.inj hstep
      exact h.startJob ‹_›
    · split at hstep
      · obtain rfl := Option.some.inj hstep
        exact h.answerJob ‹_› ‹_›
      · cases hstep

/-! ## The law -/

/-- The results are those with which the operations settled. -/
def Settles (es : List (MutexEvent E T)) (m : ResourceMutex E T) : Prop :=
  ∀ call result, (m.stage call).result? = some result ↔ .settle call result ∈ es

theorem settles_update {es : List (MutexEvent E T)} {event : MutexEvent E T} {i : ℕ}
    {stage : Stage E T} {m' : ResourceMutex E T} (h : Settles es m)
    (hstage : m'.stage = Function.update m.stage i stage)
    (hresult : stage.result? = (m.stage i).result?) (hevent : ∀ i result, event ≠ .settle i result) :
    Settles (es ++ [event]) m' := by
  intro call result
  have hold : (m'.stage call).result? = (m.stage call).result? := by
    rw [hstage]
    by_cases hcall : call = i
    · rw [hcall, Function.update_self, hresult]
    · rw [Function.update_of_ne hcall]
  rw [hold, h call result, List.mem_append, List.mem_singleton]
  exact (or_iff_left (hevent call result).symm).symm

theorem Settles.step {es : List (MutexEvent E T)} {event : MutexEvent E T} {m' : ResourceMutex E T}
    (hchained : Chained m) (h : Settles es m) (hstep : m.Steps event m') :
    Settles (es ++ [event]) m' := by
  cases event with
  | call key =>
    obtain rfl := Option.some.inj hstep
    refine settles_update h rfl ?_ nofun
    rw [hchained.fresh m.count le_rfl]
  | settle i result =>
    simp only [Steps, ResourceMutex.step] at hstep
    split at hstep
    · rename_i hrunning
      obtain rfl := Option.some.inj hstep
      intro call result'
      rw [List.mem_append, List.mem_singleton, ← h call result']
      by_cases hcall : call = i
      · subst hcall
        rw [show (m.settle call result).stage call = .settled result from Function.update_self ..,
          hrunning]
        simp [Stage.result?, eq_comm]
      · rw [show (m.settle i result).stage call = m.stage call from
          Function.update_of_ne hcall _ _]
        simp [hcall]
    · cases hstep
  | react =>
    simp only [Steps, ResourceMutex.step] at hstep
    split at hstep
    · cases hstep
    · rename_i call jobs hjobs
      obtain rfl := Option.some.inj hstep
      refine settles_update h rfl ?_ nofun
      rw [(hchained.start call (by simp [hjobs])).2.1]
      rfl
    · split at hstep
      · obtain rfl := Option.some.inj hstep
        refine settles_update h rfl ?_ nofun
        rw [‹m.stage _ = _›]
        rfl
      · cases hstep

/-- A strictly increasing list, with every element of another that lies below one of its own. -/
theorem isPrefix_of_closed {l l' : List ℕ} (h : l.Pairwise (· < ·)) (h' : l'.Pairwise (· < ·))
    (hmem : ∀ x ∈ l, x ∈ l') (hclosed : ∀ x ∈ l, ∀ y ∈ l', y < x → y ∈ l) : l <+: l' := by
  induction l' generalizing l with
  | nil =>
    obtain rfl : l = [] := List.eq_nil_iff_forall_not_mem.2 fun x hx => nomatch hmem x hx
    exact List.nil_prefix
  | cons b l' ih =>
    cases l with
    | nil => exact List.nil_prefix
    | cons a l =>
      obtain ⟨ha, hl⟩ := List.pairwise_cons.1 h
      obtain ⟨hb, hl'⟩ := List.pairwise_cons.1 h'
      have hab : a = b := by
        rcases List.mem_cons.1 (hmem a List.mem_cons_self) with hab | hab
        · exact hab
        · -- `b` lies below `a`, so it is an element too
          have hlt := hb a hab
          have hbl := hclosed a List.mem_cons_self b List.mem_cons_self hlt
          rcases List.mem_cons.1 hbl with hba | hbl
          · omega
          · have hgt := ha b hbl
            omega
      subst hab
      refine (List.prefix_cons_inj a).2 (ih hl hl' (fun x hx => ?_) fun x hx y hy hlt => ?_)
      · refine (List.mem_cons.1 (hmem x (List.mem_cons_of_mem _ hx))).resolve_left ?_
        rintro rfl
        exact lt_irrefl _ (ha _ hx)
      · have hyl := hclosed x (List.mem_cons_of_mem _ hx) y (List.mem_cons_of_mem _ hy) hlt
        refine (List.mem_cons.1 hyl).resolve_left ?_
        rintro rfl
        exact lt_irrefl _ (hb _ hy)

/-- What the mutex does for its callers. -/
structure Lawful (es : List (MutexEvent E T)) (m : ResourceMutex E T) : Prop where
  /-- At most one operation of a key runs. -/
  exclusive : ∀ i j, m.stage i = .running → m.stage j = .running → m.key i = m.key j → i = j
  /-- Those of a key start in the order of their calls, each once, -/
  inOrder : ∀ key, (m.started.filter fun call => m.key call = key) <+:
    (List.range m.count).filter fun call => m.key call = key
  once : m.started.Nodup
  /-- and each has run and been answered when none runs and no reaction is due. -/
  complete : m.jobs = [] → (∀ i, m.stage i ≠ .running) → ∀ i < m.count,
    i ∈ m.started ∧ (m.stage i).isAnswered
  /-- Its answer is the result of its own operation. -/
  own : ∀ i result, m.stage i = .answered result → .settle i result ∈ es ∧
    ∀ result', .settle i result' ∈ es → result' = result
  /-- A key is tracked exactly while a call of it has not been answered; -/
  tracked : ∀ key, (m.tailByKey key).isSome ↔
    ∃ i < m.count, m.key i = key ∧ (m.stage i).isAnswered = false
  /-- when no reaction is due, exactly while an operation of it is queued or running. -/
  trackedAtRest : m.jobs = [] → ∀ key, (m.tailByKey key).isSome ↔
    ∃ i < m.count, m.key i = key ∧ (m.stage i = .queued ∨ m.stage i = .running)

theorem Chained.tracked (h : Chained m) (key : JsString) : (m.tailByKey key).isSome ↔
    ∃ i < m.count, m.key i = key ∧ (m.stage i).isAnswered = false := by
  cases htail : m.tailByKey key with
  | none =>
    refine ⟨nofun, ?_⟩
    rintro ⟨i, hi, hkey, hopen⟩
    rw [h.forgotten key htail i hi hkey] at hopen
    cases hopen
  | some t =>
    obtain ⟨hlt, hkey, hopen, -⟩ := h.tail key t htail
    exact ⟨fun _ => ⟨t, hlt, hkey, hopen⟩, fun _ => rfl⟩

/-- When no reaction is due, a call that has not been answered is queued or running. -/
theorem Chained.at_rest (h : Chained m) (hjobs : m.jobs = []) {i : ℕ} (hi : i < m.count) :
    (m.stage i).isAnswered = false ↔ m.stage i = .queued ∨ m.stage i = .running := by
  cases hstage : m.stage i with
  | queued => simp [Stage.isAnswered]
  | running => simp [Stage.isAnswered]
  | answered => simp [Stage.isAnswered]
  | settled result =>
    have hdue := (h.answer i).2 ⟨hi, result, hstage⟩
    rw [hjobs] at hdue
    exact absurd hdue List.not_mem_nil

theorem Chained.all_answered (h : Chained m) (hjobs : m.jobs = [])
    (hidle : ∀ i, m.stage i ≠ .running) (i : ℕ) (hi : i < m.count) : (m.stage i).isAnswered := by
  induction i using Nat.strong_induction_on with
  | _ i ih =>
    by_contra hnot
    have hopen : (m.stage i).isAnswered = false := by simpa using hnot
    have hqueued := ((h.at_rest hjobs hi).1 hopen).resolve_right (hidle i)
    -- it waits for a call before it, which has been answered
    rcases h.waits i hi hqueued with hdue | ⟨p, hp, hunsettled⟩
    · rw [hjobs] at hdue
      exact absurd hdue List.not_mem_nil
    · have hlt := (h.previous i hi p hp).1
      rw [Stage.isSettled_of_isAnswered (ih p hlt (hlt.trans hi))] at hunsettled
      cases hunsettled

theorem Chained.lawful (h : Chained m) {es : List (MutexEvent E T)} (hsettles : Settles es m) :
    Lawful es m where
  exclusive _ _ := h.exclusive
  inOrder := by
    intro key
    refine isPrefix_of_closed ?_ (List.pairwise_lt_range.filter _) (fun i hi => ?_)
      fun i hi j hj hji => ?_
    · refine List.Pairwise.imp_of_mem ?_ (h.inOrder.filter _)
      intro i j hi hj hpair
      have hikey := of_decide_eq_true (List.mem_filter.1 hi).2
      have hjkey := of_decide_eq_true (List.mem_filter.1 hj).2
      exact hpair (hikey.trans hjkey.symm)
    · obtain ⟨hi, hkey⟩ := List.mem_filter.1 hi
      exact List.mem_filter.2 ⟨List.mem_range.2 ((h.started i).1 hi).1, hkey⟩
    · obtain ⟨hi, hikey⟩ := List.mem_filter.1 hi
      obtain ⟨hj, hjkey⟩ := List.mem_filter.1 hj
      obtain ⟨hlt, hstarted⟩ := (h.started i).1 hi
      have hsame := (of_decide_eq_true hjkey).trans (of_decide_eq_true hikey).symm
      refine List.mem_filter.2 ⟨(h.started j).2 ⟨List.mem_range.1 hj, fun hqueued => ?_⟩, hjkey⟩
      refine hstarted (h.order j i hji hlt hsame ?_)
      rw [hqueued]
      rfl
  once := by
    refine h.inOrder.imp fun {i j} hpair heq => ?_
    have hlt := hpair (congrArg m.key heq)
    omega
  complete := by
    intro hjobs hidle i hi
    have hanswered := h.all_answered hjobs hidle i hi
    refine ⟨(h.started i).2 ⟨hi, fun hqueued => ?_⟩, hanswered⟩
    rw [hqueued] at hanswered
    cases hanswered
  own := by
    intro i result hstage
    have hresult : (m.stage i).result? = some result := by rw [hstage]; rfl
    refine ⟨(hsettles i result).1 hresult, fun result' hother => ?_⟩
    exact Option.some.inj (((hsettles i result').2 hother).symm.trans hresult)
  tracked := h.tracked
  trackedAtRest := by
    intro hjobs key
    rw [h.tracked key]
    refine exists_congr fun i => and_congr_right fun hi => and_congr_right fun _ => ?_
    exact h.at_rest hjobs hi

/-- **The mutex law**, in every run. -/
theorem mutex_lawful {es : List (MutexEvent E T)} {m : ResourceMutex E T}
    (hrun : Run Steps empty es m) : Lawful es m := by
  have hempty : Settles [] (empty : ResourceMutex E T) := by
    intro call result
    simp [empty, Stage.result?]
  have hboth := hrun.history_invariant
    (fun es m event m' hstep (h : Chained m ∧ Settles es m) =>
      (⟨h.1.step hstep, h.2.step h.1 hstep⟩ : Chained m' ∧ Settles (es ++ [event]) m'))
    ⟨chained_empty, hempty⟩
  exact hboth.1.lawful hboth.2

/-- The first operation rejects while the second waits. -/
def rejectedFirst : List (MutexEvent ℕ ℕ) :=
  [.call "a", .call "a", .react, .settle 0 (.error 1), .react, .react, .settle 1 (.ok 2), .react]

theorem mutex_lawful_rejectedFirst : ∃ m, Run Steps empty rejectedFirst m ∧ m.started = [0, 1] ∧
    Lawful rejectedFirst m := by
  obtain ⟨m, hrun, htest⟩ : ∃ m, Run Steps empty rejectedFirst m ∧
      decide (m.started = [0, 1]) = true := Run.exists_of_foldlM (by decide)
  exact ⟨m, hrun, of_decide_eq_true htest, mutex_lawful hrun⟩

/-- The only operation of a key has ended, and its caller is about to be answered. -/
theorem not_tracked_exactly : ¬∀ (es : List (MutexEvent ℕ ℕ)) (m : ResourceMutex ℕ ℕ),
    Run Steps empty es m → ∀ key, (m.tailByKey key).isSome ↔
      ∃ i < m.count, m.key i = key ∧ (m.stage i = .queued ∨ m.stage i = .running) := by
  intro hclaim
  obtain ⟨m, hrun, htest⟩ : ∃ m,
      Run Steps empty ([.call "a", .react, .settle 0 (.ok 1)] : List (MutexEvent ℕ ℕ)) m ∧
        ((m.tailByKey "a").isSome && decide (m.count = 1) && (m.stage 0).isSettled) = true :=
    Run.exists_of_foldlM (by decide)
  simp only [Bool.and_eq_true, decide_eq_true_eq] at htest
  obtain ⟨⟨htracked, hcount⟩, hsettled⟩ := htest
  obtain ⟨i, hi, -, hstage⟩ := (hclaim _ m hrun "a").1 htracked
  obtain rfl : i = 0 := by omega
  rcases hstage with hstage | hstage <;>
  · rw [hstage] at hsettled
    exact nomatch hsettled

end ResourceMutex

end Kinglet.Shared
