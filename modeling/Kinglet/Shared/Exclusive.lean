import Kinglet.Library.Script
import Kinglet.Shared.ResourceMutex

/-!
# Scripts under the resource mutex

The operations that a resource mutex runs are scripts that share a state. An operation takes a step
whenever it is running, and settles when its script is done.

Where the state separates by keys, so that an operation acts on its own key's part alone, each part goes
through what the operations of its key do one after the other: an invariant that every operation keeps
when it runs on the part alone holds of the part whenever no operation of its key is running.
-/

namespace Kinglet.Shared

open Js Library

/-- The mutex, what is left of the script of each call, and the shared state. -/
structure Exclusive (Ask : Type) (Answer : Ask → Type) (ε α σ : Type) where
  mutex : ResourceMutex ε α
  script : ℕ → Option (Script Ask Answer ε α)
  shared : σ

inductive ExclusiveEvent (Ask : Type) (Answer : Ask → Type) (ε α ι : Type)
  | call (key : JsString) (script : Script Ask Answer ε α)
  | ask (call : ℕ) (input : ι)
  | settle (call : ℕ)
  | react

namespace Exclusive

variable {Ask : Type} {Answer : Ask → Type} {ε α σ ι τ κ : Type}

def start (shared : σ) : Exclusive Ask Answer ε α σ := ⟨.empty, fun _ => none, shared⟩

/-- What an event does, where it is possible. -/
def next (world : World Ask Answer ε σ ι) (machine : Exclusive Ask Answer ε α σ) :
    ExclusiveEvent Ask Answer ε α ι → Option (Exclusive Ask Answer ε α σ)
  | .call key script => some
      { machine with
        mutex := machine.mutex.runExclusively key
        script := Function.update machine.script machine.mutex.count (some script) }
  | .ask call input =>
      match machine.mutex.stage call, machine.script call with
      | .running, some (.ask request go) =>
          let (shared, answer) := world.handle machine.shared request input
          some
            { machine with
              script := Function.update machine.script call (some (go answer))
              shared := shared }
      | _, _ => none
  | .settle call =>
      match machine.mutex.stage call, machine.script call with
      | .running, some (.done result) => some { machine with mutex := machine.mutex.settle call result }
      | _, _ => none
  | .react => (machine.mutex.step .react).map fun mutex => { machine with mutex := mutex }

/-- The scripts that may be called, and the inputs that may come with an ask. -/
def Allowed (world : World Ask Answer ε σ ι) (Starts : JsString → Script Ask Answer ε α → Prop)
    (machine : Exclusive Ask Answer ε α σ) : ExclusiveEvent Ask Answer ε α ι → Prop
  | .call key script => Starts key script
  | .ask call input => ∀ request go, machine.script call = some (.ask request go) →
      world.Allows machine.shared request input
  | .settle _ | .react => True

def Step (world : World Ask Answer ε σ ι) (Starts : JsString → Script Ask Answer ε α → Prop)
    (machine : Exclusive Ask Answer ε α σ) (event : ExclusiveEvent Ask Answer ε α ι)
    (machine' : Exclusive Ask Answer ε α σ) : Prop :=
  machine.Allowed world Starts event ∧ machine.next world event = some machine'

/-- No call is in flight. -/
def AllAnswered (machine : Exclusive Ask Answer ε α σ) : Prop :=
  ∀ call < machine.mutex.count, (machine.mutex.stage call).isAnswered = true

instance (machine : Exclusive Ask Answer ε α σ) : Decidable machine.AllAnswered :=
  inferInstanceAs (Decidable (∀ call < machine.mutex.count, (machine.mutex.stage call).isAnswered = true))

/-! ## Runs by evaluation -/

section Evaluation

variable {world : World Ask Answer ε σ ι} {Starts : JsString → Script Ask Answer ε α → Prop}
  {machine : Exclusive Ask Answer ε α σ}

/-- What an event does whose input, if it has one, is allowed. -/
def play (world : World Ask Answer ε σ ι) [∀ s request i, Decidable (world.Allows s request i)]
    (machine : Exclusive Ask Answer ε α σ) :
    ExclusiveEvent Ask Answer ε α ι → Option (Exclusive Ask Answer ε α σ)
  | .ask call input =>
      match machine.script call with
      | some (.ask request _) =>
          if world.Allows machine.shared request input then machine.next world (.ask call input) else none
      | _ => none
  | event => machine.next world event

/-- A call from its start to its answer. -/
def alone (call : ℕ) (key : JsString) (script : Script Ask Answer ε α) (inputs : List ι) :
    List (ExclusiveEvent Ask Answer ε α ι) :=
  .call key script :: .react :: (inputs.map (.ask call) ++ [.settle call, .react])

theorem step_of_play [∀ s request i, Decidable (world.Allows s request i)]
    {event : ExclusiveEvent Ask Answer ε α ι} {machine' : Exclusive Ask Answer ε α σ}
    (hstarts : ∀ key script, event = .call key script → Starts key script)
    (h : machine.play world event = some machine') : machine.Step world Starts event machine' := by
  cases event with
  | call key script => exact ⟨hstarts key script rfl, h⟩
  | ask call input =>
      simp only [play] at h
      split at h
      · rename_i request go hscript
        split at h
        · rename_i hallows
          refine ⟨fun request' go' hscript' => ?_, h⟩
          obtain ⟨rfl, -⟩ := Script.ask.inj (Option.some.inj (hscript.symm.trans hscript'))
          exact hallows
        · cases h
      · cases h
  | settle call => exact ⟨trivial, h⟩
  | react => exact ⟨trivial, h⟩

theorem exists_run [∀ s request i, Decidable (world.Allows s request i)]
    {events : List (ExclusiveEvent Ask Answer ε α ι)} {test : Exclusive Ask Answer ε α σ → Bool}
    (hstarts : ∀ key script, .call key script ∈ events → Starts key script)
    (h : (events.foldlM (play world) machine).any test = true) :
    ∃ machine', Run (Step world Starts) machine events machine' ∧ test machine' = true := by
  obtain ⟨machine', hrun, htest⟩ := Run.exists_of_foldlM h
  refine ⟨machine', hrun.mono fun event hevent _ _ hstep => step_of_play (fun key script hcall => ?_) hstep,
    htest⟩
  exact hstarts key script (hcall ▸ hevent)

theorem mem_alone {call : ℕ} {key key' : JsString} {script script' : Script Ask Answer ε α}
    {inputs : List ι} (h : .call key' script' ∈ alone call key script inputs) :
    key' = key ∧ script' = script := by
  simpa [alone] using h

end Evaluation

/-! ## Separation -/

/-- What a call of a key asks for is about the part of the key alone. -/
structure Separates (world : World Ask Answer ε σ ι) (inner : World Ask Answer ε τ κ)
    (view : JsString → σ → τ) (G : σ → Prop) (May : JsString → τ → Ask → Prop) : Prop where
  keeps : ∀ {key s request i}, G s → May key (view key s) request → world.Allows s request i →
    G (world.handle s request i).1
  own : ∀ {key s request i}, G s → May key (view key s) request → world.Allows s request i →
    ∃ j, inner.Allows (view key s) request j ∧
      view key (world.handle s request i).1 = (inner.handle (view key s) request j).1 ∧
        (world.handle s request i).2 = (inner.handle (view key s) request j).2
  others : ∀ {key key' s request i}, G s → May key (view key s) request →
    world.Allows s request i → key' ≠ key → view key' (world.handle s request i).1 = view key' s

/-- Each part satisfies its invariant, or is in the hands of the one operation that is running. -/
structure Holds (inner : World Ask Answer ε τ κ) (view : JsString → σ → τ) (G : σ → Prop)
    (May : JsString → τ → Ask → Prop) (Starts : JsString → Script Ask Answer ε α → Prop)
    (I : JsString → τ → Prop) (machine : Exclusive Ask Answer ε α σ) : Prop where
  chained : machine.mutex.Chained
  shared : G machine.shared
  queued : ∀ i < machine.mutex.count, machine.mutex.stage i = .queued →
    ∃ script, machine.script i = some script ∧ Starts (machine.mutex.key i) script
  running : ∀ i, machine.mutex.stage i = .running → ∃ script, machine.script i = some script ∧
    Script.Safe inner (May (machine.mutex.key i)) (fun part _ => I (machine.mutex.key i) part) script
      (view (machine.mutex.key i) machine.shared)
  idle : ∀ key, (∀ i, machine.mutex.stage i = .running → machine.mutex.key i ≠ key) →
    I key (view key machine.shared)

variable {world : World Ask Answer ε σ ι} {inner : World Ask Answer ε τ κ}
  {view : JsString → σ → τ} {G : σ → Prop} {May : JsString → τ → Ask → Prop}
  {Starts : JsString → Script Ask Answer ε α → Prop} {I : JsString → τ → Prop}
  {machine machine' : Exclusive Ask Answer ε α σ} {event : ExclusiveEvent Ask Answer ε α ι}

theorem holds_start {shared : σ} (hG : G shared) (hI : ∀ key, I key (view key shared)) :
    Holds inner view G May Starts I (start shared : Exclusive Ask Answer ε α σ) where
  chained := ResourceMutex.chained_empty
  shared := hG
  queued := nofun
  running := nofun
  idle key _ := hI key

theorem Holds.call (h : Holds inner view G May Starts I machine) {key : JsString}
    {script : Script Ask Answer ε α} (hstarts : Starts key script) :
    Holds inner view G May Starts I
      { machine with
        mutex := machine.mutex.runExclusively key
        script := Function.update machine.script machine.mutex.count (some script) } := by
  have hstage : (machine.mutex.runExclusively key).stage = machine.mutex.stage := by
    change Function.update _ _ _ = _
    rw [Function.update_eq_self_iff]
    exact (h.chained.fresh _ le_rfl).symm
  have hrunning : ∀ i, machine.mutex.stage i = .running → i < machine.mutex.count :=
    fun i => h.chained.lt_of_running
  refine ⟨h.chained.runExclusively key, h.shared, fun i hi hqueued => ?_, fun i hi => ?_,
    fun key' hidle => ?_⟩
  · dsimp only at hi hqueued ⊢
    rw [hstage] at hqueued
    rcases Nat.lt_succ_iff_lt_or_eq.1 hi with hi | rfl
    · rw [Function.update_of_ne hi.ne, ResourceMutex.key_of_lt key hi]
      exact h.queued i hi hqueued
    · rw [Function.update_self, ResourceMutex.key_count]
      exact ⟨script, rfl, hstarts⟩
  · dsimp only at hi ⊢
    rw [hstage] at hi
    rw [Function.update_of_ne (hrunning i hi).ne, ResourceMutex.key_of_lt key (hrunning i hi)]
    exact h.running i hi
  · dsimp only at hidle
    rw [hstage] at hidle
    refine h.idle key' fun i hi => ?_
    have hne := hidle i hi
    rwa [ResourceMutex.key_of_lt key (hrunning i hi)] at hne

theorem Holds.ask (hseparates : Separates world inner view G May)
    (h : Holds inner view G May Starts I machine) {call : ℕ} {request : Ask} {input : ι}
    {go : Except ε (Answer request) → Script Ask Answer ε α}
    (hrunning : machine.mutex.stage call = .running)
    (hscript : machine.script call = some (.ask request go))
    (hallows : world.Allows machine.shared request input) :
    Holds inner view G May Starts I
      { machine with
        script := Function.update machine.script call
          (some (go (world.handle machine.shared request input).2))
        shared := (world.handle machine.shared request input).1 } := by
  obtain ⟨script, hsame, hmay, hsafe⟩ : ∃ script, machine.script call = some script ∧
      May (machine.mutex.key call) (view (machine.mutex.key call) machine.shared) request ∧
        ∀ j, inner.Allows (view (machine.mutex.key call) machine.shared) request j →
          Script.Safe inner (May (machine.mutex.key call)) (fun part _ => I (machine.mutex.key call) part)
            (go (inner.handle (view (machine.mutex.key call) machine.shared) request j).2)
            (inner.handle (view (machine.mutex.key call) machine.shared) request j).1 := by
    obtain ⟨script, hsame, hsafe⟩ := h.running call hrunning
    obtain rfl := Option.some.inj (hscript.symm.trans hsame)
    exact ⟨_, hscript, hsafe⟩
  obtain ⟨j, hj, hview, hanswer⟩ := hseparates.own h.shared hmay hallows
  have hother : ∀ key, key ≠ machine.mutex.key call →
      view key (world.handle machine.shared request input).1 = view key machine.shared :=
    fun key => hseparates.others h.shared hmay hallows
  refine ⟨h.chained, hseparates.keeps h.shared hmay hallows, fun i hi hqueued => ?_, fun i hi => ?_,
    fun key hidle => ?_⟩
  · have hne : i ≠ call := by
      rintro rfl
      cases hqueued.symm.trans hrunning
    dsimp only
    rw [Function.update_of_ne hne]
    exact h.queued i hi hqueued
  · by_cases hne : i = call
    · rw [hne]
      dsimp only
      rw [Function.update_self]
      refine ⟨_, rfl, ?_⟩
      rw [hview, hanswer]
      exact hsafe j hj
    · have hkey : machine.mutex.key i ≠ machine.mutex.key call :=
        fun hkey => hne (h.chained.exclusive hi hrunning hkey)
      dsimp only
      rw [Function.update_of_ne hne, hother _ hkey]
      exact h.running i hi
  · have hkey : key ≠ machine.mutex.key call := (hidle call hrunning).symm
    dsimp only
    rw [hother key hkey]
    exact h.idle key hidle

theorem Holds.settle (h : Holds inner view G May Starts I machine) {call : ℕ} {result : Except ε α}
    (hrunning : machine.mutex.stage call = .running)
    (hscript : machine.script call = some (.done result)) :
    Holds inner view G May Starts I { machine with mutex := machine.mutex.settle call result } := by
  have hcall : I (machine.mutex.key call) (view (machine.mutex.key call) machine.shared) := by
    obtain ⟨script, hsame, hsafe⟩ := h.running call hrunning
    obtain rfl := Option.some.inj (hscript.symm.trans hsame)
    exact hsafe
  have hstage : ∀ i stage, (machine.mutex.settle call result).stage i = stage → stage ≠ .settled result →
      i ≠ call ∧ machine.mutex.stage i = stage := by
    rintro i stage hi hstage
    have hne : i ≠ call := by
      rintro rfl
      exact hstage (hi.symm.trans (Function.update_self ..))
    exact ⟨hne, (Function.update_of_ne hne _ _).symm.trans hi⟩
  refine ⟨h.chained.settle hrunning (h.chained.lt_of_running hrunning) result, h.shared,
    fun i hi hqueued => h.queued i hi (hstage i _ hqueued nofun).2,
    fun i hi => h.running i (hstage i _ hi nofun).2, fun key hidle => ?_⟩
  by_cases hkey : machine.mutex.key call = key
  · exact hkey ▸ hcall
  · refine h.idle key fun i hi => ?_
    by_cases hne : i = call
    · exact hne ▸ hkey
    · exact hidle i ((Function.update_of_ne hne _ _).trans hi)

theorem Holds.react (hstarts : ∀ key script part, Starts key script → I key part →
      Script.Safe inner (May key) (fun part _ => I key part) script part)
    (h : Holds inner view G May Starts I machine) {mutex : ResourceMutex ε α}
    (hstep : machine.mutex.step .react = some mutex) :
    Holds inner view G May Starts I { machine with mutex := mutex } := by
  have hchained : mutex.Chained :=
    h.chained.step (show machine.mutex.step .react = some mutex from hstep)
  simp only [ResourceMutex.step] at hstep
  split at hstep
  · cases hstep
  · -- an operation starts: none of its key was running
    rename_i call jobs hjobs
    obtain rfl := Option.some.inj hstep
    obtain ⟨hlt, hqueued, -⟩ := h.chained.start call (hjobs ▸ List.mem_cons_self)
    have hself : (machine.mutex.start call jobs).stage call = .running := Function.update_self ..
    have hother : ∀ i, i ≠ call →
        (machine.mutex.start call jobs).stage i = machine.mutex.stage i :=
      fun i hne => Function.update_of_ne hne _ _
    have hne : ∀ i, machine.mutex.stage i = .running → i ≠ call := by
      rintro i hi rfl
      cases hi.symm.trans hqueued
    refine ⟨hchained, h.shared, fun i hi hwaits => ?_, fun i hi => ?_, fun key hidle => ?_⟩
    · have hnot : i ≠ call := by
        rintro rfl
        cases hwaits.symm.trans hself
      exact h.queued i hi ((hother i hnot).symm.trans hwaits)
    · by_cases hsame : i = call
      · obtain ⟨script, hscript, hbegins⟩ := h.queued call hlt hqueued
        refine ⟨script, hsame ▸ hscript, ?_⟩
        rw [hsame]
        refine hstarts _ _ _ hbegins (h.idle _ fun j hj hkey => hne j hj ?_)
        exact hchained.exclusive ((hother j (hne j hj)).trans hj) hself hkey
      · exact h.running i ((hother i hsame).symm.trans hi)
    · exact h.idle key fun i hi => hidle i ((hother i (hne i hi)).trans hi)
  · rename_i call jobs hjobs
    split at hstep
    · rename_i result hsettled
      obtain rfl := Option.some.inj hstep
      have hstage : ∀ i stage, (machine.mutex.answer call result jobs).stage i = stage →
          stage ≠ .answered result → machine.mutex.stage i = stage := by
        rintro i stage hi hstage
        have hne : i ≠ call := by
          rintro rfl
          exact hstage (hi.symm.trans (Function.update_self ..))
        exact (Function.update_of_ne hne _ _).symm.trans hi
      refine ⟨hchained, h.shared, fun i hi hqueued => h.queued i hi (hstage i _ hqueued (by simp)),
        fun i hi => h.running i (hstage i _ hi (by simp)), fun key hidle => h.idle key fun i hi => ?_⟩
      have hne : i ≠ call := by
        rintro rfl
        cases hi.symm.trans hsettled
      exact hidle i ((Function.update_of_ne hne _ _).trans hi)
    · cases hstep

/-- **The rule of exclusion**, for one step. -/
theorem Holds.step (hseparates : Separates world inner view G May)
    (hstarts : ∀ key script part, Starts key script → I key part →
      Script.Safe inner (May key) (fun part _ => I key part) script part)
    (hstep : Step world Starts machine event machine')
    (h : Holds inner view G May Starts I machine) : Holds inner view G May Starts I machine' := by
  obtain ⟨hallowed, hnext⟩ := hstep
  cases event with
  | call key script =>
      obtain rfl := Option.some.inj hnext
      exact h.call hallowed
  | ask call input =>
      simp only [next] at hnext
      split at hnext
      · rename_i hrunning hscript
        obtain rfl := Option.some.inj hnext
        exact h.ask hseparates hrunning hscript (hallowed _ _ hscript)
      · cases hnext
  | settle call =>
      simp only [next] at hnext
      split at hnext
      · obtain rfl := Option.some.inj hnext
        exact h.settle ‹_› ‹_›
      · cases hnext
  | react =>
      obtain ⟨mutex, hreact, rfl⟩ := Option.map_eq_some_iff.1 hnext
      exact h.react hstarts hreact

theorem Holds.run (hseparates : Separates world inner view G May)
    (hstarts : ∀ key script part, Starts key script → I key part →
      Script.Safe inner (May key) (fun part _ => I key part) script part)
    {events : List (ExclusiveEvent Ask Answer ε α ι)} (hrun : Run (Step world Starts) machine events machine')
    (h : Holds inner view G May Starts I machine) : Holds inner view G May Starts I machine' := by
  induction hrun with
  | refl => exact h
  | head hstep _ ih => exact ih (h.step hseparates hstarts hstep)

/-- Every part satisfies its invariant when no call is in flight. -/
theorem Holds.allAnswered (h : Holds inner view G May Starts I machine) (hanswered : machine.AllAnswered)
    (key : JsString) : I key (view key machine.shared) := by
  refine h.idle key fun i hi => ?_
  have hstage := hanswered i (h.chained.lt_of_running hi)
  rw [hi] at hstage
  cases hstage

/-- What every ask keeps of the shared state. -/
theorem shared_of_run {P : σ → Prop}
    (hkeeps : ∀ s request i, P s → world.Allows s request i → P (world.handle s request i).1)
    {events : List (ExclusiveEvent Ask Answer ε α ι)} (hrun : Run (Step world Starts) machine events machine')
    (h : P machine.shared) : P machine'.shared := by
  induction hrun with
  | refl => exact h
  | @head machine middle _ event _ hstep _ ih =>
      refine ih ?_
      obtain ⟨hallowed, hnext⟩ := hstep
      cases event with
      | call key script =>
          obtain rfl := Option.some.inj hnext
          exact h
      | ask call input =>
          simp only [next] at hnext
          split at hnext
          · rename_i hrunning hscript
            obtain rfl := Option.some.inj hnext
            exact hkeeps _ _ _ h (hallowed _ _ hscript)
          · cases hnext
      | settle call =>
          simp only [next] at hnext
          split at hnext
          · obtain rfl := Option.some.inj hnext
            exact h
          · cases hnext
      | react =>
          obtain ⟨mutex, -, rfl⟩ := Option.map_eq_some_iff.1 hnext
          exact h

end Exclusive

end Kinglet.Shared
