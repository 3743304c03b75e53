import Mathlib.Logic.Basic

/-!
# Procedures

A procedure changes a state, may throw an error, and may not end: with bounded fuel it is then found
running. What it did to the state before it threw stays done. `Keeps P Q p` says that, from a state in
`P`, the procedure ends in a state of `P`, whichever way it ends, and is found in a state of `Q` where
it does not end. The rules follow the ways to compose procedures: in sequence, with a handler of
errors, with a final step, and over a list.
-/

namespace Kinglet.Library

variable {σ ε α β : Type}

/-- How a procedure ends, or that it does not. -/
inductive Ending (ε α : Type)
  | value (a : α)
  | thrown (e : ε)
  | running

def Procedure (σ ε α : Type) := σ → Ending ε α × σ

namespace Procedure

instance : Monad (Procedure σ ε) where
  pure a := fun s => (.value a, s)
  bind p next := fun s =>
    match p s with
    | (.value a, s') => next a s'
    | (.thrown e, s') => (.thrown e, s')
    | (.running, s') => (.running, s')

def throw (e : ε) : Procedure σ ε α := fun s => (.thrown e, s)

/-- Not ended yet. -/
def running : Procedure σ ε α := fun s => (.running, s)

def get : Procedure σ ε σ := fun s => (.value s, s)

def modify (f : σ → σ) : Procedure σ ε Unit := fun s => (.value (), f s)

/-- A computation that leaves the state alone. -/
def attempt (result : Except ε α) : Procedure σ ε α := fun s =>
  match result with
  | .ok a => (.value a, s)
  | .error e => (.thrown e, s)

/-- `try { … } catch (e) { … }`. -/
def catching (p : Procedure σ ε α) (handler : ε → Procedure σ ε α) : Procedure σ ε α := fun s =>
  match p s with
  | (.thrown e, s') => handler e s'
  | ended => ended

/-- `try { … } finally { … }`, with a final step that neither throws nor returns. -/
def finally' (p : Procedure σ ε α) (last : σ → σ) : Procedure σ ε α := fun s =>
  match p s with
  | (.running, s') => (.running, s')
  | (ended, s') => (ended, last s')

/-- Run with one part of the state replaced, and put the part back. -/
def within {part : Type} (get : σ → part) (set : part → σ → σ) (inner : part)
    (p : Procedure σ ε α) : Procedure σ ε α := fun s =>
  ((p (set inner s)).1, set (get s) (p (set inner s)).2)

theorem bind_assoc {γ : Type} (p : Procedure σ ε α) (f : α → Procedure σ ε β)
    (g : β → Procedure σ ε γ) : p >>= f >>= g = p >>= fun a => f a >>= g := by
  funext s
  simp only [Bind.bind]
  match p s with
  | (.value a, s') => rfl
  | (.thrown e, s') => rfl
  | (.running, s') => rfl

theorem attempt_ok_bind (a : α) (f : α → Procedure σ ε β) : attempt (.ok a) >>= f = f a := rfl

/-! ## What a procedure keeps -/

/-- The procedure ends in `P` again, or is found in `Q`. -/
def Keeps (P Q : σ → Prop) (p : Procedure σ ε α) : Prop :=
  ∀ s, P s →
    match p s with
    | (.running, s') => Q s'
    | (_, s') => P s'

variable {P Q : σ → Prop} {p : Procedure σ ε α}

theorem Keeps.ended {s s' : σ} {ending : Ending ε α} (hp : Keeps P Q p) (hs : P s)
    (hrun : p s = (ending, s')) (hending : ending ≠ .running) : P s' := by
  have h := hp s hs
  rw [hrun] at h
  cases ending with
  | value a => exact h
  | thrown e => exact h
  | running => exact absurd rfl hending

theorem Keeps.found {s : σ} (hp : Keeps P Q p) (hPQ : ∀ s, P s → Q s) (hs : P s) : Q (p s).2 := by
  have h := hp s hs
  match hrun : p s with
  | (.value a, s') => rw [hrun] at h; exact hPQ s' h
  | (.thrown e, s') => rw [hrun] at h; exact hPQ s' h
  | (.running, s') => rw [hrun] at h; exact h

theorem keeps_pure (a : α) : Keeps P Q (pure a : Procedure σ ε α) := fun _ hs => hs

theorem keeps_throw (e : ε) : Keeps P Q (throw e : Procedure σ ε α) := fun _ hs => hs

theorem keeps_running (hPQ : ∀ s, P s → Q s) : Keeps P Q (running : Procedure σ ε α) :=
  fun s hs => hPQ s hs

theorem keeps_get : Keeps P Q (get : Procedure σ ε σ) := fun _ hs => hs

theorem keeps_modify {f : σ → σ} (hf : ∀ s, P s → P (f s)) :
    Keeps P Q (modify f : Procedure σ ε Unit) :=
  fun s hs => hf s hs

theorem keeps_attempt (result : Except ε α) : Keeps P Q (attempt result : Procedure σ ε α) := by
  intro s hs
  cases result with
  | ok a => exact hs
  | error e => exact hs

theorem Keeps.bind {next : α → Procedure σ ε β} (hp : Keeps P Q p)
    (hnext : ∀ a, Keeps P Q (next a)) : Keeps P Q (p >>= next) := by
  intro s hs
  have h := hp s hs
  simp only [Bind.bind]
  match hrun : p s with
  | (.value a, s') => rw [hrun] at h; exact hnext a s' h
  | (.thrown e, s') => rw [hrun] at h; exact h
  | (.running, s') => rw [hrun] at h; exact h

/-- A computation that leaves the state alone, and what follows its value. -/
theorem keeps_attempt_bind {result : Except ε α} {next : α → Procedure σ ε β}
    (hnext : ∀ a, result = .ok a → Keeps P Q (next a)) : Keeps P Q (attempt result >>= next) := by
  cases result with
  | ok a => exact hnext a rfl
  | error e => exact fun s hs => hs

theorem Keeps.ite {c : Prop} [Decidable c] {q : Procedure σ ε α} (hp : c → Keeps P Q p)
    (hq : ¬ c → Keeps P Q q) : Keeps P Q (if c then p else q) := by
  split
  · exact hp ‹c›
  · exact hq ‹¬ c›

theorem Keeps.catching {handler : ε → Procedure σ ε α} (hp : Keeps P Q p)
    (hhandler : ∀ e, Keeps P Q (handler e)) : Keeps P Q (Procedure.catching p handler) := by
  intro s hs
  have h := hp s hs
  simp only [Procedure.catching]
  match hrun : p s with
  | (.value a, s') => rw [hrun] at h; exact h
  | (.thrown e, s') => rw [hrun] at h; exact hhandler e s' h
  | (.running, s') => rw [hrun] at h; exact h

/-- A body that keeps something else, between a first step that leads there and a final step that
leads back. -/
theorem Keeps.finally' {P' : σ → Prop} {last : σ → σ} (hp : Keeps P' Q p)
    (hlast : ∀ s, P' s → P (last s)) {s : σ} (hs : P' s) :
    match Procedure.finally' p last s with
    | (.running, s') => Q s'
    | (_, s') => P s' := by
  have h := hp s hs
  simp only [Procedure.finally']
  match hrun : p s with
  | (.value a, s') => rw [hrun] at h; exact hlast s' h
  | (.thrown e, s') => rw [hrun] at h; exact hlast s' h
  | (.running, s') => rw [hrun] at h; exact h

theorem Keeps.within {part : Type} {get : σ → part} {set : part → σ → σ} {inner : part}
    (hP : ∀ x s, P s → P (set x s)) (hQ : ∀ x s, Q s → Q (set x s)) (hp : Keeps P Q p) :
    Keeps P Q (Procedure.within get set inner p) := by
  intro s hs
  have h := hp (set inner s) (hP inner s hs)
  simp only [Procedure.within]
  match hrun : p (set inner s) with
  | (.value a, s') => rw [hrun] at h; exact hP _ s' h
  | (.thrown e, s') => rw [hrun] at h; exact hP _ s' h
  | (.running, s') => rw [hrun] at h; exact hQ _ s' h

/-! ## Over a list -/

/-- A procedure for each element of a list. -/
def forEach (p : β → Procedure σ ε Unit) : List β → Procedure σ ε Unit
  | [] => pure ()
  | x :: xs => do
      p x
      forEach p xs

theorem Keeps.forEach {p : β → Procedure σ ε Unit} (hp : ∀ x, Keeps P Q (p x)) (xs : List β) :
    Keeps P Q (Procedure.forEach p xs) := by
  induction xs with
  | nil => exact keeps_pure ()
  | cons x xs ih => exact (hp x).bind fun _ => ih

end Procedure

end Kinglet.Library
