import Mathlib.Tactic.Common

/-!
# Scripts

A script asks for effects, one after the other, and goes on with the answers, each of which may be an
error. What an effect does, and what it answers, is up to a world: a state, and inputs of which some are
allowed. `Ends` is how a script may end on its own. `Safe` is for a script that runs among others: from
one ask to the next it has to be allowed to ask, and in the end its postcondition has to hold.
`SameResults` compares two scripts by what they may end with.
-/

namespace Kinglet.Library

inductive Script (Ask : Type) (Answer : Ask → Type) (ε α : Type) where
  | done (result : Except ε α)
  | ask (request : Ask) (next : Except ε (Answer request) → Script Ask Answer ε α)

namespace Script

variable {Ask : Type} {Answer : Ask → Type} {ε α β σ ι : Type}

/-! ## Composition -/

def bind : Script Ask Answer ε α → (α → Script Ask Answer ε β) → Script Ask Answer ε β
  | .done (.ok a), next => next a
  | .done (.error e), _ => .done (.error e)
  | .ask request go, next => .ask request fun answer => (go answer).bind next

/-- `try { … } catch (e) { … }`. -/
def catching : Script Ask Answer ε α → (ε → Script Ask Answer ε α) → Script Ask Answer ε α
  | .done (.ok a), _ => .done (.ok a)
  | .done (.error e), handler => handler e
  | .ask request go, handler => .ask request fun answer => (go answer).catching handler

/-- A script that asks once. -/
def request (request : Ask) : Script Ask Answer ε (Answer request) := .ask request .done

instance : Monad (Script Ask Answer ε) where
  pure a := .done (.ok a)
  bind := bind

instance : MonadExceptOf ε (Script Ask Answer ε) where
  throw e := .done (.error e)
  tryCatch := catching

/-- A computation without effects. -/
instance : MonadLift (Except ε) (Script Ask Answer ε) := ⟨.done⟩

theorem lift_ok_bind {a : α} {go : α → Script Ask Answer ε β} :
    ((liftM (Except.ok a : Except ε α) : Script Ask Answer ε α) >>= go) = go a := rfl

/-- The script, with its error as a value. -/
def attempt (p : Script Ask Answer ε α) : Script Ask Answer ε (Except ε α) :=
  (p >>= fun a => pure (.ok a)).catching fun e => pure (.error e)

/-- The script among those with more asks, of which each answers an ask of the script. -/
def embed {Ask' : Type} {Answer' : Ask' → Type} (inject : Ask → Ask')
    (answer : (request : Ask) → Except ε (Answer' (inject request)) → Except ε (Answer request)) :
    Script Ask Answer ε α → Script Ask' Answer' ε α
  | .done result => .done result
  | .ask request go => .ask (inject request) fun given => (go (answer request given)).embed inject answer

/-- A script for each element of a list. -/
def forEach (p : β → Script Ask Answer ε Unit) : List β → Script Ask Answer ε Unit
  | [] => pure ()
  | x :: xs => do
      p x
      forEach p xs

end Script

/-! ## Worlds -/

/-- What asking does and answers, and the inputs that it may get from outside. -/
structure World (Ask : Type) (Answer : Ask → Type) (ε σ ι : Type) where
  handle : σ → (request : Ask) → ι → σ × Except ε (Answer request)
  Allows : σ → Ask → ι → Prop

namespace Script

variable {Ask : Type} {Answer : Ask → Type} {ε α β σ ι : Type}
variable (world : World Ask Answer ε σ ι)

/-- How a script may end that runs on its own. -/
def Ends : Script Ask Answer ε α → σ → σ → Except ε α → Prop
  | .done result, s, s', ended => s' = s ∧ ended = result
  | .ask request go, s, s', ended => ∃ i, world.Allows s request i ∧
      Ends (go (world.handle s request i).2) (world.handle s request i).1 s' ended

/-- Whether the script may ask what it asks, whatever the answers, and ends in `Q`. -/
def Safe (May : σ → Ask → Prop) (Q : σ → Except ε α → Prop) : Script Ask Answer ε α → σ → Prop
  | .done result, s => Q s result
  | .ask request go, s => May s request ∧ ∀ i, world.Allows s request i →
      Safe May Q (go (world.handle s request i).2) (world.handle s request i).1

/-- The script on its own, with an input for each ask. -/
def play : Script Ask Answer ε α → (ℕ → ι) → σ → σ × Except ε α
  | .done result, _, s => (s, result)
  | .ask request go, inputs, s =>
      (go (world.handle s request (inputs 0)).2).play (fun n => inputs (n + 1))
        (world.handle s request (inputs 0)).1

variable {world} {May : σ → Ask → Prop} {Q Q' : σ → Except ε α → Prop}
  {p : Script Ask Answer ε α} {s s' : σ}

/-! ## Rules for playing a script -/

theorem bind_bind (p : Script Ask Answer ε α) {γ : Type} (f : α → Script Ask Answer ε β)
    (g : β → Script Ask Answer ε γ) : (p >>= f) >>= g = p >>= fun a => f a >>= g := by
  change (p.bind f).bind g = p.bind fun a => (f a).bind g
  induction p with
  | done result => cases result <;> rfl
  | ask request go ih => exact congrArg (Script.ask request) (funext fun answer => ih answer)

theorem play_bind_pure (p : Script Ask Answer ε α) (f : α → β) (inputs : ℕ → ι) (s : σ) :
    (p >>= fun a => pure (f a)).play world inputs s =
      ((p.play world inputs s).1, (p.play world inputs s).2.map f) := by
  change (p.bind fun a => .done (.ok (f a))).play world inputs s = _
  induction p generalizing inputs s with
  | done result => cases result <;> rfl
  | ask request go ih => exact ih _ _ _

/-- What is played is a way to end. -/
theorem ends_play (hallows : ∀ s request i, world.Allows s request i) (p : Script Ask Answer ε α)
    (inputs : ℕ → ι) (s : σ) : Ends world p s (p.play world inputs s).1 (p.play world inputs s).2 := by
  induction p generalizing inputs s with
  | done result => exact ⟨rfl, rfl⟩
  | ask request go ih => exact ⟨inputs 0, hallows _ _ _, ih _ _ _⟩

/-! ## Rules for the end of a script -/

@[simp] theorem ends_pure {a : α} {ended : Except ε α} :
    Ends world (pure a) s s' ended ↔ s' = s ∧ ended = .ok a := Iff.rfl

theorem ends_request {request : Ask} {ended : Except ε (Answer request)} :
    Ends world (Script.request request) s s' ended ↔ ∃ i, world.Allows s request i ∧
      s' = (world.handle s request i).1 ∧ ended = (world.handle s request i).2 := Iff.rfl

/-- In sequence: the second part runs where the first one has ended with a value. -/
theorem ends_bind {next : α → Script Ask Answer ε β} {ended : Except ε β} :
    Ends world (p >>= next) s s' ended ↔
      (∃ middle a, Ends world p s middle (.ok a) ∧ Ends world (next a) middle s' ended) ∨
        ∃ e, Ends world p s s' (.error e) ∧ ended = .error e := by
  change Ends world (p.bind next) s s' ended ↔ _
  induction p generalizing s with
  | done result =>
      cases result with
      | ok a => simp [bind, Ends]
      | error e => simp [bind, Ends]
  | ask request go ih =>
      simp only [bind, Ends, ih]
      constructor
      · rintro ⟨i, hi, ⟨middle, a, hfirst, hsecond⟩ | ⟨e, hfirst, rfl⟩⟩
        · exact .inl ⟨middle, a, ⟨i, hi, hfirst⟩, hsecond⟩
        · exact .inr ⟨e, ⟨i, hi, hfirst⟩, rfl⟩
      · rintro (⟨middle, a, ⟨i, hi, hfirst⟩, hsecond⟩ | ⟨e, ⟨i, hi, hfirst⟩, rfl⟩)
        · exact ⟨i, hi, .inl ⟨middle, a, hfirst, hsecond⟩⟩
        · exact ⟨i, hi, .inr ⟨e, hfirst, rfl⟩⟩

theorem ends_catching {handler : ε → Script Ask Answer ε α} {ended : Except ε α} :
    Ends world (p.catching handler) s s' ended ↔
      (∃ a, Ends world p s s' (.ok a) ∧ ended = .ok a) ∨
        ∃ middle e, Ends world p s middle (.error e) ∧ Ends world (handler e) middle s' ended := by
  induction p generalizing s with
  | done result =>
      cases result with
      | ok a => simp [catching, Ends]
      | error e => simp [catching, Ends]
  | ask request go ih =>
      simp only [catching, Ends, ih]
      constructor
      · rintro ⟨i, hi, ⟨a, hfirst, rfl⟩ | ⟨middle, e, hfirst, hsecond⟩⟩
        · exact .inl ⟨a, ⟨i, hi, hfirst⟩, rfl⟩
        · exact .inr ⟨middle, e, ⟨i, hi, hfirst⟩, hsecond⟩
      · rintro (⟨a, ⟨i, hi, hfirst⟩, rfl⟩ | ⟨middle, e, ⟨i, hi, hfirst⟩, hsecond⟩)
        · exact ⟨i, hi, .inl ⟨a, hfirst, rfl⟩⟩
        · exact ⟨i, hi, .inr ⟨middle, e, hfirst, hsecond⟩⟩

theorem ends_attempt {ended : Except ε (Except ε α)} :
    Ends world p.attempt s s' ended ↔ ∃ result, Ends world p s s' result ∧ ended = .ok result := by
  simp only [attempt, ends_catching, ends_bind, ends_pure]
  constructor
  · rintro (⟨_, ⟨_, a, hp, rfl, ha⟩ | ⟨e, -, he⟩, rfl⟩ | ⟨_, e, ⟨_, a, -, -, he⟩ | ⟨_, hp, he⟩, rfl, rfl⟩)
    · exact ⟨.ok a, hp, ha⟩
    · cases he
    · cases he
    · obtain rfl := Except.error.inj he
      exact ⟨.error e, hp, rfl⟩
  · rintro ⟨result, hp, rfl⟩
    cases result with
    | ok a => exact .inl ⟨_, .inl ⟨s', a, hp, rfl, rfl⟩, rfl⟩
    | error e => exact .inr ⟨s', e, .inr ⟨e, hp, rfl⟩, rfl, rfl⟩

/-! ## Rules for safe scripts -/

@[simp] theorem safe_pure {a : α} : Safe world May Q (pure a) s ↔ Q s (.ok a) := Iff.rfl

theorem safe_request {request : Ask} {Q : σ → Except ε (Answer request) → Prop} :
    Safe world May Q (Script.request request) s ↔ May s request ∧ ∀ i, world.Allows s request i →
      Q (world.handle s request i).1 (world.handle s request i).2 := Iff.rfl

theorem Safe.mono (h : Safe world May Q p s) (hQ : ∀ s result, Q s result → Q' s result) :
    Safe world May Q' p s := by
  induction p generalizing s with
  | done result => exact hQ s result h
  | ask request go ih => exact ⟨h.1, fun i hi => ih _ (h.2 i hi)⟩

theorem Safe.bind {next : α → Script Ask Answer ε β} {Q : σ → Except ε β → Prop}
    (h : Safe world May (fun s result => match result with
      | .ok a => Safe world May Q (next a) s
      | .error e => Q s (.error e)) p s) : Safe world May Q (p >>= next) s := by
  change Safe world May Q (p.bind next) s
  induction p generalizing s with
  | done result =>
      cases result with
      | ok a => exact h
      | error e => exact h
  | ask request go ih => exact ⟨h.1, fun i hi => ih _ (h.2 i hi)⟩

theorem Safe.catching {handler : ε → Script Ask Answer ε α}
    (h : Safe world May (fun s result => match result with
      | .ok a => Q s (.ok a)
      | .error e => Safe world May Q (handler e) s) p s) :
    Safe world May Q (p.catching handler) s := by
  induction p generalizing s with
  | done result =>
      cases result with
      | ok a => exact h
      | error e => exact h
  | ask request go ih => exact ⟨h.1, fun i hi => ih _ (h.2 i hi)⟩

theorem Safe.attempt {Q : σ → Except ε (Except ε α) → Prop}
    (h : Safe world May (fun s result => Q s (.ok result)) p s) : Safe world May Q p.attempt s := by
  refine Safe.catching (Safe.bind (h.mono fun s result hresult => ?_))
  cases result with
  | ok a => exact hresult
  | error e => exact hresult

/-- Over a list, with an invariant. -/
theorem Safe.forEach {p : β → Script Ask Answer ε Unit} {I : σ → Prop} {Q : σ → Except ε Unit → Prop}
    (hp : ∀ x s, I s → Safe world May (fun s result => match result with
      | .ok _ => I s
      | .error e => Q s (.error e)) (p x) s)
    (hQ : ∀ s, I s → Q s (.ok ())) (xs : List β) (hs : I s) :
    Safe world May Q (Script.forEach p xs) s := by
  induction xs generalizing s with
  | nil => exact hQ s hs
  | cons x xs ih =>
      refine Safe.bind ((hp x s hs).mono fun s result hresult => ?_)
      cases result with
      | ok a => exact ih hresult
      | error e => exact hresult

/-- Where the asks are harmless and change nothing, any result may come out. -/
theorem Safe.embed {Ask₀ : Type} {Answer₀ : Ask₀ → Type} {inject : Ask₀ → Ask}
    {answer : (request : Ask₀) → Except ε (Answer (inject request)) → Except ε (Answer₀ request)}
    (hmay : ∀ request, May s (inject request))
    (hsame : ∀ request i, (world.handle s (inject request) i).1 = s) (hQ : ∀ result, Q s result)
    (p : Script Ask₀ Answer₀ ε α) : Safe world May Q (p.embed inject answer) s := by
  induction p with
  | done result => exact hQ result
  | ask request go ih =>
      refine ⟨hmay request, fun i _ => ?_⟩
      rw [hsame request i]
      exact ih _

theorem Safe.of_ends (h : Safe world May Q p s) {result : Except ε α} (hends : Ends world p s s' result) :
    Q s' result := by
  induction p generalizing s with
  | done ended =>
      obtain ⟨rfl, rfl⟩ := hends
      exact h
  | ask request go ih =>
      obtain ⟨i, hi, hends⟩ := hends
      exact ih _ (h.2 i hi) hends

/-! ## Scripts that keep an invariant -/

/-- Wherever `P` holds, the script may ask what it asks and ends where `P` holds. -/
def Keeps (world : World Ask Answer ε σ ι) (May : σ → Ask → Prop) (P : σ → Prop)
    (p : Script Ask Answer ε α) : Prop :=
  ∀ s, P s → Safe world May (fun s _ => P s) p s

namespace Keeps

variable {P : σ → Prop}

theorem lift {result : Except ε α} : Keeps world May P (liftM result : Script Ask Answer ε α) :=
  fun _ h => h

theorem pure {a : α} : Keeps world May P (pure a : Script Ask Answer ε α) := fun _ h => h

theorem throw {e : ε} : Keeps world May P (throw e : Script Ask Answer ε α) := fun _ h => h

theorem request {request : Ask} (hmay : ∀ s, P s → May s request)
    (hkeeps : ∀ s i, P s → world.Allows s request i → P (world.handle s request i).1) :
    Keeps world May P (Script.request request) :=
  fun s h => ⟨hmay s h, fun i hi => hkeeps s i h hi⟩

theorem bind {next : α → Script Ask Answer ε β} (hp : Keeps world May P p)
    (hnext : ∀ a, Keeps world May P (next a)) : Keeps world May P (p >>= next) := by
  intro s h
  refine Safe.bind ((hp s h).mono fun s result h => ?_)
  cases result with
  | ok a => exact hnext a s h
  | error e => exact h

theorem catching {handler : ε → Script Ask Answer ε α} (hp : Keeps world May P p)
    (hhandler : ∀ e, Keeps world May P (handler e)) : Keeps world May P (p.catching handler) := by
  intro s h
  refine Safe.catching ((hp s h).mono fun s result h => ?_)
  cases result with
  | ok a => exact h
  | error e => exact hhandler e s h

end Keeps

/-! ## Scripts that succeed -/

/-- The script ends, and always with a value and in `Q`. -/
structure Succeeds (world : World Ask Answer ε σ ι) (p : Script Ask Answer ε α) (s : σ)
    (Q : σ → α → Prop) : Prop where
  ends : ∃ s' a, Ends world p s s' (.ok a)
  value : ∀ s' result, Ends world p s s' result → ∃ a, result = .ok a ∧ Q s' a

namespace Succeeds

variable {Q : σ → α → Prop}

theorem pure {a : α} (h : Q s a) : Succeeds world (pure a : Script Ask Answer ε α) s Q where
  ends := ⟨s, a, rfl, rfl⟩
  value := by
    rintro s' result ⟨rfl, rfl⟩
    exact ⟨a, rfl, h⟩

theorem request {request : Ask} {Q : σ → Answer request → Prop} (hallows : ∃ i, world.Allows s request i)
    (h : ∀ i, world.Allows s request i → ∃ a, (world.handle s request i).2 = .ok a ∧
      Q (world.handle s request i).1 a) : Succeeds world (Script.request request) s Q where
  ends := by
    obtain ⟨i, hi⟩ := hallows
    obtain ⟨a, ha, -⟩ := h i hi
    exact ⟨_, a, ends_request.2 ⟨i, hi, rfl, ha.symm⟩⟩
  value := by
    intro s' result hends
    obtain ⟨i, hi, rfl, rfl⟩ := ends_request.1 hends
    exact h i hi

theorem bind {next : α → Script Ask Answer ε β} {Q : σ → β → Prop}
    (h : Succeeds world p s fun s a => Succeeds world (next a) s Q) : Succeeds world (p >>= next) s Q where
  ends := by
    obtain ⟨middle, a, hfirst⟩ := h.ends
    obtain ⟨a', heq, hnext⟩ := h.value _ _ hfirst
    obtain rfl := Except.ok.inj heq
    obtain ⟨s', b, hsecond⟩ := hnext.ends
    exact ⟨s', b, ends_bind.2 (.inl ⟨middle, a, hfirst, hsecond⟩)⟩
  value := by
    intro s' result hends
    rcases ends_bind.1 hends with ⟨middle, a, hfirst, hsecond⟩ | ⟨e, hfirst, -⟩
    · obtain ⟨a', heq, hnext⟩ := h.value _ _ hfirst
      obtain rfl := Except.ok.inj heq
      exact hnext.value _ _ hsecond
    · obtain ⟨a, heq, -⟩ := h.value _ _ hfirst
      cases heq

theorem mono {Q' : σ → α → Prop} (h : Succeeds world p s Q) (hQ : ∀ s a, Q s a → Q' s a) :
    Succeeds world p s Q' where
  ends := h.ends
  value s' result hends := by
    obtain ⟨a, heq, ha⟩ := h.value s' result hends
    exact ⟨a, heq, hQ s' a ha⟩

theorem map {f : α → β} {Q : σ → β → Prop} (h : Succeeds world p s fun s a => Q s (f a)) :
    Succeeds world (f <$> p) s Q := by
  change Succeeds world (p >>= fun a => Pure.pure (f a)) s Q
  exact bind (h.mono fun s a ha => pure ha)

theorem attempt {Q : σ → Except ε α → Prop} (h : Succeeds world p s fun s a => Q s (.ok a)) :
    Succeeds world p.attempt s Q where
  ends := by
    obtain ⟨s', a, hends⟩ := h.ends
    exact ⟨s', .ok a, ends_attempt.2 ⟨_, hends, rfl⟩⟩
  value := by
    intro s' result hends
    obtain ⟨ended, hended, rfl⟩ := ends_attempt.1 hends
    obtain ⟨a, rfl, ha⟩ := h.value s' ended hended
    exact ⟨_, rfl, ha⟩

theorem forEach {p : β → Script Ask Answer ε Unit} {I : σ → Prop}
    (hp : ∀ x s, I s → Succeeds world (p x) s fun s _ => I s) (xs : List β) (hs : I s) :
    Succeeds world (Script.forEach p xs) s fun s _ => I s := by
  induction xs generalizing s with
  | nil => exact pure hs
  | cons x xs ih => exact bind ((hp x s hs).mono fun s _ hs => ih hs)

end Succeeds

/-- The script never ends with a value. -/
def Fails (world : World Ask Answer ε σ ι) (p : Script Ask Answer ε α) (s : σ) : Prop :=
  ∀ s' result, Ends world p s s' result → ∃ e, result = .error e

namespace Fails

theorem throw (e : ε) : Fails world (throw e : Script Ask Answer ε α) s := by
  rintro s' result ⟨-, rfl⟩
  exact ⟨e, rfl⟩

theorem bind {next : α → Script Ask Answer ε β} (h : Fails world p s) : Fails world (p >>= next) s := by
  intro s' result hends
  rcases ends_bind.1 hends with ⟨middle, a, hfirst, -⟩ | ⟨e, -, rfl⟩
  · obtain ⟨e, heq⟩ := h _ _ hfirst
    cases heq
  · exact ⟨e, rfl⟩

theorem bind_of_succeeds {next : α → Script Ask Answer ε β} {Q : σ → α → Prop}
    (hp : Succeeds world p s Q) (h : ∀ s' a, Q s' a → Fails world (next a) s') :
    Fails world (p >>= next) s := by
  intro s' result hends
  rcases ends_bind.1 hends with ⟨middle, a, hfirst, hsecond⟩ | ⟨e, -, rfl⟩
  · obtain ⟨a', heq, ha⟩ := hp.value _ _ hfirst
    obtain rfl := Except.ok.inj heq
    exact h middle a ha _ _ hsecond
  · exact ⟨e, rfl⟩

theorem map {f : α → β} (h : Fails world p s) : Fails world (f <$> p) s := by
  change Fails world (p >>= fun a => Pure.pure (f a)) s
  exact bind h

end Fails

/-! ## Scripts with the same results -/

/-- The scripts may end with the same results, each from a state of its own. -/
def SameResults (world : World Ask Answer ε σ ι) (p q : Script Ask Answer ε α) (s t : σ) : Prop :=
  ∀ result, (∃ s', Ends world p s s' result) ↔ ∃ t', Ends world q t t' result

namespace SameResults

variable {q : Script Ask Answer ε α} {t : σ}

theorem refl (world : World Ask Answer ε σ ι) (p : Script Ask Answer ε α) (s : σ) :
    SameResults world p p s s := fun _ => Iff.rfl

theorem lift {result : Except ε α} :
    SameResults world (liftM result : Script Ask Answer ε α) (liftM result) s t := by
  intro ended
  constructor
  · rintro ⟨s', -, rfl⟩
    exact ⟨t, rfl, rfl⟩
  · rintro ⟨t', -, rfl⟩
    exact ⟨s, rfl, rfl⟩

/-- What the scripts begin with together. -/
theorem bind {next next' : α → Script Ask Answer ε β}
    (h : ∀ s' a, Ends world p s s' (.ok a) → SameResults world (next a) (next' a) s' s') :
    SameResults world (p >>= next) (p >>= next') s s := by
  intro result
  constructor
  · rintro ⟨s', hends⟩
    rcases ends_bind.1 hends with ⟨middle, a, hfirst, hsecond⟩ | ⟨e, hfirst, rfl⟩
    · obtain ⟨t', hsecond⟩ := (h middle a hfirst result).1 ⟨s', hsecond⟩
      exact ⟨t', ends_bind.2 (.inl ⟨middle, a, hfirst, hsecond⟩)⟩
    · exact ⟨s', ends_bind.2 (.inr ⟨e, hfirst, rfl⟩)⟩
  · rintro ⟨t', hends⟩
    rcases ends_bind.1 hends with ⟨middle, a, hfirst, hsecond⟩ | ⟨e, hfirst, rfl⟩
    · obtain ⟨s', hsecond⟩ := (h middle a hfirst result).2 ⟨t', hsecond⟩
      exact ⟨s', ends_bind.2 (.inl ⟨middle, a, hfirst, hsecond⟩)⟩
    · exact ⟨t', ends_bind.2 (.inr ⟨e, hfirst, rfl⟩)⟩

/-- What one script does first, and succeeds in, changes nothing about the results. -/
theorem skip {first : Script Ask Answer ε β} {next : β → Script Ask Answer ε α} {Q : σ → β → Prop}
    (hfirst : Succeeds world first s Q) (h : ∀ s' b, Q s' b → SameResults world (next b) q s' t) :
    SameResults world (first >>= next) q s t := by
  intro result
  constructor
  · rintro ⟨s', hends⟩
    rcases ends_bind.1 hends with ⟨middle, b, hb, hnext⟩ | ⟨e, hb, -⟩
    · obtain ⟨b', heq, hQ⟩ := hfirst.value _ _ hb
      obtain rfl := Except.ok.inj heq
      exact (h middle b hQ result).1 ⟨s', hnext⟩
    · obtain ⟨b, heq, -⟩ := hfirst.value _ _ hb
      cases heq
  · intro hends
    obtain ⟨middle, b, hb⟩ := hfirst.ends
    obtain ⟨b', heq, hQ⟩ := hfirst.value _ _ hb
    obtain rfl := Except.ok.inj heq
    obtain ⟨s', hnext⟩ := (h middle b hQ result).2 hends
    exact ⟨s', ends_bind.2 (.inl ⟨middle, b, hb, hnext⟩)⟩

theorem map {f : α → β} (h : SameResults world p q s t) :
    SameResults world (f <$> p) (f <$> q) s t := by
  have hmap : ∀ (p : Script Ask Answer ε α) s s' result,
      Ends world (f <$> p) s s' result ↔ ∃ ended, Ends world p s s' ended ∧ result = ended.map f := by
    intro p s s' result
    change Ends world (p >>= fun a => Pure.pure (f a)) s s' result ↔ _
    rw [ends_bind]
    constructor
    · rintro (⟨middle, a, hends, rfl, rfl⟩ | ⟨e, hends, rfl⟩)
      · exact ⟨.ok a, hends, rfl⟩
      · exact ⟨.error e, hends, rfl⟩
    · rintro ⟨ended, hends, rfl⟩
      cases ended with
      | ok a => exact .inl ⟨s', a, hends, rfl, rfl⟩
      | error e => exact .inr ⟨e, hends, rfl⟩
  intro result
  constructor
  · rintro ⟨s', hends⟩
    obtain ⟨ended, hended, rfl⟩ := (hmap p s s' result).1 hends
    obtain ⟨t', hsame⟩ := (h ended).1 ⟨s', hended⟩
    exact ⟨t', (hmap q t t' _).2 ⟨ended, hsame, rfl⟩⟩
  · rintro ⟨t', hends⟩
    obtain ⟨ended, hended, rfl⟩ := (hmap q t t' result).1 hends
    obtain ⟨s', hsame⟩ := (h ended).2 ⟨t', hended⟩
    exact ⟨s', (hmap p s s' _).2 ⟨ended, hsame, rfl⟩⟩

/-- What the scripts begin with together, and succeed in. -/
theorem bind_of_succeeds {next next' : α → Script Ask Answer ε β} {Q : σ → α → Prop}
    (hp : Succeeds world p s Q) (h : ∀ s' a, Q s' a → SameResults world (next a) (next' a) s' s') :
    SameResults world (p >>= next) (p >>= next') s s := by
  refine bind fun s' a hends => ?_
  obtain ⟨a', heq, ha⟩ := hp.value _ _ hends
  obtain rfl := Except.ok.inj heq
  exact h s' a ha

/-- Scripts that succeed with one value. -/
theorem of_succeeds {a : α} (hp : Succeeds world p s fun _ b => b = a)
    (hq : Succeeds world q t fun _ b => b = a) : SameResults world p q s t := by
  intro result
  constructor
  · rintro ⟨s', hends⟩
    obtain ⟨_, rfl, rfl⟩ := hp.value _ _ hends
    obtain ⟨t', b, hends'⟩ := hq.ends
    obtain ⟨_, heq, rfl⟩ := hq.value _ _ hends'
    exact ⟨t', heq ▸ hends'⟩
  · rintro ⟨t', hends⟩
    obtain ⟨_, rfl, rfl⟩ := hq.value _ _ hends
    obtain ⟨s', b, hends'⟩ := hp.ends
    obtain ⟨_, heq, rfl⟩ := hp.value _ _ hends'
    exact ⟨s', heq ▸ hends'⟩

theorem not_of_fails {Q : σ → α → Prop} (hp : Fails world p s) (hq : Succeeds world q t Q) :
    ¬SameResults world p q s t := by
  intro h
  obtain ⟨t', a, hends⟩ := hq.ends
  obtain ⟨s', hends⟩ := (h _).2 ⟨t', hends⟩
  obtain ⟨e, heq⟩ := hp _ _ hends
  cases heq

end SameResults

end Script

end Kinglet.Library
