import Mathlib.Data.List.Basic

/-!
# Recursive descent with fuel

A recursive-descent parser over a list of tokens calls itself on the rest of the input, which is
shorter without being a part of the argument. Here such a parser recurses on a fuel argument and
has a third outcome, running out. `Safe p tokens m` says that on these tokens `p` does not run out
and that success takes at least `m` of them; it composes along `bind`, so that enough fuel is
proved for a grammar rule by rule. `Settles rate offset p tokens result` says what `p` returns given
fuel for each of the tokens and some beyond, again rule by rule. `Meets p tokens good bad short` says
what holds of a value with the rest, of an error, and when the fuel runs out.
-/

namespace Kinglet.Library

variable {Token Error α β : Type}

/-- What a parser returns. -/
inductive ParseResult (Token Error α : Type) where
  | ok (value : α) (rest : List Token)
  | fail (error : Error)
  | outOfFuel

/-- A parser reads a value off the front of the tokens. -/
def FuelParser (Token Error α : Type) := List Token → ParseResult Token Error α

namespace FuelParser

instance : Monad (FuelParser Token Error) where
  pure value := fun tokens => .ok value tokens
  bind p next := fun tokens =>
    match p tokens with
    | .ok value rest => next value rest
    | .fail error => .fail error
    | .outOfFuel => .outOfFuel

/-- Give up with an error. -/
def throw (error : Error) : FuelParser Token Error α := fun _ => .fail error

/-- Give up for want of fuel. -/
def exhausted : FuelParser Token Error α := fun _ => .outOfFuel

/-- On these tokens the parser does not run out, and success takes at least `m` of them. -/
def Safe (p : FuelParser Token Error α) (tokens : List Token) (m : ℕ) : Prop :=
  match p tokens with
  | .ok _ rest => rest.length + m ≤ tokens.length
  | .fail _ => True
  | .outOfFuel => False

theorem safe_pure (value : α) (tokens : List Token) :
    Safe (pure value : FuelParser Token Error α) tokens 0 :=
  Nat.le_refl tokens.length

theorem safe_throw (error : Error) (tokens : List Token) (m : ℕ) :
    Safe (throw error : FuelParser Token Error α) tokens m :=
  trivial

theorem Safe.mono {p : FuelParser Token Error α} {tokens : List Token} {m n : ℕ}
    (hp : Safe p tokens m) (hle : n ≤ m) : Safe p tokens n := by
  unfold Safe at hp ⊢
  split
  · rename_i value rest heq
    rw [heq] at hp
    simp only at hp
    omega
  · trivial
  · rename_i heq
    rw [heq] at hp
    exact hp

/-- Running one parser after another adds up what they take. -/
theorem Safe.bind {p : FuelParser Token Error α} {next : α → FuelParser Token Error β}
    {tokens : List Token} {m n : ℕ} (hp : Safe p tokens m)
    (hnext : ∀ value rest, rest.length + m ≤ tokens.length → Safe (next value) rest n) :
    Safe (p >>= next) tokens (m + n) := by
  unfold Safe at hp ⊢
  simp only [Bind.bind]
  cases hresult : p tokens with
  | fail error => trivial
  | outOfFuel => rw [hresult] at hp; exact hp
  | ok value rest =>
      rw [hresult] at hp
      have hrest := hnext value rest hp
      unfold Safe at hrest
      simp only at hp ⊢
      split
      · rename_i heq
        rw [heq] at hrest
        simp only at hrest
        omega
      · trivial
      · rename_i heq
        rw [heq] at hrest
        exact hrest

/-- The first parser takes what is asked for, the second may take nothing. -/
theorem Safe.andThen {p : FuelParser Token Error α} {next : α → FuelParser Token Error β}
    {tokens : List Token} {m : ℕ} (hp : Safe p tokens m)
    (hnext : ∀ value rest, rest.length + m ≤ tokens.length → Safe (next value) rest 0) :
    Safe (p >>= next) tokens m :=
  hp.bind hnext

/-- A safe parser does not run out. -/
theorem Safe.ne_outOfFuel {p : FuelParser Token Error α} {tokens : List Token} {m : ℕ}
    (hp : Safe p tokens m) : p tokens ≠ .outOfFuel := by
  intro heq
  unfold Safe at hp
  rw [heq] at hp
  exact hp

/-! ## What holds of every outcome -/

def Meets (p : FuelParser Token Error α) (tokens : List Token) (good : α → List Token → Prop)
    (bad : Error → Prop) (short : Prop) : Prop :=
  match p tokens with
  | .ok value rest => good value rest
  | .fail error => bad error
  | .outOfFuel => short

section Meets

variable {p : FuelParser Token Error α} {tokens : List Token} {good good' : α → List Token → Prop}
  {bad : Error → Prop} {short short' : Prop}

theorem meets_pure {value : α} (h : good value tokens) :
    Meets (pure value : FuelParser Token Error α) tokens good bad short :=
  h

theorem meets_throw {error : Error} (h : bad error) :
    Meets (throw error : FuelParser Token Error α) tokens good bad short :=
  h

theorem meets_exhausted (h : short) :
    Meets (exhausted : FuelParser Token Error α) tokens good bad short :=
  h

theorem Meets.mono (h : Meets p tokens good bad short)
    (hgood : ∀ value rest, good value rest → good' value rest) (hshort : short → short') :
    Meets p tokens good' bad short' := by
  unfold Meets at h ⊢
  split <;> rename_i heq <;> rw [heq] at h
  · exact hgood _ _ h
  · exact h
  · exact hshort h

theorem Meets.bind {next : α → FuelParser Token Error β} {after : β → List Token → Prop}
    (h : Meets p tokens good bad short)
    (hnext : ∀ value rest, good value rest → Meets (next value) rest after bad short')
    (hshort : short → short') : Meets (p >>= next) tokens after bad short' := by
  unfold Meets at h
  simp only [Bind.bind, Meets]
  cases hresult : p tokens with
  | ok value rest =>
      rw [hresult] at h
      exact hnext value rest h
  | fail error =>
      rw [hresult] at h
      exact h
  | outOfFuel =>
      rw [hresult] at h
      exact hshort h

theorem Meets.of_ok (h : Meets p tokens good bad short) {value : α} {rest : List Token}
    (hresult : p tokens = .ok value rest) : good value rest := by
  unfold Meets at h
  rw [hresult] at h
  exact h

theorem Meets.of_fail (h : Meets p tokens good bad short) {error : Error}
    (hresult : p tokens = .fail error) : bad error := by
  unfold Meets at h
  rw [hresult] at h
  exact h

theorem Meets.of_outOfFuel (h : Meets p tokens good bad short) (hresult : p tokens = .outOfFuel) :
    short := by
  unfold Meets at h
  rw [hresult] at h
  exact h

end Meets

/-! ## Results with enough fuel -/

/-- What comes of a computation and a parser that goes on with its value. -/
def after (result : Except Error α) (next : α → ParseResult Token Error β) :
    ParseResult Token Error β :=
  match result with
  | .ok value => next value
  | .error error => .fail error

theorem after_bind {γ : Type} (result : Except Error α) (f : α → Except Error β)
    (next : β → ParseResult Token Error γ) :
    after (result >>= f) next = after result fun value => after (f value) next := by
  cases result <;> rfl

/-- With fuel for each of the tokens at a rate, and an offset, this is what the parser returns. -/
def Settles (rate offset : ℕ) (p : ℕ → FuelParser Token Error α) (tokens : List Token)
    (result : ParseResult Token Error α) : Prop :=
  ∀ fuel, rate * tokens.length + offset ≤ fuel → p fuel tokens = result

variable {rate offset offset' : ℕ} {tokens rest : List Token}

theorem Settles.mono {p : ℕ → FuelParser Token Error α} {result : ParseResult Token Error α}
    (hp : Settles rate offset p tokens result) (hle : offset ≤ offset') :
    Settles rate offset' p tokens result := by
  intro fuel hfuel
  exact hp fuel (by omega)

/-- A parser that spends one unit of fuel and goes on as another, perhaps further on. -/
theorem Settles.step {p q : ℕ → FuelParser Token Error α} {result : ParseResult Token Error α}
    (hstep : ∀ fuel, p (fuel + 1) tokens = q fuel rest) (hq : Settles rate offset' q rest result)
    (hfuel : rate * rest.length + offset' + 1 ≤ rate * tokens.length + offset) :
    Settles rate offset p tokens result := by
  intro fuel hle
  obtain ⟨fuel, rfl⟩ : ∃ spent, fuel = spent + 1 := ⟨fuel - 1, by omega⟩
  rw [hstep]
  exact hq fuel (by omega)

/-- A parser that goes on as another, further on, without spending fuel. -/
theorem Settles.read {p q : ℕ → FuelParser Token Error α} {result : ParseResult Token Error α}
    (hread : ∀ fuel, p fuel tokens = q fuel rest) (hq : Settles rate offset' q rest result)
    (hfuel : rate * rest.length + offset' ≤ rate * tokens.length + offset) :
    Settles rate offset p tokens result := by
  intro fuel hle
  rw [hread]
  exact hq fuel (by omega)

/-- One parser after another. -/
theorem Settles.bind {p : ℕ → FuelParser Token Error α} {next : ℕ → α → FuelParser Token Error β}
    {result : Except Error α} {answer : α → ParseResult Token Error β}
    (hp : Settles rate offset p tokens (after result fun value => .ok value rest))
    (hnext : ∀ value, Settles rate offset' (fun fuel => next fuel value) rest (answer value))
    (hfuel : rate * rest.length + offset' ≤ rate * tokens.length + offset) :
    Settles rate offset (fun fuel => p fuel >>= next fuel) tokens (after result answer) := by
  intro fuel hle
  simp only [Bind.bind]
  rw [hp fuel hle]
  cases result with
  | error error => rfl
  | ok value => exact hnext value fuel (by omega)

end FuelParser

end Kinglet.Library
