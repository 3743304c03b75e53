import Kinglet.Library.Procedure
import Mathlib.Data.Nat.Notation

/-!
# Attempts

A loop that runs a body again after an error, with every attempt kept. `Lawful` is what such a loop is
for: there is an attempt, there are no more than admitted and none after a success, each but the first
is approved, and the error of the last one is handled or thrown. It can fail in four ways: no attempt
is admitted, nothing approves, the approval throws, or the last attempt that is admitted does not count
as the last (`lawful_iff`).
-/

namespace Kinglet.Library

open Procedure

variable {σ ε α : Type}

/-- A loop of attempts. Its procedures are given their fuel. -/
structure Retry (σ ε α : Type) where
  /-- There may be an attempt of this number. -/
  admits : ℕ → Bool
  /-- Nothing follows an error of this attempt. -/
  isLast : ℕ → Bool
  body : ℕ → Procedure σ ε α
  /-- Whether to try again after an error; nobody is asked where there is none. -/
  ask : Option (ℕ → ε → Procedure σ ε Bool)
  giveUp : ℕ → ε → Procedure σ ε α
  /-- The result where no attempt is admitted. -/
  exhausted : α

namespace Retry

/-- An attempt: how it ended, what was answered about its error, and whether that was given up on. -/
structure Round (ε α : Type) where
  outcome : Ending ε α
  answer : Option (Ending ε Bool)
  gaveUp : Bool

def verdict (r : Retry σ ε α) (n : ℕ) (e : ε) : Procedure σ ε Bool :=
  match r.ask with
  | some ask => ask n e
  | none => pure true

/-- The loop from an attempt on. -/
def loop (r : Retry σ ε α) : ℕ → ℕ → Procedure σ ε α
  | 0, _ => running
  | n + 1, count =>
      if r.admits count then
        catching (r.body n) fun e =>
          if r.isLast count then r.giveUp n e
          else do
            let again ← r.verdict n e
            if again then r.loop n (count + 1) else r.giveUp n e
      else pure r.exhausted

/-- The answer as it is recorded. -/
def recorded (r : Retry σ ε α) (answer : Ending ε Bool) : Option (Ending ε Bool) :=
  r.ask.map fun _ => answer

/-- The loop with its attempts. -/
def traced (r : Retry σ ε α) : ℕ → ℕ → σ → List (Round ε α) × Ending ε α × σ
  | 0, _, s => ([], .running, s)
  | n + 1, count, s =>
      if r.admits count then
        match r.body n s with
        | (.thrown e, s') =>
            if r.isLast count then ([⟨.thrown e, none, true⟩], r.giveUp n e s')
            else
              match r.verdict n e s' with
              | (.value true, s'') =>
                  let rest := r.traced n (count + 1) s''
                  (⟨.thrown e, r.recorded (.value true), false⟩ :: rest.1, rest.2)
              | (.value false, s'') =>
                  ([⟨.thrown e, r.recorded (.value false), true⟩], r.giveUp n e s'')
              | (.thrown e', s'') =>
                  ([⟨.thrown e, r.recorded (.thrown e'), false⟩], .thrown e', s'')
              | (.running, s'') => ([⟨.thrown e, r.recorded .running, false⟩], .running, s'')
        | (outcome, s') => ([⟨outcome, none, false⟩], outcome, s')
      else ([], .value r.exhausted, s)

/-- The attempts are those of the loop. -/
theorem traced_snd (r : Retry σ ε α) (n count : ℕ) (s : σ) :
    (r.traced n count s).2 = r.loop n count s := by
  induction n generalizing count s with
  | zero => rfl
  | succ n ih =>
    simp only [traced, loop]
    by_cases hadmits : r.admits count
    · simp only [if_pos hadmits, catching]
      obtain ⟨outcome, s'⟩ := r.body n s
      cases outcome with
      | value a => rfl
      | running => rfl
      | thrown e =>
        dsimp only
        by_cases hlast : r.isLast count
        · rw [if_pos hlast, if_pos hlast]
        · rw [if_neg hlast, if_neg hlast]
          simp only [Bind.bind]
          obtain ⟨outcome, s''⟩ := r.verdict n e s'
          cases outcome with
          | value again =>
            cases again with
            | true => exact ih (count + 1) s''
            | false => rfl
          | thrown e' => rfl
          | running => rfl
    · simp only [if_neg hadmits]
      rfl

/-! ## Courses of the loop -/

/-- The attempts from a number on, and how the loop ends; `handles e ending` says how it may end once
an error is given up on. -/
inductive Course (r : Retry σ ε α) (handles : ε → Ending ε α → Prop) :
    ℕ → List (Round ε α) → Ending ε α → Prop
  | exhausted {count : ℕ} (hadmits : ¬ r.admits count) : Course r handles count [] (.value r.exhausted)
  | success {count : ℕ} {a : α} (hadmits : r.admits count) :
      Course r handles count [⟨.value a, none, false⟩] (.value a)
  | last {count : ℕ} {e : ε} {ending : Ending ε α} (hadmits : r.admits count)
      (hlast : r.isLast count) (hending : handles e ending) :
      Course r handles count [⟨.thrown e, none, true⟩] ending
  | refused {count : ℕ} {e : ε} {ending : Ending ε α} (hadmits : r.admits count)
      (hask : r.ask.isSome) (hending : handles e ending) :
      Course r handles count [⟨.thrown e, some (.value false), true⟩] ending
  | unanswered {count : ℕ} {e e' : ε} (hadmits : r.admits count) (hask : r.ask.isSome) :
      Course r handles count [⟨.thrown e, some (.thrown e'), false⟩] (.thrown e')
  | again {count : ℕ} {e : ε} {rounds : List (Round ε α)} {ending : Ending ε α}
      (hadmits : r.admits count) (hlast : ¬ r.isLast count)
      (hrest : Course r handles (count + 1) rounds ending) :
      Course r handles count (⟨.thrown e, r.recorded (.value true), false⟩ :: rounds) ending

variable {r : Retry σ ε α}

/-- A loop that has ended has taken its course. -/
theorem course_traced (handles : ε → Ending ε α → Prop)
    (hgiveUp : ∀ n e s, (r.giveUp n e s).1 ≠ .running → handles e (r.giveUp n e s).1) {n count : ℕ} {s : σ}
    (hended : (r.traced n count s).2.1 ≠ .running) :
    Course r handles count (r.traced n count s).1 (r.traced n count s).2.1 := by
  induction n generalizing count s with
  | zero => exact absurd rfl hended
  | succ n ih =>
    simp only [traced] at hended ⊢
    by_cases hadmits : r.admits count
    · simp only [if_pos hadmits] at hended ⊢
      match hbody : r.body n s with
      | (.value a, s') => exact .success hadmits
      | (.running, s') =>
        rw [hbody] at hended
        exact absurd rfl hended
      | (.thrown e, s') =>
        simp only [hbody] at hended
        by_cases hlast : r.isLast count
        · simp only [if_pos hlast] at hended ⊢
          exact .last hadmits hlast (hgiveUp n e s' hended)
        · simp only [if_neg hlast] at hended ⊢
          have hasked : ∀ answer, (r.verdict n e s').1 = answer → answer ≠ .value true →
              r.ask.isSome ∧ r.recorded answer = some answer := by
            intro answer hanswer hno
            cases hask : r.ask with
            | none =>
              rw [verdict, hask] at hanswer
              exact absurd hanswer.symm hno
            | some ask => exact ⟨rfl, by rw [recorded, hask]; rfl⟩
          match hverdict : r.verdict n e s' with
          | (.value true, s'') =>
            rw [hverdict] at hended
            exact .again hadmits hlast (ih hended)
          | (.value false, s'') =>
            rw [hverdict] at hended
            obtain ⟨hask, hrecorded⟩ := hasked (.value false) (by rw [hverdict]) (by simp)
            simp only [hrecorded]
            exact .refused hadmits hask (hgiveUp n e s'' hended)
          | (.thrown e', s'') =>
            obtain ⟨hask, hrecorded⟩ := hasked (.thrown e') (by rw [hverdict]) (by simp)
            simp only [hrecorded]
            exact .unanswered hadmits hask
          | (.running, s'') =>
            rw [hverdict] at hended
            exact absurd rfl hended
    · simp only [if_neg hadmits]
      exact .exhausted hadmits

variable {handles : ε → Ending ε α → Prop}

/-- An attempt after which the loop goes on. -/
def Passed (r : Retry σ ε α) (round : Round ε α) : Prop :=
  ∃ e, round = ⟨.thrown e, r.recorded (.value true), false⟩

/-- The last attempt made, by its number, and how the loop ends after it. -/
inductive Final (r : Retry σ ε α) (handles : ε → Ending ε α → Prop) (k : ℕ) :
    Round ε α → Ending ε α → Prop
  | success (a : α) : Final r handles k ⟨.value a, none, false⟩ (.value a)
  | gaveUp {e : ε} {answer : Option (Ending ε Bool)} {ending : Ending ε α}
      (hlast : r.isLast k ∧ answer = none ∨ r.ask.isSome ∧ answer = some (.value false))
      (hending : handles e ending) : Final r handles k ⟨.thrown e, answer, true⟩ ending
  | unanswered {e e' : ε} (hask : r.ask.isSome) :
      Final r handles k ⟨.thrown e, some (.thrown e'), false⟩ (.thrown e')
  | exhausted {e : ε} (hlast : ¬ r.isLast k) (hadmits : ¬ r.admits (k + 1)) :
      Final r handles k ⟨.thrown e, r.recorded (.value true), false⟩ (.value r.exhausted)

/-- A course has no attempt, or passes attempts before the last one. -/
theorem Course.split {count : ℕ} {rounds : List (Round ε α)} {ending : Ending ε α}
    (hcourse : Course r handles count rounds ending) :
    rounds = [] ∧ ¬ r.admits count ∧ ending = .value r.exhausted ∨
    ∃ passed final, rounds = passed ++ [final] ∧ (∀ round ∈ passed, r.Passed round) ∧
      Final r handles (count + passed.length) final ending ∧
      (∀ i ≤ passed.length, r.admits (count + i)) ∧ ∀ i < passed.length, ¬ r.isLast (count + i) := by
  have hfirst : ∀ {count : ℕ} {final : Round ε α} {ending : Ending ε α}, r.admits count →
      Final r handles count final ending →
      ∃ passed last, [final] = passed ++ [last] ∧ (∀ round ∈ passed, r.Passed round) ∧
        Final r handles (count + passed.length) last ending ∧
        (∀ i ≤ passed.length, r.admits (count + i)) ∧
        ∀ i < passed.length, ¬ r.isLast (count + i) := by
    intro count final ending hadmits hfinal
    refine ⟨[], final, rfl, by simp, hfinal, fun i hi => ?_, fun i hi => absurd hi (Nat.not_lt_zero i)⟩
    rw [Nat.le_zero.1 hi]
    exact hadmits
  induction hcourse with
  | exhausted hadmits => exact .inl ⟨rfl, hadmits, rfl⟩
  | success hadmits => exact .inr (hfirst hadmits (.success _))
  | last hadmits hlast hending => exact .inr (hfirst hadmits (.gaveUp (.inl ⟨hlast, rfl⟩) hending))
  | refused hadmits hask hending =>
    exact .inr (hfirst hadmits (.gaveUp (.inr ⟨hask, rfl⟩) hending))
  | unanswered hadmits hask => exact .inr (hfirst hadmits (.unanswered hask))
  | @again count e rounds ending hadmits hlast hrest ih =>
    rcases ih with ⟨rfl, hbeyond, rfl⟩ | ⟨passed, final, rfl, hpassed, hfinal, hadmitted, hlasts⟩
    · exact .inr (hfirst hadmits (.exhausted hlast hbeyond))
    · refine .inr ⟨_ :: passed, final, rfl, List.forall_mem_cons.2 ⟨⟨e, rfl⟩, hpassed⟩, ?_,
        fun i hi => ?_, fun i hi => ?_⟩
      · rw [List.length_cons, ← Nat.add_assoc, Nat.add_right_comm]
        exact hfinal
      · cases i with
        | zero => exact hadmits
        | succ i =>
          rw [← Nat.add_assoc, Nat.add_right_comm]
          exact hadmitted i (Nat.le_of_succ_le_succ hi)
      · cases i with
        | zero => exact hlast
        | succ i =>
          rw [← Nat.add_assoc, Nat.add_right_comm]
          exact hlasts i (Nat.lt_of_succ_lt_succ hi)

/-! ## The law of attempts -/

/-- What a loop of attempts is for, when attempts with a number in `admits` are allowed. -/
structure Lawful (admits : ℕ → Prop) (needsApproval hasHandler : Prop) (rounds : List (Round ε α))
    (ending : Ending ε α) : Prop where
  attempted : rounds ≠ []
  bounded : ∀ k, rounds.length = k + 1 → k = 0 ∨ admits k
  stops : ∀ round ∈ rounds.dropLast, ∃ e, round.outcome = .thrown e
  result : ∀ round a, rounds.getLast? = some round → round.outcome = .value a → ending = .value a
  approved : needsApproval → ∀ round ∈ rounds.dropLast, round.answer = some (.value true)
  handled : hasHandler → (∀ round ∈ rounds.dropLast, round.gaveUp = false) ∧
    ∀ round, rounds.getLast? = some round → (round.gaveUp ↔ ∃ e, round.outcome = .thrown e)
  propagated : ¬ hasHandler → ∀ round e, rounds.getLast? = some round → round.outcome = .thrown e →
    ending = .thrown e

/-- When a loop keeps the law. -/
structure Suits (r : Retry σ ε α) (needsApproval hasHandler : Prop) (rounds : List (Round ε α)) :
    Prop where
  admits : r.admits 0
  ends : (∃ k, r.isLast k ∧ ∀ i ≤ k, r.admits i) ∨
    ∃ round ∈ rounds, (∀ e, round.outcome ≠ .thrown e) ∨
      ∃ answer, round.answer = some answer ∧ answer ≠ .value true
  answers : ∀ round ∈ rounds, ∀ e, round.answer = some (.thrown e) →
    ¬ hasHandler ∧ round.outcome = .thrown e
  asks : needsApproval → r.ask = none →
    (∀ round, rounds.head? = some round → ∀ e, round.outcome ≠ .thrown e) ∨ r.isLast 0 ∨ ¬ r.admits 1

variable {needsApproval hasHandler : Prop}

theorem Passed.answer_eq {round : Round ε α} (hpassed : r.Passed round) :
    round.answer = some (.value true) ∨ r.ask = none ∧ round.answer = none := by
  obtain ⟨e, rfl⟩ := hpassed
  simp only [recorded]
  cases r.ask with
  | none => exact .inr ⟨rfl, rfl⟩
  | some ask => exact .inl rfl

/-- Where nobody is asked, there is only one attempt if it does not throw or is the last. -/
theorem asks_iff {passed : List (Round ε α)} {final : Round ε α} {ending : Ending ε α}
    (hpassed : ∀ round ∈ passed, r.Passed round) (hfinal : Final r handles passed.length final ending)
    (hadmitted : ∀ i ≤ passed.length, r.admits i) (hlasts : ∀ i < passed.length, ¬ r.isLast i)
    (hask : r.ask = none) :
    passed = [] ↔ (∀ round, (passed ++ [final]).head? = some round →
      ∀ e, round.outcome ≠ .thrown e) ∨ r.isLast 0 ∨ ¬ r.admits 1 := by
  constructor
  · rintro rfl
    cases hfinal with
    | success a =>
      refine .inl fun round hround e => ?_
      cases hround
      simp
    | gaveUp hlast _ =>
      rcases hlast with ⟨hlast, -⟩ | ⟨hsome, -⟩
      · exact .inr (.inl hlast)
      · rw [hask] at hsome
        cases hsome
    | unanswered hsome =>
      rw [hask] at hsome
      cases hsome
    | exhausted _ hbeyond => exact .inr (.inr hbeyond)
  · intro hfirst
    cases passed with
    | nil => rfl
    | cons round passed =>
      exfalso
      rcases hfirst with hfirst | hlast | hbeyond
      · obtain ⟨e, rfl⟩ := hpassed round (List.mem_cons_self ..)
        exact hfirst _ rfl e rfl
      · exact hlasts 0 (Nat.succ_pos _) hlast
      · exact hbeyond (hadmitted 1 (Nat.succ_le_succ (Nat.zero_le _)))

/-- Every attempt passed approves the next one, unless nobody is asked. -/
theorem approved_iff {passed : List (Round ε α)} (hpassed : ∀ round ∈ passed, r.Passed round) :
    (∀ round ∈ passed, round.answer = some (.value true)) ↔ (r.ask = none → passed = []) := by
  constructor
  · intro happroved hask
    cases passed with
    | nil => rfl
    | cons round passed =>
      obtain ⟨e, rfl⟩ := hpassed round (List.mem_cons_self ..)
      have hanswer := happroved _ (List.mem_cons_self ..)
      rw [recorded, hask] at hanswer
      cases hanswer
  · intro hask round hround
    rcases (hpassed round hround).answer_eq with hanswer | ⟨hnone, -⟩
    · exact hanswer
    · rw [hask hnone] at hround
      cases hround

/-- **The law of attempts** is kept if and only if an attempt is admitted; the last number admitted
counts as the last, or the loop ends before it; asking throws nothing that could be mistaken; and
somebody is asked before a second attempt that needs an approval. -/
theorem lawful_iff (hthrows : ¬ hasHandler → ∀ e ending, handles e ending → ending = .thrown e)
    {rounds : List (Round ε α)} {ending : Ending ε α} (hcourse : Course r handles 0 rounds ending) :
    Lawful (fun k => r.admits k) needsApproval hasHandler rounds ending ↔
      Suits r needsApproval hasHandler rounds := by
  rcases hcourse.split with ⟨rfl, hnone, -⟩ | ⟨passed, final, rfl, hpassed, hfinal, hadmitted, hlasts⟩
  · exact iff_of_false (fun h => h.attempted rfl) fun h => hnone h.admits
  simp only [Nat.zero_add] at hfinal hadmitted hlasts
  have hasks := fun hask => asks_iff hpassed hfinal hadmitted hlasts hask
  have hdrop : (passed ++ [final]).dropLast = passed := List.dropLast_concat
  have hlast : (passed ++ [final]).getLast? = some final := by simp
  constructor
  · intro hlaw
    have happroved := hlaw.approved
    rw [hdrop] at happroved
    refine ⟨hadmitted 0 (Nat.zero_le _), ?_, ?_, fun hneeds hask => ?_⟩
    · have hmem : final ∈ passed ++ [final] := by simp
      cases hfinal with
      | success a => exact .inr ⟨_, hmem, .inl fun e => by simp⟩
      | gaveUp hlastOrRefused _ =>
        rcases hlastOrRefused with ⟨hlast, -⟩ | ⟨-, rfl⟩
        · exact .inl ⟨_, hlast, hadmitted⟩
        · exact .inr ⟨_, hmem, .inr ⟨_, rfl, by simp⟩⟩
      | unanswered _ => exact .inr ⟨_, hmem, .inr ⟨_, rfl, by simp⟩⟩
      | @exhausted e _ _ =>
        by_cases hhandler : hasHandler
        · have hgaveUp := ((hlaw.handled hhandler).2 _ hlast).2 ⟨e, rfl⟩
          cases hgaveUp
        · cases hlaw.propagated hhandler _ e hlast rfl
    · intro round hround e' hanswer
      rcases List.mem_append.1 hround with hround | hround
      · rcases (hpassed round hround).answer_eq with h | ⟨-, h⟩ <;> rw [h] at hanswer <;> cases hanswer
      · rw [List.mem_singleton.1 hround] at hanswer ⊢
        cases hfinal with
        | success a => cases hanswer
        | gaveUp hlastOrRefused _ =>
          rcases hlastOrRefused with ⟨-, rfl⟩ | ⟨-, rfl⟩ <;> cases hanswer
        | @unanswered e e'' _ =>
          cases hanswer
          by_cases hhandler : hasHandler
          · cases ((hlaw.handled hhandler).2 _ hlast).2 ⟨e, rfl⟩
          · exact ⟨hhandler, (hlaw.propagated hhandler _ e hlast rfl).symm⟩
        | exhausted _ _ =>
          simp only [recorded] at hanswer
          cases hask : r.ask <;> rw [hask] at hanswer <;> cases hanswer
    · exact (hasks hask).1 ((approved_iff hpassed).1 (happroved hneeds) hask)
  · intro hsuits
    have hnotExhausted : ∀ e, ¬ r.isLast passed.length → ¬ r.admits (passed.length + 1) →
        final = ⟨.thrown e, r.recorded (.value true), false⟩ → False := by
      intro e hnotLast hbeyond hfinal
      rcases hsuits.ends with ⟨k, hk, hadmits⟩ | ⟨round, hround, hended⟩
      · rcases Nat.lt_trichotomy k passed.length with hlt | rfl | hgt
        · exact hlasts k hlt hk
        · exact hnotLast hk
        · exact hbeyond (hadmits _ hgt)
      · have hround : r.Passed round := by
          rcases List.mem_append.1 hround with hround | hround
          · exact hpassed round hround
          · exact ⟨e, (List.mem_singleton.1 hround).trans hfinal⟩
        rcases hended with hended | ⟨answer, hanswer, hother⟩
        · obtain ⟨e, rfl⟩ := hround
          exact hended e rfl
        · rcases hround.answer_eq with h | ⟨-, h⟩ <;> rw [h] at hanswer <;> cases hanswer
          exact hother rfl
    refine ⟨by simp, fun k hk => ?_, ?_, ?_, fun hneeds => ?_, fun hhandler => ⟨?_, ?_⟩, ?_⟩
    · rw [List.length_append, List.length_singleton] at hk
      exact .inr (hadmitted k (Nat.le_of_succ_le_succ (Nat.le_of_eq hk.symm)))
    · rw [hdrop]
      intro round hround
      obtain ⟨e, rfl⟩ := hpassed round hround
      exact ⟨e, rfl⟩
    · intro round a hround houtcome
      rw [hlast] at hround
      cases hround
      cases hfinal with
      | success b => exact houtcome
      | gaveUp _ _ | unanswered _ | exhausted _ _ => cases houtcome
    · rw [hdrop, approved_iff hpassed]
      exact fun hask => (hasks hask).2 (hsuits.asks hneeds hask)
    · rw [hdrop]
      intro round hround
      obtain ⟨e, rfl⟩ := hpassed round hround
      rfl
    · intro round hround
      rw [hlast] at hround
      cases hround
      cases hfinal with
      | success a => simp
      | gaveUp _ _ => simp
      | unanswered _ =>
        exact absurd hhandler (hsuits.answers _ (List.mem_append_right _ (List.mem_singleton.2 rfl)) _ rfl).1
      | exhausted hnotLast hbeyond => exact (hnotExhausted _ hnotLast hbeyond rfl).elim
    · intro hhandler round e hround houtcome
      rw [hlast] at hround
      cases hround
      cases hfinal with
      | success a => cases houtcome
      | gaveUp _ hending =>
        cases houtcome
        exact hthrows hhandler _ _ hending
      | unanswered _ =>
        have hsame := (hsuits.answers _ (List.mem_append_right _ (List.mem_singleton.2 rfl)) _ rfl).2
        rw [← hsame]
        exact houtcome
      | exhausted hnotLast hbeyond => exact (hnotExhausted _ hnotLast hbeyond rfl).elim

end Retry

end Kinglet.Library
