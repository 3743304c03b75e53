import Kinglet.Library.Interleaving

/-!
# Custody

Some call in flight answers for each item of the shared state that is not settled. The call that
runs may settle an item, hand it to a call that it leaves in flight, or leave it to the others.
-/

namespace Kinglet.Library

structure Custody (σ κ α : Type*) where
  Present : σ → α → Prop
  Settled : σ → α → Prop
  Holds : κ → α → Prop

namespace Custody

variable {σ ρ κ ι ω α : Type*} (custody : Custody σ κ α)

def Covers (pool : Pool σ κ ω) : Prop :=
  ∀ item, custody.Present pool.shared item →
    custody.Settled pool.shared item ∨ ∃ call ∈ pool.calls, custody.Holds call item

/-- What a segment does with the items: those for which it leaves nobody were present, not settled
and not its own. -/
def Passes (shared : σ) (call : κ) (result : σ × Progress κ ω) : Prop :=
  ∀ item, custody.Present result.1 item →
    custody.Settled result.1 item ∨ (∃ rest ∈ result.2.calls, custody.Holds rest item) ∨
      custody.Present shared item ∧ ¬custody.Settled shared item ∧ ¬custody.Holds call item

/-- What a segment does with the items beside other calls, which may answer for what it gives up. -/
def PassesBeside (shared : σ) (others : List κ) (call : κ) (result : σ × Progress κ ω) : Prop :=
  ∀ item, custody.Present result.1 item →
    custody.Settled result.1 item ∨ (∃ rest ∈ result.2.calls ++ others, custody.Holds rest item) ∨
      custody.Present shared item ∧ ¬custody.Settled shared item ∧ ¬custody.Holds call item

variable {custody} {async : Async σ ρ κ ι ω} {Allowed : Pool σ κ ω → Move ρ ι → Prop}
  {outline : Outline σ κ ω} {pool pool' : Pool σ κ ω} {m : Move ρ ι} {ms : List (Move ρ ι)}

theorem Passes.beside {shared : σ} {call : κ} {result : σ × Progress κ ω}
    (h : custody.Passes shared call result) (others : List κ) :
    custody.PassesBeside shared others call result := by
  intro item hpresent
  rcases h item hpresent with hsettled | ⟨rest, hrest, hholds⟩ | hleft
  · exact .inl hsettled
  · exact .inr (.inl ⟨rest, List.mem_append_left _ hrest, hholds⟩)
  · exact .inr (.inr hleft)

theorem Covers.advance (h : custody.Covers pool) {index : ℕ} {call : κ}
    {result : σ × Progress κ ω} (hcall : pool.calls[index]? = some call)
    (hpasses : custody.PassesBeside pool.shared (pool.calls.eraseIdx index) call result) :
    custody.Covers (Async.advance pool index result) := by
  intro item hpresent
  rw [Async.advance_shared] at hpresent ⊢
  rcases hpasses item hpresent with hsettled | ⟨rest, hrest, hholds⟩ | ⟨hbefore, hopen, hnot⟩
  · exact .inl hsettled
  · exact .inr ⟨rest, (Async.mem_advance hcall).2 (List.mem_append.1 hrest), hholds⟩
  · obtain ⟨other, hother, hholds⟩ := (h item hbefore).resolve_left hopen
    have hne : other ≠ call := by
      rintro rfl
      exact hnot hholds
    exact .inr ⟨other, (Async.mem_advance hcall).2
      (.inr (Async.mem_eraseIdx_of_ne hcall hother hne)), hholds⟩

/-- What an allowed segment has to do with the items, under a proof outline. -/
def Segments (async : Async σ ρ κ ι ω) (outline : Outline σ κ ω) (custody : Custody σ κ α)
    (Allowed : Pool σ κ ω → Move ρ ι → Prop) : Prop :=
  ∀ pool index input call, outline.Holds pool → Allowed pool (.resume index input) →
    pool.calls[index]? = some call →
    custody.Passes pool.shared call (async.segment pool.shared call input)

def SegmentsBeside (async : Async σ ρ κ ι ω) (outline : Outline σ κ ω) (custody : Custody σ κ α)
    (Allowed : Pool σ κ ω → Move ρ ι → Prop) : Prop :=
  ∀ pool index input call, outline.Holds pool → Allowed pool (.resume index input) →
    pool.calls[index]? = some call →
    custody.PassesBeside pool.shared (pool.calls.eraseIdx index) call
      (async.segment pool.shared call input)

theorem Segments.beside (h : Segments async outline custody Allowed) :
    SegmentsBeside async outline custody Allowed :=
  fun pool index input call hpool hallowed hcall =>
    (h pool index input call hpool hallowed hcall).beside _

/-- An allowed move leaves an item to nobody only if nobody answered for it. -/
theorem Covers.of_step (hsegment : SegmentsBeside async outline custody Allowed)
    (hstep : async.Step Allowed pool m pool') (hholds : outline.Holds pool)
    (h : custody.Covers pool) : custody.Covers pool' := by
  obtain ⟨hallowed, hmove⟩ := hstep
  cases m with
  | start request =>
      obtain rfl := Option.some.inj hmove
      intro item hpresent
      rcases h item hpresent with hsettled | ⟨call, hcall, hitem⟩
      · exact .inl hsettled
      · exact .inr ⟨call, List.mem_append_left _ hcall, hitem⟩
  | resume index input =>
      obtain ⟨call, hcall, rfl⟩ := Option.map_eq_some_iff.1 hmove
      exact h.advance hcall (hsegment pool index input call hholds hallowed hcall)

/-- **Custody along a run**, with the proof outline under which the segments pass the items on. -/
theorem Covers.of_run_beside (hbegin : Outline.Begins async outline Allowed)
    (hkeeps : Outline.Segments async outline Allowed)
    (hsegment : SegmentsBeside async outline custody Allowed)
    (hrun : Run (async.Step Allowed) pool ms pool') (hholds : outline.Holds pool)
    (h : custody.Covers pool) : outline.Holds pool' ∧ custody.Covers pool' := by
  induction hrun with
  | refl => exact ⟨hholds, h⟩
  | head hstep _ ih =>
      exact ih (hholds.of_step hbegin hkeeps hstep) (h.of_step hsegment hstep hholds)

theorem Covers.of_run (hbegin : Outline.Begins async outline Allowed)
    (hkeeps : Outline.Segments async outline Allowed)
    (hsegment : Segments async outline custody Allowed)
    (hrun : Run (async.Step Allowed) pool ms pool') (hholds : outline.Holds pool)
    (h : custody.Covers pool) : outline.Holds pool' ∧ custody.Covers pool' :=
  h.of_run_beside hbegin hkeeps hsegment.beside hrun hholds

end Custody

end Kinglet.Library
