import Mathlib.Data.List.Count
import Mathlib.Data.List.Forall2
import Mathlib.Tactic.Common

/-!
# Patterns with gaps over separated texts

A pattern over texts with a separator is written place by place: a letter, or any one letter other
than the separator, after which more letters may follow up to the next separator; and any text at
all may follow a place with a gap. This is the form in which a path template can be compared with
another one: two spellings of a template have the same places.

The result is the converse. Where what follows a gap is a letter, possibly with one separator in
between, the texts that fit a pattern determine its places (`Place.eq_of_samples`). The texts that
show two patterns apart are of one kind (`Place.Sample`): the shortest texts of a pattern, and those
with a trail `y/y/…/y` in a gap. What a test asks of the parts between separators, the samples meet
where the parts that the pattern writes out do (`Place.Sample.parts`). Letters of a shortest text must meet letters one by one; and a
trail with more separators than the other pattern has places does not fit where there is no gap.
-/

namespace Kinglet.Library

/-- One letter of a pattern, or any letter but the separator, and whether any text may follow. -/
structure Place (α : Type*) where
  letter : Option α
  gap : Bool
  deriving DecidableEq, Repr

namespace Place

variable {α : Type*} {sep y d : α} {p t : Place α} {u v c : List (Place α)} {s z : List α}

/-! ## Texts that fit a pattern -/

/-- The letters at a place. -/
def Accepts (sep : α) (p : Place α) (d : α) : Prop :=
  match p.letter with
  | some e => d = e
  | none => d ≠ sep

/-- The texts between a place and the next one. -/
def Extends (sep : α) (p : Place α) (z : List α) : Prop :=
  if p.gap then True else if p.letter = none then sep ∉ z else z = []

def Fits (sep : α) : List (Place α) → List α → Prop
  | [], s => s = []
  | p :: u, s => ∃ d z s', s = d :: (z ++ s') ∧ p.Accepts sep d ∧ p.Extends sep z ∧ Fits sep u s'

theorem extends_nil : p.Extends sep [] := by
  unfold Extends
  split
  · trivial
  · split
    · exact List.not_mem_nil
    · rfl

@[simp] theorem fits_letter {e : α} :
    Fits sep (⟨some e, false⟩ :: u) s ↔ ∃ s', s = e :: s' ∧ Fits sep u s' := by
  simp [Fits, Accepts, Extends]

@[simp] theorem fits_letter_gap {e : α} :
    Fits sep (⟨some e, true⟩ :: u) s ↔ ∃ z s', s = e :: (z ++ s') ∧ Fits sep u s' := by
  simp [Fits, Accepts, Extends]

@[simp] theorem fits_any_gap :
    Fits sep (⟨none, true⟩ :: u) s ↔ ∃ d z s', s = d :: (z ++ s') ∧ d ≠ sep ∧ Fits sep u s' := by
  simp [Fits, Accepts, Extends]

@[simp] theorem fits_any :
    Fits sep (⟨none, false⟩ :: u) s ↔
      ∃ w s', s = w ++ s' ∧ w ≠ [] ∧ sep ∉ w ∧ Fits sep u s' := by
  constructor
  · rintro ⟨d, z, s', rfl, hd, hz, h⟩
    refine ⟨d :: z, s', rfl, List.cons_ne_nil d z, ?_, h⟩
    have hd : d ≠ sep := hd
    have hz : sep ∉ z := by simpa [Extends] using hz
    simp [hd.symm, hz]
  · rintro ⟨w, s', rfl, hne, hw, h⟩
    cases w with
    | nil => exact absurd rfl hne
    | cons d z =>
      rw [List.mem_cons, not_or] at hw
      exact ⟨d, z, s', rfl, Ne.symm hw.1, by simpa [Extends] using hw.2, h⟩

theorem Fits.length_le (h : Fits sep u s) : u.length ≤ s.length := by
  induction u generalizing s with
  | nil => exact Nat.zero_le _
  | cons p u ih =>
    obtain ⟨d, z, s', rfl, _, _, hrest⟩ := h
    have := ih hrest
    simp only [List.length_cons, List.length_append]
    omega

theorem fits_append : Fits sep (u ++ v) s ↔ ∃ s₁ s₂, s = s₁ ++ s₂ ∧ Fits sep u s₁ ∧ Fits sep v s₂ := by
  induction u generalizing s with
  | nil =>
    constructor
    · intro h
      exact ⟨[], s, rfl, rfl, h⟩
    · rintro ⟨s₁, s₂, rfl, rfl, h⟩
      exact h
  | cons p u ih =>
    constructor
    · rintro ⟨d, z, s', rfl, hd, hz, hrest⟩
      obtain ⟨s₁, s₂, rfl, h₁, h₂⟩ := ih.1 hrest
      refine ⟨d :: (z ++ s₁), s₂, ?_, ⟨d, z, s₁, rfl, hd, hz, h₁⟩, h₂⟩
      simp
    · rintro ⟨_, s₂, rfl, ⟨d, z, s₁, rfl, hd, hz, h₁⟩, h₂⟩
      refine ⟨d, z, s₁ ++ s₂, ?_, hd, hz, ih.2 ⟨s₁, s₂, rfl, h₁, h₂⟩⟩
      simp

/-- A text no longer than the pattern meets it letter by letter. -/
theorem Fits.forall₂ (h : Fits sep u s) (hlen : s.length ≤ u.length) :
    List.Forall₂ (Accepts sep) u s := by
  induction u generalizing s with
  | nil =>
    obtain rfl : s = [] := h
    exact .nil
  | cons p u ih =>
    obtain ⟨d, z, s', rfl, hd, _, hrest⟩ := h
    have hle := hrest.length_le
    simp only [List.length_cons, List.length_append] at hlen
    have hz : z = [] := List.eq_nil_of_length_eq_zero (by omega)
    have hrest := ih hrest (by omega)
    rw [hz, List.nil_append]
    exact .cons hd hrest

/-- Without a gap, a text has no more separators than the pattern has places. -/
theorem Fits.count_le [DecidableEq α] (h : Fits sep u s) (hgap : ∀ p ∈ u, p.gap = false) :
    s.count sep ≤ u.length := by
  induction u generalizing s with
  | nil =>
    obtain rfl : s = [] := h
    exact Nat.zero_le _
  | cons p u ih =>
    obtain ⟨d, z, s', rfl, _, hz, hrest⟩ := h
    obtain ⟨hp, hu⟩ := List.forall_mem_cons.1 hgap
    have hz : z.count sep = 0 := by
      simp only [Extends, hp, Bool.false_eq_true, if_false] at hz
      split at hz
      · exact List.count_eq_zero.2 hz
      · rw [hz, List.count_nil]
    have hone : [d].count sep ≤ 1 := List.count_le_length
    have := ih hrest hu
    rw [← List.singleton_append, List.count_append, List.count_append, List.length_cons]
    omega

/-! ## Sample texts -/

/-- A text with `k` separators, none of them first, last or beside another one. -/
def trail (sep y : α) : ℕ → List α
  | 0 => [y]
  | k + 1 => y :: sep :: trail sep y k

/-- The shortest texts of a pattern, with a trail in some of its gaps. -/
inductive Sample (sep : α) (good : α → Prop) : List (Place α) → List α → Prop
  | nil : Sample sep good [] []
  | cons {p : Place α} {u : List (Place α)} {d : α} {z s : List α}
      (hletter : p.letter = some d ∨ p.letter = none ∧ good d)
      (hgap : z = [] ∨ p.gap = true ∧ ∃ y k, good y ∧ z = trail sep y k)
      (hrest : Sample sep good u s) : Sample sep good (p :: u) (d :: (z ++ s))

/-- The shortest text with `d` at every open place. -/
def shortest (d : α) (u : List (Place α)) : List α := u.map fun p => p.letter.getD d

variable {good : α → Prop}

theorem letter_getD (hd : good d) (p : Place α) :
    p.letter = some (p.letter.getD d) ∨ p.letter = none ∧ good (p.letter.getD d) := by
  cases hletter : p.letter with
  | none => exact .inr ⟨rfl, hd⟩
  | some e => exact .inl rfl

theorem sample_shortest (hd : good d) (u : List (Place α)) : Sample sep good u (shortest d u) := by
  induction u with
  | nil => exact .nil
  | cons p u ih => exact .cons (letter_getD hd p) (.inl rfl) ih

theorem sample_trail (hd : good d) (hy : good y) (ht : t.gap = true) (k : ℕ) (u c : List (Place α)) :
    Sample sep good (u ++ t :: c)
      (shortest d u ++ t.letter.getD d :: (trail sep y k ++ shortest d c)) := by
  induction u with
  | nil => exact .cons (letter_getD hd t) (.inr ⟨ht, y, k, hy, rfl⟩) (sample_shortest hd c)
  | cons p u ih =>
    have hcons := Sample.cons (z := []) (letter_getD hd p) (.inl rfl) ih
    simpa [shortest] using hcons

theorem Sample.fits (hgood : ∀ d, good d → d ≠ sep) (h : Sample sep good u s) : Fits sep u s := by
  induction h with
  | nil => rfl
  | @cons p u d z s hletter hgap _ ih =>
    refine ⟨d, z, s, rfl, ?_, ?_, ih⟩
    · rcases hletter with hp | ⟨hp, hd⟩
      · simp [Accepts, hp]
      · simpa [Accepts, hp] using hgood d hd
    · rcases hgap with rfl | ⟨hp, _⟩
      · exact extends_nil
      · simp [Extends, hp]

@[simp] theorem length_shortest (d : α) (u : List (Place α)) :
    (shortest d u).length = u.length := List.length_map _

theorem count_trail [DecidableEq α] (hy : y ≠ sep) (k : ℕ) : (trail sep y k).count sep = k := by
  induction k with
  | zero => simp [trail, hy]
  | succ k ih => simp [trail, hy, ih]

/-- What is left of a trail starts with its letter, possibly after one separator. -/
theorem starts_of_suffix_trail {k : ℕ} (h : z <:+ trail sep y k) (hz : z ≠ []) :
    ∃ rest, z = y :: rest ∨ z = sep :: y :: rest := by
  induction k with
  | zero =>
    rcases List.suffix_cons_iff.1 h with rfl | h
    · exact ⟨[], .inl rfl⟩
    · exact absurd (List.suffix_nil.1 h) hz
  | succ k ih =>
    rcases List.suffix_cons_iff.1 h with rfl | h
    · exact ⟨_, .inl rfl⟩
    · rcases List.suffix_cons_iff.1 h with rfl | h
      · cases k with
        | zero => exact ⟨[], .inr rfl⟩
        | succ k => exact ⟨_, .inr rfl⟩
      · exact ih h

/-! ## The parts of a sample -/

section Parts

variable [DecidableEq α] {ok : List α → Bool}

/-- Whether all parts of a text between separators pass a test, where the first one goes on from
`acc`. -/
def Parts (sep : α) (ok : List α → Bool) : List α → List α → Prop
  | acc, [] => ok acc = true
  | acc, d :: s => if d = sep then ok acc = true ∧ Parts sep ok [] s else Parts sep ok (acc ++ [d]) s

instance Parts.decidable (sep : α) (ok : List α → Bool) :
    (acc s : List α) → Decidable (Parts sep ok acc s)
  | acc, [] => inferInstanceAs (Decidable (ok acc = true))
  | acc, d :: s =>
      have := Parts.decidable sep ok [] s
      have := Parts.decidable sep ok (acc ++ [d]) s
      inferInstanceAs (Decidable (if d = sep then ok acc = true ∧ Parts sep ok [] s
        else Parts sep ok (acc ++ [d]) s))

/-- Whether the parts that a pattern writes out in letters pass a test; `none` stands for a part
with an open place. -/
def placeParts (sep : α) (ok : List α → Bool) : Option (List α) → List (Place α) → Bool
  | acc, [] => acc.all ok
  | acc, p :: u =>
      match p.letter with
      | none => placeParts sep ok none u
      | some e =>
          if e = sep then acc.all ok && placeParts sep ok (some []) u
          else placeParts sep ok (acc.map (· ++ [e])) u

theorem placeParts_none {acc : Option (List α)} (h : placeParts sep ok acc u = true) :
    placeParts sep ok none u = true := by
  induction u generalizing acc with
  | nil => rfl
  | cons p u ih =>
    unfold placeParts at h ⊢
    split at h
    · exact h
    · split at h
      · rw [if_pos ‹_›]
        exact (Bool.and_eq_true_iff.1 h).2
      · rw [if_neg ‹_›]
        exact ih h

/-- What follows a separator starts a part. -/
theorem Parts.tail {acc front : List α} (h : Parts sep ok acc (front ++ sep :: s)) :
    Parts sep ok [] s := by
  induction front generalizing acc with
  | nil =>
    rw [List.nil_append, Parts, if_pos rfl] at h
    exact h.2
  | cons d front ih =>
    rw [List.cons_append, Parts] at h
    split at h
    · exact ih h.2
    · exact ih h

theorem Parts.mono {ok' : List α → Bool} {acc : List α} (hok : ∀ part, ok part = true → ok' part = true)
    (h : Parts sep ok acc s) : Parts sep ok' acc s := by
  induction s generalizing acc with
  | nil => exact hok _ h
  | cons d s ih =>
    unfold Parts at h ⊢
    split
    · rw [if_pos ‹_›] at h
      exact ⟨hok _ h.1, ih h.2⟩
    · rw [if_neg ‹_›] at h
      exact ih h

/-- The part so far of a text, against the part so far of its pattern. -/
def Follows (good : α → Prop) : Option (List α) → List α → Prop
  | some a, acc => acc = a
  | none, acc => ∃ d ∈ acc, good d

theorem parts_trail (hok : ∀ part, ∀ d ∈ part, good d → ok part = true) (hy : good y)
    (hsep : y ≠ sep) (hs : ∀ acc, y ∈ acc → Parts sep ok acc s) (acc : List α) (k : ℕ) :
    Parts sep ok acc (trail sep y k ++ s) := by
  have hmem : ∀ acc : List α, y ∈ acc ++ [y] := fun acc => by simp
  induction k generalizing acc with
  | zero =>
    show Parts sep ok acc (y :: s)
    rw [Parts, if_neg hsep]
    exact hs _ (hmem acc)
  | succ k ih =>
    show Parts sep ok acc (y :: sep :: (trail sep y k ++ s))
    rw [Parts, if_neg hsep, Parts, if_pos rfl]
    exact ⟨hok _ y (hmem acc) hy, ih []⟩

theorem parts_gap (hok : ∀ part, ∀ d ∈ part, good d → ok part = true)
    (hgood : ∀ d, good d → d ≠ sep) {acc : Option (List α)} {part : List α}
    (hz : z = [] ∨ p.gap = true ∧ ∃ y k, good y ∧ z = trail sep y k)
    (hs : ∀ {acc part}, placeParts sep ok acc u = true → Follows good acc part →
      Parts sep ok part s)
    (hu : placeParts sep ok acc u = true) (h : Follows good acc part) :
    Parts sep ok part (z ++ s) := by
  rcases hz with rfl | ⟨_, y, k, hy, rfl⟩
  · exact hs hu h
  · exact parts_trail hok hy (hgood y hy)
      (fun acc hmem => hs (placeParts_none hu) ⟨y, hmem, hy⟩) part k

/-- The parts of a sample pass a test that the written parts of the pattern pass, and all parts
with a good letter. -/
theorem Sample.parts (hok : ∀ part, ∀ d ∈ part, good d → ok part = true)
    (hgood : ∀ d, good d → d ≠ sep) (h : Sample sep good u s) {acc : Option (List α)}
    {part : List α} (hu : placeParts sep ok acc u = true) (hpart : Follows good acc part) :
    Parts sep ok part s := by
  induction h generalizing acc part with
  | nil =>
    cases acc with
    | none =>
      obtain ⟨d, hmem, hd⟩ := hpart
      exact hok part d hmem hd
    | some a =>
      obtain rfl : part = a := hpart
      exact hu
  | @cons p u d z s hletter hgap _ ih =>
    unfold placeParts at hu
    rcases hletter with hp | ⟨hp, hd⟩
    · simp only [hp] at hu
      by_cases hsep : d = sep
      · rw [if_pos hsep, Bool.and_eq_true_iff] at hu
        rw [Parts, if_pos hsep]
        refine ⟨?_, parts_gap hok hgood hgap ih hu.2 rfl⟩
        cases acc with
        | none =>
          obtain ⟨e, hmem, he⟩ := hpart
          exact hok part e hmem he
        | some a =>
          obtain rfl : part = a := hpart
          exact hu.1
      · rw [if_neg hsep] at hu
        rw [Parts, if_neg hsep]
        refine parts_gap hok hgood hgap ih hu ?_
        cases acc with
        | none =>
          obtain ⟨e, hmem, he⟩ := hpart
          exact ⟨e, List.mem_append_left _ hmem, he⟩
        | some a =>
          obtain rfl : part = a := hpart
          rfl
    · simp only [hp] at hu
      rw [Parts, if_neg (hgood d hd)]
      exact parts_gap hok hgood hgap ih hu ⟨d, by simp, hd⟩

end Parts

theorem Sample.forall_mem {P : α → Prop} (hgood : ∀ d, good d → P d) (hsep : P sep)
    (hu : ∀ p ∈ u, ∀ e, p.letter = some e → P e) (h : Sample sep good u s) : ∀ d ∈ s, P d := by
  have htrail : ∀ y k, good y → ∀ d ∈ trail sep y k, P d := by
    intro y k hy
    induction k with
    | zero => simpa [trail] using hgood y hy
    | succ k ih => simpa [trail, hgood y hy, hsep] using ih
  induction h with
  | nil => simp
  | @cons p u d z s hletter hgap _ ih =>
    obtain ⟨hp, hu⟩ := List.forall_mem_cons.1 hu
    refine List.forall_mem_cons.2 ⟨?_, List.forall_mem_append.2 ⟨?_, ih hu⟩⟩
    · exact hletter.elim (hp d) fun h => hgood d h.2
    · rcases hgap with rfl | ⟨_, y, k, hy, rfl⟩
      · simp
      · exact htrail y k hy

/-! ## What follows a gap -/

/-- The pattern is at its end, or goes on with a letter, possibly after one separator. -/
def Guarded (sep : α) : List (Place α) → Prop
  | [] => True
  | ⟨none, _⟩ :: _ => False
  | [⟨some e, gap⟩] => e ≠ sep ∨ gap = false
  | ⟨some e, gap⟩ :: ⟨next, _⟩ :: _ => e ≠ sep ∨ gap = false ∧ next ≠ none ∧ next ≠ some sep

instance [DecidableEq α] : Decidable (Guarded sep u) :=
  match u with
  | [] => .isTrue trivial
  | ⟨none, _⟩ :: _ => .isFalse id
  | [⟨some e, gap⟩] => inferInstanceAs (Decidable (e ≠ sep ∨ gap = false))
  | ⟨some e, gap⟩ :: ⟨next, _⟩ :: _ =>
      inferInstanceAs (Decidable (e ≠ sep ∨ gap = false ∧ next ≠ none ∧ next ≠ some sep))

/-- Each gap of the pattern is followed by a letter. -/
def Settled (sep : α) : List (Place α) → Prop
  | [] => True
  | p :: u => (p.gap = true → Guarded sep u) ∧ Settled sep u

instance Settled.decidable [DecidableEq α] (sep : α) : (u : List (Place α)) → Decidable (Settled sep u)
  | [] => .isTrue trivial
  | p :: u =>
      have := Settled.decidable sep u
      inferInstanceAs (Decidable ((p.gap = true → Guarded sep u) ∧ Settled sep u))

theorem Settled.guarded (h : Settled sep (u ++ p :: v)) (hp : p.gap = true) : Guarded sep v := by
  induction u with
  | nil => exact h.1 hp
  | cons q u ih => exact ih h.2

/-- The letters that guard a gap. -/
def guards (u : List (Place α)) : List α := (u.take 2).filterMap letter

theorem length_guards_le (u : List (Place α)) : (guards u).length ≤ 2 :=
  calc (guards u).length ≤ (u.take 2).length := List.length_filterMap_le _ _
    _ ≤ 2 := List.length_take_le 2 u

/-- No text that starts with another letter, possibly after a separator, goes on after a gap. -/
theorem Guarded.not_fits (h : Guarded sep c) (hy : y ≠ sep) (hguard : y ∉ guards c) {rest : List α}
    (hs : s = y :: rest ∨ s = sep :: y :: rest) : ¬Fits sep c s := by
  intro hfits
  match c, h, hguard, hfits with
  | [], _, _, hfits =>
    obtain rfl : s = [] := hfits
    simp at hs
  | ⟨some e, gap⟩ :: c, h, hguard, hfits =>
    obtain ⟨d, z, s', rfl, hd, hz, hrest⟩ := hfits
    obtain rfl : d = e := hd
    have hdy : d ≠ y := by
      rintro rfl
      simp [guards] at hguard
    have hsep : d = sep ∧ z ++ s' = y :: rest := by
      rcases hs with hs | hs
      · exact absurd (List.cons.inj hs).1 hdy
      · exact List.cons.inj hs
    obtain ⟨rfl, hnext⟩ := hsep
    match c, h, hguard, hrest with
    | [], h, _, hrest =>
      have hgap : gap = false := h.resolve_left fun h => h rfl
      obtain rfl : s' = [] := hrest
      obtain rfl : z = [] := by simpa [Extends, hgap] using hz
      cases hnext
    | ⟨next, _⟩ :: c, h, hguard, hrest =>
      obtain ⟨hgap, hnone, _⟩ := h.resolve_left fun h => h rfl
      obtain rfl : z = [] := by simpa [Extends, hgap] using hz
      obtain ⟨f, hf⟩ := Option.ne_none_iff_exists'.1 hnone
      subst hf
      obtain ⟨d', z', s'', rfl, hd', _, _⟩ := hrest
      obtain rfl : d' = f := hd'
      refine hguard ?_
      obtain rfl := (List.cons.inj hnext).1
      simp [guards]

/-! ## The texts determine the pattern -/

theorem letters_eq_of_forall₂ {d' : α} (hne : d ≠ d')
    (huv : List.Forall₂ (Accepts sep) v (shortest d u))
    (huv' : List.Forall₂ (Accepts sep) v (shortest d' u))
    (hvu : List.Forall₂ (Accepts sep) u (shortest d v))
    (hvu' : List.Forall₂ (Accepts sep) u (shortest d' v)) : u.map letter = v.map letter := by
  induction u generalizing v with
  | nil =>
    cases v with
    | nil => rfl
    | cons q v => cases huv
  | cons p u ih =>
    cases v with
    | nil => cases huv
    | cons q v =>
      obtain ⟨h₁, huv⟩ := List.forall₂_cons.1 huv
      obtain ⟨h₂, huv'⟩ := List.forall₂_cons.1 huv'
      obtain ⟨h₃, hvu⟩ := List.forall₂_cons.1 hvu
      obtain ⟨h₄, hvu'⟩ := List.forall₂_cons.1 hvu'
      have hletter : p.letter = q.letter := by
        cases hp : p.letter with
        | none =>
          cases hq : q.letter with
          | none => rfl
          | some f =>
            -- One letter cannot be both of the letters put at the open place.
            simp only [Accepts, hp, hq, Option.getD_none] at h₁ h₂
            exact absurd (h₁.trans h₂.symm) hne
        | some e =>
          cases hq : q.letter with
          | none =>
            simp only [Accepts, hp, hq, Option.getD_none] at h₃ h₄
            exact absurd (h₃.trans h₄.symm) hne
          | some f =>
            simp only [Accepts, hq, hp, Option.getD_some] at h₁
            rw [h₁]
      rw [List.map_cons, List.map_cons, hletter, ih huv huv' hvu hvu']

/-- Two patterns of which each fits the shortest texts of the other have equal letters. -/
theorem letters_eq {d' : α} (hne : d ≠ d')
    (huv : ∀ e, e = d ∨ e = d' → Fits sep v (shortest e u))
    (hvu : ∀ e, e = d ∨ e = d' → Fits sep u (shortest e v)) : u.map letter = v.map letter := by
  have hle := (huv d (.inl rfl)).length_le
  have hge := (hvu d (.inl rfl)).length_le
  rw [length_shortest] at hle hge
  have hv : ∀ e, e = d ∨ e = d' → List.Forall₂ (Accepts sep) v (shortest e u) :=
    fun e he => (huv e he).forall₂ (by rwa [length_shortest])
  have hu : ∀ e, e = d ∨ e = d' → List.Forall₂ (Accepts sep) u (shortest e v) :=
    fun e he => (hvu e he).forall₂ (by rwa [length_shortest])
  exact letters_eq_of_forall₂ hne (hv d (.inl rfl)) (hv d' (.inr rfl)) (hu d (.inl rfl))
    (hu d' (.inr rfl))

/-- Two patterns with equal letters differ last in a gap. -/
theorem exists_last_difference (h : u.map letter = v.map letter) (hne : u ≠ v) :
    ∃ u₁ v₁ t t' c, u = u₁ ++ t :: c ∧ v = v₁ ++ t' :: c ∧ u₁.map letter = v₁.map letter ∧
      t.letter = t'.letter ∧ t.gap ≠ t'.gap := by
  induction u generalizing v with
  | nil => simp_all
  | cons p u ih =>
    cases v with
    | nil => simp at h
    | cons q v =>
      obtain ⟨hletter, hrest⟩ := List.cons.inj h
      by_cases huv : u = v
      · subst huv
        refine ⟨[], [], p, q, u, rfl, rfl, rfl, hletter, fun hgap => hne ?_⟩
        obtain ⟨letter, gap⟩ := p
        obtain ⟨letter', gap'⟩ := q
        simp_all
      · obtain ⟨u₁, v₁, t, t', c, rfl, rfl, hfront, hrest⟩ := ih hrest huv
        refine ⟨p :: u₁, q :: v₁, t, t', c, rfl, rfl, ?_, hrest⟩
        rw [List.map_cons, List.map_cons, hletter, hfront]

/-- The last gap of a pattern. -/
theorem exists_last_gap (u : List (Place α)) :
    (∀ p ∈ u, p.gap = false) ∨
      ∃ u₁ p u₂, u = u₁ ++ p :: u₂ ∧ p.gap = true ∧ ∀ q ∈ u₂, q.gap = false := by
  induction u with
  | nil => exact .inl fun _ h => absurd h List.not_mem_nil
  | cons p u ih =>
    rcases ih with ih | ⟨u₁, q, u₂, rfl, hq, hu₂⟩
    · cases hp : p.gap with
      | false => exact .inl (List.forall_mem_cons.2 ⟨hp, ih⟩)
      | true => exact .inr ⟨[], p, u, rfl, hp, ih⟩
    · exact .inr ⟨p :: u₁, q, u₂, rfl, hq, hu₂⟩

theorem exists_suffix_of_append {a b l : List α} (h : l <:+ a ++ b) (hlen : b.length ≤ l.length) :
    ∃ a', a' <:+ a ∧ l = a' ++ b := by
  obtain ⟨a', rfl⟩ := List.suffix_of_suffix_length_le (List.suffix_append a b) h hlen
  exact ⟨a', List.suffix_append_self_iff.1 h, rfl⟩

/-- A text with a trail at its end does not fit a pattern without a gap that is as short. -/
theorem not_fits_of_trail_suffix [DecidableEq α] {k : ℕ} (hgap : ∀ p ∈ u, p.gap = false)
    (hlen : u.length < k) (hy : y ≠ sep) (hs : trail sep y k <:+ s) : ¬Fits sep u s := by
  intro hfits
  have hcount := hfits.count_le hgap
  have htrail := hs.sublist.count_le sep
  rw [count_trail hy] at htrail
  omega

/-- A pattern with a gap where another one with the same letters and the same rest has none: the
other does not fit every sample of it. -/
theorem not_fits_trail [DecidableEq α] {t' : Place α} (hu : Settled sep (u ++ t :: c))
    (hv : Settled sep (v ++ t' :: c)) (hlen : u.length = v.length) (ht : t.gap = true)
    (ht' : t'.gap = false) (hy : y ≠ sep) (hc : y ∉ guards c)
    (hlast : (∀ p ∈ v, p.gap = false) ∨ ∃ v₁ e v₂, v = v₁ ++ e :: v₂ ∧ e.gap = true ∧
      (∀ q ∈ v₂, q.gap = false) ∧ y ∉ guards (v₂ ++ t' :: c)) :
    ¬Fits sep (v ++ t' :: c) (shortest d u ++
      t.letter.getD d :: (trail sep y (v.length + 2) ++ shortest d c)) := by
  intro hfits
  generalize hk : v.length + 2 = k at hfits
  obtain ⟨front, back, htext, hfront, d', z, s', rfl, hd', hz, hrest⟩ := fits_append.1 hfits
  -- What is left for the common rest is its shortest text after an end of the trail.
  have hsuffix : s' <:+ trail sep y k ++ shortest d c := by
    have hle := hfront.length_le
    have hback : s' <:+ shortest d u ++ t.letter.getD d :: (trail sep y k ++ shortest d c) :=
      ⟨front ++ d' :: z, by rw [htext]; simp⟩
    refine List.suffix_of_suffix_length_le hback ?_ ?_
    · exact ⟨shortest d u ++ [t.letter.getD d], by simp⟩
    · have htotal := congrArg List.length htext
      simp only [List.length_append, List.length_cons, length_shortest] at htotal ⊢
      omega
  obtain ⟨left, hleft, rfl⟩ := exists_suffix_of_append hsuffix
    (by simpa using hrest.length_le)
  by_cases hnil : left = []
  · subst hnil
    -- Then the places up to `t'` take the whole trail, and those after the last gap its end.
    have htext : shortest d u ++ t.letter.getD d :: trail sep y k = front ++ d' :: z := by
      have := htext
      rw [← List.cons_append, ← List.append_assoc, List.nil_append, ← List.cons_append,
        ← List.append_assoc] at this
      exact List.append_cancel_right this
    have htrail : trail sep y k <:+ front ++ d' :: z :=
      htext ▸ ⟨shortest d u ++ [t.letter.getD d], by simp⟩
    have hlastFits : ∀ v₂ f₂, Fits sep v₂ f₂ → Fits sep (v₂ ++ [t']) (f₂ ++ d' :: z) :=
      fun v₂ f₂ h => fits_append.2 ⟨f₂, d' :: z, rfl, h, d', z, [], by simp, hd', hz, rfl⟩
    have hclosed : ∀ {v₂ : List (Place α)}, (∀ p ∈ v₂, p.gap = false) →
        ∀ p ∈ v₂ ++ [t'], p.gap = false := by
      intro v₂ hgap p hp
      rcases List.mem_append.1 hp with hp | hp
      · exact hgap p hp
      · rwa [List.mem_singleton.1 hp]
    rcases hlast with hgap | ⟨v₁, e, v₂, rfl, he, hgap, hguard⟩
    · refine not_fits_of_trail_suffix (hclosed hgap) ?_ hy htrail (hlastFits v front hfront)
      simp only [List.length_append, List.length_singleton]
      omega
    · rw [List.append_cons] at hfront
      obtain ⟨f₁, f₂, rfl, _, hf₂⟩ := fits_append.1 hfront
      have hback : f₂ ++ d' :: z <:+ f₁ ++ f₂ ++ d' :: z := ⟨f₁, by simp⟩
      by_cases hle : (trail sep y k).length ≤ (f₂ ++ d' :: z).length
      · have hs := List.suffix_of_suffix_length_le htrail hback hle
        refine not_fits_of_trail_suffix (hclosed hgap) ?_ hy hs (hlastFits v₂ f₂ hf₂)
        simp only [List.length_append, List.length_cons, List.length_nil] at hk ⊢
        omega
      · have hs := List.suffix_of_suffix_length_le hback htrail (by omega)
        obtain ⟨rest, hstart⟩ := starts_of_suffix_trail hs (by simp)
        have hguarded : Guarded sep (v₂ ++ t' :: c) := by
          rw [List.append_assoc, List.cons_append] at hv
          exact hv.guarded he
        have hshape : f₂ ++ d' :: z ++ shortest d c = y :: (rest ++ shortest d c) ∨
            f₂ ++ d' :: z ++ shortest d c = sep :: y :: (rest ++ shortest d c) := by
          rcases hstart with hstart | hstart <;> rw [hstart]
          · exact .inl rfl
          · exact .inr rfl
        refine hguarded.not_fits hy hguard hshape ?_
        · refine fits_append.2 ⟨f₂, d' :: (z ++ shortest d c), by simp, hf₂, d', z, _, rfl, hd', hz, ?_⟩
          exact hrest
  · obtain ⟨rest, hstart⟩ := starts_of_suffix_trail hleft hnil
    have hshape : left ++ shortest d c = y :: (rest ++ shortest d c) ∨
        left ++ shortest d c = sep :: y :: (rest ++ shortest d c) := by
      rcases hstart with rfl | rfl
      · exact .inl rfl
      · exact .inr rfl
    exact (hu.guarded ht).not_fits hy hc hshape hrest

/-- A letter that guards neither the rest `c` nor what follows the last gap of `v`. -/
theorem exists_guard (hfresh : ∀ l : List α, l.length ≤ 4 → ∃ y, good y ∧ y ∉ l)
    (v w c : List (Place α)) :
    ∃ y, good y ∧ y ∉ guards c ∧ ((∀ p ∈ v, p.gap = false) ∨ ∃ v₁ e v₂, v = v₁ ++ e :: v₂ ∧
      e.gap = true ∧ (∀ q ∈ v₂, q.gap = false) ∧ y ∉ guards (v₂ ++ w)) := by
  have hc := length_guards_le c
  rcases exists_last_gap v with hgap | ⟨v₁, e, v₂, rfl, he, hgap⟩
  · obtain ⟨y, hy, hmem⟩ := hfresh (guards c) (by omega)
    exact ⟨y, hy, hmem, .inl hgap⟩
  · have hw := length_guards_le (v₂ ++ w)
    obtain ⟨y, hy, hmem⟩ := hfresh (guards c ++ guards (v₂ ++ w))
      (by rw [List.length_append]; omega)
    rw [List.mem_append, not_or] at hmem
    exact ⟨y, hy, hmem.1, .inr ⟨v₁, e, v₂, rfl, he, hgap, hmem.2⟩⟩

/-- **The texts of a pattern determine it**, where each gap is followed by a letter. -/
theorem eq_of_samples [DecidableEq α] (hgood : ∀ d, good d → d ≠ sep)
    (hfresh : ∀ l : List α, l.length ≤ 4 → ∃ y, good y ∧ y ∉ l) (hu : Settled sep u)
    (hv : Settled sep v) (huv : ∀ s, Sample sep good u s → Fits sep v s)
    (hvu : ∀ s, Sample sep good v s → Fits sep u s) : u = v := by
  obtain ⟨d, hd, -⟩ := hfresh [] (by simp)
  obtain ⟨d', hd', hne⟩ := hfresh [d] (by simp)
  have hd₂ : ∀ e, e = d ∨ e = d' → good e := by
    rintro e (rfl | rfl)
    · exact hd
    · exact hd'
  have hletters : u.map letter = v.map letter :=
    letters_eq (fun h => hne (List.mem_singleton.2 h.symm))
      (fun e he => huv _ (sample_shortest (hd₂ e he) u))
      (fun e he => hvu _ (sample_shortest (hd₂ e he) v))
  by_contra huv'
  obtain ⟨u₁, v₁, t, t', c, rfl, rfl, hfront, hletter, hgap⟩ :=
    exists_last_difference hletters huv'
  have hlen : u₁.length = v₁.length := by simpa using congrArg List.length hfront
  cases ht : t.gap with
  | true =>
    have ht' : t'.gap = false := by simpa [ht] using hgap
    obtain ⟨y, hy, hc, hlast⟩ := exists_guard hfresh v₁ (t' :: c) c
    exact not_fits_trail hu hv hlen ht ht' (hgood y hy) hc hlast
      (huv _ (sample_trail hd hy ht _ u₁ c))
  | false =>
    have ht' : t'.gap = true := by simpa [ht] using hgap
    obtain ⟨y, hy, hc, hlast⟩ := exists_guard hfresh u₁ (t :: c) c
    exact not_fits_trail hv hu hlen.symm ht' ht (hgood y hy) hc hlast
      (hvu _ (sample_trail hd hy ht' _ v₁ c))

end Place

end Kinglet.Library
