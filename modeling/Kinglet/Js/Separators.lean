import Kinglet.Js.Text
import Mathlib.Data.List.Chain
import Mathlib.Data.List.Forall2

/-!
# Texts with separators

What is joined by a separator comes apart again at the separator, when no part contains it. The same for
`split` with a pair of equal code units, of which no three stand together.
-/

namespace Kinglet.Js

/-! ## The last separator -/

theorem idxOf?_append_cons {u : UInt16} {front back : JsString} (h : u ∉ front) :
    (front ++ u :: back).idxOf? u = some front.length := by
  induction front with
  | nil => simp [List.idxOf?_cons]
  | cons v front ih =>
    rw [List.mem_cons, not_or] at h
    simp [List.idxOf?_cons, ih h.2, Ne.symm h.1]

theorem cutLast_append {text last : JsString} {u : UInt16} (h : u ∉ last) :
    cutLast u (text ++ u :: last) = some (text, last) := by
  have hindex : (last.reverse ++ u :: text.reverse).idxOf? u = some last.reverse.length :=
    idxOf?_append_cons (by simpa using h)
  have hdrop : (last.reverse ++ u :: text.reverse).drop (last.reverse.length + 1) = text.reverse := by
    rw [← List.drop_drop, List.drop_left']
    · rfl
    · rfl
  simp only [cutLast, cut, List.reverse_append, List.reverse_cons, List.append_assoc,
    List.singleton_append, hindex, hdrop, List.take_left', List.reverse_reverse]

theorem eq_of_cutLast {text front last : JsString} {u : UInt16} (h : cutLast u text = some (front, last)) :
    text = front ++ u :: last ∧ u ∉ last := by
  by_cases hu : u ∈ text
  · obtain ⟨back, start, hreverse, hback⟩ := List.eq_append_cons_of_mem (List.mem_reverse.2 hu)
    have htext : text = start.reverse ++ u :: back.reverse := by
      rw [← List.reverse_reverse text, hreverse]
      simp
    have hlast : u ∉ back.reverse := by simpa using hback
    rw [htext, cutLast_append hlast] at h
    obtain ⟨rfl, rfl⟩ := Prod.mk.inj (Option.some.inj h)
    exact ⟨htext, hlast⟩
  · have hnone : text.reverse.idxOf? u = none := by simpa [List.idxOf?_eq_none_iff] using hu
    simp [cutLast, cut, hnone] at h

/-! ## Parts between separators -/

theorem splitUnit_join {u : UInt16} {parts : List JsString} (hparts : ∀ part ∈ parts, u ∉ part)
    (hne : parts ≠ []) : splitUnit u (join [u] parts) = parts :=
  List.splitOn_intercalate u hparts hne

/-- What a text is split into is without the separator. -/
theorem notMem_of_mem_splitUnit {u : UInt16} {text part : JsString} (h : part ∈ splitUnit u text) :
    u ∉ part := by
  induction text generalizing part with
  | nil =>
    obtain rfl : part = [] := by simpa [splitUnit] using h
    exact List.not_mem_nil
  | cons v text ih =>
    rw [splitUnit, List.splitOn_cons_eq_if_modifyHead] at h
    split at h
    · rcases List.mem_cons.1 h with rfl | hpart
      · exact List.not_mem_nil
      · exact ih hpart
    · next hne =>
        obtain ⟨first, rest, hsplit⟩ : ∃ first rest, splitUnit u text = first :: rest :=
          List.exists_cons_of_ne_nil (List.splitOn_ne_nil u text)
        rw [splitUnit] at hsplit
        rw [hsplit, List.modifyHead_cons] at h
        rw [splitUnit, hsplit] at ih
        rcases List.mem_cons.1 h with rfl | hpart
        · simp only [List.mem_cons, not_or]
          exact ⟨fun heq => hne (beq_iff_eq.2 heq.symm), ih List.mem_cons_self⟩
        · exact ih (List.mem_cons_of_mem _ hpart)

theorem join_cons_cons (separator first second : JsString) (rest : List JsString) :
    join separator (first :: second :: rest) =
      first ++ (separator ++ join separator (second :: rest)) := by
  simp [join]

/-- In a joined text, the units are those of the parts and of the separator. -/
theorem mem_join {separator : JsString} {parts : List JsString} {u : UInt16}
    (h : u ∈ join separator parts) : u ∈ separator ∨ ∃ part ∈ parts, u ∈ part := by
  induction parts with
  | nil => cases h
  | cons first parts ih =>
    cases parts with
    | nil => exact .inr ⟨first, List.mem_singleton_self _, by simpa [join] using h⟩
    | cons second rest =>
      rw [join_cons_cons, List.mem_append, List.mem_append] at h
      rcases h with hfirst | hseparator | hrest
      · exact .inr ⟨first, List.mem_cons_self, hfirst⟩
      · exact .inl hseparator
      · rcases ih hrest with hseparator | ⟨part, hpart, hu⟩
        · exact .inl hseparator
        · exact .inr ⟨part, List.mem_cons_of_mem _ hpart, hu⟩

/-- The two lists of parts agree up to a part of `b` that is the one of `a`, the separator and more, and
the rest of `a` reads like that more and the rest of `b`. -/
def Swallows (u : UInt16) (a b : List JsString) : Prop :=
  ∃ front part more rest rest', a = front ++ part :: rest ∧ b = front ++ (part ++ u :: more) :: rest' ∧
    rest ≠ [] ∧ join [u] rest = join [u] (more :: rest')

theorem Swallows.cons {u : UInt16} {a b : List JsString} (part : JsString) (h : Swallows u a b) :
    Swallows u (part :: a) (part :: b) := by
  obtain ⟨front, x, more, rest, rest', rfl, rfl, hrest⟩ := h
  exact ⟨part :: front, x, more, rest, rest', rfl, rfl, hrest⟩

theorem Swallows.ne {u : UInt16} {a b : List JsString} (h : Swallows u a b) : a ≠ b := by
  obtain ⟨front, x, more, rest, rest', rfl, rfl, -⟩ := h
  intro hsame
  have hpart := (List.cons.inj (List.append_cancel_left hsame)).1
  exact absurd (List.append_right_eq_self.1 hpart.symm) (List.cons_ne_nil _ _)

theorem join_cons (u : UInt16) (first : JsString) {parts : List JsString} (h : parts ≠ []) :
    join [u] (first :: parts) = first ++ u :: join [u] parts := by
  obtain ⟨second, rest, rfl⟩ := List.exists_cons_of_ne_nil h
  exact join_cons_cons [u] first second rest

/-- A part that contains the separator is read as two. -/
theorem join_append_cons (u : UInt16) (part more : JsString) (rest : List JsString) :
    join [u] ((part ++ u :: more) :: rest) = part ++ u :: join [u] (more :: rest) := by
  cases rest with
  | nil => simp [join]
  | cons second rest => simp [join_cons_cons]

theorem Swallows.join_eq {u : UInt16} {a b : List JsString} (h : Swallows u a b) :
    join [u] a = join [u] b := by
  obtain ⟨front, part, more, rest, rest', rfl, rfl, hne, hrest⟩ := h
  induction front with
  | nil => rw [List.nil_append, List.nil_append, join_cons u part hne, hrest, join_append_cons]
  | cons first front ih =>
    rw [List.cons_append, List.cons_append, join_cons u first (by simp), ih,
      ← join_cons u first (by simp)]

/-- Where two joined texts go on after a common part: both at a separator, or one within its part. -/
theorem swallows_of_append {u : UInt16} {part more : JsString} {rest rest' : List JsString}
    (hne : rest ≠ []) (hne' : rest' ≠ []) (h : u :: join [u] rest = more ++ u :: join [u] rest') :
    (more = [] ∧ join [u] rest = join [u] rest') ∨
      Swallows u (part :: rest) ((part ++ more) :: rest') := by
  cases more with
  | nil => exact .inl ⟨rfl, (List.cons.inj h).2⟩
  | cons v more =>
    obtain ⟨rfl, hsame⟩ := List.cons.inj h
    have hread : join [u] rest = join [u] (more :: rest') := by
      rw [join_cons u more hne']
      exact hsame
    exact .inr ⟨[], part, more, rest, rest', rfl, rfl, hne, hread⟩

/-- Two lists of as many parts that are joined to one text are the same, or one swallows the other. -/
theorem swallows_of_join_eq {u : UInt16} {a b : List JsString} (hlength : a.length = b.length)
    (h : join [u] a = join [u] b) : a = b ∨ Swallows u a b ∨ Swallows u b a := by
  induction a generalizing b with
  | nil => exact .inl (List.length_eq_zero_iff.1 hlength.symm).symm
  | cons x rest ih =>
    obtain ⟨y, rest', rfl⟩ := List.exists_cons_of_length_pos (l := b) (by simp [← hlength])
    have hrest : rest.length = rest'.length := by simpa using hlength
    rcases eq_or_ne rest [] with rfl | hne
    · obtain rfl := List.length_eq_zero_iff.1 hrest.symm
      exact .inl (by simpa [join] using h)
    · have hne' : rest' ≠ [] := by
        intro hnil
        exact hne (by simpa [hnil] using hrest)
      have hsplit : x ++ u :: join [u] rest = y ++ u :: join [u] rest' := by
        rw [← join_cons u x hne, ← join_cons u y hne', h]
      have htail (hsame : join [u] rest = join [u] rest') (part : JsString) :
          part :: rest = part :: rest' ∨ Swallows u (part :: rest) (part :: rest') ∨
            Swallows u (part :: rest') (part :: rest) :=
        (ih hrest hsame).imp (congrArg _) (Or.imp (.cons part) (.cons part))
      rcases List.append_eq_append_iff.1 hsplit with ⟨more, rfl, hmore⟩ | ⟨more, rfl, hmore⟩
      · rcases @swallows_of_append u x more rest rest' hne hne' hmore with ⟨rfl, hsame⟩ | hswallows
        · rw [List.append_nil]
          exact htail hsame x
        · exact .inr (.inl hswallows)
      · rcases @swallows_of_append u y more rest' rest hne' hne hmore with ⟨rfl, hsame⟩ | hswallows
        · rw [List.append_nil]
          exact htail hsame.symm y
        · exact .inr (.inr hswallows)

/-- When a joined text determines its parts. -/
theorem join_injective_iff {u : UInt16} {a b : List JsString} (hlength : a.length = b.length) :
    (join [u] a = join [u] b → a = b) ↔ ¬ Swallows u a b ∧ ¬ Swallows u b a := by
  constructor
  · intro h
    exact ⟨fun hswallows => hswallows.ne (h hswallows.join_eq),
      fun hswallows => hswallows.ne (h hswallows.join_eq.symm).symm⟩
  · rintro ⟨hleft, hright⟩ hjoin
    rcases swallows_of_join_eq hlength hjoin with heq | hswallows | hswallows
    · exact heq
    · exact absurd hswallows hleft
    · exact absurd hswallows hright

/-- Parts that are read one by one, each of which has to be readable. -/
theorem mapM_eq_some {α β : Type*} {f : α → Option β} {xs : List α} {ys : List β} :
    xs.mapM f = some ys ↔ List.Forall₂ (fun x y => f x = some y) xs ys := by
  induction xs generalizing ys with
  | nil => simp [eq_comm]
  | cons x xs ih =>
    rw [List.mapM_cons]
    cases hx : f x with
    | none =>
      refine ⟨(nomatch ·), fun h => ?_⟩
      obtain ⟨y, ys, hy, -, rfl⟩ := List.forall₂_cons_left_iff.1 h
      exact nomatch hx.symm.trans hy
    | some y =>
      cases hxs : xs.mapM f with
      | none =>
        refine ⟨(nomatch ·), fun h => ?_⟩
        obtain ⟨_, ys, -, hys, rfl⟩ := List.forall₂_cons_left_iff.1 h
        exact nomatch hxs.symm.trans (ih.2 hys)
      | some rest =>
        have hrest : List.Forall₂ (fun x y => f x = some y) xs rest := ih.1 hxs
        constructor
        · intro h
          obtain rfl := Option.some.inj h
          exact .cons hx hrest
        · intro h
          obtain ⟨y', ys', hy, hys, rfl⟩ := List.forall₂_cons_left_iff.1 h
          obtain rfl := Option.some.inj (hx.symm.trans hy)
          obtain rfl := Option.some.inj (hxs.symm.trans (ih.2 hys))
          rfl

theorem exists_of_forall₂ {α β : Type*} {R : α → β → Prop} {xs : List α} {ys : List β}
    (h : List.Forall₂ R xs ys) :
    (∀ x ∈ xs, ∃ y ∈ ys, R x y) ∧ ∀ y ∈ ys, ∃ x ∈ xs, R x y := by
  induction h with
  | nil => simp
  | cons hxy _ ih =>
    refine ⟨fun x hx => ?_, fun y hy => ?_⟩
    · rcases List.mem_cons.1 hx with rfl | hx
      · exact ⟨_, List.mem_cons_self, hxy⟩
      · obtain ⟨y, hy, hR⟩ := ih.1 x hx
        exact ⟨y, List.mem_cons_of_mem _ hy, hR⟩
    · rcases List.mem_cons.1 hy with rfl | hy
      · exact ⟨_, List.mem_cons_self, hxy⟩
      · obtain ⟨x, hx, hR⟩ := ih.2 y hy
        exact ⟨x, List.mem_cons_of_mem _ hx, hR⟩

/-! ## Pairs -/

/-- No two units `u` stand together. -/
def NoPair (u : UInt16) (text : JsString) : Prop := text.IsChain fun x y => ¬(x = u ∧ y = u)

/-- No two units `u` stand together, and none at an end. -/
structure Spaced (u : UInt16) (text : JsString) : Prop where
  noPair : NoPair u text
  front : text.head? ≠ some u
  back : text.getLast? ≠ some u

variable {u : UInt16} {text : JsString}

theorem noPair_of_notMem (h : u ∉ text) : NoPair u text := by
  induction text with
  | nil => exact List.IsChain.nil
  | cons v text ih =>
    rw [List.mem_cons, not_or] at h
    exact List.isChain_cons.2 ⟨fun _ _ hboth => h.1 hboth.1.symm, ih h.2⟩

theorem spaced_of_notMem (h : u ∉ text) : Spaced u text where
  noPair := noPair_of_notMem h
  front hfront := h (List.mem_of_mem_head? hfront)
  back hback := h (List.mem_of_mem_getLast? hback)

theorem spaced_join {parts : List JsString} (hparts : ∀ part ∈ parts, u ∉ part ∧ part ≠ []) :
    Spaced u (join [u] parts) ∧ (parts ≠ [] → join [u] parts ≠ []) := by
  induction parts with
  | nil => exact ⟨spaced_of_notMem List.not_mem_nil, fun h => absurd rfl h⟩
  | cons first parts ih =>
    obtain ⟨⟨hfirst, hne⟩, hrest⟩ := List.forall_mem_cons.1 hparts
    cases parts with
    | nil =>
      have hsingle : join [u] [first] = first := by simp [join]
      rw [hsingle]
      exact ⟨spaced_of_notMem hfirst, fun _ => hne⟩
    | cons second rest =>
      obtain ⟨hspaced, hnonempty⟩ := ih hrest
      have hnext : join [u] (second :: rest) ≠ [] := hnonempty (List.cons_ne_nil _ _)
      have hstart : Spaced u first := spaced_of_notMem hfirst
      rw [join_cons_cons, List.singleton_append]
      refine ⟨⟨List.isChain_append.2 ⟨hstart.noPair, List.isChain_cons.2 ⟨?_, hspaced.noPair⟩, ?_⟩,
        ?_, ?_⟩, fun _ => by simp⟩
      · intro y hy hboth
        exact hspaced.front (hboth.2 ▸ hy)
      · intro x hx y _ hboth
        exact hstart.back (hboth.1 ▸ hx)
      · rw [List.head?_append_of_ne_nil _ hne]
        exact hstart.front
      · rw [List.getLast?_append_of_ne_nil _ (List.cons_ne_nil _ _), List.getLast?_cons_of_ne_nil hnext]
        exact hspaced.back

theorem splitPair_of_noPair (h : NoPair u text) : splitPair u text = [text] := by
  induction text with
  | nil => rfl
  | cons v text ih =>
    cases text with
    | nil => rfl
    | cons w rest =>
      obtain ⟨hpair, hrest⟩ := List.isChain_cons_cons.1 h
      rw [splitPair, if_neg hpair, ih hrest]

theorem splitPair_append {front back : JsString} (h : NoPair u front) (hback : front.getLast? ≠ some u) :
    splitPair u (front ++ u :: u :: back) = front :: splitPair u back := by
  induction front with
  | nil => simp [splitPair]
  | cons v front ih =>
    cases front with
    | nil =>
      have hne : v ≠ u := fun hv => hback (by simp [hv])
      simp [splitPair, hne]
    | cons w rest =>
      obtain ⟨hpair, hrest⟩ := List.isChain_cons_cons.1 h
      rw [List.getLast?_cons_cons] at hback
      have hih := ih hrest hback
      rw [List.cons_append] at hih
      rw [List.cons_append, List.cons_append, splitPair, if_neg hpair, hih]

theorem join_splitPair (u : UInt16) (text : JsString) :
    splitPair u text ≠ [] ∧ join [u, u] (splitPair u text) = text := by
  induction text using splitPair.induct u with
  | case1 => exact ⟨List.cons_ne_nil _ _, rfl⟩
  | case2 v => exact ⟨List.cons_ne_nil _ _, by simp [splitPair, join]⟩
  | case3 v w rest hpair ih =>
    obtain ⟨rfl, rfl⟩ := hpair
    obtain ⟨first, others, hsplit⟩ := List.exists_cons_of_ne_nil ih.1
    rw [splitPair, if_pos ⟨rfl, rfl⟩, hsplit, join_cons_cons, ← hsplit, ih.2]
    exact ⟨List.cons_ne_nil _ _, rfl⟩
  | case4 v w rest hpair hnil ih => exact absurd hnil ih.1
  | case5 v w rest hpair first others hsplit ih =>
    rw [splitPair, if_neg hpair, hsplit]
    refine ⟨List.cons_ne_nil _ _, ?_⟩
    rw [hsplit] at ih
    cases others with
    | nil =>
      have hsame : first = w :: rest := by simpa [join] using ih.2
      simp [join, hsame]
    | cons second others =>
      rw [join_cons_cons] at ih ⊢
      rw [List.cons_append, ih.2]

/-- Three units `u` in a row. -/
theorem includes_cons (v : UInt16) (text search : JsString) :
    includes (v :: text) search = (search.isPrefixOf (v :: text) || includes text search) := by
  simp [includes]

theorem not_includes_triple_of_noPair (h : NoPair u text) : includes text [u, u, u] = false := by
  induction text with
  | nil => rfl
  | cons v text ih =>
    rw [includes_cons, ih (List.isChain_cons.1 h).2, Bool.or_false]
    cases text with
    | nil => simp [List.isPrefixOf]
    | cons w rest =>
      have hpair := (List.isChain_cons_cons.1 h).1
      simp only [List.isPrefixOf, Bool.and_eq_false_iff, beq_eq_false_iff_ne]
      by_cases hv : u = v
      · exact .inr (.inl fun hw => hpair ⟨hv.symm, hw.symm⟩)
      · exact .inl hv

theorem not_includes_triple {front back : JsString} (h : NoPair u front)
    (hfront : front.getLast? ≠ some u) (hback : NoPair u back) (hnext : back.head? ≠ some u) :
    includes (front ++ u :: u :: back) [u, u, u] = false := by
  induction front with
  | nil =>
    have hrest : includes (u :: back) [u, u, u] = false := by
      refine not_includes_triple_of_noPair (List.isChain_cons.2 ⟨fun y hy hboth => ?_, hback⟩)
      exact hnext (hboth.2 ▸ hy)
    rw [List.nil_append, includes_cons, hrest, Bool.or_false]
    cases back with
    | nil => simp
    | cons v rest =>
      have hne : u ≠ v := fun hv => hnext (by rw [hv]; rfl)
      simp [List.isPrefixOf, hne]
  | cons v front ih =>
    have hrest : includes (front ++ u :: u :: back) [u, u, u] = false := by
      cases front with
      | nil => exact ih List.IsChain.nil (by simp)
      | cons w rest =>
        rw [List.getLast?_cons_cons] at hfront
        exact ih (List.isChain_cons_cons.1 h).2 hfront
    rw [List.cons_append, includes_cons, hrest, Bool.or_false]
    cases front with
    | nil =>
      have hne : u ≠ v := fun hv => hfront (by simp [hv])
      simp [List.isPrefixOf, hne]
    | cons w rest =>
      have hpair := (List.isChain_cons_cons.1 h).1
      simp only [List.cons_append, List.isPrefixOf, Bool.and_eq_false_iff, beq_eq_false_iff_ne]
      by_cases hv : u = v
      · exact .inr (.inl fun hw => hpair ⟨hv.symm, hw.symm⟩)
      · exact .inl hv

end Kinglet.Js
