import Kinglet.Workflows.Engine
import Kinglet.Workflows.Lexing

/-!
# Escaped dollar signs

A template is an expression if it is `${…}` as a whole, with braces that match outside of string
literals (`BracesMatch`); any other template is its text, with `$$` read as `$`
(`evaluateTemplate_eq`). Escaped dollar signs pass through a sentinel; templates in which that stands
already are left out.
-/

namespace Kinglet.Workflows

open Js

/-! ## Pairs of dollar signs -/

/-- Every pair of dollar signs replaced, from the left. -/
def replacePairs (replacement : JsString) : JsString → JsString
  | [] => []
  | [u] => [u]
  | u :: v :: rest =>
      if u = unit '$' ∧ v = unit '$' then replacement ++ replacePairs replacement rest
      else u :: replacePairs replacement (v :: rest)

/-- A template as text: `$$` is `$`. -/
def unescapeDollars (template : JsString) : JsString := replacePairs [unit '$'] template

/-- A text with every `$` doubled. -/
def doubleDollars (text : JsString) : JsString :=
  text.flatMap fun u => if u = unit '$' then [u, u] else [u]

variable {replacement : JsString}

/-- What has been read is left out. -/
theorem replaceFrom_skip (pattern replacement read rest : JsString) :
    replaceFrom pattern replacement read.length (read ++ rest) =
      replaceFrom pattern replacement 0 rest := by
  induction read with
  | nil => rfl
  | cons u read ih => exact ih

theorem isPrefixOf_pair (u v : UInt16) (rest : JsString) :
    (js "$$").isPrefixOf (u :: v :: rest) = true ↔ u = unit '$' ∧ v = unit '$' := by
  rw [List.isPrefixOf_iff_prefix, show js "$$" = [unit '$', unit '$'] from rfl, List.cons_prefix_cons,
    List.cons_prefix_cons]
  simp [eq_comm]

theorem replaceFrom_pairs (t : JsString) :
    replaceFrom "$$" replacement 0 t = replacePairs replacement t := by
  fun_induction replacePairs replacement t with
  | case1 => rfl
  | case2 u =>
    rw [replaceFrom, if_neg]
    · rfl
    · rw [List.isPrefixOf_iff_prefix]
      intro hstart
      have hlength : (js "$$").length ≤ 1 := hstart.length_le
      exact absurd hlength (by decide)
  | case3 u v rest hpair ih =>
    rw [replaceFrom, if_pos ((isPrefixOf_pair u v rest).2 hpair), ← ih,
      ← replaceFrom_skip "$$" replacement [v] rest]
    rfl
  | case4 u v rest hpair ih =>
    rw [replaceFrom, if_neg fun h => hpair ((isPrefixOf_pair u v rest).1 h), ← ih]

theorem replacePairs_cons {u : UInt16} (h : u ≠ unit '$') (rest : JsString) :
    replacePairs replacement (u :: rest) = u :: replacePairs replacement rest := by
  cases rest with
  | nil => rfl
  | cons v rest => rw [replacePairs, if_neg fun hpair => h hpair.1]

/-- A code unit behind a text, which pairs with nothing. -/
theorem replacePairs_concat {u : UInt16} (h : u ≠ unit '$') (t : JsString) :
    replacePairs replacement (t ++ [u]) = replacePairs replacement t ++ [u] := by
  fun_induction replacePairs replacement t with
  | case1 => rfl
  | case2 v => rw [List.singleton_append, replacePairs, if_neg fun hpair => h hpair.2]; rfl
  | case3 v w rest hpair ih =>
    rw [List.cons_append, List.cons_append, replacePairs, if_pos hpair, ih, List.append_assoc]
  | case4 v w rest hpair ih =>
    rw [List.cons_append, List.cons_append, replacePairs, if_neg hpair, ← List.cons_append, ih]
    rfl

/-- Doubled dollar signs are pairs. -/
theorem replacePairs_double (text : JsString) :
    replacePairs replacement (doubleDollars text) =
      text.flatMap fun u => if u = unit '$' then replacement else [u] := by
  induction text with
  | nil => rfl
  | cons u text ih =>
    simp only [doubleDollars, List.flatMap_cons] at ih ⊢
    by_cases hu : u = unit '$'
    · rw [if_pos hu, if_pos hu, List.cons_append, List.singleton_append, replacePairs,
        if_pos ⟨hu, hu⟩, ih]
    · rw [if_neg hu, if_neg hu, List.singleton_append, replacePairs_cons hu, ih]
      rfl

theorem unescapeDollars_double (text : JsString) : unescapeDollars (doubleDollars text) = text := by
  rw [unescapeDollars, replacePairs_double]
  induction text with
  | nil => rfl
  | cons u text ih =>
    rw [List.flatMap_cons, ih]
    split
    · rename_i hu
      rw [hu]
      rfl
    · rfl

/-! ## The sentinel -/

/-- What comes first in the sentinel, without its end. -/
def sentinelStart : JsString := 0 :: js "DOLLAR"

/-- The start of the sentinel stands in the template, with its end or a pair behind it, which becomes a
sentinel itself. -/
def MeetsSentinel (template : JsString) : Prop :=
  sentinelStart ++ [0] <:+: template ∨ sentinelStart ++ [unit '$', unit '$'] <:+: template

theorem MeetsSentinel.cons {u : UInt16} {rest : JsString} (h : MeetsSentinel rest) :
    MeetsSentinel (u :: rest) :=
  h.imp (List.infix_cons ·) (List.infix_cons ·)

/-- A text whose pairs have become sentinels starts as the text does, unless with a sentinel. -/
theorem replacePairs_eq_cons {u : UInt16} {t tail : JsString} (hu : u ≠ 0) (hdollar : u ≠ unit '$')
    (h : replacePairs dollarSentinel t = u :: tail) :
    ∃ rest, t = u :: rest ∧ replacePairs dollarSentinel rest = tail := by
  match t with
  | [] => cases h
  | [v] =>
    cases h
    exact ⟨[], rfl, rfl⟩
  | v :: w :: rest =>
    rw [replacePairs] at h
    by_cases hpair : v = unit '$' ∧ w = unit '$'
    · rw [if_pos hpair] at h
      have hzero : (0 : UInt16) = u := (List.cons.inj h).1
      exact absurd hzero.symm hu
    · rw [if_neg hpair] at h
      obtain ⟨rfl, htail⟩ := List.cons.inj h
      exact ⟨w :: rest, rfl, htail⟩

theorem prefix_replacePairs {letters t tail : JsString}
    (hletters : ∀ u ∈ letters, u ≠ 0 ∧ u ≠ unit '$')
    (h : replacePairs dollarSentinel t = letters ++ tail) :
    ∃ rest, t = letters ++ rest ∧ replacePairs dollarSentinel rest = tail := by
  induction letters generalizing t with
  | nil => exact ⟨t, rfl, h⟩
  | cons u letters ih =>
    obtain ⟨⟨hzero, hdollar⟩, hletters⟩ := List.forall_mem_cons.1 hletters
    obtain ⟨rest, rfl, hrest⟩ := replacePairs_eq_cons hzero hdollar h
    obtain ⟨rest, rfl, htail⟩ := ih hletters hrest
    exact ⟨rest, rfl, htail⟩

theorem letters_sentinel : ∀ u ∈ js "DOLLAR", u ≠ 0 ∧ u ≠ unit '$' := by
  have hall : (js "DOLLAR").all fun u => u ≠ 0 && u ≠ unit '$' := by decide
  intro u hu
  simpa using List.all_eq_true.1 hall u hu

/-- Only what meets the sentinel has one that was no pair. -/
theorem meetsSentinel_of_start {u : UInt16} {t : JsString}
    (h : dollarSentinel <+: u :: replacePairs dollarSentinel t) : MeetsSentinel (u :: t) := by
  obtain ⟨tail, htail⟩ := h
  have hsentinel : dollarSentinel ++ tail = 0 :: (js "DOLLAR" ++ (0 :: tail)) := rfl
  rw [hsentinel] at htail
  obtain ⟨rfl, hrest⟩ := List.cons.inj htail
  obtain ⟨rest, rfl, hend⟩ := prefix_replacePairs letters_sentinel hrest.symm
  match rest with
  | [] => cases hend
  | [v] =>
    have hv : v = 0 := (List.cons.inj hend).1
    rw [hv]
    exact .inl ⟨[], [], rfl⟩
  | v :: w :: rest =>
    rw [replacePairs] at hend
    by_cases hpair : v = unit '$' ∧ w = unit '$'
    · obtain ⟨rfl, rfl⟩ := hpair
      exact .inr ⟨[], rest, rfl⟩
    · rw [if_neg hpair] at hend
      have hv : v = 0 := (List.cons.inj hend).1
      rw [hv]
      exact .inl ⟨[], w :: rest, rfl⟩

/-- The dollar signs are restored. -/
theorem restoreDollar_escape {t : JsString} (ht : ¬ MeetsSentinel t) :
    restoreDollar (replacePairs dollarSentinel t) = unescapeDollars t := by
  rw [restoreDollar, unescapeDollars]
  fun_induction replacePairs [unit '$'] t with
  | case1 => rfl
  | case2 u =>
    rw [replacePairs, replaceFrom, if_neg]
    · rfl
    · rw [List.isPrefixOf_iff_prefix]
      intro hstart
      have hlength : dollarSentinel.length ≤ 1 := hstart.length_le
      exact absurd hlength (by decide)
  | case3 u v rest hpair ih =>
    obtain ⟨rfl, rfl⟩ := hpair
    have hrest := ih fun h => ht h.cons.cons
    rw [replacePairs, if_pos ⟨rfl, rfl⟩, ← hrest]
    rw [← replaceFrom_skip dollarSentinel "$" (js "DOLLAR" ++ [0]) (replacePairs dollarSentinel rest)]
    rfl
  | case4 u v rest hpair ih =>
    rw [replacePairs, if_neg hpair, replaceFrom, if_neg, ih fun h => ht h.cons]
    rw [List.isPrefixOf_iff_prefix]
    exact fun h => ht (meetsSentinel_of_start h)

/-! ## Braces -/

/-- Where a reader of an expression is: outside of string literals or inside of one, within so many
braces. -/
inductive Place
  | outside (depth : ℕ)
  | inside (depth : ℕ) (quote : UInt16)
  /-- After a backslash. -/
  | escaped (depth : ℕ) (quote : UInt16)
  deriving DecidableEq

/-- A code unit is read, unless it is a closing brace without an opening one. -/
def Place.read : Place → UInt16 → Option Place
  | .escaped depth quote, _ => some (.inside depth quote)
  | .inside depth quote, u =>
      some (if u = unit '\\' then .escaped depth quote
        else if u = quote then .outside depth else .inside depth quote)
  | .outside depth, u =>
      if isQuote u then some (.inside depth u)
      else if u = 0x7B then some (.outside (depth + 1))
      else if u = 0x7D then
        match depth with
        | 0 => none
        | depth + 1 => some (.outside depth)
      else some (.outside depth)

/-- The string literals of a text are closed, and outside of them its braces match. -/
def BracesMatch (text : JsString) : Prop := text.foldlM Place.read (.outside 0) = some (.outside 0)

instance (text : JsString) : Decidable (BracesMatch text) :=
  inferInstanceAs (Decidable (text.foldlM Place.read (.outside 0) = some (.outside 0)))

/-- The brace that closes a place has so many code units before it. -/
def Closes (place : Place) (s : JsString) (k : ℕ) : Prop :=
  ∃ text rest, s = text ++ 0x7D :: rest ∧ text.foldlM Place.read place = some (.outside 0) ∧
    text.length = k

theorem not_closes_nil (place : Place) (k : ℕ) : ¬ Closes place [] k := by
  rintro ⟨text, rest, htext, -⟩
  cases text <;> cases htext

theorem closes_cons (place : Place) (u : UInt16) (s : JsString) (k : ℕ) :
    Closes place (u :: s) k ↔
      (u = 0x7D ∧ place = .outside 0 ∧ k = 0) ∨
        ∃ next k', place.read u = some next ∧ Closes next s k' ∧ k = k' + 1 := by
  constructor
  · rintro ⟨text, rest, htext, hread, rfl⟩
    cases text with
    | nil => exact .inl ⟨(List.cons.inj htext).1, Option.some.inj hread, rfl⟩
    | cons v text =>
      obtain ⟨rfl, rfl⟩ := List.cons.inj htext
      rw [List.foldlM_cons] at hread
      obtain ⟨next, hnext, hread⟩ := Option.bind_eq_some_iff.1 hread
      exact .inr ⟨next, text.length, hnext, ⟨text, rest, rfl, hread, rfl⟩, rfl⟩
  · rintro (⟨rfl, rfl, rfl⟩ | ⟨next, k', hnext, ⟨text, rest, rfl, hread, rfl⟩, rfl⟩)
    · exact ⟨[], s, rfl, rfl, rfl⟩
    · refine ⟨u :: text, rest, rfl, ?_, rfl⟩
      rw [List.foldlM_cons, hnext]
      exact hread

def placeOf (depth : ℕ) : Option UInt16 → Place
  | some quote => .inside depth quote
  | none => .outside depth

theorem closes_read {place next : Place} {u : UInt16} (hread : place.read u = some next)
    (s : JsString) (i j : ℕ) :
    (∃ k, Closes place (u :: s) k ∧ j = i + k) ↔ ∃ k, Closes next s k ∧ j = i + 1 + k := by
  have hopen : ¬ (u = 0x7D ∧ place = .outside 0) := by
    rintro ⟨rfl, rfl⟩
    cases hread
  constructor
  · rintro ⟨k, hcloses, rfl⟩
    rcases (closes_cons place u s k).1 hcloses with ⟨hu, hplace, -⟩ | ⟨next', k', hnext, hrest, rfl⟩
    · exact absurd ⟨hu, hplace⟩ hopen
    · rw [hread] at hnext
      cases hnext
      exact ⟨k', hrest, by omega⟩
  · rintro ⟨k, hcloses, rfl⟩
    exact ⟨k + 1, (closes_cons place u s _).2 (.inr ⟨next, k, hread, hcloses, rfl⟩), by omega⟩

/-- The loop of `findClosingBrace` finds the brace that closes its place. -/
theorem findClosing_eq_some (s : JsString) (i depth : ℕ) (inString : Option UInt16) (j : ℕ) :
    findClosing i (depth + 1) inString s = some j ↔
      ∃ k, Closes (placeOf depth inString) s k ∧ j = i + k := by
  induction h : s.length using Nat.strong_induction_on generalizing s i depth inString with
  | _ n ih =>
    subst h
    cases s with
    | nil =>
      refine iff_of_false (by simp [findClosing]) ?_
      rintro ⟨k, hcloses, -⟩
      exact not_closes_nil _ k hcloses
    | cons u s =>
      cases inString with
      | some quote =>
        by_cases hescape : u = unit '\\'
        · have hread : (Place.inside depth quote).read u = some (.escaped depth quote) := by
            simp only [Place.read, if_pos hescape]
          rw [placeOf, closes_read hread]
          cases s with
          | nil =>
            refine iff_of_false (by simp [findClosing, hescape]) ?_
            rintro ⟨k, hcloses, -⟩
            exact not_closes_nil _ k hcloses
          | cons v s =>
            rw [closes_read rfl, findClosing.eq_def]
            dsimp only
            rw [if_pos hescape]
            exact ih s.length (by simp only [List.length_cons]; omega) s (i + 2) depth
              (some quote) rfl
        · have hread : (Place.inside depth quote).read u =
              some (placeOf depth (if u = quote then none else some quote)) := by
            simp only [Place.read, if_neg hescape]
            split <;> rfl
          rw [placeOf, closes_read hread, findClosing.eq_def]
          dsimp only
          rw [if_neg hescape]
          exact ih s.length (by simp) s (i + 1) depth _ rfl
      | none =>
        have hquote : (u = unit '"' ∨ u = unit '\'') ↔ isQuote u := by simp [isQuote]
        rw [findClosing.eq_def, placeOf]
        dsimp only
        by_cases hu : isQuote u
        · have hread : (Place.outside depth).read u = some (.inside depth u) := by
            simp only [Place.read, if_pos hu]
          rw [if_pos (hquote.2 hu), closes_read hread]
          exact ih s.length (by simp) s (i + 1) depth (some u) rfl
        rw [if_neg fun h => hu (hquote.1 h)]
        by_cases hbrace : u = 0x7B
        · have hread : (Place.outside depth).read u = some (.outside (depth + 1)) := by
            simp only [Place.read, if_neg hu, if_pos hbrace]
          rw [if_pos hbrace, closes_read hread]
          exact ih s.length (by simp) s (i + 1) (depth + 1) none rfl
        rw [if_neg hbrace]
        by_cases hclose : u = 0x7D
        · rw [if_pos hclose]
          cases depth with
          | zero =>
            have hnone : (Place.outside 0).read u = none := by
              simp only [Place.read, if_neg hu, if_neg hbrace, if_pos hclose]
            rw [if_pos (by simp)]
            constructor
            · intro hj
              exact ⟨0, (closes_cons _ _ _ _).2 (.inl ⟨hclose, rfl, rfl⟩),
                (Option.some.inj hj).symm⟩
            · rintro ⟨k, hcloses, rfl⟩
              rcases (closes_cons _ _ _ _).1 hcloses with ⟨-, -, rfl⟩ | ⟨next, _, hread, -⟩
              · rfl
              · rw [hnone] at hread
                cases hread
          | succ depth =>
            have hread : (Place.outside (depth + 1)).read u = some (.outside depth) := by
              simp only [Place.read, if_neg hu, if_neg hbrace, if_pos hclose]
            rw [if_neg (by push_cast; omega), closes_read hread]
            have hdepth : ((depth + 1 : ℕ) : ℤ) + 1 - 1 = depth + 1 := by push_cast; omega
            rw [hdepth]
            exact ih s.length (by simp) s (i + 1) depth none rfl
        · have hread : (Place.outside depth).read u = some (.outside depth) := by
            simp only [Place.read, if_neg hu, if_neg hbrace, if_neg hclose]
          rw [if_neg hclose, closes_read hread]
          exact ih s.length (by simp) s (i + 1) depth none rfl

/-! ## Dollar signs among braces -/

/-- A code unit that a reader only steps over. -/
def isPlain (u : UInt16) : Bool := !(isQuote u || u = unit '\\' || u = 0x7B || u = 0x7D)

/-- Literals start with a quote. -/
def Place.Proper : Place → Prop
  | .outside _ => True
  | .inside _ quote | .escaped _ quote => isQuote quote

/-- The place after a code unit that is only stepped over. -/
def Place.settle : Place → Place
  | .escaped depth quote => .inside depth quote
  | place => place

theorem Place.Proper.settle {place : Place} (h : place.Proper) : place.settle.Proper := by
  cases place <;> exact h

theorem Place.Proper.read {place next : Place} {u : UInt16} (h : place.Proper)
    (hread : place.read u = some next) : next.Proper := by
  cases place with
  | escaped depth quote =>
    cases hread
    exact h
  | inside depth quote =>
    cases hread
    split
    · exact h
    · split
      · trivial
      · exact h
  | outside depth =>
    simp only [Place.read] at hread
    split at hread
    · rename_i hu
      cases hread
      exact hu
    · split at hread
      · cases hread
        trivial
      · split at hread
        · split at hread <;> cases hread
          trivial
        · cases hread
          trivial

theorem Place.Proper.read_plain {place : Place} {u : UInt16} (h : place.Proper) (hplain : isPlain u) :
    place.read u = some place.settle := by
  simp only [isPlain, Bool.not_eq_true', Bool.or_eq_false_iff, decide_eq_false_iff_not] at hplain
  obtain ⟨⟨⟨hquote, hescape⟩, hopen⟩, hclose⟩ := hplain
  cases place with
  | escaped depth quote => rfl
  | inside depth quote =>
    have hne : u ≠ quote := by
      rintro rfl
      rw [h] at hquote
      cases hquote
    simp only [Place.read, if_neg hescape, if_neg hne, Place.settle]
  | outside depth =>
    simp only [Place.read, hquote, Bool.false_eq_true, if_false, if_neg hopen, if_neg hclose,
      Place.settle]

/-- A run of code units that are only stepped over. -/
theorem Place.Proper.foldlM_plain {place : Place} (h : place.Proper) {u : UInt16} {text : JsString}
    (hplain : ∀ v ∈ u :: text, isPlain v) : (u :: text).foldlM Place.read place = some place.settle := by
  induction text generalizing place u with
  | nil =>
    rw [List.foldlM_cons, h.read_plain (hplain u (List.mem_cons_self ..))]
    rfl
  | cons v text ih =>
    rw [List.foldlM_cons, h.read_plain (hplain u (List.mem_cons_self ..))]
    show (v :: text).foldlM Place.read place.settle = _
    rw [ih h.settle fun w hw => hplain w (List.mem_cons_of_mem _ hw)]
    cases place <;> rfl

/-- The sentinel is stepped over, as a pair is. -/
theorem foldlM_escape {place : Place} (h : place.Proper) (t : JsString) :
    (replacePairs dollarSentinel t).foldlM Place.read place = t.foldlM Place.read place := by
  fun_induction replacePairs dollarSentinel t generalizing place with
  | case1 => rfl
  | case2 u => rfl
  | case3 u v rest hpair ih =>
    obtain ⟨rfl, rfl⟩ := hpair
    have hsentinel : dollarSentinel.foldlM Place.read place = some place.settle :=
      h.foldlM_plain (List.all_eq_true.1 (by decide))
    have hpair : [unit '$', unit '$'].foldlM Place.read place = some place.settle :=
      h.foldlM_plain (List.all_eq_true.1 (by decide))
    rw [List.foldlM_append, hsentinel]
    show (replacePairs dollarSentinel rest).foldlM Place.read place.settle =
      ([unit '$', unit '$'] ++ rest).foldlM Place.read place
    rw [List.foldlM_append, hpair, ih h.settle]
    rfl
  | case4 u v rest hpair ih =>
    rw [List.foldlM_cons, List.foldlM_cons]
    cases hread : place.read u with
    | none => rfl
    | some next => exact ih (h.read hread)

theorem bracesMatch_escape (t : JsString) : BracesMatch (replacePairs dollarSentinel t) ↔ BracesMatch t := by
  rw [BracesMatch, BracesMatch, foldlM_escape (show (Place.outside 0).Proper from trivial) t]

/-! ## Templates -/

/-- `${`, a text and `}`. -/
def braced (text : JsString) : JsString := unit '$' :: 0x7B :: (text ++ [0x7D])

theorem replacePairs_braced (text : JsString) :
    replacePairs dollarSentinel (braced text) = braced (replacePairs dollarSentinel text) := by
  rw [braced, replacePairs, if_neg (by decide), replacePairs_cons (by decide),
    replacePairs_concat (by decide), braced]

theorem replacePairs_concat_dollar (t : JsString) :
    ∃ text v, replacePairs dollarSentinel (t ++ [unit '$']) = text ++ [v] ∧ (v = unit '$' ∨ v = 0) := by
  fun_induction replacePairs dollarSentinel t with
  | case1 => exact ⟨[], unit '$', rfl, .inl rfl⟩
  | case2 u =>
    rw [List.singleton_append, replacePairs]
    split
    · exact ⟨0 :: js "DOLLAR", 0, rfl, .inr rfl⟩
    · exact ⟨[u], unit '$', rfl, .inl rfl⟩
  | case3 u v rest hpair ih =>
    obtain ⟨text, w, htext, hw⟩ := ih
    refine ⟨dollarSentinel ++ text, w, ?_, hw⟩
    rw [List.cons_append, List.cons_append, replacePairs, if_pos hpair, htext, List.append_assoc]
  | case4 u v rest hpair ih =>
    obtain ⟨text, w, htext, hw⟩ := ih
    refine ⟨u :: text, w, ?_, hw⟩
    rw [List.cons_append, List.cons_append, replacePairs, if_neg hpair, ← List.cons_append, htext]
    rfl

theorem eq_concat_of_escape {u : UInt16} {t text : JsString} (hzero : u ≠ 0) (hdollar : u ≠ unit '$')
    (h : replacePairs dollarSentinel t = text ++ [u]) :
    ∃ e, t = e ++ [u] ∧ replacePairs dollarSentinel e = text := by
  rcases List.eq_nil_or_concat t with rfl | ⟨e, v, rfl⟩
  · simp [replacePairs] at h
  · rw [List.concat_eq_append] at h ⊢
    by_cases hv : v = unit '$'
    · obtain ⟨text', w, htext', hw⟩ := replacePairs_concat_dollar e
      rw [hv, htext'] at h
      have hlast : w = u := by simpa using (List.append_inj' h rfl).2
      rcases hw with rfl | rfl
      · exact absurd hlast.symm hdollar
      · exact absurd hlast.symm hzero
    · rw [replacePairs_concat hv] at h
      obtain ⟨htext, hlast⟩ := List.append_inj' h rfl
      obtain rfl : v = u := by simpa using hlast
      exact ⟨e, rfl, htext⟩

/-- Only a braced template is one after its dollar signs are escaped. -/
theorem eq_braced_of_escape {t text : JsString} (h : replacePairs dollarSentinel t = braced text) :
    ∃ e, t = braced e ∧ replacePairs dollarSentinel e = text := by
  match t with
  | [] => cases h
  | [v] => cases h
  | v :: w :: rest =>
    rw [replacePairs] at h
    by_cases hpair : v = unit '$' ∧ w = unit '$'
    · rw [if_pos hpair] at h
      have hhead : (0 : UInt16) = unit '$' := (List.cons.inj h).1
      exact absurd hhead (by decide)
    · rw [if_neg hpair] at h
      obtain ⟨rfl, htail⟩ := List.cons.inj h
      obtain ⟨rest', hrest', htext⟩ := replacePairs_eq_cons (by decide) (by decide) htail
      obtain ⟨rfl, rfl⟩ := List.cons.inj hrest'
      obtain ⟨e, rfl, he⟩ := eq_concat_of_escape (by decide) (by decide) htext
      exact ⟨e, rfl, he⟩

theorem findClosingBrace_braced (s : JsString) (j : ℕ) :
    findClosingBrace (unit '$' :: 0x7B :: s) 1 = some j ↔
      ∃ k, Closes (.outside 0) s k ∧ j = 2 + k := by
  have hopen : findClosingBrace (unit '$' :: 0x7B :: s) 1 = findClosing 2 ((0 : ℕ) + 1) none s := by
    rw [findClosingBrace, List.drop_one, List.tail_cons, findClosing.eq_def]
    rfl
  rw [hopen]
  exact findClosing_eq_some s 2 0 none j

/-- A template is evaluated as an expression if it is one as a whole. -/
theorem isExpression_iff (t : JsString) :
    ([unit '$', 0x7B].isPrefixOf (replacePairs dollarSentinel t) ∧
        findClosingBrace (replacePairs dollarSentinel t) 1 =
          some ((replacePairs dollarSentinel t).length - 1)) ↔
      ∃ e, t = braced e ∧ BracesMatch e := by
  constructor
  · rintro ⟨hstart, hclosing⟩
    obtain ⟨s, hs⟩ := List.isPrefixOf_iff_prefix.1 hstart
    rw [← hs] at hclosing
    obtain ⟨k, ⟨text, rest, htext, hread, rfl⟩, hlength⟩ := (findClosingBrace_braced s _).1 hclosing
    have hrest : rest = [] := by
      rw [htext] at hlength
      simp only [List.length_append, List.length_cons, List.length_nil] at hlength
      exact List.length_eq_zero_iff.1 (by omega)
    rw [htext, hrest] at hs
    obtain ⟨e, rfl, he⟩ := @eq_braced_of_escape _ text hs.symm
    exact ⟨e, rfl, (bracesMatch_escape e).1 (by rw [he]; exact hread)⟩
  · rintro ⟨e, rfl, he⟩
    rw [replacePairs_braced]
    have hread := (bracesMatch_escape e).2 he
    refine ⟨List.isPrefixOf_iff_prefix.2 ⟨_, rfl⟩, (findClosingBrace_braced _ _).2 ?_⟩
    exact ⟨_, ⟨_, [], rfl, hread, rfl⟩, by simp [braced]; omega⟩

theorem MeetsSentinel.mono {text t : JsString} (h : MeetsSentinel text) (hwithin : text <:+: t) :
    MeetsSentinel t :=
  h.imp (·.trans hwithin) (·.trans hwithin)

/-- A braced template with matching braces is evaluated as the expression in them. -/
theorem evaluateTemplate_braced (env : Env) {e : JsString} (he : BracesMatch e)
    (hsentinel : ¬ MeetsSentinel (braced e)) :
    evaluateTemplate env (braced e) = evaluateExpression env (unescapeDollars e) := by
  rw [evaluateTemplate, replaceFrom_pairs]
  rw [if_pos ((isExpression_iff _).2 ⟨e, rfl, he⟩), replacePairs_braced]
  have hinner : ((braced (replacePairs dollarSentinel e)).take
      ((braced (replacePairs dollarSentinel e)).length - 1)).drop 2 = replacePairs dollarSentinel e := by
    rw [braced, ← List.dropLast_eq_take, ← List.cons_append, ← List.cons_append, List.dropLast_concat]
    rfl
  rw [hinner, restoreDollar_escape fun h => hsentinel (h.mono ⟨[unit '$', 0x7B], [0x7D], rfl⟩)]

/-- Any other template is its text. -/
theorem evaluateTemplate_text (env : Env) {t : JsString} (ht : ¬ ∃ e, t = braced e ∧ BracesMatch e)
    (hsentinel : ¬ MeetsSentinel t) :
    evaluateTemplate env t = .ok (.str (unescapeDollars t)) := by
  rw [evaluateTemplate, replaceFrom_pairs]
  rw [if_neg fun h => ht ((isExpression_iff t).1 h), restoreDollar_escape hsentinel]

theorem doubleDollars_ne_braced (text e : JsString) : doubleDollars text ≠ braced e := by
  intro h
  cases text with
  | nil => cases h
  | cons u text =>
    rw [doubleDollars, List.flatMap_cons, braced] at h
    split at h
    · have hsecond := (List.cons.inj (List.cons.inj h).2).1
      rename_i hu
      rw [hu] at hsecond
      exact absurd hsecond (by decide)
    · rename_i hu
      exact hu (List.cons.inj h).1

/-- **Templates.** A text with every `$` doubled evaluates to the text; a template that is `${…}` as a
whole evaluates to what the expression does; and any other template is its text with `$$` read as `$`,
whatever expressions stand in it. -/
theorem evaluateTemplate_eq (env : Env) {t : JsString} (ht : ¬ MeetsSentinel t) :
    (∀ text, t = doubleDollars text → evaluateTemplate env t = .ok (.str text)) ∧
    (∀ e, t = braced e → BracesMatch e →
      evaluateTemplate env t = evaluateExpression env (unescapeDollars e)) ∧
    ((¬ ∃ e, t = braced e ∧ BracesMatch e) →
      evaluateTemplate env t = .ok (.str (unescapeDollars t))) := by
  refine ⟨?_, ?_, fun htext => evaluateTemplate_text env htext ht⟩
  · rintro text rfl
    have htext : ¬ ∃ e, doubleDollars text = braced e ∧ BracesMatch e := by
      rintro ⟨e, he, -⟩
      exact doubleDollars_ne_braced text e he
    rw [evaluateTemplate_text env htext ht, unescapeDollars_double]
  · rintro e rfl he
    exact evaluateTemplate_braced env he ht

/-- The result is this text. -/
def returnsText (result : Except Failure Value) (text : JsString) : Bool :=
  match result with
  | .ok (.str s) => s = text
  | _ => false

theorem returnsText_iff {result : Except Failure Value} {text : JsString} :
    returnsText result text ↔ result = .ok (.str text) := by
  constructor
  · intro h
    unfold returnsText at h
    split at h
    · rw [of_decide_eq_true h]
    · cases h
  · rintro rfl
    exact decide_eq_true rfl

/-- A scope with one variable. -/
def greetingEnv : Env where
  host := plainRuntime
  scope := .map none .objectPrototype [(js "name", .str "Alice")]
  stdlib _ _ := .ok .null

theorem evaluateTemplate_eq_price :
    ¬ MeetsSentinel (js "price: $$5") ∧
      evaluateTemplate greetingEnv (js "price: $$5") = .ok (.str "price: $5") := by
  have hsentinel : ¬ MeetsSentinel (js "price: $$5") := by
    rintro (h | h) <;> exact absurd h (by decide +kernel)
  exact ⟨hsentinel, (evaluateTemplate_eq greetingEnv hsentinel).1 (js "price: $5") (by decide +kernel)⟩

/-- An expression with text around it is not evaluated. -/
theorem not_evaluateTemplate_interpolates :
    ¬ ∀ env before e after value, BracesMatch e → evaluateExpression env e = .ok (.str value) →
      evaluateTemplate env (before ++ braced e ++ after) = .ok (.str (before ++ value ++ after)) := by
  intro hall
  have hexpression : returnsText (evaluateExpression greetingEnv (js "name")) (js "Alice") := by
    decide +kernel
  have htemplate : returnsText (evaluateTemplate greetingEnv (js "Hello " ++ braced (js "name") ++ []))
      (js "Hello " ++ js "Alice" ++ []) :=
    returnsText_iff.2 (hall greetingEnv (js "Hello ") (js "name") [] (js "Alice") (by decide +kernel)
      (returnsText_iff.1 hexpression))
  exact absurd htemplate (by decide +kernel)

end Kinglet.Workflows
