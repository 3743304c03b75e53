import Kinglet.Gateway.RouteTable
import Kinglet.Js.Separators

/-!
# Templates by their segments

The templates of which each segment is a literal, `:name`, `{name}`, `{name=**}`, `*` or `**`, with a
literal verb behind it or none. Such a template is registered in lower case where its text is static
(`registeredPath_templateText`), and the pattern is read off it segment by segment
(`scan_templateText`).
-/

namespace Kinglet.Gateway

open Js

/-! ## Templates -/

/-- What a segment of a template is, before its verb. -/
inductive SegmentPart
  | literal (text : JsString)
  | colon (name : JsString)
  | brace (name : JsString)
  | star
  | doubleStar
  | braceDoubleStar (name : JsString)
  deriving DecidableEq

structure TemplateSegment where
  part : SegmentPart
  verb : JsString
  deriving DecidableEq

def SegmentPart.text : SegmentPart → JsString
  | .literal text => text
  | .colon name => unit ':' :: name
  | .brace name => unit '\x7b' :: (name ++ [unit '\x7d'])
  | .star => [unit '*']
  | .doubleStar => [unit '*', unit '*']
  | .braceDoubleStar name => unit '\x7b' :: (name ++ js "=**" ++ [unit '\x7d'])

def SegmentPart.name : SegmentPart → Option JsString
  | .colon name | .brace name | .braceDoubleStar name => some name
  | _ => none

def SegmentPart.isMulti : SegmentPart → Bool
  | .doubleStar | .braceDoubleStar _ => true
  | _ => false

def TemplateSegment.text (segment : TemplateSegment) : JsString := segment.part.text ++ segment.verb

def templateText (segments : List TemplateSegment) : JsString :=
  segments.flatMap fun segment => unit '/' :: segment.text

/-- A code unit that stands for itself in a template. -/
def isLiteralUnit (u : UInt16) : Bool := u < 0x80 && u ∉ js "/*(){}"

/-- A parameter name, as the router knows them in both spellings. -/
def isName (name : JsString) : Bool := name.head?.any isIdentStart && name.all isWord

def SegmentPart.isValid : SegmentPart → Bool
  | .literal text => text ≠ [] && text.head? ≠ some (unit ':') && text.all isLiteralUnit
  | .colon name | .brace name | .braceDoubleStar name => isName name
  | .star | .doubleStar => true

/-- No verb, or a literal text from a colon on. -/
def isVerb (verb : JsString) : Bool :=
  verb = [] || verb.head? = some (unit ':') && verb.all isLiteralUnit

def TemplateSegment.isValid (segment : TemplateSegment) : Bool :=
  segment.part.isValid && isVerb segment.verb

/-- The templates in question. -/
structure ValidTemplate (segments : List TemplateSegment) : Prop where
  valid : ∀ segment ∈ segments, segment.isValid = true
  names : (segments.filterMap fun segment => segment.part.name).Nodup
  multi : (segments.filter fun segment => segment.part.isMulti).length ≤ 1

variable {builtins : Builtins} {config : RouterConfig} {segment : TemplateSegment}
  {segments : List TemplateSegment} {body s : JsString}

/-! ## Texts -/

theorem isLiteralUnit_iff {u : UInt16} : isLiteralUnit u = true ↔ u < 0x80 ∧ u ∉ js "/*(){}" := by
  rw [isLiteralUnit, Bool.and_eq_true, decide_eq_true_eq, decide_eq_true_eq]

theorem ne_of_isLiteralUnit {u v : UInt16} (h : isLiteralUnit u = true) (hv : v ∈ js "/*(){}") :
    u ≠ v := by
  intro heq
  exact (isLiteralUnit_iff.1 h).2 (heq ▸ hv)

theorem ne_of_isWord {u v : UInt16} (h : isWord u = true) (hv : isWord v = false) : u ≠ v := by
  intro heq
  rw [heq, hv] at h
  exact Bool.false_ne_true h

theorem isWord_of_mem_name {name : JsString} (h : isName name = true) {u : UInt16} (hu : u ∈ name) :
    isWord u = true := by
  rw [isName, Bool.and_eq_true] at h
  exact List.all_eq_true.1 h.2 u hu

theorem isLiteralUnit_of_mem_verb {verb : JsString} (h : isVerb verb = true) {u : UInt16}
    (hu : u ∈ verb) : isLiteralUnit u = true := by
  simp only [isVerb, Bool.or_eq_true, Bool.and_eq_true, decide_eq_true_eq] at h
  rcases h with rfl | ⟨-, hall⟩
  · exact absurd hu List.not_mem_nil
  · exact List.all_eq_true.1 hall u hu

theorem slash_notMem_verb {verb : JsString} (h : isVerb verb = true) : unit '/' ∉ verb := by
  intro hmem
  exact ne_of_isLiteralUnit (isLiteralUnit_of_mem_verb h hmem) (by decide) rfl

theorem isValid_iff : segment.isValid = true ↔
    segment.part.isValid = true ∧ isVerb segment.verb = true := by
  rw [TemplateSegment.isValid, Bool.and_eq_true]

theorem SegmentPart.text_spec {part : SegmentPart} (h : part.isValid = true) :
    part.text ≠ [] ∧ unit '/' ∉ part.text := by
  have hname {name : JsString} (h : isName name = true) : unit '/' ∉ name := by
    intro hmem
    exact ne_of_isWord (isWord_of_mem_name h hmem) (by decide) rfl
  cases part with
  | literal text =>
    simp only [isValid, Bool.and_eq_true, decide_eq_true_eq] at h
    refine ⟨h.1.1, fun hmem => ?_⟩
    exact ne_of_isLiteralUnit (List.all_eq_true.1 h.2 _ hmem) (by decide) rfl
  | colon name => exact ⟨List.cons_ne_nil _ _, by simp [text, hname h]; decide⟩
  | brace name => exact ⟨List.cons_ne_nil _ _, by simp [text, hname h]; decide⟩
  | star => exact ⟨List.cons_ne_nil _ _, by decide⟩
  | doubleStar => exact ⟨List.cons_ne_nil _ _, by decide⟩
  | braceDoubleStar name => exact ⟨List.cons_ne_nil _ _, by simp [text, hname h]; decide⟩

theorem TemplateSegment.text_spec (h : segment.isValid = true) :
    segment.text ≠ [] ∧ unit '/' ∉ segment.text := by
  obtain ⟨hpart, hverb⟩ := isValid_iff.1 h
  obtain ⟨hne, hslash⟩ := SegmentPart.text_spec hpart
  refine ⟨List.append_ne_nil_of_left_ne_nil hne _, ?_⟩
  rw [text, List.mem_append]
  exact not_or.2 ⟨hslash, slash_notMem_verb hverb⟩

/-! ## Texts without empty segments -/

theorem unbroken_nil : Unbroken [] := by
  intro t ht
  exact absurd (List.suffix_nil.1 ht) (List.cons_ne_nil _ _)

theorem unbroken_append (hbody : unit '/' ∉ body) (h : Unbroken s) : Unbroken (body ++ s) := by
  induction body with
  | nil => exact h
  | cons u body ih =>
    rw [List.mem_cons, not_or] at hbody
    intro t ht
    rcases List.suffix_cons_iff.1 ht with heq | hsuffix
    · exact absurd (List.cons.inj heq).1 hbody.1
    · exact ih hbody.2 t hsuffix

theorem unbroken_slash (hne : body ≠ []) (hbody : unit '/' ∉ body) (h : Unbroken s) :
    Unbroken (unit '/' :: (body ++ s)) := by
  intro t ht
  rcases List.suffix_cons_iff.1 ht with heq | hsuffix
  · obtain ⟨u, body, rfl⟩ := List.exists_cons_of_ne_nil hne
    rw [List.mem_cons, not_or] at hbody
    exact ⟨u, body ++ s, (List.cons.inj heq).2, Ne.symm hbody.1⟩
  · exact unbroken_append hbody h t hsuffix

theorem unbroken_templateText (h : ∀ segment ∈ segments, segment.isValid = true) :
    Unbroken (templateText segments) := by
  induction segments with
  | nil => exact unbroken_nil
  | cons segment segments ih =>
    obtain ⟨hsegment, hsegments⟩ := List.forall_mem_cons.1 h
    obtain ⟨hne, hslash⟩ := TemplateSegment.text_spec hsegment
    exact unbroken_slash hne hslash (ih hsegments)

/-! ## The registered template -/

/-- `toLowerCase` on ASCII text. -/
def LowersAscii (builtins : Builtins) : Prop :=
  ∀ text : JsString, (∀ u ∈ text, u < 0x80) →
    builtins.toLowerCase text = text.map fun u => if 65 ≤ u && u ≤ 90 then u + 32 else u

/-- The segment as it is registered: a segment that starts with literal text or a wildcard is in
lower case. -/
def TemplateSegment.folded (config : RouterConfig) (segment : TemplateSegment) : TemplateSegment :=
  match segment.part with
  | .literal text => ⟨.literal (text.map (foldCase config)), segment.verb.map (foldCase config)⟩
  | .star | .doubleStar => ⟨segment.part, segment.verb.map (foldCase config)⟩
  | _ => segment

def registeredSegments (config : RouterConfig) (segments : List TemplateSegment) :
    List TemplateSegment :=
  if config.enablePathNormalization then segments.map (TemplateSegment.folded config) else segments

section Replacing

variable {find : JsString → Option (ℕ × JsString)}

theorem replaceMatches_previous (previous other : Option UInt16) (skip : ℕ) (s : JsString) :
    replaceMatches (fun _ => find) previous skip s = replaceMatches (fun _ => find) other skip s := by
  cases s with
  | nil => cases skip <;> rfl
  | cons u s =>
    cases skip with
    | zero => rfl
    | succ skip => rfl

/-- What a match covers is passed over. -/
theorem replaceMatches_skip (previous : Option UInt16) (body s : JsString) :
    replaceMatches (fun _ => find) previous body.length (body ++ s) =
      replaceMatches (fun _ => find) none 0 s := by
  induction body generalizing previous with
  | nil => exact replaceMatches_previous previous none 0 s
  | cons u body ih => exact ih (some u)

/-- Text without a match stays. -/
theorem replaceMatches_none (previous : Option UInt16) (body s : JsString)
    (h : ∀ u ∈ body, ∀ rest, find (u :: rest) = none) :
    replaceMatches (fun _ => find) previous 0 (body ++ s) =
      body ++ replaceMatches (fun _ => find) none 0 s := by
  induction body generalizing previous with
  | nil => exact replaceMatches_previous previous none 0 s
  | cons u body ih =>
    obtain ⟨hu, hbody⟩ := List.forall_mem_cons.1 h
    rw [List.cons_append, replaceMatches, hu]
    exact congrArg (u :: ·) (ih (some u) hbody)

end Replacing

/-- Where a segment of a path ends. -/
def AtBoundary (s : JsString) : Prop := s = [] ∨ ∃ rest, s = unit '/' :: rest

theorem atBoundary_templateText (segments : List TemplateSegment) :
    AtBoundary (templateText segments) := by
  cases segments with
  | nil => exact .inl rfl
  | cons segment segments => exact .inr ⟨_, rfl⟩

theorem takeWhile_boundary {test : UInt16 → Bool} (hbody : ∀ u ∈ body, test u = true)
    (htest : test (unit '/') = false) (hs : AtBoundary s) : (body ++ s).takeWhile test = body := by
  rw [List.takeWhile_append_of_pos hbody]
  rcases hs with rfl | ⟨rest, rfl⟩
  · exact List.append_nil body
  · rw [List.takeWhile_cons_of_neg (by simp [htest]), List.append_nil]

/-- A segment without braces, as `normalizeRoutePath` finds it. -/
theorem staticSegment_eq (hne : body ≠ [])
    (hbody : ∀ u ∈ body, u ≠ unit '/' ∧ u ≠ unit '\x7b' ∧ u ≠ unit '\x7d') (hs : AtBoundary s) :
    staticSegment (unit '/' :: (body ++ s)) = some body := by
  have hrun : ((body ++ s).takeWhile fun v => v ≠ unit '/' ∧ v ≠ unit '\x7b' ∧ v ≠ unit '\x7d') =
      body := takeWhile_boundary (fun u hu => decide_eq_true (hbody u hu)) (by decide) hs
  rw [staticSegment, hrun, if_pos ⟨rfl, hne⟩]

/-- The matches that `normalizeRoutePath` replaces. -/
def lowering (builtins : Builtins) (text : JsString) : Option (ℕ × JsString) :=
  (staticSegment text).map fun segment =>
    (segment.length + 1, unit '/' ::
      if startsWith segment [unit ':'] then segment else builtins.toLowerCase segment)

theorem lowering_of_ne {u : UInt16} (hu : u ≠ unit '/') (rest : JsString) :
    lowering builtins (u :: rest) = none := by
  have hnone : staticSegment (u :: rest) = none := if_neg fun h => hu h.1
  rw [lowering, hnone, Option.map_none]

theorem foldCase_eq_lower (hcase : config.caseSensitive = false) :
    foldCase config = fun u => if 65 ≤ u && u ≤ 90 then u + 32 else u := by
  funext u
  rw [foldCase, hcase, Bool.not_false, Bool.true_and]

theorem foldCase_star : foldCase config (unit '*') = unit '*' := by
  unfold foldCase
  rw [if_neg]
  rw [Bool.and_assoc, show (decide (65 ≤ unit '*') && decide (unit '*' ≤ 90)) = false by decide,
    Bool.and_false]
  exact Bool.false_ne_true

theorem replaceMatches_static (previous : Option UInt16) (hne : body ≠ [])
    (hbody : ∀ u ∈ body, u ≠ unit '/' ∧ u ≠ unit '\x7b' ∧ u ≠ unit '\x7d') (hs : AtBoundary s) :
    replaceMatches (fun _ => lowering builtins) previous 0 (unit '/' :: (body ++ s)) =
      unit '/' :: (if startsWith body [unit ':'] then body else builtins.toLowerCase body) ++
        replaceMatches (fun _ => lowering builtins) none 0 s := by
  rw [replaceMatches, lowering, staticSegment_eq hne hbody hs, Option.map_some]
  dsimp only
  rw [Nat.add_sub_cancel, replaceMatches_skip]

theorem replaceMatches_brace (previous : Option UInt16) (hslash : unit '/' ∉ body)
    (hhead : body.head? = some (unit '\x7b')) :
    replaceMatches (fun _ => lowering builtins) previous 0 (unit '/' :: (body ++ s)) =
      unit '/' :: body ++ replaceMatches (fun _ => lowering builtins) none 0 s := by
  have hnone : lowering builtins (unit '/' :: (body ++ s)) = none := by
    obtain ⟨rest, rfl⟩ := List.head?_eq_some_iff.1 hhead
    rw [lowering, List.cons_append, staticSegment, List.takeWhile_cons_of_neg (by decide),
      if_neg (fun h => h.2 rfl), Option.map_none]
  rw [replaceMatches, hnone]
  refine congrArg (unit '/' :: ·) (replaceMatches_none _ body s ?_)
  intro u hu
  exact lowering_of_ne fun heq => hslash (heq ▸ hu)

/-- The text of a registered segment, in lower case where the template has static text. -/
theorem replaceMatches_segment (previous : Option UInt16) (hcase : config.caseSensitive = false)
    (hlower : LowersAscii builtins) (hvalid : segment.isValid = true) (hs : AtBoundary s) :
    replaceMatches (fun _ => lowering builtins) previous 0 (unit '/' :: (segment.text ++ s)) =
      unit '/' :: (segment.folded config).text ++
        replaceMatches (fun _ => lowering builtins) none 0 s := by
  obtain ⟨hne, hslash⟩ := TemplateSegment.text_spec hvalid
  obtain ⟨part, verb⟩ := segment
  obtain ⟨hpart, hverb⟩ := isValid_iff.1 hvalid
  have hliteral {u : UInt16} (hu : isLiteralUnit u = true) :
      u ≠ unit '/' ∧ u ≠ unit '\x7b' ∧ u ≠ unit '\x7d' :=
    ⟨ne_of_isLiteralUnit hu (by decide), ne_of_isLiteralUnit hu (by decide),
      ne_of_isLiteralUnit hu (by decide)⟩
  have hverbs : ∀ u ∈ verb, u < 0x80 ∧ u ≠ unit '/' ∧ u ≠ unit '\x7b' ∧ u ≠ unit '\x7d' := by
    intro u hu
    have hu := isLiteralUnit_of_mem_verb hverb hu
    exact ⟨(isLiteralUnit_iff.1 hu).1, hliteral hu⟩
  -- static text from the slash on is lowered as a whole
  have hstatic (hhead : startsWith (TemplateSegment.text ⟨part, verb⟩) [unit ':'] = false)
      (hall : ∀ u ∈ part.text, u < 0x80 ∧ u ≠ unit '/' ∧ u ≠ unit '\x7b' ∧ u ≠ unit '\x7d')
      (htext : TemplateSegment.text (TemplateSegment.folded config ⟨part, verb⟩) =
        (TemplateSegment.text ⟨part, verb⟩).map (foldCase config)) :
      replaceMatches (fun _ => lowering builtins) previous 0
          (unit '/' :: (TemplateSegment.text ⟨part, verb⟩ ++ s)) =
        unit '/' :: TemplateSegment.text (TemplateSegment.folded config ⟨part, verb⟩) ++
          replaceMatches (fun _ => lowering builtins) none 0 s := by
    have hboth : ∀ u ∈ TemplateSegment.text ⟨part, verb⟩,
        u < 0x80 ∧ u ≠ unit '/' ∧ u ≠ unit '\x7b' ∧ u ≠ unit '\x7d' := by
      intro u hu
      rcases List.mem_append.1 hu with hu | hu
      · exact hall u hu
      · exact hverbs u hu
    rw [replaceMatches_static previous hne (fun u hu => (hboth u hu).2) hs, hhead,
      if_neg Bool.false_ne_true, hlower _ fun u hu => (hboth u hu).1, htext,
      foldCase_eq_lower hcase]
  cases part with
  | literal text =>
    simp only [SegmentPart.isValid, Bool.and_eq_true, decide_eq_true_eq] at hpart
    obtain ⟨⟨htext, hcolon⟩, hall⟩ := hpart
    refine hstatic ?_ ?_ (List.map_append).symm
    · obtain ⟨u, text, rfl⟩ := List.exists_cons_of_ne_nil htext
      have hu : u ≠ unit ':' := fun heq => hcolon (congrArg some heq)
      have hstart : ([unit ':'] : JsString).isPrefixOf (u :: (text ++ verb)) = false := by
        simp [List.isPrefixOf, Ne.symm hu]
      exact hstart
    · intro u hu
      have hu := List.all_eq_true.1 hall u hu
      exact ⟨(isLiteralUnit_iff.1 hu).1, hliteral hu⟩
  | star =>
    refine hstatic rfl (List.forall_mem_singleton.2 (by decide)) ?_
    exact congrArg (· :: verb.map (foldCase config)) foldCase_star.symm
  | doubleStar =>
    refine hstatic rfl (List.forall_mem_cons.2
      ⟨by decide, List.forall_mem_singleton.2 (by decide)⟩) ?_
    exact congrArg (fun u => u :: u :: verb.map (foldCase config)) foldCase_star.symm
  | colon name =>
    have hall : ∀ u ∈ TemplateSegment.text ⟨.colon name, verb⟩,
        u ≠ unit '/' ∧ u ≠ unit '\x7b' ∧ u ≠ unit '\x7d' := by
      intro u hu
      rcases List.mem_append.1 hu with hu | hu
      · rcases List.mem_cons.1 hu with rfl | hu
        · decide
        · have hword := isWord_of_mem_name hpart hu
          exact ⟨ne_of_isWord hword (by decide), ne_of_isWord hword (by decide),
            ne_of_isWord hword (by decide)⟩
      · exact (hverbs u hu).2
    rw [replaceMatches_static previous hne hall hs]
    rfl
  | brace name => exact replaceMatches_brace previous hslash rfl
  | braceDoubleStar name => exact replaceMatches_brace previous hslash rfl

theorem folded_eq_self (hcase : config.caseSensitive = true) : segment.folded config = segment := by
  have hid : foldCase config = id := by
    funext u
    rw [foldCase, hcase]
    rfl
  obtain ⟨part, verb⟩ := segment
  cases part <;> simp only [TemplateSegment.folded, hid, List.map_id]

theorem registeredPath_templateText (hlower : LowersAscii builtins)
    (h : ∀ segment ∈ segments, segment.isValid = true) :
    registeredPath builtins config (templateText segments) =
      templateText (registeredSegments config segments) := by
  unfold registeredPath registeredSegments
  split_ifs with hnormalize
  · unfold normalizeRoutePath
    rw [normalizeRequestPath_of_unbroken (unbroken_templateText h)]
    dsimp only
    split_ifs with hcase
    · rw [List.map_congr_left fun segment _ => folded_eq_self hcase, List.map_id']
    · rw [Bool.not_eq_true] at hcase
      show replaceMatches (fun _ => lowering builtins) none 0 (templateText segments) = _
      induction segments with
      | nil => rfl
      | cons segment segments ih =>
        obtain ⟨hsegment, hsegments⟩ := List.forall_mem_cons.1 h
        have hfirst := replaceMatches_segment none hcase hlower hsegment
          (atBoundary_templateText segments)
        refine hfirst.trans ?_
        rw [ih hsegments]
        rfl
  · rfl

/-! ### Its segments -/

theorem foldCase_cases (config : RouterConfig) (u : UInt16) :
    foldCase config u = u ∨ 97 ≤ foldCase config u ∧ foldCase config u ≤ 122 := by
  unfold foldCase
  split
  · rename_i h
    simp only [Bool.and_eq_true, decide_eq_true_eq, UInt16.le_iff_toNat_le] at h
    obtain ⟨⟨-, hlow⟩, hhigh⟩ := h
    have hlow : 65 ≤ u.toNat := hlow
    have hhigh : u.toNat ≤ 90 := hhigh
    refine .inr ?_
    simp only [UInt16.le_iff_toNat_le, UInt16.toNat_add]
    exact ⟨show 97 ≤ (u.toNat + 32) % 2 ^ 16 by omega, show (u.toNat + 32) % 2 ^ 16 ≤ 122 by omega⟩
  · exact .inl rfl

theorem isLiteralUnit_of_letter {u : UInt16} (hlow : 97 ≤ u) (hhigh : u ≤ 122) :
    isLiteralUnit u = true ∧ u ≠ unit ':' := by
  refine ⟨isLiteralUnit_iff.2 ⟨UInt16.lt_of_le_of_lt hhigh (by decide), fun hmem => ?_⟩, ?_⟩
  · have hall : (js "/*(){}").all (fun v => !(97 ≤ v && v ≤ 122)) = true := by decide
    have hnot := List.all_eq_true.1 hall u hmem
    rw [decide_eq_true hlow, decide_eq_true hhigh] at hnot
    exact absurd hnot (by decide)
  · rintro rfl
    exact absurd hlow (by decide)

theorem isLiteralUnit_foldCase {u : UInt16} (h : isLiteralUnit u = true) :
    isLiteralUnit (foldCase config u) = true := by
  rcases foldCase_cases config u with heq | ⟨hlow, hhigh⟩
  · rw [heq]
    exact h
  · exact (isLiteralUnit_of_letter hlow hhigh).1

theorem foldCase_eq_colon {u : UInt16} (h : foldCase config u = unit ':') : u = unit ':' := by
  rcases foldCase_cases config u with heq | ⟨hlow, hhigh⟩
  · exact heq.symm.trans h
  · exact absurd h (isLiteralUnit_of_letter hlow hhigh).2

theorem foldCase_colon : foldCase config (unit ':') = unit ':' := by
  rcases foldCase_cases config (unit ':') with heq | ⟨hlow, -⟩
  · exact heq
  · unfold foldCase at hlow ⊢
    split at hlow
    · rename_i h
      simp only [Bool.and_eq_true, decide_eq_true_eq] at h
      exact absurd h.1.2 (by decide)
    · exact absurd hlow (by decide)

theorem isVerb_map {verb : JsString} (h : isVerb verb = true) :
    isVerb (verb.map (foldCase config)) = true := by
  simp only [isVerb, Bool.or_eq_true, Bool.and_eq_true, decide_eq_true_eq] at h ⊢
  rcases h with rfl | ⟨hhead, hall⟩
  · exact .inl rfl
  · refine .inr ⟨?_, List.all_eq_true.2 fun v hv => ?_⟩
    · rw [List.head?_map, hhead, Option.map_some, foldCase_colon]
    · obtain ⟨u, hu, rfl⟩ := List.mem_map.1 hv
      exact isLiteralUnit_foldCase (List.all_eq_true.1 hall u hu)

/-- A registered template is one in question. -/
theorem isValid_folded (h : segment.isValid = true) : (segment.folded config).isValid = true := by
  obtain ⟨part, verb⟩ := segment
  obtain ⟨hpart, hverb⟩ := isValid_iff.1 h
  cases part with
  | literal text =>
    refine isValid_iff.2 ⟨?_, isVerb_map hverb⟩
    have hpart : (SegmentPart.literal text).isValid = true := hpart
    simp only [SegmentPart.isValid, Bool.and_eq_true, decide_eq_true_eq] at hpart
    obtain ⟨⟨hne, hhead⟩, hall⟩ := hpart
    show (SegmentPart.literal (text.map (foldCase config))).isValid = true
    simp only [SegmentPart.isValid, Bool.and_eq_true, decide_eq_true_eq]
    refine ⟨⟨fun hnil => hne (List.map_eq_nil_iff.1 hnil), ?_⟩, List.all_eq_true.2 fun v hv => ?_⟩
    · rw [List.head?_map]
      intro heq
      obtain ⟨u, hu, hcolon⟩ := Option.map_eq_some_iff.1 heq
      exact hhead (hu.trans (congrArg some (foldCase_eq_colon hcolon)))
    · obtain ⟨u, hu, rfl⟩ := List.mem_map.1 hv
      exact isLiteralUnit_foldCase (List.all_eq_true.1 hall u hu)
  | star | doubleStar => exact isValid_iff.2 ⟨rfl, isVerb_map hverb⟩
  | colon _ | brace _ | braceDoubleStar _ => exact h

/-! ## Reading the template -/

def SegmentPart.pieces : SegmentPart → List Piece
  | .literal text => text.map Piece.literal
  | .colon name => [.colon name]
  | .brace name => [.brace name]
  | .star => [.star]
  | .doubleStar => [.doubleStar]
  | .braceDoubleStar name => [.braceDoubleStar name]

def templatePieces (segments : List TemplateSegment) : List Piece :=
  segments.flatMap fun segment =>
    .literal (unit '/') :: (segment.part.pieces ++ segment.verb.map Piece.literal)

/-- What a match covers is passed over. -/
theorem scan_skip (config : RouterConfig) (previous : Option UInt16) (body s : JsString) :
    ∃ last, scan config previous body.length (body ++ s) = scan config last 0 s ∧
      (body = [] ∧ last = previous ∨ ∃ u ∈ body, last = some u) := by
  induction body generalizing previous with
  | nil => exact ⟨previous, rfl, .inl ⟨rfl, rfl⟩⟩
  | cons u body ih =>
    obtain ⟨last, hscan, hlast⟩ := ih (some u)
    refine ⟨last, hscan, .inr ?_⟩
    rcases hlast with ⟨-, rfl⟩ | ⟨v, hv, rfl⟩
    · exact ⟨u, List.mem_cons_self, rfl⟩
    · exact ⟨v, List.mem_cons_of_mem u hv, rfl⟩

theorem braceSpec_of_ne {u : UInt16} (hu : u ≠ unit '\x7b') (rest : JsString) :
    braceSpec (u :: rest) = none := by
  rw [braceSpec, if_neg fun h => hu h.1]

theorem colonName_of_ne {u : UInt16} (hu : u ≠ unit ':') (previous : Option UInt16)
    (rest : JsString) : colonName previous (u :: rest) = none := by
  rw [colonName, if_neg fun h => hu h.2]

/-- A code unit that starts no parameter is a literal letter. -/
theorem scan_literal {previous : Option UInt16} {u : UInt16} (hbrace : u ∉ js "*(){}")
    (hcolon : previous = some (unit '/') → u ≠ unit ':') (rest : JsString) :
    scan config previous 0 (u :: rest) = (scan config (some u) 0 rest).map (.literal u :: ·) := by
  have hopen : u ≠ unit '\x7b' := by
    rintro rfl
    exact hbrace (by decide)
  have hstar : u ≠ unit '*' := by
    rintro rfl
    exact hbrace (by decide)
  have hspec : braceSpec (u :: rest) = none := braceSpec_of_ne hopen rest
  have hname : colonName previous (u :: rest) = none := by
    rw [colonName, if_neg fun h => hcolon h.1 h.2]
  have hplain : u ∉ js "(){}" := fun hmem => hbrace (List.mem_cons_of_mem _ hmem)
  rw [scan, hspec, hname]
  dsimp only
  rw [if_neg hstar, if_neg hplain]
  cases scan config (some u) 0 rest <;> rfl

/-- Literal text is scanned letter by letter. -/
theorem scan_letters (config : RouterConfig) {previous : Option UInt16}
    (hbody : ∀ u ∈ body, isLiteralUnit u = true)
    (hhead : previous = some (unit '/') → body.head? ≠ some (unit ':')) (s : JsString) :
    ∃ last, scan config previous 0 (body ++ s) =
        (scan config last 0 s).map (body.map Piece.literal ++ ·) ∧
      (body = [] ∧ last = previous ∨ last ≠ some (unit '/')) := by
  induction body generalizing previous with
  | nil =>
    refine ⟨previous, ?_, .inl ⟨rfl, rfl⟩⟩
    rw [List.nil_append]
    cases scan config previous 0 s <;> rfl
  | cons u body ih =>
    obtain ⟨hu, hbody⟩ := List.forall_mem_cons.1 hbody
    have hne : u ≠ unit '/' := ne_of_isLiteralUnit hu (by decide)
    have hhead' : some u = some (unit '/') → body.head? ≠ some (unit ':') :=
      fun heq => absurd (Option.some.inj heq) hne
    obtain ⟨last, hscan, hlast⟩ := ih hbody hhead'
    refine ⟨last, ?_, .inr ?_⟩
    · have hplain : u ∉ js "*(){}" := fun hmem => (isLiteralUnit_iff.1 hu).2 (List.mem_cons_of_mem _ hmem)
      rw [List.cons_append, scan_literal hplain fun hslash heq => hhead hslash (congrArg some heq), hscan,
        Option.map_map]
      rfl
    · rcases hlast with ⟨-, rfl⟩ | hlast
      · exact fun heq => hne (Option.some.inj heq)
      · exact hlast

theorem identifier_eq {name : JsString} (hname : isName name = true)
    (hs : ∀ u, s.head? = some u → isWord u = false) : identifier (name ++ s) = some name := by
  rw [isName, Bool.and_eq_true] at hname
  obtain ⟨u, name, rfl⟩ : ∃ u rest, name = u :: rest := by
    cases name with
    | nil => exact absurd hname.1 (by decide)
    | cons u rest => exact ⟨u, rest, rfl⟩
  have hrun : ((u :: name) ++ s).takeWhile isWord = u :: name := by
    rw [List.takeWhile_append_of_pos (List.all_eq_true.1 hname.2)]
    cases s with
    | nil => exact List.append_nil _
    | cons v s => rw [List.takeWhile_cons_of_neg (by simp [hs v rfl]), List.append_nil]
  rw [identifier, hrun]
  exact if_pos hname.1

/-- A spec in braces, with nothing in it that closes them. -/
theorem braceSpec_eq (hbody : unit '\x7d' ∉ body) (s : JsString) :
    braceSpec (unit '\x7b' :: (body ++ unit '\x7d' :: s)) = some body := by
  have hopen : ∀ u ∈ body, decide (u ≠ unit '\x7d') = true := by
    intro u hu
    exact decide_eq_true fun heq => hbody (heq ▸ hu)
  have hrun : (body ++ unit '\x7d' :: s).takeWhile (· ≠ unit '\x7d') = body := by
    rw [List.takeWhile_append_of_pos hopen, List.takeWhile_cons_of_neg (by simp), List.append_nil]
  rw [braceSpec, hrun, if_pos]
  refine ⟨rfl, ?_⟩
  rw [List.length_append, List.length_cons]
  omega

theorem bracePiece_name (config : RouterConfig) {name : JsString} (h : isName name = true) :
    bracePiece config name = some (.brace name) := by
  have hne : name ≠ [] := by
    rintro rfl
    exact absurd h (by decide)
  have hsplit : splitUnit (unit '=') name = [name] := by
    refine List.splitOn_eq_singleton fun hmem => ?_
    exact ne_of_isWord (isWord_of_mem_name h hmem) (by decide) rfl
  rw [bracePiece, hsplit]
  dsimp only
  rw [if_neg hne]

theorem bracePiece_doubleStar {name : JsString} (h : isName name = true)
    (hwild : config.enableWildcards = true) :
    bracePiece config (name ++ js "=**") = some (.braceDoubleStar name) := by
  have hmem : unit '=' ∉ name := by
    intro hmem
    exact ne_of_isWord (isWord_of_mem_name h hmem) (by decide) rfl
  have hparts : ∀ part ∈ [name, js "**"], unit '=' ∉ part := by
    simp only [List.forall_mem_cons]
    exact ⟨hmem, by decide, fun part hpart => absurd hpart List.not_mem_nil⟩
  have htext : join [unit '='] [name, js "**"] = name ++ js "=**" :=
    (join_cons (unit '=') name (List.cons_ne_nil _ _)).trans
      (by rw [join, List.intersperse_singleton, List.flatten_singleton]; rfl)
  have hsplit : splitUnit (unit '=') (name ++ js "=**") = [name, js "**"] := by
    rw [← htext]
    exact splitUnit_join hparts (List.cons_ne_nil _ _)
  rw [bracePiece, hsplit]
  dsimp only
  rw [hwild, Bool.not_true, if_neg Bool.false_ne_true, if_neg (by decide), if_pos rfl]

/-- What comes after a part: the verb, or the end of the segment. -/
def AfterPart (s : JsString) : Prop :=
  ∀ u, s.head? = some u → isWord u = false ∧ u ≠ unit '*'

theorem afterPart_verb {verb : JsString} (hverb : isVerb verb = true) (hs : AtBoundary s) :
    AfterPart (verb ++ s) := by
  intro u hu
  simp only [isVerb, Bool.or_eq_true, Bool.and_eq_true, decide_eq_true_eq] at hverb
  rcases hverb with rfl | ⟨hhead, -⟩
  · rcases hs with rfl | ⟨rest, rfl⟩
    · exact absurd hu.symm (Option.some_ne_none u)
    · rw [← Option.some.inj hu]
      decide
  · obtain ⟨verb, rfl⟩ := List.head?_eq_some_iff.1 hhead
    rw [← Option.some.inj hu]
    decide

/-- A parameter in braces. -/
theorem scan_brace {spec : JsString} {piece : Piece} (hspec : unit '\x7d' ∉ spec)
    (hpiece : bracePiece config spec = some piece) (previous : Option UInt16) (s : JsString) :
    ∃ last, scan config previous 0 (unit '\x7b' :: (spec ++ [unit '\x7d']) ++ s) =
        (scan config last 0 s).map (piece :: ·) ∧
      (last = some (unit '\x7d') ∨ ∃ u ∈ spec, last = some u) := by
  obtain ⟨last, hscan, hlast⟩ := scan_skip config (some (unit '\x7b')) (spec ++ [unit '\x7d']) s
  refine ⟨last, ?_, ?_⟩
  · rw [List.length_append, List.length_singleton, List.append_assoc, List.singleton_append] at hscan
    rw [List.cons_append, List.append_assoc, List.singleton_append, scan, braceSpec_eq hspec]
    dsimp only
    rw [hpiece, hscan]
    cases scan config last 0 s <;> rfl
  · rcases hlast with ⟨hnil, -⟩ | ⟨u, hu, rfl⟩
    · exact absurd hnil (List.append_ne_nil_of_right_ne_nil _ (List.cons_ne_nil _ _))
    · rcases List.mem_append.1 hu with hu | hu
      · exact .inr ⟨u, hu, rfl⟩
      · exact .inl (congrArg some (List.mem_singleton.1 hu))

theorem scan_part {part : SegmentPart} (hvalid : part.isValid = true)
    (hwild : config.enableWildcards = true) (hs : AfterPart s) :
    ∃ last, scan config (some (unit '/')) 0 (part.text ++ s) =
        (scan config last 0 s).map (part.pieces ++ ·) ∧ last ≠ some (unit '/') := by
  have hword {u : UInt16} (hu : isWord u = true) : some u ≠ some (unit '/') := by
    intro heq
    exact ne_of_isWord hu (by decide) (Option.some.inj heq)
  have hclose {name : JsString} (hname : isName name = true) : unit '\x7d' ∉ name := by
    intro hmem
    exact ne_of_isWord (isWord_of_mem_name hname hmem) (by decide) rfl
  cases part with
  | literal text =>
    simp only [SegmentPart.isValid, Bool.and_eq_true, decide_eq_true_eq] at hvalid
    obtain ⟨⟨hne, hhead⟩, hall⟩ := hvalid
    obtain ⟨last, hscan, hlast⟩ := scan_letters config (List.all_eq_true.1 hall)
      (fun _ => hhead) s
    exact ⟨last, hscan, hlast.resolve_left fun h => hne h.1⟩
  | colon name =>
    have hname : isName name = true := hvalid
    have hfound : colonName (some (unit '/')) (unit ':' :: (name ++ s)) = some name := by
      rw [colonName, if_pos ⟨rfl, rfl⟩, identifier_eq hname fun u hu => (hs u hu).1]
    obtain ⟨last, hscan, hlast⟩ := scan_skip config (some (unit ':')) name s
    refine ⟨last, ?_, ?_⟩
    · rw [SegmentPart.text, List.cons_append, scan, braceSpec_of_ne (by decide), hfound]
      dsimp only
      rw [hscan]
      cases scan config last 0 s <;> rfl
    · rcases hlast with ⟨rfl, -⟩ | ⟨u, hu, rfl⟩
      · exact absurd hname (by decide)
      · exact hword (isWord_of_mem_name hname hu)
  | brace name =>
    have hname : isName name = true := hvalid
    obtain ⟨last, hscan, hlast⟩ :=
      scan_brace (hclose hname) (bracePiece_name config hname) (some (unit '/')) s
    refine ⟨last, hscan, ?_⟩
    rcases hlast with rfl | ⟨u, hu, rfl⟩
    · decide
    · exact hword (isWord_of_mem_name hname hu)
  | braceDoubleStar name =>
    have hname : isName name = true := hvalid
    have hspec : unit '\x7d' ∉ name ++ js "=**" := by
      rw [List.mem_append]
      exact not_or.2 ⟨hclose hname, by decide⟩
    obtain ⟨last, hscan, hlast⟩ :=
      scan_brace hspec (bracePiece_doubleStar hname hwild) (some (unit '/')) s
    refine ⟨last, hscan, ?_⟩
    rcases hlast with rfl | ⟨u, hu, rfl⟩
    · decide
    · rcases List.mem_append.1 hu with hu | hu
      · exact hword (isWord_of_mem_name hname hu)
      · intro heq
        rw [Option.some.inj heq] at hu
        exact absurd hu (by decide)
  | star =>
    have hhead : s.head? ≠ some (unit '*') := fun heq => (hs _ heq).2 rfl
    refine ⟨some (unit '*'), ?_, by decide⟩
    rw [SegmentPart.text, List.singleton_append, scan, braceSpec_of_ne (by decide),
      colonName_of_ne (by decide)]
    dsimp only
    rw [if_pos rfl, hwild, Bool.not_true, if_neg Bool.false_ne_true, if_neg hhead]
    cases scan config (some (unit '*')) 0 s <;> rfl
  | doubleStar =>
    refine ⟨some (unit '*'), ?_, by decide⟩
    rw [SegmentPart.text, List.cons_append, List.singleton_append, scan,
      braceSpec_of_ne (by decide), colonName_of_ne (by decide)]
    dsimp only
    rw [if_pos rfl, hwild, Bool.not_true, if_neg Bool.false_ne_true, List.head?_cons, if_pos rfl, scan]
    cases scan config (some (unit '*')) 0 s <;> rfl

/-- **A template is read as its segments.** -/
theorem scan_templateText (previous : Option UInt16)
    (hvalid : ∀ segment ∈ segments, segment.isValid = true)
    (hwild : config.enableWildcards = true) :
    scan config previous 0 (templateText segments) = some (templatePieces segments) := by
  induction segments generalizing previous with
  | nil => rfl
  | cons segment segments ih =>
    obtain ⟨hsegment, hsegments⟩ := List.forall_mem_cons.1 hvalid
    obtain ⟨hpart, hverb⟩ := isValid_iff.1 hsegment
    have hslash : unit '/' ∉ js "*(){}" := by decide
    have hbound := atBoundary_templateText segments
    obtain ⟨middle, hmiddle, hnot⟩ := scan_part hpart hwild (afterPart_verb hverb hbound)
    obtain ⟨last, hlast, -⟩ := scan_letters config
      (fun u hu => isLiteralUnit_of_mem_verb hverb hu) (fun heq => absurd heq hnot)
      (templateText segments)
    rw [templateText, List.flatMap_cons, List.cons_append, TemplateSegment.text, List.append_assoc,
      scan_literal hslash (fun _ => by decide)]
    have hrest : scan config last 0 (segments.flatMap fun segment => unit '/' :: segment.text) =
        some (templatePieces segments) := ih last hsegments
    unfold templateText at hmiddle hlast
    rw [hmiddle, hlast, hrest]
    simp only [Option.map_some, templatePieces, List.flatMap_cons, List.cons_append,
      List.append_assoc]

end Kinglet.Gateway
