import Kinglet.Gateway.Captures
import Kinglet.Gateway.TemplateSegments
import Kinglet.Js.Value

/-!
# The values of path parameters

A path fills the segments of a template with values. The router lists the names of a template in
braces before those with a colon, but the groups of its pattern stand in the order of the segments,
wildcards without a name have groups as well, and `{name=**}` has two. So each name gets the value of
its own segment exactly for orderly templates (`extracts_iff`).
-/

namespace Kinglet.Gateway

open Js

/-! ## Values -/

/-- The values that a part takes: those without a slash, for a multi-segment part a list of them,
and for a literal its text. -/
def SegmentPart.Accepts : SegmentPart → JsString → Prop
  | .literal text, value => value = text
  | .colon _, value | .brace _, value | .star, value => value ≠ [] ∧ unit '/' ∉ value
  | .doubleStar, value | .braceDoubleStar _, value =>
      ∃ values : List JsString, values ≠ [] ∧ value = join [unit '/'] values ∧
        ∀ v ∈ values, (v ≠ [] ∧ unit '/' ∉ v) ∧ ∀ u ∈ v, isLineTerminator u = false

/-- The segments with their values. -/
def Fills (segments : List TemplateSegment) (filled : List (TemplateSegment × JsString)) : Prop :=
  filled.map Prod.fst = segments ∧ ∀ p ∈ filled, p.1.part.Accepts p.2

/-- The path with the values in place of the parts. -/
def filledPath (filled : List (TemplateSegment × JsString)) : JsString :=
  filled.flatMap fun p => unit '/' :: (p.2 ++ p.1.verb)

/-- The values of the names. -/
def assigned (filled : List (TemplateSegment × JsString)) : List (JsString × JsString) :=
  filled.filterMap fun p => p.1.part.name.map fun name => (name, p.2)

/-- `params[name]`. Setting `__proto__` to a text does nothing. -/
def param (params : List (JsString × JsString)) (name : JsString) : Option JsString :=
  if name = js "__proto__" then none else params.reverse.lookup name

/-- Each name has its value, and no other name has one. -/
def Extracts {Handler : Type} (config : RouterConfig) (registered : RouteDefinition Handler)
    (filled : List (TemplateSegment × JsString)) : Prop :=
  ∃ found, matchRoute config registered (requestPath config (filledPath filled)) = some found ∧
    ∀ name, param found.params name = (assigned filled).lookup name

/-- A named segment may follow the segment: no wildcard without a name and no `{name=**}` stands
before a name, and no name with a colon before one in braces. -/
def SegmentPart.mayPrecede : SegmentPart → SegmentPart → Bool
  | _, .literal _ | _, .star | _, .doubleStar => true
  | .literal _, _ | .brace _, _ => true
  | .colon _, .colon _ => true
  | _, _ => false

structure Orderly (segments : List TemplateSegment) : Prop where
  order : segments.Pairwise fun first second => first.part.mayPrecede second.part = true
  proto : ∀ segment ∈ segments, segment.part.name ≠ some (js "__proto__")

variable {Handler : Type} {builtins : Builtins} {config : RouterConfig}
  {segment : TemplateSegment} {segments : List TemplateSegment}
  {filled : List (TemplateSegment × JsString)} {text body s : JsString}

/-! ## Filled paths -/

theorem unbroken_join {values : List JsString} (hne : values ≠ [])
    (hvalues : ∀ v ∈ values, v ≠ [] ∧ unit '/' ∉ v) (h : Unbroken s) :
    Unbroken (unit '/' :: (join [unit '/'] values ++ s)) := by
  induction values with
  | nil => exact absurd rfl hne
  | cons v values ih =>
    obtain ⟨⟨hv, hslash⟩, hvalues⟩ := List.forall_mem_cons.1 hvalues
    by_cases hnil : values = []
    · subst hnil
      rw [join, List.intersperse_singleton, List.flatten_singleton]
      exact unbroken_slash hv hslash h
    · rw [join_cons (unit '/') v hnil, List.append_assoc]
      exact unbroken_slash hv hslash (ih hnil hvalues)

/-- A value starts a segment that is not empty, and none in it is. -/
theorem unbroken_value {part : SegmentPart} {value : JsString} (hpart : part.isValid = true)
    (h : part.Accepts value) (hs : Unbroken s) : Unbroken (unit '/' :: (value ++ s)) := by
  cases part with
  | literal text =>
    obtain rfl : value = text := h
    obtain ⟨hne, hslash⟩ := SegmentPart.text_spec hpart
    exact unbroken_slash hne hslash hs
  | colon _ | brace _ | star => exact unbroken_slash h.1 h.2 hs
  | doubleStar | braceDoubleStar _ =>
    obtain ⟨values, hne, rfl, hvalues⟩ := h
    exact unbroken_join hne (fun v hv => (hvalues v hv).1) hs

theorem unbroken_filledPath (hvalid : ∀ p ∈ filled, p.1.isValid = true)
    (haccepts : ∀ p ∈ filled, p.1.part.Accepts p.2) : Unbroken (filledPath filled) := by
  induction filled with
  | nil => exact unbroken_nil
  | cons p filled ih =>
    obtain ⟨hp, hvalid⟩ := List.forall_mem_cons.1 hvalid
    obtain ⟨hvalue, haccepts⟩ := List.forall_mem_cons.1 haccepts
    obtain ⟨hpart, hverb⟩ := isValid_iff.1 hp
    rw [filledPath, List.flatMap_cons, List.cons_append, List.append_assoc]
    exact unbroken_value hpart hvalue (unbroken_append (slash_notMem_verb hverb) (ih hvalid haccepts))

/-! ## The groups of a template -/

/-- How many groups of the pattern a part has. -/
def SegmentPart.groups : SegmentPart → ℕ
  | .literal _ => 0
  | .colon _ | .brace _ | .star | .doubleStar => 1
  | .braceDoubleStar _ => 2

def templateNodes (segments : List TemplateSegment) : List Node :=
  (templatePieces segments).map Piece.node

/-- The texts that a part matches. -/
def PartMatches (config : RouterConfig) : SegmentPart → JsString → Prop
  | .literal text, v => v.map (foldCase config) = text.map (foldCase config)
  | .colon _, v | .brace _, v | .star, v => v ≠ [] ∧ unit '/' ∉ v
  | .doubleStar, v | .braceDoubleStar _, v => ∀ u ∈ v, isLineTerminator u = false

variable {x : JsString} {groups groups' : List JsString}

theorem captures_part {part : SegmentPart} {rest : List Node} :
    Captures config (part.pieces.map Piece.node ++ rest) x groups ↔
      ∃ v x' groups', x = v ++ x' ∧ PartMatches config part v ∧
        groups = List.replicate part.groups v ++ groups' ∧ Captures config rest x' groups' := by
  cases part with
  | literal text =>
    have hletters : (SegmentPart.literal text).pieces.map Piece.node = text.map Node.char := by
      rw [SegmentPart.pieces, List.map_map]
      rfl
    rw [hletters, captures_letters]
    constructor
    · rintro ⟨v, x', rfl, hv, h⟩
      exact ⟨v, x', groups, rfl, hv, rfl, h⟩
    · rintro ⟨v, x', groups', rfl, hv, rfl, h⟩
      exact ⟨v, x', rfl, hv, h⟩
  | colon _ | brace _ | star | doubleStar | braceDoubleStar _ => exact Iff.rfl

theorem templateNodes_cons (segment : TemplateSegment) (segments : List TemplateSegment) :
    templateNodes (segment :: segments) = .char (unit '/') :: (segment.part.pieces.map Piece.node ++
      (segment.verb.map Node.char ++ templateNodes segments)) := by
  simp only [templateNodes, templatePieces, List.flatMap_cons, List.map_cons, List.map_append,
    List.cons_append, List.append_assoc, List.map_map]
  rfl

theorem captures_cons : Captures config (templateNodes (segment :: segments)) x groups ↔
    ∃ v w rest groups', x = unit '/' :: (v ++ (w ++ rest)) ∧ PartMatches config segment.part v ∧
      w.map (foldCase config) = segment.verb.map (foldCase config) ∧
      groups = List.replicate segment.part.groups v ++ groups' ∧
      Captures config (templateNodes segments) rest groups' := by
  have hslash : foldCase config (unit '/') = unit '/' := foldCase_eq_slash.2 rfl
  rw [templateNodes_cons]
  constructor
  · rintro ⟨u, x', rfl, hfold, h⟩
    obtain rfl : u = unit '/' := foldCase_eq_slash.1 (hfold.symm.trans hslash)
    obtain ⟨v, x', groups', rfl, hv, rfl, hverb⟩ := captures_part.1 h
    obtain ⟨w, rest, rfl, hw, hrest⟩ := captures_letters.1 hverb
    exact ⟨v, w, rest, groups', rfl, hv, hw, rfl, hrest⟩
  · rintro ⟨v, w, rest, groups', rfl, hv, hw, rfl, h⟩
    exact ⟨unit '/', _, rfl, rfl,
      captures_part.2 ⟨v, _, groups', rfl, hv, rfl, captures_letters.2 ⟨w, rest, rfl, hw, h⟩⟩⟩

/-- The case of the registered template does not matter. -/
theorem captures_folded : Captures config (templateNodes (segments.map (TemplateSegment.folded config)))
    x groups ↔ Captures config (templateNodes segments) x groups := by
  induction segments generalizing x groups with
  | nil => exact Iff.rfl
  | cons segment segments ih =>
    have hfold (text : JsString) :
        (text.map (foldCase config)).map (foldCase config) = text.map (foldCase config) := by
      rw [List.map_map]
      exact List.map_congr_left fun u _ => foldCase_foldCase u
    have hverb : (segment.folded config).verb.map (foldCase config) =
        segment.verb.map (foldCase config) := by
      obtain ⟨part, verb⟩ := segment
      cases part with
      | literal _ | star | doubleStar => exact hfold verb
      | colon _ | brace _ | braceDoubleStar _ => rfl
    have hpart (v : JsString) : PartMatches config (segment.folded config).part v ↔
        PartMatches config segment.part v := by
      obtain ⟨part, verb⟩ := segment
      cases part with
      | literal text => rw [TemplateSegment.folded, PartMatches, PartMatches, hfold]
      | star | doubleStar | colon _ | brace _ | braceDoubleStar _ => exact Iff.rfl
    have hgroups : (segment.folded config).part.groups = segment.part.groups := by
      obtain ⟨part, verb⟩ := segment
      cases part <;> rfl
    rw [List.map_cons, captures_cons, captures_cons]
    simp only [hverb, hpart, hgroups, ih]

theorem atBoundary_of_captures (h : Captures config (templateNodes segments) x groups) :
    AtBoundary x := by
  cases segments with
  | nil => exact .inl h.1
  | cons segment segments =>
    obtain ⟨v, w, rest, groups', rfl, -⟩ := captures_cons.1 h
    exact .inr ⟨_, rfl⟩

theorem slash_notMem_of_fold {a b : JsString}
    (h : a.map (foldCase config) = b.map (foldCase config)) (hb : unit '/' ∉ b) : unit '/' ∉ a := by
  intro hmem
  have hfold := List.mem_map_of_mem (f := foldCase config) hmem
  rw [h] at hfold
  obtain ⟨u, hu, heq⟩ := List.mem_map.1 hfold
  rw [foldCase_eq_slash.2 rfl] at heq
  exact hb (foldCase_eq_slash.1 heq ▸ hu)

theorem slash_notMem_of_partMatches {part : SegmentPart} {v : JsString}
    (hvalid : part.isValid = true) (hmulti : part.isMulti = false) (h : PartMatches config part v) :
    unit '/' ∉ v := by
  cases part with
  | literal text => exact slash_notMem_of_fold h (SegmentPart.text_spec hvalid).2
  | colon _ | brace _ | star => exact h.2
  | doubleStar | braceDoubleStar _ => cases hmulti

/-- Without a multi-segment part, each segment of the text is one of the template. -/
theorem count_of_captures (hvalid : ∀ segment ∈ segments, segment.isValid = true)
    (hmulti : ∀ segment ∈ segments, segment.part.isMulti = false)
    (h : Captures config (templateNodes segments) x groups) : x.count (unit '/') = segments.length := by
  induction segments generalizing x groups with
  | nil =>
    rw [h.1]
    rfl
  | cons segment segments ih =>
    obtain ⟨hsegment, hvalid⟩ := List.forall_mem_cons.1 hvalid
    obtain ⟨hsingle, hmulti⟩ := List.forall_mem_cons.1 hmulti
    obtain ⟨hpart, hverb⟩ := isValid_iff.1 hsegment
    obtain ⟨v, w, rest, groups', rfl, hv, hw, -, h⟩ := captures_cons.1 h
    have hvslash := slash_notMem_of_partMatches hpart hsingle hv
    have hwslash := slash_notMem_of_fold hw (slash_notMem_verb hverb)
    rw [List.count_cons_self, List.count_append, List.count_append,
      List.count_eq_zero_of_not_mem hvslash, List.count_eq_zero_of_not_mem hwslash, ih hvalid hmulti h,
      List.length_cons]
    omega

/-- Two ways to cut a text at a boundary are one when no slash is before it, -/
theorem eq_of_append_boundary {a b r t : JsString} (ha : unit '/' ∉ a) (hb : unit '/' ∉ b)
    (hr : AtBoundary r) (ht : AtBoundary t) (h : a ++ r = b ++ t) : a = b := by
  have htest {l : JsString} (hl : unit '/' ∉ l) : ∀ u ∈ l, decide (u ≠ unit '/') = true := by
    intro u hu
    exact decide_eq_true fun heq => hl (heq ▸ hu)
  have hrun := congrArg (List.takeWhile (· ≠ unit '/')) h
  rwa [takeWhile_boundary (htest ha) (by decide) hr, takeWhile_boundary (htest hb) (by decide) ht] at hrun

/-- or when as many slashes are behind it. -/
theorem eq_of_append_count {a b r t : JsString} (hr : AtBoundary r) (ht : AtBoundary t)
    (hcount : r.count (unit '/') = t.count (unit '/')) (h : a ++ r = b ++ t) : a = b := by
  have hnil {c r t : JsString} (hr : AtBoundary r) (hsplit : r = c ++ t)
      (hcount : r.count (unit '/') = t.count (unit '/')) : c = [] := by
    cases c with
    | nil => rfl
    | cons u c =>
      rcases hr with rfl | ⟨rest, rfl⟩
      · exact absurd hsplit.symm (List.cons_ne_nil _ _)
      · obtain ⟨rfl, hrest⟩ := List.cons.inj hsplit
        rw [hrest, List.count_cons_self] at hcount
        have hle := (List.sublist_append_right c t).count_le (unit '/')
        have hsame : (c.append t).count (unit '/') = (c ++ t).count (unit '/') := rfl
        omega
  rcases List.append_eq_append_iff.1 h with ⟨c, rfl, hsplit⟩ | ⟨c, rfl, hsplit⟩
  · rw [hnil hr hsplit hcount, List.append_nil]
  · rw [hnil ht hsplit hcount.symm, List.append_nil]

/-- **The groups of a path are determined**: at most one part takes more than one segment. -/
theorem captures_unique (hvalid : ∀ segment ∈ segments, segment.isValid = true)
    (hmulti : (segments.filter fun segment => segment.part.isMulti).length ≤ 1)
    (h : Captures config (templateNodes segments) x groups)
    (h' : Captures config (templateNodes segments) x groups') : groups = groups' := by
  induction segments generalizing x groups groups' with
  | nil => exact h.2.trans h'.2.symm
  | cons segment segments ih =>
    obtain ⟨hsegment, hvalid⟩ := List.forall_mem_cons.1 hvalid
    obtain ⟨hpart, hverb⟩ := isValid_iff.1 hsegment
    obtain ⟨v, w, rest, found, rfl, hv, hw, rfl, hrest⟩ := captures_cons.1 h
    obtain ⟨v', w', rest', found', heq, hv', hw', rfl, hrest'⟩ := captures_cons.1 h'
    have htext : (v ++ w) ++ rest = (v' ++ w') ++ rest' := by
      simpa only [List.append_assoc] using (List.cons.inj heq).2
    have hlength : w.length = w'.length := by
      have hverbs := congrArg List.length (hw.trans hw'.symm)
      rwa [List.length_map, List.length_map] at hverbs
    have hfront : v ++ w = v' ++ w' := by
      by_cases hsingle : segment.part.isMulti = false
      · have hslash {a b : JsString} (ha : PartMatches config segment.part a)
            (hb : b.map (foldCase config) = segment.verb.map (foldCase config)) :
            unit '/' ∉ a ++ b := by
          rw [List.mem_append]
          exact not_or.2 ⟨slash_notMem_of_partMatches hpart hsingle ha,
            slash_notMem_of_fold hb (slash_notMem_verb hverb)⟩
        exact eq_of_append_boundary (hslash hv hw) (hslash hv' hw') (atBoundary_of_captures hrest)
          (atBoundary_of_captures hrest') htext
      · rw [Bool.not_eq_false] at hsingle
        have hnone : ∀ other ∈ segments, other.part.isMulti = false := by
          rw [List.filter_cons, if_pos hsingle, List.length_cons] at hmulti
          have hempty := List.length_eq_zero_iff.1 (Nat.le_zero.1 (Nat.le_of_succ_le_succ hmulti))
          intro other hother
          exact Bool.not_eq_true _ ▸ List.filter_eq_nil_iff.1 hempty other hother
        exact eq_of_append_count (atBoundary_of_captures hrest) (atBoundary_of_captures hrest')
          ((count_of_captures hvalid hnone hrest).trans (count_of_captures hvalid hnone hrest').symm) htext
    obtain ⟨rfl, rfl⟩ := List.append_inj' hfront hlength
    obtain rfl := List.append_cancel_left htext
    have hle : (segments.filter fun segment => segment.part.isMulti).length ≤ 1 :=
      ((List.sublist_cons_self segment segments).filter _).length_le.trans hmulti
    rw [ih hvalid hle hrest hrest']

/-! ## The values found -/

/-- The texts of the groups. -/
def fillGroups (filled : List (TemplateSegment × JsString)) : List JsString :=
  filled.flatMap fun p => List.replicate p.1.part.groups p.2

theorem partMatches_of_accepts {part : SegmentPart} {value : JsString} (h : part.Accepts value) :
    PartMatches config part value := by
  cases part with
  | literal text => exact congrArg (List.map (foldCase config)) h
  | colon _ | brace _ | star => exact h
  | doubleStar | braceDoubleStar _ =>
    obtain ⟨values, -, rfl, hvalues⟩ := h
    intro u hu
    rcases mem_join hu with hslash | ⟨v, hv, hmem⟩
    · rw [List.mem_singleton.1 hslash]
      decide
    · exact (hvalues v hv).2 u hmem

theorem captures_filled (config : RouterConfig) (h : ∀ p ∈ filled, p.1.part.Accepts p.2) :
    Captures config (templateNodes (filled.map Prod.fst)) (filledPath filled) (fillGroups filled) := by
  induction filled with
  | nil => exact ⟨rfl, rfl⟩
  | cons p filled ih =>
    obtain ⟨hp, h⟩ := List.forall_mem_cons.1 h
    rw [List.map_cons, captures_cons]
    refine ⟨p.2, p.1.verb, filledPath filled, fillGroups filled, ?_, partMatches_of_accepts hp, rfl,
      rfl, ih h⟩
    rw [filledPath, List.flatMap_cons, List.cons_append, List.append_assoc]
    rfl

/-- The names of the pattern: those in braces first. -/
def paramNames (segments : List TemplateSegment) : List JsString :=
  (templatePieces segments).filterMap Piece.bracedName ++
    (templatePieces segments).filterMap Piece.colonName

theorem filterMap_templatePieces {α : Type} {f : Piece → Option α} (hf : ∀ u, f (.literal u) = none)
    (segment : TemplateSegment) (segments : List TemplateSegment) :
    (templatePieces (segment :: segments)).filterMap f =
      segment.part.pieces.filterMap f ++ (templatePieces segments).filterMap f := by
  have hverb : (segment.verb.map Piece.literal).filterMap f = [] := by
    refine List.filterMap_eq_nil_iff.2 fun piece hpiece => ?_
    obtain ⟨u, -, rfl⟩ := List.mem_map.1 hpiece
    exact hf u
  rw [templatePieces, List.flatMap_cons, List.cons_append, List.filterMap_cons_none (hf _),
    List.append_assoc, List.filterMap_append, List.filterMap_append, hverb, List.nil_append]
  rfl

def SegmentPart.bracedNames (part : SegmentPart) : List JsString :=
  part.pieces.filterMap Piece.bracedName

def SegmentPart.colonNames (part : SegmentPart) : List JsString :=
  part.pieces.filterMap Piece.colonName

theorem literal_names (text : JsString) : (SegmentPart.literal text).bracedNames = [] ∧
    (SegmentPart.literal text).colonNames = [] := by
  constructor
  · refine List.filterMap_eq_nil_iff.2 fun piece hpiece => ?_
    obtain ⟨u, -, rfl⟩ := List.mem_map.1 hpiece
    rfl
  · refine List.filterMap_eq_nil_iff.2 fun piece hpiece => ?_
    obtain ⟨u, -, rfl⟩ := List.mem_map.1 hpiece
    rfl

theorem paramNames_eq (segments : List TemplateSegment) :
    paramNames segments = segments.flatMap (fun segment => segment.part.bracedNames) ++
      segments.flatMap fun segment => segment.part.colonNames := by
  have hall {f : Piece → Option JsString} (hf : ∀ u, f (.literal u) = none) :
      (templatePieces segments).filterMap f =
        segments.flatMap fun segment => segment.part.pieces.filterMap f := by
    induction segments with
    | nil => rfl
    | cons segment segments ih => rw [filterMap_templatePieces hf, ih, List.flatMap_cons]
  rw [paramNames, hall fun _ => rfl, hall fun _ => rfl]
  rfl

/-- A name in braces comes before all others, -/
theorem paramNames_cons {part : SegmentPart} (h : part.colonNames = []) (verb : JsString)
    (segments : List TemplateSegment) :
    paramNames (⟨part, verb⟩ :: segments) = part.bracedNames ++ paramNames segments := by
  rw [paramNames_eq, paramNames_eq, List.flatMap_cons, List.flatMap_cons, h, List.nil_append,
    List.append_assoc]

/-- and one with a colon comes after those in braces. -/
theorem paramNames_colon (name verb : JsString) (segments : List TemplateSegment) :
    paramNames (⟨.colon name, verb⟩ :: segments) =
      segments.flatMap (fun segment => segment.part.bracedNames) ++
        name :: segments.flatMap fun segment => segment.part.colonNames := by
  rw [paramNames_eq, List.flatMap_cons, List.flatMap_cons]
  rfl

theorem paramNames_folded : paramNames (segments.map (TemplateSegment.folded config)) =
    paramNames segments := by
  have hbraced (segment : TemplateSegment) :
      (segment.folded config).part.bracedNames = segment.part.bracedNames := by
    obtain ⟨part, verb⟩ := segment
    cases part with
    | literal text => exact (literal_names _).1.trans (literal_names text).1.symm
    | star | doubleStar | colon _ | brace _ | braceDoubleStar _ => rfl
  have hcolon (segment : TemplateSegment) :
      (segment.folded config).part.colonNames = segment.part.colonNames := by
    obtain ⟨part, verb⟩ := segment
    cases part with
    | literal text => exact (literal_names _).2.trans (literal_names text).2.symm
    | star | doubleStar | colon _ | brace _ | braceDoubleStar _ => rfl
  rw [paramNames_eq, paramNames_eq, List.flatMap_map, List.flatMap_map]
  simp only [hbraced, hcolon]

/-- The names of the pattern are those of the segments, in another order. -/
theorem paramNames_perm (segments : List TemplateSegment) :
    (paramNames segments).Perm (segments.filterMap fun segment => segment.part.name) := by
  rw [paramNames_eq]
  induction segments with
  | nil => exact List.Perm.nil
  | cons segment segments ih =>
    obtain ⟨part, verb⟩ := segment
    rw [List.flatMap_cons, List.flatMap_cons]
    cases part with
    | literal text =>
      rw [(literal_names text).1, (literal_names text).2]
      exact ih
    | star => exact ih
    | doubleStar => exact ih
    | brace name => exact ih.cons name
    | braceDoubleStar name => exact ih.cons name
    | colon name => exact List.perm_middle.trans (ih.cons name)

/-! ## Orderly templates -/

theorem names_of_mayPrecede {part other : SegmentPart} (h : part.mayPrecede other = true) :
    (∀ name, part = .colon name → other.bracedNames = []) ∧
      (part = .star ∨ part = .doubleStar ∨ (∃ name, part = .braceDoubleStar name) →
        other.bracedNames = [] ∧ other.colonNames = []) := by
  cases other with
  | literal text =>
    exact ⟨fun _ _ => (literal_names text).1, fun _ => literal_names text⟩
  | star => exact ⟨fun _ _ => rfl, fun _ => ⟨rfl, rfl⟩⟩
  | doubleStar => exact ⟨fun _ _ => rfl, fun _ => ⟨rfl, rfl⟩⟩
  | colon other =>
    refine ⟨fun _ _ => rfl, ?_⟩
    rintro (rfl | rfl | ⟨name, rfl⟩)
    · cases h
    · cases h
    · cases h
  | brace other =>
    refine ⟨?_, ?_⟩
    · rintro name rfl
      cases h
    · rintro (rfl | rfl | ⟨name, rfl⟩)
      · cases h
      · cases h
      · cases h
  | braceDoubleStar other =>
    refine ⟨?_, ?_⟩
    · rintro name rfl
      cases h
    · rintro (rfl | rfl | ⟨name, rfl⟩)
      · cases h
      · cases h
      · cases h

theorem mayPrecede_of_names {part other : SegmentPart} (hbraced : other.bracedNames = [])
    (hcolon : (∃ name, part = .colon name) ∨ other.colonNames = []) :
    part.mayPrecede other = true := by
  cases other with
  | literal _ => cases part <;> rfl
  | star => cases part <;> rfl
  | doubleStar => cases part <;> rfl
  | brace _ => cases hbraced
  | braceDoubleStar _ => cases hbraced
  | colon _ =>
    rcases hcolon with ⟨name, rfl⟩ | hcolon
    · rfl
    · cases hcolon

theorem mayPrecede_literal (text : JsString) (other : SegmentPart) :
    (SegmentPart.literal text).mayPrecede other = true := by
  cases other <;> rfl

theorem mayPrecede_brace (name : JsString) (other : SegmentPart) :
    (SegmentPart.brace name).mayPrecede other = true := by
  cases other <;> rfl

theorem fillGroups_cons (segment : TemplateSegment) (value : JsString)
    (filled : List (TemplateSegment × JsString)) :
    fillGroups ((segment, value) :: filled) =
      List.replicate segment.part.groups value ++ fillGroups filled := rfl

/-- In an orderly template the names stand beside their values. -/
theorem zip_of_order (h : (filled.map Prod.fst).Pairwise fun first second =>
      first.part.mayPrecede second.part = true) :
    (paramNames (filled.map Prod.fst)).zip (fillGroups filled) = assigned filled := by
  induction filled with
  | nil => rfl
  | cons p filled ih =>
    obtain ⟨⟨part, verb⟩, value⟩ := p
    rw [List.map_cons, List.pairwise_cons] at h
    obtain ⟨hfirst, htail⟩ := h
    have ih := ih htail
    have hempty (hpart : part = .star ∨ part = .doubleStar ∨ ∃ name, part = .braceDoubleStar name) :
        paramNames (filled.map Prod.fst) = [] := by
      have hnone := fun segment hmem => (names_of_mayPrecede (hfirst segment hmem)).2 hpart
      rw [paramNames_eq, List.flatMap_eq_nil_iff.2 fun segment hmem => (hnone segment hmem).1,
        List.flatMap_eq_nil_iff.2 fun segment hmem => (hnone segment hmem).2, List.append_nil]
    rw [List.map_cons, fillGroups_cons]
    cases part with
    | literal text =>
      rw [paramNames_cons (literal_names text).2, (literal_names text).1]
      exact ih
    | brace name =>
      rw [paramNames_cons rfl]
      exact congrArg ((name, value) :: ·) ih
    | colon name =>
      have hbraced : ((filled.map Prod.fst).flatMap fun segment => segment.part.bracedNames) = [] :=
        List.flatMap_eq_nil_iff.2 fun segment hmem =>
          (names_of_mayPrecede (hfirst segment hmem)).1 name rfl
      rw [paramNames_eq, hbraced] at ih
      rw [paramNames_colon, hbraced]
      exact congrArg ((name, value) :: ·) ih
    | star =>
      rw [paramNames_cons rfl, hempty (.inl rfl)]
      rw [hempty (.inl rfl)] at ih
      exact ih
    | doubleStar =>
      rw [paramNames_cons rfl, hempty (.inr (.inl rfl))]
      rw [hempty (.inr (.inl rfl))] at ih
      exact ih
    | braceDoubleStar name =>
      rw [paramNames_cons rfl, hempty (.inr (.inr ⟨name, rfl⟩))]
      rw [hempty (.inr (.inr ⟨name, rfl⟩))] at ih
      exact congrArg ((name, value) :: ·) ih

/-! ## Samples -/

/-- A value of its own length for each segment. -/
def sampleValue (k : ℕ) : SegmentPart → JsString
  | .literal text => text
  | _ => List.replicate (k + 1) (unit 'a')

def sampleFill : ℕ → List TemplateSegment → List (TemplateSegment × JsString)
  | _, [] => []
  | k, segment :: segments => (segment, sampleValue k segment.part) :: sampleFill (k + 1) segments

theorem map_sampleFill (k : ℕ) (segments : List TemplateSegment) :
    (sampleFill k segments).map Prod.fst = segments := by
  induction segments generalizing k with
  | nil => rfl
  | cons segment segments ih => exact congrArg (segment :: ·) (ih (k + 1))

theorem accepts_sampleValue (k : ℕ) (part : SegmentPart) : part.Accepts (sampleValue k part) := by
  have hne : List.replicate (k + 1) (unit 'a') ≠ [] := by
    rw [List.replicate_succ]
    exact List.cons_ne_nil _ _
  have hslash : unit '/' ∉ List.replicate (k + 1) (unit 'a') := by
    intro hmem
    exact absurd (List.eq_of_mem_replicate hmem) (by decide)
  cases part with
  | literal _ => rfl
  | colon _ | brace _ | star => exact ⟨hne, hslash⟩
  | doubleStar | braceDoubleStar _ =>
    refine ⟨[List.replicate (k + 1) (unit 'a')], List.cons_ne_nil _ _, ?_, ?_⟩
    · rw [join, List.intersperse_singleton, List.flatten_singleton]
      rfl
    · intro v hv
      rw [List.mem_singleton.1 hv]
      refine ⟨⟨hne, hslash⟩, fun u hu => ?_⟩
      rw [List.eq_of_mem_replicate hu]
      decide

theorem fills_sampleFill (k : ℕ) (segments : List TemplateSegment) :
    Fills segments (sampleFill k segments) := by
  refine ⟨map_sampleFill k segments, ?_⟩
  induction segments generalizing k with
  | nil => exact fun p hp => absurd hp List.not_mem_nil
  | cons segment segments ih =>
    exact List.forall_mem_cons.2 ⟨accepts_sampleValue k segment.part, ih (k + 1)⟩

/-- Later values are longer. -/
theorem length_of_mem_assigned {k : ℕ} {name value : JsString}
    (h : (name, value) ∈ assigned (sampleFill k segments)) : k < value.length := by
  induction segments generalizing k with
  | nil => exact absurd h List.not_mem_nil
  | cons segment segments ih =>
    obtain ⟨⟨other, found⟩, hmem, heq⟩ := List.mem_filterMap.1 h
    rcases List.mem_cons.1 hmem with hp | hmem
    · obtain ⟨rfl, rfl⟩ := Prod.mk.inj hp
      obtain ⟨_, hname, heq⟩ := Option.map_eq_some_iff.1 heq
      obtain ⟨-, rfl⟩ := Prod.mk.inj heq
      obtain ⟨part, verb⟩ := other
      have hlong : k < (List.replicate (k + 1) (unit 'a')).length := by
        rw [List.length_replicate]
        exact Nat.lt_succ_self k
      cases part with
      | literal text => cases hname
      | colon _ | brace _ | star | doubleStar | braceDoubleStar _ => exact hlong
    · have hlater := ih (List.mem_filterMap.2 ⟨_, hmem, heq⟩)
      omega

/-- **With values of different lengths, names stand beside their values in orderly templates
only.** -/
theorem order_of_sample {k : ℕ} (hnodup : (paramNames segments).Nodup)
    (h : ∀ p ∈ (paramNames segments).zip (fillGroups (sampleFill k segments)),
      p ∈ assigned (sampleFill k segments)) :
    segments.Pairwise fun first second => first.part.mayPrecede second.part = true := by
  induction segments generalizing k with
  | nil => exact List.Pairwise.nil
  | cons segment segments ih =>
    obtain ⟨part, verb⟩ := segment
    rw [sampleFill, fillGroups_cons] at h
    have hlater {name : JsString} :
        (name, List.replicate (k + 1) (unit 'a')) ∉ assigned (sampleFill (k + 1) segments) := by
      intro hmem
      have hlt := length_of_mem_assigned hmem
      rw [List.length_replicate] at hlt
      exact absurd hlt (Nat.lt_irrefl _)
    -- without further names, whatever follows may follow
    have hnone (hnil : paramNames segments = []) :
        ∀ segment ∈ segments, part.mayPrecede segment.part = true := by
      rw [paramNames_eq, List.append_eq_nil_iff, List.flatMap_eq_nil_iff,
        List.flatMap_eq_nil_iff] at hnil
      exact fun segment hmem =>
        mayPrecede_of_names (hnil.1 segment hmem) (.inr (hnil.2 segment hmem))
    have htail (hnil : paramNames segments = []) :
        segments.Pairwise fun first second => first.part.mayPrecede second.part = true := by
      refine ih (k := k) (hnil ▸ List.nodup_nil) ?_
      rw [hnil]
      exact fun p hp => absurd hp List.not_mem_nil
    rw [List.pairwise_cons]
    cases part with
    | literal text =>
      rw [paramNames_cons (literal_names text).2, (literal_names text).1, List.nil_append] at h hnodup
      exact ⟨fun segment _ => mayPrecede_literal text segment.part, ih hnodup h⟩
    | star | doubleStar =>
      rw [paramNames_cons rfl] at h
      cases hnames : paramNames segments with
      | nil => exact ⟨hnone hnames, htail hnames⟩
      | cons name names =>
        rw [hnames] at h
        exact absurd (h (name, _) List.mem_cons_self) hlater
    | brace name =>
      rw [paramNames_cons rfl] at h hnodup
      obtain ⟨hnew, hnodup⟩ := List.nodup_cons.1 hnodup
      refine ⟨fun segment _ => mayPrecede_brace name segment.part, ih (k := k + 1) hnodup ?_⟩
      rintro ⟨other, value⟩ hp
      rcases List.mem_cons.1 (h _ (List.mem_cons_of_mem _ hp)) with heq | hmem
      · exact absurd ((Prod.mk.inj heq).1 ▸ (List.of_mem_zip hp).1) hnew
      · exact hmem
    | braceDoubleStar name =>
      rw [paramNames_cons rfl] at h hnodup
      obtain ⟨hnew, -⟩ := List.nodup_cons.1 hnodup
      cases hnames : paramNames segments with
      | nil => exact ⟨hnone hnames, htail hnames⟩
      | cons other names =>
        rw [hnames] at h hnew
        rcases List.mem_cons.1 (h (other, _) (List.mem_cons_of_mem _ List.mem_cons_self))
          with heq | hmem
        · exact absurd ((Prod.mk.inj heq).1 ▸ List.mem_cons_self) hnew
        · exact absurd hmem hlater
    | colon name =>
      rw [paramNames_colon] at h hnodup
      cases hbraced : segments.flatMap fun segment => segment.part.bracedNames with
      | nil =>
        have hsame : paramNames segments =
            segments.flatMap fun segment => segment.part.colonNames := by
          rw [paramNames_eq, hbraced, List.nil_append]
        rw [hbraced, List.nil_append, ← hsame] at h hnodup
        obtain ⟨hnew, hnodup⟩ := List.nodup_cons.1 hnodup
        refine ⟨fun segment hmem => ?_, ih (k := k + 1) hnodup ?_⟩
        · exact mayPrecede_of_names (List.flatMap_eq_nil_iff.1 hbraced segment hmem)
            (.inl ⟨name, rfl⟩)
        · rintro ⟨other, value⟩ hp
          rcases List.mem_cons.1 (h _ (List.mem_cons_of_mem _ hp)) with heq | hmem
          · exact absurd ((Prod.mk.inj heq).1 ▸ (List.of_mem_zip hp).1) hnew
          · exact hmem
      | cons other names =>
        rw [hbraced] at h hnodup
        obtain ⟨hnew, -⟩ := List.nodup_cons.1 hnodup
        rcases List.mem_cons.1 (h (other, _) List.mem_cons_self) with heq | hmem
        · refine absurd ?_ hnew
          rw [(Prod.mk.inj heq).1]
          exact List.mem_append_right _ List.mem_cons_self
        · exact absurd hmem hlater

/-! ## The match -/

theorem captures_registered :
    Captures config (templateNodes (registeredSegments config segments)) text groups ↔
      Captures config (templateNodes segments) text groups := by
  unfold registeredSegments
  split_ifs
  · exact captures_folded
  · exact Iff.rfl

/-- The pattern of a registered template. -/
theorem pathToRegex_registered (hvalid : ValidTemplate segments)
    (hwild : config.enableWildcards = true)
    (hplain : includes (templateText (registeredSegments config segments)) (js "DOUBLE_WILDCARD") =
      false) :
    pathToRegex config (templateText (registeredSegments config segments)) =
      some ⟨templateNodes (registeredSegments config segments), paramNames segments⟩ := by
  have hregistered : ∀ segment ∈ registeredSegments config segments, segment.isValid = true := by
    unfold registeredSegments
    split_ifs
    · intro segment hmem
      obtain ⟨old, hold, rfl⟩ := List.mem_map.1 hmem
      exact isValid_folded (hvalid.valid old hold)
    · exact hvalid.valid
  have hnames : paramNames (registeredSegments config segments) = paramNames segments := by
    unfold registeredSegments
    split_ifs
    · exact paramNames_folded
    · rfl
  rw [pathToRegex, if_neg (by rw [hplain]; exact Bool.false_ne_true),
    scan_templateText none hregistered hwild, ← hnames]
  rfl

/-- **A filled path matches, with the values in the order of the segments.** -/
theorem matchRoute_filled {route : RouteDefinition Handler} (hlower : LowersAscii builtins)
    (hwild : config.enableWildcards = true) (htext : route.path = templateText segments)
    (hvalid : ValidTemplate segments)
    (hplain : includes (registeredPath builtins config route.path) (js "DOUBLE_WILDCARD") = false)
    (h : Fills segments filled) :
    ∃ score, matchRoute config (normalized builtins config route)
        (requestPath config (filledPath filled)) =
      some ⟨normalized builtins config route, (paramNames segments).zip (fillGroups filled), score⟩ := by
  obtain ⟨rfl, haccepts⟩ := h
  have hpath : (normalized builtins config route).path =
      templateText (registeredSegments config (filled.map Prod.fst)) := by
    rw [normalized, htext]
    exact registeredPath_templateText hlower hvalid.valid
  have hunbroken : Unbroken (filledPath filled) :=
    unbroken_filledPath (fun p hp => hvalid.valid p.1 (List.mem_map_of_mem hp)) haccepts
  have hexec : exec config (templateNodes (registeredSegments config (filled.map Prod.fst)))
      (filledPath filled) = some (fillGroups filled) := by
    have hcaptures := captures_filled config haccepts
    refine exec_eq_some_of_unique (captures_registered.2 hcaptures) fun other hother => ?_
    exact captures_unique hvalid.valid hvalid.multi (captures_registered.1 hother) hcaptures
  have hregex := pathToRegex_registered hvalid hwild
    (registeredPath_templateText hlower hvalid.valid ▸ htext ▸ hplain)
  refine ⟨Gateway.score (templateText (registeredSegments config (filled.map Prod.fst))), ?_⟩
  rw [matchRoute, hpath, requestPath_of_unbroken hunbroken, matchPath, hregex]
  dsimp only [Option.bind_eq_bind, Option.bind_some]
  rw [hexec]
  rfl

theorem assigned_keys (filled : List (TemplateSegment × JsString)) :
    (assigned filled).map Prod.fst =
      (filled.map Prod.fst).filterMap fun segment => segment.part.name := by
  rw [assigned, List.map_filterMap, List.filterMap_map]
  refine List.filterMap_congr fun p _ => ?_
  rw [Option.map_map]
  exact Option.map_id'

theorem keys_zip_sublist (names values : List JsString) :
    ((names.zip values).map Prod.fst).Sublist names := by
  induction names generalizing values with
  | nil => exact List.Sublist.slnil
  | cons name names ih =>
    cases values with
    | nil => exact List.nil_sublist _
    | cons value values => exact (ih values).cons_cons name

theorem nodup_keys_zip {names values : List JsString} (h : names.Nodup) :
    ((names.zip values).map Prod.fst).Nodup :=
  (keys_zip_sublist names values).nodup h

theorem lookup_reverse {fields : List (JsString × JsString)} (hnodup : (fields.map Prod.fst).Nodup)
    (name : JsString) : fields.reverse.lookup name = fields.lookup name := by
  have hreverse : (fields.reverse.map Prod.fst).Nodup := by
    rw [List.map_reverse]
    exact List.nodup_reverse.2 hnodup
  ext value
  rw [lookup_eq_some_iff_mem hreverse, lookup_eq_some_iff_mem hnodup, List.mem_reverse]

theorem exists_assigned {name : JsString}
    (h : name ∈ (filled.map Prod.fst).filterMap fun segment => segment.part.name) :
    ∃ value, (name, value) ∈ assigned filled := by
  rw [← assigned_keys] at h
  obtain ⟨⟨_, value⟩, hmem, rfl⟩ := List.mem_map.1 h
  exact ⟨value, hmem⟩

/-- **A route hands out the values of its parameters exactly when its template is orderly**: with no
wildcard without a name and no `{name=**}` before a name, no name with a colon before one in braces,
and no name `__proto__`. -/
theorem extracts_iff {router router' : RequestRouter Handler} {route : RouteDefinition Handler}
    (hadd : addRoute builtins config router route = .ok router') (hlower : LowersAscii builtins)
    (hwild : config.enableWildcards = true) (htext : route.path = templateText segments)
    (hvalid : ValidTemplate segments)
    (hplain : includes (registeredPath builtins config route.path) (js "DOUBLE_WILDCARD") = false) :
    ∃ registered, router'.routes route.id = some registered ∧
      ((∀ filled, Fills segments filled → Extracts config registered filled) ↔ Orderly segments) := by
  obtain ⟨-, -, -, rfl⟩ := addRoute_eq_ok hadd
  refine ⟨normalized builtins config route, Function.update_self _ _ _, ?_, ?_⟩
  · intro h
    have hfills := fills_sampleFill 0 segments
    obtain ⟨score, hmatch⟩ := matchRoute_filled hlower hwild htext hvalid hplain hfills
    obtain ⟨found, hfound, hparams⟩ := h _ hfills
    obtain rfl := Option.some.inj (hmatch.symm.trans hfound)
    have hkeys : ((assigned (sampleFill 0 segments)).map Prod.fst).Nodup := by
      rw [assigned_keys, map_sampleFill]
      exact hvalid.names
    have hnames : (paramNames segments).Nodup := (paramNames_perm segments).nodup_iff.2 hvalid.names
    have hproto : js "__proto__" ∉ segments.filterMap fun segment => segment.part.name := by
      intro hmem
      rw [← map_sampleFill 0 segments] at hmem
      obtain ⟨value, hvalue⟩ := exists_assigned hmem
      have hnone := hparams (js "__proto__")
      rw [param, if_pos rfl, (lookup_eq_some_iff_mem hkeys).2 hvalue] at hnone
      cases hnone
    refine ⟨order_of_sample (k := 0) hnames ?_, fun segment hmem hname => ?_⟩
    · rintro ⟨name, value⟩ hp
      have hmem := (paramNames_perm segments).subset (List.of_mem_zip hp).1
      have hne : name ≠ js "__proto__" := fun heq => hproto (heq ▸ hmem)
      have hfound := hparams name
      rw [param, if_neg hne, lookup_reverse (nodup_keys_zip hnames),
        (lookup_eq_some_iff_mem (nodup_keys_zip hnames)).2 hp] at hfound
      exact (lookup_eq_some_iff_mem hkeys).1 hfound.symm
    · exact hproto (List.mem_filterMap.2 ⟨segment, hmem, hname⟩)
  · intro h filled hfills
    obtain ⟨score, hmatch⟩ := matchRoute_filled hlower hwild htext hvalid hplain hfills
    obtain ⟨rfl, -⟩ := hfills
    rw [zip_of_order h.order] at hmatch
    have hkeys : ((assigned filled).map Prod.fst).Nodup := by
      rw [assigned_keys]
      exact hvalid.names
    refine ⟨_, hmatch, fun name => ?_⟩
    unfold param
    split_ifs with hproto
    · subst hproto
      refine (Option.eq_none_iff_forall_ne_some.2 fun value hvalue => ?_).symm
      have hmem := List.mem_map_of_mem (f := Prod.fst) (mem_of_lookup_eq_some hvalue)
      rw [assigned_keys] at hmem
      obtain ⟨segment, hsegment, hname⟩ := List.mem_filterMap.1 hmem
      exact h.proto segment hsegment hname
    · exact lookup_reverse hkeys name

/-! ## Two templates -/

/-- A template with both spellings, a verb and a wildcard. -/
def jobSegments : List TemplateSegment :=
  [⟨.literal (js "Jobs"), []⟩, ⟨.brace (js "project"), []⟩, ⟨.colon (js "job"), js ":cancel"⟩,
    ⟨.doubleStar, []⟩]

def jobRoute : RouteDefinition Unit where
  id := js "jobs.cancel"
  method := .post
  path := js "/Jobs/\x7bproject\x7d/:job:cancel/**"
  handler := ()

/-- The same spellings, with the name in braces last. -/
def mixedSegments : List TemplateSegment := [⟨.colon (js "a"), []⟩, ⟨.brace (js "b"), []⟩]

def mixedRoute : RouteDefinition Unit where
  id := js "mixed"
  method := .get
  path := js "/:a/\x7bb\x7d"
  handler := ()

theorem exists_addRoute (route : RouteDefinition Unit)
    (h : (addRoute asciiBuiltins defaultRouterConfig emptyRouter route).toBool = true) :
    ∃ router, addRoute asciiBuiltins defaultRouterConfig emptyRouter route = .ok router := by
  cases hadd : addRoute asciiBuiltins defaultRouterConfig emptyRouter route with
  | error message =>
    rw [hadd] at h
    cases h
  | ok router => exact ⟨router, rfl⟩

theorem extracts_iff_jobs :
    ∃ router registered,
      addRoute asciiBuiltins defaultRouterConfig emptyRouter jobRoute = .ok router ∧
        router.routes (js "jobs.cancel") = some registered ∧
        ∀ filled, Fills jobSegments filled → Extracts defaultRouterConfig registered filled := by
  obtain ⟨router, hadd⟩ := exists_addRoute jobRoute (by decide +kernel)
  have htext : jobRoute.path = templateText jobSegments := by decide +kernel
  obtain ⟨registered, hregistered, hiff⟩ :=
    extracts_iff hadd (fun _ _ => rfl) rfl htext
      ⟨by decide +kernel, by decide +kernel, by decide +kernel⟩ (by decide +kernel)
  exact ⟨router, registered, hadd, hregistered,
    hiff.2 ⟨by decide +kernel, by decide +kernel⟩⟩

/-- **The value of `:a` goes to `{b}`.** -/
theorem not_extracts : ¬∀ (segments : List TemplateSegment) (route registered : RouteDefinition Unit)
    (router : RequestRouter Unit) (filled : List (TemplateSegment × JsString)),
      addRoute asciiBuiltins defaultRouterConfig emptyRouter route = .ok router →
        route.path = templateText segments → ValidTemplate segments →
          router.routes route.id = some registered → Fills segments filled →
            Extracts defaultRouterConfig registered filled := by
  intro h
  obtain ⟨router, hadd⟩ := exists_addRoute mixedRoute (by decide +kernel)
  obtain ⟨-, -, -, rfl⟩ := addRoute_eq_ok hadd
  have hregistered : (inserted asciiBuiltins defaultRouterConfig emptyRouter
      (normalized asciiBuiltins defaultRouterConfig mixedRoute)).routes mixedRoute.id =
        some (normalized asciiBuiltins defaultRouterConfig mixedRoute) := by
    simp [inserted, normalized]
  have hfills : Fills mixedSegments [(⟨.colon (js "a"), []⟩, js "x"), (⟨.brace (js "b"), []⟩, js "y")] := by
    refine ⟨rfl, ?_⟩
    simp only [List.forall_mem_cons]
    exact ⟨⟨by decide, by decide⟩, ⟨by decide, by decide⟩, fun p hp => absurd hp List.not_mem_nil⟩
  have hmatch : (matchRoute defaultRouterConfig
      (normalized asciiBuiltins defaultRouterConfig mixedRoute)
        (requestPath defaultRouterConfig (js "/x/y"))).map RouteMatch.params =
      some [(js "b", js "x"), (js "a", js "y")] := by decide +kernel
  obtain ⟨found, hfound, hparams⟩ := h mixedSegments mixedRoute
    (normalized asciiBuiltins defaultRouterConfig mixedRoute) _ _ hadd (by decide +kernel)
    ⟨by decide +kernel, by decide +kernel, by decide +kernel⟩ hregistered hfills
  have hfound : matchRoute defaultRouterConfig
      (normalized asciiBuiltins defaultRouterConfig mixedRoute)
        (requestPath defaultRouterConfig (js "/x/y")) = some found := hfound
  rw [hfound, Option.map_some, Option.some.injEq] at hmatch
  have hb := hparams (js "b")
  rw [hmatch] at hb
  exact absurd hb (by decide)

end Kinglet.Gateway
