import Kinglet.Gateway.RequestRouter
import Kinglet.Library.Glob

/-!
# The request paths that a template matches

A template is a pattern with gaps over path segments: `templateShape` gives its places, in which the
spelling of a parameter no longer shows. On the path names of requests a plain template is
determined by what it matches (`shape_eq_of_serves_iff`): the places of two templates that match the
same path names are equal.

A template is plain when every request path that its text suggests exists. Its letters are those of
a path name, which are ASCII and folded by the router; no segment that it writes out is empty or
would be resolved away, as `.` and `..` are; and a `**` is followed by the end, by a letter, or by
`/` and a letter. Without the last condition a template says in two ways what it matches: `/*/**`
and `/**/*` are both all paths with two segments or more.
-/

namespace Kinglet.Gateway

open Js Library

variable {config : RouterConfig} {pattern rest : List Node} {s t : JsString}

/-! ## What a pattern matches -/

/-- The path names that a request can have. The URL parser encodes all other characters and resolves
the segments `.` and `..`, in any of their spellings. -/
def isPathCharacter (u : UInt16) : Bool :=
  0x21 ≤ u && u ≤ 0x7E && u ∉ ([34, 35, 60, 62, 63, 92, 94, 96, 123, 125] : List UInt16)

def isDotSegment (segment : JsString) : Bool :=
  segment.map (fun u => if 65 ≤ u && u ≤ 90 then u + 32 else u) ∈
    [js ".", js "..", js "%2e", js ".%2e", js "%2e.", js "%2e%2e"]

structure IsPathname (pathname : JsString) : Prop where
  characters : ∀ u ∈ pathname, isPathCharacter u = true
  segments : ∃ rest, pathname = unit '/' :: rest ∧
    Place.Parts (unit '/') (fun segment => !isDotSegment segment) [] rest

/-- Whether a template matches the path name of a request. -/
def Serves (config : RouterConfig) (routePath pathname : JsString) : Prop :=
  (matchPath config routePath (requestPath config pathname)).isSome = true

instance {routePath pathname : JsString} : Decidable (Serves config routePath pathname) :=
  inferInstanceAs (Decidable (_ = true))

/-- The texts that a pattern matches, for a text that case folding leaves as it is. -/
def Matches (config : RouterConfig) : List Node → JsString → Prop
  | [], s => s = []
  | .char u :: pattern, s => ∃ s', s = foldCase config u :: s' ∧ Matches config pattern s'
  | .segment _ :: pattern, s =>
      ∃ w s', s = w ++ s' ∧ w ≠ [] ∧ unit '/' ∉ w ∧ Matches config pattern s'
  | .any _ :: pattern, s => ∃ w s', s = w ++ s' ∧ Matches config pattern s'

theorem exists_drop_iff {α : Type*} {test : α → Bool} {Q : ℕ → List α → Prop} {s : List α} :
    (∃ k ≤ (s.takeWhile test).length, Q k (s.drop k)) ↔
      ∃ w s', s = w ++ s' ∧ (∀ u ∈ w, test u = true) ∧ Q w.length s' := by
  constructor
  · rintro ⟨k, hk, hQ⟩
    have hle := hk.trans (List.takeWhile_prefix test).length_le
    refine ⟨s.take k, s.drop k, (List.take_append_drop k s).symm, ?_, ?_⟩
    · intro u hu
      have hprefix : s.take k <+: s.takeWhile test :=
        List.prefix_of_prefix_length_le (List.take_prefix k s) (List.takeWhile_prefix test)
          ((List.length_take_le k s).trans hk)
      exact List.mem_takeWhile_imp (List.IsPrefix.subset hprefix hu)
    · rwa [List.length_take_of_le hle]
  · rintro ⟨w, s', rfl, hw, hQ⟩
    refine ⟨w.length, ?_, by simpa using hQ⟩
    rw [List.takeWhile_append_of_pos hw, List.length_append]
    exact Nat.le_add_right _ _

/-- The groups of a pattern find a match whenever there is one. -/
theorem exec_isSome_iff (hfold : ∀ u ∈ s, foldCase config u = u)
    (hline : ∀ u ∈ s, isLineTerminator u = false) :
    (exec config pattern s).isSome = true ↔ Matches config pattern s := by
  induction pattern generalizing s with
  | nil => by_cases hs : s = [] <;> simp [exec, Matches, hs]
  | cons node pattern ih =>
    have hsuffix : ∀ {s'}, s' <:+ s → ((exec config pattern s').isSome = true ↔
        Matches config pattern s') := fun hs' =>
      ih (fun u hu => hfold u (hs'.subset hu)) fun u hu => hline u (hs'.subset hu)
    cases node with
    | char u =>
      cases s with
      | nil => simp [exec, Matches]
      | cons v s =>
        have hv := hfold v (by simp)
        have hrest := hsuffix (List.suffix_cons v s)
        rw [exec, hv]
        by_cases huv : foldCase config u = v
        · simp [Matches, huv, hrest]
        · simp [Matches, huv, Ne.symm huv]
    | segment groups =>
      have hexec : (exec config (.segment groups :: pattern) s).isSome = true ↔
          ∃ k ≤ (s.takeWhile (· ≠ unit '/')).length,
            0 < k ∧ Matches config pattern (s.drop k) := by
        simp only [exec, List.findSome?_isSome_iff, List.mem_reverse, List.mem_range,
          Option.isSome_map]
        constructor
        · rintro ⟨k, hk, h⟩
          exact ⟨k + 1, hk, k.succ_pos, (hsuffix (List.drop_suffix _ _)).1 h⟩
        · rintro ⟨k, hk, hpos, h⟩
          obtain ⟨k, rfl⟩ := Nat.exists_eq_succ_of_ne_zero hpos.ne'
          exact ⟨k, hk, (hsuffix (List.drop_suffix _ _)).2 h⟩
      rw [hexec, exists_drop_iff (Q := fun k s' => 0 < k ∧ Matches config pattern s')]
      constructor
      · rintro ⟨w, s', rfl, hw, hpos, h⟩
        refine ⟨w, s', rfl, List.length_pos_iff.1 hpos, ?_, h⟩
        intro hmem
        simpa using hw _ hmem
      · rintro ⟨w, s', rfl, hne, hw, h⟩
        refine ⟨w, s', rfl, ?_, List.length_pos_iff.2 hne, h⟩
        intro u hu
        exact decide_eq_true fun heq => hw (heq ▸ hu)
    | any groups =>
      have hall : s.takeWhile (!isLineTerminator ·) = s :=
        List.takeWhile_eq_self_iff.2 fun u hu => by rw [hline u hu]; rfl
      simp only [exec, List.findSome?_isSome_iff, List.mem_reverse, List.mem_range,
        Option.isSome_map, hall]
      constructor
      · rintro ⟨k, _, h⟩
        exact ⟨s.take k, s.drop k, (List.take_append_drop k s).symm,
          (hsuffix (List.drop_suffix _ _)).1 h⟩
      · rintro ⟨w, s', rfl, h⟩
        refine ⟨w.length, ?_, ?_⟩
        · rw [List.length_append]
          omega
        · rw [List.drop_left]
          exact (hsuffix (List.suffix_append w s')).2 h

/-! ## The places of a pattern -/

/-- A pattern place by place. A group `(.*)` is a gap after the place before it; where it is a whole
segment it stands for at least one letter. -/
def shape (config : RouterConfig) : List Node → List (Place UInt16)
  | [] => []
  | .char u :: .any _ :: rest =>
      if u = unit '/' ∧ (rest = [] ∨ rest.head? = some (.char (unit '/'))) then
        ⟨some (unit '/'), false⟩ :: ⟨none, true⟩ :: shape config rest
      else ⟨some (foldCase config u), true⟩ :: shape config rest
  | .char u :: rest => ⟨some (foldCase config u), false⟩ :: shape config rest
  | .segment _ :: .any _ :: rest => ⟨none, true⟩ :: shape config rest
  | .segment _ :: rest => ⟨none, false⟩ :: shape config rest
  | .any _ :: rest => shape config rest

/-- Each group `(.*)` of a pattern follows a letter or a group `([^/]+)`. -/
def attached : List Node → Bool
  | [] => true
  | .any _ :: _ => false
  | _ :: .any _ :: rest => attached rest
  | _ :: rest => attached rest

/-- No separator of a text is followed by its end or by another one. -/
def Unbroken (s : JsString) : Prop :=
  ∀ t, unit '/' :: t <:+ s → ∃ d t', t = d :: t' ∧ d ≠ unit '/'

theorem Unbroken.suffix (h : Unbroken s) (hs : t <:+ s) : Unbroken t :=
  fun t' ht' => h t' (ht'.trans hs)

theorem foldCase_eq_slash {u : UInt16} : foldCase config u = unit '/' ↔ u = unit '/' := by
  unfold foldCase
  split
  · rename_i h
    simp only [Bool.and_eq_true, decide_eq_true_eq, UInt16.le_iff_toNat_le] at h
    obtain ⟨⟨_, hlow⟩, hhigh⟩ := h
    rw [← UInt16.toNat_inj, ← UInt16.toNat_inj, UInt16.toNat_add,
      show (unit '/').toNat = 47 from rfl, show (32 : UInt16).toNat = 32 from rfl]
    have hlow : 65 ≤ u.toNat := hlow
    have hhigh : u.toNat ≤ 90 := hhigh
    omega
  · rfl

/-- **A pattern matches the texts that fit its places**, of those without empty segments. -/
theorem fits_shape_iff (hattached : attached pattern = true) (hs : Unbroken s) :
    Place.Fits (unit '/') (shape config pattern) s ↔ Matches config pattern s := by
  induction pattern using shape.induct generalizing s with
  | case1 => rfl
  | case2 u groups rest h ih =>
    obtain ⟨rfl, hend⟩ := h
    have hrest : attached rest = true := by simpa [attached] using hattached
    rw [shape, if_pos ⟨rfl, hend⟩]
    simp only [Place.fits_letter, Place.fits_any_gap, Matches, foldCase_eq_slash.2 rfl]
    constructor
    · rintro ⟨_, rfl, d, z, s', rfl, _, h⟩
      have hs' : s' <:+ unit '/' :: d :: (z ++ s') := ⟨unit '/' :: d :: z, by simp⟩
      exact ⟨d :: (z ++ s'), rfl, d :: z, s', rfl, (ih hrest (hs.suffix hs')).1 h⟩
    · rintro ⟨_, rfl, w, s', rfl, h⟩
      obtain ⟨d, t, ht, hd⟩ := hs (w ++ s') List.suffix_rfl
      have hs' : s' <:+ unit '/' :: (w ++ s') := ⟨unit '/' :: w, by simp⟩
      cases w with
      | nil =>
        -- Nothing between the separators: the text has an empty segment.
        obtain rfl : s' = d :: t := ht
        rcases hend with rfl | hhead
        · cases h
        · obtain ⟨pattern, rfl⟩ := List.head?_eq_some_iff.1 hhead
          obtain ⟨_, hcons, _⟩ := h
          rw [foldCase_eq_slash.2 rfl] at hcons
          exact absurd (List.cons.inj hcons).1 hd
      | cons e w =>
        obtain rfl : e = d := (List.cons.inj ht).1
        exact ⟨_, rfl, e, w, s', rfl, hd, (ih hrest (hs.suffix hs')).2 h⟩
  | case3 u groups rest h ih =>
    have hrest : attached rest = true := by simpa [attached] using hattached
    rw [shape, if_neg h]
    simp only [Place.fits_letter_gap, Matches]
    constructor
    · rintro ⟨z, s', rfl, h⟩
      have hs' : s' <:+ foldCase config u :: (z ++ s') := ⟨foldCase config u :: z, by simp⟩
      exact ⟨_, rfl, z, s', rfl, (ih hrest (hs.suffix hs')).1 h⟩
    · rintro ⟨_, rfl, z, s', rfl, h⟩
      have hs' : s' <:+ foldCase config u :: (z ++ s') := ⟨foldCase config u :: z, by simp⟩
      exact ⟨z, s', rfl, (ih hrest (hs.suffix hs')).2 h⟩
  | case4 u rest h ih =>
    have hrest : attached rest = true := by
      cases rest with
      | nil => rfl
      | cons node rest =>
        cases node with
        | any groups => exact absurd rfl (h groups rest)
        | char _ | segment _ => simpa [attached] using hattached
    rw [shape]
    · simp only [Place.fits_letter, Matches]
      constructor
      · rintro ⟨s', rfl, h⟩
        exact ⟨s', rfl, (ih hrest (hs.suffix (List.suffix_cons _ _))).1 h⟩
      · rintro ⟨s', rfl, h⟩
        exact ⟨s', rfl, (ih hrest (hs.suffix (List.suffix_cons _ _))).2 h⟩
    · exact h
  | case5 groups groups' rest ih =>
    have hrest : attached rest = true := by simpa [attached] using hattached
    rw [shape]
    simp only [Place.fits_any_gap, Matches]
    constructor
    · rintro ⟨d, z, s', rfl, hd, h⟩
      have hs' : s' <:+ d :: (z ++ s') := ⟨d :: z, by simp⟩
      exact ⟨[d], z ++ s', rfl, by simp, by simpa using Ne.symm hd, z, s', rfl,
        (ih hrest (hs.suffix hs')).1 h⟩
    · rintro ⟨w, _, rfl, hne, hw, z, s', rfl, h⟩
      have hs' : s' <:+ w ++ (z ++ s') := ⟨w ++ z, by simp⟩
      cases w with
      | nil => exact absurd rfl hne
      | cons d w =>
        rw [List.mem_cons, not_or] at hw
        exact ⟨d, w ++ z, s', by simp, Ne.symm hw.1, (ih hrest (hs.suffix hs')).2 h⟩
  | case6 groups rest h ih =>
    have hrest : attached rest = true := by
      cases rest with
      | nil => rfl
      | cons node rest =>
        cases node with
        | any groups => exact absurd rfl (h groups rest)
        | char _ | segment _ => simpa [attached] using hattached
    rw [shape]
    · simp only [Place.fits_any, Matches]
      constructor
      · rintro ⟨w, s', rfl, hne, hw, h⟩
        exact ⟨w, s', rfl, hne, hw, (ih hrest (hs.suffix (List.suffix_append w s'))).1 h⟩
      · rintro ⟨w, s', rfl, hne, hw, h⟩
        exact ⟨w, s', rfl, hne, hw, (ih hrest (hs.suffix (List.suffix_append w s'))).2 h⟩
    · exact h
  | case7 groups rest ih => simp [attached] at hattached

theorem foldCase_foldCase (u : UInt16) : foldCase config (foldCase config u) = foldCase config u := by
  unfold foldCase
  split
  · rename_i h
    simp only [Bool.and_eq_true, decide_eq_true_eq, UInt16.le_iff_toNat_le] at h
    obtain ⟨⟨_, hlow⟩, hhigh⟩ := h
    refine if_neg ?_
    simp only [Bool.and_eq_true, decide_eq_true_eq, UInt16.le_iff_toNat_le, UInt16.toNat_add]
    rintro ⟨_, hle⟩
    have hlow : 65 ≤ u.toNat := hlow
    have hhigh : u.toNat ≤ 90 := hhigh
    have hle : (u.toNat + 32) % 2 ^ 16 ≤ 90 := hle
    omega
  · rfl

/-- The letters of a pattern are folded. -/
theorem foldCase_of_mem_shape {p : Place UInt16} (hp : p ∈ shape config pattern) :
    ∀ e, p.letter = some e → foldCase config e = e := by
  have hslash : foldCase config (unit '/') = unit '/' := foldCase_eq_slash.2 rfl
  induction pattern using shape.induct with
  | case1 => exact absurd hp List.not_mem_nil
  | case2 u groups rest h ih =>
    rw [shape, if_pos h, List.mem_cons, List.mem_cons] at hp
    rcases hp with rfl | rfl | hp
    · rintro _ ⟨⟩
      exact hslash
    · exact fun _ h => nomatch h
    · exact ih hp
  | case3 u groups rest h ih =>
    rw [shape, if_neg h, List.mem_cons] at hp
    rcases hp with rfl | hp
    · rintro _ ⟨⟩
      exact foldCase_foldCase u
    · exact ih hp
  | case4 u rest h ih =>
    rw [shape, List.mem_cons] at hp
    · rcases hp with rfl | hp
      · rintro _ ⟨⟩
        exact foldCase_foldCase u
      · exact ih hp
    · exact h
  | case5 groups groups' rest ih =>
    rw [shape, List.mem_cons] at hp
    rcases hp with rfl | hp
    · exact fun _ h => nomatch h
    · exact ih hp
  | case6 groups rest h ih =>
    rw [shape, List.mem_cons] at hp
    · rcases hp with rfl | hp
      · exact fun _ h => nomatch h
      · exact ih hp
    · exact h
  | case7 groups rest ih => exact ih (by simpa [shape] using hp)

/-! ## Plain templates -/

/-- The places of a template. -/
def templateShape (config : RouterConfig) (path : JsString) : Option (List (Place UInt16)) :=
  (pathToRegex config path).bind fun regex =>
    if attached regex.pattern then some (shape config regex.pattern) else none

/-- A segment that the URL parser leaves in place and the router does not merge with another. -/
def isOrdinary (segment : JsString) : Bool := segment ≠ [] && !isDotSegment segment

/-- The pattern starts with a separator; it is the root, or writes out ordinary segments only. -/
def isRooted : List (Place UInt16) → Bool
  | ⟨some e, gap⟩ :: rest =>
      e = unit '/' &&
        (!gap && rest.isEmpty || Place.placeParts (unit '/') isOrdinary (some []) rest)
  | _ => false

structure Plain (u : List (Place UInt16)) : Prop where
  settled : Place.Settled (unit '/') u
  characters : ∀ p ∈ u, p.letter.all isPathCharacter = true
  rooted : isRooted u = true

instance {u : List (Place UInt16)} : Decidable (Plain u) :=
  decidable_of_iff (Place.Settled (unit '/') u ∧ (∀ p ∈ u, p.letter.all isPathCharacter = true) ∧
      isRooted u = true)
    ⟨fun ⟨hsettled, hcharacters, hrooted⟩ => ⟨hsettled, hcharacters, hrooted⟩,
      fun h => ⟨h.settled, h.characters, h.rooted⟩⟩

def PlainTemplate (config : RouterConfig) (path : JsString) : Prop :=
  ∃ u, templateShape config path = some u ∧ Plain u

instance {path : JsString} : Decidable (PlainTemplate config path) :=
  match h : templateShape config path with
  | none => .isFalse fun ⟨_, hu, _⟩ => nomatch h.symm.trans hu
  | some u =>
      decidable_of_iff (Plain u) ⟨fun hu => ⟨u, h, hu⟩,
        fun ⟨_, hv, hplain⟩ => Option.some.inj (h.symm.trans hv) ▸ hplain⟩

theorem Plain.root_or {u : List (Place UInt16)} (h : Plain u) :
    u = [⟨some (unit '/'), false⟩] ∨ ∃ gap rest, u = ⟨some (unit '/'), gap⟩ :: rest ∧
      Place.placeParts (unit '/') isOrdinary (some []) rest = true := by
  have hrooted := h.rooted
  match u, hrooted with
  | ⟨some e, gap⟩ :: rest, hrooted =>
    simp only [isRooted, Bool.and_eq_true, Bool.or_eq_true, decide_eq_true_eq, Bool.not_eq_true',
      List.isEmpty_iff] at hrooted
    obtain ⟨rfl, ⟨rfl, rfl⟩ | hparts⟩ := hrooted
    · exact .inl rfl
    · exact .inr ⟨gap, rest, rfl, hparts⟩

theorem Plain.letters {u : List (Place UInt16)} (h : Plain u) :
    ∀ p ∈ u, ∀ e ∈ p.letter, isPathCharacter e = true := by
  intro p hp e he
  have hall := h.characters p hp
  rw [Option.mem_def.1 he] at hall
  exact hall

/-- The letters to try a template with: the digits but `2`, which is part of `%2e`. -/
def IsFiller (u : UInt16) : Prop := u ∈ ([48, 49, 51, 52, 53, 54, 55, 56, 57] : List UInt16)

instance : DecidablePred IsFiller := fun u =>
  inferInstanceAs (Decidable (u ∈ ([48, 49, 51, 52, 53, 54, 55, 56, 57] : List UInt16)))

theorem IsFiller.ne_slash {u : UInt16} (h : IsFiller u) : u ≠ unit '/' := by
  rintro rfl
  exact absurd h (by decide)

theorem exists_filler (l : List UInt16) (hl : l.length ≤ 4) : ∃ y, IsFiller y ∧ y ∉ l := by
  by_contra hall
  have hsubset : ([48, 49, 51, 52, 53] : List UInt16) ⊆ l := by
    intro y hy
    by_contra hmem
    refine hall ⟨y, ?_, hmem⟩
    have hsub : ([48, 49, 51, 52, 53] : List UInt16) ⊆ [48, 49, 51, 52, 53, 54, 55, 56, 57] := by
      decide
    exact hsub hy
  have hle := (List.subperm_of_subset (by decide) hsubset).length_le
  simp only [List.length_cons, List.length_nil] at hle
  omega

theorem isOrdinary_of_filler {segment : JsString} {u : UInt16} (hmem : u ∈ segment)
    (hu : IsFiller u) : isOrdinary segment = true := by
  have hdot : isDotSegment segment = false := by
    by_contra hdot
    have hmap := of_decide_eq_true (Bool.not_eq_false _ ▸ hdot)
    have hlower := List.mem_map_of_mem (f := fun u => if 65 ≤ u && u ≤ 90 then u + 32 else u) hmem
    have hfold : ([48, 49, 51, 52, 53, 54, 55, 56, 57] : List UInt16).all
        (fun v => (if 65 ≤ v && v ≤ 90 then v + 32 else v) = v) = true := by decide +kernel
    have hletters : [js ".", js "..", js "%2e", js ".%2e", js "%2e.", js "%2e%2e"].all
        (fun dots => dots.all fun v => ¬IsFiller v) = true := by decide +kernel
    rw [of_decide_eq_true (List.all_eq_true.1 hfold u hu)] at hlower
    have hnone := List.all_eq_true.1 (List.all_eq_true.1 hletters _ hmap) u hlower
    exact of_decide_eq_true hnone hu
  simp only [isOrdinary, hdot, Bool.not_false, Bool.and_true, decide_eq_true_eq]
  exact List.ne_nil_of_mem hmem

theorem isPathCharacter_of_filler {u : UInt16} (hu : IsFiller u) : isPathCharacter u = true := by
  have hall : ([48, 49, 51, 52, 53, 54, 55, 56, 57] : List UInt16).all isPathCharacter = true := by
    decide +kernel
  exact List.all_eq_true.1 hall u hu

theorem foldCase_of_filler {u : UInt16} (hu : IsFiller u) : foldCase config u = u := by
  unfold foldCase
  have hall : ([48, 49, 51, 52, 53, 54, 55, 56, 57] : List UInt16).all
      (fun u => !(65 ≤ u && u ≤ 90)) = true := by decide +kernel
  have hu := List.all_eq_true.1 hall u hu
  rw [Bool.not_eq_true'] at hu
  rw [Bool.and_assoc, hu, Bool.and_false, if_neg Bool.false_ne_true]

theorem not_lineTerminator {u : UInt16} (hu : isPathCharacter u = true) :
    isLineTerminator u = false := by
  simp only [isPathCharacter, Bool.and_eq_true, decide_eq_true_eq] at hu
  obtain ⟨⟨hlow, hhigh⟩, _⟩ := hu
  simp only [isLineTerminator, Bool.or_eq_false_iff, decide_eq_false_iff_not]
  refine ⟨⟨⟨?_, ?_⟩, ?_⟩, ?_⟩
  · rintro rfl
    exact absurd hlow (by decide)
  · rintro rfl
    exact absurd hlow (by decide)
  · rintro rfl
    exact absurd hhigh (by decide)
  · rintro rfl
    exact absurd hhigh (by decide)

/-! ## Samples are path names -/

theorem Unbroken.of_parts (h : Place.Parts (unit '/') isOrdinary [] t) :
    Unbroken (unit '/' :: t) := by
  intro t' ht'
  have hparts : Place.Parts (unit '/') isOrdinary [] t' := by
    rcases List.suffix_cons_iff.1 ht' with heq | ⟨front, rfl⟩
    · obtain rfl := (List.cons.inj heq).2
      exact h
    · exact h.tail
  cases t' with
  | nil => cases hparts
  | cons d t' =>
    refine ⟨d, t', rfl, ?_⟩
    rintro rfl
    rw [Place.Parts, if_pos rfl] at hparts
    cases hparts.1

/-- A path without empty segments has no run of slashes to replace, also with a slash at its end. -/
theorem replaceMatches_slashRun {previous : Option UInt16} {tail : JsString}
    (htail : tail = [] ∨ tail = [unit '/']) (h : Unbroken s) :
    replaceMatches (fun _ text => (slashRun text).map fun n => (n, [unit '/'])) previous 0 (s ++ tail) =
      s ++ tail := by
  induction s generalizing previous with
  | nil => rcases htail with rfl | rfl <;> rfl
  | cons u s ih =>
    have hrest : replaceMatches (fun _ text => (slashRun text).map fun n => (n, [unit '/'])) (some u) 0
        (s ++ tail) = s ++ tail := ih (h.suffix (List.suffix_cons u s))
    by_cases hu : u = unit '/'
    · subst hu
      obtain ⟨d, t, rfl, hd⟩ := h s List.suffix_rfl
      have hrun : slashRun (unit '/' :: d :: (t ++ tail)) = some 1 := by simp [slashRun, hd]
      rw [List.cons_append, List.cons_append, replaceMatches, hrun]
      exact congrArg (unit '/' :: ·) hrest
    · have hrun : slashRun (u :: (s ++ tail)) = none := by simp [slashRun, hu]
      rw [List.cons_append, replaceMatches, hrun]
      exact congrArg (u :: ·) hrest

/-- Normalization leaves a path without empty segments as it is. -/
theorem normalizeRequestPath_of_unbroken (h : Unbroken s) : normalizeRequestPath config s = s := by
  have hkept := @replaceMatches_slashRun s none [] (.inl rfl) h
  rw [List.append_nil] at hkept
  have hend : endsWith s [unit '/'] = false := by
    by_contra hend
    obtain ⟨d, t, ht, -⟩ := h [] (List.isSuffixOf_iff_suffix.1 (Bool.not_eq_false _ ▸ hend))
    exact absurd ht.symm (List.cons_ne_nil _ _)
  unfold normalizeRequestPath
  simp [hkept, hend]

theorem requestPath_of_unbroken (h : Unbroken s) : requestPath config s = s := by
  rw [requestPath, normalizeRequestPath_of_unbroken h, ite_self]

variable {u v : List (Place UInt16)} {gap : Bool} {a b : JsString}

/-- The samples of a template that is not the root. -/
structure SamplePath (s : JsString) : Prop where
  pathname : IsPathname s
  unbroken : Unbroken s
  ne_root : s ≠ [unit '/']

theorem samplePath_of_sample (hcharacters : ∀ p ∈ (⟨some (unit '/'), gap⟩ :: u : List _),
      ∀ e ∈ p.letter, isPathCharacter e = true)
    (hparts : Place.placeParts (unit '/') isOrdinary (some []) u = true)
    (h : Place.Sample (unit '/') IsFiller (⟨some (unit '/'), gap⟩ :: u) s) : SamplePath s := by
  have hall := h.forall_mem (P := fun u => isPathCharacter u = true)
    (fun _ hd => isPathCharacter_of_filler hd) (by decide) hcharacters
  obtain ⟨t, rfl, ht⟩ : ∃ t, s = unit '/' :: t ∧ Place.Parts (unit '/') isOrdinary [] t := by
    cases h with
    | @cons _ _ d z s' hletter hgap hrest =>
      obtain rfl : unit '/' = d := by simpa using hletter
      refine ⟨z ++ s', rfl, ?_⟩
      exact Place.parts_gap (fun _ _ hmem hd => isOrdinary_of_filler hmem hd)
        (fun _ hd => hd.ne_slash) hgap
        (fun hu hpart => hrest.parts (fun _ _ hmem hd => isOrdinary_of_filler hmem hd)
          (fun _ hd => hd.ne_slash) hu hpart) hparts rfl
  have hunbroken := Unbroken.of_parts ht
  refine ⟨⟨hall, t, rfl, ht.mono fun part hpart => ?_⟩, hunbroken, ?_⟩
  · exact (Bool.and_eq_true_iff.1 hpart).2
  · intro hroot
    obtain ⟨_, _, hnil, _⟩ := hunbroken t List.suffix_rfl
    rw [hnil] at hroot
    cases hroot

/-! ## A plain template is determined by what it matches -/

theorem templateShape_eq_some (h : templateShape config a = some u) :
    ∃ regex, pathToRegex config a = some regex ∧ attached regex.pattern = true ∧
      shape config regex.pattern = u := by
  obtain ⟨regex, hregex, h⟩ := Option.bind_eq_some_iff.1 h
  split at h
  · exact ⟨regex, hregex, ‹_›, Option.some.inj h⟩
  · cases h

theorem isSome_matchPath_iff {regex : Regex} (h : pathToRegex config a = some regex) :
    (matchPath config a s).isSome = true ↔ (exec config regex.pattern s).isSome = true := by
  unfold matchPath
  rw [h]
  cases hexec : exec config regex.pattern s <;> simp [hexec]

/-- On folded path names without empty segments a template matches what fits its places. -/
theorem serves_iff_fits (ha : templateShape config a = some u) (hs : IsPathname s)
    (hunbroken : Unbroken s) (hfold : ∀ c ∈ s, foldCase config c = c) :
    Serves config a s ↔ Place.Fits (unit '/') u s := by
  obtain ⟨regex, hregex, hattached, rfl⟩ := templateShape_eq_some ha
  have hline : ∀ c ∈ s, isLineTerminator c = false :=
    fun c hc => not_lineTerminator (hs.characters c hc)
  unfold Serves
  rw [requestPath_of_unbroken hunbroken, isSome_matchPath_iff hregex,
    exec_isSome_iff hfold hline, fits_shape_iff hattached hunbroken]

/-- The letters of samples are folded. -/
theorem foldCase_of_mem_sample (ha : templateShape config a = some u)
    (h : Place.Sample (unit '/') IsFiller u s) : ∀ c ∈ s, foldCase config c = c := by
  obtain ⟨regex, _, _, rfl⟩ := templateShape_eq_some ha
  exact h.forall_mem (fun _ hd => foldCase_of_filler hd) (foldCase_eq_slash.2 rfl)
    fun p hp => foldCase_of_mem_shape hp

/-- A sample of one template that the other one matches like it fits the other one as well. -/
theorem fits_of_sample (ha : templateShape config a = some u) (hb : templateShape config b = some v)
    (hsame : ∀ pathname, IsPathname pathname → Serves config a pathname → Serves config b pathname)
    (hs : SamplePath s) (h : Place.Sample (unit '/') IsFiller u s) :
    Place.Fits (unit '/') v s := by
  have hfold := foldCase_of_mem_sample ha h
  have hserves := (serves_iff_fits ha hs.pathname hs.unbroken hfold).2
    (h.fits fun _ hd => hd.ne_slash)
  exact (serves_iff_fits hb hs.pathname hs.unbroken hfold).1 (hsame s hs.pathname hserves)

/-- A template that matches all that another one does is the root only if the other one is. -/
theorem root_of_serves (ha : templateShape config a = some u) (hu : Plain u)
    (hb : templateShape config b = some [⟨some (unit '/'), false⟩])
    (hsame : ∀ pathname, IsPathname pathname → Serves config a pathname → Serves config b pathname) :
    u = [⟨some (unit '/'), false⟩] := by
  rcases hu.root_or with hroot | ⟨gap, rest, rfl, hparts⟩
  · exact hroot
  · have hsample : Place.Sample (unit '/') IsFiller (⟨some (unit '/'), gap⟩ :: rest)
        (Place.shortest 48 (⟨some (unit '/'), gap⟩ :: rest)) :=
      Place.sample_shortest (by decide) _
    have hs := samplePath_of_sample hu.letters hparts hsample
    obtain ⟨s', hs', rfl⟩ := Place.fits_letter.1 (fits_of_sample ha hb hsame hs hsample)
    exact absurd hs' hs.ne_root

/-- **Two plain templates that match the same path names have the same places.** -/
theorem shape_eq_of_serves_iff (ha : templateShape config a = some u)
    (hb : templateShape config b = some v) (hu : Plain u) (hv : Plain v)
    (hsame : ∀ pathname, IsPathname pathname →
      (Serves config a pathname ↔ Serves config b pathname)) : u = v := by
  have hab : ∀ pathname, IsPathname pathname → Serves config a pathname → Serves config b pathname :=
    fun pathname h => (hsame pathname h).1
  have hba : ∀ pathname, IsPathname pathname → Serves config b pathname → Serves config a pathname :=
    fun pathname h => (hsame pathname h).2
  rcases hu.root_or with rfl | ⟨gap, rest, rfl, hparts⟩
  · exact (root_of_serves hb hv ha hba).symm
  · rcases hv.root_or with rfl | ⟨gap', rest', rfl, hparts'⟩
    · exact root_of_serves ha hu hb hab
    · refine Place.eq_of_samples (fun _ (hd : IsFiller _) => hd.ne_slash) exists_filler
        hu.settled hv.settled ?_ ?_
      · intro s hsample
        exact fits_of_sample ha hb hab (samplePath_of_sample hu.letters hparts hsample) hsample
      · intro s hsample
        exact fits_of_sample hb ha hba (samplePath_of_sample hv.letters hparts' hsample) hsample

end Kinglet.Gateway
