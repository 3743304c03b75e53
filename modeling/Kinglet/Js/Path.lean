import Kinglet.Js.Separators

/-!
# Paths

The functions of `node:path` for POSIX. A path is entered segment by segment: an absolute one from the
root, a relative one from where one is, and `.` and `..` stay or go up. `resolve` writes the place
reached, so its text can be entered again.
-/

namespace Kinglet.Js

/-- One segment more. `..` goes up, unless there is no segment to leave: then a relative path keeps it
and the root has nothing above. -/
def pushSegment (allowAboveRoot : Bool) (place : List JsString) (segment : JsString) :
    List JsString :=
  if segment = [] ∨ segment = js "." then place
  else if segment = js ".." then
    if place.getLast?.any (· ≠ js "..") then place.dropLast
    else if allowAboveRoot then place ++ [segment] else place
  else place ++ [segment]

def pushSegments (allowAboveRoot : Bool) (place segments : List JsString) : List JsString :=
  segments.foldl (pushSegment allowAboveRoot) place

def pathSegments (path : JsString) : List JsString := splitUnit (unit '/') path

def normalizeString (path : JsString) (allowAboveRoot : Bool) : JsString :=
  join (js "/") (pushSegments allowAboveRoot [] (pathSegments path))

def isAbsolute (path : JsString) : Bool := path.head? = some (unit '/')

/-- `normalize(path)`. -/
def normalizePath (path : JsString) : JsString :=
  if path = [] then js "."
  else
    let text := normalizeString path (!isAbsolute path)
    let trailing := if path.getLast? = some (unit '/') then js "/" else []
    if text = [] then if isAbsolute path then js "/" else js "." ++ trailing
    else if isAbsolute path then unit '/' :: (text ++ trailing) else text ++ trailing

/-- `join(...paths)`. -/
def joinPaths (paths : List JsString) : JsString :=
  normalizePath (join (js "/") (paths.filter (· ≠ [])))

/-- `dirname(path)`: what is before the slashes before the last name. The first unit is never left
out, and `//` is before a name after two slashes. -/
def dirname : JsString → JsString
  | [] => js "."
  | first :: rest =>
      match (rest.reverse.dropWhile (· = unit '/')).dropWhile (· ≠ unit '/') with
      | [] => if first = unit '/' then js "/" else js "."
      | _ :: before =>
          if first = unit '/' ∧ before = [] then js "//" else first :: before.reverse

/-- The loop of `resolve`, over the paths from the last one on. `cwd` is what follows the first slash
of the working directory, which is absolute. -/
def resolveText (cwd : JsString) : List JsString → JsString → JsString
  | [], resolved => unit '/' :: (cwd ++ unit '/' :: resolved)
  | path :: paths, resolved =>
      if path = [] then resolveText cwd paths resolved
      else if isAbsolute path then path ++ unit '/' :: resolved
      else resolveText cwd paths (path ++ unit '/' :: resolved)

/-- `resolve(...paths)`. -/
def resolve (cwd : JsString) (paths : List JsString) : JsString :=
  unit '/' :: normalizeString (resolveText cwd paths.reverse []) false

example : resolve (js "home") [js "data/x", js "../y", js "%2E"] = js "/home/data/y/%2E" := by decide

/-! ## Places -/

/-- Where a path leads from a place. -/
def enter (place : List JsString) (path : JsString) : List JsString :=
  pushSegments false (if isAbsolute path then [] else place) (pathSegments path)

/-- A segment that leads to a place of its name. -/
structure Plain (segment : JsString) : Prop where
  ne_nil : segment ≠ []
  ne_dot : segment ≠ js "."
  ne_dots : segment ≠ js ".."
  slash : unit '/' ∉ segment

variable {place segments : List JsString} {segment path : JsString}

theorem pathSegments_append (path rest : JsString) :
    pathSegments (path ++ unit '/' :: rest) = pathSegments path ++ pathSegments rest := by
  unfold pathSegments splitUnit
  simp only [List.splitOn_eq_splitOnP]
  exact List.splitOnP_append_cons path rest (beq_self_eq_true _)

theorem pathSegments_of_notMem (h : unit '/' ∉ path) : pathSegments path = [path] :=
  List.splitOn_eq_singleton h

theorem pushSegments_append (allowAboveRoot : Bool) (place front back : List JsString) :
    pushSegments allowAboveRoot place (front ++ back) =
      pushSegments allowAboveRoot (pushSegments allowAboveRoot place front) back :=
  List.foldl_append

theorem pushSegment_plain (allowAboveRoot : Bool) (place : List JsString) (h : Plain segment) :
    pushSegment allowAboveRoot place segment = place ++ [segment] := by
  rw [pushSegment, if_neg (not_or.2 ⟨h.ne_nil, h.ne_dot⟩), if_neg h.ne_dots]

/-- Plain segments are added as they are. -/
theorem pushSegments_plain (allowAboveRoot : Bool) (place : List JsString)
    (h : ∀ segment ∈ segments, Plain segment) :
    pushSegments allowAboveRoot place segments = place ++ segments := by
  induction segments generalizing place with
  | nil => exact (List.append_nil place).symm
  | cons segment segments ih =>
    obtain ⟨hsegment, hsegments⟩ := List.forall_mem_cons.1 h
    rw [pushSegments, List.foldl_cons, pushSegment_plain _ _ hsegment]
    exact (ih _ hsegments).trans (List.append_assoc _ _ _)

theorem pushSegment_nil (allowAboveRoot : Bool) (place : List JsString) :
    pushSegment allowAboveRoot place [] = place := by
  rw [pushSegment, if_pos (.inl rfl)]

/-- What holds of the segments that are added holds of all segments of the place reached. -/
theorem forall_mem_pushSegments {P : JsString → Prop} {allowAboveRoot : Bool}
    (hplace : ∀ segment ∈ place, P segment)
    (hadded : ∀ segment ∈ segments, segment ≠ [] → segment ≠ js "." →
      (segment ≠ js ".." ∨ allowAboveRoot = true) → P segment) :
    ∀ segment ∈ pushSegments allowAboveRoot place segments, P segment := by
  induction segments generalizing place with
  | nil => exact hplace
  | cons first segments ih =>
    obtain ⟨hfirst, hadded⟩ := List.forall_mem_cons.1 hadded
    refine ih ?_ hadded
    intro segment hmem
    unfold pushSegment at hmem
    split_ifs at hmem with hdot hdots hany habove
    · exact hplace segment hmem
    · exact hplace segment ((List.dropLast_sublist place).subset hmem)
    · rcases List.mem_append.1 hmem with hmem | hmem
      · exact hplace segment hmem
      · rw [List.mem_singleton.1 hmem]
        exact hfirst (not_or.1 hdot).1 (not_or.1 hdot).2 (.inr habove)
    · exact hplace segment hmem
    · rcases List.mem_append.1 hmem with hmem | hmem
      · exact hplace segment hmem
      · rw [List.mem_singleton.1 hmem]
        exact hfirst (not_or.1 hdot).1 (not_or.1 hdot).2 (.inl hdots)

theorem notMem_of_mem_pathSegments (h : segment ∈ pathSegments path) : unit '/' ∉ segment :=
  notMem_of_mem_splitUnit h

/-- The segments of a place reached from the root are plain. -/
theorem plain_of_mem_pushSegments (hplace : ∀ segment ∈ place, Plain segment)
    (hsegments : ∀ segment ∈ segments, unit '/' ∉ segment) :
    ∀ segment ∈ pushSegments false place segments, Plain segment := by
  refine forall_mem_pushSegments hplace fun segment hmem hnil hdot hdots => ?_
  exact ⟨hnil, hdot, hdots.resolve_right (by decide), hsegments segment hmem⟩

theorem plain_of_mem_enter (hplace : ∀ segment ∈ place, Plain segment) :
    ∀ segment ∈ enter place path, Plain segment := by
  refine plain_of_mem_pushSegments ?_ fun segment hmem => notMem_of_mem_pathSegments hmem
  split
  · exact fun segment hmem => absurd hmem List.not_mem_nil
  · exact hplace

/-! ## Resolving -/

/-- `resolve` enters its paths one after the other. -/
theorem pushSegments_resolveText (cwd : JsString) (paths : List JsString) (resolved : JsString) :
    pushSegments false [] (pathSegments (resolveText cwd paths resolved)) =
      pushSegments false (paths.foldr (fun path place => enter place path) (enter [] (unit '/' :: cwd)))
        (pathSegments resolved) := by
  induction paths generalizing resolved with
  | nil =>
    rw [resolveText, ← List.cons_append, pathSegments_append, pushSegments_append, List.foldr_nil,
      enter, ite_self]
  | cons path paths ih =>
    rw [resolveText, List.foldr_cons]
    generalize paths.foldr (fun path place => enter place path) (enter [] (unit '/' :: cwd)) =
      place at ih ⊢
    split_ifs with hnil habsolute
    · subst hnil
      rw [ih]
      rfl
    · rw [pathSegments_append, pushSegments_append, enter, if_pos habsolute]
    · rw [ih, pathSegments_append, pushSegments_append, enter, if_neg habsolute]

theorem resolve_eq (cwd : JsString) (paths : List JsString) :
    resolve cwd paths =
      unit '/' :: join (js "/") (paths.foldl enter (enter [] (unit '/' :: cwd))) := by
  rw [resolve, normalizeString, pushSegments_resolveText, List.foldr_reverse]
  rfl

/-! ## Normalizing -/

/-- Segments resolved among themselves lead where they led before. -/
theorem pushSegments_resolved (place segments : List JsString) :
    pushSegments false place (pushSegments true [] segments) = pushSegments false place segments := by
  induction segments using List.reverseRecOn with
  | nil => rfl
  | append_singleton segments segment ih =>
    rw [pushSegments_append, pushSegments_append false, ← ih]
    have hkept : ∀ kept ∈ pushSegments true [] segments, kept ≠ [] ∧ kept ≠ js "." :=
      forall_mem_pushSegments (fun _ hmem => absurd hmem List.not_mem_nil)
        fun _ _ hnil hdot _ => ⟨hnil, hdot⟩
    generalize pushSegments true [] segments = kept at hkept ⊢
    show pushSegments false place (pushSegment true kept segment) =
      pushSegment false (pushSegments false place kept) segment
    by_cases hdot : segment = [] ∨ segment = js "."
    · rw [pushSegment, if_pos hdot, pushSegment, if_pos hdot]
    · by_cases hdots : segment = js ".."
      · by_cases hany : kept.getLast?.any (· ≠ js "..") = true
        · -- the segment that is left was entered just before
          obtain ⟨last, hlast, hne⟩ := (Option.any_eq_true _ _).1 hany
          obtain ⟨before, rfl⟩ := List.getLast?_eq_some_iff.1 hlast
          obtain ⟨hnil, hlastdot⟩ := hkept last (List.mem_append_right _ (List.mem_singleton_self _))
          have henter : pushSegments false place (before ++ [last]) =
              pushSegments false place before ++ [last] := by
            rw [pushSegments_append]
            show pushSegment false (pushSegments false place before) last = _
            rw [pushSegment, if_neg (not_or.2 ⟨hnil, hlastdot⟩), if_neg (of_decide_eq_true hne)]
          rw [henter, pushSegment, if_neg hdot, if_pos hdots, if_pos hany, pushSegment, if_neg hdot,
            if_pos hdots, List.getLast?_concat, Option.any_some, if_pos hne,
            List.dropLast_concat, List.dropLast_concat]
        · rw [pushSegment, if_neg hdot, if_pos hdots, if_neg hany, if_pos rfl, pushSegments_append]
          rfl
      · rw [pushSegment, if_neg hdot, if_neg hdots, pushSegments_append]
        rfl

theorem pathSegments_cons (path : JsString) :
    pathSegments (unit '/' :: path) = [] :: pathSegments path :=
  pathSegments_append [] path

/-- Joined segments, with or without a slash behind them, lead where the segments lead. -/
theorem pushSegments_join (allowAboveRoot : Bool) (place segments : List JsString)
    (hsegments : ∀ segment ∈ segments, unit '/' ∉ segment) {trailing : JsString}
    (htrailing : trailing = [] ∨ trailing = js "/") :
    pushSegments allowAboveRoot place (pathSegments (join (js "/") segments ++ trailing)) =
      pushSegments allowAboveRoot place segments := by
  have hjoin : pushSegments allowAboveRoot place (pathSegments (join (js "/") segments)) =
      pushSegments allowAboveRoot place segments := by
    by_cases hnil : segments = []
    · subst hnil
      exact pushSegment_nil allowAboveRoot place
    · exact congrArg _ (splitUnit_join hsegments hnil)
  rcases htrailing with rfl | rfl
  · rw [List.append_nil, hjoin]
  · have hslash : join (js "/") segments ++ js "/" = join (js "/") segments ++ unit '/' :: [] := rfl
    rw [hslash, pathSegments_append, pushSegments_append, hjoin]
    exact pushSegment_nil allowAboveRoot _

/-- The text after the first slash leads on from the root. -/
theorem enter_cons (place : List JsString) (path : JsString) :
    enter place (unit '/' :: path) = pushSegments false [] (pathSegments path) := by
  rw [enter, if_pos (show isAbsolute (unit '/' :: path) = true from decide_eq_true rfl),
    pathSegments_cons]
  rfl

theorem eq_nil_of_join (hsegments : ∀ segment ∈ segments, segment ≠ [])
    (h : join (js "/") segments = []) : segments = [] := by
  cases segments with
  | nil => rfl
  | cons first rest =>
    have hfirst := hsegments first List.mem_cons_self
    cases rest with
    | nil => exact absurd ((List.append_nil first).symm.trans h) hfirst
    | cons second rest =>
      rw [join_cons_cons] at h
      exact absurd (List.append_eq_nil_iff.1 h).1 hfirst

theorem isAbsolute_join (hsegments : ∀ segment ∈ segments, segment ≠ [] ∧ unit '/' ∉ segment)
    (hne : join (js "/") segments ≠ []) (trailing : JsString) :
    isAbsolute (join (js "/") segments ++ trailing) = false := by
  cases segments with
  | nil => exact absurd rfl hne
  | cons first rest =>
    obtain ⟨⟨hfirst, hslash⟩, -⟩ := List.forall_mem_cons.1 hsegments
    obtain ⟨u, units, rfl⟩ := List.exists_cons_of_ne_nil hfirst
    have hu : u ≠ unit '/' := fun heq => hslash (heq ▸ List.mem_cons_self)
    have hhead : (join (js "/") ((u :: units) :: rest) ++ trailing).head? = some u := by
      cases rest with
      | nil => rfl
      | cons second rest => rfl
    rw [isAbsolute, hhead]
    exact decide_eq_false fun heq => hu (Option.some.inj heq)

/-- A normalized path leads where the path leads. -/
theorem enter_normalizePath (place : List JsString) (path : JsString) :
    enter place (normalizePath path) = enter place path := by
  unfold normalizePath
  by_cases hnil : path = []
  · rw [if_pos hnil, hnil]
    exact pushSegments_join false place [js "."] (by decide) (.inl rfl)
  rw [if_neg hnil]
  have htrailing : (if path.getLast? = some (unit '/') then js "/" else []) = [] ∨
      (if path.getLast? = some (unit '/') then js "/" else []) = js "/" := by
    split_ifs
    · exact .inr rfl
    · exact .inl rfl
  generalize (if path.getLast? = some (unit '/') then js "/" else []) = trailing at htrailing ⊢
  dsimp only
  have hplain (allowAboveRoot : Bool) :
      ∀ segment ∈ pushSegments allowAboveRoot [] (pathSegments path),
        segment ≠ [] ∧ unit '/' ∉ segment :=
    forall_mem_pushSegments (fun _ hmem => absurd hmem List.not_mem_nil)
      fun _ hmem hne _ _ => ⟨hne, notMem_of_mem_pathSegments hmem⟩
  have hslash (allowAboveRoot : Bool) := fun segment hmem => (hplain allowAboveRoot segment hmem).2
  unfold normalizeString
  by_cases habsolute : isAbsolute path = true
  · have hroot : ∀ segment ∈ enter place path, Plain segment := by
      rw [enter, if_pos habsolute]
      exact plain_of_mem_pushSegments (fun _ hmem => absurd hmem List.not_mem_nil)
        fun _ hmem => notMem_of_mem_pathSegments hmem
    have hplace : enter place path = pushSegments false [] (pathSegments path) := by
      rw [enter, if_pos habsolute]
    rw [habsolute, if_pos rfl, if_pos rfl, Bool.not_true, ← hplace]
    by_cases htext : join (js "/") (enter place path) = []
    · rw [if_pos htext, eq_nil_of_join (fun segment hmem => (hroot segment hmem).ne_nil) htext]
      exact enter_cons place []
    · rw [if_neg htext, enter_cons,
        pushSegments_join false [] _ (fun segment hmem => (hroot segment hmem).slash) htrailing,
        pushSegments_plain false [] hroot, List.nil_append]
  · rw [Bool.not_eq_true] at habsolute
    have hplace : enter place path = pushSegments false place (pathSegments path) := by
      rw [enter, habsolute]
      rfl
    rw [habsolute, Bool.not_false, if_neg Bool.false_ne_true, if_neg Bool.false_ne_true, hplace,
      ← pushSegments_resolved]
    by_cases htext : join (js "/") (pushSegments true [] (pathSegments path)) = []
    · rw [if_pos htext, eq_nil_of_join (fun segment hmem => (hplain true segment hmem).1) htext]
      rcases htrailing with rfl | rfl
      · exact pushSegments_join false place [js "."] (by decide) (.inl rfl)
      · exact pushSegments_join false place [js "."] (by decide) (.inr rfl)
    · rw [if_neg htext, enter, isAbsolute_join (hplain true) htext]
      exact pushSegments_join false place _ (hslash true) htrailing

/-- A path that goes on after a slash leads there in two steps. -/
theorem enter_append (place : List JsString) (hne : path ≠ []) (rest : JsString) :
    enter place (path ++ unit '/' :: rest) =
      pushSegments false (enter place path) (pathSegments rest) := by
  have hhead : isAbsolute (path ++ unit '/' :: rest) = isAbsolute path := by
    obtain ⟨u, units, rfl⟩ := List.exists_cons_of_ne_nil hne
    rfl
  rw [enter, hhead, pathSegments_append, pushSegments_append]
  rfl

theorem Plain.isAbsolute (h : Plain segment) : isAbsolute segment = false := by
  obtain ⟨u, units, rfl⟩ := List.exists_cons_of_ne_nil h.ne_nil
  exact decide_eq_false fun heq => h.slash (Option.some.inj heq ▸ List.mem_cons_self)

theorem enter_plain (place : List JsString) (h : Plain segment) :
    enter place segment = place ++ [segment] := by
  rw [enter, h.isAbsolute, pathSegments_of_notMem h.slash]
  exact pushSegment_plain false place h

theorem foldl_enter_plain (place : List JsString) (h : ∀ segment ∈ segments, Plain segment) :
    segments.foldl enter place = place ++ segments := by
  induction segments generalizing place with
  | nil => exact (List.append_nil place).symm
  | cons segment segments ih =>
    obtain ⟨hsegment, hsegments⟩ := List.forall_mem_cons.1 h
    rw [List.foldl_cons, enter_plain place hsegment, ih _ hsegments, List.append_assoc]
    rfl

/-- The text of a place leads to it. -/
theorem enter_text (place : List JsString) (h : ∀ segment ∈ segments, Plain segment) :
    enter place (unit '/' :: join (js "/") segments) = segments := by
  have hjoin := pushSegments_join false [] segments (fun segment hmem => (h segment hmem).slash) (.inl rfl)
  rw [List.append_nil] at hjoin
  rw [enter_cons, hjoin, pushSegments_plain false [] h, List.nil_append]

/-- A name joined to a path leads to the name in the place of the path. -/
theorem enter_joinPaths (place : List JsString) (hne : path ≠ []) (h : Plain segment) :
    enter place (joinPaths [path, segment]) = enter place path ++ [segment] := by
  have hjoin : join (js "/") ([path, segment].filter (· ≠ [])) = path ++ unit '/' :: segment := by
    have hfilter : [path, segment].filter (· ≠ []) = [path, segment] := by
      simp [hne, h.ne_nil]
    rw [hfilter]
    refine (join_cons (unit '/') path (List.cons_ne_nil segment [])).trans ?_
    rw [join, List.intersperse_singleton, List.flatten_singleton]
  rw [joinPaths, hjoin, enter_normalizePath, enter_append place hne,
    pathSegments_of_notMem h.slash]
  exact pushSegments_plain false _ fun other hmem => List.mem_singleton.1 hmem ▸ h

theorem dirname_ne_nil (path : JsString) : dirname path ≠ [] := by
  cases path with
  | nil => decide
  | cons first rest =>
    rw [dirname]
    cases (rest.reverse.dropWhile (· = unit '/')).dropWhile (· ≠ unit '/') with
    | nil =>
      dsimp only
      split_ifs
      · decide
      · decide
    | cons slash before =>
      dsimp only
      split_ifs
      · decide
      · exact List.cons_ne_nil _ _

/-! ## Texts below a place -/

theorem join_append {a b : List JsString} (ha : a ≠ []) (hb : b ≠ []) :
    join (js "/") (a ++ b) = join (js "/") a ++ unit '/' :: join (js "/") b := by
  induction a with
  | nil => exact absurd rfl ha
  | cons first a ih =>
    have hne : a ++ b ≠ [] := fun hnil => hb (List.append_eq_nil_iff.1 hnil).2
    show join [unit '/'] (first :: (a ++ b)) = _
    rw [join_cons (unit '/') first hne]
    cases a with
    | nil =>
      have hsingle : join (js "/") [first] = first := by
        rw [join, List.intersperse_singleton, List.flatten_singleton]
      rw [hsingle]
      rfl
    | cons second a =>
      have htail : join [unit '/'] (second :: a ++ b) = _ := ih (List.cons_ne_nil _ _)
      rw [htail, ← List.cons_append, ← List.append_assoc]
      exact congrArg (· ++ _) (join_cons (unit '/') first (List.cons_ne_nil _ _)).symm

end Kinglet.Js
