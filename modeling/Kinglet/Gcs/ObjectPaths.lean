import Kinglet.Gateway.Specificity
import Kinglet.Gcs.ObjectNames

/-!
# The routes of requests for objects

A url whose segments stand for themselves is routed by the number of its segments, with the values of the
parameters as they are written (`reaches_segments`). Of the escaped names only `.` and `..` do not stand
for themselves (`dots_of_escaped`): they shorten the path, which then is that of a list or of a bucket.
-/

namespace Kinglet.Gcs

open Js Library Gateway

variable {bytes : List ℕ} {text name bucket s : JsString} {builtins : Builtins}
  {router : RequestRouter Operation}

/-! ## Paths -/

def isDots (segment : JsString) : Bool := isSingleDot segment || isDoubleDot segment

theorem resolveDots_plain {segments : List JsString} (h : ∀ segment ∈ segments, isDots segment = false)
    (path rest : List JsString) :
    resolveDots path (segments ++ rest) = resolveDots (path ++ segments) rest := by
  induction segments generalizing path with
  | nil => rw [List.nil_append, List.append_nil]
  | cons segment segments ih =>
      obtain ⟨hsegment, h⟩ := List.forall_mem_cons.1 h
      obtain ⟨hsingle, hdouble⟩ := Bool.or_eq_false_iff.1 hsegment
      rw [List.cons_append, resolveDots, hsingle, hdouble, if_neg Bool.false_ne_true,
        if_neg Bool.false_ne_true, ih h, List.append_assoc, List.singleton_append]

theorem urlPathname_plain {segments : List JsString} (h : ∀ segment ∈ segments, isDots segment = false) :
    urlPathname segments = segments.flatMap (unit '/' :: ·) := by
  have hresolved := resolveDots_plain h [] []
  rw [List.append_nil, List.nil_append, resolveDots] at hresolved
  rw [urlPathname, hresolved]

/-- The texts that are read as dots. -/
def dotTexts : List JsString := [js ".", js "%2e", js "..", js ".%2e", js "%2e.", js "%2e%2e"]

theorem mem_dotTexts {segment : JsString} (h : isDots segment = true) : lowered segment ∈ dotTexts := by
  rw [isDots, isSingleDot, isDoubleDot, Bool.or_eq_true, decide_eq_true_eq, decide_eq_true_eq] at h
  simp only [dotTexts, List.mem_cons, List.not_mem_nil, or_false] at h ⊢
  tauto

theorem lowered_escaped (b : ℕ) (bytes : List ℕ) : lowered ((b :: bytes).flatMap escapeByte) =
    lowered (escapeByte b) ++ lowered (bytes.flatMap escapeByte) := by
  rw [List.flatMap_cons, lowered, List.map_append]
  rfl

theorem eq_nil_of_lowered (h : lowered (bytes.flatMap escapeByte) = []) : bytes = [] := by
  cases bytes with
  | nil => rfl
  | cons b bytes =>
      rw [lowered_escaped] at h
      have hnil := List.map_eq_nil_iff.1 (List.append_eq_nil_iff.1 h).1
      unfold escapeByte at hnil
      split at hnil <;> cases hnil

/-- An escaped text reads as dots only where it is written in dots. -/
theorem dots_of_escaped (hbytes : ∀ b ∈ bytes, b < 256) (h : isDots (bytes.flatMap escapeByte) = true) :
    bytes.flatMap escapeByte = js "." ∨ bytes.flatMap escapeByte = js ".." := by
  have hfirst {b : ℕ} {bytes : List ℕ} (hb : b < 256)
      (h : lowered ((b :: bytes).flatMap escapeByte) ∈ dotTexts) : b = 46 := by
    refine (escapeByte_spec hb).2 _ h ?_
    rw [lowered_escaped]
    exact List.isPrefixOf_iff_prefix.2 (List.prefix_append _ _)
  have htail : ∀ t ∈ dotTexts, t.head? = some 46 → t.tail = [] ∨ t.tail = js "." ∨ t.tail = js "%2e" := by
    decide
  have hdot (bytes : List ℕ) : lowered ((46 :: bytes).flatMap escapeByte) =
      46 :: lowered (bytes.flatMap escapeByte) := lowered_escaped 46 bytes
  have hdots := mem_dotTexts h
  cases bytes with
  | nil => exact absurd hdots (by decide)
  | cons b bytes =>
      obtain ⟨hb, hmore⟩ := List.forall_mem_cons.1 hbytes
      obtain rfl := hfirst hb hdots
      rw [hdot] at hdots
      have hrest := htail _ hdots rfl
      rw [List.tail_cons] at hrest
      rcases hrest with hnil | hrest
      · rw [eq_nil_of_lowered hnil]
        exact .inl rfl
      · cases bytes with
        | nil => exact .inl rfl
        | cons c bytes =>
            have hc := (List.forall_mem_cons.1 hmore).1
            have hmem : lowered ((c :: bytes).flatMap escapeByte) ∈ dotTexts := by
              rcases hrest with hrest | hrest <;> (rw [hrest]; decide)
            obtain rfl := hfirst hc hmem
            rw [hdot] at hrest
            rcases hrest with hrest | hrest
            · rw [eq_nil_of_lowered (List.cons.inj hrest).2]
              exact .inr rfl
            · exact absurd (List.cons.inj hrest).1 (by decide)

/-- A slash at the end is dropped. -/
theorem requestPath_append_slash (h : Unbroken s) (hne : s ≠ []) :
    requestPath defaultRouterConfig (s ++ [unit '/']) = s := by
  have hend : endsWith (s ++ [unit '/']) [unit '/'] = true :=
    List.isSuffixOf_iff_suffix.2 (List.suffix_append _ _)
  simp [requestPath, normalizeRequestPath, defaultRouterConfig, replaceMatches_slashRun (.inr rfl) h, hend,
    hne]

/-! ## Queries -/

theorem searchParams_join (pairs : List (JsString × JsString)) (hne : pairs ≠ [])
    (h : ∀ p ∈ pairs, unit '=' ∉ p.1 ∧ unit '&' ∉ p.1 ∧ unit '&' ∉ p.2) :
    searchParams (join [unit '&'] (pairs.map fun p => p.1 ++ unit '=' :: p.2)) =
      pairs.map fun p => (queryText p.1, queryText p.2) := by
  have hparts : ∀ part ∈ pairs.map (fun p => p.1 ++ unit '=' :: p.2), unit '&' ∉ part := by
    intro part hpart
    obtain ⟨p, hp, rfl⟩ := List.mem_map.1 hpart
    obtain ⟨-, hkey, hvalue⟩ := h p hp
    rw [List.mem_append, List.mem_cons]
    rintro (hmem | heq | hmem)
    · exact hkey hmem
    · exact absurd heq (by decide)
    · exact hvalue hmem
  have hnonempty : ∀ part ∈ pairs.map (fun p => p.1 ++ unit '=' :: p.2), decide (part ≠ []) = true := by
    intro part hpart
    obtain ⟨p, -, rfl⟩ := List.mem_map.1 hpart
    exact decide_eq_true (List.append_ne_nil_of_right_ne_nil _ (List.cons_ne_nil _ _))
  rw [searchParams, splitUnit_join hparts (by simpa using hne), List.filter_eq_self.2 hnonempty,
    List.map_map]
  refine List.map_congr_left fun p hp => ?_
  have hkey : ∀ u ∈ p.1, decide (u ≠ unit '=') = true := by
    intro u hu
    exact decide_eq_true fun heq => (h p hp).1 (heq ▸ hu)
  dsimp only [Function.comp_apply]
  rw [List.takeWhile_append_of_pos hkey, List.dropWhile_append_of_pos hkey,
    List.takeWhile_cons_of_neg (by decide), List.dropWhile_cons_of_neg (by decide), List.append_nil,
    List.drop_one, List.tail_cons]

theorem wellFormed_decimal (n : ℕ) : WellFormed (decimal n) := by
  have hascii : ∀ u ∈ decimal n, u < 0x80 := by
    intro u hu
    have hdigit := isDigit_of_mem_decimal hu
    simp only [isDigit, Bool.and_eq_true, decide_eq_true_eq] at hdigit
    exact UInt16.lt_of_le_of_lt hdigit.2 (by decide)
  intro point hpoint
  rw [codePoints_of_ascii hascii] at hpoint
  obtain ⟨u, hu, rfl⟩ := List.mem_map.1 hpoint
  exact .inl (Nat.lt_trans (UInt16.lt_iff_toNat_lt.1 (hascii u hu)) (by decide))

/-! ## Routing -/

/-- The segments of a template of the service. -/
def templateOf (path : JsString) : List TemplateSegment :=
  ((splitUnit (unit '/') path).drop 1).map fun text =>
    match text with
    | 58 :: name => ⟨.colon name, []⟩
    | text => ⟨.literal text, []⟩

theorem storageRoutes_spec : ∀ route ∈ storageRoutes, route.path = templateText (templateOf route.path) ∧
    (∀ segment ∈ templateOf route.path, segment.isValid = true ∧ segment.part.isMulti = false ∧
      segment.verb = []) ∧
    ((templateOf route.path).filterMap fun segment => segment.part.name).Nodup ∧
    includes (templateText (registeredSegments defaultRouterConfig (templateOf route.path)))
      (js "DOUBLE_WILDCARD") = false := by
  decide +kernel

/-- The routes in question are apart in their length from the others of their method. -/
theorem storageRoutes_apart : ∀ route ∈ storageRoutes, route.handler ≠ .other ∨ route.method = .get →
    ∀ other ∈ storageRoutes, other.method = route.method →
      (templateOf other.path).length = (templateOf route.path).length → other = route := by
  decide +kernel

theorem validTemplate {route : RouteDefinition Operation} (h : route ∈ storageRoutes) :
    ValidTemplate (templateOf route.path) := by
  obtain ⟨-, hsegments, hnames, -⟩ := storageRoutes_spec route h
  refine ⟨fun segment hmem => (hsegments segment hmem).1, hnames, ?_⟩
  rw [List.filter_eq_nil_iff.2 fun segment hmem => by rw [(hsegments segment hmem).2.1]; decide]
  exact Nat.zero_le _

theorem methodRoutes_foldlM {routes : List (RouteDefinition Operation)}
    {start : RequestRouter Operation} (m : HttpMethod)
    (h : routes.foldlM (addRoute builtins defaultRouterConfig) start = .ok router) :
    router.methodRoutes m = start.methodRoutes m ++
      (routes.filter fun route => route.method = m).map (normalized builtins defaultRouterConfig) := by
  induction routes generalizing start with
  | nil =>
      obtain rfl := Except.ok.inj h
      exact (List.append_nil _).symm
  | cons route routes ih =>
      rw [List.foldlM_cons] at h
      obtain ⟨next, hadd, h⟩ := bind_eq_ok.1 h
      obtain ⟨-, -, -, rfl⟩ := addRoute_eq_ok hadd
      rw [ih h, List.filter_cons]
      by_cases hm : route.method = m
      · subst hm
        simp [inserted, normalized]
      · have hother : m ≠ (normalized builtins defaultRouterConfig route).method := Ne.symm hm
        simp [inserted, hm, Function.update_of_ne hother]

/-- A template matches only paths with as many segments. -/
theorem length_of_matchRoute {route : RouteDefinition Operation} (hroute : route ∈ storageRoutes)
    (hlower : LowersAscii builtins) {found : RouteMatch Operation}
    (h : matchRoute defaultRouterConfig (normalized builtins defaultRouterConfig route) s = some found) :
    s.count (unit '/') = (templateOf route.path).length := by
  obtain ⟨htext, hsegments, -, hplain⟩ := storageRoutes_spec route hroute
  have hpath : (normalized builtins defaultRouterConfig route).path =
      templateText (registeredSegments defaultRouterConfig (templateOf route.path)) := by
    rw [normalized]
    dsimp only
    conv_lhs => rw [htext]
    exact registeredPath_templateText hlower (validTemplate hroute).valid
  obtain ⟨matched, hmatched, -⟩ := Option.map_eq_some_iff.1 h
  obtain ⟨regex, hregex, hmatched⟩ := Option.bind_eq_some_iff.1 hmatched
  obtain ⟨groups, hgroups, -⟩ := Option.bind_eq_some_iff.1 hmatched
  rw [hpath, pathToRegex_registered (validTemplate hroute) rfl hplain] at hregex
  obtain rfl := Option.some.inj hregex
  exact count_of_captures (validTemplate hroute).valid (fun segment hmem => (hsegments segment hmem).2.1)
    (captures_registered.1 (captures_of_exec hgroups))

/-- The request reaches the handler with these parameters. -/
def Reaches (router : RequestRouter Operation) (m : HttpMethod) (path : JsString) (handler : Operation)
    (params : List (JsString × JsString)) : Prop :=
  ∃ found, findRoute defaultRouterConfig router m (requestPath defaultRouterConfig path) = some found ∧
    found.route.handler = handler ∧ found.params = params

/-- **A path is routed by its number of segments**, with the values in the order of the segments, with or
without a slash at its end. -/
theorem reaches_segments {id path : JsString} {m : HttpMethod} {handler : Operation}
    {template : List TemplateSegment} {segments : List JsString} {params : List (JsString × JsString)}
    (hregistered : Registered builtins router) (hlower : LowersAscii builtins)
    (hroute : (⟨id, m, path, handler, []⟩ : RouteDefinition Operation) ∈ storageRoutes)
    (hapart : handler ≠ .other ∨ m = .get) (htemplate : templateOf path = template)
    (haccepts : List.Forall₂ (fun segment value => segment.part.Accepts value) template segments)
    (hparams : (paramNames template).zip (fillGroups (template.zip segments)) = params) :
    Reaches router m (segments.flatMap (unit '/' :: ·)) handler params ∧
      (segments ≠ [] → Reaches router m (segments.flatMap (unit '/' :: ·) ++ [unit '/']) handler params) := by
  subst htemplate hparams
  generalize hdef : (⟨id, m, path, handler, []⟩ : RouteDefinition Operation) = route at hroute
  obtain rfl : m = route.method := congrArg RouteDefinition.method hdef
  obtain rfl : path = route.path := congrArg RouteDefinition.path hdef
  obtain rfl : handler = route.handler := congrArg RouteDefinition.handler hdef
  clear hdef
  obtain ⟨htext, hsegments, -, hplain⟩ := storageRoutes_spec route hroute
  have hvalid := validTemplate hroute
  have hfills : Fills (templateOf route.path) ((templateOf route.path).zip segments) := by
    refine ⟨List.map_fst_zip haccepts.length_eq.le, fun p hp => ?_⟩
    exact List.forall₂_zip haccepts hp
  have hpath : filledPath ((templateOf route.path).zip segments) = segments.flatMap (unit '/' :: ·) := by
    have hverb : ∀ p ∈ (templateOf route.path).zip segments, p.2 ++ p.1.verb = p.2 := by
      intro p hp
      rw [(hsegments p.1 (List.of_mem_zip hp).1).2.2, List.append_nil]
    rw [filledPath, List.flatMap_def, List.map_congr_left fun p hp => congrArg (unit '/' :: ·) (hverb p hp),
      ← List.flatMap_def, ← List.flatMap_map, List.map_snd_zip haccepts.length_eq.ge]
  have hunbroken : Unbroken (segments.flatMap (unit '/' :: ·)) := by
    rw [← hpath]
    exact unbroken_filledPath (fun p hp => hvalid.valid p.1 (List.of_mem_zip hp).1) hfills.2
  obtain ⟨score, hmatch⟩ := matchRoute_filled hlower rfl htext hvalid
    (by rw [htext, registeredPath_templateText hlower hvalid.valid]; exact hplain) hfills
  rw [hpath, requestPath_of_unbroken hunbroken] at hmatch
  have hmem : normalized builtins defaultRouterConfig route ∈ router.methodRoutes route.method := by
    rw [methodRoutes_foldlM route.method hregistered]
    refine List.mem_append_right _ (List.mem_map_of_mem (List.mem_filter.2 ⟨hroute, ?_⟩))
    exact decide_eq_true rfl
  obtain ⟨found, hfound⟩ := exists_selectRoute hmem hmatch
    ((matchRoute_eq_some hmatch).2 ▸ neg_one_lt_score _)
  -- another route of the method has another number of segments
  obtain ⟨hselected, hselectedMatch⟩ := mem_of_selectRoute hfound
  rw [methodRoutes_foldlM route.method hregistered] at hselected
  obtain ⟨other, hother, heq⟩ := List.mem_map.1 ((List.mem_append.1 hselected).resolve_left List.not_mem_nil)
  obtain ⟨hother, hmethod⟩ := List.mem_filter.1 hother
  rw [← heq] at hselectedMatch
  have hlength := (length_of_matchRoute hother hlower hselectedMatch).symm.trans
    (length_of_matchRoute hroute hlower hmatch)
  obtain rfl := storageRoutes_apart route hroute hapart other hother (of_decide_eq_true hmethod) hlength
  obtain rfl := Option.some.inj (hselectedMatch.symm.trans hmatch)
  refine ⟨⟨_, (requestPath_of_unbroken hunbroken).symm ▸ hfound, rfl, rfl⟩, fun hne => ?_⟩
  have hnonempty : segments.flatMap (unit '/' :: ·) ≠ [] := by
    obtain ⟨first, rest, rfl⟩ := List.exists_cons_of_ne_nil hne
    exact List.cons_ne_nil _ _
  exact ⟨_, (requestPath_append_slash hunbroken hnonempty).symm ▸ hfound, rfl, rfl⟩

/-! ## The paths of the requests -/

/-- A segment that stands for itself in a path. -/
structure IsSegment (segment : JsString) : Prop where
  ne : segment ≠ []
  slash : unit '/' ∉ segment
  dots : isDots segment = false

def bucketSegments (bucket : JsString) : List JsString := [js "storage", js "v1", js "b", bucket]

def bucketTemplate : List TemplateSegment :=
  [⟨.literal (js "storage"), []⟩, ⟨.literal (js "v1"), []⟩, ⟨.literal (js "b"), []⟩,
    ⟨.colon (js "bucket"), []⟩]

theorem accepts_bucket (hbucket : IsSegment bucket) : List.Forall₂
    (fun segment value => segment.part.Accepts value) bucketTemplate (bucketSegments bucket) :=
  .cons rfl (.cons rfl (.cons rfl (.cons ⟨hbucket.ne, hbucket.slash⟩ .nil)))

theorem reaches_bucket (hregistered : Registered builtins router) (hlower : LowersAscii builtins)
    (hbucket : IsSegment bucket) :
    Reaches router .get ((bucketSegments bucket).flatMap (unit '/' :: ·) ++ [unit '/']) .other
      [(js "bucket", bucket)] := by
  have htemplate : templateOf (js "/storage/v1/b/:bucket") = bucketTemplate := by decide +kernel
  exact (reaches_segments hregistered hlower (List.mem_of_getElem? (i := 1) rfl) (.inr rfl) htemplate
    (accepts_bucket hbucket) rfl).2 (List.cons_ne_nil _ _)

def listSegments (bucket : JsString) : List JsString := bucketSegments bucket ++ [js "o"]

def objectSegments (bucket text : JsString) : List JsString := listSegments bucket ++ [text]

theorem accepts_list (hbucket : IsSegment bucket) : List.Forall₂
    (fun segment value => segment.part.Accepts value) (bucketTemplate ++ [⟨.literal (js "o"), []⟩])
      (listSegments bucket) :=
  List.rel_append (accepts_bucket hbucket) (.cons rfl .nil)

theorem reaches_list (hregistered : Registered builtins router) (hlower : LowersAscii builtins)
    (hbucket : IsSegment bucket) :
    Reaches router .get ((listSegments bucket).flatMap (unit '/' :: ·)) .listObjects
        [(js "bucket", bucket)] ∧
      Reaches router .get ((listSegments bucket).flatMap (unit '/' :: ·) ++ [unit '/']) .listObjects
        [(js "bucket", bucket)] := by
  have htemplate : templateOf (js "/storage/v1/b/:bucket/o") =
      bucketTemplate ++ [⟨.literal (js "o"), []⟩] := by decide +kernel
  obtain ⟨hplain, hslash⟩ := reaches_segments hregistered hlower
    (List.mem_of_getElem? (i := 9) rfl) (.inr rfl) htemplate (accepts_list hbucket) rfl
  exact ⟨hplain, hslash (List.cons_ne_nil _ _)⟩

theorem reaches_upload (hregistered : Registered builtins router) (hlower : LowersAscii builtins)
    (hbucket : IsSegment bucket) :
    Reaches router .post ((js "upload" :: listSegments bucket).flatMap (unit '/' :: ·)) .insertObject
      [(js "bucket", bucket)] := by
  have htemplate : templateOf (js "/upload/storage/v1/b/:bucket/o") =
      ⟨.literal (js "upload"), []⟩ :: (bucketTemplate ++ [⟨.literal (js "o"), []⟩]) := by decide +kernel
  exact (reaches_segments hregistered hlower (List.mem_of_getElem? (i := 6) rfl) (.inl (by decide))
    htemplate (.cons rfl (accepts_list hbucket)) rfl).1

/-- The three requests for an object. -/
theorem reaches_object {id : JsString} {m : HttpMethod} {handler : Operation}
    (hregistered : Registered builtins router) (hlower : LowersAscii builtins) (hbucket : IsSegment bucket)
    (hne : text ≠ []) (hslash : unit '/' ∉ text) (hhandler : handler ≠ .other)
    (hroute : (⟨id, m, js "/storage/v1/b/:bucket/o/:object", handler, []⟩ : RouteDefinition Operation) ∈
      storageRoutes) :
    Reaches router m ((objectSegments bucket text).flatMap (unit '/' :: ·)) handler
      [(js "bucket", bucket), (js "object", text)] := by
  have htemplate : templateOf (js "/storage/v1/b/:bucket/o/:object") =
      bucketTemplate ++ [⟨.literal (js "o"), []⟩] ++ [⟨.colon (js "object"), []⟩] := by decide +kernel
  exact (reaches_segments hregistered hlower hroute (.inl hhandler) htemplate
    (List.rel_append (accepts_list hbucket) (.cons ⟨hne, hslash⟩ .nil)) rfl).1

theorem params_bucket (value : JsString) : paramText [(js "bucket", value)] (js "bucket") = value := rfl

theorem params_object (first second : JsString) :
    paramText [(js "bucket", first), (js "object", second)] (js "bucket") = first ∧
      paramText [(js "bucket", first), (js "object", second)] (js "object") = second := ⟨rfl, rfl⟩

end Kinglet.Gcs
