import Kinglet.Gateway.Selection
import Kinglet.Gateway.Templates
import Kinglet.Library.Outcome
import Kinglet.Library.Run

/-!
# The route table

`addRoute` refuses a template whose text, without parameter names, is registered for the method.
Over every sequence of registrations and removals this keeps two routes of a method from matching
the same requests (`routes_apart`) where the text tells templates apart as far as their places do:
each added template is plain, and a registered template with the same places is spelled the same
way. A removal leaves every other route as it is.

The spellings are what goes wrong: `/v1/:name` and `/v1/{name}` match the same requests, and the
router registers both (`not_routes_apart`).
-/

namespace Kinglet.Gateway

open Js Library

variable {Handler : Type} {builtins : Builtins} {config : RouterConfig}
  {router router' : RequestRouter Handler} {route other : RouteDefinition Handler} {id : JsString}
  {m : HttpMethod} {path : JsString}

/-! ## What one operation does -/

/-- Two templates match the same requests. -/
def SameRequests (config : RouterConfig) (a b : JsString) : Prop :=
  ∀ pathname, IsPathname pathname → (Serves config a pathname ↔ Serves config b pathname)

inductive TableOp (Handler : Type) where
  | add (route : RouteDefinition Handler)
  | remove (routeId : JsString)

/-- A registration that throws leaves the table as it is. -/
def applyOp (builtins : Builtins) (config : RouterConfig) (router : RequestRouter Handler) :
    TableOp Handler → RequestRouter Handler
  | .add route =>
      match addRoute builtins config router route with
      | .ok router' => router'
      | .error _ => router
  | .remove routeId => (removeRoute builtins config router routeId).1

/-- A registered route, with the path that its template is normalized to. -/
def normalized (builtins : Builtins) (config : RouterConfig) (route : RouteDefinition Handler) :
    RouteDefinition Handler :=
  { route with path := registeredPath builtins config route.path }

/-- The key of a registered route. -/
def routeKey (builtins : Builtins) (config : RouterConfig) (route : RouteDefinition Handler) :
    JsString :=
  pathKey builtins config route.method route.path

/-- The table with one more route. -/
def inserted (builtins : Builtins) (config : RouterConfig) (router : RequestRouter Handler)
    (route : RouteDefinition Handler) : RequestRouter Handler where
  routes := Function.update router.routes route.id (some route)
  routeIdsByPathKey := Function.update router.routeIdsByPathKey (routeKey builtins config route)
    (some route.id)
  methodRoutes := Function.update router.methodRoutes route.method
    (router.methodRoutes route.method ++ [route])

theorem validateRoute_eq_ok (h : validateRoute builtins config router route = .ok ()) :
    route.id ≠ [] ∧ router.routes route.id = none := by
  unfold validateRoute at h
  split at h
  · cases h
  · split at h
    · cases h
    · split at h
      · cases h
      · rename_i hid _ hnew
        exact ⟨hid, by simpa using hnew⟩

theorem addRoute_eq_ok (h : addRoute builtins config router route = .ok router') :
    route.id ≠ [] ∧ router.routes route.id = none ∧
      (∀ other, router.routeIdsByPathKey (routeKey builtins config (normalized builtins config route))
        = some other → other = []) ∧
      router' = inserted builtins config router (normalized builtins config route) := by
  unfold addRoute at h
  obtain ⟨_, hvalid, h⟩ := bind_eq_ok.1 h
  obtain ⟨_, hconflict, h⟩ := bind_eq_ok.1 h
  obtain ⟨hid, hnew⟩ := validateRoute_eq_ok hvalid
  refine ⟨hid, hnew, ?_, (Except.ok.inj h).symm⟩
  intro other hother
  by_contra hne
  have hother : router.routeIdsByPathKey (pathKey builtins config route.method
      (registeredPath builtins config route.path)) = some other := hother
  simp [validateNoPathConflict, hother, hne] at hconflict

/-- A template whose key is taken is refused. -/
theorem addRoute_conflict (hother : router.routeIdsByPathKey
      (routeKey builtins config (normalized builtins config route)) = some id) (hid : id ≠ []) :
    ∃ message, addRoute builtins config router route = .error message := by
  cases h : addRoute builtins config router route with
  | error message => exact ⟨message, rfl⟩
  | ok router' => exact absurd ((addRoute_eq_ok h).2.2.1 id hother) hid

/-! ## The invariant -/

/-- The maps of the table agree, and the templates are plain and apart in their places. -/
structure Tidy (builtins : Builtins) (config : RouterConfig) (router : RequestRouter Handler) :
    Prop where
  stored : ∀ id route, router.routes id = some route →
    route.id = id ∧ id ≠ [] ∧ route ∈ router.methodRoutes route.method
  listed : ∀ m, ∀ route ∈ router.methodRoutes m, route.method = m ∧
    router.routes route.id = some route
  nodup : ∀ m, (router.methodRoutes m).Pairwise fun route other => route.id ≠ other.id
  keyed : ∀ id route, router.routes id = some route →
    router.routeIdsByPathKey (routeKey builtins config route) = some id
  plain : ∀ m, ∀ route ∈ router.methodRoutes m, PlainTemplate config route.path
  spelled : ∀ m, ∀ route ∈ router.methodRoutes m, ∀ other ∈ router.methodRoutes m,
    templateShape config route.path = templateShape config other.path →
      routeKey builtins config route = routeKey builtins config other

/-- The registrations in question: the template is plain, and a registered template of the method
with the same places has the same key. -/
def Allowed (builtins : Builtins) (config : RouterConfig) (router : RequestRouter Handler) :
    TableOp Handler → Prop
  | .remove _ => True
  | .add route =>
      PlainTemplate config (registeredPath builtins config route.path) ∧
      ∀ other ∈ router.methodRoutes route.method,
        templateShape config other.path =
            templateShape config (registeredPath builtins config route.path) →
          routeKey builtins config other = routeKey builtins config (normalized builtins config route)

instance {op : TableOp Handler} : Decidable (Allowed builtins config router op) :=
  match op with
  | .remove _ => .isTrue trivial
  | .add route => inferInstanceAs (Decidable (
      PlainTemplate config (registeredPath builtins config route.path) ∧
      ∀ other ∈ router.methodRoutes route.method,
        templateShape config other.path =
            templateShape config (registeredPath builtins config route.path) →
          routeKey builtins config other =
            routeKey builtins config (normalized builtins config route)))

theorem tidy_empty : Tidy builtins config (emptyRouter : RequestRouter Handler) where
  stored _ _ h := nomatch h
  listed _ _ h := nomatch h
  nodup _ := .nil
  keyed _ _ h := nomatch h
  plain _ _ h := nomatch h
  spelled _ _ h := nomatch h

/-- Two registered routes with one key are one route. -/
theorem Tidy.eq_of_key (h : Tidy builtins config router) (hroute : route ∈ router.methodRoutes m)
    (hother : other ∈ router.methodRoutes m)
    (hkey : routeKey builtins config route = routeKey builtins config other) : route = other := by
  have hroute := (h.listed m route hroute).2
  have hother := (h.listed m other hother).2
  have hid : route.id = other.id := by
    have h₁ := h.keyed _ _ hroute
    rw [hkey, h.keyed _ _ hother] at h₁
    exact (Option.some.inj h₁).symm
  rw [hid, hother] at hroute
  exact (Option.some.inj hroute).symm

theorem mem_inserted : other ∈ (inserted builtins config router route).methodRoutes m ↔
    other ∈ router.methodRoutes m ∨ other = route ∧ m = route.method := by
  unfold inserted
  by_cases hm : m = route.method
  · subst hm
    simp
  · simp [hm]

theorem Tidy.inserted (h : Tidy builtins config router) (hid : route.id ≠ [])
    (hnew : router.routes route.id = none)
    (hkey : ∀ other, router.routeIdsByPathKey (routeKey builtins config route) = some other →
      other = [])
    (hplain : PlainTemplate config route.path)
    (hspelled : ∀ other ∈ router.methodRoutes route.method,
      templateShape config other.path = templateShape config route.path →
        routeKey builtins config other = routeKey builtins config route) :
    Tidy builtins config (inserted builtins config router route) where
  stored id other hother := by
    by_cases hsame : id = route.id
    · subst hsame
      obtain rfl : route = other := by simpa [Gateway.inserted] using hother
      exact ⟨rfl, hid, mem_inserted.2 (.inr ⟨rfl, rfl⟩)⟩
    · have hother : router.routes id = some other := by
        simpa [Gateway.inserted, hsame] using hother
      obtain ⟨hid', hne, hmem⟩ := h.stored id other hother
      exact ⟨hid', hne, mem_inserted.2 (.inl hmem)⟩
  listed m other hother := by
    rcases mem_inserted.1 hother with hother | ⟨rfl, rfl⟩
    · obtain ⟨hm, hstored⟩ := h.listed m other hother
      refine ⟨hm, ?_⟩
      have hne : other.id ≠ route.id := by
        intro heq
        rw [heq, hnew] at hstored
        cases hstored
      simpa [Gateway.inserted, hne] using hstored
    · exact ⟨rfl, by simp [Gateway.inserted]⟩
  nodup m := by
    by_cases hm : m = route.method
    · subst hm
      have hlist : (Gateway.inserted builtins config router route).methodRoutes route.method =
          router.methodRoutes route.method ++ [route] := by simp [Gateway.inserted]
      rw [hlist, List.pairwise_append]
      refine ⟨h.nodup _, List.pairwise_singleton _ _, ?_⟩
      intro other hother last hlast heq
      rw [List.mem_singleton.1 hlast] at heq
      have hstored := (h.listed _ other hother).2
      rw [heq, hnew] at hstored
      cases hstored
    · have hlist : (Gateway.inserted builtins config router route).methodRoutes m =
          router.methodRoutes m := by simp [Gateway.inserted, hm]
      rw [hlist]
      exact h.nodup m
  keyed id other hother := by
    by_cases hsame : id = route.id
    · subst hsame
      obtain rfl : route = other := by simpa [Gateway.inserted] using hother
      simp [Gateway.inserted]
    · have hother : router.routes id = some other := by
        simpa [Gateway.inserted, hsame] using hother
      have hkeyed := h.keyed id other hother
      have hne : routeKey builtins config other ≠ routeKey builtins config route := by
        intro heq
        rw [heq] at hkeyed
        exact (h.stored id other hother).2.1 (hkey id hkeyed)
      simpa [Gateway.inserted, hne] using hkeyed
  plain m other hother := by
    rcases mem_inserted.1 hother with hother | ⟨rfl, _⟩
    · exact h.plain m other hother
    · exact hplain
  spelled m first hfirst second hsecond hshape := by
    rcases mem_inserted.1 hfirst with hold | ⟨rfl, rfl⟩
    · rcases mem_inserted.1 hsecond with hold' | ⟨rfl, rfl⟩
      · exact h.spelled m first hold second hold' hshape
      · exact hspelled first hold hshape
    · rcases mem_inserted.1 hsecond with hold' | ⟨rfl, _⟩
      · exact (hspelled second hold' hshape.symm).symm
      · rfl

/-! ## Removal -/

theorem eraseP_eq_filter {routes : List (RouteDefinition Handler)}
    (h : routes.Pairwise fun route other => route.id ≠ other.id) :
    routes.eraseP (fun other => decide (other.id = id)) = routes.filter fun other => other.id ≠ id := by
  induction routes with
  | nil => rfl
  | cons route routes ih =>
    obtain ⟨hroute, hroutes⟩ := List.pairwise_cons.1 h
    by_cases hid : route.id = id
    · rw [List.eraseP_cons_of_pos (by simpa using hid), List.filter_cons_of_neg (by simpa using hid)]
      symm
      refine List.filter_eq_self.2 fun other hother => ?_
      have hne := hroute other hother
      rw [hid] at hne
      simpa using Ne.symm hne
    · rw [List.eraseP_cons_of_neg (by simpa using hid), List.filter_cons_of_pos (by simpa using hid),
        ih hroutes]

/-- A removal takes the route out of the list of its method, and no other route out of any. -/
theorem Tidy.removeRoute_methodRoutes (h : Tidy builtins config router) (id : JsString)
    (m : HttpMethod) : (removeRoute builtins config router id).1.methodRoutes m =
      (router.methodRoutes m).filter fun other => other.id ≠ id := by
  have hkeep : (∀ other ∈ router.methodRoutes m, other.id ≠ id) →
      router.methodRoutes m = (router.methodRoutes m).filter fun other => other.id ≠ id := by
    intro hne
    symm
    exact List.filter_eq_self.2 fun other hother => by simpa using hne other hother
  unfold removeRoute
  cases hroute : router.routes id with
  | none =>
    refine hkeep fun other hother hid => ?_
    have hstored := (h.listed m other hother).2
    rw [hid, hroute] at hstored
    cases hstored
  | some route =>
    by_cases hm : m = route.method
    · subst hm
      have hlist : Function.update router.methodRoutes route.method
          ((router.methodRoutes route.method).eraseP fun other => other.id = id) route.method =
            (router.methodRoutes route.method).eraseP fun other => other.id = id := by simp
      exact hlist.trans (eraseP_eq_filter (h.nodup route.method))
    · have hlist : Function.update router.methodRoutes route.method
          ((router.methodRoutes route.method).eraseP fun other => other.id = id) m =
            router.methodRoutes m := by simp [hm]
      refine hlist.trans (hkeep fun other hother hid => hm ?_)
      have hstored := (h.listed m other hother)
      rw [hid, hroute] at hstored
      rw [Option.some.inj hstored.2, hstored.1]

theorem Tidy.removeRoute (h : Tidy builtins config router) (id : JsString) :
    Tidy builtins config (removeRoute builtins config router id).1 := by
  have hmem : ∀ m other, other ∈ (Gateway.removeRoute builtins config router id).1.methodRoutes m ↔
      other ∈ router.methodRoutes m ∧ other.id ≠ id := by
    intro m other
    rw [h.removeRoute_methodRoutes]
    simp
  cases hroute : router.routes id with
  | none =>
    have heq : (Gateway.removeRoute builtins config router id).1 = router := by
      simp [Gateway.removeRoute, hroute]
    rwa [heq]
  | some route =>
    have hroutes : ∀ other, other ≠ id →
        (Gateway.removeRoute builtins config router id).1.routes other = router.routes other := by
      intro other hne
      simp [Gateway.removeRoute, hroute, hne]
    have hgone : (Gateway.removeRoute builtins config router id).1.routes id = none := by
      simp [Gateway.removeRoute, hroute]
    have hstored : ∀ id' other,
        (Gateway.removeRoute builtins config router id).1.routes id' = some other →
          id' ≠ id ∧ router.routes id' = some other := by
      intro id' other hother
      by_cases hne : id' = id
      · rw [hne, hgone] at hother
        cases hother
      · rw [hroutes id' hne] at hother
        exact ⟨hne, hother⟩
    refine ⟨?_, ?_, ?_, ?_, ?_, ?_⟩
    · intro id' other hother
      obtain ⟨hne, hother⟩ := hstored id' other hother
      obtain ⟨hid, hne', hlisted⟩ := h.stored id' other hother
      exact ⟨hid, hne', (hmem _ _).2 ⟨hlisted, hid ▸ hne⟩⟩
    · intro m other hother
      obtain ⟨hlisted, hne⟩ := (hmem m other).1 hother
      obtain ⟨hm, hold⟩ := h.listed m other hlisted
      exact ⟨hm, (hroutes _ hne).trans hold⟩
    · intro m
      rw [h.removeRoute_methodRoutes]
      exact (h.nodup m).filter _
    · intro id' other hother
      obtain ⟨hne, hother⟩ := hstored id' other hother
      have hkeyed := h.keyed id' other hother
      have hkey : routeKey builtins config other ≠ pathKey builtins config route.method route.path := by
        intro heq
        have hroute' := h.keyed id route hroute
        rw [show routeKey builtins config route = routeKey builtins config other from heq.symm,
          hkeyed] at hroute'
        exact hne (Option.some.inj hroute')
      simpa [Gateway.removeRoute, hroute, hkey] using hkeyed
    · intro m other hother
      exact h.plain m other ((hmem m other).1 hother).1
    · intro m first hfirst second hsecond
      exact h.spelled m first ((hmem m first).1 hfirst).1 second ((hmem m second).1 hsecond).1

theorem Tidy.applyOp {op : TableOp Handler} (h : Tidy builtins config router)
    (hallowed : Allowed builtins config router op) :
    Tidy builtins config (applyOp builtins config router op) := by
  cases op with
  | remove routeId => exact h.removeRoute routeId
  | add route =>
    cases hadd : addRoute builtins config router route with
    | error message =>
      have hsame : Gateway.applyOp builtins config router (.add route) = router := by
        simp [Gateway.applyOp, hadd]
      rwa [hsame]
    | ok router' =>
      obtain ⟨hid, hnew, hkey, rfl⟩ := addRoute_eq_ok hadd
      have hsame : Gateway.applyOp builtins config router (.add route) =
          Gateway.inserted builtins config router (normalized builtins config route) := by
        simp [Gateway.applyOp, hadd]
      rw [hsame]
      have htidy : Tidy builtins config
          (Gateway.inserted builtins config router (normalized builtins config route)) :=
        h.inserted hid hnew hkey hallowed.1 hallowed.2
      exact htidy

/-! ## Every table -/

/-- One operation of the kind in question. -/
def Step (builtins : Builtins) (config : RouterConfig) (router : RequestRouter Handler)
    (op : TableOp Handler) (router' : RequestRouter Handler) : Prop :=
  Allowed builtins config router op ∧ applyOp builtins config router op = router'

theorem tidy_of_run {ops : List (TableOp Handler)}
    (h : Run (Step builtins config) emptyRouter ops router) : Tidy builtins config router := by
  have hstep : ∀ (s : RequestRouter Handler) e t, True → Step builtins config s e t →
      Tidy builtins config s → Tidy builtins config t := by
    rintro s e _ - ⟨hallowed, rfl⟩ hs
    exact hs.applyOp hallowed
  have hend := h.invariant hstep (fun _ _ => trivial) tidy_empty
  exact hend

/-- Plain templates that match the same requests have the same places. -/
theorem templateShape_eq {a b : JsString} (ha : PlainTemplate config a)
    (hb : PlainTemplate config b) (h : SameRequests config a b) :
    templateShape config a = templateShape config b := by
  obtain ⟨u, ha, hu⟩ := ha
  obtain ⟨v, hb, hv⟩ := hb
  rw [ha, hb, shape_eq_of_serves_iff ha hb hu hv h]

/-- What the route table keeps: two routes of a method differ in the requests they match, a template
that matches the requests of a registered one is refused, and a removal leaves the other routes
registered and selected as they were. -/
structure RoutesApart (builtins : Builtins) (config : RouterConfig)
    (router : RequestRouter Handler) : Prop where
  apart : ∀ m, ∀ a ∈ router.methodRoutes m, ∀ b ∈ router.methodRoutes m,
    SameRequests config a.path b.path → a = b
  refused : ∀ route, Allowed builtins config router (.add route) →
    ∀ other ∈ router.methodRoutes route.method,
      SameRequests config (registeredPath builtins config route.path) other.path →
        ∃ message, addRoute builtins config router route = .error message
  removed : ∀ id m, (removeRoute builtins config router id).1.methodRoutes m =
    (router.methodRoutes m).filter fun other => other.id ≠ id
  selected : ∀ id m path found, findRoute config router m path = some found → found.route.id ≠ id →
    findRoute config (removeRoute builtins config router id).1 m path = some found

/-- **No route shadows another one of its method**, over every sequence of registrations and
removals in question. -/
theorem routes_apart {ops : List (TableOp Handler)}
    (h : Run (Step builtins config) emptyRouter ops router) :
    RoutesApart builtins config router := by
  have htidy := tidy_of_run h
  refine ⟨?_, ?_, htidy.removeRoute_methodRoutes, ?_⟩
  · intro m a ha b hb hsame
    refine htidy.eq_of_key ha hb (htidy.spelled m a ha b hb ?_)
    exact templateShape_eq (htidy.plain m a ha) (htidy.plain m b hb) hsame
  · intro route hallowed other hother hsame
    have hshape := templateShape_eq hallowed.1 (htidy.plain _ other hother) hsame
    have hkey := hallowed.2 other hother hshape.symm
    obtain ⟨_, hstored⟩ := htidy.listed _ other hother
    have hkeyed := htidy.keyed _ _ hstored
    rw [hkey] at hkeyed
    exact addRoute_conflict hkeyed (htidy.stored _ _ hstored).2.1
  · intro id m path found hfound hne
    unfold findRoute at hfound ⊢
    rw [htidy.removeRoute_methodRoutes]
    exact selectRoute_filter hfound (by simpa using hne)

/-! ## Tables of one service -/

/-- The case mapping of ASCII text. -/
def asciiBuiltins : Builtins where
  toLowerCase text := text.map fun u => if 65 ≤ u && u ≤ 90 then u + 32 else u
  isRegExp _ := true

def getRoute (id path : String) : TableOp Unit :=
  .add { id := js id, method := .get, path := js path, handler := () }

/-- Topics with a custom verb, a wildcard, a refused spelling and a removal. -/
def topicOps : List (TableOp Unit) :=
  [getRoute "topics.get" "/v1/Topics/:topic", getRoute "topics.publish" "/v1/topics/:topic:publish",
    getRoute "names.cancel" "/v1/{name=**}:cancel", getRoute "topics.again" "/v1/topics/:id/",
    .remove (js "topics.get")]

theorem routes_apart_topics : ∃ router,
    Run (Step asciiBuiltins defaultRouterConfig) emptyRouter topicOps router ∧
      (router.methodRoutes .get).length = 2 ∧
        RoutesApart asciiBuiltins defaultRouterConfig router := by
  have hany : (topicOps.foldlM (fun (s : RequestRouter Unit) op =>
      if Allowed asciiBuiltins defaultRouterConfig s op then
        some (applyOp asciiBuiltins defaultRouterConfig s op) else none) emptyRouter).any
      (fun router => (router.methodRoutes .get).length = 2) = true := by
    decide +kernel
  obtain ⟨router, hrun, hlength⟩ := Run.exists_of_foldlM hany
  have hsteps : Run (Step asciiBuiltins defaultRouterConfig) emptyRouter topicOps router := by
    refine hrun.mono fun op _ s t hstep => ?_
    split at hstep
    · exact ⟨‹_›, Option.some.inj hstep⟩
    · exact nomatch hstep
  exact ⟨router, hsteps, by simpa using hlength, routes_apart hsteps⟩

/-- **Two spellings of one template are registered side by side.** -/
theorem not_routes_apart : ¬∀ ops : List (TableOp Unit), ∀ a ∈ (ops.foldl
      (applyOp asciiBuiltins defaultRouterConfig) emptyRouter).methodRoutes .get,
    ∀ b ∈ (ops.foldl (applyOp asciiBuiltins defaultRouterConfig) emptyRouter).methodRoutes .get,
      SameRequests defaultRouterConfig a.path b.path → a = b := by
  intro h
  have hroutes : ([getRoute "a" "/v1/:name", getRoute "b" "/v1/{name}"].foldl
      (applyOp asciiBuiltins defaultRouterConfig) emptyRouter).methodRoutes .get =
      [{ id := js "a", method := .get, path := js "/v1/:name", handler := () },
        { id := js "b", method := .get, path := js "/v1/{name}", handler := () }] := by
    decide +kernel
  have hsame := h [getRoute "a" "/v1/:name", getRoute "b" "/v1/{name}"]
  rw [hroutes] at hsame
  have heq := hsame _ (List.mem_cons_self) _ (List.mem_cons_of_mem _ List.mem_cons_self) (by
    intro pathname _
    have hfirst : pathToRegex defaultRouterConfig (js "/v1/:name") =
        some ⟨[.char 47, .char 118, .char 49, .char 47, .segment 1], [js "name"]⟩ := by
      decide +kernel
    have hsecond : pathToRegex defaultRouterConfig (js "/v1/{name}") =
        some ⟨[.char 47, .char 118, .char 49, .char 47, .segment 1], [js "name"]⟩ := by
      decide +kernel
    exact (isSome_matchPath_iff hfirst).trans (isSome_matchPath_iff hsecond).symm)
  exact absurd (congrArg RouteDefinition.id heq) (by decide)

end Kinglet.Gateway
