import Kinglet.Gateway.RequestRouter
import Mathlib.Tactic.Linarith

/-!
# The selected route

`findRoute` keeps a match while no later one has a higher score: it returns the first of the best
matches (`selectRoute_eq_some_iff`).
-/

namespace Kinglet.Gateway

open Js Library

variable {Handler : Type} {config : RouterConfig} {path : JsString}
  {routes : List (RouteDefinition Handler)} {route : RouteDefinition Handler}
  {found : RouteMatch Handler} {ms : List (RouteMatch Handler)} {b : Option (RouteMatch Handler)}
  {s : ℚ}

/-- The routes that match, in the order of the table. -/
def candidates (config : RouterConfig) (path : JsString) (routes : List (RouteDefinition Handler)) :
    List (RouteMatch Handler) :=
  routes.filterMap fun route => matchRoute config route path

theorem matchRoute_eq_some (h : matchRoute config route path = some found) :
    found.route = route ∧ found.score = score route.path := by
  obtain ⟨⟨params, score⟩, hmatch, rfl⟩ := Option.map_eq_some_iff.1 h
  refine ⟨rfl, ?_⟩
  obtain ⟨regex, _, hmatch⟩ := Option.bind_eq_some_iff.1 hmatch
  obtain ⟨groups, _, hmatch⟩ := Option.bind_eq_some_iff.1 hmatch
  exact (congrArg Prod.snd (Option.some.inj hmatch)).symm

theorem mem_candidates : found ∈ candidates config path routes ↔
    ∃ route ∈ routes, matchRoute config route path = some found := List.mem_filterMap

theorem candidates_cons_none (h : matchRoute config route path = none) :
    candidates config path (route :: routes) = candidates config path routes := by
  simp [candidates, h]

theorem candidates_cons_some (h : matchRoute config route path = some found) :
    candidates config path (route :: routes) = found :: candidates config path routes := by
  simp [candidates, h]

theorem candidates_filter (test : RouteDefinition Handler → Bool) :
    candidates config path (routes.filter test) =
      (candidates config path routes).filter fun found => test found.route := by
  induction routes with
  | nil => rfl
  | cons route routes ih =>
      cases hmatch : matchRoute config route path with
      | none =>
          rw [candidates_cons_none hmatch, ← ih, List.filter_cons]
          split
          · exact candidates_cons_none hmatch
          · rfl
      | some found =>
          have hroute := (matchRoute_eq_some hmatch).1
          rw [candidates_cons_some hmatch, List.filter_cons, List.filter_cons, hroute]
          split
          · rw [candidates_cons_some hmatch, ih]
          · exact ih

theorem foldl_better (b : Option (RouteMatch Handler) × ℚ) :
    routes.foldl (fun best route => better best (matchRoute config route path)) b =
      (candidates config path routes).foldl (fun best found => better best (some found)) b := by
  induction routes generalizing b with
  | nil => rfl
  | cons route routes ih =>
      rw [List.foldl_cons]
      cases hmatch : matchRoute config route path with
      | none =>
          rw [candidates_cons_none hmatch]
          exact ih b
      | some found =>
          rw [candidates_cons_some hmatch, List.foldl_cons]
          exact ih _

/-- What the loop has found: what it started with, or the first of the best matches. -/
theorem foldl_better_cases (ms : List (RouteMatch Handler)) (b : Option (RouteMatch Handler))
    (s : ℚ) : ∃ b' s', ms.foldl (fun best found => better best (some found)) (b, s) = (b', s') ∧
      s ≤ s' ∧ (∀ m ∈ ms, m.score ≤ s') ∧ (b' = b ∧ s' = s ∨ ∃ front m back,
        ms = front ++ m :: back ∧ b' = some m ∧ s' = m.score ∧ s < s' ∧
          ∀ f ∈ front, f.score < s') := by
  induction ms generalizing b s with
  | nil => exact ⟨b, s, rfl, le_rfl, fun _ h => absurd h List.not_mem_nil, .inl ⟨rfl, rfl⟩⟩
  | cons m ms ih =>
      rw [List.foldl_cons]
      unfold better
      dsimp only
      by_cases hlt : s < m.score
      · rw [if_pos hlt]
        obtain ⟨b', s', hfold, hle, hall, hcases⟩ := ih (some m) m.score
        refine ⟨b', s', hfold, hlt.le.trans hle, List.forall_mem_cons.2 ⟨hle, hall⟩, .inr ?_⟩
        rcases hcases with ⟨rfl, rfl⟩ | ⟨front, m', back, rfl, rfl, rfl, hbest, hfront⟩
        · exact ⟨[], m, ms, rfl, rfl, rfl, hlt, fun _ h => absurd h List.not_mem_nil⟩
        · exact ⟨m :: front, m', back, rfl, rfl, rfl, hlt.trans hbest,
            List.forall_mem_cons.2 ⟨hbest, hfront⟩⟩
      · rw [if_neg hlt]
        obtain ⟨b', s', hfold, hle, hall, hcases⟩ := ih b s
        have hm := le_of_not_gt hlt
        refine ⟨b', s', hfold, hle, List.forall_mem_cons.2 ⟨hm.trans hle, hall⟩, ?_⟩
        rcases hcases with hsame | ⟨front, m', back, rfl, rfl, rfl, hbest, hfront⟩
        · exact .inl hsame
        · exact .inr ⟨m :: front, m', back, rfl, rfl, rfl, hbest,
            List.forall_mem_cons.2 ⟨hm.trans_lt hbest, hfront⟩⟩

/-- **The first of the best matches is selected.** -/
theorem selectRoute_eq_some_iff : selectRoute config routes path = some found ↔
    ∃ front back, candidates config path routes = front ++ found :: back ∧ -1 < found.score ∧
      (∀ f ∈ front, f.score < found.score) ∧ ∀ m ∈ back, m.score ≤ found.score := by
  unfold selectRoute
  rw [foldl_better]
  obtain ⟨b, s, hfold, hle, hall, hcases⟩ :=
    foldl_better_cases (candidates config path routes) none (-1)
  rw [hfold]
  constructor
  · intro hb
    obtain rfl : b = some found := hb
    rcases hcases with ⟨hnone, _⟩ | ⟨front, m, back, hsplit, hm, rfl, hbest, hfront⟩
    · cases hnone
    · obtain rfl := Option.some.inj hm
      refine ⟨front, back, hsplit, hbest, hfront, fun m hmem => hall m ?_⟩
      rw [hsplit]
      exact List.mem_append_right _ (List.mem_cons_of_mem _ hmem)
  · rintro ⟨front, back, hsplit, hpos, hfront, hback⟩
    have hfound := hall found (by rw [hsplit]; simp)
    rcases hcases with ⟨_, rfl⟩ | ⟨front', m, back', hsplit', rfl, rfl, _, hfront'⟩
    · exact absurd hpos (not_lt_of_ge hfound)
    · show some m = some found
      rw [hsplit] at hsplit'
      -- Of two splits at a first best match neither match is in front of the other.
      rcases List.append_eq_append_iff.1 hsplit' with ⟨c, rfl, hc⟩ | ⟨c, rfl, hc⟩
      · cases c with
        | nil => exact congrArg some (List.cons.inj hc).1.symm
        | cons e c =>
            obtain ⟨rfl, _⟩ := List.cons.inj hc
            have hlt := hfront' found (by simp)
            have hm : m ∈ back := by
              rw [(List.cons.inj hc).2]
              simp
            exact absurd hlt (not_lt_of_ge (hback m hm))
      · cases c with
        | nil => exact congrArg some (List.cons.inj hc).1
        | cons e c =>
            obtain ⟨rfl, _⟩ := List.cons.inj hc
            exact absurd (hfront m (by simp)) (not_lt_of_ge hfound)

/-- Some route is selected when one matches: no score is as low as the one to start from. -/
theorem exists_selectRoute (hroute : route ∈ routes) (hmatch : matchRoute config route path = some found)
    (hpos : -1 < found.score) : ∃ m, selectRoute config routes path = some m := by
  unfold selectRoute
  rw [foldl_better]
  obtain ⟨b, s, hfold, _, hall, hcases⟩ :=
    foldl_better_cases (candidates config path routes) none (-1)
  rw [hfold]
  rcases hcases with ⟨_, rfl⟩ | ⟨_, m, _, _, rfl, _⟩
  · have hle := hall found (mem_candidates.2 ⟨route, hroute, hmatch⟩)
    exact absurd hpos (not_lt_of_ge hle)
  · exact ⟨m, rfl⟩

theorem le_of_selectRoute (h : selectRoute config routes path = some found)
    (hroute : route ∈ routes) {m : RouteMatch Handler} (hm : matchRoute config route path = some m) :
    m.score ≤ found.score := by
  obtain ⟨front, back, hsplit, _, hfront, hback⟩ := selectRoute_eq_some_iff.1 h
  have hmem := mem_candidates.2 ⟨route, hroute, hm⟩
  rw [hsplit, List.mem_append, List.mem_cons] at hmem
  rcases hmem with hmem | rfl | hmem
  · exact (hfront m hmem).le
  · exact le_rfl
  · exact hback m hmem

/-- The selected match is one of a route of the table. -/
theorem mem_of_selectRoute (h : selectRoute config routes path = some found) :
    found.route ∈ routes ∧ matchRoute config found.route path = some found := by
  obtain ⟨front, back, hsplit, _⟩ := selectRoute_eq_some_iff.1 h
  have hmem : found ∈ candidates config path routes := by rw [hsplit]; simp
  obtain ⟨route, hroute, hmatch⟩ := mem_candidates.1 hmem
  obtain ⟨rfl, _⟩ := matchRoute_eq_some hmatch
  exact ⟨hroute, hmatch⟩

/-- Without routes that are not selected, the selection is the same. -/
theorem selectRoute_filter (h : selectRoute config routes path = some found)
    {test : RouteDefinition Handler → Bool} (htest : test found.route = true) :
    selectRoute config (routes.filter test) path = some found := by
  obtain ⟨front, back, hsplit, hpos, hfront, hback⟩ := selectRoute_eq_some_iff.1 h
  refine selectRoute_eq_some_iff.2 ⟨front.filter fun m => test m.route,
    back.filter fun m => test m.route, ?_, hpos, ?_, ?_⟩
  · rw [candidates_filter, hsplit, List.filter_append, List.filter_cons]
    exact congrArg _ (if_pos htest)
  · exact fun f hf => hfront f (List.mem_filter.1 hf).1
  · exact fun m hm => hback m (List.mem_filter.1 hm).1

end Kinglet.Gateway
