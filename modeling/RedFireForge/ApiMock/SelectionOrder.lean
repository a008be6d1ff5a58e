/-
# `RedFireForge.ApiMock.SelectionOrder` — the order of the routes does not matter

Routes with different identifiers are ranked by a total order, of which the identifier is the last
part.  Two lists with the same routes have the same results of the highest priority, and sorted
they are the same list.
-/
import RedFireForge.ApiMock.ResponseSelector
import RedFireForge.ApiMock.RouteSelector
import RedFireForge.Lib.Grouping

namespace RedFireForge.ApiMock

open RedFireForge.Lib

/-- What is assumed of `localeCompare`. -/
structure TotallyOrders (compare : String → String → ℤ) : Prop where
  antisymm : ∀ s t, compare s t ≤ 0 → compare t s ≤ 0 → s = t
  trans : ∀ s t u, compare s t ≤ 0 → compare t u ≤ 0 → compare s u ≤ 0
  total : ∀ s t, compare s t ≤ 0 ∨ compare t s ≤ 0

section Ranks

variable {js : Js} {routes : List Route} {a b c : RouteEvaluationResult}

theorem ranksBefore_iff : ranksBefore js routes a b = true ↔
    computeSpecificity routes b < computeSpecificity routes a ∨
      computeSpecificity routes a = computeSpecificity routes b ∧ js.localeCompare a.routeId b.routeId ≤ 0 := by
  rw [ranksBefore]
  split
  next heq => simp [heq]
  next hne => simp [hne]

theorem ranksBefore_trans (horder : TotallyOrders js.localeCompare) (hab : ranksBefore js routes a b = true)
    (hbc : ranksBefore js routes b c = true) : ranksBefore js routes a c = true := by
  rw [ranksBefore_iff] at hab hbc ⊢
  rcases hab with hab | ⟨hab, hab'⟩
  · rcases hbc with hbc | ⟨hbc, -⟩
    · exact .inl (hbc.trans hab)
    · exact .inl (hbc ▸ hab)
  · rcases hbc with hbc | ⟨hbc, hbc'⟩
    · exact .inl (hab ▸ hbc)
    · exact .inr ⟨hab.trans hbc, horder.trans _ _ _ hab' hbc'⟩

theorem ranksBefore_total (horder : TotallyOrders js.localeCompare) :
    ranksBefore js routes a b = true ∨ ranksBefore js routes b a = true := by
  rw [ranksBefore_iff, ranksBefore_iff]
  rcases Nat.lt_trichotomy (computeSpecificity routes a) (computeSpecificity routes b) with hlt | heq | hgt
  · exact .inr (.inl hlt)
  · exact (horder.total a.routeId b.routeId).imp (fun h => .inr ⟨heq, h⟩) fun h => .inr ⟨heq.symm, h⟩
  · exact .inl (.inl hgt)

/-- Two that stand before each other have the same identifier. -/
theorem routeId_eq_of_ranksBefore (horder : TotallyOrders js.localeCompare) (hab : ranksBefore js routes a b = true)
    (hba : ranksBefore js routes b a = true) : a.routeId = b.routeId := by
  rw [ranksBefore_iff] at hab hba
  rcases hab with hab | ⟨hsame, hab⟩
  · rcases hba with hba | ⟨heq, -⟩
    · exact absurd hab (Nat.lt_asymm hba)
    · exact absurd heq (Nat.ne_of_lt hab)
  · rcases hba with hba | ⟨heq, hba⟩
    · omega
    · exact horder.antisymm _ _ hab hba

/-- The first of the sorted list is before all. -/
theorem ranksBefore_of_mergeSort (horder : TotallyOrders js.localeCompare) {l rest : List RouteEvaluationResult}
    (hsort : l.mergeSort (ranksBefore js routes) = a :: rest) (hb : b ∈ l) (hne : b ≠ a) :
    ranksBefore js routes a b = true := by
  have hsorted := @List.pairwise_mergeSort _ (ranksBefore js routes) (fun _ _ _ => ranksBefore_trans horder)
    (fun _ _ => Bool.or_eq_true_iff.mpr (ranksBefore_total horder)) l
  rw [hsort, List.pairwise_cons] at hsorted
  have hmem : b ∈ a :: rest := by
    rw [← hsort, List.mem_mergeSort]
    exact hb
  exact hsorted.1 b ((List.mem_cons.mp hmem).resolve_left hne)

end Ranks

/-! ## Two lists of the same routes -/

section Permuted

variable {js : Js} {matchers : Matchers} {routes routes' : List Route} {request : CapturedRequest} {basePath : String}

theorem routeOf_eq_some_iff (hids : (routes.map Route.id).Nodup) {id : String} {route : Route} :
    routeOf routes id = some route ↔ route ∈ routes ∧ route.id = id := by
  have hreverse : (routes.reverse.map Route.id).Nodup := by
    rw [List.map_reverse, List.nodup_reverse]
    exact hids
  constructor
  · intro h
    exact ⟨List.mem_reverse.mp (List.mem_of_find?_eq_some h), beq_iff_eq.mp (List.find?_some h :)⟩
  · rintro ⟨hmem, rfl⟩
    have hfind := find?_key hreverse (List.mem_reverse.mpr hmem)
    simpa [routeOf, beq_eq_decide] using hfind

theorem routeOf_perm (hperm : routes.Perm routes') (hids : (routes.map Route.id).Nodup) (id : String) :
    routeOf routes id = routeOf routes' id := by
  have hids' := (hperm.map Route.id).nodup hids
  refine Option.ext fun route => ?_
  rw [routeOf_eq_some_iff hids, routeOf_eq_some_iff hids', hperm.mem_iff]

theorem ranksBefore_perm (hperm : routes.Perm routes') (hids : (routes.map Route.id).Nodup) :
    ranksBefore js routes = ranksBefore js routes' := by
  have hspecificity : computeSpecificity routes = computeSpecificity routes' := by
    funext e
    rw [computeSpecificity, computeSpecificity, routeOf_perm hperm hids]
  funext a b
  rw [ranksBefore, ranksBefore, hspecificity]

/-- The results of the routes that match. -/
abbrev foundOf (js : Js) (matchers : Matchers) (routes : List Route) (request : CapturedRequest) (basePath : String) :
    List RouteEvaluationResult :=
  (routes.map (evaluateRoute js matchers request basePath)).filter (·.overallMatch)

theorem found_perm (hperm : routes.Perm routes') :
    (foundOf js matchers routes request basePath).Perm (foundOf js matchers routes' request basePath) :=
  (hperm.map _).filter _

theorem atHighest_perm {found found' : List RouteEvaluationResult} (hperm : found.Perm found') :
    (atHighest found).Perm (atHighest found') := by
  have hsame : ∀ e ∈ found, (found.all fun f => decide (f.priority ≤ e.priority)) =
      found'.all fun f => decide (f.priority ≤ e.priority) := fun e _ => hperm.all_eq
  rw [atHighest, List.filter_congr hsame]
  exact hperm.filter _

/-- Of different routes the results are told apart by the identifiers. -/
theorem found_ext (hids : (routes.map Route.id).Nodup) {a b : RouteEvaluationResult}
    (ha : a ∈ foundOf js matchers routes request basePath) (hb : b ∈ foundOf js matchers routes request basePath)
    (h : a.routeId = b.routeId) : a = b := by
  obtain ⟨r, hr, rfl⟩ := List.mem_map.mp (List.mem_filter.mp ha).1
  obtain ⟨r', hr', rfl⟩ := List.mem_map.mp (List.mem_filter.mp hb).1
  rw [List.inj_on_of_nodup_map hids hr hr' h]

theorem mergeSort_perm (horder : TotallyOrders js.localeCompare) (hperm : routes.Perm routes')
    (hids : (routes.map Route.id).Nodup) :
    (atHighest (foundOf js matchers routes request basePath)).mergeSort (ranksBefore js routes) =
      (atHighest (foundOf js matchers routes' request basePath)).mergeSort (ranksBefore js routes') := by
  rw [← ranksBefore_perm hperm hids]
  have htrans : ∀ a b c, ranksBefore js routes a b = true → ranksBefore js routes b c = true →
      ranksBefore js routes a c = true := fun _ _ _ => ranksBefore_trans horder
  have htotal : ∀ a b, (ranksBefore js routes a b || ranksBefore js routes b a) = true := fun _ _ =>
    Bool.or_eq_true_iff.mpr (ranksBefore_total horder)
  refine List.Perm.eq_of_pairwise ?_ (List.pairwise_mergeSort htrans htotal _) (List.pairwise_mergeSort htrans htotal _) ?_
  · intro a b ha hb hab hba
    rw [List.mem_mergeSort] at ha hb
    have hb' : b ∈ foundOf js matchers routes request basePath :=
      (found_perm hperm).mem_iff.mpr (List.mem_filter.mp hb).1
    exact found_ext hids (List.mem_filter.mp ha).1 hb' (routeId_eq_of_ranksBefore horder hab hba)
  · exact (List.mergeSort_perm _ _).trans ((atHighest_perm (found_perm hperm)).trans (List.mergeSort_perm _ _).symm)

theorem selectRoute_perm (horder : TotallyOrders js.localeCompare) (hperm : routes.Perm routes')
    (hids : (routes.map Route.id).Nodup) (settings : SelectionSettings) :
    selectRoute js matchers routes request settings basePath = selectRoute js matchers routes' request settings basePath := by
  have hfound := @found_perm js matchers routes routes' request basePath hperm
  have hhighest := atHighest_perm hfound
  have hsorted := @mergeSort_perm js matchers routes routes' request basePath horder hperm hids
  simp only [selectRoute]
  rw [hfound.length_eq, hhighest.length_eq, hsorted]

/-- What wins was found, and nothing that was found ranks above it. -/
theorem selectRoute_first {settings : SelectionSettings} {winner : RouteEvaluationResult} (horder : TotallyOrders js.localeCompare)
    (h : selectRoute js matchers routes request settings basePath = .matched winner) {e : RouteEvaluationResult}
    (he : e ∈ atHighest (foundOf js matchers routes request basePath)) :
    computeSpecificity routes e ≤ computeSpecificity routes winner := by
  simp only [selectRoute] at h
  split at h
  next => cases h
  next =>
    split at h
    next => cases h
    next =>
      split at h
      next => cases h
      next first rest hsort =>
        cases h
        by_cases hne : e = winner
        · rw [hne]
        · rcases ranksBefore_iff.mp (ranksBefore_of_mergeSort horder hsort he hne) with hlt | ⟨heq, -⟩
          · exact hlt.le
          · exact heq.ge

/-- A route of the priority that won is among the highest. -/
theorem mem_atHighest {settings : SelectionSettings} {winner : RouteEvaluationResult} {route : Route} (hroute : route ∈ routes)
    (h : selectRoute js matchers routes request settings basePath = .matched winner)
    (hmatch : (evaluateRoute js matchers request basePath route).overallMatch = true)
    (hpriority : route.priority = winner.priority) :
    evaluateRoute js matchers request basePath route ∈ atHighest (foundOf js matchers routes request basePath) := by
  refine List.mem_filter.mpr ⟨List.mem_filter.mpr ⟨List.mem_map_of_mem hroute, hmatch⟩, ?_⟩
  rw [List.all_eq_true]
  intro f hf
  obtain ⟨other, hother, rfl⟩ := List.mem_map.mp (List.mem_filter.mp hf).1
  have hle := selectRoute_highest h hother (List.mem_filter.mp hf).2
  exact decide_eq_true (hle.trans_eq hpriority.symm)

/-- The order of the routes does not matter; and a route that is selected is enabled and matches,
none that matches has a higher priority, and of those with its priority none is more specific. -/
theorem selectRoute_order_independent (js : Js) (matchers : Matchers) (horder : TotallyOrders js.localeCompare)
    (routes : List Route) (hids : (routes.map Route.id).Nodup) (request : CapturedRequest) (settings : SelectionSettings)
    (basePath : String) :
    (∀ routes', routes.Perm routes' →
      selectRoute js matchers routes' request settings basePath = selectRoute js matchers routes request settings basePath) ∧
    ∀ winner, selectRoute js matchers routes request settings basePath = .matched winner →
      ∃ route ∈ routes, route.id = winner.routeId ∧ winner = evaluateRoute js matchers request basePath route ∧
        route.enabled = true ∧ winner.overallMatch = true ∧
        ∀ other ∈ routes, (evaluateRoute js matchers request basePath other).overallMatch = true →
          other.priority ≤ route.priority ∧ (other.priority = route.priority →
            computeSpecificityFromRoute other (evaluateRoute js matchers request basePath other) ≤
              computeSpecificityFromRoute route winner) := by
  refine ⟨fun routes' hperm => (selectRoute_perm horder hperm hids settings).symm, fun winner h => ?_⟩
  obtain ⟨route, hroute, hwinner⟩ := List.mem_map.mp (List.mem_filter.mp (List.mem_filter.mp (selectRoute_winner h)).1).1
  have hmatches := selectRoute_matches h
  have hspecificity : ∀ other ∈ routes, computeSpecificity routes (evaluateRoute js matchers request basePath other) =
      computeSpecificityFromRoute other (evaluateRoute js matchers request basePath other) := by
    intro other hother
    have hid : (evaluateRoute js matchers request basePath other).routeId = other.id := rfl
    rw [computeSpecificity, hid, (routeOf_eq_some_iff hids).mpr ⟨hother, rfl⟩]
    rfl
  refine ⟨route, hroute, congrArg RouteEvaluationResult.routeId hwinner, hwinner.symm, ?_, hmatches, ?_⟩
  · rw [← hwinner] at hmatches
    simp only [evaluateRoute, Bool.and_eq_true] at hmatches
    exact hmatches.1.1
  · intro other hother hmatch
    have hpriority : winner.priority = route.priority := (congrArg RouteEvaluationResult.priority hwinner).symm
    refine ⟨hpriority ▸ selectRoute_highest h hother hmatch, fun heq => ?_⟩
    have hle := selectRoute_first horder h (mem_atHighest hother h hmatch (heq.trans hpriority.symm))
    rw [← hwinner, hspecificity other hother, hspecificity route hroute] at hle
    rw [← hwinner]
    exact hle

end Permuted

theorem asciiJs_orders : TotallyOrders asciiJs.localeCompare := by
  have hle : ∀ s t, asciiJs.localeCompare s t ≤ 0 ↔ s ≤ t := by
    intro s t
    simp only [asciiJs]
    split
    next heq => simp [heq]
    next hne =>
      split
      next hlt => simp [String.not_lt.mp (String.lt_asymm hlt)]
      next hnot =>
        have hafter : ¬ s ≤ t := fun hle => hne (String.le_antisymm hle (String.not_lt.mp hnot))
        simp [hafter]
  constructor
  · intro s t hst hts
    exact String.le_antisymm ((hle s t).mp hst) ((hle t s).mp hts)
  · intro s t u hst htu
    exact (hle s u).mpr (String.le_trans ((hle s t).mp hst) ((hle t u).mp htu))
  · intro s t
    rw [hle, hle]
    exact String.le_total s t

theorem plans_and_orders_swapped :
    selectRoute asciiJs noMatchers [orders, plans] goldRequest ⟨.highest_priority, .specificity_then_id⟩ "" =
      selectRoute asciiJs noMatchers [plans, orders] goldRequest ⟨.highest_priority, .specificity_then_id⟩ "" :=
  (selectRoute_order_independent asciiJs noMatchers asciiJs_orders [plans, orders] (by decide) goldRequest _ "").1 _
    (.swap orders plans [])

end RedFireForge.ApiMock
