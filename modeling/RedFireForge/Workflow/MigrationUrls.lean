/-
# `RedFireForge.Workflow.MigrationUrls` — which base URLs a migration keeps

A node bound to a service keeps it, or the service is split and the node gets a new one,
which knows the origin of the node's own URL and nothing of the service's.  So a node of a
split service keeps its base URL when that is this origin, and loses it when its own URL is
relative.  The older fields of a service are read as endpoints from then on, which gives
another URL where a microservice was linked or the environment had none.
-/
import Mathlib.Algebra.Order.BigOperators.Group.List
import RedFireForge.Workflow.MigrationSteps

namespace RedFireForge.Workflow

open RedFireForge.Lib

/-! ## Trimmed texts -/

theorem trim_trim (cs : List Char) : ApiMock.trim (ApiMock.trim cs) = ApiMock.trim cs := by
  have hstart : (ApiMock.trim cs).dropWhile ApiMock.isSpace = ApiMock.trim cs := by
    unfold ApiMock.trim
    cases htrim : (cs.dropWhile ApiMock.isSpace).rdropWhile ApiMock.isSpace with
    | nil => rfl
    | cons c r =>
        obtain ⟨l, hl⟩ := htrim ▸ List.rdropWhile_prefix ApiMock.isSpace (cs.dropWhile ApiMock.isSpace)
        have hdrop := List.dropWhile_idempotent ApiMock.isSpace cs
        rw [← hl, List.cons_append] at hdrop
        refine List.dropWhile_cons_of_neg fun hc => ?_
        rw [List.dropWhile_cons_of_pos hc] at hdrop
        have hlength := (List.dropWhile_sublist (l := r ++ l) ApiMock.isSpace).length_le
        rw [hdrop] at hlength
        exact absurd hlength (Nat.not_succ_le_self _)
  rw [ApiMock.trim, hstart]
  exact List.rdropWhile_idempotent _ _

theorem trimText_trimText (s : String) : trimText (trimText s) = trimText s := by
  unfold trimText
  rw [String.toList_ofList, trim_trim]

theorem trimText_ne_empty {s : String} {c : Char} (hc : c ∈ s.toList) (hspace : ApiMock.isSpace c = false) :
    trimText s ≠ "" := by
  intro hempty
  have hnil : ApiMock.trim s.toList = [] := by
    have hlist := congrArg String.toList hempty
    rw [trimText, String.toList_ofList] at hlist
    exact hlist
  have hall := List.rdropWhile_eq_nil_iff.mp hnil
  rw [← List.takeWhile_append_dropWhile (p := ApiMock.isSpace) (l := s.toList), List.mem_append] at hc
  rcases hc with hc | hc
  · rw [List.mem_takeWhile_imp hc] at hspace
    cases hspace
  · rw [hall c hc] at hspace
    cases hspace

theorem stripTrailingSlash_trimText (url : String) : stripTrailingSlash (trimText url) = stripTrailingSlash url := by
  unfold stripTrailingSlash
  rw [trimText_trimText]

theorem nonBlank_some {s : String} (h : trimText s ≠ "") : nonBlank (some s) = some s := by
  unfold nonBlank
  rw [Option.filter_some, if_pos (decide_eq_true h)]

theorem slash_of_toLower {c : Char} (h : c.toLower = '/') : c = '/' := by
  unfold Char.toLower at h
  split at h
  next hupper =>
    -- a letter is not turned into a slash
    have hval : c.val + 32 = 47 := congrArg Char.val h
    have hnat : (c.val.toNat + 32) % 2 ^ 32 = 47 := by
      have := congrArg UInt32.toNat hval
      rwa [UInt32.toNat_add] at this
    have hle : 65 ≤ c.val.toNat := UInt32.le_iff_toNat_le.mp hupper.1
    have hge : c.val.toNat ≤ 90 := UInt32.le_iff_toNat_le.mp hupper.2
    omega
  next => exact h

theorem slash_mem_scheme {cs : List Char} {parts : List Char × List Char} (h : splitScheme cs = some parts) :
    '/' ∈ parts.1 := by
  have hlower : ∀ ds : List Char, '/' ∈ ds.map Char.toLower → '/' ∈ ds := by
    intro ds hds
    obtain ⟨c, hc, hslash⟩ := List.mem_map.mp hds
    exact slash_of_toLower hslash ▸ hc
  unfold splitScheme at h
  split at h
  next hhttps =>
    rw [← Option.some.inj h, List.splitAt_eq]
    exact hlower _ (hhttps ▸ by decide)
  next =>
    split at h
    next hhttp =>
      rw [← Option.some.inj h, List.splitAt_eq]
      exact hlower _ (hhttp ▸ by decide)
    next => cases h

theorem origin_nonBlank {parseUrl : String → Option ParsedUrl} {url origin : String}
    (h : extractUrlOrigin parseUrl url = some origin) : trimText origin ≠ "" := by
  have hslash : '/' ∈ origin.toList := by
    unfold extractUrlOrigin at h
    dsimp only at h
    split at h
    next => cases h
    next =>
      obtain ⟨parts, hparts, h⟩ := Option.bind_eq_some_iff.mp h
      split at h
      next =>
        rw [← Option.some.inj h, String.toList_append, String.toList_append]
        exact List.mem_append_left _ (List.mem_append_right _ (by decide))
      next =>
        split at h
        next => cases h
        next =>
          rw [← Option.some.inj h, String.toList_ofList]
          exact List.mem_append_left _ (slash_mem_scheme hparts)
  exact trimText_ne_empty hslash (by decide)

/-! ## One service -/

/-- The URL that is found among the older fields, once they are endpoints. -/
def pickUrl (urls : List (String × String)) (selectedEnvId : Option String) : Option (String × String) :=
  (((given selectedEnvId).bind fun env => urls.find? (·.1 = env)).or (urls.find? (·.1 = "__all__"))).or urls.head?

variable {parseUrl : String → Option ParsedUrl} {microservices : List Microservice} {svc : WorkflowService}
  {selectedEnvId : Option String} {urls : List (String × String)}

theorem mem_of_pickUrl {e : String × String} (h : pickUrl urls selectedEnvId = some e) : e ∈ urls := by
  unfold pickUrl at h
  rw [Option.or_eq_some_iff, Option.or_eq_some_iff] at h
  rcases h with (henv | ⟨-, hall⟩) | ⟨-, hhead⟩
  · obtain ⟨env, -, hfind⟩ := Option.bind_eq_some_iff.mp henv
    exact List.mem_of_find?_eq_some hfind
  · exact List.mem_of_find?_eq_some hall
  · exact List.mem_of_mem_head? hhead

theorem pickUrl_isSome (selectedEnvId : Option String) (h : urls ≠ []) : ∃ e, pickUrl urls selectedEnvId = some e := by
  obtain ⟨e, urls, rfl⟩ := List.exists_cons_of_ne_nil h
  refine Option.isSome_iff_exists.mp ?_
  rw [pickUrl, Option.isSome_or, List.head?_cons, Option.isSome_some, Bool.or_true]

theorem legacyUrls_nonBlank {e : String × String} (h : e ∈ legacyUrls svc) : trimText e.2 ≠ "" :=
  of_decide_eq_true (List.mem_filter.mp h).2

theorem findEndpoint_legacy (h : ∀ e ∈ urls, trimText e.2 ≠ "") :
    findEndpoint (urls.map (legacyEndpoint svc)) selectedEnvId =
      (pickUrl urls selectedEnvId).map (legacyEndpoint svc) := by
  have hfind : ∀ env, (urls.map (legacyEndpoint svc)).find? (fun e => e.envId == env && e.enabled) =
      (urls.find? (·.1 = env)).map (legacyEndpoint svc) := by
    intro env
    rw [List.find?_map]
    refine congrArg (Option.map _) (congrArg (urls.find? ·) (funext fun e => ?_))
    exact Bool.and_true _
  have hhead : (urls.map (legacyEndpoint svc)).find? (fun e => e.enabled && trimText e.url ≠ "") =
      urls.head?.map (legacyEndpoint svc) := by
    cases urls with
    | nil => rfl
    | cons e urls =>
        have hpos : trimText (legacyEndpoint svc e).url ≠ "" := by
          rw [legacyEndpoint, trimText_trimText]
          exact h e List.mem_cons_self
        rw [List.map_cons, List.find?_cons, decide_eq_true hpos]
        rfl
  unfold findEndpoint pickUrl
  rw [hfind, hhead]
  cases hgiven : given selectedEnvId with
  | none => rw [Option.bind_none, Option.bind_none, Option.none_or, Option.none_or, ← Option.map_or]
  | some env => rw [Option.bind_some, Option.bind_some, hfind, ← Option.map_or, ← Option.map_or]

theorem findEndpoint_direct {url : String} :
    findEndpoint [directEndpoint url] selectedEnvId = some (directEndpoint url) := by
  have hall : [directEndpoint url].find? (fun e => e.envId == "__all__" && e.enabled) = some (directEndpoint url) :=
    List.find?_cons_of_pos rfl
  unfold findEndpoint
  rw [hall]
  cases hgiven : given selectedEnvId with
  | none => rfl
  | some env =>
      rw [Option.bind_some, List.find?_cons]
      split
      next => rfl
      next => rfl

theorem resolve_of_endpoint (svc : WorkflowService) (microservices : List Microservice) {endpoint : ServiceEndpoint}
    (h : findEndpoint svc.endpoints selectedEnvId = some endpoint) (hurl : trimText endpoint.url ≠ "") :
    resolveServiceBaseUrl svc microservices selectedEnvId = some (stripTrailingSlash endpoint.url) := by
  unfold resolveServiceBaseUrl
  rw [h, Option.map_some, nonBlank_some hurl]

theorem resolve_of_no_endpoints (h : svc.endpoints = []) :
    resolveServiceBaseUrl svc microservices selectedEnvId =
      match given svc.microserviceId with
      | some id => microserviceUrl microservices id selectedEnvId
      | none => legacyUrl svc selectedEnvId := by
  have hnone : findEndpoint svc.endpoints selectedEnvId = none := by
    rw [h]
    cases hgiven : given selectedEnvId with
    | none => rw [findEndpoint, hgiven]; rfl
    | some env => rw [findEndpoint, hgiven]; rfl
  unfold resolveServiceBaseUrl
  rw [hnone]
  rfl

/-- A service that is not split, after its older fields have become endpoints. -/
theorem resolve_converted : resolveServiceBaseUrl (convertLegacyEndpoint svc) microservices selectedEnvId =
    if svc.endpoints ≠ [] ∨ legacyUrls svc = [] then resolveServiceBaseUrl svc microservices selectedEnvId
    else (pickUrl (legacyUrls svc) selectedEnvId).map fun e => stripTrailingSlash e.2 := by
  unfold convertLegacyEndpoint
  split
  next hendpoints => rw [if_pos (Or.inl hendpoints)]
  next hendpoints =>
    rw [not_not] at hendpoints
    by_cases hlegacy : legacyUrls svc = []
    · rw [if_pos (Or.inr hlegacy), hlegacy, List.map_nil, resolve_of_no_endpoints rfl,
        resolve_of_no_endpoints hendpoints]
      rfl
    · obtain ⟨e, he⟩ := pickUrl_isSome selectedEnvId hlegacy
      have hblank : trimText (legacyEndpoint svc e).url ≠ "" := by
        rw [legacyEndpoint, trimText_trimText]
        exact legacyUrls_nonBlank (mem_of_pickUrl he)
      have hfind : findEndpoint ((legacyUrls svc).map (legacyEndpoint svc)) selectedEnvId =
          some (legacyEndpoint svc e) := by
        rw [findEndpoint_legacy fun _ => legacyUrls_nonBlank, he]
        rfl
      have hresolve := resolve_of_endpoint { svc with
        endpoints := (legacyUrls svc).map (legacyEndpoint svc)
        defaultAuth := svc.defaultAuth.or svc.auth } microservices hfind hblank
      rw [if_neg (not_or.mpr ⟨not_not.mpr hendpoints, hlegacy⟩), he, Option.map_some, hresolve, legacyEndpoint,
        stripTrailingSlash_trimText]

theorem origin_eq_of_regroupKey {first data : HttpNodeData}
    (h : regroupKey parseUrl data = regroupKey parseUrl first) :
    extractUrlOrigin parseUrl data.url = extractUrlOrigin parseUrl first.url := by
  have hhead : ∀ s s' : String, "origin:" ++ s ≠ "label:" ++ s' := by
    intro s s' heq
    have hlist := congrArg (List.head? ∘ String.toList) heq
    rw [Function.comp_apply, Function.comp_apply, String.toList_append, String.toList_append] at hlist
    cases hlist
  unfold regroupKey at h
  split at h
  next origin horigin =>
    split at h
    next origin' horigin' => rw [horigin, horigin', String.append_right_inj _ |>.mp h]
    next => exact absurd h (hhead _ _)
  next hnone =>
    split at h
    next => exact absurd h.symm (hhead _ _)
    next hnone' => rw [hnone, hnone']

/-- A service that a node of a split service gets. -/
theorem resolve_regrouped {name id : String} {first data : HttpNodeData}
    (hkey : regroupKey parseUrl data = regroupKey parseUrl first) :
    resolveServiceBaseUrl ((regroupDraft parseUrl name first).service id) microservices selectedEnvId =
      (extractUrlOrigin parseUrl data.url).map stripTrailingSlash := by
  rw [origin_eq_of_regroupKey hkey]
  cases hfirst : extractUrlOrigin parseUrl first.url with
  | none =>
      have hendpoints : ((regroupDraft parseUrl name first).service id).endpoints = [] := by
        rw [regroupDraft, ServiceDraft.service, hfirst]
        rfl
      have hmode : ((regroupDraft parseUrl name first).service id).urlMode = some .multiEnv := by
        rw [regroupDraft, ServiceDraft.service, hfirst]
        rfl
      rw [resolve_of_no_endpoints hendpoints]
      show legacyUrl _ _ = none
      unfold legacyUrl
      rw [hmode]
      cases hgiven : given selectedEnvId with
      | none => rfl
      | some env => rfl
  | some origin =>
      have hfind : findEndpoint ((regroupDraft parseUrl name first).service id).endpoints selectedEnvId =
          some (directEndpoint origin) := by
        rw [regroupDraft, ServiceDraft.service, hfirst]
        exact findEndpoint_direct
      have hblank : trimText (directEndpoint origin).url ≠ "" := origin_nonBlank hfirst
      exact (resolve_of_endpoint _ _ hfind hblank).trans rfl

/-! ## The version steps -/

/-- The HTTP nodes look the same, and services are added at most. -/
structure Carries (known : List String) (wf wf' : StoredWorkflow) : Prop where
  views : (wf'.nodes.filter (·.data?.isSome)).map (StoredNode.view known) =
    (wf.nodes.filter (·.data?.isSome)).map (StoredNode.view known)
  services : ∃ news, wf'.registry = wf.registry ++ news
  ids : (wf'.nodes.map StoredNode.id).Nodup

section
variable {known : List String} {uuid : Uuid} {wf wf' wf'' : StoredWorkflow} {nodes nodes' : List StoredNode}

theorem Carries.refl (hids : (wf.nodes.map StoredNode.id).Nodup) : Carries known wf wf where
  views := rfl
  services := ⟨[], (List.append_nil _).symm⟩
  ids := hids

theorem Carries.trans (h : Carries known wf wf') (h' : Carries known wf' wf'') : Carries known wf wf'' where
  views := h'.views.trans h.views
  services := by
    obtain ⟨news, hnews⟩ := h.services
    obtain ⟨news', hnews'⟩ := h'.services
    exact ⟨news ++ news', by rw [hnews', hnews, List.append_assoc]⟩
  ids := h'.ids

theorem Carries.registry (h : Carries known wf wf') (hknown : known ⊆ wf.registry.map WorkflowService.id) :
    known ⊆ wf'.registry.map WorkflowService.id := by
  obtain ⟨news, hnews⟩ := h.services
  rw [hnews, List.map_append]
  exact fun id hid => List.mem_append_left _ (hknown hid)

theorem Keeps.carries (h : Keeps known wf wf') (hids : (wf.nodes.map StoredNode.id).Nodup) :
    Carries known wf wf' where
  views := http_views h.views
  services := h.services
  ids := by
    rw [ids_of_views h.views]
    exact hids

theorem SameGraph.carries (h : SameGraph wf wf') (hids : (wf.nodes.map StoredNode.id).Nodup) :
    Carries known wf wf' where
  views := by rw [h.nodes]
  services := ⟨[], by rw [h.registry, List.append_nil]⟩
  ids := by
    rw [h.nodes]
    exact hids

theorem carries_insertStart (hids : (wf.nodes.map StoredNode.id).Nodup) :
    Carries known wf (insertStart uuid wf) := by
  have hviews : ((wf.nodes.map fun n => { n with position := (n.position.1, n.position.2 + 100) }).map
      (StoredNode.view known)) = wf.nodes.map (StoredNode.view known) := by
    rw [List.map_map]
    exact List.map_congr_left fun n _ => StoredNode.view_position n _
  refine ⟨(http_views hviews :), ⟨[], (List.append_nil _).symm⟩, ?_⟩
  rw [ids_insertStart, List.nodup_cons]
  exact ⟨startId_not_mem uuid wf, hids⟩

theorem isStart_of_http {n : StoredNode} (h : n.data?.isSome) : n.isStart = false := by
  obtain ⟨data, hdata⟩ := Option.isSome_iff_exists.mp h
  rw [StoredNode.eq_http hdata]
  rfl

theorem Strips.carries {removed : List String} (h : Strips wf wf' removed) (hids : (wf.nodes.map StoredNode.id).Nodup) :
    Carries known wf wf' := by
  refine ⟨congrArg (List.map _) ?_, ⟨[], by rw [h.registry, List.append_nil]⟩, ?_⟩
  · rw [h.nodes, List.filter_filter]
    refine List.filter_congr fun n hn => ?_
    cases hhttp : n.data?.isSome with
    | false => rfl
    | true => exact decide_eq_true (h.not_mem hids hn (isStart_of_http hhttp))
  · rw [h.nodes]
    exact (List.filter_sublist.map StoredNode.id).nodup hids

theorem carries_v3ToV4 (hids : (wf.nodes.map StoredNode.id).Nodup) : Carries known wf (migrateV3ToV4 uuid wf) := by
  rcases v3ToV4_cases uuid wf with hsame | ⟨-, hinsert⟩
  · exact hsame.carries hids
  · rw [hinsert]
    exact carries_insertStart hids

theorem carries_v5ToV6 (hids : (wf.nodes.map StoredNode.id).Nodup) : Carries known wf (migrateV5ToV6 wf) := by
  obtain ⟨removed, hstrips⟩ := strips_v5ToV6 wf
  exact hstrips.carries hids

/-- A step that runs when the version is too low. -/
theorem Carries.step (h : Carries known wf wf') {c : Prop} [Decidable c] {step : StoredWorkflow → StoredWorkflow}
    (hstep : Carries known wf' (step wf')) : Carries known wf (if c then step wf' else wf') := by
  split
  next => exact h.trans hstep
  next => exact h

theorem carries_migrateVersions (hids : (wf.nodes.map StoredNode.id).Nodup) :
    Carries (wf.registry.map WorkflowService.id) wf (migrateVersions parseUrl uuid wf) := by
  have h₀ : Carries (wf.registry.map WorkflowService.id) wf wf := Carries.refl hids
  unfold migrateVersions
  extract_lets wf₁ wf₂ wf₃ wf₄
  have h₁ : Carries (wf.registry.map WorkflowService.id) wf wf₁ := h₀.step (keeps_v1ToV2.carries hids)
  have h₂ : Carries (wf.registry.map WorkflowService.id) wf wf₂ :=
    h₁.step ((keeps_v2ToV3 (h₁.registry fun _ hid => hid)).carries h₁.ids)
  have h₃ : Carries (wf.registry.map WorkflowService.id) wf wf₃ := h₂.step (carries_v3ToV4 h₂.ids)
  have h₄ : Carries (wf.registry.map WorkflowService.id) wf wf₄ := h₃.step (sameGraph_v4ToV5.carries h₃.ids)
  exact h₄.step (carries_v5ToV6 h₄.ids)

/-! ## The nodes of a service -/

theorem boundService_eq_some {data : HttpNodeData} {services : List WorkflowService} :
    boundService data services = some svc ↔
      given data.serviceId = some svc.id ∧ services.find? (·.id = svc.id) = some svc := by
  unfold boundService
  rw [Option.bind_eq_some_iff]
  constructor
  · rintro ⟨id, hgiven, hfind⟩
    have hid := List.find?_some hfind
    rw [decide_eq_true_eq] at hid
    subst hid
    exact ⟨hgiven, hfind⟩
  · rintro ⟨hgiven, hfind⟩
    exact ⟨svc.id, hgiven, hfind⟩

/-- What the older fields do not change. -/
theorem convertLegacyEndpoint_id (svc : WorkflowService) : (convertLegacyEndpoint svc).id = svc.id ∧
    (convertLegacyEndpoint svc).microserviceId = svc.microserviceId := by
  unfold convertLegacyEndpoint
  split
  next => exact ⟨rfl, rfl⟩
  next => exact ⟨rfl, rfl⟩

theorem find?_converted {services : List WorkflowService} {svcId : String} :
    (convertLegacyEndpoints services).find? (·.id = svcId) =
      (services.find? (·.id = svcId)).map convertLegacyEndpoint := by
  unfold convertLegacyEndpoints
  rw [List.find?_map]
  refine congrArg (Option.map _) (congrArg (services.find? ·) (funext fun s => ?_))
  rw [Function.comp_apply, (convertLegacyEndpoint_id s).1]

theorem Carries.find? (h : Carries known wf wf') {svcId : String} (hfind : wf.registry.find? (·.id = svcId) = some svc) :
    (withEndpoints wf').registry.find? (·.id = svcId) = some (convertLegacyEndpoint svc) := by
  obtain ⟨news, hnews⟩ := h.services
  show (convertLegacyEndpoints wf'.registry).find? _ = _
  rw [find?_converted, hnews, List.find?_append, hfind]
  rfl

theorem node_of_views (h : (nodes'.filter (·.data?.isSome)).map (StoredNode.view known) =
      (nodes.filter (·.data?.isSome)).map (StoredNode.view known)) {n : StoredNode} (hn : n ∈ nodes)
    {data : HttpNodeData} (hdata : n.data? = some data) :
    ∃ n' ∈ nodes', ∃ data', n'.id = n.id ∧ n'.data? = some data' ∧ data'.unbound = data.unbound ∧
      ∀ id ∈ known, given data'.serviceId = some id ↔ given data.serviceId = some id := by
  have hmem : n.view known ∈ (nodes.filter (·.data?.isSome)).map (StoredNode.view known) :=
    List.mem_map_of_mem (List.mem_filter.mpr ⟨hn, by rw [hdata]; rfl⟩)
  rw [← h] at hmem
  obtain ⟨n', hn', hview⟩ := List.mem_map.mp hmem
  obtain ⟨data', hdata', hunbound, hbound⟩ := StoredNode.data_of_view hview hdata
  refine ⟨n', (List.mem_filter.mp hn').1, data', ?_, hdata', hunbound, hbound⟩
  rw [← StoredNode.unbound_id n', ← StoredNode.unbound_id n, (Prod.mk.inj hview).1]

theorem sharers_of_views (parseUrl : String → Option ParsedUrl)
    (h : (wf'.nodes.filter (·.data?.isSome)).map (StoredNode.view known) =
      (wf.nodes.filter (·.data?.isSome)).map (StoredNode.view known)) {svcId : String} (hknown : svcId ∈ known)
    {x : String × HttpNodeData} (hx : x ∈ wf.sharers svcId) :
    ∃ x' ∈ wf'.sharers svcId, originKey parseUrl x'.2 = originKey parseUrl x.2 := by
  obtain ⟨id, data⟩ := x
  obtain ⟨hx, hgiven⟩ := List.mem_filter.mp hx
  obtain ⟨n, hn, hdata, -⟩ := mem_httpNodes.mp hx
  obtain ⟨n', hn', data', -, hdata', hunbound, hbound⟩ := node_of_views h hn hdata
  refine ⟨(n'.id, data'), List.mem_filter.mpr ⟨mem_httpNodes.mpr ⟨n', hn', hdata', rfl⟩, ?_⟩, ?_⟩
  · exact decide_eq_true ((hbound svcId hknown).mpr (of_decide_eq_true hgiven))
  · show originKey parseUrl data'.unbound = originKey parseUrl data.unbound
    rw [hunbound]

/-- A service of the stored workflow is split when it would have been before the steps. -/
theorem Carries.splits_iff (h : Carries known wf wf') {svcId : String} (hknown : svcId ∈ known)
    (hfind : wf.registry.find? (·.id = svcId) = some svc) :
    (withEndpoints wf').Splits parseUrl svcId ↔ wf.Splits parseUrl svcId := by
  unfold StoredWorkflow.Splits
  rw [h.find? hfind, hfind, Option.bind_some, Option.bind_some, (convertLegacyEndpoint_id svc).2]
  refine and_congr_right fun _ => ?_
  constructor
  · rintro ⟨x, hx, y, hy, hne⟩
    obtain ⟨x', hx', hxkey⟩ := sharers_of_views parseUrl h.views.symm hknown hx
    obtain ⟨y', hy', hykey⟩ := sharers_of_views parseUrl h.views.symm hknown hy
    exact ⟨x', hx', y', hy', by rw [hxkey, hykey]; exact hne⟩
  · rintro ⟨x, hx, y, hy, hne⟩
    obtain ⟨x', hx', hxkey⟩ := sharers_of_views parseUrl h.views hknown hx
    obtain ⟨y', hy', hykey⟩ := sharers_of_views parseUrl h.views hknown hy
    exact ⟨x', hx', y', hy', by rw [hxkey, hykey]; exact hne⟩

theorem data_withService {n : StoredNode} {data : HttpNodeData} (h : n.data? = some data) (svcId : Option String) :
    (n.withService svcId).data? = some { data with serviceId := (given svcId).or data.serviceId } := by
  rw [StoredNode.eq_http h]
  rfl

/-- A service that is not split is found as before. -/
theorem find?_kept {svcId : String} (h : ¬ wf.Splits parseUrl svcId) :
    (wf.registry.filter (·.id ∉ servicesToRemove parseUrl wf)).find? (·.id = svcId) =
      wf.registry.find? (·.id = svcId) := by
  rw [List.find?_filter]
  refine congrArg (wf.registry.find? ·) (funext fun t => ?_)
  simp only [decide_eq_true_eq, decide_eq_decide]
  refine ⟨And.right, fun hid => ⟨fun hmem => ?_, hid⟩⟩
  exact h (hid ▸ mem_servicesToRemove.mp hmem)

/-- The service of a bound node after the regrouping. -/
theorem FixedUp.boundService {news : List WorkflowService} {serviceOf : String → Option String}
    (h : FixedUp parseUrl wf wf' news serviceOf) (hids : (wf.nodes.map StoredNode.id).Nodup) {n : StoredNode}
    (hn : n ∈ wf.nodes) {data : HttpNodeData} (hdata : n.data? = some data)
    (hgiven : given data.serviceId = some svc.id) (hfind : wf.registry.find? (·.id = svc.id) = some svc) :
    ∃ data', (n.withService (serviceOf n.id)).data? = some data' ∧ data'.unbound = data.unbound ∧
      ∃ svc', boundService data' wf'.registry = some svc' ∧
        (wf.Splits parseUrl svc.id → ∃ name first id, svc' = (regroupDraft parseUrl name first).service id ∧
          regroupKey parseUrl data = regroupKey parseUrl first) ∧
        (¬ wf.Splits parseUrl svc.id → svc' = svc) := by
  have hmem := mem_httpNodes.mpr ⟨n, hn, hdata, rfl⟩
  refine ⟨_, data_withService hdata _, rfl, ?_⟩
  by_cases hsplits : wf.Splits parseUrl svc.id
  · obtain ⟨svcId, hsvcId⟩ := Option.isSome_iff_exists.mp (h.total hmem (Or.inr ⟨svc.id, hgiven, hsplits⟩))
    obtain ⟨s, hs, rfl⟩ := List.mem_map.mp (h.assigned hsvcId)
    obtain ⟨name, first, hmade, hkey⟩ := h.made s hs
    obtain ⟨data', hdata', -, hkey⟩ := hkey n.id hsvcId
    obtain rfl : data' = data :=
      Option.some.inj ((nodeData_of_mem hids hdata').symm.trans (nodeData_of_mem hids hmem))
    refine ⟨s, boundService_eq_some.mpr ⟨?_, ?_⟩, fun _ => ⟨name, first, s.id, hmade, hkey⟩,
      fun hnot => absurd hsplits hnot⟩
    · show given ((given (serviceOf n.id)).or data'.serviceId) = some s.id
      rw [given_or_given, hsvcId, given_eq_some.mpr ⟨rfl, (h.fresh s hs).2⟩]
      rfl
    · have hold : (wf.registry.filter (·.id ∉ servicesToRemove parseUrl wf)).find? (·.id = s.id) = none := by
        refine List.find?_eq_none.mpr fun t ht => ?_
        rw [decide_eq_true_eq]
        intro hid
        exact (h.fresh s hs).1 (mem_ids_of_registry (hid ▸ List.mem_map_of_mem (List.mem_filter.mp ht).1))
      rw [h.registry, List.find?_append, hold, Option.none_or]
      exact find?_of_mem h.nodup hs
  · have hnone : serviceOf n.id = none := by
      rw [← Option.not_isSome_iff_eq_none]
      intro hsome
      obtain ⟨svcId, hsvcId⟩ := Option.isSome_iff_exists.mp hsome
      obtain ⟨s, hs, rfl⟩ := List.mem_map.mp (h.assigned hsvcId)
      obtain ⟨_, _, _, honly⟩ := h.made s hs
      obtain ⟨data', hdata', hregroups, -⟩ := honly n.id hsvcId
      obtain rfl : data' = data :=
        Option.some.inj ((nodeData_of_mem hids hdata').symm.trans (nodeData_of_mem hids hmem))
      rcases hregroups with hunbound | ⟨svcId', hgiven', hsplits'⟩
      · rw [hunbound] at hgiven
        cases hgiven
      · rw [hgiven'] at hgiven
        exact hsplits (Option.some.inj hgiven ▸ hsplits')
    refine ⟨svc, boundService_eq_some.mpr ⟨?_, ?_⟩, fun hsplits' => absurd hsplits' hsplits, fun _ => rfl⟩
    · rw [hnone]
      exact hgiven
    · rw [h.registry, List.find?_append, find?_kept hsplits, hfind]
      rfl

/-! ## A whole migration -/

/-- An HTTP node that is bound to a service and resolves to a URL. -/
structure HasUrl (microservices : List Microservice) (selectedEnvId : Option String) (wf : StoredWorkflow)
    (n : StoredNode) (data : HttpNodeData) (svc : WorkflowService) (url : String) : Prop where
  mem : n ∈ wf.nodes
  http : n.data? = some data
  service : boundService data wf.registry = some svc
  resolves : resolveHttpNodeBaseUrl data microservices wf.hosts wf.registry selectedEnvId = some url

/-- The node with this id resolves to the URL. -/
def Resolves (microservices : List Microservice) (selectedEnvId : Option String) (wf : StoredWorkflow) (id url : String) :
    Prop :=
  ∃ n ∈ wf.nodes, ∃ data, n.id = id ∧ n.data? = some data ∧
    resolveHttpNodeBaseUrl data microservices wf.hosts wf.registry selectedEnvId = some url

/-- A migration keeps the base URL of every node that is bound to a service. -/
def UrlsKept (parseUrl : String → Option ParsedUrl) (uuid : Uuid) (microservices : List Microservice)
    (selectedEnvId : Option String) (wf : StoredWorkflow) : Prop :=
  ∀ n data svc url, HasUrl microservices selectedEnvId wf n data svc url →
    Resolves microservices selectedEnvId (migrateWorkflowSchema parseUrl uuid wf) n.id url

/-- What keeps the URL of a node: where its service is split, the node's own URL has it as its
origin; else the service has endpoints, or older fields that give it, or none of either. -/
structure UrlIsKept (parseUrl : String → Option ParsedUrl) (selectedEnvId : Option String) (wf : StoredWorkflow)
    (data : HttpNodeData) (svc : WorkflowService) (url : String) : Prop where
  split : wf.Splits parseUrl svc.id → (extractUrlOrigin parseUrl data.url).map stripTrailingSlash = some url
  whole : ¬ wf.Splits parseUrl svc.id → svc.endpoints = [] → legacyUrls svc ≠ [] →
    (pickUrl (legacyUrls svc) ((given data.envOverride).or selectedEnvId)).map (fun e => stripTrailingSlash e.2) = some url

theorem resolve_bound {data : HttpNodeData} {hostProfiles : List WorkflowHostProfile} {services : List WorkflowService}
    (h : boundService data services = some svc) :
    resolveHttpNodeBaseUrl data microservices hostProfiles services selectedEnvId =
      resolveServiceBaseUrl svc microservices ((given data.envOverride).or selectedEnvId) := by
  unfold resolveHttpNodeBaseUrl
  rw [h]

theorem resolves_iff (hids : (wf.nodes.map StoredNode.id).Nodup) {n : StoredNode} {data : HttpNodeData} {url : String}
    (h : HasUrl microservices selectedEnvId wf n data svc url) :
    Resolves microservices selectedEnvId (migrateWorkflowSchema parseUrl uuid wf) n.id url ↔
      UrlIsKept parseUrl selectedEnvId wf data svc url := by
  obtain ⟨hgiven, hfind⟩ := boundService_eq_some.mp h.service
  have hknown : svc.id ∈ wf.registry.map WorkflowService.id := List.mem_map_of_mem (List.mem_of_find?_eq_some hfind)
  have hcarries : Carries _ wf (migrateVersions parseUrl uuid wf) := carries_migrateVersions hids
  have hsplits : (withEndpoints (migrateVersions parseUrl uuid wf)).Splits parseUrl svc.id ↔
      wf.Splits parseUrl svc.id := hcarries.splits_iff hknown hfind
  obtain ⟨m, hm, data₅, hid, hdata₅, hunbound₅, hbound⟩ := node_of_views hcarries.views h.mem h.http
  obtain ⟨news, serviceOf, hfixed⟩ : ∃ news serviceOf, FixedUp parseUrl
      (withEndpoints (migrateVersions parseUrl uuid wf)) (migrateWorkflowSchema parseUrl uuid wf) news serviceOf :=
    fixedUp hcarries.ids
  have hsvcId := (convertLegacyEndpoint_id svc).1
  have hgiven₅ : given data₅.serviceId = some (convertLegacyEndpoint svc).id := by
    rw [hsvcId]
    exact (hbound _ hknown).mpr hgiven
  have hfind₅ : (withEndpoints (migrateVersions parseUrl uuid wf)).registry.find?
      (·.id = (convertLegacyEndpoint svc).id) = some (convertLegacyEndpoint svc) := by
    rw [hsvcId]
    exact hcarries.find? hfind
  obtain ⟨data', hdata', hunbound', svc', hsvc', hsplit, hwhole⟩ :=
    hfixed.boundService hcarries.ids hm hdata₅ hgiven₅ hfind₅
  rw [hsvcId, hsplits] at hsplit hwhole
  -- the URL of the node's own service is read in the node's environment, before and after
  have hdata : data'.unbound = data.unbound := hunbound'.trans hunbound₅
  have henv : data'.unbound.envOverride = data.unbound.envOverride := congrArg HttpNodeData.envOverride hdata
  have hold : resolveServiceBaseUrl svc microservices ((given data.envOverride).or selectedEnvId) = some url := by
    rw [← resolve_bound h.service]
    exact h.resolves
  have hresolves : Resolves microservices selectedEnvId (migrateWorkflowSchema parseUrl uuid wf) n.id url ↔
      resolveServiceBaseUrl svc' microservices ((given data.envOverride).or selectedEnvId) = some url := by
    rw [show data.envOverride = data'.envOverride from henv.symm, ← resolve_bound hsvc']
    constructor
    · rintro ⟨n', hn', data'', hid', hdata'', hresolve⟩
      rw [hfixed.nodes] at hn'
      obtain ⟨m', hm', rfl⟩ := List.mem_map.mp hn'
      have hsame : m' = m := by
        refine List.inj_on_of_nodup_map hcarries.ids hm' hm ?_
        rw [hid, ← hid', ← StoredNode.unbound_id m', ← StoredNode.unbound_id (m'.withService _), StoredNode.unbound_withService]
      subst hsame
      obtain rfl : data' = data'' := Option.some.inj (hdata'.symm.trans hdata'')
      exact hresolve
    · intro hresolve
      refine ⟨m.withService (serviceOf m.id), ?_, data', ?_, hdata', hresolve⟩
      · rw [hfixed.nodes]
        exact List.mem_map_of_mem hm
      · rw [← StoredNode.unbound_id, StoredNode.unbound_withService, StoredNode.unbound_id, hid]
  rw [hresolves]
  by_cases hcase : wf.Splits parseUrl svc.id
  · obtain ⟨name, first, id, rfl, hkey⟩ := hsplit hcase
    have hurl : data₅.unbound.url = data.unbound.url := congrArg HttpNodeData.url hunbound₅
    rw [resolve_regrouped hkey, show data₅.url = data.url from hurl]
    exact ⟨fun horigin => ⟨fun _ => horigin, fun hnot => absurd hcase hnot⟩, fun hkept => hkept.split hcase⟩
  · rw [hwhole hcase, resolve_converted]
    split
    next hold' =>
      refine iff_of_true hold ⟨fun hsplit' => absurd hsplit' hcase, fun _ hendpoints hlegacy => ?_⟩
      exact absurd hold' (not_or.mpr ⟨not_not.mpr hendpoints, hlegacy⟩)
    next hnew =>
      obtain ⟨hendpoints, hlegacy⟩ := not_or.mp hnew
      exact ⟨fun hpick => ⟨fun hsplit' => absurd hsplit' hcase, fun _ _ _ => hpick⟩,
        fun hkept => hkept.whole hcase (not_not.mp hendpoints) hlegacy⟩

theorem urls_kept (hids : (wf.nodes.map StoredNode.id).Nodup) :
    UrlsKept parseUrl uuid microservices selectedEnvId wf ↔
      ∀ n data svc url, HasUrl microservices selectedEnvId wf n data svc url →
        UrlIsKept parseUrl selectedEnvId wf data svc url := by
  constructor
  · intro h n data svc url hurl
    exact (resolves_iff hids hurl).mp (h n data svc url hurl)
  · intro h n data svc url hurl
    exact (resolves_iff hids hurl).mpr (h n data svc url hurl)

end

/-! ## Two relative nodes that share a service -/

/-- Longer than everything in use. -/
def longestUuid : Uuid where
  next used := String.ofList (List.replicate ((used.map String.length).sum + 1) '0')
  fresh := by
    intro head used hmem
    have hle : ((used.map String.length).sum + 1) ≤ (used.map String.length).sum := by
      refine Nat.le_trans ?_ (List.le_sum_of_mem (List.mem_map_of_mem hmem))
      rw [String.length_append, String.length_ofList, List.length_replicate]
      exact Nat.le_add_left _ _
    exact absurd hle (Nat.not_succ_le_self _)

def shopNode (id label url : String) : StoredNode where
  id := id
  position := (0, 0)
  body := .http
    { label := label, url := url, auth := none, serviceId := some "svc-1", hostProfileId := none,
      authProfileId := none, hostEnvironmentId := none, hostMicroserviceId := none, hostBaseUrl := none,
      envOverride := none }

def shopService : WorkflowService where
  id := "svc-1"
  name := "Shop"
  endpoints := []
  defaultAuth := none
  microserviceId := none
  urlMode := some .direct
  directUrl := some "http://shop"
  baseUrls := none
  adhocUrl := none
  auth := none
  authPerEnv := none

def shopWorkflow (nodes : List StoredNode) : StoredWorkflow where
  schemaVersion := some 6
  nodes := nodes
  edges := []
  hostProfiles := none
  authProfiles := none
  services := some [shopService]

/-- The URL of one relative node is kept. -/
theorem url_kept_alone : UrlsKept (fun _ => none) longestUuid [] none
    (shopWorkflow [shopNode "a" "Orders" "/orders"]) := by
  refine (urls_kept (by decide)).mpr ?_
  intro n data svc url hurl
  obtain ⟨hgiven, hfind⟩ := boundService_eq_some.mp hurl.service
  obtain rfl : n = shopNode "a" "Orders" "/orders" := List.mem_singleton.mp hurl.mem
  obtain rfl := Option.some.inj hurl.http
  obtain rfl : svc = shopService := List.mem_singleton.mp (List.mem_of_find?_eq_some hfind)
  have hresolves := hurl.resolves
  refine ⟨fun hsplits => ?_, fun _ _ _ => ?_⟩
  · -- one node agrees with itself
    obtain ⟨-, x, hx, y, hy, hne⟩ := hsplits
    have hshared : (shopWorkflow [shopNode "a" "Orders" "/orders"]).sharers "svc-1" = [("a", _)] := rfl
    rw [show shopService.id = "svc-1" from rfl, hshared, List.mem_singleton] at hx hy
    exact absurd (by rw [hx, hy]) hne
  · rw [← hresolves]
    decide

/-- Two relative nodes lose it. -/
theorem urls_lost : ¬ UrlsKept (fun _ => none) longestUuid [] none
    (shopWorkflow [shopNode "a" "Orders" "/orders", shopNode "b" "Users" "/users"]) := by
  intro h
  have hurl : HasUrl [] none (shopWorkflow [shopNode "a" "Orders" "/orders", shopNode "b" "Users" "/users"])
      (shopNode "a" "Orders" "/orders") _ shopService "http://shop" :=
    ⟨List.mem_cons_self, rfl, by decide, by decide⟩
  have hsplits : (shopWorkflow [shopNode "a" "Orders" "/orders", shopNode "b" "Users" "/users"]).Splits
      (fun _ => none) "svc-1" := ⟨by decide, _, List.mem_cons_self, _, List.mem_cons_of_mem _ List.mem_cons_self, by decide⟩
  have horigin := ((resolves_iff (by decide) hurl).mp (h _ _ _ _ hurl)).split hsplits
  cases horigin

end RedFireForge.Workflow
