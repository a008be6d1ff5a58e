/-
# `RedFireForge.Workflow.MigrationGraph` — migrated workflows are well formed and stable

Each step keeps a workflow sound: ids are distinct, edges and bindings refer to what is
there.  The nodes and edges that are not about Start nodes are kept, and a second migration
finds nothing to do.  What is reached from a root stays so unless a Start node is removed:
then its trigger is left, which need not be a root when an edge leads back to it.
-/
import Mathlib.Logic.Relation
import RedFireForge.Workflow.MigrationUrls

namespace RedFireForge.Workflow

open RedFireForge.Lib

/-! ## Sound workflows -/

namespace StoredWorkflow

structure Sound (wf : StoredWorkflow) : Prop where
  version : wf.version ≤ 6
  ids : (wf.nodes.map StoredNode.id).Nodup
  edges : ∀ e ∈ wf.edges, e.source ∈ wf.nodes.map StoredNode.id ∧ e.target ∈ wf.nodes.map StoredNode.id
  services : ∀ n ∈ wf.nodes, ∀ svcId, n.boundTo = some svcId → svcId ∈ wf.registry.map WorkflowService.id

/-- An edge between nodes that are no Start nodes. -/
def Inner (wf : StoredWorkflow) (e : StoredEdge) : Prop :=
  ∃ a ∈ wf.nodes, ∃ b ∈ wf.nodes, a.isStart = false ∧ b.isStart = false ∧ a.id = e.source ∧ b.id = e.target

end StoredWorkflow

/-- A step leaves a sound workflow, and what is not about Start nodes. -/
structure Retains (wf wf' : StoredWorkflow) : Prop where
  sound : wf'.Sound
  nodes : ∀ n ∈ wf.nodes, n.isStart = false → ∃ n' ∈ wf'.nodes, n'.unbound = n.unbound
  edges : ∀ e ∈ wf.edges, wf.Inner e → e ∈ wf'.edges

section
variable {uuid : Uuid} {wf wf' wf'' : StoredWorkflow} {parseUrl : String → Option ParsedUrl} {removed : List String}

theorem Retains.refl (h : wf.Sound) : Retains wf wf where
  sound := h
  nodes := fun n hn _ => ⟨n, hn, rfl⟩
  edges := fun _ he _ => he

theorem Retains.trans (h : Retains wf wf') (h' : Retains wf' wf'') : Retains wf wf'' := by
  have hnode : ∀ n ∈ wf.nodes, n.isStart = false →
      ∃ n' ∈ wf'.nodes, n'.unbound = n.unbound ∧ n'.isStart = false := by
    intro n hn hstart
    obtain ⟨n', hn', hunbound⟩ := h.nodes n hn hstart
    exact ⟨n', hn', hunbound, by rw [← StoredNode.unbound_isStart, hunbound, StoredNode.unbound_isStart, hstart]⟩
  refine ⟨h'.sound, ?_, ?_⟩
  · intro n hn hstart
    obtain ⟨n', hn', hunbound, hstart'⟩ := hnode n hn hstart
    obtain ⟨n'', hn'', hunbound'⟩ := h'.nodes n' hn' hstart'
    exact ⟨n'', hn'', hunbound'.trans hunbound⟩
  · intro e he hinner
    refine h'.edges e (h.edges e he hinner) ?_
    obtain ⟨a, ha, b, hb, hastart, hbstart, hsource, htarget⟩ := hinner
    obtain ⟨a', ha', hunboundA, hastart'⟩ := hnode a ha hastart
    obtain ⟨b', hb', hunboundB, hbstart'⟩ := hnode b hb hbstart
    refine ⟨a', ha', b', hb', hastart', hbstart', ?_, ?_⟩
    · rw [← StoredNode.unbound_id, hunboundA, StoredNode.unbound_id, hsource]
    · rw [← StoredNode.unbound_id, hunboundB, StoredNode.unbound_id, htarget]

theorem Retains.step (h : Retains wf wf') {c : Prop} [Decidable c] {step : StoredWorkflow → StoredWorkflow}
    (hstep : Retains wf' (step wf')) : Retains wf (if c then step wf' else wf') := by
  split
  next => exact h.trans hstep
  next => exact h

/-- A step that keeps the views. -/
theorem Keeps.retains (h : Keeps [] wf wf') (hsound : wf.Sound) (hversion : wf'.version ≤ 6)
    (hservices : ∀ n ∈ wf'.nodes, ∀ svcId, n.boundTo = some svcId → svcId ∈ wf'.registry.map WorkflowService.id) :
    Retains wf wf' := by
  have hids := ids_of_views h.views
  refine ⟨⟨hversion, ?_, ?_, hservices⟩, ?_, ?_⟩
  · rw [hids]
    exact hsound.ids
  · rw [hids, h.edges]
    exact hsound.edges
  · intro n hn _
    have hmem : n.view [] ∈ wf'.nodes.map (StoredNode.view []) := by
      rw [h.views]
      exact List.mem_map_of_mem hn
    obtain ⟨n', hn', hview⟩ := List.mem_map.mp hmem
    exact ⟨n', hn', (Prod.mk.inj hview).1⟩
  · intro e he _
    rw [h.edges]
    exact he

theorem boundTo_of_views {nodes nodes' : List StoredNode}
    (h : ∀ known, nodes'.map (StoredNode.view known) = nodes.map (StoredNode.view known)) {n' : StoredNode}
    (hn' : n' ∈ nodes') {svcId : String} (hbound : n'.boundTo = some svcId) :
    ∃ n ∈ nodes, n.boundTo = some svcId := by
  have hmem : n'.view [svcId] ∈ nodes.map (StoredNode.view [svcId]) := by
    rw [← h]
    exact List.mem_map_of_mem hn'
  obtain ⟨n, hn, hview⟩ := List.mem_map.mp hmem
  have hfilter : n.boundTo.filter (· ∈ [svcId]) = n'.boundTo.filter (· ∈ [svcId]) := (Prod.mk.inj hview).2
  rw [hbound, Option.filter_some, if_pos (decide_eq_true List.mem_cons_self), Option.filter_eq_some_iff] at hfilter
  exact ⟨n, hn, hfilter.1⟩

theorem retains_v1ToV2 (h : wf.Sound) : Retains wf (migrateV1ToV2 uuid wf) := by
  refine Keeps.retains keeps_v1ToV2 h ?_ ?_
  · unfold migrateV1ToV2
    dsimp only
    split
    next => exact h.version
    next => exact (by decide : (2 : ℤ) ≤ 6)
  · intro n hn svcId hbound
    have hviews : ∀ known, (migrateV1ToV2 uuid wf).nodes.map (StoredNode.view known) =
        wf.nodes.map (StoredNode.view known) := fun _ => keeps_v1ToV2.views
    obtain ⟨n', hn', hbound'⟩ := boundTo_of_views hviews hn hbound
    rw [registry_v1ToV2]
    exact h.services n' hn' svcId hbound'

theorem retains_profilesToServices (h : wf.Sound) : Retains wf (profilesToServices parseUrl uuid wf) := by
  refine Keeps.retains (keeps_profilesToServices (List.nil_subset _)) h (by decide : (3 : ℤ) ≤ 6) ?_
  obtain ⟨profiles, assigned, news, hservices, -, hprofiles, hassigned, hnodes⟩ :=
    profilesToServices_spec parseUrl uuid wf
  intro n hn svcId hbound
  rw [hnodes, List.map_map] at hn
  obtain ⟨m, hm, rfl⟩ := List.mem_map.mp hn
  rw [hservices, List.map_append, List.mem_append]
  have hgiven : ∀ {n' : StoredNode} {f : StoredNode → HttpNodeData → Option String},
      (n'.data?.bind fun data => given (f n' data)) = some svcId → ∃ data, f n' data = some svcId := by
    intro n' f hbind
    obtain ⟨data, -, hf⟩ := Option.bind_eq_some_iff.mp hbind
    exact ⟨data, (given_eq_some.mp hf).1⟩
  rw [Function.comp_apply, StoredNode.boundTo_assignMissing, StoredNode.boundTo_assignMissing,
    Option.or_eq_some_iff, Option.or_eq_some_iff] at hbound
  rcases hbound with (hold | ⟨-, hprofile⟩) | ⟨-, hgroup⟩
  · exact Or.inl (h.services m hm svcId hold)
  · obtain ⟨data, hdata⟩ := hgiven hprofile
    exact Or.inr (hprofiles _ _ _ hdata)
  · obtain ⟨data, hdata⟩ := hgiven hgroup
    exact Or.inr (hassigned _ _ _ hdata)

theorem retains_v2ToV3 (h : wf.Sound) : Retains wf (migrateV2ToV3 parseUrl uuid wf) := by
  unfold migrateV2ToV3
  split
  next => exact Retains.refl h
  next =>
    split
    next => exact (retains_v1ToV2 h).trans (retains_profilesToServices (retains_v1ToV2 h).sound)
    next => exact retains_profilesToServices h

theorem Sound.of_version (h : wf.Sound) {version : ℤ} (hversion : version ≤ 6) :
    ({ wf with schemaVersion := some version } : StoredWorkflow).Sound where
  version := hversion
  ids := h.ids
  edges := h.edges
  services := h.services

/-- Only the version is set. -/
theorem Retains.of_version (h : wf.Sound) {version : ℤ} (hversion : version ≤ 6) :
    Retains wf { wf with schemaVersion := some version } where
  sound := Sound.of_version h hversion
  nodes := fun n hn _ => ⟨n, hn, rfl⟩
  edges := fun _ he _ => he

theorem retains_insertStart (h : wf.Sound) : Retains wf (insertStart uuid wf) := by
  refine ⟨⟨(by decide : (4 : ℤ) ≤ 6), ?_, ?_, ?_⟩, ?_, ?_⟩
  · rw [ids_insertStart, List.nodup_cons]
    exact ⟨startId_not_mem uuid wf, h.ids⟩
  · intro e he
    rw [ids_insertStart]
    rcases List.mem_append.mp he with he | he
    · exact ⟨List.mem_cons_of_mem _ (h.edges e he).1, List.mem_cons_of_mem _ (h.edges e he).2⟩
    · obtain ⟨root, hroot, rfl⟩ := List.mem_map.mp he
      exact ⟨List.mem_cons_self, List.mem_cons_of_mem _ (List.mem_map_of_mem (List.mem_filter.mp hroot).1)⟩
  · intro n hn svcId hbound
    rcases List.mem_cons.mp hn with rfl | hn
    · cases hbound
    · obtain ⟨m, hm, rfl⟩ := List.mem_map.mp hn
      exact h.services m hm svcId hbound
  · intro n hn _
    refine ⟨_, List.mem_cons_of_mem _ (List.mem_map_of_mem hn), ?_⟩
    have hview : StoredNode.view [] _ = n.view [] := StoredNode.view_position n (n.position.1, n.position.2 + 100)
    exact (Prod.mk.inj hview).1
  · intro e he _
    exact List.mem_append_left _ he

theorem retains_v3ToV4 (h : wf.Sound) : Retains wf (migrateV3ToV4 uuid wf) := by
  unfold migrateV3ToV4
  split
  next => exact Retains.refl h
  next =>
    split
    next => exact Retains.of_version h (by decide)
    next => exact retains_insertStart h

theorem retains_v4ToV5 (h : wf.Sound) : Retains wf (migrateV4ToV5 wf) := by
  unfold migrateV4ToV5
  split
  next => exact Retains.refl h
  next => exact Retains.of_version h (by decide)

theorem Strips.retains (h : Strips wf wf' removed) (hsound : wf.Sound) (hversion : wf'.version ≤ 6) :
    Retains wf wf' := by
  refine ⟨⟨hversion, ?_, ?_, ?_⟩, ?_, ?_⟩
  · rw [h.nodes]
    exact (List.filter_sublist.map StoredNode.id).nodup hsound.ids
  · intro e he
    obtain ⟨he, hsource, htarget⟩ := h.mem_edges.mp he
    exact ⟨h.mem_ids.mpr ⟨(hsound.edges e he).1, hsource⟩, h.mem_ids.mpr ⟨(hsound.edges e he).2, htarget⟩⟩
  · intro n hn svcId hbound
    rw [h.nodes] at hn
    rw [h.registry]
    exact hsound.services n (List.mem_filter.mp hn).1 svcId hbound
  · intro n hn hstart
    refine ⟨n, ?_, rfl⟩
    rw [h.nodes]
    exact List.mem_filter.mpr ⟨hn, decide_eq_true (h.not_mem hsound.ids hn hstart)⟩
  · rintro e he ⟨a, ha, b, hb, hastart, hbstart, hsource, htarget⟩
    refine h.mem_edges.mpr ⟨he, ?_, ?_⟩
    · exact hsource ▸ h.not_mem hsound.ids ha hastart
    · exact htarget ▸ h.not_mem hsound.ids hb hbstart

theorem retains_v5ToV6 (h : wf.Sound) : Retains wf (migrateV5ToV6 wf) := by
  obtain ⟨removed, hstrips⟩ := strips_v5ToV6 wf
  refine hstrips.retains h ?_
  unfold migrateV5ToV6
  split
  next => exact h.version
  next =>
    split
    next => exact (le_refl 6 : (6 : ℤ) ≤ 6)
    next => exact (le_refl 6 : (6 : ℤ) ≤ 6)

theorem retains_migrateVersions (h : wf.Sound) : Retains wf (migrateVersions parseUrl uuid wf) := by
  unfold migrateVersions
  extract_lets wf₁ wf₂ wf₃ wf₄
  have h₁ : Retains wf wf₁ := (Retains.refl h).step (retains_v1ToV2 h)
  have h₂ : Retains wf wf₂ := h₁.step (retains_v2ToV3 h₁.sound)
  have h₃ : Retains wf wf₃ := h₂.step (retains_v3ToV4 h₂.sound)
  have h₄ : Retains wf wf₄ := h₃.step (retains_v4ToV5 h₃.sound)
  exact h₄.step (retains_v5ToV6 h₄.sound)

/-! ## The regrouping -/

theorem registry_withEndpoints :
    (withEndpoints wf).registry.map WorkflowService.id = wf.registry.map WorkflowService.id := by
  show (convertLegacyEndpoints wf.registry).map WorkflowService.id = _
  unfold convertLegacyEndpoints
  rw [List.map_map]
  exact List.map_congr_left fun s _ => (convertLegacyEndpoint_id s).1

theorem retains_withEndpoints (h : wf.Sound) : Retains wf (withEndpoints wf) where
  sound :=
    { version := h.version
      ids := h.ids
      edges := h.edges
      services := by
        rw [registry_withEndpoints]
        exact h.services }
  nodes := fun n hn _ => ⟨n, hn, rfl⟩
  edges := fun _ he _ => he

variable {news : List WorkflowService} {serviceOf : String → Option String}

theorem FixedUp.ids (h : FixedUp parseUrl wf wf' news serviceOf) :
    wf'.nodes.map StoredNode.id = wf.nodes.map StoredNode.id := by
  rw [h.nodes, List.map_map]
  refine List.map_congr_left fun n _ => ?_
  rw [Function.comp_apply, ← StoredNode.unbound_id, StoredNode.unbound_withService, StoredNode.unbound_id]

theorem FixedUp.edges (h : FixedUp parseUrl wf wf' news serviceOf) : wf'.edges = wf.edges :=
  (congrArg StoredWorkflow.edges h.rest :)

theorem FixedUp.schemaVersion (h : FixedUp parseUrl wf wf' news serviceOf) : wf'.schemaVersion = wf.schemaVersion :=
  (congrArg StoredWorkflow.schemaVersion h.rest :)

/-- The service that a node has after the regrouping: a new one, or its own, which then is not
split. -/
theorem FixedUp.bound (h : FixedUp parseUrl wf wf' news serviceOf) {id : String} {data : HttpNodeData}
    (hmem : (id, data) ∈ wf'.httpNodes) :
    (∃ s ∈ news, serviceOf id = some s.id ∧ given data.serviceId = some s.id ∧
        ∃ old, (id, old) ∈ wf.httpNodes ∧ old.unbound = data.unbound) ∨
      ∃ svcId, serviceOf id = none ∧ (id, data) ∈ wf.httpNodes ∧ given data.serviceId = some svcId ∧
        ¬ wf.Splits parseUrl svcId := by
  obtain ⟨n', hn', hdata', rfl⟩ := mem_httpNodes.mp hmem
  rw [h.nodes] at hn'
  obtain ⟨n, hn, rfl⟩ := List.mem_map.mp hn'
  have hid : (n.withService (serviceOf n.id)).id = n.id := by
    rw [← StoredNode.unbound_id, StoredNode.unbound_withService, StoredNode.unbound_id]
  rw [hid]
  cases hold : n.data? with
  | none =>
      rw [StoredNode.withService, StoredNode.mapData_of_none hold, hold] at hdata'
      cases hdata'
  | some old =>
      obtain rfl : { old with serviceId := (given (serviceOf n.id)).or old.serviceId } = data :=
        Option.some.inj ((data_withService hold _).symm.trans hdata')
      have hn := mem_httpNodes.mpr ⟨n, hn, hold, rfl⟩
      cases hservice : serviceOf n.id with
      | some svcId =>
          obtain ⟨s, hs, rfl⟩ := List.mem_map.mp (h.assigned hservice)
          refine Or.inl ⟨s, hs, rfl, ?_, old, hn, rfl⟩
          rw [given_or_given, given_eq_some.mpr ⟨rfl, (h.fresh s hs).2⟩]
          rfl
      | none =>
          have hkept : ¬ wf.Regroups parseUrl old := by
            intro hregroups
            have hsome := h.total hn hregroups
            rw [hservice] at hsome
            cases hsome
          obtain ⟨hgiven, hsplits⟩ := not_or.mp hkept
          obtain ⟨svcId, hsvcId⟩ := Option.ne_none_iff_exists'.mp hgiven
          exact Or.inr ⟨svcId, rfl, hn, hsvcId, fun hsplits' => hsplits ⟨svcId, hsvcId, hsplits'⟩⟩

/-- Every HTTP node has a service then. -/
theorem FixedUp.services_exist (h : FixedUp parseUrl wf wf' news serviceOf) (hsound : wf.Sound) {id : String}
    {data : HttpNodeData} (hmem : (id, data) ∈ wf'.httpNodes) :
    ∃ svcId, given data.serviceId = some svcId ∧ svcId ∈ wf'.registry.map WorkflowService.id := by
  rw [h.registry, List.map_append]
  rcases h.bound hmem with ⟨s, hs, -, hgiven, -⟩ | ⟨svcId, -, hold, hgiven, hsplits⟩
  · exact ⟨s.id, hgiven, List.mem_append_right _ (List.mem_map_of_mem hs)⟩
  · refine ⟨svcId, hgiven, List.mem_append_left _ ?_⟩
    obtain ⟨n, hn, hdata, rfl⟩ := mem_httpNodes.mp hold
    have hbound : n.boundTo = some svcId := by
      rw [StoredNode.boundTo, hdata]
      exact hgiven
    obtain ⟨s, hs, rfl⟩ := List.mem_map.mp (hsound.services n hn svcId hbound)
    exact List.mem_map_of_mem (List.mem_filter.mpr ⟨hs, decide_eq_true fun hmem => hsplits (mem_servicesToRemove.mp hmem)⟩)

theorem FixedUp.retains (h : FixedUp parseUrl wf wf' news serviceOf) (hsound : wf.Sound) : Retains wf wf' := by
  refine ⟨⟨?_, ?_, ?_, ?_⟩, ?_, ?_⟩
  · rw [StoredWorkflow.version, h.schemaVersion]
    exact hsound.version
  · rw [h.ids]
    exact hsound.ids
  · rw [h.ids, h.edges]
    exact hsound.edges
  · intro n hn svcId hbound
    obtain ⟨data, hdata, hgiven⟩ := Option.bind_eq_some_iff.mp hbound
    obtain ⟨svcId', hgiven', hmem⟩ := h.services_exist hsound (mem_httpNodes.mpr ⟨n, hn, hdata, rfl⟩)
    rw [hgiven] at hgiven'
    exact Option.some.inj hgiven' ▸ hmem
  · intro n hn _
    refine ⟨n.withService (serviceOf n.id), ?_, StoredNode.unbound_withService⟩
    rw [h.nodes]
    exact List.mem_map_of_mem hn
  · intro e he _
    rw [h.edges]
    exact he

/-! ## A second migration -/

theorem originKey_of_regroupKey {data data' : HttpNodeData}
    (h : regroupKey parseUrl data = regroupKey parseUrl data') : originKey parseUrl data = originKey parseUrl data' := by
  have horigin := origin_eq_of_regroupKey h
  unfold regroupKey at h
  unfold originKey
  rw [horigin] at h ⊢
  cases hfirst : extractUrlOrigin parseUrl data'.url with
  | some origin => rw [Option.getD_some, Option.getD_some]
  | none =>
      rw [hfirst] at h
      dsimp only at h
      rw [Option.getD_none, Option.getD_none, h]

/-- After the regrouping nothing is left to regroup: the nodes of a new service agree, and a
service that stayed was not to be split. -/
theorem FixedUp.no_regroup (h : FixedUp parseUrl wf wf' news serviceOf) (hids : (wf.nodes.map StoredNode.id).Nodup)
    {id : String} {data : HttpNodeData} (hmem : (id, data) ∈ wf'.httpNodes) : ¬ wf'.Regroups parseUrl data := by
  rintro (hnone | ⟨svcId, -, hmicroservice, x, hx, y, hy, hne⟩)
  · rcases h.bound hmem with ⟨s, -, -, hgiven, -⟩ | ⟨svcId, -, -, hgiven, -⟩
    · rw [hnone] at hgiven
      cases hgiven
    · rw [hnone] at hgiven
      cases hgiven
  by_cases hnew : svcId ∈ news.map WorkflowService.id
  · -- all have the key of the group's first node
    obtain ⟨s, hs, rfl⟩ := List.mem_map.mp hnew
    obtain ⟨name, first, -, honly⟩ := h.made s hs
    have hkey : ∀ x ∈ wf'.sharers s.id, regroupKey parseUrl x.2 = regroupKey parseUrl first := by
      rintro ⟨id, data⟩ hx
      obtain ⟨hx, hgiven⟩ := List.mem_filter.mp hx
      rcases h.bound hx with ⟨t, -, hservice, hgiven', old, hold, hunbound⟩ | ⟨svcId', -, hold, hgiven', -⟩
      · rw [← hgiven', of_decide_eq_true hgiven] at hservice
        obtain ⟨old', hold', -, hkey⟩ := honly id hservice
        obtain rfl : old' = old :=
          Option.some.inj ((nodeData_of_mem hids hold').symm.trans (nodeData_of_mem hids hold))
        rw [← hkey]
        show regroupKey parseUrl data.unbound = regroupKey parseUrl old'.unbound
        rw [hunbound]
      · -- its id was in use
        refine absurd (List.mem_append_right _ (List.mem_filterMap.mpr ⟨(id, data), hold, ?_⟩)) (h.fresh s hs).1
        exact (given_eq_some.mp (of_decide_eq_true hgiven)).1
    exact hne (originKey_of_regroupKey ((hkey x hx).trans (hkey y hy).symm))
  · have hold : ∀ x ∈ wf'.sharers svcId, x ∈ wf.sharers svcId ∧ ¬ wf.Splits parseUrl svcId := by
      rintro ⟨id, data⟩ hx
      obtain ⟨hx, hgiven⟩ := List.mem_filter.mp hx
      rcases h.bound hx with ⟨s, hs, -, hgiven', -⟩ | ⟨svcId', -, hold, hgiven', hsplits⟩
      · rw [of_decide_eq_true hgiven] at hgiven'
        exact absurd (Option.some.inj hgiven' ▸ List.mem_map_of_mem hs) hnew
      · rw [of_decide_eq_true hgiven] at hgiven'
        exact ⟨List.mem_filter.mpr ⟨hold, hgiven⟩, Option.some.inj hgiven' ▸ hsplits⟩
    have hnone : news.find? (·.id = svcId) = none := by
      refine List.find?_eq_none.mpr fun s hs => ?_
      rw [decide_eq_true_eq]
      exact fun hid => hnew (hid ▸ List.mem_map_of_mem hs)
    obtain ⟨hx, hsplits⟩ := hold x hx
    rw [h.registry, List.find?_append, hnone, Option.or_none, find?_kept hsplits] at hmicroservice
    exact hsplits ⟨hmicroservice, x, hx, y, (hold y hy).1, hne⟩

theorem convertLegacyEndpoint_twice (svc : WorkflowService) :
    convertLegacyEndpoint (convertLegacyEndpoint svc) = convertLegacyEndpoint svc := by
  by_cases hendpoints : svc.endpoints = []
  · have hfirst : convertLegacyEndpoint svc = { svc with
        endpoints := (legacyUrls svc).map (legacyEndpoint svc)
        defaultAuth := svc.defaultAuth.or svc.auth } := by
      rw [convertLegacyEndpoint, if_neg (not_not.mpr hendpoints)]
    rw [hfirst]
    unfold convertLegacyEndpoint
    split
    next => rfl
    next hnone =>
      have hlegacy : legacyUrls svc = [] := List.map_eq_nil_iff.mp (not_not.mp hnone)
      have hsame : legacyUrls { svc with
          endpoints := (legacyUrls svc).map (legacyEndpoint svc)
          defaultAuth := svc.defaultAuth.or svc.auth } = legacyUrls svc := by
        unfold legacyUrls
        rfl
      rw [hsame, hlegacy, List.map_nil, List.map_nil, Option.or_assoc, Option.or_self]
  · have hfirst : convertLegacyEndpoint svc = svc := by rw [convertLegacyEndpoint, if_pos hendpoints]
    rw [hfirst, hfirst]

theorem convertLegacyEndpoint_regrouped {name id : String} {first : HttpNodeData} :
    convertLegacyEndpoint ((regroupDraft parseUrl name first).service id) =
      (regroupDraft parseUrl name first).service id := by
  unfold convertLegacyEndpoint
  split
  next => rfl
  next hnone =>
    have horigin : extractUrlOrigin parseUrl first.url = none := by
      cases hfirst : extractUrlOrigin parseUrl first.url with
      | none => rfl
      | some origin =>
          rw [regroupDraft, ServiceDraft.service, hfirst] at hnone
          exact absurd (by rintro ⟨⟩) hnone
    unfold regroupDraft ServiceDraft.service
    rw [horigin]
    show WorkflowService.mk _ _ _ _ _ _ _ _ _ _ _ = _
    rw [Option.or_self]
    rfl

theorem FixedUp.converted {wf₀ : StoredWorkflow}
    (h : FixedUp parseUrl (withEndpoints wf₀) wf' news serviceOf) : convertLegacyEndpoints wf'.registry = wf'.registry := by
  unfold convertLegacyEndpoints
  conv_rhs => rw [← List.map_id wf'.registry]
  refine List.map_congr_left fun s hs => ?_
  rw [h.registry] at hs
  rcases List.mem_append.mp hs with hs | hs
  · obtain ⟨svc, -, rfl⟩ := List.mem_map.mp (List.mem_filter.mp hs).1
    exact convertLegacyEndpoint_twice svc
  · obtain ⟨name, first, hmade, -⟩ := h.made s hs
    rw [hmade]
    exact convertLegacyEndpoint_regrouped

theorem migrateVersions_of_current (h : 6 ≤ wf.version) : migrateVersions parseUrl uuid wf = wf := by
  have h₂ : ¬ wf.version < 2 := by omega
  have h₃ : ¬ wf.version < 3 := by omega
  have h₄ : ¬ wf.version < 4 := by omega
  have h₅ : ¬ wf.version < 5 := by omega
  unfold migrateVersions
  simp only [if_neg h₂, if_neg h₃, if_neg h₄, if_neg h₅, if_neg (not_lt.mpr h)]

theorem version_migrateVersions : 6 ≤ (migrateVersions parseUrl uuid wf).version := by
  unfold migrateVersions
  extract_lets wf₁ wf₂ wf₃ wf₄
  split
  next hlow =>
    unfold migrateV5ToV6
    rw [if_neg (not_le.mpr hlow)]
    split
    next => exact (le_refl 6 : (6 : ℤ) ≤ 6)
    next => exact (le_refl 6 : (6 : ℤ) ≤ 6)
  next hcurrent => exact not_lt.mp hcurrent

theorem schemaVersion_of_version (h : wf.version = 6) : wf.schemaVersion = some 6 := by
  unfold StoredWorkflow.version at h
  cases hversion : wf.schemaVersion with
  | none =>
      rw [hversion] at h
      cases h
  | some version =>
      rw [hversion] at h
      exact congrArg some h

theorem withEndpoints_of_converted (hhosts : wf.hostProfiles.isSome) (hauths : wf.authProfiles.isSome)
    (hservices : wf.services.isSome) (h : convertLegacyEndpoints wf.registry = wf.registry) : withEndpoints wf = wf := by
  have hsome : ∀ {α : Type} {o : Option (List α)}, o.isSome → some (o.getD []) = o := by
    intro α o ho
    obtain ⟨xs, rfl⟩ := Option.isSome_iff_exists.mp ho
    rfl
  unfold withEndpoints
  rw [h, StoredWorkflow.hosts, StoredWorkflow.auths, StoredWorkflow.registry, hsome hhosts, hsome hauths, hsome hservices]

theorem fixup_of_no_regroup (h : ∀ id data, (id, data) ∈ wf.httpNodes → ¬ wf.Regroups parseUrl data) :
    fixupOverGroupedServices parseUrl uuid wf = wf := by
  unfold fixupOverGroupedServices
  rw [if_pos]
  refine List.eq_nil_iff_forall_not_mem.mpr fun id hid => ?_
  obtain ⟨data, hmem, hregroups⟩ := mem_nodesToRegroup.mp hid
  exact h id data hmem hregroups

/-- The workflow that a migration leaves is left as it is. -/
theorem FixedUp.current {uuid' : Uuid} {wf₀ : StoredWorkflow} (h : FixedUp parseUrl (withEndpoints wf₀) wf' news serviceOf)
    (hids : (wf₀.nodes.map StoredNode.id).Nodup) (hversion : 6 ≤ wf₀.version) :
    migrateWorkflowSchema parseUrl uuid' wf' = wf' := by
  have hhosts : wf'.hostProfiles = some wf₀.hosts := (congrArg StoredWorkflow.hostProfiles h.rest :)
  have hauths : wf'.authProfiles = some wf₀.auths := (congrArg StoredWorkflow.authProfiles h.rest :)
  have hversion' : 6 ≤ wf'.version := by
    rw [StoredWorkflow.version, h.schemaVersion]
    exact hversion
  unfold migrateWorkflowSchema
  rw [migrateVersions_of_current hversion', withEndpoints_of_converted (Option.isSome_of_eq_some hhosts)
    (Option.isSome_of_eq_some hauths) (h.services rfl) h.converted]
  exact fixup_of_no_regroup fun id data hmem => h.no_regroup hids hmem

/-! ## What is reached from a root -/

def Leads (wf : StoredWorkflow) (a b : String) : Prop := ∃ e ∈ wf.edges, e.source = a ∧ e.target = b

def IsRoot (wf : StoredWorkflow) (id : String) : Prop :=
  id ∈ wf.nodes.map StoredNode.id ∧ ∀ e ∈ wf.edges, e.target ≠ id

def Reached (wf : StoredWorkflow) (id : String) : Prop :=
  ∃ root, IsRoot wf root ∧ Relation.ReflTransGen (Leads wf) root id

theorem reached_congr (hids : wf'.nodes.map StoredNode.id = wf.nodes.map StoredNode.id) (hedges : wf'.edges = wf.edges)
    {id : String} : Reached wf' id ↔ Reached wf id := by
  unfold Reached IsRoot Leads
  rw [hids, hedges]

/-- A path, after Start nodes were taken out: from the last of them on, it starts at the trigger. -/
theorem Strips.path (h : Strips wf wf' removed) {a b : String} (hb : b ∉ removed)
    (hpath : Relation.ReflTransGen (Leads wf) a b) :
    (a ∉ removed ∧ Relation.ReflTransGen (Leads wf') a b) ∨
      ∃ s ∈ removed, ∃ t, triggerNode wf.nodes = some t ∧ Relation.ReflTransGen (Leads wf') t.id b := by
  induction hpath using Relation.ReflTransGen.head_induction_on with
  | refl => exact Or.inl ⟨hb, .refl⟩
  | head hlead hrest ih =>
      rename_i a c
      rcases ih with ⟨hc, hpath⟩ | htrigger
      · obtain ⟨e, he, rfl, rfl⟩ := hlead
        by_cases ha : e.source ∈ removed
        · obtain ⟨t, ht, htarget⟩ := h.leads e he ha
          exact Or.inr ⟨_, ha, t, ht, htarget ▸ hpath⟩
        · exact Or.inl ⟨ha, .head ⟨e, h.mem_edges.mpr ⟨he, ha, hc⟩, rfl, rfl⟩ hpath⟩
      · exact Or.inr htrigger

theorem Strips.reached (h : Strips wf wf' removed) {id : String} (hid : id ∉ removed) (hreached : Reached wf id) :
    Reached wf' id ∨
      ∃ s ∈ removed, ∃ t, triggerNode wf.nodes = some t ∧ Relation.ReflTransGen (Leads wf') t.id id := by
  obtain ⟨root, hroot, hpath⟩ := hreached
  rcases h.path hid hpath with ⟨hkept, hpath'⟩ | htrigger
  · refine Or.inl ⟨root, ⟨h.mem_ids.mpr ⟨hroot.1, hkept⟩, ?_⟩, hpath'⟩
    exact fun e he => hroot.2 e (h.mem_edges.mp he).1
  · exact Or.inr htrigger

/-- Behind a new Start node everything stays reached, whether it is taken out again or not. -/
theorem Strips.reached_inserted (h : Strips (insertStart uuid wf) wf' removed) (hsound : wf.Sound)
    (hstarts : ∀ n ∈ wf.nodes, n.isStart = false) {id : String} (hreached : Reached wf id) : Reached wf' id := by
  have hkept : ∀ id ∈ wf.nodes.map StoredNode.id, id ∉ removed := by
    intro id hid
    obtain ⟨n, hn, rfl⟩ := List.mem_map.mp hid
    have hshifted : { n with position := (n.position.1, n.position.2 + 100) } ∈ (insertStart uuid wf).nodes :=
      List.mem_cons_of_mem _ (List.mem_map_of_mem hn)
    exact (h.not_mem (retains_insertStart hsound).sound.ids hshifted (hstarts n hn) :)
  have hleads : ∀ a b, Leads wf a b → Leads wf' a b := by
    rintro a b ⟨e, he, rfl, rfl⟩
    refine ⟨e, h.mem_edges.mpr ⟨List.mem_append_left _ he, ?_, ?_⟩, rfl, rfl⟩
    · exact hkept _ (hsound.edges e he).1
    · exact hkept _ (hsound.edges e he).2
  obtain ⟨root, hroot, hpath⟩ := hreached
  have hpath' := Relation.ReflTransGen.mono hleads _ _ hpath
  have hin : ∀ id ∈ wf.nodes.map StoredNode.id, id ∈ (insertStart uuid wf).nodes.map StoredNode.id := by
    intro id hid
    rw [ids_insertStart]
    exact List.mem_cons_of_mem _ hid
  by_cases hremoved : uuid.next wf.ids ∈ removed
  · -- the roots are roots again
    refine ⟨root, ⟨h.mem_ids.mpr ⟨hin root hroot.1, hkept root hroot.1⟩, ?_⟩, hpath'⟩
    intro e he
    obtain ⟨he, hsource, -⟩ := h.mem_edges.mp he
    rcases List.mem_append.mp he with he | he
    · exact hroot.2 e he
    · obtain ⟨m, -, rfl⟩ := List.mem_map.mp he
      exact absurd hremoved hsource
  · -- the Start node is a root, with an edge to each old one
    have hstart := startId_not_mem uuid wf
    refine ⟨uuid.next wf.ids, ⟨h.mem_ids.mpr ⟨?_, hremoved⟩, ?_⟩, .head ?_ hpath'⟩
    · rw [ids_insertStart]
      exact List.mem_cons_self
    · intro e he heq
      rcases List.mem_append.mp (h.mem_edges.mp he).1 with he | he
      · exact hstart (heq ▸ (hsound.edges e he).2)
      · obtain ⟨m, hm, rfl⟩ := List.mem_map.mp he
        exact hstart (heq ▸ List.mem_map_of_mem (List.mem_filter.mp hm).1)
    · obtain ⟨n, hn, rfl⟩ := List.mem_map.mp hroot.1
      have htarget : n.id ∉ wf.edges.map StoredEdge.target := by
        intro hmem
        obtain ⟨e, he, heq⟩ := List.mem_map.mp hmem
        exact hroot.2 e he heq
      refine ⟨_, h.mem_edges.mpr ⟨List.mem_append_right _ (List.mem_map_of_mem
        (List.mem_filter.mpr ⟨hn, decide_eq_true htarget⟩)), hremoved, hkept n.id hroot.1⟩, rfl, rfl⟩

theorem trigger_of_views {nodes nodes' : List StoredNode}
    (h : nodes'.map (StoredNode.view []) = nodes.map (StoredNode.view [])) {t' : StoredNode}
    (ht' : triggerNode nodes' = some t') : ∃ t, triggerNode nodes = some t ∧ t.id = t'.id := by
  have hunbound : ∀ ns : List StoredNode, (triggerNode ns).map StoredNode.unbound =
      triggerNode ((ns.map (StoredNode.view [])).map Prod.fst) := by
    intro ns
    have hnode : ns.map StoredNode.unbound = (ns.map (StoredNode.view [])).map Prod.fst := by
      rw [List.map_map]
      rfl
    unfold triggerNode
    rw [← hnode, List.find?_map, List.find?_map, Option.map_or]
    refine congrArg₂ (fun o o' => (Option.map _ o).or (Option.map _ o')) ?_ ?_
    · exact congrArg (ns.find? ·) (funext fun n => (StoredNode.unbound_trigger n).1.symm)
    · exact congrArg (ns.find? ·) (funext fun n => (StoredNode.unbound_trigger n).2.symm)
  have hmap : (triggerNode nodes).map StoredNode.unbound = some t'.unbound := by
    rw [hunbound, ← h, ← hunbound, ht']
    rfl
  obtain ⟨t, ht, hsame⟩ := Option.map_eq_some_iff.mp hmap
  exact ⟨t, ht, by rw [← StoredNode.unbound_id, hsame, StoredNode.unbound_id]⟩

/-- A node is reached from the trigger, after a Start node was taken out. -/
def LeftToTrigger (wf wf' : StoredWorkflow) (id : String) : Prop :=
  (∃ s ∈ wf.nodes, s.isStart = true ∧ s.id ∉ wf'.nodes.map StoredNode.id) ∧
    ∃ t, triggerNode wf.nodes = some t ∧ Relation.ReflTransGen (Leads wf') t.id id

theorem Strips.reached_or_left (h : Strips wf wf' removed) {id : String} (hid : id ∈ wf'.nodes.map StoredNode.id)
    (hreached : Reached wf id) : Reached wf' id ∨ LeftToTrigger wf wf' id := by
  rcases h.reached (h.mem_ids.mp hid).2 hreached with hroot | ⟨sid, hs, htrigger⟩
  · exact Or.inl hroot
  · obtain ⟨s, hmem, hstart, rfl⟩ := h.starts sid hs
    exact Or.inr ⟨⟨s, hmem, hstart, fun hin => (h.mem_ids.mp hin).2 hs⟩, htrigger⟩

theorem LeftToTrigger.of_views (hviews : wf'.nodes.map (StoredNode.view []) = wf.nodes.map (StoredNode.view []))
    {id : String} (h : LeftToTrigger wf' wf'' id) : LeftToTrigger wf wf'' id := by
  obtain ⟨⟨s', hs', hstart, hgone⟩, t', ht', hpath⟩ := h
  obtain ⟨t, ht, hid⟩ := trigger_of_views hviews ht'
  have hmem : s'.view [] ∈ wf.nodes.map (StoredNode.view []) := by
    rw [← hviews]
    exact List.mem_map_of_mem hs'
  obtain ⟨s, hs, hview⟩ := List.mem_map.mp hmem
  have hunbound : s.unbound = s'.unbound := (Prod.mk.inj hview).1
  refine ⟨⟨s, hs, ?_, ?_⟩, t, ht, hid ▸ hpath⟩
  · rw [← StoredNode.unbound_isStart, hunbound, StoredNode.unbound_isStart, hstart]
  · rw [← StoredNode.unbound_id, hunbound, StoredNode.unbound_id]
    exact hgone

/-- The version steps: services, then perhaps a Start node, then perhaps fewer of them. -/
theorem migrateVersions_stages (parseUrl : String → Option ParsedUrl) (uuid : Uuid) (h : wf.Sound) :
    ∃ wf₂ wf₃ removed, Keeps [] wf wf₂ ∧ wf₂.Sound ∧
      (SameGraph wf₂ wf₃ ∨ (∀ n ∈ wf₂.nodes, n.isStart = false) ∧ wf₃ = insertStart uuid wf₂) ∧
      Strips wf₃ (migrateVersions parseUrl uuid wf) removed := by
  have hsame : ∀ wf : StoredWorkflow, SameGraph wf wf := fun _ => ⟨rfl, rfl, rfl⟩
  have hrefl : ∀ wf : StoredWorkflow, Keeps [] wf wf := fun _ => ⟨rfl, rfl, [], (List.append_nil _).symm⟩
  unfold migrateVersions
  extract_lets wf₁ wf₂ wf₃ wf₄
  have hkeeps₁ : Keeps [] wf wf₁ ∧ wf₁.Sound := by
    show Keeps [] wf (if _ then _ else _) ∧ StoredWorkflow.Sound (if _ then _ else _)
    split
    next => exact ⟨keeps_v1ToV2, (retains_v1ToV2 h).sound⟩
    next => exact ⟨hrefl wf, h⟩
  have hkeeps₂ : Keeps [] wf wf₂ ∧ wf₂.Sound := by
    show Keeps [] wf (if _ then _ else _) ∧ StoredWorkflow.Sound (if _ then _ else _)
    split
    next => exact ⟨hkeeps₁.1.trans (keeps_v2ToV3 (List.nil_subset _)), (retains_v2ToV3 hkeeps₁.2).sound⟩
    next => exact hkeeps₁
  have hstart : SameGraph wf₂ wf₃ ∨ (∀ n ∈ wf₂.nodes, n.isStart = false) ∧ wf₃ = insertStart uuid wf₂ := by
    show SameGraph wf₂ (if _ then _ else _) ∨ _ ∧ (if _ then _ else _) = _
    split
    next => exact v3ToV4_cases uuid wf₂
    next => exact Or.inl (hsame wf₂)
  have hbump : SameGraph wf₃ wf₄ := by
    show SameGraph wf₃ (if _ then _ else _)
    split
    next => exact sameGraph_v4ToV5
    next => exact hsame wf₃
  have hstrips : ∃ removed, Strips wf₄ (if wf₄.version < 6 then migrateV5ToV6 wf₄ else wf₄) removed := by
    split
    next => exact strips_v5ToV6 wf₄
    next => exact ⟨[], strips_of_same rfl rfl rfl⟩
  obtain ⟨removed, hstrips⟩ := hstrips
  exact ⟨wf₂, wf₃, removed, hkeeps₂.1, hkeeps₂.2, hstart, hbump.strips hstrips⟩

theorem reached_migrateVersions (h : wf.Sound) {id : String}
    (hid : id ∈ (migrateVersions parseUrl uuid wf).nodes.map StoredNode.id) (hreached : Reached wf id) :
    Reached (migrateVersions parseUrl uuid wf) id ∨ LeftToTrigger wf (migrateVersions parseUrl uuid wf) id := by
  obtain ⟨wf₂, wf₃, removed, hkeeps, hsound, hstart, hstrips⟩ := migrateVersions_stages parseUrl uuid h
  have hreached₂ : Reached wf₂ id := (reached_congr (ids_of_views hkeeps.views) hkeeps.edges).mpr hreached
  rcases hstart with hsame | ⟨hstarts, rfl⟩
  · rcases (hsame.strips hstrips).reached_or_left hid hreached₂ with hroot | hleft
    · exact Or.inl hroot
    · exact Or.inr (hleft.of_views hkeeps.views)
  · exact Or.inl (hstrips.reached_inserted hsound hstarts hreached₂)

/-! ## A whole migration -/

structure WellMigrated (wf wf' : StoredWorkflow) : Prop where
  schemaVersion : wf'.schemaVersion = some 6
  edges : ∀ e ∈ wf'.edges, e.source ∈ wf'.nodes.map StoredNode.id ∧ e.target ∈ wf'.nodes.map StoredNode.id
  services : ∀ n ∈ wf'.nodes, ∀ data, n.data? = some data →
    ∃ svcId, given data.serviceId = some svcId ∧ svcId ∈ wf'.registry.map WorkflowService.id
  nodesKept : ∀ n ∈ wf.nodes, n.isStart = false → ∃ n' ∈ wf'.nodes, n'.unbound = n.unbound
  edgesKept : ∀ e ∈ wf.edges, wf.Inner e → e ∈ wf'.edges
  reached : ∀ id ∈ wf'.nodes.map StoredNode.id, Reached wf id → Reached wf' id ∨ LeftToTrigger wf wf' id

theorem well_migrated (h : wf.Sound) : WellMigrated wf (migrateWorkflowSchema parseUrl uuid wf) ∧
    ∀ uuid' : Uuid, migrateWorkflowSchema parseUrl uuid' (migrateWorkflowSchema parseUrl uuid wf) =
      migrateWorkflowSchema parseUrl uuid wf := by
  have hversions : Retains wf (migrateVersions parseUrl uuid wf) := retains_migrateVersions h
  have hendpoints := retains_withEndpoints hversions.sound
  obtain ⟨news, serviceOf, hfixed⟩ : ∃ news serviceOf, FixedUp parseUrl
      (withEndpoints (migrateVersions parseUrl uuid wf)) (migrateWorkflowSchema parseUrl uuid wf) news serviceOf :=
    fixedUp hversions.sound.ids
  have hall := hversions.trans (hendpoints.trans (hfixed.retains hendpoints.sound))
  refine ⟨⟨?_, hall.sound.edges, ?_, hall.nodes, hall.edges, ?_⟩, ?_⟩
  · rw [hfixed.schemaVersion]
    exact schemaVersion_of_version (le_antisymm hversions.sound.version version_migrateVersions)
  · intro n hn data hdata
    exact hfixed.services_exist hendpoints.sound (mem_httpNodes.mpr ⟨n, hn, hdata, rfl⟩)
  · intro id hid hreached
    have hsame : ∀ id, Reached (migrateWorkflowSchema parseUrl uuid wf) id ↔ Reached (migrateVersions parseUrl uuid wf) id :=
      fun _ => reached_congr hfixed.ids hfixed.edges
    have hids : (migrateWorkflowSchema parseUrl uuid wf).nodes.map StoredNode.id =
        (migrateVersions parseUrl uuid wf).nodes.map StoredNode.id := hfixed.ids
    rw [hsame]
    rw [hids] at hid
    refine (reached_migrateVersions h hid hreached).imp_right ?_
    rintro ⟨⟨s, hs, hstart, hgone⟩, t, ht, hpath⟩
    refine ⟨⟨s, hs, hstart, by rw [hids]; exact hgone⟩, t, ht, ?_⟩
    unfold Leads at hpath ⊢
    rw [hfixed.edges]
    exact hpath
  · intro uuid'
    exact hfixed.current hversions.sound.ids version_migrateVersions

end

/-! ## A trigger on a cycle -/

/-- Start leads to the webhook, the webhook to a step, and the step back to the webhook. -/
def loopWorkflow : StoredWorkflow where
  schemaVersion := some 5
  nodes := [⟨"start", (0, 0), .start .null⟩, ⟨"hook", (0, 0), .webhook .null⟩, ⟨"step", (0, 0), .other "delay" .null⟩]
  edges := [⟨"e1", "start", none, "hook", none⟩, ⟨"e2", "hook", none, "step", none⟩, ⟨"e3", "step", none, "hook", none⟩]
  hostProfiles := none
  authProfiles := none
  services := none

theorem loopWorkflow_sound : loopWorkflow.Sound where
  version := by decide
  ids := by decide
  edges := by decide
  services := by decide

theorem well_migrated_loop : WellMigrated loopWorkflow (migrateWorkflowSchema (fun _ => none) longestUuid loopWorkflow) ∧
    ∀ uuid' : Uuid, migrateWorkflowSchema (fun _ => none) uuid'
        (migrateWorkflowSchema (fun _ => none) longestUuid loopWorkflow) =
      migrateWorkflowSchema (fun _ => none) longestUuid loopWorkflow :=
  well_migrated loopWorkflow_sound

/-- The Start node is taken out, and no root is left. -/
theorem trigger_on_cycle : loopWorkflow.Sound ∧ Reached loopWorkflow "step" ∧
    ¬ Reached (migrateWorkflowSchema (fun _ => none) longestUuid loopWorkflow) "step" := by
  refine ⟨loopWorkflow_sound, ⟨"start", ⟨by decide, by decide⟩, ?_⟩, ?_⟩
  · have hhook : Leads loopWorkflow "start" "hook" := ⟨_, List.mem_cons_self, rfl, rfl⟩
    have hstep : Leads loopWorkflow "hook" "step" := ⟨_, List.mem_cons_of_mem _ List.mem_cons_self, rfl, rfl⟩
    exact .tail (.single hhook) hstep
  · rintro ⟨root, ⟨hmem, hroot⟩, -⟩
    have hnodes : (migrateWorkflowSchema (fun _ => none) longestUuid loopWorkflow).nodes.map StoredNode.id =
        ["hook", "step"] := by decide
    have hedges : (migrateWorkflowSchema (fun _ => none) longestUuid loopWorkflow).edges.map StoredEdge.target =
        ["step", "hook"] := by decide
    have htarget : root ∈ ["step", "hook"] := by
      rw [hnodes] at hmem
      exact List.mem_reverse.mpr hmem
    rw [← hedges] at htarget
    obtain ⟨e, he, heq⟩ := List.mem_map.mp htarget
    exact hroot e he heq

end RedFireForge.Workflow
