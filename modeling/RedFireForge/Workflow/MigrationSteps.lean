/-
# `RedFireForge.Workflow.MigrationSteps` — what each step of a migration leaves

A step may bind a node to a service that it adds; it never binds it to one that was there,
and of the rest of a node it changes the position and the profiles only.  This is said with
the *view* of a node: the node without its position and its bindings, together with its
service when that is among some known ones.
-/
import RedFireForge.Workflow.Migrations

namespace RedFireForge.Workflow

open RedFireForge.Lib

/-! ## Texts that are given -/

theorem given_eq_some {o : Option String} {s : String} : given o = some s ↔ o = some s ∧ s ≠ "" := by
  unfold given
  rw [Option.filter_eq_some_iff, decide_eq_true_eq]

theorem given_given (o : Option String) : given (given o) = given o := by
  unfold given
  rw [Option.filter_filter]
  simp only [Bool.and_self]

theorem given_or_given (o o' : Option String) : given ((given o).or o') = (given o).or (given o') := by
  cases h : given o with
  | none => rfl
  | some s => rw [Option.some_or, Option.some_or, ← h, given_given]

theorem find?_of_mem {α : Type} {xs : List α} {f : α → String} (h : (xs.map f).Nodup) {x : α} (hx : x ∈ xs) :
    xs.find? (f · = f x) = some x := by
  cases hfind : xs.find? (f · = f x) with
  | none => exact absurd (decide_eq_true rfl) (List.find?_eq_none.mp hfind x hx)
  | some y =>
      have hid := List.find?_some hfind
      rw [decide_eq_true_eq] at hid
      exact congrArg some (List.inj_on_of_nodup_map h (List.mem_of_find?_eq_some hfind) hx hid)

/-! ## Adding services -/

theorem lookup_foldl_set {α : Type} {keys : List String} {v : α} {key : String} :
    ∀ {m : InsertionMap String α}, (keys.foldl (fun m k => m.set k v) m).lookup key =
      if key ∈ keys then some v else m.lookup key := by
  induction keys with
  | nil =>
      intro m
      rw [List.foldl_nil, if_neg List.not_mem_nil]
  | cons k keys ih =>
      intro m
      rw [List.foldl_cons, ih, InsertionMap.lookup_set]
      by_cases hkeys : key ∈ keys
      · rw [if_pos hkeys, if_pos (List.mem_cons_of_mem _ hkeys)]
      · rw [if_neg hkeys]
        by_cases hk : key = k
        · rw [if_pos hk, if_pos (hk ▸ List.mem_cons_self)]
        · rw [if_neg hk, if_neg (List.not_mem_cons_of_ne_of_not_mem hk hkeys)]

/-- The services are `base` and the `news`, whose ids were not in use. -/
structure Assigned.Extends (used : List String) (base news : List WorkflowService) (r : Assigned) : Prop where
  services : r.services = base ++ news
  fresh : ∀ s ∈ news, s.id ∉ used ∧ s.id ≠ ""
  nodup : (news.map WorkflowService.id).Nodup
  assigned : ∀ {key id}, r.serviceOf.lookup key = some id → id ∈ news.map WorkflowService.id

namespace Assigned

variable {used : List String} {base news : List WorkflowService} {r : Assigned}

theorem extends_base (used : List String) (base : List WorkflowService) : Extends used base [] ⟨base, ∅⟩ where
  services := (List.append_nil _).symm
  fresh := fun _ hs => absurd hs List.not_mem_nil
  nodup := List.nodup_nil
  assigned := nofun

/-- Adding a service, under an id that nothing had. -/
theorem Extends.add (h : Extends used base news r) (uuid : Uuid) (keys : List String) (draft : ServiceDraft) :
    ∃ id, Extends used base (news ++ [draft.service id]) (r.add uuid used keys draft) ∧
      id ∉ news.map WorkflowService.id ∧
      ∀ key, (r.add uuid used keys draft).serviceOf.lookup key =
        if key ∈ keys then some id else r.serviceOf.lookup key := by
  have hfresh := uuid.fresh "svc_" (used ++ r.services.map WorkflowService.id)
  obtain ⟨id, hid⟩ : ∃ id, id = "svc_" ++ uuid.next (used ++ r.services.map WorkflowService.id) := ⟨_, rfl⟩
  have hadd : r.add uuid used keys draft =
      ⟨r.services ++ [draft.service id], keys.foldl (fun m key => m.set key id) r.serviceOf⟩ := by
    subst hid
    rfl
  rw [← hid, List.mem_append, not_or, h.services, List.map_append, List.mem_append, not_or] at hfresh
  obtain ⟨hused, -, hnews⟩ := hfresh
  have hempty : id ≠ "" := by
    intro hid'
    have hlist := congrArg String.toList (hid.symm.trans hid')
    rw [String.toList_append] at hlist
    cases hlist
  have hlookup : ∀ key, (r.add uuid used keys draft).serviceOf.lookup key =
      if key ∈ keys then some id else r.serviceOf.lookup key := by
    intro key
    rw [hadd]
    exact lookup_foldl_set
  refine ⟨id, ⟨?_, ?_, ?_, ?_⟩, hnews, hlookup⟩
  · rw [hadd, h.services, List.append_assoc]
  · intro s hs
    rcases List.mem_append.mp hs with hs | hs
    · exact h.fresh s hs
    · rw [List.mem_singleton.mp hs]
      exact ⟨hused, hempty⟩
  · rw [List.map_append, List.nodup_append]
    refine ⟨h.nodup, List.nodup_singleton _, ?_⟩
    intro a ha b hb hab
    rw [List.map_singleton, List.mem_singleton] at hb
    rw [hab, hb] at ha
    exact hnews ha
  · intro key id' hid'
    rw [hlookup] at hid'
    rw [List.map_append, List.mem_append]
    split at hid'
    next => exact Or.inr (List.mem_singleton.mpr (Option.some.inj hid').symm)
    next => exact Or.inl (h.assigned hid')

/-- One service after another. -/
theorem Extends.foldl {α : Type} (h : Extends used base news r) (uuid : Uuid) (keys : Assigned → α → List String)
    (draft : Assigned → α → ServiceDraft) (xs : List α) :
    ∃ news, Extends used base news
      (xs.foldl (fun r x => r.add uuid used (keys r x) (draft r x)) r) := by
  induction xs generalizing news r with
  | nil => exact ⟨news, h⟩
  | cons x xs ih =>
      obtain ⟨id, hadd, -, -⟩ := h.add uuid (keys r x) (draft r x)
      exact ih hadd

end Assigned

/-- Each service is that of a group: it is made from the group's first node, and assigned in
the group only. -/
def OfGroups (draft : String → HttpNodeData → ServiceDraft) (groups : List (List (String × HttpNodeData)))
    (news : List WorkflowService) (r : Assigned) : Prop :=
  ∀ s ∈ news, ∃ group ∈ groups, (∃ first name, group.head? = some first ∧ s = (draft name first.2).service s.id) ∧
    ∀ key, r.serviceOf.lookup key = some s.id → key ∈ group.map Prod.fst

theorem assignGroups_spec (uuid : Uuid) (used : List String) (nodes : List StoredNode)
    (draft : String → HttpNodeData → ServiceDraft) (groups : InsertionMap String (List (String × HttpNodeData)))
    (base : List WorkflowService) :
    ∃ news, (assignGroups uuid used nodes draft groups ⟨base, ∅⟩).Extends used base news ∧
      OfGroups draft groups.values news (assignGroups uuid used nodes draft groups ⟨base, ∅⟩) ∧
      ∀ group ∈ groups.values, ∀ n ∈ group,
        ((assignGroups uuid used nodes draft groups ⟨base, ∅⟩).serviceOf.lookup n.1).isSome := by
  unfold assignGroups
  induction groups.values using List.reverseRecOn with
  | nil => exact ⟨[], Assigned.extends_base used base, fun _ hs => absurd hs List.not_mem_nil, fun _ hg => absurd hg List.not_mem_nil⟩
  | append_singleton groups group ih =>
      obtain ⟨news, hext, hof, hall⟩ := ih
      rw [List.foldl_append, List.foldl_cons, List.foldl_nil]
      generalize groups.foldl _ _ = r at hext hof hall ⊢
      cases group with
      | nil =>
          refine ⟨news, hext, ?_, ?_⟩
          · intro s hs
            obtain ⟨group, hgroup, hs⟩ := hof s hs
            exact ⟨group, List.mem_append_left _ hgroup, hs⟩
          · intro group hgroup n hn
            rcases List.mem_append.mp hgroup with hgroup | hgroup
            · exact hall group hgroup n hn
            · rw [List.mem_singleton.mp hgroup] at hn
              cases hn
      | cons first rest =>
          obtain ⟨id, hadd, hid, hlookup⟩ := hext.add uuid ((first :: rest).map Prod.fst)
            (draft (groupName nodes ((first :: rest).map Prod.fst)) first.2)
          refine ⟨_, hadd, ?_, ?_⟩
          · intro s hs
            rcases List.mem_append.mp hs with hs | hs
            · obtain ⟨group, hgroup, hmade, honly⟩ := hof s hs
              refine ⟨group, List.mem_append_left _ hgroup, hmade, ?_⟩
              intro key hkey
              rw [hlookup] at hkey
              split at hkey
              next =>
                -- the new id is not that of an earlier service
                exact absurd (List.mem_map.mpr ⟨s, hs, (Option.some.inj hkey).symm⟩) hid
              next => exact honly key hkey
            · rw [List.mem_singleton.mp hs]
              refine ⟨_, List.mem_append_right _ List.mem_cons_self, ⟨first, _, rfl, rfl⟩, ?_⟩
              intro key hkey
              rw [hlookup] at hkey
              split at hkey
              next hmem => exact hmem
              next => exact absurd (hext.assigned hkey) hid
          · intro group hgroup n hn
            rw [hlookup]
            split
            next => rfl
            next hmem =>
              rcases List.mem_append.mp hgroup with hgroup | hgroup
              · exact hall group hgroup n hn
              · rw [List.mem_singleton.mp hgroup] at hn
                exact absurd (List.mem_map_of_mem hn) hmem

/-! ## The view of a node -/

def HttpNodeData.unbound (data : HttpNodeData) : HttpNodeData :=
  { data with serviceId := none, hostProfileId := none, authProfileId := none }

namespace StoredNode

def unbound (n : StoredNode) : StoredNode := { n.mapData HttpNodeData.unbound with position := (0, 0) }

/-- The id of the service that a node is bound to. -/
def boundTo (n : StoredNode) : Option String := n.data?.bind fun data => given data.serviceId

def view (known : List String) (n : StoredNode) : StoredNode × Option String :=
  (n.unbound, n.boundTo.filter (· ∈ known))

variable {known : List String} {n : StoredNode} {svcId : Option String} {data : HttpNodeData}

theorem eq_http (h : n.data? = some data) : n = ⟨n.id, n.position, .http data⟩ := by
  obtain ⟨id, position, body⟩ := n
  cases body with
  | http data' => rw [show data' = data from Option.some.inj h]
  | start => cases h
  | webhook => cases h
  | schedule => cases h
  | other => cases h

theorem mapData_of_none {f : HttpNodeData → HttpNodeData} (h : n.data? = none) : n.mapData f = n := by
  obtain ⟨id, position, body⟩ := n
  cases body with
  | http => cases h
  | start => rfl
  | webhook => rfl
  | schedule => rfl
  | other => rfl

/-- What kind of node it is does not depend on its data. -/
theorem mapData_kind (f : HttpNodeData → HttpNodeData) (n : StoredNode) : (n.mapData f).id = n.id ∧
    (n.mapData f).data?.isSome = n.data?.isSome ∧ (n.mapData f).isStart = n.isStart ∧
    (n.mapData f).isWebhook = n.isWebhook ∧ (n.mapData f).isSchedule = n.isSchedule := by
  obtain ⟨id, position, body⟩ := n
  cases body with
  | http => exact ⟨rfl, rfl, rfl, rfl, rfl⟩
  | start => exact ⟨rfl, rfl, rfl, rfl, rfl⟩
  | webhook => exact ⟨rfl, rfl, rfl, rfl, rfl⟩
  | schedule => exact ⟨rfl, rfl, rfl, rfl, rfl⟩
  | other => exact ⟨rfl, rfl, rfl, rfl, rfl⟩

theorem unbound_id (n : StoredNode) : n.unbound.id = n.id := (mapData_kind _ n).1

theorem unbound_isSome (n : StoredNode) : n.unbound.data?.isSome = n.data?.isSome := (mapData_kind _ n).2.1

theorem unbound_isStart (n : StoredNode) : n.unbound.isStart = n.isStart := (mapData_kind _ n).2.2.1

theorem unbound_trigger (n : StoredNode) :
    n.unbound.isWebhook = n.isWebhook ∧ n.unbound.isSchedule = n.isSchedule := (mapData_kind _ n).2.2.2

theorem view_position (n : StoredNode) (position : ℚ × ℚ) :
    StoredNode.view known { n with position := position } = n.view known := by
  cases h : n.data? with
  | none =>
      have h' : StoredNode.data? { n with position := position } = none := h
      rw [view, view, unbound, unbound, mapData_of_none h, mapData_of_none h', boundTo, boundTo, h, h']
  | some data =>
      rw [eq_http h]
      rfl

theorem unbound_withService : (n.withService svcId).unbound = n.unbound := by
  cases h : n.data? with
  | none => rw [withService, mapData_of_none h]
  | some data =>
      rw [eq_http h]
      rfl

theorem boundTo_withService (hn : n.data?.isSome) :
    (n.withService svcId).boundTo = (given svcId).or n.boundTo := by
  obtain ⟨data, hdata⟩ := Option.isSome_iff_exists.mp hn
  rw [eq_http hdata]
  exact given_or_given svcId data.serviceId

theorem withService_none : n.withService none = n := by
  cases h : n.data? with
  | none => rw [withService, mapData_of_none h]
  | some data =>
      rw [eq_http h]
      rfl

/-- Binding a node that has no service, to one that is not among the known. -/
theorem view_withService (hn : n.boundTo = none) (h : ∀ id, svcId = some id → id ∉ known) :
    (n.withService svcId).view known = n.view known := by
  unfold view
  rw [unbound_withService, hn]
  cases hdata : n.data? with
  | none =>
      rw [withService, mapData_of_none hdata, hn]
  | some data =>
      rw [boundTo_withService (Option.isSome_of_eq_some hdata), hn, Option.or_none]
      cases hgiven : given svcId with
      | none => rfl
      | some id =>
          rw [Option.filter_some, decide_eq_false (h id (given_eq_some.mp hgiven).1)]
          rfl

theorem view_assignMissing {serviceOf : StoredNode → HttpNodeData → Option String}
    (h : ∀ data, n.data? = some data → ∀ id, serviceOf n data = some id → id ∉ known) :
    (assignMissing serviceOf n).view known = n.view known := by
  unfold assignMissing
  cases hdata : n.data? with
  | none => rfl
  | some data =>
      show (if given data.serviceId = none then n.withService (serviceOf n data) else n).view known = n.view known
      split
      next hnone =>
        refine view_withService ?_ (h data hdata)
        rw [boundTo, hdata]
        exact hnone
      next => rfl

/-- What the view of an HTTP node shows. -/
theorem data_of_view {n' : StoredNode} (hview : n'.view known = n.view known) (h : n.data? = some data) :
    ∃ data', n'.data? = some data' ∧ data'.unbound = data.unbound ∧
      ∀ id ∈ known, given data'.serviceId = some id ↔ given data.serviceId = some id := by
  obtain ⟨hunbound, hbound⟩ := Prod.mk.inj hview
  cases hdata : n'.data? with
  | none =>
      rw [eq_http h, unbound, unbound, mapData_of_none hdata] at hunbound
      have hbody : n'.body = .http data.unbound := congrArg StoredNode.body hunbound
      rw [data?, hbody] at hdata
      cases hdata
  | some data' =>
      have hunbound' := hunbound
      rw [eq_http h, eq_http hdata] at hunbound'
      refine ⟨data', rfl, ?_, ?_⟩
      · exact NodeBody.http.inj (congrArg StoredNode.body hunbound')
      · intro id hid
        rw [boundTo, boundTo, h, hdata] at hbound
        have hboth : (given data'.serviceId).filter (· ∈ known) = (given data.serviceId).filter (· ∈ known) := hbound
        have hfilter : ∀ o : Option String, o = some id ↔ o.filter (· ∈ known) = some id := by
          intro o
          rw [Option.filter_eq_some_iff, decide_eq_true_eq]
          exact ⟨fun ho => ⟨ho, hid⟩, And.left⟩
        rw [hfilter, hboth, ← hfilter]

theorem boundTo_assignMissing {serviceOf : StoredNode → HttpNodeData → Option String} :
    (assignMissing serviceOf n).boundTo =
      n.boundTo.or (n.data?.bind fun data => given (serviceOf n data)) := by
  unfold assignMissing
  cases hdata : n.data? with
  | none =>
      rw [boundTo, hdata]
      rfl
  | some data =>
      have hbound : n.boundTo = given data.serviceId := by
        rw [boundTo, hdata]
        rfl
      show (if given data.serviceId = none then n.withService (serviceOf n data) else n).boundTo =
        n.boundTo.or (given (serviceOf n data))
      split
      next hnone =>
        rw [boundTo_withService (Option.isSome_of_eq_some hdata), hbound, hnone, Option.or_none, Option.none_or]
      next hsome =>
        obtain ⟨id, hid⟩ := Option.ne_none_iff_exists'.mp hsome
        rw [hbound, hid]
        rfl

end StoredNode

/-! ## Steps that keep the views -/

/-- The nodes look the same, the edges are the same, and services may be added. -/
structure Keeps (known : List String) (wf wf' : StoredWorkflow) : Prop where
  views : wf'.nodes.map (StoredNode.view known) = wf.nodes.map (StoredNode.view known)
  edges : wf'.edges = wf.edges
  services : ∃ news, wf'.registry = wf.registry ++ news

section
variable {known : List String} {uuid : Uuid} {wf wf' wf'' : StoredWorkflow} {used : List String}
  {parseUrl : String → Option ParsedUrl}

theorem Keeps.trans (h : Keeps known wf wf') (h' : Keeps known wf' wf'') : Keeps known wf wf'' where
  views := h'.views.trans h.views
  edges := h'.edges.trans h.edges
  services := by
    obtain ⟨news, hnews⟩ := h.services
    obtain ⟨news', hnews'⟩ := h'.services
    exact ⟨news ++ news', by rw [hnews', hnews, List.append_assoc]⟩

theorem profileHost_data (uuid : Uuid) (used : List String) (t : ProfileTables) (data : HttpNodeData) :
    ∃ host, (profileHost uuid used t data).2 = { data with hostProfileId := host } := by
  unfold profileHost
  split
  next =>
    dsimp only
    split
    next id _ => exact ⟨some id, rfl⟩
    next => exact ⟨_, rfl⟩
  next => exact ⟨data.hostProfileId, rfl⟩

theorem profileAuth_data (uuid : Uuid) (used : List String) (t : ProfileTables) (data : HttpNodeData) :
    ∃ auth, (profileAuth uuid used t data).2 = { data with authProfileId := auth } := by
  unfold profileAuth
  split
  next =>
    split
    next id _ => exact ⟨some id, rfl⟩
    next => exact ⟨_, rfl⟩
  next => exact ⟨data.authProfileId, rfl⟩

theorem view_profileNodes {ns : List StoredNode} : ∀ {t : ProfileTables},
    (profileNodes uuid used t ns).2.map (StoredNode.view known) = ns.map (StoredNode.view known) := by
  induction ns with
  | nil => exact fun {_} => rfl
  | cons n ns ih =>
      intro t
      obtain ⟨id, position, body⟩ := n
      cases body with
      | http data =>
          obtain ⟨host, hhost⟩ := profileHost_data uuid used t data
          obtain ⟨auth, hauth⟩ := profileAuth_data uuid used (profileHost uuid used t data).1
            (profileHost uuid used t data).2
          unfold profileNodes
          dsimp only
          rw [List.map_cons, List.map_cons, ih, hauth, hhost]
          rfl
      | start => exact congrArg (List.cons _) ih
      | webhook => exact congrArg (List.cons _) ih
      | schedule => exact congrArg (List.cons _) ih
      | other => exact congrArg (List.cons _) ih

theorem keeps_v1ToV2 : Keeps known wf (migrateV1ToV2 uuid wf) := by
  unfold migrateV1ToV2
  dsimp only
  split
  next => exact ⟨rfl, rfl, [], (List.append_nil _).symm⟩
  next => exact ⟨view_profileNodes, rfl, [], (List.append_nil _).symm⟩

theorem registry_v1ToV2 : (migrateV1ToV2 uuid wf).registry = wf.registry := by
  unfold migrateV1ToV2
  dsimp only
  split
  next => rfl
  next => rfl

theorem mem_ids_of_registry {id : String} (h : id ∈ wf.registry.map WorkflowService.id) : id ∈ wf.ids :=
  List.mem_append_left _ (List.mem_append_right _ h)

/-- Phase 1 and phase 3 add services. -/
theorem profilesToServices_spec (parseUrl : String → Option ParsedUrl) (uuid : Uuid) (wf : StoredWorkflow) :
    ∃ profiles assigned, ∃ news : List WorkflowService,
    (profilesToServices parseUrl uuid wf).registry = wf.registry ++ news ∧
    (∀ s ∈ news, s.id ∉ wf.ids) ∧
    (∀ n data id, profiles n data = some id → id ∈ news.map WorkflowService.id) ∧
    (∀ n data id, assigned n data = some id → id ∈ news.map WorkflowService.id) ∧
    (profilesToServices parseUrl uuid wf).nodes = (wf.nodes.map (assignMissing profiles)).map (assignMissing assigned) := by
  obtain ⟨news, hprofiles⟩ := (Assigned.extends_base wf.ids wf.registry).foldl uuid
    (fun _ hp => [WorkflowHostProfile.id hp]) (fun r hp =>
      profileDraft hp ((given ((nodeAuthMap wf.nodes).lookup hp.id)).bind fun id =>
        (wf.auths.find? (·.id = id)).map WorkflowAuthProfile.auth) r.services.length) wf.hosts
  obtain ⟨news', hassigned, -, -⟩ := assignGroups_spec uuid wf.ids
    (wf.nodes.map (assignMissing fun _ data =>
      (given data.hostProfileId).bind fun id => (convertProfiles uuid wf).serviceOf.lookup id))
    (orphanDraft parseUrl)
    (groupsOf (fun n => (orphanSource parseUrl n.2).1)
      (({ wf with nodes := wf.nodes.map (assignMissing fun _ data =>
        (given data.hostProfileId).bind fun id => (convertProfiles uuid wf).serviceOf.lookup id) } :
          StoredWorkflow).httpNodes.filter fun n => given n.2.serviceId = none))
    (convertProfiles uuid wf).services
  refine ⟨_, _, news ++ news', ?_, ?_, ?_, ?_, rfl⟩
  · rw [← List.append_assoc, ← hprofiles.services]
    exact hassigned.services
  · intro s hs
    rcases List.mem_append.mp hs with hs | hs
    · exact (hprofiles.fresh s hs).1
    · exact (hassigned.fresh s hs).1
  · intro n data id hid
    obtain ⟨profile, -, hid⟩ := Option.bind_eq_some_iff.mp hid
    rw [List.map_append]
    exact List.mem_append_left _ (hprofiles.assigned hid)
  · intro n data id hid
    rw [List.map_append]
    exact List.mem_append_right _ (hassigned.assigned hid)

theorem keeps_profilesToServices (hknown : known ⊆ wf.registry.map WorkflowService.id) :
    Keeps known wf (profilesToServices parseUrl uuid wf) := by
  obtain ⟨profiles, assigned, news, hservices, hfresh, hprofiles, hassigned, hnodes⟩ :=
    profilesToServices_spec parseUrl uuid wf
  have hnew : ∀ id ∈ news.map WorkflowService.id, id ∉ known := by
    intro id hid hmem
    obtain ⟨s, hs, rfl⟩ := List.mem_map.mp hid
    exact hfresh s hs (mem_ids_of_registry (hknown hmem))
  refine ⟨?_, rfl, news, hservices⟩
  rw [hnodes, List.map_map, List.map_map]
  refine List.map_congr_left ?_
  intro n _
  exact (StoredNode.view_assignMissing fun data _ id hid => hnew id (hassigned _ _ id hid)).trans
    (StoredNode.view_assignMissing fun data _ id hid => hnew id (hprofiles _ _ id hid))

theorem keeps_v2ToV3 (hknown : known ⊆ wf.registry.map WorkflowService.id) :
    Keeps known wf (migrateV2ToV3 parseUrl uuid wf) := by
  unfold migrateV2ToV3
  split
  next => exact ⟨rfl, rfl, [], (List.append_nil _).symm⟩
  next =>
    split
    next =>
      refine keeps_v1ToV2.trans (keeps_profilesToServices ?_)
      rw [registry_v1ToV2]
      exact hknown
    next => exact keeps_profilesToServices hknown

end

/-! ## Start nodes -/

section
variable {known : List String} {uuid : Uuid} {wf wf' wf'' : StoredWorkflow} {nodes nodes' : List StoredNode}
  {removed : List String}

theorem http_views (h : nodes'.map (StoredNode.view known) = nodes.map (StoredNode.view known)) :
    (nodes'.filter (·.data?.isSome)).map (StoredNode.view known) =
      (nodes.filter (·.data?.isSome)).map (StoredNode.view known) := by
  have hfilter : ∀ ns : List StoredNode, (ns.filter (·.data?.isSome)).map (StoredNode.view known) =
      (ns.map (StoredNode.view known)).filter (·.1.data?.isSome) := by
    intro ns
    rw [List.filter_map]
    refine congrArg (List.map _) (List.filter_congr fun n _ => ?_)
    exact (StoredNode.unbound_isSome n).symm
  rw [hfilter, h, ← hfilter]

theorem ids_of_views (h : nodes'.map (StoredNode.view known) = nodes.map (StoredNode.view known)) :
    nodes'.map StoredNode.id = nodes.map StoredNode.id := by
  have hid : ∀ ns : List StoredNode, ns.map StoredNode.id =
      (ns.map (StoredNode.view known)).map fun v => v.1.id := by
    intro ns
    rw [List.map_map]
    exact List.map_congr_left fun n _ => (StoredNode.unbound_id n).symm
  rw [hid, h, ← hid]

theorem startId_not_mem (uuid : Uuid) (wf : StoredWorkflow) : uuid.next wf.ids ∉ wf.nodes.map StoredNode.id := by
  intro hmem
  have hused : uuid.next wf.ids ∈ wf.ids := by
    unfold StoredWorkflow.ids at hmem ⊢
    simp only [List.mem_append]
    exact Or.inl (Or.inl (Or.inl (Or.inl (Or.inl hmem))))
  exact uuid.fresh "" wf.ids (by rw [String.empty_append]; exact hused)

theorem ids_insertStart : (insertStart uuid wf).nodes.map StoredNode.id =
    uuid.next wf.ids :: wf.nodes.map StoredNode.id := by
  show _ :: List.map StoredNode.id (wf.nodes.map _) = _
  rw [List.map_map]
  rfl

/-- The nodes with the ids `removed` are taken out: Start nodes that lead to the trigger at
most. -/
structure Strips (wf wf' : StoredWorkflow) (removed : List String) : Prop where
  nodes : wf'.nodes = wf.nodes.filter (·.id ∉ removed)
  edges : wf'.edges = wf.edges.filter fun e => e.source ∉ removed ∧ e.target ∉ removed
  registry : wf'.registry = wf.registry
  starts : ∀ id ∈ removed, ∃ s ∈ wf.nodes, s.isStart = true ∧ s.id = id
  leads : ∀ e ∈ wf.edges, e.source ∈ removed → ∃ t, triggerNode wf.nodes = some t ∧ e.target = t.id

theorem strips_of_same (hnodes : wf'.nodes = wf.nodes) (hedges : wf'.edges = wf.edges)
    (hregistry : wf'.registry = wf.registry) : Strips wf wf' [] where
  nodes := hnodes.trans (List.filter_eq_self.mpr fun _ _ => decide_eq_true List.not_mem_nil).symm
  edges := hedges.trans (List.filter_eq_self.mpr fun _ _ => decide_eq_true ⟨List.not_mem_nil, List.not_mem_nil⟩).symm
  registry := hregistry
  starts := fun _ hid => absurd hid List.not_mem_nil
  leads := fun _ _ hid => absurd hid List.not_mem_nil

theorem strips_removeOrphanedStarts {trigger : StoredNode} (h : triggerNode wf.nodes = some trigger) :
    Strips wf (removeOrphanedStarts trigger wf) (orphanedStarts trigger wf) := by
  have horphaned : ∀ id ∈ orphanedStarts trigger wf, ∃ s ∈ wf.nodes, isOrphanedStart wf.edges trigger s = true ∧ s.id = id := by
    intro id hid
    obtain ⟨s, hs, rfl⟩ := List.mem_map.mp hid
    obtain ⟨hs, hs'⟩ := List.mem_filter.mp hs
    exact ⟨s, hs, hs', rfl⟩
  refine ⟨rfl, rfl, rfl, ?_, ?_⟩
  · intro id hid
    obtain ⟨s, hs, hs', rfl⟩ := horphaned id hid
    exact ⟨s, hs, (Bool.and_eq_true_iff.mp hs').1, rfl⟩
  · intro e he hid
    obtain ⟨s, hs, hs', hsource⟩ := horphaned e.source hid
    refine ⟨trigger, h, ?_⟩
    have hmem : e ∈ wf.edges.filter (·.source = s.id) := List.mem_filter.mpr ⟨he, decide_eq_true hsource.symm⟩
    have hedge := (Bool.and_eq_true_iff.mp hs').2
    split at hedge
    next hnil =>
      rw [hnil] at hmem
      cases hmem
    next e' hone =>
      rw [hone, List.mem_singleton] at hmem
      exact hmem ▸ of_decide_eq_true hedge
    next => cases hedge

theorem strips_v5ToV6 (wf : StoredWorkflow) : ∃ removed, Strips wf (migrateV5ToV6 wf) removed := by
  unfold migrateV5ToV6
  split
  next => exact ⟨[], strips_of_same rfl rfl rfl⟩
  next =>
    split
    next => exact ⟨[], strips_of_same rfl rfl rfl⟩
    next trigger htrigger => exact ⟨_, strips_removeOrphanedStarts htrigger⟩

theorem Strips.not_mem (h : Strips wf wf' removed) (hids : (wf.nodes.map StoredNode.id).Nodup) {n : StoredNode}
    (hn : n ∈ wf.nodes) (hstart : n.isStart = false) : n.id ∉ removed := by
  intro hmem
  obtain ⟨s, hs, hsstart, hid⟩ := h.starts n.id hmem
  rw [List.inj_on_of_nodup_map hids hs hn hid, hstart] at hsstart
  cases hsstart

theorem Strips.mem_ids (h : Strips wf wf' removed) {id : String} :
    id ∈ wf'.nodes.map StoredNode.id ↔ id ∈ wf.nodes.map StoredNode.id ∧ id ∉ removed := by
  rw [h.nodes, List.mem_map, List.mem_map]
  constructor
  · rintro ⟨n, hn, rfl⟩
    obtain ⟨hn, hkept⟩ := List.mem_filter.mp hn
    exact ⟨⟨n, hn, rfl⟩, of_decide_eq_true hkept⟩
  · rintro ⟨⟨n, hn, rfl⟩, hkept⟩
    exact ⟨n, List.mem_filter.mpr ⟨hn, decide_eq_true hkept⟩, rfl⟩

theorem Strips.mem_edges (h : Strips wf wf' removed) {e : StoredEdge} :
    e ∈ wf'.edges ↔ e ∈ wf.edges ∧ e.source ∉ removed ∧ e.target ∉ removed := by
  rw [h.edges, List.mem_filter, decide_eq_true_eq]

/-- The nodes, the edges and the services are the same. -/
structure SameGraph (wf wf' : StoredWorkflow) : Prop where
  nodes : wf'.nodes = wf.nodes
  edges : wf'.edges = wf.edges
  registry : wf'.registry = wf.registry

theorem SameGraph.strips (h : SameGraph wf wf') (hstrips : Strips wf' wf'' removed) : Strips wf wf'' removed := by
  obtain ⟨hnodes, hedges, hregistry, hstarts, hleads⟩ := hstrips
  rw [h.nodes] at hnodes hstarts hleads
  rw [h.edges] at hedges hleads
  exact ⟨hnodes, hedges, hregistry.trans h.registry, hstarts, hleads⟩

theorem v3ToV4_cases (uuid : Uuid) (wf : StoredWorkflow) : SameGraph wf (migrateV3ToV4 uuid wf) ∨
    (∀ n ∈ wf.nodes, n.isStart = false) ∧ migrateV3ToV4 uuid wf = insertStart uuid wf := by
  unfold migrateV3ToV4
  split
  next => exact Or.inl ⟨rfl, rfl, rfl⟩
  next =>
    split
    next => exact Or.inl ⟨rfl, rfl, rfl⟩
    next hnone =>
      refine Or.inr ⟨fun n hn => ?_, rfl⟩
      rw [Bool.eq_false_iff]
      exact fun hstart => hnone (Or.inl (List.any_eq_true.mpr ⟨n, hn, hstart⟩))

theorem sameGraph_v4ToV5 : SameGraph wf (migrateV4ToV5 wf) := by
  unfold migrateV4ToV5
  split
  next => exact ⟨rfl, rfl, rfl⟩
  next => exact ⟨rfl, rfl, rfl⟩

end

/-! ## Which nodes are regrouped -/

namespace StoredWorkflow

/-- The nodes that are bound to a service. -/
def sharers (wf : StoredWorkflow) (svcId : String) : List (String × HttpNodeData) :=
  wf.httpNodes.filter fun n => given n.2.serviceId = some svcId

/-- The nodes of a service are to be regrouped: they disagree, and no microservice keeps them
together. -/
def Splits (wf : StoredWorkflow) (parseUrl : String → Option ParsedUrl) (svcId : String) : Prop :=
  ((wf.registry.find? (·.id = svcId)).bind fun svc => given svc.microserviceId) = none ∧
    ∃ x ∈ wf.sharers svcId, ∃ y ∈ wf.sharers svcId, originKey parseUrl x.2 ≠ originKey parseUrl y.2

def Regroups (wf : StoredWorkflow) (parseUrl : String → Option ParsedUrl) (data : HttpNodeData) : Prop :=
  given data.serviceId = none ∨ ∃ svcId, given data.serviceId = some svcId ∧ wf.Splits parseUrl svcId

end StoredWorkflow

section
variable {parseUrl : String → Option ParsedUrl} {uuid : Uuid} {wf : StoredWorkflow} {svcId id : String}
  {nodes : List (String × HttpNodeData)} {data : HttpNodeData}

theorem mem_httpNodes : (id, data) ∈ wf.httpNodes ↔ ∃ n ∈ wf.nodes, n.data? = some data ∧ n.id = id := by
  unfold StoredWorkflow.httpNodes
  rw [List.mem_filterMap]
  constructor
  · rintro ⟨n, hn, hmap⟩
    obtain ⟨data', hdata, heq⟩ := Option.map_eq_some_iff.mp hmap
    obtain ⟨rfl, rfl⟩ := Prod.mk.inj heq
    exact ⟨n, hn, hdata, rfl⟩
  · rintro ⟨n, hn, hdata, rfl⟩
    exact ⟨n, hn, by rw [hdata]; rfl⟩

theorem nodeData_of_mem (hids : (wf.nodes.map StoredNode.id).Nodup) (h : (id, data) ∈ wf.httpNodes) :
    nodeData wf.nodes id = some data := by
  obtain ⟨n, hn, hdata, rfl⟩ := mem_httpNodes.mp h
  unfold nodeData
  rw [find?_of_mem hids hn]
  exact hdata

theorem isOverGrouped_iff {services : List WorkflowService} : isOverGrouped parseUrl services svcId nodes = true ↔
    ((services.find? (·.id = svcId)).bind fun svc => given svc.microserviceId) = none ∧
      ∃ x ∈ nodes, ∃ y ∈ nodes, originKey parseUrl x.2 ≠ originKey parseUrl y.2 := by
  have hsize : 1 < (groupsOf (fun n => originKey parseUrl n.2) nodes).size ↔
      ∃ x ∈ nodes, ∃ y ∈ nodes, originKey parseUrl x.2 ≠ originKey parseUrl y.2 := by
    rw [← not_le, size_groupsOf_le_one]
    push Not
    rfl
  unfold isOverGrouped
  rw [Bool.and_eq_true, Bool.and_eq_true, decide_eq_true_eq, decide_eq_true_eq, Option.isNone_iff_eq_none, hsize]
  constructor
  · rintro ⟨⟨-, hnone⟩, hsplit⟩
    exact ⟨hnone, hsplit⟩
  · rintro ⟨hnone, x, hx, y, hy, hne⟩
    refine ⟨⟨?_, hnone⟩, x, hx, y, hy, hne⟩
    match nodes, hx, hy with
    | [z], hx, hy => exact absurd (by rw [List.mem_singleton.mp hx, List.mem_singleton.mp hy]) hne
    | _ :: _ :: _, _, _ => exact Nat.succ_lt_succ (Nat.succ_pos _)

theorem mem_overGrouped : ⟨svcId, nodes⟩ ∈ overGrouped parseUrl wf ↔
    nodes = wf.sharers svcId ∧ wf.Splits parseUrl svcId := by
  have hsharers : (wf.httpNodes.filter fun n => given n.2.serviceId ≠ none).filter
      (fun n => n.2.serviceId.getD "" = svcId) = wf.sharers svcId := by
    unfold StoredWorkflow.sharers
    rw [List.filter_filter]
    refine List.filter_congr fun n _ => ?_
    rw [← Bool.decide_and, decide_eq_decide]
    constructor
    · rintro ⟨hget, hne⟩
      obtain ⟨s, hs⟩ := Option.ne_none_iff_exists'.mp hne
      rw [(given_eq_some.mp hs).1] at hget
      rw [hs, ← hget]
      rfl
    · intro hgiven
      exact ⟨by rw [(given_eq_some.mp hgiven).1]; rfl, by rw [hgiven]; exact nofun⟩
  unfold overGrouped serviceNodeMap
  rw [List.mem_filter, mem_groupsOf, hsharers, isOverGrouped_iff]
  constructor
  · rintro ⟨⟨rfl, -⟩, hsplit⟩
    exact ⟨rfl, hsplit⟩
  · rintro ⟨rfl, hsplit⟩
    obtain ⟨x, hx, -⟩ := hsplit.2
    exact ⟨⟨rfl, List.ne_nil_of_mem hx⟩, hsplit⟩

theorem mem_servicesToRemove : svcId ∈ servicesToRemove parseUrl wf ↔ wf.Splits parseUrl svcId := by
  unfold servicesToRemove
  rw [List.mem_map]
  constructor
  · rintro ⟨⟨svcId', nodes⟩, he, rfl⟩
    exact (mem_overGrouped.mp he).2
  · intro h
    exact ⟨⟨svcId, wf.sharers svcId⟩, mem_overGrouped.mpr ⟨rfl, h⟩, rfl⟩

theorem mem_nodesToRegroup : id ∈ nodesToRegroup parseUrl wf ↔
    ∃ data, (id, data) ∈ wf.httpNodes ∧ wf.Regroups parseUrl data := by
  unfold nodesToRegroup
  rw [List.mem_eraseDups, List.mem_append, List.mem_flatMap]
  constructor
  · rintro (⟨⟨svcId, nodes⟩, he, hid⟩ | hid)
    · obtain ⟨rfl, hsplit⟩ := mem_overGrouped.mp he
      obtain ⟨⟨_, data⟩, hn, rfl⟩ := List.mem_map.mp hid
      obtain ⟨hn, hgiven⟩ := List.mem_filter.mp hn
      exact ⟨data, hn, Or.inr ⟨svcId, of_decide_eq_true hgiven, hsplit⟩⟩
    · obtain ⟨⟨_, data⟩, hn, rfl⟩ := List.mem_map.mp hid
      obtain ⟨hn, hgiven⟩ := List.mem_filter.mp hn
      exact ⟨data, hn, Or.inl (of_decide_eq_true hgiven)⟩
  · rintro ⟨data, hn, hnone | ⟨svcId, hgiven, hsplit⟩⟩
    · exact Or.inr (List.mem_map.mpr ⟨_, List.mem_filter.mpr ⟨hn, decide_eq_true hnone⟩, rfl⟩)
    · refine Or.inl ⟨⟨svcId, wf.sharers svcId⟩, mem_overGrouped.mpr ⟨rfl, hsplit⟩, ?_⟩
      exact List.mem_map.mpr ⟨_, List.mem_filter.mpr ⟨hn, decide_eq_true hgiven⟩, rfl⟩

theorem mem_regrouped (hids : (wf.nodes.map StoredNode.id).Nodup) : (id, data) ∈ regrouped parseUrl wf ↔
    (id, data) ∈ wf.httpNodes ∧ wf.Regroups parseUrl data := by
  unfold regrouped
  rw [List.mem_filterMap]
  constructor
  · rintro ⟨id', hid', hmap⟩
    obtain ⟨data', hdata, heq⟩ := Option.map_eq_some_iff.mp hmap
    obtain ⟨rfl, rfl⟩ := Prod.mk.inj heq
    obtain ⟨data'', hn, hregroup⟩ := mem_nodesToRegroup.mp hid'
    obtain rfl : data'' = data' := Option.some.inj ((nodeData_of_mem hids hn).symm.trans hdata)
    exact ⟨hn, hregroup⟩
  · rintro ⟨hn, hregroup⟩
    exact ⟨id, mem_nodesToRegroup.mpr ⟨data, hn, hregroup⟩, by rw [nodeData_of_mem hids hn]; rfl⟩

/-- What the regrouping leaves: the services without those split, then the `news`, one for
each key of the nodes regrouped. -/
structure FixedUp (parseUrl : String → Option ParsedUrl) (wf wf' : StoredWorkflow) (news : List WorkflowService)
    (serviceOf : String → Option String) : Prop where
  registry : wf'.registry = wf.registry.filter (·.id ∉ servicesToRemove parseUrl wf) ++ news
  services : wf.services.isSome → wf'.services.isSome
  nodes : wf'.nodes = wf.nodes.map fun n => n.withService (serviceOf n.id)
  rest : { wf' with services := wf.services, nodes := wf.nodes } = wf
  fresh : ∀ s ∈ news, s.id ∉ wf.ids ∧ s.id ≠ ""
  nodup : (news.map WorkflowService.id).Nodup
  assigned : ∀ {id svcId}, serviceOf id = some svcId → svcId ∈ news.map WorkflowService.id
  total : ∀ {id data}, (id, data) ∈ wf.httpNodes → wf.Regroups parseUrl data → (serviceOf id).isSome
  made : ∀ s ∈ news, ∃ name first, s = (regroupDraft parseUrl name first).service s.id ∧
    ∀ id, serviceOf id = some s.id → ∃ data, (id, data) ∈ wf.httpNodes ∧ wf.Regroups parseUrl data ∧
      regroupKey parseUrl data = regroupKey parseUrl first

theorem fixedUp (hids : (wf.nodes.map StoredNode.id).Nodup) :
    ∃ news serviceOf, FixedUp parseUrl wf (fixupOverGroupedServices parseUrl uuid wf) news serviceOf := by
  unfold fixupOverGroupedServices
  split
  next hempty =>
    have hnone : ∀ id data, (id, data) ∈ wf.httpNodes → ¬ wf.Regroups parseUrl data := by
      intro id data hn hregroup
      have hmem : id ∈ nodesToRegroup parseUrl wf := mem_nodesToRegroup.mpr ⟨data, hn, hregroup⟩
      rw [hempty] at hmem
      cases hmem
    refine ⟨[], fun _ => none, ?_, id, ?_, rfl, fun _ hs => absurd hs List.not_mem_nil, List.nodup_nil, nofun, ?_,
      fun _ hs => absurd hs List.not_mem_nil⟩
    · rw [List.append_nil]
      refine (List.filter_eq_self.mpr ?_).symm
      intro s _
      refine decide_eq_true fun hmem => ?_
      obtain ⟨⟨id, data⟩, hx, -⟩ := (mem_servicesToRemove.mp hmem).2
      obtain ⟨hn, hgiven⟩ := List.mem_filter.mp hx
      exact hnone id data hn (Or.inr ⟨s.id, of_decide_eq_true hgiven, mem_servicesToRemove.mp hmem⟩)
    · exact ((List.map_congr_left fun n _ => StoredNode.withService_none).trans (List.map_id _)).symm
    · intro id data hn hregroup
      exact absurd hregroup (hnone id data hn)
  next =>
    obtain ⟨news, hext, hof, hall⟩ := assignGroups_spec uuid wf.ids wf.nodes (regroupDraft parseUrl)
      (groupsOf (fun n => regroupKey parseUrl n.2) (regrouped parseUrl wf))
      (wf.registry.filter (·.id ∉ servicesToRemove parseUrl wf))
    dsimp only
    generalize assignGroups uuid wf.ids wf.nodes (regroupDraft parseUrl) _ _ = assigned at hext hof hall ⊢
    refine ⟨news, fun id => assigned.serviceOf.lookup id, hext.services, fun _ => rfl, rfl, rfl, hext.fresh, hext.nodup,
      hext.assigned, ?_, ?_⟩
    · intro id data hn hregroup
      have hmem := (mem_regrouped hids).mpr ⟨hn, hregroup⟩
      refine hall _ (InsertionMap.mem_values.mpr ⟨regroupKey parseUrl data, InsertionMap.mem_entries.mp
        (mem_groupsOf.mpr ⟨rfl, ?_⟩)⟩) (id, data) ?_
      · exact List.ne_nil_of_mem (List.mem_filter.mpr ⟨hmem, decide_eq_true rfl⟩)
      · exact List.mem_filter.mpr ⟨hmem, decide_eq_true rfl⟩
    · intro s hs
      obtain ⟨group, hgroup, ⟨first, name, hhead, hmade⟩, honly⟩ := hof s hs
      obtain ⟨key, hkey⟩ := InsertionMap.mem_values.mp hgroup
      obtain ⟨rfl, -⟩ := mem_groupsOf.mp (InsertionMap.mem_entries.mpr hkey)
      have hfirst : regroupKey parseUrl first.2 = key :=
        of_decide_eq_true (List.mem_filter.mp (List.mem_of_mem_head? hhead)).2
      refine ⟨name, first.2, hmade, ?_⟩
      intro id hid
      obtain ⟨⟨_, data⟩, hx, rfl⟩ := List.mem_map.mp (honly id hid)
      obtain ⟨hx, hdata⟩ := List.mem_filter.mp hx
      obtain ⟨hn, hregroup⟩ := (mem_regrouped hids).mp hx
      exact ⟨data, hn, hregroup, (of_decide_eq_true hdata).trans hfirst.symm⟩

end

end RedFireForge.Workflow
