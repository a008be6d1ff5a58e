/-
# `RedFireForge.Workflow.Migrations` — bringing a stored workflow to the current schema

Every load runs the version steps that a workflow still lacks, turns the older URL fields of
its services into endpoints, and then regroups: a service whose nodes do not agree on an
origin is split, and a node without a service gets one.
-/
import RedFireForge.Lib.Grouping
import RedFireForge.Workflow.HostResolve

namespace RedFireForge.Workflow

open RedFireForge.Lib

/-! ## Origins and names -/

/-- What `new URL(..)` gives, as far as it is read. -/
structure ParsedUrl where
  protocol : String
  host : String
deriving DecidableEq, Repr

/-- `/^https?:\/\//i`: the scheme and the rest. -/
def splitScheme (cs : List Char) : Option (List Char × List Char) :=
  if (cs.take 8).map Char.toLower = "https://".toList then some (cs.splitAt 8)
  else if (cs.take 7).map Char.toLower = "http://".toList then some (cs.splitAt 7)
  else none

section
variable (parseUrl : String → Option ParsedUrl)

def extractUrlOrigin (url : String) : Option String :=
  let trimmed := trimText url
  if url = "" ∨ trimmed.toList.take 2 = ['{', '{'] then none
  else
    (splitScheme trimmed.toList).bind fun parts =>
      match parseUrl trimmed with
      | some parsed => some (parsed.protocol ++ "//" ++ parsed.host)
      | none =>
          let host := parts.2.takeWhile fun c => c ∉ ['/', '?', '#']
          if host = [] then none else some (String.ofList (parts.1 ++ host))

end

/-- `[A-Z0-9_]` -/
def isCodeChar (c : Char) : Bool := c.isUpper || c.isDigit || c == '_'

/-- `/^\s*-\s*[A-Z0-9_]+\.{0,3}$/` -/
def isCodeTail (cs : List Char) : Bool :=
  match cs.dropWhile ApiMock.isSpace with
  | '-' :: r =>
      let word := r.dropWhile ApiMock.isSpace
      let dots := word.dropWhile isCodeChar
      word.takeWhile isCodeChar ≠ [] && dots.all (· == '.') && dots.length ≤ 3
  | _ => false

/-- The text up to the first place where such a tail starts. -/
def cutCodeTail : List Char → List Char
  | [] => []
  | c :: cs => if isCodeTail (c :: cs) then [] else c :: cutCodeTail cs

def deriveServiceNameFromLabel (label : String) : String :=
  let cleaned := trimText (String.ofList (cutCodeTail label.toList))
  if cleaned = "" then label else cleaned

def sharedStart : List Char → List Char → List Char
  | c :: cs, d :: ds => if c = d then c :: sharedStart cs ds else []
  | _, _ => []

/-- `[\s\-–—:,]` -/
def isSeparator (c : Char) : Bool := ApiMock.isSpace c || decide (c.toNat ∈ [0x2D, 0x2013, 0x2014, 0x3A, 0x2C])

def commonLabelPrefix : List String → String
  | [] => ""
  | [label] => deriveServiceNameFromLabel label
  | label :: labels =>
      let shared := labels.foldl (fun cs l => sharedStart cs l.toList) label.toList
      let name := trimText (String.ofList (shared.rdropWhile isSeparator))
      if name = "" then deriveServiceNameFromLabel label else name

/-! ## Stored workflows -/

structure WorkflowAuthProfile where
  id : String
  name : String
  auth : Json
deriving DecidableEq, Repr

inductive NodeBody
  | http (data : HttpNodeData)
  | start (data : Json)
  | webhook (data : Json)
  | schedule (data : Json)
  | other (type : String) (data : Json)
deriving DecidableEq, Repr

structure StoredNode where
  id : String
  position : ℚ × ℚ
  body : NodeBody
deriving DecidableEq, Repr

structure StoredEdge where
  id : String
  source : String
  sourceHandle : Option String
  target : String
  targetHandle : Option String
deriving DecidableEq, Repr

structure StoredWorkflow where
  schemaVersion : Option ℤ
  nodes : List StoredNode
  edges : List StoredEdge
  hostProfiles : Option (List WorkflowHostProfile)
  authProfiles : Option (List WorkflowAuthProfile)
  services : Option (List WorkflowService)
deriving DecidableEq, Repr

namespace StoredNode

/-- `type === 'http'`, and its data. -/
def data? (n : StoredNode) : Option HttpNodeData :=
  match n.body with
  | .http data => some data
  | _ => none

def isStart (n : StoredNode) : Bool :=
  match n.body with
  | .start _ => true
  | _ => false

def isWebhook (n : StoredNode) : Bool :=
  match n.body with
  | .webhook _ => true
  | _ => false

def isSchedule (n : StoredNode) : Bool :=
  match n.body with
  | .schedule _ => true
  | _ => false

def mapData (f : HttpNodeData → HttpNodeData) (n : StoredNode) : StoredNode :=
  match n.body with
  | .http data => { n with body := .http (f data) }
  | _ => n

/-- `{ ...data, serviceId }`, when there is an id to set. -/
def withService (svcId : Option String) (n : StoredNode) : StoredNode :=
  n.mapData fun data => { data with serviceId := (given svcId).or data.serviceId }

end StoredNode

namespace StoredWorkflow

def version (wf : StoredWorkflow) : ℤ := wf.schemaVersion.getD 1

def hosts (wf : StoredWorkflow) : List WorkflowHostProfile := wf.hostProfiles.getD []

def auths (wf : StoredWorkflow) : List WorkflowAuthProfile := wf.authProfiles.getD []

def registry (wf : StoredWorkflow) : List WorkflowService := wf.services.getD []

/-- The HTTP nodes, each with its id. -/
def httpNodes (wf : StoredWorkflow) : List (String × HttpNodeData) :=
  wf.nodes.filterMap fun n => n.data?.map (n.id, ·)

/-- Every id in the workflow. -/
def ids (wf : StoredWorkflow) : List String :=
  wf.nodes.map StoredNode.id ++ wf.edges.map StoredEdge.id ++ wf.hosts.map WorkflowHostProfile.id ++
    wf.auths.map WorkflowAuthProfile.id ++ wf.registry.map WorkflowService.id ++
      wf.httpNodes.filterMap fun n => n.2.serviceId

end StoredWorkflow

/-- `uuidv4()`: an id that is not in use, whatever is put before it. -/
structure Uuid where
  next : List String → String
  fresh : ∀ (head : String) (used : List String), head ++ next used ∉ used

/-! ## v1 → v2 -/

/-- `auth && auth.type !== 'none' && auth.type !== 'inherit'` -/
def ownAuth (auth : Option Json) : Option Json :=
  auth.filter fun a =>
    match a with
    | .obj fields => List.lookup "type" fields ∉ [some (Json.str "none"), some (Json.str "inherit")]
    | _ => true

def hostKey (hostBaseUrl hostEnvironmentId hostMicroserviceId : Option String) : String × String × String :=
  ((hostBaseUrl.map trimText).getD "", hostEnvironmentId.getD "", hostMicroserviceId.getD "")

structure ProfileTables where
  hostProfiles : List WorkflowHostProfile
  authProfiles : List WorkflowAuthProfile
  hostByKey : InsertionMap (String × String × String) String
  /-- by `JSON.stringify(auth)` -/
  authByKey : InsertionMap String String

def ProfileTables.of (hostProfiles : List WorkflowHostProfile) (authProfiles : List WorkflowAuthProfile) :
    ProfileTables where
  hostProfiles := hostProfiles
  authProfiles := authProfiles
  hostByKey := hostProfiles.foldl
    (fun m hp => m.set (hostKey hp.hostBaseUrl hp.hostEnvironmentId hp.hostMicroserviceId) hp.id) ∅
  authByKey := authProfiles.foldl (fun m ap => m.set ap.auth.stringify ap.id) ∅

section
variable (uuid : Uuid) (used : List String)

def profileHost (t : ProfileTables) (data : HttpNodeData) : ProfileTables × HttpNodeData :=
  if given data.hostProfileId = none ∧ (given data.hostBaseUrl ≠ none ∨
      given data.hostEnvironmentId ≠ none ∧ given data.hostMicroserviceId ≠ none) then
    let key := hostKey data.hostBaseUrl data.hostEnvironmentId data.hostMicroserviceId
    match given (t.hostByKey.lookup key) with
    | some id => (t, { data with hostProfileId := some id })
    | none =>
        let id := "host_" ++ uuid.next (used ++ t.hostProfiles.map WorkflowHostProfile.id)
        let name := if data.label = "" then "Host " ++ toString (t.hostProfiles.length + 1) else data.label ++ " host"
        ({ t with
            hostProfiles := t.hostProfiles ++
              [⟨id, name, data.hostBaseUrl, data.hostEnvironmentId, data.hostMicroserviceId⟩]
            hostByKey := t.hostByKey.set key id },
          { data with hostProfileId := some id })
  else (t, data)

def profileAuth (t : ProfileTables) (data : HttpNodeData) : ProfileTables × HttpNodeData :=
  match given data.authProfileId, ownAuth data.auth with
  | none, some auth =>
      match given (t.authByKey.lookup auth.stringify) with
      | some id => (t, { data with authProfileId := some id })
      | none =>
          let id := "auth_" ++ uuid.next (used ++ t.authProfiles.map WorkflowAuthProfile.id)
          let name := if data.label = "" then "Auth " ++ toString (t.authProfiles.length + 1) else data.label ++ " auth"
          ({ t with
              authProfiles := t.authProfiles ++ [⟨id, name, auth⟩]
              authByKey := t.authByKey.set auth.stringify id },
            { data with authProfileId := some id })
  | _, _ => (t, data)

/-- `base.nodes.map(..)`, which adds to the tables on its way. -/
def profileNodes : ProfileTables → List StoredNode → ProfileTables × List StoredNode
  | t, [] => (t, [])
  | t, n :: ns =>
      match n.body with
      | .http data =>
          let hosted := profileHost uuid used t data
          let authed := profileAuth uuid used hosted.1 hosted.2
          let rest := profileNodes authed.1 ns
          (rest.1, { n with body := .http authed.2 } :: rest.2)
      | _ =>
          let rest := profileNodes t ns
          (rest.1, n :: rest.2)

end

def migrateV1ToV2 (uuid : Uuid) (wf : StoredWorkflow) : StoredWorkflow :=
  let base := { wf with hostProfiles := some wf.hosts, authProfiles := some wf.auths }
  if wf.version ≥ 2 then base
  else
    let profiled := profileNodes uuid wf.ids (ProfileTables.of wf.hosts wf.auths) wf.nodes
    { base with
      nodes := profiled.2
      hostProfiles := some profiled.1.hostProfiles
      authProfiles := some profiled.1.authProfiles
      schemaVersion := some 2 }

/-! ## New services -/

/-- A service that a migration is about to add. -/
structure ServiceDraft where
  name : String
  urlMode : WorkflowServiceUrlMode
  directUrl : Option String
  microserviceId : Option String
  auth : Option Json

def directEndpoint (url : String) : ServiceEndpoint where
  envId := "__all__"
  url := url
  enabled := true
  authMode := .inherit
  auth := none
  source := .manual

def ServiceDraft.service (draft : ServiceDraft) (id : String) : WorkflowService where
  id := id
  name := draft.name
  endpoints := draft.directUrl.toList.map directEndpoint
  defaultAuth := draft.auth
  microserviceId := draft.microserviceId
  urlMode := some draft.urlMode
  directUrl := draft.directUrl
  baseUrls := none
  adhocUrl := none
  auth := draft.auth
  authPerEnv := none

/-- The services so far, and the service that each profile or node gets. -/
structure Assigned where
  services : List WorkflowService
  serviceOf : InsertionMap String String

/-- Add a service for the profiles or nodes with the ids `keys`. -/
def Assigned.add (uuid : Uuid) (used : List String) (r : Assigned) (keys : List String)
    (draft : ServiceDraft) : Assigned :=
  let id := "svc_" ++ uuid.next (used ++ r.services.map WorkflowService.id)
  { services := r.services ++ [draft.service id]
    serviceOf := keys.foldl (fun m key => m.set key id) r.serviceOf }

def labelOf (data : HttpNodeData) : String := if data.label = "" then "HTTP Request" else data.label

/-- `nodes.find((x) => x.id === id)`, of the HTTP nodes. -/
def nodeData (nodes : List StoredNode) (id : String) : Option HttpNodeData :=
  (nodes.find? (·.id = id)).bind StoredNode.data?

/-- The name for the service of a group of nodes. -/
def groupName (nodes : List StoredNode) (nodeIds : List String) : String :=
  commonLabelPrefix (nodeIds.map fun id => ((nodeData nodes id).map labelOf).getD "HTTP Request")

/-! ## v2 → v3 -/

/-- The first auth profile that a node pairs with each host profile. -/
def nodeAuthMap (nodes : List StoredNode) : InsertionMap String String :=
  nodes.foldl (fun m n =>
    match n.data?.bind fun d => given d.hostProfileId, n.data?.bind fun d => given d.authProfileId with
    | some host, some auth => if (m.lookup host).isSome then m else m.set host auth
    | _, _ => m) ∅

def profileDraft (hp : WorkflowHostProfile) (auth : Option Json) (count : ℕ) : ServiceDraft :=
  let name := if hp.name = "" then "Service " ++ toString (count + 1) else hp.name
  match nonBlank hp.hostBaseUrl, given hp.hostEnvironmentId, given hp.hostMicroserviceId with
  | some url, _, _ => ⟨name, .direct, some (trimText url), none, auth⟩
  | none, some _, some ms => ⟨name, .multiEnv, none, some ms, auth⟩
  | none, _, _ => ⟨name, .direct, none, none, auth⟩

/-- Phase 1: a service for each host profile. -/
def convertProfiles (uuid : Uuid) (wf : StoredWorkflow) : Assigned :=
  wf.hosts.foldl (fun r hp =>
    let paired := (given ((nodeAuthMap wf.nodes).lookup hp.id)).bind fun id =>
      (wf.auths.find? (·.id = id)).map WorkflowAuthProfile.auth
    r.add uuid wf.ids [hp.id] (profileDraft hp paired r.services.length)) ⟨wf.registry, ∅⟩

/-- Set the service of a node that has none. -/
def assignMissing (serviceOf : StoredNode → HttpNodeData → Option String) (n : StoredNode) : StoredNode :=
  match n.data? with
  | some data => if given data.serviceId = none then n.withService (serviceOf n data) else n
  | none => n

section
variable (parseUrl : String → Option ParsedUrl)

structure OrphanSource where
  origin : Option String
  microserviceId : Option String
  hostBaseUrl : Option String

/-- Where the URL of a node without a service comes from, and the key to group it by. -/
def orphanSource (data : HttpNodeData) : String × OrphanSource :=
  match nonBlank data.hostBaseUrl, given data.hostEnvironmentId, given data.hostMicroserviceId with
  | some url, _, _ => ("host:" ++ trimText url, ⟨none, none, some (trimText url)⟩)
  | none, some _, some ms => ("ms:" ++ ms, ⟨none, some ms, none⟩)
  | none, _, _ =>
      match extractUrlOrigin parseUrl data.url with
      | some origin => ("origin:" ++ origin, ⟨some origin, none, none⟩)
      | none => ("label:" ++ deriveServiceNameFromLabel (labelOf data), ⟨none, none, none⟩)

def orphanDraft (name : String) (data : HttpNodeData) : ServiceDraft :=
  let source := (orphanSource parseUrl data).2
  match source.hostBaseUrl, source.microserviceId, source.origin with
  | some url, _, _ => ⟨name, .direct, some url, none, ownAuth data.auth⟩
  | none, some ms, _ => ⟨name, .multiEnv, none, some ms, ownAuth data.auth⟩
  | none, none, origin => ⟨name, .direct, origin, none, ownAuth data.auth⟩

/-- Add a service for each group of nodes; what it is like is read from the group's first. -/
def assignGroups (uuid : Uuid) (used : List String) (nodes : List StoredNode)
    (draft : String → HttpNodeData → ServiceDraft)
    (groups : InsertionMap String (List (String × HttpNodeData))) (r : Assigned) : Assigned :=
  groups.values.foldl (fun r group =>
    match group with
    | [] => r
    | first :: _ =>
        let nodeIds := group.map Prod.fst
        r.add uuid used nodeIds (draft (groupName nodes nodeIds) first.2)) r

/-- The phases: services for the host profiles, for the nodes that use one, and for groups of
the nodes left. -/
def profilesToServices (uuid : Uuid) (wf : StoredWorkflow) : StoredWorkflow :=
  let profiles := convertProfiles uuid wf
  let phase2 := { wf with
    nodes := wf.nodes.map (assignMissing fun _ data =>
      (given data.hostProfileId).bind fun id => profiles.serviceOf.lookup id) }
  let orphans := phase2.httpNodes.filter fun n => given n.2.serviceId = none
  let assigned := assignGroups uuid wf.ids phase2.nodes (orphanDraft parseUrl)
    (groupsOf (fun n => (orphanSource parseUrl n.2).1) orphans) ⟨profiles.services, ∅⟩
  { wf with
    nodes := phase2.nodes.map (assignMissing fun n _ => assigned.serviceOf.lookup n.id)
    services := some assigned.services
    schemaVersion := some 3 }

def migrateV2ToV3 (uuid : Uuid) (wf : StoredWorkflow) : StoredWorkflow :=
  if wf.version ≥ 3 then wf
  else profilesToServices parseUrl uuid (if wf.version < 2 then migrateV1ToV2 uuid wf else wf)

end

/-! ## v3 → v6 -/

/-- A new Start node, before all others, with an edge to each root. -/
def insertStart (uuid : Uuid) (wf : StoredWorkflow) : StoredWorkflow :=
  let startId := uuid.next wf.ids
  let start : StoredNode := ⟨startId, (250, 0), .start (.obj [("label", .str "Start"), ("inputVariables", .obj [])])⟩
  let targets := wf.edges.map StoredEdge.target
  let rootNodes := wf.nodes.filter (·.id ∉ targets)
  let newEdges := rootNodes.map fun root : StoredNode =>
    (⟨"e-" ++ startId ++ "-" ++ root.id, startId, some "out", root.id, none⟩ : StoredEdge)
  let shifted := wf.nodes.map fun n => { n with position := (n.position.1, n.position.2 + 100) }
  { wf with schemaVersion := some 4, nodes := start :: shifted, edges := wf.edges ++ newEdges }

def migrateV3ToV4 (uuid : Uuid) (wf : StoredWorkflow) : StoredWorkflow :=
  if wf.version ≥ 4 then wf
  else if wf.nodes.any StoredNode.isStart ∨ wf.nodes = [] then { wf with schemaVersion := some 4 }
  else insertStart uuid wf

def migrateV4ToV5 (wf : StoredWorkflow) : StoredWorkflow :=
  if wf.version ≥ 5 then wf else { wf with schemaVersion := some 5 }

/-- `webhookNode || scheduleNode` -/
def triggerNode (nodes : List StoredNode) : Option StoredNode :=
  (nodes.find? StoredNode.isWebhook).or (nodes.find? StoredNode.isSchedule)

/-- A Start node with no edge, or with one edge, to the trigger. -/
def isOrphanedStart (edges : List StoredEdge) (trigger : StoredNode) (n : StoredNode) : Bool :=
  n.isStart &&
    match edges.filter (·.source = n.id) with
    | [] => true
    | [e] => e.target = trigger.id
    | _ => false

/-- `startNodesToRemove` -/
def orphanedStarts (trigger : StoredNode) (wf : StoredWorkflow) : List String :=
  (wf.nodes.filter (isOrphanedStart wf.edges trigger)).map StoredNode.id

def removeOrphanedStarts (trigger : StoredNode) (wf : StoredWorkflow) : StoredWorkflow :=
  let removed := orphanedStarts trigger wf
  { wf with
    schemaVersion := some 6
    nodes := wf.nodes.filter (·.id ∉ removed)
    edges := wf.edges.filter fun e => e.source ∉ removed ∧ e.target ∉ removed }

def migrateV5ToV6 (wf : StoredWorkflow) : StoredWorkflow :=
  if wf.version ≥ 6 then wf
  else
    match triggerNode wf.nodes with
    | none => { wf with schemaVersion := some 6 }
    | some trigger => removeOrphanedStarts trigger wf

/-! ## At every load -/

/-- The URLs in the older fields of a service, by environment. -/
def legacyUrls (svc : WorkflowService) : List (String × String) :=
  (match svc.urlMode with
    | some .direct => svc.directUrl.toList.map ("__all__", ·)
    | some .adhoc => svc.adhocUrl.toList.map ("__adhoc__", ·)
    | some .multiEnv => svc.baseUrls.getD []
    | none => []).filter fun e => trimText e.2 ≠ ""

def legacyEndpoint (svc : WorkflowService) (e : String × String) : ServiceEndpoint :=
  let auth := if svc.urlMode = some .multiEnv then svc.authPerEnv.bind (List.lookup e.1) else none
  { envId := e.1
    url := trimText e.2
    enabled := true
    authMode := if auth.isSome then .custom else .inherit
    auth := auth
    source := .manual }

def convertLegacyEndpoint (svc : WorkflowService) : WorkflowService :=
  if svc.endpoints ≠ [] then svc
  else { svc with
    endpoints := (legacyUrls svc).map (legacyEndpoint svc)
    defaultAuth := svc.defaultAuth.or svc.auth }

def convertLegacyEndpoints (services : List WorkflowService) : List WorkflowService :=
  services.map convertLegacyEndpoint

section
variable (parseUrl : String → Option ParsedUrl)

/-- What the nodes of one service are compared by. -/
def originKey (data : HttpNodeData) : String :=
  (extractUrlOrigin parseUrl data.url).getD ("label:" ++ deriveServiceNameFromLabel (labelOf data))

/-- What the nodes are grouped by. -/
def regroupKey (data : HttpNodeData) : String :=
  match extractUrlOrigin parseUrl data.url with
  | some origin => "origin:" ++ origin
  | none => "label:" ++ deriveServiceNameFromLabel (labelOf data)

def regroupDraft (name : String) (data : HttpNodeData) : ServiceDraft :=
  let origin := extractUrlOrigin parseUrl data.url
  ⟨name, if origin.isSome then .direct else .multiEnv, origin, none, ownAuth data.auth⟩

/-- The nodes of a service that is to be split. -/
def isOverGrouped (services : List WorkflowService) (svcId : String) (nodes : List (String × HttpNodeData)) : Bool :=
  1 < nodes.length &&
    ((services.find? (·.id = svcId)).bind fun svc => given svc.microserviceId).isNone &&
      1 < (groupsOf (fun n => originKey parseUrl n.2) nodes).size

def serviceNodeMap (wf : StoredWorkflow) : InsertionMap String (List (String × HttpNodeData)) :=
  groupsOf (fun n => n.2.serviceId.getD "") (wf.httpNodes.filter fun n => given n.2.serviceId ≠ none)

/-- The services to split, with their nodes. -/
def overGrouped (wf : StoredWorkflow) : List ((_ : String) × List (String × HttpNodeData)) :=
  (serviceNodeMap wf).entries.filter fun e => isOverGrouped parseUrl wf.registry e.1 e.2

/-- A set, in the order of insertion. -/
def nodesToRegroup (wf : StoredWorkflow) : List String :=
  ((overGrouped parseUrl wf).flatMap (fun e => e.2.map Prod.fst) ++
    (wf.httpNodes.filter fun n => given n.2.serviceId = none).map Prod.fst).eraseDups

def servicesToRemove (wf : StoredWorkflow) : List String := (overGrouped parseUrl wf).map Sigma.fst

/-- The nodes to regroup, with their data. -/
def regrouped (wf : StoredWorkflow) : List (String × HttpNodeData) :=
  (nodesToRegroup parseUrl wf).filterMap fun id => (nodeData wf.nodes id).map (id, ·)

def fixupOverGroupedServices (uuid : Uuid) (migrated : StoredWorkflow) : StoredWorkflow :=
  if nodesToRegroup parseUrl migrated = [] then migrated
  else
    let filteredServices := migrated.registry.filter (·.id ∉ servicesToRemove parseUrl migrated)
    let groups := groupsOf (fun n => regroupKey parseUrl n.2) (regrouped parseUrl migrated)
    let assigned := assignGroups uuid migrated.ids migrated.nodes (regroupDraft parseUrl) groups ⟨filteredServices, ∅⟩
    { migrated with
      services := some assigned.services
      nodes := migrated.nodes.map fun n => n.withService (assigned.serviceOf.lookup n.id) }

/-- The version steps. -/
def migrateVersions (uuid : Uuid) (wf : StoredWorkflow) : StoredWorkflow :=
  let wf := if wf.version < 2 then migrateV1ToV2 uuid wf else wf
  let wf := if wf.version < 3 then migrateV2ToV3 parseUrl uuid wf else wf
  let wf := if wf.version < 4 then migrateV3ToV4 uuid wf else wf
  let wf := if wf.version < 5 then migrateV4ToV5 wf else wf
  if wf.version < 6 then migrateV5ToV6 wf else wf

def withEndpoints (wf : StoredWorkflow) : StoredWorkflow :=
  { wf with
    hostProfiles := some wf.hosts
    authProfiles := some wf.auths
    services := some (convertLegacyEndpoints wf.registry) }

def migrateWorkflowSchema (uuid : Uuid) (wf : StoredWorkflow) : StoredWorkflow :=
  fixupOverGroupedServices parseUrl uuid (withEndpoints (migrateVersions parseUrl uuid wf))

end

end RedFireForge.Workflow
