/-
# `RedFireForge.Workflow.HostResolve` — the base URL of an HTTP node

A node is bound to a service of its workflow, or has a host of its own.  A service lists its
URLs as endpoints for environments; one from before the endpoints has them in older fields,
and one linked to a microservice takes them from there.
-/
import RedFireForge.ApiMock.JsonPath

namespace RedFireForge.Workflow

open RedFireForge.Lib

/-! ## Texts -/

def trimText (s : String) : String := String.ofList (ApiMock.trim s.toList)

/-- A text that is there and not empty. -/
def given (o : Option String) : Option String := o.filter (· ≠ "")

/-- A text that is there and not blank. -/
def nonBlank (o : Option String) : Option String := o.filter (trimText · ≠ "")

def stripTrailingSlash (url : String) : String :=
  let cs := (trimText url).toList
  String.ofList (if cs.getLast? = some '/' then cs.dropLast else cs)

/-! ## Services -/

inductive EndpointAuthMode
  | inherit | custom
deriving DecidableEq, Repr

inductive EndpointSource
  | manual | microservice
deriving DecidableEq, Repr

structure ServiceEndpoint where
  envId : String
  url : String
  enabled : Bool
  authMode : EndpointAuthMode
  auth : Option Json
  source : EndpointSource
deriving DecidableEq, Repr

inductive WorkflowServiceUrlMode
  | direct | adhoc | multiEnv
deriving DecidableEq, Repr

structure WorkflowService where
  id : String
  name : String
  endpoints : List ServiceEndpoint
  defaultAuth : Option Json
  microserviceId : Option String
  urlMode : Option WorkflowServiceUrlMode
  directUrl : Option String
  /-- URLs by environment, in the order of the object -/
  baseUrls : Option (List (String × String))
  adhocUrl : Option String
  auth : Option Json
  authPerEnv : Option (List (String × Json))
deriving DecidableEq, Repr

structure Microservice where
  id : String
  baseUrls : List (String × String)
deriving DecidableEq, Repr

structure WorkflowHostProfile where
  id : String
  name : String
  hostBaseUrl : Option String
  hostEnvironmentId : Option String
  hostMicroserviceId : Option String
deriving DecidableEq, Repr

structure HttpNodeData where
  label : String
  /-- `scenario?.url ?? ''` -/
  url : String
  /-- `scenario?.auth` -/
  auth : Option Json
  serviceId : Option String
  hostProfileId : Option String
  authProfileId : Option String
  hostEnvironmentId : Option String
  hostMicroserviceId : Option String
  hostBaseUrl : Option String
  envOverride : Option String
deriving DecidableEq, Repr

/-! ## Resolving -/

def firstUrl (baseUrls : List (String × String)) : Option String := baseUrls.head?.map Prod.snd

/-- The endpoint for the environment, else the one for all, else the first that has a URL. -/
def findEndpoint (endpoints : List ServiceEndpoint) (selectedEnvId : Option String) : Option ServiceEndpoint :=
  (((given selectedEnvId).bind fun env => endpoints.find? fun e => e.envId == env && e.enabled).or
    (endpoints.find? fun e => e.envId == "__all__" && e.enabled)).or
      (endpoints.find? fun e => e.enabled && trimText e.url ≠ "")

/-- `microservices.find(..)` and its URL. -/
def microserviceUrl (microservices : List Microservice) (id : String) (selectedEnvId : Option String) :
    Option String :=
  (microservices.find? (·.id = id)).bind fun ms =>
    ((nonBlank ((given selectedEnvId).bind (List.lookup · ms.baseUrls))).or (nonBlank (firstUrl ms.baseUrls))).map
      stripTrailingSlash

/-- The fields from before the endpoints. -/
def legacyUrl (service : WorkflowService) (selectedEnvId : Option String) : Option String :=
  match service.urlMode with
  | some .adhoc => (nonBlank service.adhocUrl).map stripTrailingSlash
  | some .multiEnv =>
      let baseUrls := service.baseUrls.getD []
      ((given ((given selectedEnvId).bind (List.lookup · baseUrls))).or (nonBlank (firstUrl baseUrls))).map stripTrailingSlash
  | some .direct | none => (nonBlank service.directUrl).map stripTrailingSlash

def resolveServiceBaseUrl (service : WorkflowService) (microservices : List Microservice)
    (selectedEnvId : Option String) : Option String :=
  match nonBlank ((findEndpoint service.endpoints selectedEnvId).map ServiceEndpoint.url) with
  | some url => some (stripTrailingSlash url)
  | none =>
      match given service.microserviceId with
      | some id => microserviceUrl microservices id selectedEnvId
      | none => legacyUrl service selectedEnvId

/-- The service that a node is bound to. -/
def boundService (data : HttpNodeData) (services : List WorkflowService) : Option WorkflowService :=
  (given data.serviceId).bind fun id => services.find? (·.id = id)

/-- The URL of an environment of a microservice. -/
def environmentUrl (microservices : List Microservice) (envId svcId : String) : Option String :=
  (microservices.find? (·.id = svcId)).bind fun ms =>
    (nonBlank (List.lookup envId ms.baseUrls)).map stripTrailingSlash

def resolveHttpNodeBaseUrl (data : HttpNodeData) (microservices : List Microservice)
    (hostProfiles : List WorkflowHostProfile) (services : List WorkflowService)
    (selectedEnvId : Option String) : Option String :=
  match boundService data services with
  | some svc => resolveServiceBaseUrl svc microservices ((given data.envOverride).or selectedEnvId)
  | none =>
      match nonBlank data.hostBaseUrl with
      | some explicit => some (stripTrailingSlash explicit)
      | none =>
          match (nonBlank data.hostEnvironmentId).map trimText, (nonBlank data.hostMicroserviceId).map trimText with
          | some envId, some svcId => environmentUrl microservices envId svcId
          | _, _ =>
              ((given data.hostProfileId).bind fun id => hostProfiles.find? (·.id = id)).bind fun profile =>
                match nonBlank profile.hostBaseUrl with
                | some explicit => some (stripTrailingSlash explicit)
                | none =>
                    match (nonBlank profile.hostEnvironmentId).map trimText,
                      (nonBlank profile.hostMicroserviceId).map trimText with
                    | some envId, some svcId => environmentUrl microservices envId svcId
                    | _, _ => none

end RedFireForge.Workflow
