import NexaRoute.Httpapi.Wire
import NexaRoute.Go.Sha256

/-!
# Client authentication

`clientAuthAllowed`: which key a request presents, the model its body names for authorisation, and
the policy of the key, its project and its team. The model is found by a scan of the body for the
key `model` in that spelling alone, which has to occur once.

The checks behind the policy (guardrails, rate and token limits, the budget) only refuse; their
verdicts are given.

## Main definitions

* `clientAuthAllowed` — authentication and policy
-/

namespace NexaRoute.Httpapi

open Go

/-! ### Configuration -/

/-- Allow-lists; an empty one allows everything. -/
structure Team where
  id : String
  allowedModels : List String
  allowedRoutes : List String
  deriving DecidableEq, Repr

/-- A project. Its teams have different identifiers. -/
structure Project where
  id : String
  teams : List Team
  allowedModels : List String
  allowedRoutes : List String
  teamsUnique : (teams.map (·.id)).Nodup

/-- A tenant. Its projects have different identifiers. -/
structure Tenant where
  id : String
  projects : List Project
  projectsUnique : (projects.map (·.id)).Nodup

structure VirtualKey where
  id : String
  keyHash : String
  tenantID : String
  projectID : String
  teamID : String
  allowedModels : List String
  allowedRoutes : List String
  expiresAt : String
  revoked : Bool
  budgetUSD : ℚ
  deriving DecidableEq, Repr

/-- The section `client_auth`. Tenants have different identifiers. -/
structure ClientAuth where
  enabled : Bool
  keys : List String
  keyHashes : List String
  virtualKeys : List VirtualKey
  tenants : List Tenant
  tenantsUnique : (tenants.map (·.id)).Nodup

/-! ### The policy -/

def listAllows (list : List String) (value : String) : Bool :=
  list.isEmpty || list.any fun item => item == "*" || item == value

/-- Who a request comes from: a virtual key, or a key without restrictions. -/
inductive Identity
  | virtual (key : VirtualKey)
  | legacy
  deriving DecidableEq, Repr

/-- The allow-lists of the team of a key, when it has one. -/
def teamAllows (project : Project) (key : VirtualKey) (path model : String) : Bool :=
  if key.teamID = "" then true
  else match project.teams.find? (·.id == key.teamID) with
    | none => false
    | some team => listAllows team.allowedRoutes path && listAllows team.allowedModels model

/-- The allow-lists of the project of a key, when it has one, and those of its team. -/
def projectAllows (tenant : Tenant) (key : VirtualKey) (path model : String) : Bool :=
  if key.projectID = "" then true
  else match tenant.projects.find? (·.id == key.projectID) with
    | none => false
    | some project =>
      listAllows project.allowedRoutes path && listAllows project.allowedModels model &&
        teamAllows project key path model

def identityPolicyAllows (auth : ClientAuth) (identity : Identity) (path model : String) : Bool :=
  match identity with
  | .legacy => true
  | .virtual key =>
    if !listAllows key.allowedRoutes path || !listAllows key.allowedModels model then false
    else if auth.tenants.isEmpty then true
    else if key.teamID ≠ "" ∧ key.projectID = "" then false
    else if key.tenantID = "" then false
    else match auth.tenants.find? (·.id == key.tenantID) with
      | none => false
      | some tenant => projectAllows tenant key path model

/-! ### The model of a body -/

/-- Two mebibytes. -/
def requestMetadataReadLimit : ℕ := 2 * 2 ^ 20

/-- `requestTopLevelValues`: the values of every member with the key `wanted`. The scanner decodes
one value at a time, so the nesting it accepts is that of a value. -/
def requestTopLevelValues (body : List UInt8) (wanted : String) : Option (List Json) :=
  match parseJSON body with
  | some (.obj members) =>
    if members.any fun m => decide (m.2.depth > maxNestingDepth) then none
    else some ((members.filter (·.1 == wanted)).map (·.2))
  | _ => none

/-- `requestTopLevelString`: the value of a key that occurs once and is a string or `null`. -/
def requestTopLevelString (body : List UInt8) (field : String) : Option String :=
  match requestTopLevelValues body field with
  | some [.str s] => some (trimSpace s)
  | some [.null] => some ""
  | _ => none

/-- `requestModel` of a request with a body. A body over the limit is not read. -/
def requestModel (body : List UInt8) : String :=
  if body.length > requestMetadataReadLimit then ""
  else (requestTopLevelString body "model").getD ""

/-! ### Admission -/

variable (H : Digest)

def keyDigest (key : String) : String := hexEncode (H.sum (bytes key))

/-- Whether a virtual key is the one presented, and is still good. -/
def VirtualKey.active (key : VirtualKey) (now : Time) (presented : String) : Bool :=
  !key.revoked && key.keyHash == keyDigest H presented &&
    (key.expiresAt == "" || match parseRFC3339 key.expiresAt with
      | none => false
      | some expiry => decide (now < expiry))

def clientKeyMatches (keys : List String) (presented : String) : Bool :=
  keys.any fun k => keyDigest H k == keyDigest H presented

def findClientIdentity (auth : ClientAuth) (now : Time) (presented : String) : Option Identity :=
  match auth.virtualKeys.find? (·.active H now presented) with
  | some key => some (.virtual key)
  | none =>
    if auth.keyHashes.contains (keyDigest H presented) ||
        clientKeyMatches H auth.keys presented then
      some .legacy
    else none

/-- Why a request is not admitted. -/
inductive AuthError
  | invalidKey
  | guardrail
  | forbidden
  | rateLimit
  | tokenLimit
  | budget
  deriving DecidableEq, Repr

/-- The verdicts of the checks that only refuse. -/
structure Gates where
  guardrails : Bool
  rateLimit : Bool
  tokenLimit : Bool
  budget : Bool

/-- `clientAuthAllowed` for a request that presents a key: who is admitted, or why nobody is. -/
def clientAuthAllowed (auth : ClientAuth) (gates : Gates) (now : Time) (ingress : Ingress)
    (presented : String) (body : List UInt8) : Except AuthError Identity :=
  if !auth.enabled then .ok .legacy
  else if presented = "" then .error .invalidKey
  else match findClientIdentity H auth now presented with
    | none => .error .invalidKey
    | some identity =>
      if !gates.guardrails then .error .guardrail
      else if !identityPolicyAllows auth identity ingress.path (requestModel body) then
        .error .forbidden
      else if !gates.rateLimit then .error .rateLimit
      else if !gates.tokenLimit then .error .tokenLimit
      else if !gates.budget then .error .budget
      else .ok identity

/-! ### What a key permits -/

/-- An allow-list permits a value. -/
def Allows (list : List String) (value : String) : Prop := list = [] ∨ "*" ∈ list ∨ value ∈ list

/-- A key permits a model: its own list does, and with a hierarchy so do the lists of its project
and its team. -/
structure Permits (auth : ClientAuth) (key : VirtualKey) (model : String) : Prop where
  own : Allows key.allowedModels model
  project : ∀ tenant ∈ auth.tenants, tenant.id = key.tenantID → ∀ project ∈ tenant.projects,
    key.projectID ≠ "" → project.id = key.projectID → Allows project.allowedModels model
  team : ∀ tenant ∈ auth.tenants, tenant.id = key.tenantID → ∀ project ∈ tenant.projects,
    key.projectID ≠ "" → project.id = key.projectID → ∀ team ∈ project.teams,
    key.teamID ≠ "" → team.id = key.teamID → Allows team.allowedModels model

end NexaRoute.Httpapi
