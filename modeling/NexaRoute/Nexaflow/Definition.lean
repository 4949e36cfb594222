import NexaRoute.Go.Json

/-!
# Workflow definitions and the node registry

A definition is a snapshot of a workflow: node instances, edges between them, the triggers that
start a run and the settings of a run. The instances name nodes of a registry, which says of each
node what it takes and returns, what it does to the world and how often it may be retried.

A Go map of JSON values is a list of its members, and a nil map is an empty one. The one place where
the program tells nil from empty is the input mapping of a node, which is therefore an `Option`.

What a node does when it runs is no part of its specification here: a node may answer anything.

## Main definitions

* `Definition`, `Registry` — workflows and the nodes they name
-/

namespace NexaRoute.Nexaflow

open Go

/-- A Go map from strings to JSON values. -/
abbrev Obj := List (String × Json)

/-- `m[key]`. -/
def Obj.get? (m : Obj) (key : String) : Option Json := m.lookup key

/-- `m[key] = v`. -/
def Obj.set (m : Obj) (key : String) (v : Json) : Obj := (key, v) :: m.filter (·.1 != key)

/-- `m[key].(string)`. -/
def Obj.getString (m : Obj) (key : String) : Option String :=
  match m.get? key with
  | some (.str s) => some s
  | _ => none

/-- `b, _ := m[key].(bool)`. -/
def Obj.getBool (m : Obj) (key : String) : Bool :=
  match m.get? key with
  | some (.bool b) => b
  | _ => false

/-! ### Definitions -/

/-- `DefinitionNode`: one instance of a registry node. -/
structure DefinitionNode where
  id : String
  nodeID : String := ""
  version : String := ""
  config : Obj := []
  input : Option Obj := none
  deriving Repr

/-- `DefinitionEdge`. An edge with an empty branch is unconditional. -/
structure DefinitionEdge where
  id : String
  source : String
  target : String
  branch : String := ""
  deriving Repr, DecidableEq

structure DefinitionTrigger where
  name : String
  kind : String
  config : Obj := []
  deriving Repr

structure DefinitionSettings where
  runTimeoutSeconds : ℤ := 0
  maxConcurrentRuns : ℤ := 0
  retentionDays : ℤ := 0
  deriving Repr, DecidableEq

structure Definition where
  schemaVersion : String
  id : String
  name : String
  description : String := ""
  tenantScope : String := ""
  nodes : List DefinitionNode
  edges : List DefinitionEdge := []
  triggers : List DefinitionTrigger
  settings : DefinitionSettings := {}
  deriving Repr

/-- `nodeDefByID`: the first instance with an id, or an empty one. -/
def nodeDefByID (d : Definition) (id : String) : DefinitionNode :=
  (d.nodes.find? (·.id == id)).getD { id }

def incomingEdges (d : Definition) (nodeID : String) : List DefinitionEdge :=
  d.edges.filter (·.target == nodeID)

/-- The outputs of the nodes that succeeded, by node. -/
abbrev Outputs := List (String × Obj)

/-- `edgeFired`: a labelled edge fires when its source selected the label. -/
def edgeFired (e : DefinitionEdge) (outputs : Outputs) : Bool :=
  if e.branch = "" then true
  else match outputs.lookup e.source with
    | none => false
    | some out => (out.getString "selected_branch").getD "" == e.branch

/-! ### Who may do what -/

inductive Role
  | owner
  | admin
  | operator
  | developer
  | viewer
  | other (name : String)
  deriving DecidableEq, Repr

/-- `authz.Permission`, the empty one included. -/
inductive Permission
  | unset
  | readConfig
  | writeConfig
  | readProviders
  | writeProviders
  | readRouting
  | writeRouting
  | readUsage
  | runEvaluation
  | readAudit
  | manageKeys
  | manageVideo
  | other (name : String)
  deriving DecidableEq, Repr

def Permission.text : Permission → String
  | .unset => ""
  | .readConfig => "config.read"
  | .writeConfig => "config.write"
  | .readProviders => "providers.read"
  | .writeProviders => "providers.write"
  | .readRouting => "routing.read"
  | .writeRouting => "routing.write"
  | .readUsage => "usage.read"
  | .runEvaluation => "evaluation.run"
  | .readAudit => "audit.read"
  | .manageKeys => "keys.manage"
  | .manageVideo => "video.manage"
  | .other name => name

def rolePermissions : Role → List Permission
  | .owner | .admin =>
    [.readConfig, .writeConfig, .readProviders, .writeProviders, .readRouting, .writeRouting,
      .readUsage, .runEvaluation, .readAudit, .manageKeys, .manageVideo]
  | .operator =>
    [.readConfig, .readProviders, .readRouting, .writeRouting, .readUsage, .runEvaluation,
      .manageVideo]
  | .developer =>
    [.readConfig, .readProviders, .readRouting, .readUsage, .runEvaluation, .readAudit]
  | .viewer => [.readConfig, .readProviders, .readRouting, .readUsage]
  | .other _ => []

/-- `authz.Identity`, without the issuer, which nothing here reads. -/
structure Identity where
  subject : String
  roles : List Role := []
  deriving Repr, DecidableEq

def Identity.authenticated (i : Identity) : Bool := trimSpace i.subject != ""

def Identity.authorize (i : Identity) (p : Permission) : Bool :=
  i.authenticated && i.roles.any fun role => (rolePermissions role).contains p

/-! ### The registry -/

def supportedVersion : String := "v1"

/-- `SideEffect`. -/
inductive SideEffect
  | none
  | read
  | external
  | billable
  | irreversible
  deriving DecidableEq, Repr

/-- A node whose timeout or interruption leaves an outcome nobody can prove. -/
def SideEffect.effectful : SideEffect → Bool
  | .none | .read => false
  | .external | .billable | .irreversible => true

/-- The type of a schema field; `other` is a type `fieldTypes` does not list. -/
inductive FieldType
  | string
  | number
  | boolean
  | object
  | array
  | secretRef
  | other (name : String)
  deriving DecidableEq, Repr

structure Field where
  name : String
  type : FieldType
  required : Bool := false
  deriving DecidableEq, Repr

structure RetryPolicy where
  maxAttempts : ℤ := 1
  retryableCodes : List String := []
  deriving DecidableEq, Repr

structure NodeSpec where
  id : String
  version : String := supportedVersion
  category : String := ""
  inputSchema : List Field := []
  configSchema : List Field := []
  permission : Permission := .unset
  sideEffect : SideEffect := .none
  retry : RetryPolicy := {}
  defaultTimeout : Duration := 5 * second
  maxTimeout : Duration := 10 * second
  maxInputBytes : ℤ := 4096
  maxOutputBytes : ℤ := 4096
  requiresOperatorPolicy : Bool := false
  deriving DecidableEq, Repr

/-- What `NewRegistry` asks of one specification. -/
structure NodeSpec.Valid (spec : NodeSpec) : Prop where
  version : spec.version = supportedVersion
  id : spec.id ≠ ""
  attempts_pos : 1 ≤ spec.retry.maxAttempts
  attempts_le : spec.retry.maxAttempts ≤ 3
  timeout_pos : 0 < spec.defaultTimeout
  timeout_le : spec.defaultTimeout ≤ spec.maxTimeout
  input_pos : 0 < spec.maxInputBytes
  output_pos : 0 < spec.maxOutputBytes

/-- `Registry`: what `NewRegistry` accepts. Every version is the supported one, so the id alone is
the key. -/
structure Registry where
  specs : List NodeSpec
  valid : ∀ spec ∈ specs, spec.Valid
  distinct : (specs.map NodeSpec.id).Nodup

structure NodeError where
  code : String
  retryable : Bool := false
  message : String
  deriving DecidableEq, Repr

/-- What the workflow package computes with text: quoting, redaction, the length and the equality
of JSON encodings, the hash of a definition. No proof depends on which functions these are. -/
structure Host where
  /-- `strconv.Quote`. -/
  quote : String → String
  /-- `RedactError`. -/
  redactError : String → String
  /-- `redactJSONValue` of an object. -/
  redactJSON : Obj → Obj
  /-- `jsonLen` and `jsonByteLen`. -/
  jsonLen : Json → ℕ
  /-- `jsonLen` of a definition. -/
  definitionLen : Definition → ℕ
  /-- `sameJSONValue`. -/
  sameJSON : Obj → Obj → Bool
  /-- `time.Duration.String`. -/
  duration : Duration → String
  /-- `ContentHash`, which fails on a definition that JSON cannot encode. -/
  contentHash : Definition → Option String

/-- Texts as they are. -/
def plainHost : Host where
  quote s := s
  redactError s := s
  redactJSON obj := obj
  jsonLen _ := 0
  definitionLen _ := 0
  sameJSON _ _ := true
  duration _ := ""
  contentHash _ := none

variable (host : Host)

def newNodeError (code : String) (retryable : Bool) (text : String) : NodeError :=
  { code, retryable, message := host.redactError text }

/-- `NodeError.Error`. -/
def NodeError.text (e : NodeError) : String := e.code ++ ": " ++ host.redactError e.message

def Registry.lookup (reg : Registry) (id version : String) : Except NodeError NodeSpec :=
  if version ≠ supportedVersion then
    .error (newNodeError host "unsupported_version" false
      ("node version " ++ host.quote version ++ " is not supported; only " ++
        host.quote supportedVersion ++ " is supported"))
  else match reg.specs.find? (·.id == id) with
    | none =>
      .error (newNodeError host "node_not_found" false ("node " ++ host.quote id ++ " not found"))
    | some spec => .ok spec

/-! ### Schemas -/

def checkFieldType (f : Field) (v : Json) : Option NodeError :=
  let must (what : String) :=
    some (newNodeError host "validation_error" false
      ("field " ++ host.quote f.name ++ " must be " ++ what))
  match f.type, v with
  | .string, .str _ | .secretRef, .str _ => none
  | .number, .number _ => none
  | .boolean, .bool _ => none
  | .object, .obj _ => none
  | .array, .arr _ => none
  | .string, _ | .secretRef, _ => must "a string"
  | .number, _ => must "a number"
  | .boolean, _ => must "a boolean"
  | .object, _ => must "an object"
  | .array, _ => must "an array"
  | .other _, _ => none

/-- The first loop of `validateAgainstSchema`: known types, and required fields that are there. -/
def checkDeclared (values : Obj) (kind : String) (f : Field) : Option NodeError :=
  match f.type with
  | .other name =>
    some (newNodeError host "invalid_schema" false
      ("field " ++ host.quote f.name ++ " has unknown type " ++ host.quote name))
  | _ =>
    if f.required ∧ values.get? f.name = none then
      some (newNodeError host "validation_error" false
        ("missing required " ++ kind ++ " field " ++ host.quote f.name))
    else none

/-- The second loop: no unknown key, and values of the declared types. Where a schema declares a
field twice, the later declaration is the one that counts. -/
def checkMember (schema : List Field) (kind : String) (member : String × Json) : Option NodeError :=
  match schema.reverse.find? (·.name == member.1) with
  | none =>
    some (newNodeError host "validation_error" false
      ("unknown " ++ kind ++ " field " ++ host.quote member.1))
  | some f => checkFieldType host f member.2

def validateAgainstSchema (values : Obj) (schema : List Field) (kind : String) :
    Option NodeError :=
  schema.findSome? (checkDeclared host values kind) <|>
    values.findSome? (checkMember host schema kind)

def validateConfig (spec : NodeSpec) (config : Obj) : Option NodeError :=
  validateAgainstSchema host config spec.configSchema "config"

/-! ### Input mappings -/

/-- `strings.Split(path, ".")`. -/
def splitPath (path : String) : List String := (path.toList.splitOn '.').map String.ofList

/-- Why a mapping does not resolve. -/
inductive MappingError
  | emptyPath
  | pathNotFound (path : String)
  | notObject (nodeID : String)
  deriving DecidableEq, Repr

def MappingError.message : MappingError → String
  | .emptyPath => "nexaflow: empty input-mapping path"
  | .pathNotFound path => "nexaflow: input-mapping path " ++ host.quote path ++ " not found"
  | .notObject nodeID =>
    "nexaflow: input mapping for node " ++ host.quote nodeID ++ " must resolve to an object"

/-- `fmt.Sscanf(part, "%d", &idx)` where the index is not negative: blanks, a sign, digits, and
anything after them. -/
def scanIndex (part : String) : Option ℕ :=
  let scan (l : List Char) := (atoi (l.takeWhile Char.isDigit)).filter (· < 2 ^ 63)
  match part.toList.dropWhile fun c => isSpace c && c != '\n' with
  | '+' :: rest => scan rest
  | '-' :: rest => (scan rest).filter (· == 0)
  | l => scan l

/-- The loop of `resolveMappingPath`. -/
def walkPath : List String → Json → Option Json
  | [], v => some v
  | part :: parts, .obj members => (Obj.get? members part).bind (walkPath parts)
  | part :: parts, .arr items => ((scanIndex part).bind (items[·]?)).bind (walkPath parts)
  | _ :: _, _ => none

def resolveMappingPath (ctx : Obj) (path : String) : Except MappingError Json :=
  if path = "" then .error .emptyPath
  else match walkPath (splitPath path) (.obj ctx) with
    | some v => .ok v
    | none => .error (.pathNotFound path)

/-- The reference an object stands for: `{"$ref": "path"}` and nothing else in it. -/
def refOf : Obj → Option String
  | [(key, .str path)] => if key = "$ref" then some path else none
  | _ => none

/-- The reference a string stands for: `$.path`. -/
def refOfText (s : String) : Option String :=
  match s.toList with
  | '$' :: '.' :: path => some (String.ofList path)
  | _ => none

mutual

def resolveMappingValue (ctx : Obj) : Json → Except MappingError Json
  | .obj members => match refOf members with
    | some path => resolveMappingPath ctx path
    | none => (resolveMembers ctx members).map .obj
  | .arr items => (resolveItems ctx items).map .arr
  | .str s => match refOfText s with
    | some path => resolveMappingPath ctx path
    | none => .ok (.str s)
  | v => .ok v

/-- The values of an array. -/
def resolveItems (ctx : Obj) : List Json → Except MappingError (List Json)
  | [] => .ok []
  | v :: items =>
    (resolveMappingValue ctx v).bind fun v' => (resolveItems ctx items).map (v' :: ·)

/-- The values of an object. -/
def resolveMembers (ctx : Obj) : List (String × Json) → Except MappingError (List (String × Json))
  | [] => .ok []
  | (key, v) :: members =>
    (resolveMappingValue ctx v).bind fun v' => (resolveMembers ctx members).map ((key, v') :: ·)

end

mutual

def collectMappingRefs : Json → List String
  | .obj members => match refOf members with
    | some path => [path]
    | none => collectMembers members
  | .arr items => collectItems items
  | .str s => match refOfText s with
    | some path => [path]
    | none => []
  | _ => []

/-- The references in an array. -/
def collectItems : List Json → List String
  | [] => []
  | v :: items => collectMappingRefs v ++ collectItems items

/-- The references in an object. -/
def collectMembers : List (String × Json) → List String
  | [] => []
  | (_, v) :: members => collectMappingRefs v ++ collectMembers members

end

end NexaRoute.Nexaflow
