import NexaRoute.Digraph
import NexaRoute.Nexaflow.Definition
import Mathlib.Data.String.Basic

/-!
# Validated definitions

`ValidateDefinition` checks a definition against a registry: settings, node instances and their
configs, input mappings, triggers, edges, roots, reachability and cycles. The first check that fails
gives the error. Where the program goes through a Go map, in whatever order, the model goes through
the nodes of the definition; that decides which of several errors is reported, never whether there
is one.

An accepted definition is `WellFormed`, which is all the engine relies on. In particular
`TopologicalOrder` then lists every node once.

## Main results

* `WellFormed.perm_topologicalOrder` — the order has every node once
-/

namespace NexaRoute.Nexaflow

open List

def branchNodeID : String := "nexaroute.control.branch"

def approvalNodeID : String := "nexaroute.control.approval"

/-- `triggerNodeID`: the registry node of a kind of trigger. -/
def triggerNodeID (kind : String) : Option String :=
  if kind = "manual" then some "nexaroute.trigger.manual"
  else if kind = "webhook" then some "nexaroute.trigger.webhook"
  else if kind = "schedule" then some "nexaroute.trigger.schedule"
  else none

def definitionSchemaVersion : String := "v1"

/-- Why a definition is refused. -/
inductive DefinitionError
  | schemaVersion (version : String)
  | idEmpty
  | nameEmpty
  | negativeRunTimeout (seconds : ℤ)
  | negativeMaxConcurrent (runs : ℤ)
  | retentionDays (days : ℤ)
  | noNodes
  | nodeIDEmpty
  | duplicateNode (id : String)
  | nodeVersion (id version : String)
  | nodeLookup (id : String) (err : NodeError)
  | nodeConfig (id nodeID : String) (err : NodeError)
  | triggerMapping (id : String)
  | approvalMapping (id : String)
  | mappingKey (id key nodeID : String)
  | mappingRoot (id root : String)
  | noTriggers
  | triggerNameEmpty
  | duplicateTrigger (name : String)
  | triggerKind (name kind : String)
  | triggerNoNode (name : String)
  | triggerNode (name kind nodeID instanceID : String)
  | triggerConfig (name : String) (err : NodeError)
  | undeclaredTrigger (id : String)
  | edgeIDEmpty
  | duplicateEdgeID (id : String)
  | edgeSource (id source : String)
  | edgeTarget (id target : String)
  | selfEdge (id node : String)
  | duplicateEdge (source target branch : String)
  | branchNode (id branch nodeID : String)
  | branchLabel (id branch source : String)
  | triggerIncoming (id : String)
  | noIncoming (id : String)
  | unreachable (id : String)
  | cycle (id : String)
  deriving DecidableEq, Repr

/-! ### Checks in sequence -/

section Checks

variable {α ε : Type}

/-- The first error of a list of checks. -/
def firstError (checks : List (Option ε)) : Option ε := checks.findSome? id

/-- A loop that checks each element with those before it, the last one first. -/
def checkEach (check : List α → α → Option ε) : List α → List α → Option ε
  | _, [] => none
  | seen, a :: l => (check seen a).or (checkEach check (a :: seen) l)

theorem firstError_eq_none_iff {checks : List (Option ε)} :
    firstError checks = none ↔ ∀ c ∈ checks, c = none := by
  simp [firstError]

theorem exists_check_of_mem {check : List α → α → Option ε} {seen l : List α}
    (h : checkEach check seen l = none) {a : α} (ha : a ∈ l) : ∃ seen', check seen' a = none := by
  induction l generalizing seen with
  | nil => cases ha
  | cons b l ih =>
    obtain ⟨hb, hl⟩ := Option.or_eq_none_iff.mp h
    rcases mem_cons.mp ha with rfl | ha
    · exact ⟨seen, hb⟩
    · exact ih hl ha

theorem nodup_of_checkEach {κ : Type} {key : α → κ} {check : List α → α → Option ε}
    (hcheck : ∀ seen a, check seen a = none → key a ∉ seen.map key) {seen l : List α}
    (h : checkEach check seen l = none) (hseen : (seen.map key).Nodup) :
    ((l.reverse ++ seen).map key).Nodup := by
  induction l generalizing seen with
  | nil => exact hseen
  | cons a l ih =>
    obtain ⟨ha, hl⟩ := Option.or_eq_none_iff.mp h
    have := ih hl (nodup_cons.mpr ⟨hcheck seen a ha, hseen⟩)
    simpa using this

end Checks

/-! ### The checks of a definition -/

section Validate

variable (host : Host) (reg : Registry)

def validateSettings (s : DefinitionSettings) : Option DefinitionError :=
  if s.runTimeoutSeconds < 0 then some (.negativeRunTimeout s.runTimeoutSeconds)
  else if s.maxConcurrentRuns < 0 then some (.negativeMaxConcurrent s.maxConcurrentRuns)
  else if s.retentionDays ≠ 0 ∧ (s.retentionDays < 7 ∨ 365 < s.retentionDays) then
    some (.retentionDays s.retentionDays)
  else none

/-- The checks of one node instance. -/
def validateNode (seen : List DefinitionNode) (n : DefinitionNode) : Option DefinitionError :=
  if n.id = "" then some .nodeIDEmpty
  else if n.id ∈ seen.map DefinitionNode.id then some (.duplicateNode n.id)
  else if n.version ≠ supportedVersion then some (.nodeVersion n.id n.version)
  else match reg.lookup host n.nodeID n.version with
    | .error err => some (.nodeLookup n.id err)
    | .ok spec => (validateConfig host spec n.config).map (.nodeConfig n.id n.nodeID)

/-- `nodes[id]`: the specification of an instance. -/
def specOf (d : Definition) (id : String) : Option NodeSpec :=
  match d.nodes.find? (·.id == id) with
  | none => none
  | some n => (reg.lookup host n.nodeID n.version).toOption

/-- `spec.Category == "trigger"`. -/
def NodeSpec.isTrigger (spec : NodeSpec) : Bool := spec.category == "trigger"

/-- `instanceIsTrigger[id]`. -/
def instanceIsTrigger (d : Definition) (id : String) : Bool :=
  match specOf host reg d id with
  | none => false
  | some spec => spec.isTrigger

/-- The part of a reference before the first dot. -/
def refRoot (ref : String) : String := (splitPath ref).headD ""

/-- The checks of the input mapping of one node. -/
def validateInputMapping (d : Definition) (n : DefinitionNode) : Option DefinitionError :=
  match n.input, specOf host reg d n.id with
  | none, _ => none
  | some _, none => none
  | some mapping, some spec =>
    if spec.isTrigger then some (.triggerMapping n.id)
    else if spec.id = approvalNodeID then some (.approvalMapping n.id)
    else firstError [
      mapping.findSome? fun member =>
        if spec.inputSchema.any (·.name == member.1) then none
        else some (.mappingKey n.id member.1 n.nodeID),
      (collectMappingRefs (.obj mapping)).findSome? fun ref =>
        if refRoot ref = "input" ∨ (specOf host reg d (refRoot ref)).isSome then none
        else some (.mappingRoot n.id (refRoot ref))]

/-- The checks of one trigger declaration. -/
def validateTrigger (d : Definition) (seen : List DefinitionTrigger) (tr : DefinitionTrigger) :
    Option DefinitionError :=
  if tr.name = "" then some .triggerNameEmpty
  else if tr.name ∈ seen.map DefinitionTrigger.name then some (.duplicateTrigger tr.name)
  else match triggerNodeID tr.kind with
    | none => some (.triggerKind tr.name tr.kind)
    | some nodeID => match specOf host reg d tr.name with
      | none => some (.triggerNoNode tr.name)
      | some spec =>
        if spec.id ≠ nodeID then some (.triggerNode tr.name tr.kind nodeID spec.id)
        else (validateConfig host spec tr.config).map (.triggerConfig tr.name)

def validateBranchEdge (d : Definition) (e : DefinitionEdge) (source : NodeSpec) :
    Option DefinitionError :=
  if source.id ≠ branchNodeID then some (.branchNode e.id e.branch source.id)
  else
    let config := (nodeDefByID d e.source).config
    if config.getString "true_branch" = some e.branch ∨
        config.getString "false_branch" = some e.branch then none
    else some (.branchLabel e.id e.branch e.source)

/-- What two edges must not share. -/
def edgeTriple (e : DefinitionEdge) : String :=
  e.source ++ "\x00" ++ e.target ++ "\x00" ++ e.branch

def validateEdge (d : Definition) (seen : List DefinitionEdge) (e : DefinitionEdge) :
    Option DefinitionError :=
  if e.id = "" then some .edgeIDEmpty
  else if e.id ∈ seen.map DefinitionEdge.id then some (.duplicateEdgeID e.id)
  else match specOf host reg d e.source with
    | none => some (.edgeSource e.id e.source)
    | some source =>
      if (specOf host reg d e.target).isNone then some (.edgeTarget e.id e.target)
      else if e.source = e.target then some (.selfEdge e.id e.source)
      else if edgeTriple e ∈ seen.map edgeTriple then
        some (.duplicateEdge e.source e.target e.branch)
      else if e.branch ≠ "" then validateBranchEdge d e source
      else none

/-- The root rule: triggers have no incoming edge, every other node has one. -/
def validateRoot (d : Definition) (n : DefinitionNode) : Option DefinitionError :=
  if instanceIsTrigger host reg d n.id then
    if (incomingEdges d n.id).isEmpty then none else some (.triggerIncoming n.id)
  else if (incomingEdges d n.id).isEmpty then some (.noIncoming n.id)
  else none

/-- The edges of a definition as pairs of ids. -/
def Definition.arcs (d : Definition) : List (String × String) :=
  d.edges.map fun e => (e.source, e.target)

def Definition.ids (d : Definition) : List String := d.nodes.map DefinitionNode.id

/-- The nodes that a trigger reaches. -/
def reached (d : Definition) : List String :=
  (d.ids.filter (instanceIsTrigger host reg d)).foldl
    (Digraph.visit (Digraph.succs d.arcs) (d.nodes.length + 1)) []

def checkAcyclic (d : Definition) : Option DefinitionError :=
  match Digraph.searchCycle (fun id => (Digraph.succs d.arcs id).insertionSort (· ≤ ·))
      d.nodes.length (d.ids.insertionSort (· ≤ ·)) with
  | .error id => some (.cycle id)
  | .ok _ => none

def validateDefinition (d : Definition) : Option DefinitionError :=
  firstError [
    if d.schemaVersion ≠ definitionSchemaVersion then some (.schemaVersion d.schemaVersion) else none,
    if d.id = "" then some .idEmpty else none,
    if d.name = "" then some .nameEmpty else none,
    validateSettings d.settings,
    if d.nodes.isEmpty then some .noNodes else none,
    checkEach (validateNode host reg) [] d.nodes,
    d.nodes.findSome? (validateInputMapping host reg d),
    if d.triggers.isEmpty then some .noTriggers else none,
    checkEach (validateTrigger host reg d) [] d.triggers,
    d.nodes.findSome? fun n =>
      if instanceIsTrigger host reg d n.id ∧ n.id ∉ d.triggers.map DefinitionTrigger.name then
        some (.undeclaredTrigger n.id)
      else none,
    checkEach (validateEdge host reg d) [] d.edges,
    d.nodes.findSome? (validateRoot host reg d),
    d.nodes.findSome? fun n =>
      if n.id ∈ reached host reg d then none else some (.unreachable n.id),
    checkAcyclic d]

def topologicalOrder (d : Definition) : List String :=
  Digraph.kahn d.arcs (d.nodes.length + d.edges.length) (d.ids.insertionSort (· ≤ ·))

/-! ### Accepted definitions -/

/-- What the engine relies on in a definition that was accepted. -/
structure WellFormed (d : Definition) : Prop where
  ids_nodup : d.ids.Nodup
  spec : ∀ n ∈ d.nodes, ∃ spec, reg.lookup host n.nodeID n.version = .ok spec
  ends : ∀ e ∈ d.edges, e.source ∈ d.ids ∧ e.target ∈ d.ids
  acyclic : Digraph.Acyclic d.arcs

variable {host reg} {d : Definition}

theorem mem_ids_of_specOf {id : String} (h : (specOf host reg d id).isSome) : id ∈ d.ids := by
  rw [specOf] at h
  cases hf : d.nodes.find? (·.id == id) with
  | none =>
    rw [hf] at h
    cases h
  | some n =>
    have hid : n.id = id := by simpa using find?_some hf
    exact mem_map.mpr ⟨n, mem_of_find?_eq_some hf, hid⟩

theorem validateNode_eq_none {seen : List DefinitionNode} {n : DefinitionNode}
    (h : validateNode host reg seen n = none) :
    n.id ∉ seen.map DefinitionNode.id ∧
      ∃ spec, reg.lookup host n.nodeID n.version = .ok spec := by
  simp only [validateNode] at h
  split_ifs at h with _ hseen
  refine ⟨hseen, ?_⟩
  cases hl : reg.lookup host n.nodeID n.version with
  | error err => simp [hl] at h
  | ok spec => exact ⟨spec, rfl⟩

theorem validateEdge_eq_none {seen : List DefinitionEdge} {e : DefinitionEdge}
    (h : validateEdge host reg d seen e = none) : e.source ∈ d.ids ∧ e.target ∈ d.ids := by
  rw [validateEdge] at h
  cases hs : specOf host reg d e.source with
  | none =>
    simp only [hs] at h
    split_ifs at h
  | some source =>
    simp only [hs] at h
    have htarget : (specOf host reg d e.target).isSome := by
      by_contra ht
      have hnone : (specOf host reg d e.target).isNone = true := by simpa using ht
      split_ifs at h
    exact ⟨mem_ids_of_specOf (by rw [hs]; rfl), mem_ids_of_specOf htarget⟩

theorem acyclic_of_checkAcyclic (h : checkAcyclic d = none)
    (hends : ∀ e ∈ d.edges, e.source ∈ d.ids ∧ e.target ∈ d.ids) : Digraph.Acyclic d.arcs := by
  rw [checkAcyclic] at h
  split at h
  · cases h
  · next hs =>
    refine Digraph.acyclic_of_searchCycle hs (fun v w => ?_) fun a ha => ?_
    · rw [mem_insertionSort, Digraph.mem_succs]
    · obtain ⟨e, he, rfl⟩ := mem_map.mp ha
      rw [mem_insertionSort]
      exact (hends e he).1

theorem wellFormed_of_validateDefinition
    (h : validateDefinition host reg d = none) : WellFormed host reg d := by
  rw [validateDefinition, firstError_eq_none_iff] at h
  have hnodes := h (checkEach (validateNode host reg) [] d.nodes) (by simp)
  have hedges := h (checkEach (validateEdge host reg d) [] d.edges) (by simp)
  have hacyclic := h (checkAcyclic d) (by simp)
  have hends : ∀ e ∈ d.edges, e.source ∈ d.ids ∧ e.target ∈ d.ids := by
    intro e he
    obtain ⟨seen, hseen⟩ := exists_check_of_mem hedges he
    exact validateEdge_eq_none hseen
  refine ⟨?_, fun n hn => ?_, hends, acyclic_of_checkAcyclic hacyclic hends⟩
  · have := nodup_of_checkEach (fun _ _ hn => (validateNode_eq_none hn).1) hnodes nodup_nil
    rwa [append_nil, map_reverse, nodup_reverse] at this
  · obtain ⟨seen, hseen⟩ := exists_check_of_mem hnodes hn
    exact (validateNode_eq_none hseen).2

/-- **Every node of an accepted definition is in its topological order once.** -/
theorem WellFormed.perm_topologicalOrder (h : WellFormed host reg d) :
    (topologicalOrder d).Perm d.ids := by
  have hsort : (d.ids.insertionSort (· ≤ ·)).Perm d.ids := perm_insertionSort _ _
  refine (Digraph.perm_kahn h.acyclic (hsort.nodup_iff.mpr h.ids_nodup) (fun a ha => ?_) ?_).trans
    hsort
  · obtain ⟨e, he, rfl⟩ := mem_map.mp ha
    rw [mem_insertionSort, mem_insertionSort]
    exact h.ends e he
  · rw [length_insertionSort, Definition.ids, length_map]
    omega

end Validate

end NexaRoute.Nexaflow
