import NexaRoute.Nexaflow.Schedule

/-!
# What an input mapping reads

`mappedNodeInput` puts the run input and the outputs of the nodes into one map, the run input under
the name `input`, and resolves the references of a mapping in it. The first part of a reference is a
name in this map: it is meant to say whether the reference reads the run input or the output of a
node, and of which node.

Resolving a value asks for nothing but its references (`resolveMappingValue_congr`), so what a
mapping can read is decided by where the references lead. They lead where their names say, except
that `ValidateDefinition` lets a node be called `input`: once it has succeeded, its output stands
where the run input stood.

## Main results

* `scoped_iff` — when a mapping reads what it names
-/

namespace NexaRoute.Nexaflow

open Go List

variable {ref : String} {ctx ctx' : Obj}

/-! ### The context -/

theorem Obj.get?_set (m : Obj) (key : String) (v : Json) (key' : String) :
    (m.set key v).get? key' = if key' = key then some v else m.get? key' := by
  rw [Obj.get?, Obj.set, lookup_cons]
  by_cases h : key' = key
  · rw [if_pos h, h, beq_self_eq_true]
  · rw [if_neg h, beq_eq_false_iff_ne.mpr h, Obj.get?]
    induction m with
    | nil => rfl
    | cons p m ih =>
      by_cases hp : p.1 = key
      · have hne : (key' == p.1) = false := beq_eq_false_iff_ne.mpr (hp ▸ h)
        rw [filter_cons_of_neg (by simp [hp]), lookup_cons, hne]
        exact ih
      · rw [filter_cons_of_pos (by simp [hp]), lookup_cons, lookup_cons]
        cases key' == p.1
        · exact ih
        · rfl

/-- The map that `mappedNodeInput` resolves references in. -/
def mappingContext (run : Run) (outputs : Outputs) : Obj :=
  outputs.foldl (fun ctx p => ctx.set p.1 (.obj p.2)) [("input", .obj run.input)]

theorem mappedNodeInput_eq (run : Run) (n : DefinitionNode) (mapping : Obj) (outputs : Outputs) :
    mappedNodeInput run n mapping outputs =
      match resolveMappingValue (mappingContext run outputs) (.obj mapping) with
      | .error err => .error err
      | .ok (.obj members) => .ok members
      | .ok _ => .error (.notObject n.id) := rfl

/-- The outputs of nodes of a definition: a map from ids of its nodes. -/
structure NodeOutputs (d : Definition) where
  entries : Outputs
  nodup : (entries.map Prod.fst).Nodup
  mem : ∀ p ∈ entries, p.1 ∈ d.ids

theorem get?_foldl_set : ∀ {outputs : Outputs} (_ : (outputs.map Prod.fst).Nodup) (ctx : Obj)
    (root : String),
    (outputs.foldl (fun ctx p => ctx.set p.1 (.obj p.2)) ctx).get? root =
      ((outputs.lookup root).map Json.obj).or (ctx.get? root)
  | [], _, _, _ => rfl
  | (id, out) :: outputs, hnodup, ctx, root => by
    obtain ⟨hid, hrest⟩ := nodup_cons.mp hnodup
    rw [foldl_cons, get?_foldl_set hrest, Obj.get?_set, lookup_cons]
    by_cases hroot : root = id
    · -- the entry is the only one of its node
      have hnone : outputs.lookup root = none := by
        rw [lookup_eq_none_iff]
        intro p hp
        rw [bne_iff_ne, hroot]
        intro h
        exact hid (mem_map.mpr ⟨p, hp, h.symm⟩)
      rw [hnone, if_pos hroot, hroot, beq_self_eq_true]
      rfl
    · rw [if_neg hroot, beq_eq_false_iff_ne.mpr hroot]

theorem get?_mappingContext (run : Run) {d : Definition} (outputs : NodeOutputs d) (root : String) :
    (mappingContext run outputs.entries).get? root =
      ((outputs.entries.lookup root).map Json.obj).or
        (if root = "input" then some (.obj run.input) else none) := by
  rw [mappingContext, get?_foldl_set outputs.nodup]
  rw [Obj.get?, lookup_cons]
  by_cases h : root = "input"
  · rw [if_pos h, h, beq_self_eq_true]
  · rw [if_neg h, beq_eq_false_iff_ne.mpr h]
    rfl

/-! ### References -/

/-- What a reference finds, given what its path leads to. -/
def found (ref : String) (v : Option Json) : Except MappingError Json :=
  (v.map Except.ok).getD (.error (.pathNotFound ref))

/-- A reference in one value: the path behind its first part. -/
def resolveWithin (v : Json) (ref : String) : Except MappingError Json :=
  found ref (walkPath (splitPath ref).tail v)

/-- A reference in the output of the node it names. -/
def resolveInOutput (outputs : Outputs) (ref : String) : Except MappingError Json :=
  ((outputs.lookup (refRoot ref)).map fun out => resolveWithin (.obj out) ref).getD
    (.error (.pathNotFound ref))

theorem splitPath_eq (h : refRoot ref ≠ "") :
    splitPath ref = refRoot ref :: (splitPath ref).tail := by
  rw [refRoot] at h ⊢
  cases hs : splitPath ref with
  | nil => exact absurd (by rw [hs]; rfl) h
  | cons root rest => rfl

theorem resolveMappingPath_eq (ctx : Obj) (h : refRoot ref ≠ "") :
    resolveMappingPath ctx ref =
      found ref ((ctx.get? (refRoot ref)).bind (walkPath (splitPath ref).tail)) := by
  have hne : ref ≠ "" := by
    rintro rfl
    exact h (by decide)
  rw [resolveMappingPath, if_neg hne, splitPath_eq h, walkPath]
  rw [tail_cons]
  cases (ctx.get? (refRoot ref)).bind (walkPath (splitPath ref).tail) <;> rfl

mutual

theorem resolveMappingValue_congr : ∀ v : Json,
    (∀ ref ∈ collectMappingRefs v, resolveMappingPath ctx ref = resolveMappingPath ctx' ref) →
    resolveMappingValue ctx v = resolveMappingValue ctx' v
  | .obj members, h => by
    rw [collectMappingRefs] at h
    rw [resolveMappingValue, resolveMappingValue]
    cases hr : refOf members with
    | some path => exact h path (by simp [hr])
    | none =>
      rw [hr] at h
      show (resolveMembers ctx members).map Json.obj = (resolveMembers ctx' members).map Json.obj
      rw [resolveMembers_congr members h]
  | .arr items, h => by
    rw [resolveMappingValue, resolveMappingValue, resolveItems_congr items h]
  | .str s, h => by
    rw [collectMappingRefs] at h
    rw [resolveMappingValue, resolveMappingValue]
    cases hr : refOfText s with
    | some path => exact h path (by simp [hr])
    | none => rfl
  | .null, _ => rfl
  | .bool _, _ => rfl
  | .number _, _ => rfl

theorem resolveItems_congr : ∀ items : List Json,
    (∀ ref ∈ collectItems items, resolveMappingPath ctx ref = resolveMappingPath ctx' ref) →
    resolveItems ctx items = resolveItems ctx' items
  | [], _ => rfl
  | v :: items, h => by
    rw [resolveItems, resolveItems,
      resolveMappingValue_congr v fun ref hr => h ref (mem_append_left _ hr),
      resolveItems_congr items fun ref hr => h ref (mem_append_right _ hr)]

theorem resolveMembers_congr : ∀ members : List (String × Json),
    (∀ ref ∈ collectMembers members, resolveMappingPath ctx ref = resolveMappingPath ctx' ref) →
    resolveMembers ctx members = resolveMembers ctx' members
  | [], _ => rfl
  | (_, v) :: members, h => by
    rw [resolveMembers, resolveMembers,
      resolveMappingValue_congr v fun ref hr => h ref (mem_append_left _ hr),
      resolveMembers_congr members fun ref hr => h ref (mem_append_right _ hr)]

end

/-! ### What validation says of the references -/

section Accepted

variable {host : Host} {reg : Registry} {d : Definition} {n : DefinitionNode} {mapping : Obj}

theorem ne_empty_of_mem_ids (h : validateDefinition host reg d = none) {id : String}
    (hid : id ∈ d.ids) : id ≠ "" := by
  obtain ⟨n, hn, rfl⟩ := mem_map.mp hid
  rw [validateDefinition, firstError_eq_none_iff] at h
  obtain ⟨seen, hseen⟩ := exists_check_of_mem (h (checkEach (validateNode host reg) [] d.nodes)
    (by simp)) hn
  intro hempty
  rw [validateNode, if_pos hempty] at hseen
  cases hseen

theorem specOf_of_mem (h : WellFormed host reg d) (hn : n ∈ d.nodes) :
    ∃ spec, reg.lookup host n.nodeID n.version = .ok spec ∧ specOf host reg d n.id = some spec := by
  obtain ⟨spec, hspec⟩ := h.spec n hn
  have hfind : d.nodes.find? (·.id == n.id) = some n := Keyed.find?_eq_some h.ids_nodup hn
  refine ⟨spec, hspec, ?_⟩
  rw [specOf, hfind]
  simp only [hspec]
  rfl

/-- A node that declares a mapping in an accepted definition: it is neither a trigger nor an
approval, and its references begin with a name there is. -/
theorem mapping_accepted (h : validateDefinition host reg d = none) (hn : n ∈ d.nodes)
    (hm : n.input = some mapping) :
    ∃ spec, specOf host reg d n.id = some spec ∧ spec.isTrigger = false ∧
      spec.id ≠ approvalNodeID ∧
      ∀ ref ∈ collectMappingRefs (.obj mapping), refRoot ref = "input" ∨ refRoot ref ∈ d.ids := by
  have hwf := wellFormed_of_validateDefinition h
  obtain ⟨spec, -, hspec⟩ := specOf_of_mem hwf hn
  rw [validateDefinition, firstError_eq_none_iff] at h
  have hcheck := findSome?_eq_none_iff.mp
    (h (d.nodes.findSome? (validateInputMapping host reg d)) (by simp)) n hn
  simp only [validateInputMapping, hm, hspec] at hcheck
  split_ifs at hcheck with htrigger happroval
  refine ⟨spec, hspec, by simpa using htrigger, happroval, fun ref href => ?_⟩
  have hroots := firstError_eq_none_iff.mp hcheck _ (mem_cons_of_mem _ (mem_singleton_self _))
  have hroot := findSome?_eq_none_iff.mp hroots ref href
  split_ifs at hroot with hok
  exact hok.imp_right mem_ids_of_specOf

end Accepted

/-! ### Scopes -/

/-- The mapping of a node of `d` reads what its references name: each begins with `input` or with a
node, it is resolved in the run input or in the output of that node, and outputs of nodes that no
reference names make no difference. -/
structure Scoped (d : Definition) (n : DefinitionNode) (mapping : Obj) : Prop where
  named : ∀ ref ∈ collectMappingRefs (.obj mapping), refRoot ref = "input" ∨ refRoot ref ∈ d.ids
  input : ∀ ref ∈ collectMappingRefs (.obj mapping), refRoot ref = "input" →
    ∀ (run : Run) (outputs : NodeOutputs d),
      resolveMappingPath (mappingContext run outputs.entries) ref =
        resolveWithin (.obj run.input) ref
  node : ∀ ref ∈ collectMappingRefs (.obj mapping), refRoot ref ∈ d.ids →
    ∀ (run : Run) (outputs : NodeOutputs d),
      resolveMappingPath (mappingContext run outputs.entries) ref =
        resolveInOutput outputs.entries ref
  independent : ∀ (run : Run) (outputs outputs' : NodeOutputs d),
    (∀ ref ∈ collectMappingRefs (.obj mapping),
      outputs.entries.lookup (refRoot ref) = outputs'.entries.lookup (refRoot ref)) →
    mappedNodeInput run n mapping outputs.entries = mappedNodeInput run n mapping outputs'.entries

/-- A map in which a path leads to something. -/
def pathTo : List String → Obj
  | [] => [("", .null)]
  | part :: parts => [(part, .obj (pathTo parts))]

theorem walkPath_pathTo (parts : List String) :
    walkPath parts (.obj (pathTo parts)) = some (.obj [("", .null)]) := by
  induction parts with
  | nil => rfl
  | cons part parts ih =>
    rw [pathTo, walkPath, Obj.get?, lookup_cons, beq_self_eq_true]
    exact ih

theorem walkPath_empty_ne (parts : List String) :
    walkPath parts (.obj []) ≠ some (.obj [("", .null)]) := by
  cases parts with
  | nil | cons part parts =>
    intro h
    cases h

theorem lookup_eq_none_of_notMem {d : Definition} (outputs : NodeOutputs d) {id : String}
    (h : id ∉ d.ids) : outputs.entries.lookup id = none := by
  rw [lookup_eq_none_iff]
  intro p hp
  rw [bne_iff_ne]
  rintro rfl
  exact h (outputs.mem p hp)

section

variable {host : Host} {reg : Registry} {d : Definition} {n : DefinitionNode} {mapping : Obj}

theorem refRoot_ne_empty (h : validateDefinition host reg d = none)
    (hroot : refRoot ref = "input" ∨ refRoot ref ∈ d.ids) : refRoot ref ≠ "" := by
  rcases hroot with hroot | hroot
  · rw [hroot]
    decide
  · exact ne_empty_of_mem_ids h hroot

theorem mappedNodeInput_congr (h : validateDefinition host reg d = none) (hn : n ∈ d.nodes)
    (hm : n.input = some mapping) (run : Run) (outputs outputs' : NodeOutputs d)
    (hagree : ∀ ref ∈ collectMappingRefs (.obj mapping),
      outputs.entries.lookup (refRoot ref) = outputs'.entries.lookup (refRoot ref)) :
    mappedNodeInput run n mapping outputs.entries =
      mappedNodeInput run n mapping outputs'.entries := by
  obtain ⟨-, -, -, -, hnamed⟩ := mapping_accepted h hn hm
  have hresolve : resolveMappingValue (mappingContext run outputs.entries) (.obj mapping) =
      resolveMappingValue (mappingContext run outputs'.entries) (.obj mapping) := by
    refine resolveMappingValue_congr _ fun ref href => ?_
    have hne := refRoot_ne_empty h (hnamed ref href)
    rw [resolveMappingPath_eq _ hne, resolveMappingPath_eq _ hne, get?_mappingContext,
      get?_mappingContext, hagree ref href]
  rw [mappedNodeInput_eq, mappedNodeInput_eq, hresolve]

theorem resolve_input (run : Run) (outputs : NodeOutputs d) (hroot : refRoot ref = "input") :
    resolveMappingPath (mappingContext run outputs.entries) ref =
      resolveWithin (((outputs.entries.lookup "input").map Json.obj).getD (.obj run.input)) ref := by
  have hne : refRoot ref ≠ "" := by
    rw [hroot]
    decide
  rw [resolveMappingPath_eq _ hne, get?_mappingContext, hroot, if_pos rfl, resolveWithin]
  cases outputs.entries.lookup "input" <;> rfl

theorem resolve_node (h : validateDefinition host reg d = none) (run : Run)
    (outputs : NodeOutputs d) (hroot : refRoot ref ∈ d.ids) (hinput : refRoot ref ≠ "input") :
    resolveMappingPath (mappingContext run outputs.entries) ref =
      resolveInOutput outputs.entries ref := by
  rw [resolveMappingPath_eq _ (ne_empty_of_mem_ids h hroot), get?_mappingContext, if_neg hinput,
    resolveInOutput]
  cases outputs.entries.lookup (refRoot ref) <;> rfl

/-- **A mapping reads what its references name** unless it reads `input` in a definition that has a
node of this name. -/
theorem scoped_iff (h : validateDefinition host reg d = none) (hn : n ∈ d.nodes)
    (hm : n.input = some mapping) :
    Scoped d n mapping ↔
      ("input" ∈ d.ids → ∀ ref ∈ collectMappingRefs (.obj mapping), refRoot ref ≠ "input") := by
  obtain ⟨-, -, -, -, hnamed⟩ := mapping_accepted h hn hm
  constructor
  · intro hs hid ref href hroot
    -- the node has an empty output, the path leads somewhere in the run input only
    let run : Run := { id := "", definition := d, input := pathTo (splitPath ref).tail }
    let outputs : NodeOutputs d :=
      ⟨[("input", [])], nodup_singleton _, fun p hp => by rwa [mem_singleton.mp hp]⟩
    have hread := hs.input ref href hroot run outputs
    rw [resolve_input run outputs hroot] at hread
    have hwalk : found ref (walkPath (splitPath ref).tail (.obj [])) =
        found ref (walkPath (splitPath ref).tail (.obj (pathTo (splitPath ref).tail))) := hread
    rw [walkPath_pathTo] at hwalk
    cases hw : walkPath (splitPath ref).tail (.obj []) with
    | none =>
      rw [hw] at hwalk
      cases hwalk
    | some v =>
      rw [hw] at hwalk
      exact walkPath_empty_ne _ (hw.trans (congrArg some (Except.ok.inj hwalk)))
  · intro hcond
    refine ⟨hnamed, fun ref href hroot run outputs => ?_, fun ref href hroot run outputs => ?_,
      mappedNodeInput_congr h hn hm⟩
    · have hid : "input" ∉ d.ids := fun hid => hcond hid ref href hroot
      rw [resolve_input run outputs hroot, lookup_eq_none_of_notMem outputs hid]
      rfl
    · refine resolve_node h run outputs hroot fun hinput => ?_
      exact hcond (hinput ▸ hroot) ref href hinput

end

/-! ### A node called `input` -/

/-- `nexaroute.trigger.manual`. -/
def manualSpec : NodeSpec :=
  { id := "nexaroute.trigger.manual"
    category := "trigger"
    inputSchema := [{ name := "payload", type := .object }]
    maxInputBytes := 65536
    maxOutputBytes := 65536 }

/-- `nexaroute.control.json_transform`. -/
def transformSpec : NodeSpec :=
  { id := "nexaroute.control.json_transform"
    category := "control"
    inputSchema := [{ name := "value", type := .object, required := true },
      { name := "operations", type := .array, required := true }]
    maxInputBytes := 65536
    maxOutputBytes := 65536 }

/-- `nexaroute.provider.health`. -/
def healthSpec : NodeSpec :=
  { id := "nexaroute.provider.health"
    category := "provider"
    inputSchema := [{ name := "deployment_id", type := .string, required := true }]
    permission := .readProviders
    sideEffect := .read
    retry := { maxAttempts := 3, retryableCodes := ["timeout", "backend_error"] }
    defaultTimeout := 10 * second
    maxTimeout := 30 * second
    maxOutputBytes := 65536 }

def healthRegistry : Registry where
  specs := [manualSpec, transformSpec, healthSpec]
  valid spec h := by
    simp only [List.mem_cons, List.not_mem_nil, or_false] at h
    rcases h with rfl | rfl | rfl <;> constructor <;> decide
  distinct := by decide

/-- A manual trigger. -/
def startNode : DefinitionNode :=
  { id := "start", nodeID := manualSpec.id, version := supportedVersion }

/-- A transformation of an empty object that does nothing, under a name. -/
def transformNode (id : String) : DefinitionNode :=
  { id, nodeID := transformSpec.id, version := supportedVersion
    input := some [("operations", .arr []), ("value", .obj [])] }

/-- A mapping that takes the id of a deployment from the run input. -/
def payloadMapping : Obj := [("deployment_id", .str "$.input.payload.id")]

/-- The health of the deployment that the run input names. -/
def checkNode : DefinitionNode :=
  { id := "check", nodeID := healthSpec.id, version := supportedVersion
    input := some payloadMapping }

/-- A trigger, a transformation and the check, one after the other. -/
def checkFlow (id : String) : Definition where
  schemaVersion := definitionSchemaVersion
  id := "flow"
  name := "flow"
  nodes := [startNode, transformNode id, checkNode]
  edges := [{ id := "e1", source := "start", target := id },
    { id := "e2", source := id, target := "check" }]
  triggers := [{ name := "start", kind := "manual" }]

/-- A run that names a deployment. -/
def checkRun (id : String) : Run :=
  { id := "run_1", definition := checkFlow id
    input := [("payload", .obj [("id", .str "acme/model")])] }

/-- The outputs of the first two nodes. -/
def checkOutputs (id : String) : Outputs :=
  [("start", [("payload", .obj [("id", .str "acme/model")])]), (id, [("value", .obj [])])]

/-- Where the transformation has another name, the mapping of the check is scoped. -/
theorem checkFlow_scoped :
    validateDefinition plainHost healthRegistry (checkFlow "tidy") = none ∧
      Scoped (checkFlow "tidy") checkNode payloadMapping := by
  have haccepted : validateDefinition plainHost healthRegistry (checkFlow "tidy") = none := by
    decide +kernel
  refine ⟨haccepted, (scoped_iff haccepted ?_ rfl).mpr ?_⟩
  · exact .tail _ (.tail _ (.head _))
  · intro hid
    exact absurd hid (by decide)

/-- Where it is called `input`, the definition is accepted too, and the run input is out of reach:
the check finds no deployment although the run names one. -/
theorem input_node_shadows :
    validateDefinition plainHost healthRegistry (checkFlow "input") = none ∧
      checkNode ∈ (checkFlow "input").nodes ∧ checkNode.input = some payloadMapping ∧
      resolveWithin (.obj (checkRun "input").input) "input.payload.id" = .ok (.str "acme/model") ∧
      mappedNodeInput (checkRun "input") checkNode payloadMapping (checkOutputs "input") =
        .error (.pathNotFound "input.payload.id") ∧
      ¬ Scoped (checkFlow "input") checkNode payloadMapping := by
  have haccepted : validateDefinition plainHost healthRegistry (checkFlow "input") = none := by
    decide +kernel
  have hnode : checkNode ∈ (checkFlow "input").nodes := .tail _ (.tail _ (.head _))
  refine ⟨haccepted, hnode, rfl, rfl, rfl, fun hs => ?_⟩
  let outputs : NodeOutputs (checkFlow "input") :=
    ⟨checkOutputs "input", by decide, by decide⟩
  have hread := hs.input "input.payload.id" (.head _) (by decide) (checkRun "input") outputs
  cases hread

end NexaRoute.Nexaflow
