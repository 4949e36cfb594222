import NexaRoute.Nexaflow.Mapping

/-!
# The graph of a definition

`TopologicalOrder` lists the nodes of an accepted definition in the least order in which every edge
leads forward, so two engines derive the same schedule whatever order nodes and edges are listed in.

`ValidateDefinition` accepts a definition whose parts are valid just when its graph is: no cycle,
every node reached from a trigger, and exactly the triggers without an incoming edge.

## Main results

* `topologicalOrder_least` — the schedule is the least
* `validateDefinition_iff_graph` — what is accepted
-/

namespace NexaRoute.Nexaflow

open List NexaRoute.Digraph

variable {host : Host} {reg : Registry} {d : Definition}

/-! ### The topological order -/

theorem arcs_ends (hends : ∀ e ∈ d.edges, e.source ∈ d.ids ∧ e.target ∈ d.ids) :
    ∀ a ∈ d.arcs, a.1 ∈ d.ids.insertionSort (· ≤ ·) ∧ a.2 ∈ d.ids.insertionSort (· ≤ ·) := by
  intro a ha
  obtain ⟨e, he, rfl⟩ := mem_map.mp ha
  rw [mem_insertionSort, mem_insertionSort]
  exact hends e he

theorem mem_arcs {e : DefinitionEdge} (he : e ∈ d.edges) : (e.source, e.target) ∈ d.arcs :=
  mem_map_of_mem he

/-- **The topological order of an accepted definition** has every node once and every source before
its target, does not depend on how nodes and edges are listed, and comes lexicographically before
every other such order. -/
theorem topologicalOrder_least (h : validateDefinition host reg d = none) :
    (topologicalOrder d).Perm d.ids ∧ (topologicalOrder d).Nodup ∧
      (∀ e ∈ d.edges, [e.source, e.target].Sublist (topologicalOrder d)) ∧
      (∀ d' : Definition, d'.nodes.Perm d.nodes → d'.edges.Perm d.edges →
        topologicalOrder d' = topologicalOrder d) ∧
      ∀ order : List String, order.Perm d.ids →
        (∀ e ∈ d.edges, [e.source, e.target].Sublist order) →
        topologicalOrder d = order ∨ List.Lex (· < ·) (topologicalOrder d) order := by
  have hwf := wellFormed_of_validateDefinition h
  have hsort : ∀ l : List String, (l.insertionSort (· ≤ ·)).Perm l := perm_insertionSort _
  have hlen : ∀ d : Definition,
      (d.ids.insertionSort (· ≤ ·)).length ≤ d.nodes.length + d.edges.length := by
    intro d
    rw [length_insertionSort, Definition.ids, length_map]
    omega
  have hids := (hsort d.ids).nodup_iff.mpr hwf.ids_nodup
  have hsorted : ∀ l : List String, (l.insertionSort (· ≤ ·)).Pairwise (· ≤ ·) :=
    pairwise_insertionSort _
  have htop := isTopological_kahn hwf.acyclic hids (arcs_ends hwf.ends) (hlen d)
  have hperm := hwf.perm_topologicalOrder
  refine ⟨hperm, hperm.nodup_iff.mpr hwf.ids_nodup, fun e he => ?_, fun d' hn he => ?_,
    fun order ho hforward => ?_⟩
  · exact htop.forward _ (mem_arcs he) (hperm.mem_iff.mpr (hwf.ends e he).2)
  · refine kahn_congr hids (arcs_ends hwf.ends) (hsorted _) hwf.acyclic (hlen d) (fun a => ?_) ?_
      (hsorted _) (hlen d')
    · exact (he.map fun e => (e.source, e.target)).mem_iff
    · exact ((hsort _).trans (hn.map DefinitionNode.id)).trans (hsort _).symm
  · refine kahn_le hids (arcs_ends hwf.ends) (hsorted _) ⟨ho.trans (hsort _).symm, fun a ha _ => ?_⟩
    obtain ⟨e, he, rfl⟩ := mem_map.mp ha
    exact hforward e he

/-- The order of a small flow. -/
theorem checkFlow_order :
    validateDefinition plainHost healthRegistry (checkFlow "tidy") = none ∧
      topologicalOrder (checkFlow "tidy") = ["start", "tidy", "check"] ∧
      ["start", "tidy"].Sublist (topologicalOrder (checkFlow "tidy")) := by
  have haccepted : validateDefinition plainHost healthRegistry (checkFlow "tidy") = none := by
    decide +kernel
  refine ⟨haccepted, by decide +kernel, ?_⟩
  exact (topologicalOrder_least haccepted).2.2.1 { id := "e1", source := "start", target := "tidy" }
    mem_cons_self

/-! ### Validation -/

/-- The settings, the nodes with their configs and mappings, and the branch labels are valid, each
for itself. -/
structure NodesValid (host : Host) (reg : Registry) (d : Definition) : Prop where
  settings : validateSettings d.settings = none
  nodes : checkEach (validateNode host reg) [] d.nodes = none
  mappings : ∀ n ∈ d.nodes, validateInputMapping host reg d n = none
  branches : ∀ e ∈ d.edges, e.branch ≠ "" → ∀ source, specOf host reg d e.source = some source →
    validateBranchEdge d e source = none

/-- So are the heading, the trigger declarations and the edges, but for what they say as a graph. -/
structure PartsValid (host : Host) (reg : Registry) (d : Definition) : Prop
    extends NodesValid host reg d where
  heading : d.schemaVersion = definitionSchemaVersion ∧ d.id ≠ "" ∧ d.name ≠ "" ∧ d.nodes ≠ []
  triggers : d.triggers ≠ [] ∧ checkEach (validateTrigger host reg d) [] d.triggers = none
  declared : ∀ id ∈ d.ids, instanceIsTrigger host reg d id = true →
    id ∈ d.triggers.map DefinitionTrigger.name
  edgeIDs : (∀ e ∈ d.edges, e.id ≠ "") ∧ (d.edges.map DefinitionEdge.id).Nodup
  ends : ∀ e ∈ d.edges, e.source ∈ d.ids ∧ e.target ∈ d.ids
  triples : (d.edges.map fun e => (e.source, e.target, e.branch)).Nodup
  /-- The triples are compared with a zero rune between their parts. -/
  separable : ∀ id ∈ d.ids, '\x00' ∉ id.toList

/-- The graph of a definition that may be accepted. -/
structure GraphValid (host : Host) (reg : Registry) (d : Definition) : Prop where
  acyclic : Digraph.Acyclic d.arcs
  reached : ∀ id ∈ d.ids, ∃ t ∈ d.ids, instanceIsTrigger host reg d t = true ∧
    Relation.ReflTransGen (fun a b => (a, b) ∈ d.arcs) t id
  roots : ∀ id ∈ d.ids, instanceIsTrigger host reg d id = true ↔ ∀ e ∈ d.edges, e.target ≠ id

theorem checkEach_eq_none {α ε : Type} {check : List α → α → Option ε} {seen l : List α}
    (h : ∀ l₁ a l₂, l = l₁ ++ a :: l₂ → check (l₁.reverse ++ seen) a = none) :
    checkEach check seen l = none := by
  induction l generalizing seen with
  | nil => rfl
  | cons a l ih =>
    refine Option.or_eq_none_iff.mpr ⟨h [] a l rfl, ih fun l₁ b l₂ hl => ?_⟩
    simpa using h (a :: l₁) b l₂ (by rw [hl, cons_append])

theorem checkAcyclic_eq_none_iff (hends : ∀ e ∈ d.edges, e.source ∈ d.ids ∧ e.target ∈ d.ids) :
    checkAcyclic d = none ↔ Digraph.Acyclic d.arcs := by
  have hnext : ∀ v w, w ∈ (succs d.arcs v).insertionSort (· ≤ ·) ↔ (v, w) ∈ d.arcs := by
    intro v w
    rw [mem_insertionSort, mem_succs]
  have hfuel : (d.ids.insertionSort (· ≤ ·)).length ≤ d.nodes.length := by simp [Definition.ids]
  rw [← searchCycle_isOk_iff hnext (arcs_ends hends) hfuel, checkAcyclic]
  split <;> next hs => simp [hs, Except.toBool]

theorem mem_reached_iff (hends : ∀ e ∈ d.edges, e.source ∈ d.ids ∧ e.target ∈ d.ids) {id : String} :
    id ∈ reached host reg d ↔ ∃ t ∈ d.ids, instanceIsTrigger host reg d t = true ∧
      Relation.ReflTransGen (fun a b => (a, b) ∈ d.arcs) t id := by
  have hnext : ∀ v, ∀ w ∈ succs d.arcs v, w ∈ d.ids := by
    intro v w hw
    obtain ⟨e, he, heq⟩ := mem_map.mp (mem_succs.mp hw)
    cases heq
    exact (hends e he).2
  rw [reached, mem_foldl_visit_iff hnext (fun v hv => (mem_filter.mp hv).1)
    (by simp [Definition.ids])]
  simp only [mem_filter, mem_succs, and_assoc]

theorem NodesValid.specOf_isSome (h : NodesValid host reg d) {id : String} (hid : id ∈ d.ids) :
    ∃ spec, specOf host reg d id = some spec := by
  rw [specOf]
  cases hf : d.nodes.find? (·.id == id) with
  | none =>
    obtain ⟨n, hn, rfl⟩ := mem_map.mp hid
    simpa using find?_eq_none.mp hf n hn
  | some n =>
    obtain ⟨seen, hseen⟩ := exists_check_of_mem h.nodes (mem_of_find?_eq_some hf)
    obtain ⟨spec, hspec⟩ := (validateNode_eq_none hseen).2
    exact ⟨spec, by simp [hspec, Except.toOption]⟩

theorem PartsValid.nodup_edgeTriple (h : PartsValid host reg d) : (d.edges.map edgeTriple).Nodup := by
  rw [Nodup, pairwise_map]
  refine (pairwise_map.mp h.triples).imp_of_mem fun {e e'} he he' hne heq => hne ?_
  have hchars := congrArg String.toList heq
  simp only [edgeTriple, String.toList_append, append_assoc] at hchars
  have hfree : ∀ e ∈ d.edges, '\x00' ∉ e.source.toList ∧ '\x00' ∉ e.target.toList :=
    fun e he => ⟨h.separable _ (h.ends e he).1, h.separable _ (h.ends e he).2⟩
  obtain ⟨hsource, hrest⟩ := Go.append_cons_inj (hfree e he).1 (hfree e' he').1 hchars
  obtain ⟨htarget, hbranch⟩ := Go.append_cons_inj (hfree e he).2 (hfree e' he').2 hrest
  rw [String.toList_inj.mp hsource, String.toList_inj.mp htarget, String.toList_inj.mp hbranch]

theorem PartsValid.validateEdges (h : PartsValid host reg d) (hacyclic : Digraph.Acyclic d.arcs) :
    checkEach (validateEdge host reg d) [] d.edges = none := by
  refine checkEach_eq_none fun l₁ e l₂ hl => ?_
  have he : e ∈ d.edges := by simp [hl]
  -- What was seen before an edge does not have the key of the edge.
  have hnew : ∀ {κ : Type} (key : DefinitionEdge → κ), (d.edges.map key).Nodup →
      key e ∉ (l₁.reverse ++ []).map key := by
    intro κ key hnodup hmem
    rw [hl, map_append, map_cons] at hnodup
    refine (nodup_append.mp hnodup).2.2 (key e) ?_ (key e) mem_cons_self rfl
    simpa using hmem
  obtain ⟨source, hsource⟩ := h.specOf_isSome (h.ends e he).1
  obtain ⟨target, htarget⟩ := h.specOf_isSome (h.ends e he).2
  have hself : e.source ≠ e.target := by
    intro heq
    refine hacyclic e.source (.single ?_)
    have := mem_arcs he
    rwa [← heq] at this
  rw [validateEdge, if_neg (h.edgeIDs.1 e he), if_neg (hnew _ h.edgeIDs.2)]
  simp only [hsource, htarget, Option.isNone_some, Bool.false_eq_true, if_false, if_neg hself,
    if_neg (hnew _ h.nodup_edgeTriple)]
  split
  · next hb => exact h.branches e he hb source hsource
  · rfl

theorem validateRoot_eq_none_iff {n : DefinitionNode} :
    validateRoot host reg d n = none ↔
      (instanceIsTrigger host reg d n.id = true ↔ ∀ e ∈ d.edges, e.target ≠ n.id) := by
  have hempty : (incomingEdges d n.id).isEmpty = true ↔ ∀ e ∈ d.edges, e.target ≠ n.id := by
    simp [incomingEdges]
  rw [← hempty, validateRoot]
  split_ifs with h1 h2 h2 <;> simp [h1, h2]

theorem graphValid_of_checks (hends : ∀ e ∈ d.edges, e.source ∈ d.ids ∧ e.target ∈ d.ids)
    (hacyclic : checkAcyclic d = none) (hreached : ∀ n ∈ d.nodes, n.id ∈ reached host reg d)
    (hroots : ∀ n ∈ d.nodes, validateRoot host reg d n = none) : GraphValid host reg d := by
  refine ⟨(checkAcyclic_eq_none_iff hends).mp hacyclic, fun id hid => ?_, fun id hid => ?_⟩
  · obtain ⟨n, hn, rfl⟩ := mem_map.mp hid
    exact (mem_reached_iff hends).mp (hreached n hn)
  · obtain ⟨n, hn, rfl⟩ := mem_map.mp hid
    exact validateRoot_eq_none_iff.mp (hroots n hn)

/-- **A definition with valid parts is accepted just when its graph is valid**, and the search for a
cycle fails just when there is one. -/
theorem validateDefinition_iff_graph (h : PartsValid host reg d) :
    (validateDefinition host reg d = none ↔ GraphValid host reg d) ∧
      (checkAcyclic d = none ↔ Digraph.Acyclic d.arcs) := by
  have hacyclic := checkAcyclic_eq_none_iff h.ends
  refine ⟨?_, hacyclic⟩
  rw [validateDefinition, firstError_eq_none_iff]
  constructor
  · intro hall
    refine graphValid_of_checks h.ends (hall _ (by simp)) (fun n hn => ?_) (findSome?_eq_none_iff.mp
      (hall (d.nodes.findSome? (validateRoot host reg d)) (by simp)))
    have hreached := findSome?_eq_none_iff.mp (hall (d.nodes.findSome? fun n =>
      if n.id ∈ reached host reg d then none else some (.unreachable n.id)) (by simp)) n hn
    simpa using hreached
  · intro hg
    have hheading := h.heading
    have hdeclared : ∀ n ∈ d.nodes, ¬(instanceIsTrigger host reg d n.id = true ∧
        n.id ∉ d.triggers.map DefinitionTrigger.name) := fun n hn hn' =>
      hn'.2 (h.declared n.id (mem_map_of_mem hn) hn'.1)
    simp only [forall_mem_cons, not_mem_nil, IsEmpty.forall_iff, implies_true, and_true]
    refine ⟨by simp [hheading.1], by simp [hheading.2.1], by simp [hheading.2.2.1], h.settings,
      by simp [hheading.2.2.2], h.nodes, findSome?_eq_none_iff.mpr h.mappings,
      by simp [h.triggers.1], h.triggers.2, findSome?_eq_none_iff.mpr fun n hn =>
        if_neg (hdeclared n hn), h.validateEdges hg.acyclic, findSome?_eq_none_iff.mpr
        fun n hn => ?_, findSome?_eq_none_iff.mpr fun n hn => if_pos ?_, hacyclic.mpr hg.acyclic⟩
    · exact validateRoot_eq_none_iff.mpr (hg.roots n.id (mem_map_of_mem hn))
    · exact (mem_reached_iff h.ends).mpr (hg.reached n.id (mem_map_of_mem hn))

theorem nodesValid_of_unlabelled (hsettings : validateSettings d.settings = none)
    (hnodes : checkEach (validateNode host reg) [] d.nodes = none)
    (hmappings : ∀ n ∈ d.nodes, validateInputMapping host reg d n = none)
    (hbranches : ∀ e ∈ d.edges, e.branch = "") : NodesValid host reg d :=
  ⟨hsettings, hnodes, hmappings, fun e he hb => absurd (hbranches e he) hb⟩

theorem checkFlow_graph :
    validateDefinition plainHost healthRegistry (checkFlow "tidy") = none ∧
      GraphValid plainHost healthRegistry (checkFlow "tidy") := by
  have haccepted : validateDefinition plainHost healthRegistry (checkFlow "tidy") = none := by
    decide +kernel
  refine ⟨haccepted, (validateDefinition_iff_graph ?_).1.mp haccepted⟩
  exact { nodesValid_of_unlabelled (by decide +kernel) (by decide +kernel) (by decide +kernel)
      (by decide +kernel) with
    heading := by decide +kernel
    triggers := by decide +kernel
    declared := by decide +kernel
    edgeIDs := by decide +kernel
    ends := by decide +kernel
    triples := by decide +kernel
    separable := by decide +kernel }

/-- The flow with its second edge twice. -/
def doubledFlow : Definition :=
  { checkFlow "tidy" with
    edges := (checkFlow "tidy").edges ++ [{ id := "e3", source := "tidy", target := "check" }] }

/-- Two edges between the same nodes are no cycle and leave no node unreached, and are refused. -/
theorem doubledFlow_refused :
    NodesValid plainHost healthRegistry doubledFlow ∧
      GraphValid plainHost healthRegistry doubledFlow ∧
      validateDefinition plainHost healthRegistry doubledFlow =
        some (.duplicateEdge "tidy" "check" "") := by
  refine ⟨nodesValid_of_unlabelled ?_ ?_ ?_ ?_, graphValid_of_checks ?_ ?_ ?_ ?_, ?_⟩ <;>
    decide +kernel

end NexaRoute.Nexaflow
