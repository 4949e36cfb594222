import NexaRoute.Router.Candidates

/-!
# Virtual endpoints

A virtual endpoint is a public model name with a route profile: a pool of deployments and a chain
of pools to fall back on. `candidatesForRequirement` offers the deployments of those pools for the
name of an endpoint, and those of the router for any other name.

## Main definitions

* `candidatesForRequirement`, `Routable` — what a name can reach
-/

namespace NexaRoute.Router

open Go List

variable {cands : List Deployment} {allowed : List String}

/-- The value of a key in a map that is filled from a list. -/
def lookup {α : Type*} (key : α → String) (l : List α) (k : String) : Option α :=
  l.reverse.find? (key · == k)

def matchesPoolEntry (d : Deployment) (entry : String) : Bool :=
  d.id == entry || d.model == entry || d.aliases.contains entry || hasSuffix d.id ("/" ++ entry)

/-- The identifiers of the deployments of a pool. -/
def expand (cfg : Config) (pool : CandidatePoolConfig) : List String :=
  if toLower pool.mode = "all" then (all cfg).map (·.id)
  else pool.deployments.flatMap fun entry =>
    if trimSpace entry = "" then []
    else ((all cfg).filter (matchesPoolEntry · (trimSpace entry))).map (·.id)

/-- The deployments of the pool with an identifier; a pool that is not configured has none. -/
def expanded (cfg : Config) (poolID : String) : List String :=
  match lookup CandidatePoolConfig.id cfg.candidatePools poolID with
  | none => []
  | some pool => expand cfg pool

/-- A route: its endpoint, and what its pools allow, the primary pool first. -/
structure ResolvedRoute where
  virtualEndpointID : String
  pools : List (List String)
  deriving DecidableEq, Repr

/-- `Resolve`: the route of a public model name. A primary pool that is listed again among the
fallbacks is not tried again. -/
def resolve (cfg : Config) (model : String) : Option ResolvedRoute := do
  let ve ← lookup VirtualEndpointConfig.publicModel cfg.virtualEndpoints model
  let profile ← lookup RouteProfileConfig.id cfg.routeProfiles ve.routeProfile
  let primary ← lookup CandidatePoolConfig.id cfg.candidatePools profile.candidatePool
  let fallback :=
    if profile.fallbackChain = "" then []
    else match lookup FallbackChainConfig.id cfg.fallbackChains profile.fallbackChain with
      | none => []
      | some chain => chain.pools.filter (· != primary.id)
  some ⟨ve.id, expanded cfg primary.id :: fallback.map (expanded cfg)⟩

/-- A candidate joins when it is allowed and not there yet. -/
def addCandidate (allowed : List String) (out : List Deployment) (d : Deployment) :
    List Deployment :=
  if allowed.contains d.id && !out.any (·.id == d.id) then out ++ [d] else out

/-- One pool of `AllFilteredCandidates`. -/
def appendPool (candidates out : List Deployment) (allowed : List String) : List Deployment :=
  candidates.foldl (addCandidate allowed) out

/-- `AllFilteredCandidates`. -/
def ResolvedRoute.filter (route : ResolvedRoute) (candidates : List Deployment) : List Deployment :=
  route.pools.foldl (appendPool candidates) []

/-- Why a route is refused. -/
inductive RouteError
  | disabled (id : String)
  | protocolNotAllowed (protocol id : String) (allowed : List String)
  deriving DecidableEq, Repr

/-- A protocol as `checkVirtualEndpointProtocol` compares it. -/
def normProtocol (protocol : String) : String :=
  if toLower (trimSpace protocol) = "responses" then "openai_responses"
  else toLower (trimSpace protocol)

/-- `checkVirtualEndpointProtocol`. -/
def protocolAllowed (ve : VirtualEndpointConfig) (protocol : String) : Bool :=
  ve.protocols.isEmpty || ve.protocols.any fun p => normProtocol p == normProtocol protocol

/-- `candidatesForRequirement`. `strategy` orders the router's candidates, `promote` stands for the
canary and the session pin, which move one candidate to the front. -/
def candidatesForRequirement (cfg : Config) (health : Health) (strategy promote : Strategy)
    (req : Requirement) (protocol : String) : Except RouteError (List Deployment) :=
  match resolve cfg req.model with
  | none => .ok (candidates cfg health strategy req)
  | some route =>
    match lookup VirtualEndpointConfig.id cfg.virtualEndpoints route.virtualEndpointID with
    | none => .ok (candidates cfg health strategy req)
    | some ve =>
      if !ve.isEnabled then .error (.disabled ve.id)
      else if !protocolAllowed ve protocol then
        .error (.protocolNotAllowed protocol ve.id ve.protocols)
      else
        .ok (promote.order req (route.filter
          (candidates cfg health strategy { req with model := "" })))

/-! ### What the router has -/

/-- A deployment the router has for a name: any for the names that ask for any; else those indexed
under the name, or with none of these every one, if the configuration says so. -/
def RouterHas (cfg : Config) (model : String) (d : Deployment) : Prop :=
  if anyModel model = true then d ∈ all cfg
  else d ∈ byModel cfg model ∨
    byModel cfg model = [] ∧ cfg.fallbackOnUnknownModel = true ∧ d ∈ all cfg

variable {cfg : Config} {health : Health} {strategy promote : Strategy} {req : Requirement}
  {model protocol : String} {d : Deployment}

theorem mem_candidates_iff :
    d ∈ candidates cfg health strategy req ↔
      if anyModel req.model = true then d ∈ all cfg ∧ eligible cfg health req false d = true
      else d ∈ byModel cfg req.model ∧ eligible cfg health req false d = true ∨
        byModel cfg req.model = [] ∧ cfg.fallbackOnUnknownModel = true ∧ d ∈ all cfg ∧
          eligible cfg health req true d = true := by
  have horder : ∀ l : List Deployment,
      d ∈ (if l.length ≤ 1 then l else strategy.order req l) ↔ d ∈ l := by
    intro l
    split
    · exact Iff.rfl
    · exact (strategy.perm req l).mem_iff
  unfold candidates
  rw [horder]
  by_cases hany : anyModel req.model = true
  · simp [hany, known]
  · by_cases hnone : byModel cfg req.model = []
    · by_cases hfall : cfg.fallbackOnUnknownModel = true <;> simp [hany, hnone, known]
    · simp [hany, hnone, known]

theorem routerHas_of_mem (h : d ∈ candidates cfg health strategy req) :
    RouterHas cfg req.model d := by
  rw [mem_candidates_iff] at h
  unfold RouterHas
  split at h
  · rename_i hany
    rw [if_pos hany]
    exact h.1
  · rename_i hany
    rw [if_neg hany]
    rcases h with ⟨hmem, -⟩ | ⟨hnone, hfall, hmem, -⟩
    · exact .inl hmem
    · exact .inr ⟨hnone, hfall, hmem⟩

theorem mem_all_of_mem_byModel (h : d ∈ byModel cfg model) : d ∈ all cfg := by
  obtain ⟨i, hi, rfl⟩ := mem_map.mp h
  exact mem_map_of_mem (mem_of_mem_filter hi)

theorem RouterHas.mem_all (h : RouterHas cfg model d) : d ∈ all cfg := by
  unfold RouterHas at h
  split at h
  · exact h
  · rcases h with h | ⟨-, -, h⟩
    · exact mem_all_of_mem_byModel h
    · exact h

theorem matchesModel_of_mem_byModel (h : d ∈ byModel cfg model) : matchesModel d model = true := by
  obtain ⟨i, hi, rfl⟩ := mem_map.mp h
  obtain ⟨hreload, hkey⟩ := mem_filter.mp hi
  obtain ⟨⟨p, m⟩, -, rfl⟩ := mem_map.mp hreload
  have hkeys : model ∈ [(deploymentOf p m).id, (deploymentOf p m).model, m.id] ++
      (deploymentOf p m).aliases := by
    have hfiltered : (([(deploymentOf p m).id, (deploymentOf p m).model, m.id] ++
      (deploymentOf p m).aliases).filter (· != "")).contains model = true := hkey
    exact mem_of_mem_filter (contains_iff_mem.mp hfiltered)
  have hsuffix : hasSuffix (deploymentOf p m).id ("/" ++ m.id) = true := by
    simp only [hasSuffix, deploymentOf, isSuffixOf_iff_suffix, String.toList_append,
      append_assoc]
    exact suffix_append _ _
  simp only [matchesModel, Bool.or_eq_true, beq_iff_eq, contains_iff_mem]
  simp only [cons_append, nil_append, mem_cons] at hkeys
  rcases hkeys with rfl | rfl | rfl | hkeys
  · exact .inl (.inl (.inl (.inr rfl)))
  · exact .inl (.inl (.inr rfl))
  · exact .inr hsuffix
  · exact .inl (.inr hkeys)

theorem eligible_good (ignoreModel : Bool) (h : ignoreModel = true ∨ matchesModel d model = true) :
    eligible cfg .good (.plain model) ignoreModel d = true := by
  have hmatch : (!ignoreModel && !matchesModel d model) = false := by
    rcases h with h | h <;> simp [h]
  have hmodel : (Requirement.plain model).model = model := rfl
  unfold eligible evaluateDeployment
  rw [hmodel, hmatch]
  simp [Requirement.plain, Health.good]

theorem mem_candidates_good (strategy : Strategy) (h : RouterHas cfg model d) :
    d ∈ candidates cfg .good strategy (.plain model) := by
  rw [mem_candidates_iff]
  have hmodel : (Requirement.plain model).model = model := rfl
  rw [hmodel]
  unfold RouterHas at h
  split at h
  · rename_i hany
    rw [if_pos hany]
    exact ⟨h, eligible_good false (.inr (by simp [matchesModel, hany]))⟩
  · rename_i hany
    rw [if_neg hany]
    rcases h with h | ⟨hnone, hfall, h⟩
    · exact .inl ⟨h, eligible_good false (.inr (matchesModel_of_mem_byModel h))⟩
    · exact .inr ⟨hnone, hfall, h, eligible_good true (.inl rfl)⟩

/-! ### What is offered -/

/-- A deployment that a request for a name can be offered, under a protocol. -/
def Routable (cfg : Config) (protocol model : String) (d : Deployment) : Prop :=
  match resolve cfg model with
  | none => RouterHas cfg model d
  | some route =>
    match lookup VirtualEndpointConfig.id cfg.virtualEndpoints route.virtualEndpointID with
    | none => RouterHas cfg model d
    | some ve => ve.isEnabled = true ∧ protocolAllowed ve protocol = true ∧ d ∈ all cfg ∧
        ∃ allowed ∈ route.pools, d.id ∈ allowed

theorem mem_appendPool {out : List Deployment} (h : d ∈ appendPool cands out allowed) :
    d ∈ out ∨ d ∈ cands ∧ d.id ∈ allowed := by
  induction cands generalizing out with
  | nil => exact .inl h
  | cons c cands ih =>
    rcases ih h with h | ⟨h, hid⟩
    · unfold addCandidate at h
      split at h
      · rename_i hc
        rcases mem_append.mp h with h | h
        · exact .inl h
        · rw [mem_singleton.mp h]
          simp only [Bool.and_eq_true, contains_iff_mem] at hc
          exact .inr ⟨mem_cons_self, hc.1⟩
      · exact .inl h
    · exact .inr ⟨mem_cons_of_mem c h, hid⟩

theorem exists_mem_appendPool {out : List Deployment} {id : String}
    (h : (∃ d ∈ out, d.id = id) ∨ id ∈ allowed ∧ ∃ d ∈ cands, d.id = id) :
    ∃ d ∈ appendPool cands out allowed, d.id = id := by
  induction cands generalizing out with
  | nil =>
    rcases h with h | ⟨-, d, hd, -⟩
    · exact h
    · cases hd
  | cons c cands ih =>
    apply ih
    -- the candidate at the head joins, or one with its identifier is there
    unfold addCandidate
    rcases h with ⟨d, hd, hid⟩ | ⟨hallowed, d, hd, rfl⟩
    · left
      split
      · exact ⟨d, mem_append_left _ hd, hid⟩
      · exact ⟨d, hd, hid⟩
    · rcases mem_cons.mp hd with rfl | hd
      · left
        split
        · exact ⟨d, mem_append_right _ (mem_singleton.mpr rfl), rfl⟩
        · rename_i hout
          have hsome : out.any (·.id == d.id) = true := by
            by_contra hnone
            exact hout (by simp [hallowed, hnone])
          obtain ⟨d', hd', hid⟩ := any_eq_true.mp hsome
          exact ⟨d', hd', beq_iff_eq.mp hid⟩
      · exact .inr ⟨hallowed, d, hd, rfl⟩

theorem mem_of_mem_filter {route : ResolvedRoute} (h : d ∈ route.filter cands) :
    d ∈ cands ∧ ∃ allowed ∈ route.pools, d.id ∈ allowed := by
  have hfold : ∀ (pools : List (List String)) (out : List Deployment),
      d ∈ pools.foldl (appendPool cands) out →
        d ∈ out ∨ d ∈ cands ∧ ∃ allowed ∈ pools, d.id ∈ allowed := by
    intro pools
    induction pools with
    | nil => exact fun out h => .inl h
    | cons pool pools ih =>
      intro out h
      rcases ih _ h with h | ⟨h, allowed, hmem, hid⟩
      · rcases mem_appendPool h with h | ⟨h, hid⟩
        · exact .inl h
        · exact .inr ⟨h, pool, mem_cons_self, hid⟩
      · exact .inr ⟨h, allowed, mem_cons_of_mem pool hmem, hid⟩
  exact (hfold _ _ h).resolve_left (not_mem_nil)

theorem exists_mem_filter {route : ResolvedRoute} (hd : d ∈ cands) (hpool : allowed ∈ route.pools)
    (hid : d.id ∈ allowed) :
    ∃ d' ∈ route.filter cands, d'.id = d.id := by
  have hfold : ∀ (pools : List (List String)) (out : List Deployment),
      ((∃ d' ∈ out, d'.id = d.id) ∨ allowed ∈ pools) →
        ∃ d' ∈ pools.foldl (appendPool cands) out, d'.id = d.id := by
    intro pools
    induction pools with
    | nil => exact fun out h => h.resolve_right not_mem_nil
    | cons pool pools ih =>
      intro out h
      apply ih
      rcases h with h | h
      · exact .inl (exists_mem_appendPool (.inl h))
      · rcases mem_cons.mp h with rfl | h
        · exact .inl (exists_mem_appendPool (.inr ⟨hid, d, hd, rfl⟩))
        · exact .inr h
  exact hfold _ _ (.inr hpool)

theorem routable_of_mem {l : List Deployment}
    (hl : candidatesForRequirement cfg health strategy promote req protocol = .ok l) (hd : d ∈ l) :
    Routable cfg protocol req.model d := by
  unfold candidatesForRequirement at hl
  unfold Routable
  cases hroute : resolve cfg req.model with
  | none =>
    simp only [hroute] at hl ⊢
    cases hl
    exact routerHas_of_mem hd
  | some route =>
    simp only [hroute] at hl ⊢
    cases hve : lookup VirtualEndpointConfig.id cfg.virtualEndpoints route.virtualEndpointID with
    | none =>
      simp only [hve] at hl ⊢
      cases hl
      exact routerHas_of_mem hd
    | some ve =>
      simp only [hve] at hl ⊢
      split at hl
      · cases hl
      split at hl
      · cases hl
      rename_i hon hprotocol
      cases hl
      obtain ⟨hcand, hpools⟩ := mem_of_mem_filter ((promote.perm _ _).mem_iff.mp hd)
      exact ⟨by simpa using hon, by simpa using hprotocol, (routerHas_of_mem hcand).mem_all, hpools⟩

theorem exists_mem_of_routable (strategy promote : Strategy) (h : Routable cfg protocol model d) :
    ∃ l, candidatesForRequirement cfg .good strategy promote (.plain model) protocol = .ok l ∧
      ∃ d' ∈ l, d'.id = d.id := by
  unfold Routable at h
  have hmodel : (Requirement.plain model).model = model := rfl
  unfold candidatesForRequirement
  rw [hmodel]
  cases hroute : resolve cfg model with
  | none =>
    simp only [hroute] at h ⊢
    exact ⟨_, rfl, d, mem_candidates_good strategy h, rfl⟩
  | some route =>
    simp only [hroute] at h ⊢
    cases hve : lookup VirtualEndpointConfig.id cfg.virtualEndpoints route.virtualEndpointID with
    | none =>
      simp only [hve] at h ⊢
      exact ⟨_, rfl, d, mem_candidates_good strategy h, rfl⟩
    | some ve =>
      simp only [hve] at h ⊢
      obtain ⟨hon, hprotocol, hall, allowed, hpool, hid⟩ := h
      have hany : RouterHas cfg "" d := by
        exact hall
      obtain ⟨d', hd', hid'⟩ := exists_mem_filter (mem_candidates_good strategy hany) hpool hid
      simp only [hon, hprotocol, Bool.not_true, Bool.false_eq_true, if_false]
      exact ⟨_, rfl, d', (promote.perm _ _).mem_iff.mpr hd', hid'⟩

end NexaRoute.Router
