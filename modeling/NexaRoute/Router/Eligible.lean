import NexaRoute.Router.Resolver
import NexaRoute.Router.Strategies
import NexaRoute.Keyed

/-!
# Candidates and the check before an attempt

A request is offered its candidates at once, and each of them is checked again by `Eligible` right
before it is attempted. The two look a model up in different ways: `Candidates` in the index that
`Reload` built, `Eligible` by comparing the deployment with the name. They agree because identifiers
have no slash, so that the only name a deployment has as a suffix is that of its model.

## Main results

* `candidates_eq_eligible` — the candidates pass the check
-/

namespace NexaRoute.Router

open Go List

/-! ### Valid configurations -/

/-- Every model of the configuration with its provider. -/
def allModels (cfg : Config) : List (ProviderConfig × ModelConfig) :=
  cfg.providers.flatMap fun p => p.models.map fun m => (p, m)

/-- The identifiers `Validate` accepts: none has a slash, and no two deployments share one. -/
structure ValidIDs (cfg : Config) : Prop where
  provider : ∀ p ∈ cfg.providers, '/' ∉ p.id.toList
  model : ∀ p ∈ cfg.providers, ∀ m ∈ p.models, '/' ∉ m.id.toList
  unique : ((allModels cfg).map fun pm => pm.1.id ++ "/" ++ pm.2.id).Nodup

variable {cfg : Config} {health : Health} {live : Live} {strategy : Strategy} {req : Requirement}
  {model id : String} {d : Deployment}

theorem enabledModels_sublist (cfg : Config) : (enabledModels cfg).Sublist (allModels cfg) := by
  unfold enabledModels allModels
  induction cfg.providers with
  | nil => exact .refl _
  | cons p providers ih =>
    simp only [flatMap_cons]
    refine List.Sublist.append ?_ ih
    split
    · exact filter_sublist.map _
    · exact nil_sublist _

theorem all_eq (cfg : Config) :
    all cfg = (enabledModels cfg).map fun pm => deploymentOf pm.1 pm.2 := by
  simp [all, reload]

theorem ValidIDs.nodup_all (h : ValidIDs cfg) : ((all cfg).map (·.id)).Nodup := by
  rw [all_eq, map_map]
  exact h.unique.sublist ((enabledModels_sublist cfg).map _)

theorem mem_of_mem_enabledModels {pm : ProviderConfig × ModelConfig}
    (h : pm ∈ enabledModels cfg) : pm.1 ∈ cfg.providers ∧ pm.2 ∈ pm.1.models := by
  obtain ⟨p, hp, hpm⟩ := mem_flatMap.mp ((enabledModels_sublist cfg).subset h)
  obtain ⟨m, hm, rfl⟩ := mem_map.mp hpm
  exact ⟨hp, hm⟩

/-! ### The index and the comparison -/

/-- A name that a deployment has behind a slash is the identifier of its model: the slash between
provider and model is the only one there is. -/
theorem eq_of_hasSuffix {p m : String} (hp : '/' ∉ p.toList) (hm : '/' ∉ m.toList)
    (h : hasSuffix (p ++ "/" ++ m) ("/" ++ model) = true) : m = model := by
  simp only [hasSuffix, isSuffixOf_iff_suffix, String.toList_append] at h
  obtain ⟨t, ht⟩ := h
  have heq : t ++ '/' :: model.toList = p.toList ++ '/' :: m.toList := by
    simpa using ht
  have hcount := congrArg (count '/') heq
  simp only [count_append, count_cons_self, count_eq_zero.mpr hp,
    count_eq_zero.mpr hm] at hcount
  have ht0 : '/' ∉ t := count_eq_zero.mp (by omega)
  exact String.toList_injective (append_cons_inj ht0 hp heq).2.symm

/-- **The index and the comparison agree**, for a name that does not ask for any deployment. -/
theorem mem_byModel_iff (hv : ValidIDs cfg) (hany : anyModel model = false) :
    d ∈ byModel cfg model ↔ d ∈ all cfg ∧ matchesModel d model = true := by
  constructor
  · intro h
    exact ⟨mem_all_of_mem_byModel h, matchesModel_of_mem_byModel h⟩
  · rintro ⟨hall, hmatch⟩
    rw [all_eq] at hall
    obtain ⟨⟨p, m⟩, hpm, rfl⟩ := List.mem_map.mp hall
    obtain ⟨hp, hm⟩ := mem_of_mem_enabledModels hpm
    have hne : model ≠ "" := by
      rintro rfl
      simp [anyModel] at hany
    have hkeys : model ∈ [(deploymentOf p m).id, (deploymentOf p m).model, m.id] ++
        (deploymentOf p m).aliases := by
      simp only [matchesModel, hany, Bool.false_or, Bool.or_eq_true, beq_iff_eq,
        List.contains_iff_mem] at hmatch
      rcases hmatch with ((h | h) | h) | h
      · simp [h]
      · simp [h]
      · simp [h]
      · simp [eq_of_hasSuffix (hv.provider p hp) (hv.model p hp m hm) h]
    refine List.mem_map.mpr ⟨⟨deploymentOf p m, _⟩, List.mem_filter.mpr
      ⟨List.mem_map.mpr ⟨(p, m), hpm, rfl⟩, ?_⟩, rfl⟩
    exact List.contains_iff_mem.mpr (List.mem_filter.mpr ⟨hkeys, by simpa using hne⟩)

/-! ### The check before an attempt -/

/-- The deployment of an identifier: the one `Reload` met last. -/
def byID (cfg : Config) (id : String) : Option Deployment :=
  (all cfg).reverse.find? fun d => d.id == id

/-- `Eligible`: the deployment and its score, if it may serve the request. As for `Candidates`, the
model is not compared when the router does not know it and may fall back. -/
def routerEligible (cfg : Config) (health : Health) (live : Live) (req : Requirement)
    (id : String) : Option Scored := do
  let d ← byID cfg id
  let ignoreModel := !known cfg req.model && cfg.fallbackOnUnknownModel
  if eligible cfg health req ignoreModel d then some (scored cfg health live req d) else none

theorem byID_eq_some_iff (hv : ValidIDs cfg) : byID cfg id = some d ↔ d ∈ all cfg ∧ d.id = id := by
  constructor
  · intro h
    exact ⟨mem_reverse.mp (mem_of_find?_eq_some h), by simpa using find?_some h⟩
  · rintro ⟨hmem, rfl⟩
    exact Keyed.find?_reverse_eq_some hv.nodup_all hmem

theorem routerEligible_isSome_iff (hv : ValidIDs cfg) :
    (routerEligible cfg health live req id).isSome = true ↔
      ∃ d ∈ all cfg, d.id = id ∧
        eligible cfg health req (!known cfg req.model && cfg.fallbackOnUnknownModel) d = true := by
  constructor
  · intro h
    cases hd : byID cfg id with
    | none => simp [routerEligible, hd] at h
    | some d =>
      obtain ⟨hmem, hid⟩ := (byID_eq_some_iff hv).mp hd
      refine ⟨d, hmem, hid, ?_⟩
      by_contra hne
      simp [routerEligible, hd, hne] at h
  · rintro ⟨d, hmem, hid, hok⟩
    simp [routerEligible, (byID_eq_some_iff hv).mpr ⟨hmem, hid⟩, hok]

theorem matchesModel_of_eligible (h : eligible cfg health req false d = true) :
    matchesModel d req.model = true := by
  by_contra hne
  have hfalse : matchesModel d req.model = false := by simpa using hne
  rw [eligible, evaluateDeployment, hfalse] at h
  cases h

/-! ### The candidates -/

theorem nodup_byModel (hv : ValidIDs cfg) (model : String) :
    ((byModel cfg model).map (·.id)).Nodup := by
  have hsub : (byModel cfg model).Sublist (all cfg) := filter_sublist.map _
  exact hv.nodup_all.sublist (hsub.map _)

theorem nodup_candidates (hv : ValidIDs cfg) (health : Health) (strategy : Strategy)
    (req : Requirement) : ((candidates cfg health strategy req).map (·.id)).Nodup := by
  have horder : ∀ l : List Deployment, (l.map (·.id)).Nodup →
      ((if l.length ≤ 1 then l else strategy.order req l).map (·.id)).Nodup := by
    intro l hl
    split
    · exact hl
    · exact ((strategy.perm req l).map _).nodup_iff.mpr hl
  have hfilter : ∀ (l : List Deployment) (ok : Deployment → Bool), (l.map (·.id)).Nodup →
      ((l.filter ok).map (·.id)).Nodup := fun l ok hl => hl.sublist (filter_sublist.map _)
  have hsource : ((if anyModel req.model then all cfg
      else byModel cfg req.model).map (·.id)).Nodup := by
    split
    · exact hv.nodup_all
    · exact nodup_byModel hv _
  apply horder
  generalize (if anyModel req.model then all cfg else byModel cfg req.model) = source at hsource ⊢
  split
  · exact hfilter _ _ hv.nodup_all
  · exact hfilter _ _ hsource

theorem mem_candidates_iff_eligible (hv : ValidIDs cfg) :
    d ∈ candidates cfg health strategy req ↔
      d ∈ all cfg ∧
        eligible cfg health req (!known cfg req.model && cfg.fallbackOnUnknownModel) d = true := by
  rw [mem_candidates_iff]
  cases hany : anyModel req.model with
  | true => simp [known, hany]
  | false =>
    rw [if_neg (by simp), mem_byModel_iff hv hany]
    cases hnone : byModel cfg req.model with
    | nil =>
      -- nothing is indexed under the name, so nothing matches it
      have hno : ∀ d ∈ all cfg, eligible cfg health req false d ≠ true := by
        intro d hd hok
        have hmem := (mem_byModel_iff hv hany).mpr ⟨hd, matchesModel_of_eligible hok⟩
        rw [hnone] at hmem
        cases hmem
      cases hfall : cfg.fallbackOnUnknownModel with
      | true =>
        simp only [known, hany, hnone, List.isEmpty_nil, Bool.not_true, Bool.or_false,
          Bool.not_false, Bool.and_true]
        constructor
        · rintro (⟨⟨hd, -⟩, hok⟩ | ⟨-, -, hd, hok⟩)
          · exact absurd hok (hno d hd)
          · exact ⟨hd, hok⟩
        · rintro ⟨hd, hok⟩
          exact .inr ⟨trivial, trivial, hd, hok⟩
      | false =>
        simp only [Bool.and_false]
        constructor
        · rintro (⟨⟨hd, -⟩, hok⟩ | ⟨-, hfalse, -⟩)
          · exact ⟨hd, hok⟩
          · cases hfalse
        · rintro ⟨hd, hok⟩
          exact absurd hok (hno d hd)
    | cons e rest =>
      simp only [known, hany, hnone, List.isEmpty_cons, Bool.not_false, Bool.or_true,
        Bool.not_true, Bool.false_and]
      constructor
      · rintro (⟨⟨hd, -⟩, hok⟩ | ⟨hfalse, -⟩)
        · exact ⟨hd, hok⟩
        · cases hfalse
      · rintro ⟨hd, hok⟩
        exact .inl ⟨⟨hd, matchesModel_of_eligible hok⟩, hok⟩

/-- **The candidates are the deployments that pass the check before an attempt**, each once: for
every valid configuration, health, requirement and strategy, and whatever the order reads besides
them. -/
theorem candidates_eq_eligible (cfg : Config) (hv : ValidIDs cfg) (health : Health) (live : Live)
    (req : Requirement) :
    ((candidates cfg health (liveStrategy cfg health live) req).map (·.id)).Nodup ∧
      ∀ id, id ∈ (candidates cfg health (liveStrategy cfg health live) req).map (·.id) ↔
        (routerEligible cfg health live req id).isSome = true := by
  refine ⟨nodup_candidates hv health _ req, fun id => ?_⟩
  rw [routerEligible_isSome_iff hv, mem_map]
  constructor
  · rintro ⟨d, hd, hid⟩
    obtain ⟨hmem, hok⟩ := (mem_candidates_iff_eligible hv).mp hd
    exact ⟨d, hmem, hid, hok⟩
  · rintro ⟨d, hmem, hid, hok⟩
    exact ⟨d, (mem_candidates_iff_eligible hv).mpr ⟨hmem, hok⟩, hid⟩

/-- One model at two providers, tried in a mesh. -/
def meshConfig : Config where
  providers := ["p", "q"].map fun id =>
    { id := id, type := "openai_compatible", trainsOnData := "no", enabled := true
      models := [{ id := "m", model := "gpt", aliases := ["fast"], enabled := true
                   contextWindow := 0, inputCostPerMTok := 1, outputCostPerMTok := 2
                   capabilities := ⟨true, true, true, true⟩ }] }
  priceVersions := []
  strategy := "ready_mesh"
  fallbackOnUnknownModel := true
  virtualEndpoints := []
  routeProfiles := []
  candidatePools := []
  fallbackChains := []

/-- Two idle providers and a session pinned to the second. -/
def pinnedLive : Live where
  modelRank _ := ⟨0, 1⟩
  routing := ⟨1, 1, 1, 8, 3⟩
  bookNow := 0
  ewma _ _ := (0, 0)
  selection := ⟨"session", "", fun _ => ⟨0, 0, 0, false, 0⟩, 0, 0⟩
  pin := "q/m"
  rr := 0

theorem validIDs_meshConfig : ValidIDs meshConfig where
  provider := by decide
  model := by decide
  unique := by decide

/-- A name nobody has falls back to both deployments, the pinned one first. -/
theorem candidates_eq_eligible_meshConfig :
    (candidates meshConfig .good (liveStrategy meshConfig .good pinnedLive)
        (.plain "unheard-of")).map (·.id) = ["q/m", "p/m"] ∧
      ((candidates meshConfig .good (liveStrategy meshConfig .good pinnedLive)
          (.plain "unheard-of")).map (·.id)).Nodup ∧
      ∀ id, id ∈ (candidates meshConfig .good (liveStrategy meshConfig .good pinnedLive)
          (.plain "unheard-of")).map (·.id) ↔
        (routerEligible meshConfig .good pinnedLive (.plain "unheard-of") id).isSome = true :=
  ⟨by decide +kernel,
    candidates_eq_eligible meshConfig validIDs_meshConfig .good pinnedLive (.plain "unheard-of")⟩

end NexaRoute.Router
