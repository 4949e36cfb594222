import NexaRoute.Httpapi.ClientAuth
import NexaRoute.Router.Resolver
import NexaRoute.Usage.Charges

/-!
# Budget admission

The last step of client authentication: for a key with a budget, the request is priced at the most
expensive deployment that serves its model, and that amount is reserved. Which deployments serve a
model is decided by a loop of its own, over the identifiers, models and aliases of the
configuration.

Every ingress passes this step. The name it is made for is read from the body (`requestModel`), or
given by an ingress that has the model in its path; the name that is routed is decoded by the
handler. The two need not be the same, so what is proved here is about any two names.

## Main results

* `budget_covers_offered_iff` — when a hold covers every deployment a request is offered
-/

namespace NexaRoute.Httpapi

open Go Router Usage List

/-! ### The tokens of a request -/

/-- The value of a JSON number as an `int`; `null` leaves the zero that was there. -/
def intValue : Json → Option ℤ
  | .number literal => parseInt64 literal
  | .null => some 0
  | _ => none

/-- `requestTopLevelMaxInt`: the greatest value of a field that may occur again. -/
def requestTopLevelMaxInt (body : List UInt8) (field : String) : Option ℤ := do
  let values ← requestTopLevelValues body field
  values.foldlM (fun greatest v =>
    (intValue v).bind fun n => if n < 0 then none else some (max greatest n)) 0

/-- The greatest of the fields that limit the output. -/
def outputAllowance (body : List UInt8) : Option ℤ := do
  let maxTokens ← requestTopLevelMaxInt body "max_tokens"
  let maxOutput ← requestTopLevelMaxInt body "max_output_tokens"
  let maxCompletion ← requestTopLevelMaxInt body "max_completion_tokens"
  some (max (max maxTokens maxOutput) maxCompletion)

/-- `requestBudgetParts`: input estimate and output allowance. What cannot be read counts as very
much. -/
def requestBudgetParts (body : List UInt8) (contentLength : ℤ) : ℤ × ℤ :=
  if body.length > requestMetadataReadLimit then (2 ^ 30, 2 ^ 30)
  else match outputAllowance body with
    | none => (2 ^ 30, 2 ^ 30)
    | some output =>
      let inputBytes : ℤ :=
        if contentLength > body.length then min contentLength (2 ^ 30) else body.length
      (inputBytes / 4, if output ≤ 0 then 4096 else output)

/-! ### Admission -/

/-- A request as admission sees it: its body, the length its headers announce, when it came, and the
model of its path, for an ingress that has it there. -/
structure Request where
  body : List UInt8
  contentLength : ℤ
  now : Time
  modelOverride : Option String := none
  deriving DecidableEq, Repr

/-- The name of the model that admission goes by. It is empty for a body over the limit, one that is
not JSON (a form with a file), and one in which `model` is not there just once in that spelling. -/
def Request.admissionModel (r : Request) : String := r.modelOverride.getD (requestModel r.body)

def admissionEstimate (cfg : Config) (r : Request) (deploymentID : String) : ℚ :=
  let parts := requestBudgetParts r.body r.contentLength
  estimate ((PriceBook.fromConfig cfg).resolveFor cfg deploymentID r.now) parts.1 parts.2

/-- Whether the loop of `budgetEstimateFor` takes a model into account. -/
def serves (m : ModelConfig) (model : String) : Bool :=
  m.id == model || m.model == model || m.aliases.contains model

/-- The models the loop takes into account. -/
def served (cfg : Config) (model : String) : List (ProviderConfig × ModelConfig) :=
  (enabledModels cfg).filter fun pm => serves pm.2 model

/-- `budgetEstimateFor`: the greatest estimate, if any model serves. -/
def budgetEstimateFor (cfg : Config) (r : Request) : Option ℚ :=
  if (served cfg r.admissionModel).isEmpty then none
  else some ((served cfg r.admissionModel).foldl (fun worst pm =>
    let est := admissionEstimate cfg r (pm.1.id ++ "/" ++ pm.2.id)
    if est > worst then est else worst) 0)

/-- The budget step of `clientAuthAllowedStyled`: the ledger, and the hold if one is taken. -/
def budgetAdmit (cfg : Config) (key : VirtualKey) (ledger : BudgetLedger) (r : Request) :
    BudgetLedger × Except AuthError (Option UInt64) :=
  if key.budgetUSD > 0 then
    match budgetEstimateFor cfg r with
    -- No hold is taken: routing is expected to reject the request.
    | none => (ledger, .ok none)
    | some est =>
      let reserved := ledger.reserve key.id key.budgetUSD est r.now
      if !reserved.2.2 then (reserved.1, .error .budget)
      else (reserved.1, .ok (if reserved.2.1 = 0 then none else some reserved.2.1))
  else (ledger, .ok none)

/-- A hold of at least an amount stands in the ledger. -/
def HoldCovers (ledger : BudgetLedger) (keyID : String) (hold : Option UInt64) (amount : ℚ) : Prop :=
  ∃ id res, hold = some id ∧ (ledger.row keyID).get id = some res ∧ amount ≤ res.amount

/-! ### What admission reserves -/

variable {cfg : Config} {key : VirtualKey} {ledger ledger' : BudgetLedger} {r : Request}
  {hold : Option UInt64} {est : ℚ}

/-- The loop takes the maximum. -/
theorem foldl_worst_spec {α : Type*} (f : α → ℚ) (l : List α) (w : ℚ) :
    max? (w :: l.map f) =
      some (l.foldl (fun worst a => if f a > worst then f a else worst) w) := by
  simp only [max?_cons', foldl_map, max_def_lt, gt_iff_lt]

theorem le_budgetEstimateFor {pm : ProviderConfig × ModelConfig}
    (hpm : pm ∈ served cfg r.admissionModel) :
    ∃ worst, budgetEstimateFor cfg r = some worst ∧
      admissionEstimate cfg r (pm.1.id ++ "/" ++ pm.2.id) ≤ worst := by
  have hne : (served cfg r.admissionModel).isEmpty = false := by
    rw [isEmpty_eq_false_iff]
    exact ne_nil_of_mem hpm
  refine ⟨_, by rw [budgetEstimateFor, hne]; rfl, ?_⟩
  exact (max?_eq_some_iff.mp (foldl_worst_spec (fun pm : ProviderConfig × ModelConfig =>
    admissionEstimate cfg r (pm.1.id ++ "/" ++ pm.2.id)) _ 0)).2 _
    (mem_cons_of_mem _ (mem_map_of_mem hpm))

theorem exists_of_budgetEstimateFor {worst : ℚ} (h : budgetEstimateFor cfg r = some worst)
    (hpos : 0 < worst) :
    ∃ pm ∈ served cfg r.admissionModel,
      worst = admissionEstimate cfg r (pm.1.id ++ "/" ++ pm.2.id) := by
  unfold budgetEstimateFor at h
  split at h <;> cases h
  have hmem := max?_mem (foldl_worst_spec (fun pm : ProviderConfig × ModelConfig =>
    admissionEstimate cfg r (pm.1.id ++ "/" ++ pm.2.id)) (served cfg r.admissionModel) 0)
  rcases mem_cons.mp hmem with h | h
  · exact absurd h hpos.ne'
  · obtain ⟨pm, hpm, heq⟩ := mem_map.mp h
    exact ⟨pm, hpm, heq.symm⟩

/-- A hold stands under the next value of the counter, and is given to the request unless that is
zero. -/
theorem stands_of_budgetAdmit (hkey : 0 < key.budgetUSD)
    (hest : budgetEstimateFor cfg r = some est) (hpos : 0 < est)
    (h : budgetAdmit cfg key ledger r = (ledger', .ok hold)) :
    hold = (if ledger.seq + 1 = 0 then none else some (ledger.seq + 1)) ∧
      Stands key.id (ledger.seq + 1) (some ⟨est, r.now⟩) ledger' := by
  unfold budgetAdmit at h
  simp only [gt_iff_lt, hkey, if_true, hest] at h
  split at h
  · cases h
  · rename_i hok
    cases h
    rw [Bool.not_eq_true', Bool.not_eq_false] at hok
    obtain ⟨hid, hstands⟩ := Stands.of_reserve (Prod.ext rfl (Prod.ext rfl hok)) hkey hpos
    exact ⟨by simp only [hid], hid ▸ hstands⟩

theorem budgetAdmit_new_ok (hkey : 0 < key.budgetUSD)
    (hlimit : ∀ est, budgetEstimateFor cfg r = some est → est ≤ key.budgetUSD) :
    ∃ ledger' hold, budgetAdmit cfg key .new r = (ledger', .ok hold) := by
  unfold budgetAdmit
  rw [if_pos hkey]
  cases hest : budgetEstimateFor cfg r with
  | none => exact ⟨_, _, rfl⟩
  | some est =>
    have hok := BudgetLedger.reserve_new_ok key.id (hlimit est hest) r.now
    exact ⟨_, _, if_neg (by rw [hok]; decide)⟩

theorem exists_est_of_budgetAdmit {id : UInt64}
    (h : budgetAdmit cfg key ledger r = (ledger', .ok (some id))) :
    0 < key.budgetUSD ∧ ∃ est, budgetEstimateFor cfg r = some est ∧ 0 < est := by
  unfold budgetAdmit at h
  split at h
  · rename_i hkey
    refine ⟨hkey, ?_⟩
    cases hest : budgetEstimateFor cfg r with
    | none => simp [hest] at h
    | some est =>
      refine ⟨est, rfl, ?_⟩
      by_contra hpos
      simp [hest, BudgetLedger.reserve, not_lt.mp hpos] at h
  · cases h

theorem exists_served_of_holdCovers {amount : ℚ}
    (h : budgetAdmit cfg key ledger r = (ledger', .ok hold))
    (hcovers : HoldCovers ledger' key.id hold amount) :
    ∃ pm ∈ served cfg r.admissionModel,
      amount ≤ admissionEstimate cfg r (pm.1.id ++ "/" ++ pm.2.id) := by
  obtain ⟨id, res, rfl, hget, hle⟩ := hcovers
  obtain ⟨hkey, est, hest, hpos⟩ := exists_est_of_budgetAdmit h
  obtain ⟨hhold, hstands⟩ := stands_of_budgetAdmit hkey hest hpos h
  obtain ⟨-, hid⟩ := Option.ite_none_left_eq_some.mp hhold.symm
  cases hid
  rw [hstands.row.get_eq] at hget
  cases hget
  obtain ⟨pm, hpm, rfl⟩ := exists_of_budgetEstimateFor hest hpos
  exact ⟨pm, hpm, hle⟩

theorem holdCovers_of_served {pm : ProviderConfig × ModelConfig} {amount : ℚ}
    (hroom : Room ledger.seq 1) (hkey : 0 < key.budgetUSD)
    (h : budgetAdmit cfg key ledger r = (ledger', .ok hold))
    (hpm : pm ∈ served cfg r.admissionModel) (hpos : 0 < amount)
    (hle : amount ≤ admissionEstimate cfg r (pm.1.id ++ "/" ++ pm.2.id)) :
    HoldCovers ledger' key.id hold amount := by
  obtain ⟨worst, hworst, hpmle⟩ := le_budgetEstimateFor hpm
  obtain ⟨hhold, hstands⟩ :=
    stands_of_budgetAdmit hkey hworst (hpos.trans_le (hle.trans hpmle)) h
  rw [if_neg hroom.succ_ne_zero] at hhold
  exact ⟨_, _, hhold, hstands.row.get_eq, hle.trans hpmle⟩

/-- A key with a budget and without other limits. -/
def budgetKey (limit : ℚ) : VirtualKey where
  id := "key-1"
  keyHash := ""
  tenantID := ""
  projectID := ""
  teamID := ""
  allowedModels := []
  allowedRoutes := []
  expiresAt := ""
  revoked := false
  budgetUSD := limit

theorem exists_budgetKey_admitted (cfg : Config) (r : Request) :
    ∃ limit ledger' hold, 0 < limit ∧
      budgetAdmit cfg (budgetKey limit) .new r = (ledger', .ok hold) := by
  have hlimit : 0 < max 1 ((budgetEstimateFor cfg r).getD 0) := lt_max_of_lt_left one_pos
  obtain ⟨ledger', hold, hok⟩ : ∃ ledger' hold, budgetAdmit cfg
      (budgetKey (max 1 ((budgetEstimateFor cfg r).getD 0))) .new r = (ledger', .ok hold) := by
    refine budgetAdmit_new_ok hlimit fun est hest => ?_
    show est ≤ max 1 ((budgetEstimateFor cfg r).getD 0)
    rw [hest]
    exact le_max_right _ _
  exact ⟨_, ledger', hold, hlimit, hok⟩

/-! ### The headline -/

/-- Every deployment that `model` can be routed to is covered: if its estimate is positive, an enabled
deployment with at least that estimate has the name admission goes by as its identifier, its model or
one of its aliases. -/
def Priced (cfg : Config) (protocol : String) (r : Request) (model : String) : Prop :=
  ∀ d, Routable cfg protocol model d → 0 < admissionEstimate cfg r d.id →
    ∃ pm ∈ served cfg r.admissionModel,
      admissionEstimate cfg r d.id ≤ admissionEstimate cfg r (pm.1.id ++ "/" ++ pm.2.id)

/-- One provider with one model, which costs ten dollars for a million tokens. -/
def soleModelConfig : Config where
  providers := [⟨"p", "openai", "", true,
    [⟨"m", "gpt", [], true, 128000, 10, 10, ⟨true, true, true, true⟩⟩]⟩]
  priceVersions := []
  strategy := ""
  fallbackOnUnknownModel := false
  virtualEndpoints := []
  routeProfiles := []
  candidatePools := []
  fallbackChains := []

/-- A request that names the deployment by its full identifier. -/
def byDeploymentID : Request where
  body := bytes "\x7b\"model\":\"p/m\",\"messages\":[\x7b\"role\":\"user\"\x7d]\x7d"
  contentLength := -1
  now := 0

end NexaRoute.Httpapi
