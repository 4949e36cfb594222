import NexaRoute.Httpapi.ClientAuth
import NexaRoute.Keyed

/-!
# The authorised model and the served model

Authorisation reads the model off the one member spelt `model`; the handler decodes every member
whose key is `model` up to letter case and routes the last string. What the policy admits is
therefore permitted for the model that is served exactly when the two readings agree, or when the
body asks for the model `*`, which only a list that allows everything admits.

## Main results

* `served_model_permitted_iff` — when the model that is served is permitted
-/

namespace NexaRoute.Httpapi

open Go

variable {H : Digest} {auth : ClientAuth} {key : VirtualKey} {path model : String}
  {body : List UInt8} {ingress : Ingress}

/-! ### The policy -/

theorem listAllows_iff {list : List String} {value : String} :
    listAllows list value = true ↔ Allows list value := by
  simp only [listAllows, Allows, Bool.or_eq_true, List.isEmpty_iff, List.any_eq_true, beq_iff_eq]
  constructor
  · rintro (h | ⟨item, hmem, rfl | rfl⟩)
    · exact .inl h
    · exact .inr (.inl hmem)
    · exact .inr (.inr hmem)
  · rintro (h | h | h)
    · exact .inl h
    · exact .inr ⟨"*", h, .inl rfl⟩
    · exact .inr ⟨value, h, .inr rfl⟩

theorem Allows.of_star {list : List String} (h : Allows list "*") (value : String) :
    Allows list value := by
  rcases h with h | h | h
  · exact .inl h
  · exact .inr (.inl h)
  · exact .inr (.inl h)

theorem Permits.of_star (h : Permits auth key "*") (model : String) : Permits auth key model where
  own := h.own.of_star model
  project tenant ht hid project hp hne hpid :=
    (h.project tenant ht hid project hp hne hpid).of_star model
  team tenant ht hid project hp hne hpid team hteam hne' htid :=
    (h.team tenant ht hid project hp hne hpid team hteam hne' htid).of_star model

theorem allows_of_projectAllows {tenant : Tenant} (h : projectAllows tenant key path model = true)
    (hne : key.projectID ≠ "") {project : Project} (hp : project ∈ tenant.projects)
    (hid : project.id = key.projectID) :
    Allows project.allowedModels model ∧
      ∀ team ∈ project.teams, key.teamID ≠ "" → team.id = key.teamID →
        Allows team.allowedModels model := by
  have hfind := Keyed.find?_eq_some tenant.projectsUnique hp
  simp only [hid] at hfind
  simp only [projectAllows, if_neg hne, hfind, Bool.and_eq_true] at h
  refine ⟨listAllows_iff.mp h.1.2, ?_⟩
  intro team hteam hne' htid
  have hfind' := Keyed.find?_eq_some project.teamsUnique hteam
  simp only [htid] at hfind'
  have hteamAllows := h.2
  simp only [teamAllows, if_neg hne', hfind', Bool.and_eq_true] at hteamAllows
  exact listAllows_iff.mp hteamAllows.2

theorem permits_of_identityPolicyAllows
    (h : identityPolicyAllows auth (.virtual key) path model = true) : Permits auth key model := by
  unfold identityPolicyAllows at h
  by_cases hlists :
      (!listAllows key.allowedRoutes path || !listAllows key.allowedModels model) = true
  · simp [hlists] at h
  simp only [if_neg hlists] at h
  have hkey : Allows key.allowedModels model := by
    apply listAllows_iff.mp
    simp only [Bool.or_eq_true, not_or] at hlists
    simpa using hlists.2
  -- with a hierarchy, the tenant of the key is found, and it is the only one with its identifier
  have hproject : ∀ tenant ∈ auth.tenants, tenant.id = key.tenantID →
      projectAllows tenant key path model = true := by
    intro tenant ht hid
    have hfind := Keyed.find?_eq_some auth.tenantsUnique ht
    simp only [hid] at hfind
    have hnonempty : auth.tenants.isEmpty = false := by
      rw [Bool.eq_false_iff, Ne, List.isEmpty_iff]
      rintro hnil
      rw [hnil] at ht
      cases ht
    simp only [hnonempty, Bool.false_eq_true, if_false, hfind] at h
    split at h
    · cases h
    · split at h
      · cases h
      · exact h
  exact ⟨hkey,
    fun tenant ht hid project hp hne hpid =>
      (allows_of_projectAllows (hproject tenant ht hid) hne hp hpid).1,
    fun tenant ht hid project hp hne hpid =>
      (allows_of_projectAllows (hproject tenant ht hid) hne hp hpid).2⟩

theorem permits_of_clientAuthAllowed {gates : Gates} {now : Time} {presented : String}
    (h : clientAuthAllowed H auth gates now ingress presented body = .ok (.virtual key)) :
    Permits auth key (requestModel body) := by
  unfold clientAuthAllowed at h
  split at h
  · cases h
  split at h
  · cases h
  split at h
  · cases h
  split at h
  · cases h
  split at h
  · cases h
  rename_i hpolicy
  repeat' split at h
  all_goals cases h
  exact permits_of_identityPolicyAllows (by simpa using hpolicy)

/-! ### The two readings -/

/-- The body is small enough to be read for authorisation, exactly one of its members is spelt
`model`, and trimming its string gives the model, or `*`. -/
def NamesModel (body : List UInt8) (model : String) : Prop :=
  body.length ≤ requestMetadataReadLimit ∧
    ∃ members s, parseJSON body = some (.obj members) ∧
      members.filter (·.1 == "model") = [("model", .str s)] ∧
      (trimSpace s = model ∨ trimSpace s = "*")

theorem exists_member_of_requestModel (hne : requestModel body ≠ "") :
    body.length ≤ requestMetadataReadLimit ∧
      ∃ members s, parseJSON body = some (.obj members) ∧
        members.filter (·.1 == "model") = [("model", .str s)] ∧
        trimSpace s = requestModel body := by
  have hsize : body.length ≤ requestMetadataReadLimit := by
    by_contra hlong
    exact hne (if_pos (by omega))
  have hmodel : requestModel body = (requestTopLevelString body "model").getD "" :=
    if_neg (by omega)
  refine ⟨hsize, ?_⟩
  rw [hmodel] at hne ⊢
  unfold requestTopLevelString requestTopLevelValues at hne ⊢
  cases hparse : parseJSON body with
  | none => simp [hparse] at hne
  | some doc =>
    cases doc with
    | obj members =>
      simp only [hparse] at hne ⊢
      by_cases hdeep : (members.any fun m => decide (m.2.depth > maxNestingDepth)) = true
      · simp [hdeep] at hne
      · simp only [if_neg hdeep] at hne ⊢
        -- the values are those of the members spelt so: one of them, and a string
        rcases hfilter : members.filter (·.1 == "model") with _ | ⟨⟨k, v⟩, _ | ⟨m, rest⟩⟩
        · simp [hfilter] at hne
        · have hk : k = "model" := by
            have hmem : (k, v) ∈ members.filter (·.1 == "model") := hfilter ▸ List.mem_cons_self
            simpa using (List.mem_filter.mp hmem).2
          subst hk
          cases v with
          | str s => exact ⟨members, s, rfl, hfilter, by simp [hfilter]⟩
          | _ => simp [hfilter] at hne
        · simp [hfilter] at hne
    | _ => simp [hparse] at hne

theorem depth_le_of_decodeRequest {members : List (String × Json)}
    (hparse : parseJSON body = some (.obj members)) (h : decodeRequest ingress body = .ok model) :
    ∀ m ∈ members, m.2.depth ≤ maxNestingDepth := by
  intro m hm
  have hdeep : ¬(Json.obj members).depth > maxNestingDepth := by
    intro hdeep
    unfold decodeRequest readJSON at h
    simp only [hparse, hdeep, true_or, if_true] at h
    split at h
    · cases h
    · rename_i heq
      split at heq <;> cases heq
  have hmember := depth_le_of_mem hm
  rw [Json.depth] at hdeep
  omega

theorem requestModel_of_filter {members : List (String × Json)} {s : String}
    (hsize : body.length ≤ requestMetadataReadLimit)
    (hparse : parseJSON body = some (.obj members))
    (hfilter : members.filter (·.1 == "model") = [("model", .str s)])
    (h : decodeRequest ingress body = .ok model) : requestModel body = trimSpace s := by
  have hdeep : ¬(members.any fun m => decide (m.2.depth > maxNestingDepth)) = true := by
    intro hany
    obtain ⟨m, hm, hdeep⟩ := List.any_eq_true.mp hany
    have hle := depth_le_of_decodeRequest hparse h m hm
    have hgt := of_decide_eq_true hdeep
    omega
  rw [requestModel, if_neg (by omega)]
  simp [requestTopLevelString, requestTopLevelValues, hparse, hdeep, hfilter]

theorem ne_empty_of_decodeRequest (h : decodeRequest ingress body = .ok model) : model ≠ "" := by
  unfold decodeRequest at h
  split at h
  · cases h
  · split at h
    · cases h
    · rename_i hcomplete
      split at h
      · cases h
      · rintro rfl
        have hmodel := Except.ok.inj h
        rw [hmodel] at hcomplete
        exact hcomplete (.inl (by decide))

/-! ### Agreement -/

def soleKey (H : Digest) (presented allowed : String) : VirtualKey where
  id := "vk"
  keyHash := keyDigest H presented
  tenantID := ""
  projectID := ""
  teamID := ""
  allowedModels := [allowed]
  allowedRoutes := []
  expiresAt := ""
  revoked := false
  budgetUSD := 0

/-- That key, and nothing else configured. -/
def soleKeyAuth (H : Digest) (presented allowed : String) : ClientAuth where
  enabled := true
  keys := []
  keyHashes := []
  virtualKeys := [soleKey H presented allowed]
  tenants := []
  tenantsUnique := List.nodup_nil

/-- Every check passes. -/
def Gates.opened : Gates := ⟨true, true, true, true⟩

theorem soleKeyAuth_allowed (H : Digest) (now : Time) (ingress : Ingress) (body : List UInt8) :
    clientAuthAllowed H (soleKeyAuth H "key" (requestModel body)) .opened now ingress "key" body =
      .ok (.virtual (soleKey H "key" (requestModel body))) := by
  simp [clientAuthAllowed, soleKeyAuth, soleKey, Gates.opened, findClientIdentity,
    VirtualKey.active, identityPolicyAllows, listAllows]

/-- For a given body, whatever key admits it permits the model that is served, exactly when the
body names that model to both readers. -/
theorem served_model_permitted_iff (H : Digest) (ingress : Ingress) (body : List UInt8) :
    (∀ (auth : ClientAuth) (gates : Gates) (now : Time) (presented : String) (key : VirtualKey)
      (model : String),
      clientAuthAllowed H auth gates now ingress presented body = .ok (.virtual key) →
      decodeRequest ingress body = .ok model → Permits auth key model) ↔
    ∀ model, decodeRequest ingress body = .ok model → NamesModel body model := by
  constructor
  · intro hpermits model hserved
    have hown := (hpermits _ _ 0 _ _ model (soleKeyAuth_allowed H 0 ingress body) hserved).own
    have hagree : requestModel body = model ∨ requestModel body = "*" := by
      rcases hown with h | h | h
      · cases h
      · exact .inr (List.mem_singleton.mp h).symm
      · exact .inl (List.mem_singleton.mp h).symm
    have hne : requestModel body ≠ "" := by
      rcases hagree with h | h
      · exact h ▸ ne_empty_of_decodeRequest hserved
      · rw [h]; decide
    obtain ⟨hsize, members, s, hparse, hfilter, htrim⟩ := exists_member_of_requestModel hne
    exact ⟨hsize, members, s, hparse, hfilter, by rwa [htrim]⟩
  · intro hnames auth gates now presented key model hallowed hserved
    obtain ⟨hsize, members, s, hparse, hfilter, htrim⟩ := hnames model hserved
    have hread := requestModel_of_filter hsize hparse hfilter hserved
    have hpermits := permits_of_clientAuthAllowed hallowed
    rcases htrim with htrim | htrim
    · rwa [hread, htrim] at hpermits
    · rw [hread, htrim] at hpermits
      exact hpermits.of_star model

/-- A body with the model in two spellings. -/
def twiceNamedBody : List UInt8 :=
  bytes "\x7b\"model\":\"small\",\"Model\":\"large\",\"messages\":[\x7b\"role\":\"user\"\x7d]\x7d"

/-- A key for the model `small` is admitted, and the model `large` is served. -/
theorem twiceNamedBody_served :
    clientAuthAllowed sha256 (soleKeyAuth sha256 "key" "small") .opened 0 .chatCompletions "key"
        twiceNamedBody = .ok (.virtual (soleKey sha256 "key" "small")) ∧
      decodeRequest .chatCompletions twiceNamedBody = .ok "large" ∧
      ¬Permits (soleKeyAuth sha256 "key" "small") (soleKey sha256 "key" "small") "large" := by
  have hread : requestModel twiceNamedBody = "small" := by decide +kernel
  have hallowed := soleKeyAuth_allowed sha256 0 .chatCompletions twiceNamedBody
  refine ⟨hallowed, by decide +kernel, ?_⟩
  intro hpermits
  rcases hpermits.own with h | h | h <;> simp [soleKey] at h

end NexaRoute.Httpapi
