import NexaRoute.Decision.Orchestrator

/-!
# What the decision plane does to the routes

Whatever providers do, `decide` returns the candidates it was given, in some order: a result is only
ever used as a list of ids, and what it leaves out is appended. Everything that is not a selection or
a ranking that stands leaves the order as it was.

A selection is checked against the primary constraints, in both modes. A ranking is not: a chain does
not take one, but a single provider may rank a candidate first that may not come first. The pin, too,
is looked at only once the budget and the provider are there.

## Main results

* `decide_keepsRoutes` — routes are neither added nor lost
* `headBound_iff` — what may come first
-/

namespace NexaRoute.Decision

open List Answer

variable {δ : Type}

/-! ### Orders -/

section Orders

variable {eligible : List (Candidate δ)}

theorem byID_id {id : String} {c : Candidate δ} (h : byID eligible id = some c) : c.id = id := by
  have hc := find?_some h
  exact beq_iff_eq.mp hc

theorem byID_eq_none_iff (id : String) : byID eligible id = none ↔ id ∉ eligible.map Candidate.id := by
  unfold byID
  rw [find?_eq_none]
  constructor
  · intro h hmem
    obtain ⟨c, hc, rfl⟩ := mem_map.mp hmem
    exact h c (mem_reverse.mpr hc) (beq_self_eq_true _)
  · intro h c hc hid
    exact h (mem_map.mpr ⟨c, mem_reverse.mp hc, beq_iff_eq.mp hid⟩)

variable (h : (eligible.map Candidate.id).Nodup)

include h

theorem ranked_perm (seen ids : List String) : (ranked eligible seen ids ++
      eligible.filter fun c => c.id ∉ seen ∧ c.id ∉ ids).Perm
      (eligible.filter fun c => c.id ∉ seen) := by
  induction ids generalizing seen with
  | nil => simp [ranked]
  | cons id ids ih =>
    rw [ranked]
    split
    · next hseen =>
      have hsame : (eligible.filter fun c => c.id ∉ seen ∧ c.id ∉ id :: ids) =
          eligible.filter fun c => c.id ∉ seen ∧ c.id ∉ ids := by
        refine filter_congr fun c _ => ?_
        have hne : c.id ∉ seen → c.id ≠ id := fun hc heq => hc (heq ▸ hseen)
        grind
      rw [hsame]
      exact ih seen
    · next hseen =>
      have hrest : (eligible.filter fun c => c.id ∉ seen ∧ c.id ∉ id :: ids) =
          eligible.filter fun c => c.id ∉ id :: seen ∧ c.id ∉ ids := by
        refine filter_congr fun c _ => ?_
        grind
      have hfirst : (byID eligible id).toList =
          (eligible.filter fun c => c.id ∉ seen).filter fun c => c.id == id := by
        rw [byID, Keyed.toList_find?_reverse h, filter_filter]
        refine filter_congr fun c _ => ?_
        cases hid : c.id == id with
        | false => rfl
        | true => simpa [beq_iff_eq.mp hid] using hseen
      have hothers : (eligible.filter fun c => c.id ∉ id :: seen) =
          (eligible.filter fun c => c.id ∉ seen).filter fun c => c.id ≠ id := by
        rw [filter_filter]
        refine filter_congr fun c _ => ?_
        grind
      rw [hrest, append_assoc]
      refine ((ih (id :: seen)).append_left _).trans ?_
      rw [hfirst, hothers]
      exact Keyed.perm_filter_append_filter_ne id _

theorem cons_filter_perm {c : Candidate δ}
    (hc : c ∈ eligible) : (c :: eligible.filter fun d => d.id ≠ c.id).Perm eligible := by
  have hperm : (eligible.filter (fun d => d.id == c.id) ++
      eligible.filter fun d => d.id ≠ c.id).Perm eligible :=
    Keyed.perm_filter_append_filter_ne c.id eligible
  rw [Keyed.filter_eq_of_find? h (Keyed.find?_eq_some h hc)] at hperm
  exact hperm

/-- **Any result gives an order of the same candidates.** -/
theorem normalizeResult_perm (result : DecisionResult) :
    (normalizeResult eligible result).ordered.Perm eligible := by
  unfold normalizeResult
  split
  · next hempty =>
    rw [hempty]
  cases result.action with
  | abstain | other text => exact List.Perm.refl _
  | select =>
    simp only
    split
    · exact List.Perm.refl _
    · cases hsel : byID eligible result.selectedID with
      | none => exact List.Perm.refl _
      | some c =>
        have hmem : c ∈ eligible := mem_reverse.mp (mem_of_find?_eq_some hsel)
        simp only [← byID_id hsel]
        exact cons_filter_perm h hmem
  | rank =>
    simp only
    split
    · exact List.Perm.refl _
    · have hperm := ranked_perm h [] result.rankedIDs
      simpa using hperm

end Orders

/-! ### Pins -/

section Pins

variable {candidates : List (Candidate δ)} {pin : String} {c : Candidate δ}

theorem pinned_spec (h : pinned candidates pin = some c) : pin ≠ "" ∧ c ∈ candidates ∧ c.id = pin := by
  unfold pinned at h
  split at h
  · cases h
  · next hpin =>
    have hmem : c ∈ earliestPool candidates := mem_of_find?_eq_some h
    have hid := find?_some h
    refine ⟨hpin, ?_, beq_iff_eq.mp hid⟩
    cases candidates with
    | nil => cases hmem
    | cons first rest =>
      rw [earliestPool] at hmem
      exact mem_of_mem_filter hmem

theorem computePrimaryConstraints_of_pinned (h : pinned candidates pin = some c) :
    (computePrimaryConstraints candidates pin).forcedPrimaryID = pin ∧
      (computePrimaryConstraints candidates pin).allowedPrimaryIDs = [pin] := by
  unfold computePrimaryConstraints
  cases candidates with
  | nil => exact absurd (pinned_spec h).2.1 not_mem_nil
  | cons first rest =>
    simp only [h]
    trivial

theorem forcedFirst_of_pinned (hd : (candidates.map Candidate.id).Nodup)
    (h : pinned candidates pin = some c) :
    forcedFirst candidates (computePrimaryConstraints candidates pin).forcedPrimaryID =
      some (c :: candidates.filter fun d => d.id ≠ pin) := by
  obtain ⟨hne, hmem, hid⟩ := pinned_spec h
  rw [(computePrimaryConstraints_of_pinned h).1, forcedFirst, if_neg hne, ← hid,
    Keyed.find?_eq_some hd hmem]
  rfl

theorem pinned_of_forcedFirst
    (h : forcedFirst candidates (computePrimaryConstraints candidates pin).forcedPrimaryID = none) :
    pinned candidates pin = none := by
  cases hpin : pinned candidates pin with
  | none => rfl
  | some c =>
    obtain ⟨hne, hmem, hid⟩ := pinned_spec hpin
    rw [(computePrimaryConstraints_of_pinned hpin).1, forcedFirst, if_neg hne] at h
    have hnone := find?_eq_none.mp (Option.map_eq_none_iff.mp h) c hmem
    exact absurd (beq_iff_eq.mpr hid) hnone

theorem forcedFirst_of_not_pinned (h : pinned candidates pin = none) :
    forcedFirst candidates (computePrimaryConstraints candidates pin).forcedPrimaryID = none := by
  unfold computePrimaryConstraints
  cases candidates with
  | nil => rfl
  | cons first rest =>
    simp only [h]
    rfl

end Pins

/-! ### Answers -/

/-- Why the answer of a provider does not count. -/
inductive Refusal (candidates : List (Candidate δ)) (provider : Provider) (c : Consultation) : Prop
  | abstained (r : DecisionResult) (h : c.answer = .returned r false) (ha : r.action = .abstain)
  | failed (h : c.answer.failed = true)
  | timedOut (h : c.after = .deadlineExceeded)
  | cannotRank (r : DecisionResult) (h : c.answer = .returned r false) (ha : r.action = .rank)
      (hc : provider.canRank = false)
  | cannotSelect (r : DecisionResult) (h : c.answer = .returned r false) (ha : r.action = .select)
      (hc : provider.canSelect = false)
  | invalid (h : validateResult candidates (c.answer.result provider) ≠ none)

section Answers

variable {candidates : List (Candidate δ)} {constraints : PrimarySelectionConstraints}
  {provider : Provider} {answer : Answer} {c : Consultation} {r : DecisionResult}

theorem Answer.result_action (provider : Provider) (r : DecisionResult) (failed : Bool) :
    (result provider (.returned r failed)).action = r.action := by
  rw [result]
  split <;> rfl

/-- **An answer that is accepted** passed every check. -/
theorem judge_accepted (h : judge candidates constraints provider answer = .accepted r) :
    answer.failed = false ∧ r = answer.result provider ∧
      (r.action = .rank → provider.canRank = true) ∧
      (r.action = .select → provider.canSelect = true) ∧ validateResult candidates r = none ∧
      (r.action = .select → constraints.isAllowedPrimary r.selectedID = true) := by
  simp only [judge] at h
  split_ifs at h with hfailed hrank hselect hallowed
  · split at h <;> cases h
  · split at h
    · cases h
    · next hvalid =>
      cases h
      refine ⟨by simpa using hfailed, rfl, fun ha => ?_, fun ha => ?_, hvalid, fun ha => ?_⟩
      · simpa [ha] using hrank
      · simpa [ha] using hselect
      · simpa [ha] using hallowed

theorem Refusal.action_of_accepted (h : Refusal candidates provider c)
    (hafter : c.after ≠ .deadlineExceeded)
    (haccepted : judge candidates constraints provider c.answer = .accepted r) :
    r.action = .abstain := by
  obtain ⟨hfailed, rfl, hrank, hselect, hvalid, -⟩ := judge_accepted haccepted
  cases h with
  | abstained r' hr' ha => rw [hr', result_action, ha]
  | failed hf =>
    rw [hf] at hfailed
    cases hfailed
  | timedOut ht => exact absurd ht hafter
  | cannotRank r' hr' ha hc =>
    rw [hr', result_action] at hrank
    rw [hrank ha] at hc
    cases hc
  | cannotSelect r' hr' ha hc =>
    rw [hr', result_action] at hselect
    rw [hselect ha] at hc
    cases hc
  | invalid hinvalid => exact absurd hvalid hinvalid

theorem validateResult_eq_none (h : validateResult candidates r = none) :
    candidates ≠ [] ∧ r.action.isValid = true ∧ checkAction candidates r = none := by
  unfold validateResult at h
  split at h
  · cases h
  · next hne =>
    split at h
    · cases h
    · next hvalid =>
      have hchecks : checkConfidence r.confidence = none ∧ checkBounds candidates r = none ∧
          checkAction candidates r = none := by simpa using h
      exact ⟨hne, by simpa using hvalid, hchecks.2.2⟩

theorem checkAction_select (ha : r.action = .select) (h : checkAction candidates r = none) :
    r.selectedID ≠ "" ∧ r.selectedID ∈ candidates.map Candidate.id := by
  unfold checkAction at h
  rw [ha] at h
  split_ifs at h with h1 h2 h3
  exact ⟨h1, by simpa using h3⟩

theorem checkAction_rank (ha : r.action = .rank) (h : checkAction candidates r = none) :
    ∃ id ids, r.rankedIDs = id :: ids ∧ id ∈ candidates.map Candidate.id := by
  unfold checkAction at h
  rw [ha] at h
  simp only at h
  split_ifs at h with h1 h2
  cases hids : r.rankedIDs with
  | nil => exact absurd hids h2
  | cons id ids =>
    rw [hids, checkRanked] at h
    split_ifs at h with h3 h4
    exact ⟨id, ids, rfl, by simpa using h4⟩

theorem normalizeResult_select (hne : candidates ≠ []) (ha : r.action = .select)
    (hsel : r.selectedID ≠ "") (hmem : r.selectedID ∈ candidates.map Candidate.id) :
    ∃ d, (normalizeResult candidates r).ordered.head? = some d ∧ d.id = r.selectedID := by
  unfold normalizeResult
  rw [if_neg hne, ha]
  simp only [if_neg hsel]
  cases hd : byID candidates r.selectedID with
  | none => exact absurd hmem ((byID_eq_none_iff _).mp hd)
  | some d => exact ⟨d, rfl, byID_id hd⟩

theorem normalizeResult_rank (hne : candidates ≠ []) (ha : r.action = .rank) {id : String}
    {ids : List String} (hids : r.rankedIDs = id :: ids) (hmem : id ∈ candidates.map Candidate.id) :
    ∃ d, (normalizeResult candidates r).ordered.head? = some d ∧ d.id = id := by
  unfold normalizeResult
  rw [if_neg hne, ha]
  simp only [hids]
  cases hd : byID candidates id with
  | none => exact absurd hmem ((byID_eq_none_iff _).mp hd)
  | some d =>
    refine ⟨d, ?_, byID_id hd⟩
    rw [ranked, if_neg not_mem_nil, hd]
    rfl

theorem normalizeResult_abstain (ha : r.action = .abstain) :
    (normalizeResult candidates r).ordered = candidates := by
  unfold normalizeResult
  split
  · next hempty => exact hempty.symm
  · rw [ha]

end Answers

/-! ### Chains -/

section Chains

variable {candidates : List (Candidate δ)} {constraints : PrimarySelectionConstraints}

theorem callStep_decided {index : ℕ} {name : String} {provider : Provider} {c : Consultation}
    {result : DecisionResult} {trace : ChainStepTrace}
    (h : callStep candidates constraints index name provider c = .decided result trace) :
    c.after ≠ .deadlineExceeded ∧ c.stepAfter ≠ .deadlineExceeded ∧
      ∃ r, judge candidates constraints provider c.answer = .accepted r ∧ r.action = .select ∧
        result.action = .select ∧ result.selectedID = r.selectedID := by
  unfold callStep at h
  split at h
  · split at h <;> cases h
  · next hinTime =>
    obtain ⟨hafter, hstep⟩ := not_or.mp hinTime
    split at h
    · cases h
    · cases h
    · cases h
    · cases h
    · next r hjudge =>
      split at h
      · next ha =>
        cases h
        exact ⟨hafter, hstep, r, hjudge, ha, ha, rfl⟩
      · cases h
      · cases h

variable (candidates constraints) in
/-- What a chain may come to: an abstention with the order as it was, or a selection that may come
first, of a provider whose answer counts. -/
def ChainEnd (registry : String → Option Provider) (env : ℕ → Consultation)
    (names : ℕ → Option String) (d : ChainDecision δ) : Prop :=
  d.ordered = candidates ∧ d.result.action = .abstain ∨
    d.ordered = (normalizeResult candidates d.result).ordered ∧ d.result.action = .select ∧
      d.result.selectedID ≠ "" ∧ d.result.selectedID ∈ candidates.map Candidate.id ∧
      constraints.isAllowedPrimary d.result.selectedID = true ∧
      ∃ i name provider, names i = some name ∧ registry name = some provider ∧
        (env i).stepAfter ≠ .deadlineExceeded ∧ ¬ Refusal candidates provider (env i)

/-- **The loop over the steps.** -/
theorem executeSteps_end (registry : String → Option Provider) (maxCalls : ℤ)
    (env : ℕ → Consultation) (chainID : String) (names : ℕ → Option String) {index : ℕ}
    {trace : ChainTrace} {rest : List String} (hrest : ∀ i, names (index + i) = rest[i]?) :
    ChainEnd candidates constraints registry env names
      (executeSteps registry candidates constraints maxCalls env chainID index trace rest) := by
  induction rest generalizing index trace with
  | nil => exact .inl ⟨rfl, rfl⟩
  | cons name rest ih =>
    have htail : ∀ i, names (index + 1 + i) = rest[i]? := by
      intro i
      rw [show index + 1 + i = index + (i + 1) by omega, hrest, getElem?_cons_succ]
    rw [executeSteps]
    split
    · exact .inl ⟨rfl, rfl⟩
    split
    · exact .inl ⟨rfl, rfl⟩
    split
    · exact ih htail
    next provider hprovider =>
    split
    · exact ih htail
    split
    · exact ih htail
    split
    · exact ih htail
    · exact .inl ⟨rfl, rfl⟩
    · next result step hcall =>
      obtain ⟨hafter, hstep, r, hjudge, hr, ha, hsel⟩ := callStep_decided hcall
      obtain ⟨-, -, -, -, hvalid, hallowed⟩ := judge_accepted hjudge
      obtain ⟨hne, hmem⟩ := checkAction_select hr (validateResult_eq_none hvalid).2.2
      refine .inr ⟨rfl, ha, ?_, ?_, ?_, index, name, provider, ?_, hprovider, hstep, ?_⟩
      · rwa [hsel]
      · rwa [hsel]
      · rw [hsel]
        exact hallowed hr
      · have hhead := hrest 0
        simpa using hhead
      · intro hrefusal
        have habstain := hrefusal.action_of_accepted hafter hjudge
        rw [hr] at habstain
        cases habstain

end Chains

/-! ### No route is lost -/

/-- The candidates come back in some order, and in the order they came where nothing was decided. -/
structure KeepsRoutes (registry : String → Option Provider) (cfg : Config)
    (env : ℕ → Consultation) (req : DecisionRequest δ) (d : Decided δ) : Prop where
  perm : d.ordered.Perm req.candidates
  off : cfg.mode = .off → d.ordered = req.candidates
  abstained : d.result.action = .abstain → d.ordered = req.candidates
  budget : cfg.mode = .single → singleCalls cfg req ≤ 0 → d.ordered = req.candidates
  single : cfg.mode = .single → pinned req.candidates req.pinnedCandidateID = none →
    (∀ provider, registry cfg.provider = some provider →
      Refusal req.candidates provider (env 0)) → d.ordered = req.candidates
  chain : cfg.mode = .hybrid → pinned req.candidates req.pinnedCandidateID = none →
    (∀ chain i name provider, cfg.chains cfg.chain = some chain → chain.steps[i]? = some name →
      registry name = some provider →
      Refusal req.candidates provider (env i) ∨ (env i).stepAfter = .deadlineExceeded) →
    d.ordered = req.candidates

section Decide

variable {registry : String → Option Provider} {cfg : Config} {env : ℕ → Consultation}
  {req : DecisionRequest δ}

theorem KeepsRoutes.of_eq {d : Decided δ} (h : d.ordered = req.candidates) :
    KeepsRoutes registry cfg env req d where
  perm := by rw [h]
  off _ := h
  abstained _ := h
  budget _ _ := h
  single _ _ _ := h
  chain _ _ _ := h

theorem consult_cases (req : DecisionRequest δ) (provider : Provider) (c : Consultation) :
    (consult req provider c).ordered = req.candidates ∨
      ∃ r, c.after ≠ .deadlineExceeded ∧ c.unavailable = false ∧
        (isExternal provider.id && c.cooldown) = false ∧
        judge req.candidates (computePrimaryConstraints req.candidates req.pinnedCandidateID)
          provider c.answer = .accepted r ∧
        (consult req provider c).ordered = (normalizeResult req.candidates r).ordered ∧
        (consult req provider c).result.action = r.action := by
  unfold consult
  simp only
  split
  · exact .inl rfl
  next hcool =>
  split
  · exact .inl rfl
  next hhealth =>
  split
  · exact .inl rfl
  next hafter =>
  split
  · exact .inl rfl
  · exact .inl rfl
  · exact .inl rfl
  · exact .inl rfl
  · next r hjudge =>
    exact .inr ⟨r, hafter, by simpa using hhealth, by simpa using hcool, hjudge, rfl, rfl⟩

theorem decide_short (h : req.candidates.length ≤ 1) :
    (decide registry cfg env req).ordered = req.candidates := by
  match hc : req.candidates with
  | [] | [c] => simp only [decide, hc, keepOrder]
  | _ :: _ :: _ =>
    rw [hc] at h
    simp at h

theorem decide_long (registry : String → Option Provider) (cfg : Config) (env : ℕ → Consultation)
    (req : DecisionRequest δ) (h : 2 ≤ req.candidates.length) :
    (cfg.mode = .off → (decide registry cfg env req).ordered = req.candidates) ∧
      (cfg.mode = .hybrid → decide registry cfg env req = decideChain registry cfg env req) ∧
      (cfg.mode = .single → decide registry cfg env req = decideSingle registry cfg env req) := by
  unfold decide
  split
  · next hnil =>
    rw [hnil] at h
    simp at h
  · next c hc =>
    rw [hc] at h
    simp at h
  · refine ⟨fun hmode => ?_, fun hmode => ?_, fun hmode => ?_⟩ <;> rw [hmode]
    rfl

/-- The pinned candidate is put first. -/
def PinnedFirst (req : DecisionRequest δ) (d : Decided δ) : Prop :=
  ∃ c, pinned req.candidates req.pinnedCandidateID = some c ∧ d.result.action = .select ∧
    d.ordered = c :: req.candidates.filter fun d => d.id ≠ req.pinnedCandidateID

variable (hd : (req.candidates.map Candidate.id).Nodup)

include hd

theorem decideChain_cases (registry : String → Option Provider) (cfg : Config)
    (env : ℕ → Consultation) :
    (decideChain registry cfg env req).ordered = req.candidates ∨
      PinnedFirst req (decideChain registry cfg env req) ∨
      ∃ chain d, cfg.chains cfg.chain = some chain ∧
        pinned req.candidates req.pinnedCandidateID = none ∧
        ChainEnd req.candidates
          (computePrimaryConstraints req.candidates req.pinnedCandidateID) registry env
          (fun i => chain.steps[i]?) d ∧
        (decideChain registry cfg env req).ordered = d.ordered ∧
        (decideChain registry cfg env req).result = d.result := by
  unfold decideChain
  split
  · exact .inl rfl
  · next chain hchain =>
    have hfound : cfg.chains cfg.chain = some chain := by
      split at hchain
      · cases hchain
      · exact hchain
    refine .inr ?_
    unfold execute
    cases hpin : pinned req.candidates req.pinnedCandidateID with
    | some c =>
      refine .inl ⟨c, hpin, ?_⟩
      rw [forcedFirst_of_pinned hd hpin]
      exact ⟨rfl, rfl⟩
    | none =>
      refine .inr ⟨chain, _, hfound, rfl, ?_, rfl, rfl⟩
      rw [forcedFirst_of_not_pinned hpin]
      exact executeSteps_end registry _ env chain.id _ fun i => by rw [Nat.zero_add]

theorem decideSingle_cases (registry : String → Option Provider) (cfg : Config)
    (env : ℕ → Consultation) :
    (decideSingle registry cfg env req).ordered = req.candidates ∨
      0 < singleCalls cfg req ∧ ∃ provider, registry cfg.provider = some provider ∧
        (PinnedFirst req (decideSingle registry cfg env req) ∨
        pinned req.candidates req.pinnedCandidateID = none ∧
          decideSingle registry cfg env req = consult req provider (env 0)) := by
  unfold decideSingle
  split
  · exact .inl rfl
  next hbudget =>
  split
  · exact .inl rfl
  · next provider hprovider =>
    refine .inr ⟨by omega, provider, hprovider, ?_⟩
    simp only
    cases hpin : pinned req.candidates req.pinnedCandidateID with
    | some c =>
      refine .inl ⟨c, hpin, ?_⟩
      rw [forcedFirst_of_pinned hd hpin]
      exact ⟨rfl, rfl⟩
    | none =>
      refine .inr ⟨rfl, ?_⟩
      rw [forcedFirst_of_not_pinned hpin]

/-- A pinned candidate that is put first decides the order, and no refusal is asked about. -/
theorem KeepsRoutes.of_pinned {d : Decided δ} (hoff : cfg.mode ≠ .off)
    (hbudget : cfg.mode = .single → 0 < singleCalls cfg req) (h : PinnedFirst req d) :
    KeepsRoutes registry cfg env req d := by
  obtain ⟨c, hpin, haction, hordered⟩ := h
  obtain ⟨-, hmem, hid⟩ := pinned_spec hpin
  have hnone : pinned req.candidates req.pinnedCandidateID ≠ none := by rw [hpin]; simp
  refine ⟨?_, fun h => absurd h hoff, fun h => ?_, fun hmode h => ?_,
    fun _ h => absurd h hnone, fun _ h => absurd h hnone⟩
  · rw [hordered, ← hid]
    exact cons_filter_perm hd hmem
  · rw [haction] at h
    cases h
  · have hpos := hbudget hmode
    omega

theorem decideChain_keepsRoutes (hmode : cfg.mode = .hybrid) :
    KeepsRoutes registry cfg env req (decideChain registry cfg env req) := by
  rcases decideChain_cases hd registry cfg env with hsame | hpin |
    ⟨chain, d, hchain, hpin, hend, hordered, hresult⟩
  · exact .of_eq hsame
  · exact .of_pinned hd (by simp [hmode]) (by simp [hmode]) hpin
  · rcases hend with ⟨hsame, -⟩ | ⟨hnormal, haction, -, -, -, i, name, provider, hname, hprovider,
      hstep, hcounts⟩
    · exact .of_eq (hordered.trans hsame)
    · refine ⟨?_, by simp [hmode], fun h => ?_, by simp [hmode], by simp [hmode], fun _ _ h => ?_⟩
      · rw [hordered, hnormal]
        exact normalizeResult_perm hd _
      · rw [hresult, haction] at h
        cases h
      · rcases h chain i name provider hchain hname hprovider with hrefused | hlate
        · exact absurd hrefused hcounts
        · exact absurd hlate hstep

theorem decideSingle_keepsRoutes (hmode : cfg.mode = .single) :
    KeepsRoutes registry cfg env req (decideSingle registry cfg env req) := by
  rcases decideSingle_cases hd registry cfg env with hsame | ⟨hbudget, provider, hprovider, hrest⟩
  · exact .of_eq hsame
  rcases hrest with hpin | ⟨hpin, hconsult⟩
  · exact .of_pinned hd (by simp [hmode]) (fun _ => hbudget) hpin
  · rw [hconsult]
    rcases consult_cases req provider (env 0) with hsame | ⟨r, hafter, -, -, hjudge, hordered, haction⟩
    · exact .of_eq hsame
    · refine ⟨?_, by simp [hmode], fun h => ?_, fun _ h => ?_, fun _ _ h => ?_, by simp [hmode]⟩
      · rw [hordered]
        exact normalizeResult_perm hd _
      · rw [haction] at h
        rw [hordered, normalizeResult_abstain h]
      · omega
      · have habstain := (h provider hprovider).action_of_accepted hafter hjudge
        rw [hordered, normalizeResult_abstain habstain]

omit hd

/-- **The decision plane never adds, drops or duplicates a route**, and it leaves the order as it was
when the decision is an abstention, an error, a timeout, a refusal for the budget or the capabilities
of a provider, or a result that is not valid. -/
theorem decide_keepsRoutes (registry : String → Option Provider) (cfg : Config)
    (env : ℕ → Consultation) (req : DecisionRequest δ)
    (hd : (req.candidates.map Candidate.id).Nodup) :
    KeepsRoutes registry cfg env req (decide registry cfg env req) := by
  by_cases hlen : req.candidates.length ≤ 1
  · exact .of_eq (decide_short hlen)
  · obtain ⟨hoff, hhybrid, hsingle⟩ := decide_long registry cfg env req (by omega)
    cases hmode : cfg.mode with
    | off => exact .of_eq (hoff hmode)
    | hybrid =>
      rw [hhybrid hmode]
      exact decideChain_keepsRoutes hd hmode
    | single =>
      rw [hsingle hmode]
      exact decideSingle_keepsRoutes hd hmode

end Decide

/-- Two candidates of one pool. -/
def twoRoutes : DecisionRequest Unit where
  candidates := [⟨"a", 0, 0, ()⟩, ⟨"b", 0, 1, ()⟩]

/-- A provider that can do everything, in single mode. -/
def soleProvider (name : String) : Option Provider :=
  if name = "jev" then some ⟨"jev", true, true⟩ else none

@[inherit_doc soleProvider]
def soleConfig : Config := { mode := .single, provider := "jev" }

/-- The provider ranks `b` first, and says nothing of `a`. -/
def ranksB : Consultation where
  answer := .returned { action := .rank, rankedIDs := ["b"] } false

/-- The candidate that a ranking leaves out is appended. -/
theorem decide_keepsRoutes_ranking :
    KeepsRoutes soleProvider soleConfig (fun _ => ranksB) twoRoutes
        (decide soleProvider soleConfig (fun _ => ranksB) twoRoutes) ∧
      (decide soleProvider soleConfig (fun _ => ranksB) twoRoutes).ordered.map Candidate.id =
        ["b", "a"] :=
  ⟨decide_keepsRoutes soleProvider soleConfig (fun _ => ranksB) twoRoutes (by decide), by decide⟩

/-! ### The first candidate -/

section Head

variable (registry : String → Option Provider) (cfg : Config) (env : ℕ → Consultation)
  (req : DecisionRequest δ)

/-- The first candidate is the one that came first, or one that may come first. -/
def HeadBound : Prop :=
  ∀ d, (decide registry cfg env req).ordered.head? = some d →
    req.candidates.head? = some d ∨
      (computePrimaryConstraints req.candidates req.pinnedCandidateID).isAllowedPrimary d.id = true

/-- The single provider is asked: there is something to choose and a call left to make, no pin
settles the choice, and the provider is known, healthy and not cooling down. -/
structure Asked (provider : Provider) : Prop where
  mode : cfg.mode = .single
  several : 2 ≤ req.candidates.length
  budget : 0 < singleCalls cfg req
  known : registry cfg.provider = some provider
  unpinned : pinned req.candidates req.pinnedCandidateID = none
  warm : (isExternal provider.id && (env 0).cooldown) = false
  healthy : (env 0).unavailable = false

/-- The single provider is asked, and returns in time and without an error a ranking that is valid
and that it is able to give. -/
structure Ranks (provider : Provider) (r : DecisionResult) : Prop
    extends Asked registry cfg env req provider where
  inTime : (env 0).after ≠ .deadlineExceeded
  answer : (env 0).answer = .returned r false
  ranking : r.action = .rank
  able : provider.canRank = true
  valid : validateResult req.candidates ((Answer.returned r false).result provider) = none

/-- The ranking that is taken, if any, begins with a candidate that may come first. -/
def RankBound : Prop :=
  ∀ provider r id, Ranks registry cfg env req provider r → r.rankedIDs.head? = some id →
    req.candidates.head?.map Candidate.id = some id ∨
      (computePrimaryConstraints req.candidates req.pinnedCandidateID).isAllowedPrimary id = true

/-- The pin is looked at: the budget and the provider are there, or the chain is. -/
def Reached : Prop :=
  cfg.mode = .single ∧ 0 < singleCalls cfg req ∧ (registry cfg.provider).isSome ∨
    cfg.mode = .hybrid ∧ cfg.chain ≠ "" ∧ (cfg.chains cfg.chain).isSome

end Head

section Head

variable {registry : String → Option Provider} {cfg : Config} {env : ℕ → Consultation}
  {req : DecisionRequest δ}

theorem headBound_of_eq (h : (decide registry cfg env req).ordered = req.candidates) :
    HeadBound registry cfg env req := by
  intro d hd
  rw [h] at hd
  exact .inl hd

theorem isAllowedPrimary_of_pinned {candidates : List (Candidate δ)} {pin : String}
    {c : Candidate δ} (h : pinned candidates pin = some c) :
    (computePrimaryConstraints candidates pin).isAllowedPrimary c.id = true := by
  unfold PrimarySelectionConstraints.isAllowedPrimary
  rw [(computePrimaryConstraints_of_pinned h).2, (pinned_spec h).2.2]
  simp

theorem headBound_of_pinned {d : Decided δ} (hdecide : decide registry cfg env req = d)
    (h : PinnedFirst req d) : HeadBound registry cfg env req := by
  obtain ⟨c, hpin, -, hordered⟩ := h
  intro e hhead
  rw [hdecide, hordered] at hhead
  cases hhead
  exact .inr (isAllowedPrimary_of_pinned hpin)

theorem Answer.result_rankedIDs (provider : Provider) (r : DecisionResult) (failed : Bool) :
    (result provider (.returned r failed)).rankedIDs = r.rankedIDs := by
  rw [result]
  split <;> rfl

theorem Ranks.head {provider : Provider} {r : DecisionResult} {id : String}
    (h : Ranks registry cfg env req provider r) (hid : r.rankedIDs.head? = some id) :
    ∃ d, (decide registry cfg env req).ordered.head? = some d ∧ d.id = id := by
  have hresult := result_action provider r false
  have haccepted : judge req.candidates
      (computePrimaryConstraints req.candidates req.pinnedCandidateID) provider (env 0).answer =
      .accepted ((returned r false).result provider) := by
    rw [judge, h.answer]
    simp [hresult, h.ranking, h.able, h.valid, failed]
  have hdecide : (decide registry cfg env req).ordered =
      (normalizeResult req.candidates ((returned r false).result provider)).ordered := by
    rw [(decide_long registry cfg env req h.several).2.2 h.mode, decideSingle,
      if_neg (by have := h.budget; omega), h.known]
    simp only [forcedFirst_of_not_pinned h.unpinned]
    rw [consult]
    simp only [h.warm, h.healthy, h.inTime, haccepted]
    rfl
  obtain ⟨hne, -, hcheck⟩ := validateResult_eq_none h.valid
  obtain ⟨first, ids, hids, hmem⟩ := checkAction_rank (hresult.trans h.ranking) hcheck
  have hfirst : first = id := by
    rw [result_rankedIDs] at hids
    rw [hids] at hid
    exact Option.some.inj hid
  rw [hdecide, ← hfirst]
  exact normalizeResult_rank hne (hresult.trans h.ranking) hids hmem

variable (hd : (req.candidates.map Candidate.id).Nodup)

include hd

theorem headBound_of_hybrid (hlen : 2 ≤ req.candidates.length) (hmode : cfg.mode = .hybrid) :
    HeadBound registry cfg env req := by
  have hdecide := (decide_long registry cfg env req hlen).2.1 hmode
  have hne : req.candidates ≠ [] := ne_nil_of_length_pos (by omega)
  rcases decideChain_cases hd registry cfg env with hsame | hpin |
    ⟨chain, d, -, -, hend, hordered, hresult⟩
  · exact headBound_of_eq (hdecide ▸ hsame)
  · exact headBound_of_pinned hdecide hpin
  · rcases hend with ⟨hsame, -⟩ | ⟨hnormal, haction, hsel, hmem, hallowed, -⟩
    · exact headBound_of_eq (by rw [hdecide, hordered, hsame])
    · intro c hhead
      obtain ⟨first, hfirst, hid⟩ := normalizeResult_select hne haction hsel hmem
      rw [hdecide, hordered, hnormal, hfirst] at hhead
      cases hhead
      rw [hid]
      exact .inr hallowed

theorem headBound_of_single (hlen : 2 ≤ req.candidates.length) (hmode : cfg.mode = .single)
    (hrank : RankBound registry cfg env req) : HeadBound registry cfg env req := by
  have hdecide := (decide_long registry cfg env req hlen).2.2 hmode
  rcases decideSingle_cases hd registry cfg env with hsame | ⟨hbudget, provider, hprovider, hrest⟩
  · exact headBound_of_eq (hdecide ▸ hsame)
  rcases hrest with hpin | ⟨hpin, hconsult⟩
  · exact headBound_of_pinned hdecide hpin
  rcases consult_cases req provider (env 0) with hsame |
    ⟨r, hafter, hhealth, hwarm, hjudge, hordered, -⟩
  · exact headBound_of_eq (by rw [hdecide, hconsult, hsame])
  obtain ⟨hfailed, hr, hcanRank, -, hvalid, hallowed⟩ := judge_accepted hjudge
  obtain ⟨hne, hisValid, hcheck⟩ := validateResult_eq_none hvalid
  have hdecided : (decide registry cfg env req).ordered =
      (normalizeResult req.candidates r).ordered := by rw [hdecide, hconsult, hordered]
  intro d hhead
  rw [hdecided] at hhead
  cases ha : r.action with
  | abstain =>
    rw [normalizeResult_abstain ha] at hhead
    exact .inl hhead
  | select =>
    obtain ⟨hsel, hmem⟩ := checkAction_select ha hcheck
    obtain ⟨first, hfirst, hid⟩ := normalizeResult_select hne ha hsel hmem
    rw [hfirst] at hhead
    cases hhead
    rw [hid]
    exact .inr (hallowed ha)
  | other text =>
    rw [ha] at hisValid
    cases hisValid
  | rank =>
    obtain ⟨id, ids, hids, hmem⟩ := checkAction_rank ha hcheck
    obtain ⟨first, hfirst, hid⟩ := normalizeResult_rank hne ha hids hmem
    rw [hfirst] at hhead
    cases hhead
    -- the provider's own result, before its id was filled in
    cases hanswer : (env 0).answer with
    | panicked =>
      rw [hanswer] at hfailed
      cases hfailed
    | returned r₀ failed =>
      rw [hanswer] at hfailed hr
      obtain rfl : failed = false := hfailed
      subst hr
      rw [result_action] at ha hcanRank
      rw [result_rankedIDs] at hids
      have hranks : Ranks registry cfg env req provider r₀ :=
        ⟨⟨hmode, hlen, hbudget, hprovider, hpin, hwarm, hhealth⟩, hafter, hanswer, ha,
          hcanRank ha, hvalid⟩
      rcases hrank provider r₀ id hranks (by rw [hids]; rfl) with hsame | hprimary
      · refine .inl ?_
        obtain ⟨c, hc, hcid⟩ := Option.map_eq_some_iff.mp hsame
        have hmem : d ∈ req.candidates :=
          (normalizeResult_perm hd _).mem_iff.mp (mem_of_mem_head? hfirst)
        rw [hc, Keyed.eq_of_key_eq hd (mem_of_mem_head? hc) hmem (hcid.trans hid.symm)]
      · rw [hid]
        exact .inr hprimary

theorem pinned_head {c : Candidate δ}
    (hpin : pinned req.candidates req.pinnedCandidateID = some c) (hmode : cfg.mode ≠ .off) :
    (decide registry cfg env req).ordered.head? = some c ↔
      req.candidates.head? = some c ∨ Reached registry cfg req := by
  obtain ⟨-, hmem, -⟩ := pinned_spec hpin
  by_cases hlen : req.candidates.length ≤ 1
  · -- there is only the pinned candidate
    have hhead : req.candidates.head? = some c := by
      obtain ⟨d, hone⟩ := length_eq_one_iff.mp (le_antisymm hlen (length_pos_of_mem hmem))
      rw [hone] at hmem ⊢
      rw [mem_singleton.mp hmem]
      rfl
    rw [decide_short hlen]
    exact iff_of_true hhead (.inl hhead)
  · obtain ⟨-, hhybrid, hsingle⟩ := decide_long registry cfg env req (by omega)
    cases hm : cfg.mode with
    | off => exact absurd hm hmode
    | single =>
      have hreached : Reached registry cfg req ↔
          0 < singleCalls cfg req ∧ (registry cfg.provider).isSome := by simp [Reached, hm]
      rw [hsingle hm, decideSingle, hreached]
      split
      · next hbudget => exact (or_iff_left fun h => by omega).symm
      next hbudget =>
      split
      · next hunknown =>
        rw [hunknown]
        exact (or_iff_left (by rintro ⟨-, ⟨⟩⟩)).symm
      · next provider hprovider =>
        simp only [forcedFirst_of_pinned hd hpin, hprovider]
        exact iff_of_true rfl (.inr ⟨by omega, rfl⟩)
    | hybrid =>
      have hreached : Reached registry cfg req ↔
          cfg.chain ≠ "" ∧ (cfg.chains cfg.chain).isSome := by simp [Reached, hm]
      rw [hhybrid hm, decideChain, hreached]
      split
      · next hnone =>
        refine (or_iff_left ?_).symm
        rintro ⟨hname, hknown⟩
        rw [if_neg hname] at hnone
        rw [hnone] at hknown
        cases hknown
      · next chain hchain =>
        split at hchain
        · cases hchain
        next hname =>
        simp only [execute, forcedFirst_of_pinned hd hpin, hchain]
        exact iff_of_true rfl (.inr ⟨hname, rfl⟩)

omit hd

/-- **The first candidate is the one that came first or one that may come first**, exactly when no
ranking that is taken begins with another one; and a pin that counts comes first exactly when it did
before or it is looked at. -/
theorem headBound_iff (registry : String → Option Provider) (cfg : Config) (env : ℕ → Consultation)
    (req : DecisionRequest δ) (hd : (req.candidates.map Candidate.id).Nodup) :
    (HeadBound registry cfg env req ↔ RankBound registry cfg env req) ∧
      ∀ c, cfg.mode ≠ .off → pinned req.candidates req.pinnedCandidateID = some c →
        ((decide registry cfg env req).ordered.head? = some c ↔
          req.candidates.head? = some c ∨ Reached registry cfg req) := by
  refine ⟨⟨fun hbound => ?_, fun hrank => ?_⟩, fun c hmode hpin => pinned_head hd hpin hmode⟩
  · intro provider r id hranks hid
    obtain ⟨d, hhead, hdid⟩ := hranks.head hid
    rcases hbound d hhead with hsame | hprimary
    · rw [hsame, ← hdid]
      exact .inl rfl
    · rw [← hdid]
      exact .inr hprimary
  · by_cases hlen : req.candidates.length ≤ 1
    · exact headBound_of_eq (decide_short hlen)
    · cases hmode : cfg.mode with
      | off => exact headBound_of_eq ((decide_long registry cfg env req (by omega)).1 hmode)
      | hybrid => exact headBound_of_hybrid hd (by omega) hmode
      | single => exact headBound_of_single hd (by omega) hmode hrank

end Head

/-- The provider selects `a`, which may come first. -/
def selectsA : Consultation where
  answer := .returned { action := .select, selectedID := "a" } false

/-- With a selection the bound holds. -/
theorem headBound_iff_selection : HeadBound soleProvider soleConfig (fun _ => selectsA) twoRoutes := by
  refine (headBound_iff soleProvider soleConfig (fun _ => selectsA) twoRoutes (by decide)).1.mpr ?_
  intro provider r id hranks
  have hanswer := hranks.answer
  cases hanswer
  exact absurd hranks.ranking (by decide)

/-- **A ranking puts a candidate first that may not come first**: `b` has a worse priority than
`a`. -/
theorem ranking_escapes_constraints :
    (decide soleProvider soleConfig (fun _ => ranksB) twoRoutes).ordered.map Candidate.id =
        ["b", "a"] ∧
      (computePrimaryConstraints twoRoutes.candidates "").allowedPrimaryIDs = ["a"] ∧
      ¬ HeadBound soleProvider soleConfig (fun _ => ranksB) twoRoutes := by
  refine ⟨by decide, by decide, fun hbound => ?_⟩
  rcases hbound ⟨"b", 0, 1, ()⟩ (by decide) with hsame | hprimary
  · exact absurd hsame (by decide)
  · exact absurd hprimary (by decide)

end NexaRoute.Decision
