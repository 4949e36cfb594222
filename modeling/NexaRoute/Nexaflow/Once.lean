import NexaRoute.Nexaflow.Facts

/-!
# A node with side effects runs at most once for each attempt

The dispatch of a row is a transition from `claimed` to `running` that only one worker can make, and
a running row of a node with side effects is never queued again: recovery parks it, and only its own
outcome can put it to wait for a decision. A job whose dispatch went through is *live* until then. As
long as a row is queued there is no live job and `Run` was not called for it; otherwise there is one
live job at most, and `Run` was called at most once.

The one way back is an outcome that asks for a decision. The checks before `Run` ask so; that `Run`
itself never does is a condition on the node.

## Main results

* `runs_at_most_once` — in every interleaving of engines
-/

namespace NexaRoute.Nexaflow

open Interleave List StoreState Option NodeExecution

variable {op : Op} {n n₁ : Slot}

/-! ### Calls of Run -/

/-- The row that a request calls `Run` for. -/
def Op.invokes? : Op → Option (String × String × ℤ)
  | .invoke inv => some inv.key
  | _ => none

/-- The row that a step calls `Run` for. -/
def invokes? : Act Op Res Job JobResult → Option (String × String × ℤ)
  | .call op _ => op.invokes?
  | .work _ op _ => op.invokes?
  | _ => none

/-- How often `Run` was called for a row. -/
def invocations (log : ELog) (k : String × String × ℤ) : ℕ :=
  log.countP fun e => invokes? e.2 == some k

/-- `Run` answers that it needs a decision. -/
def RunAnswer.asks (answer : RunAnswer) : Bool :=
  match answer.out with
  | .error (.node err) => waitingCode err.code
  | _ => false

/-- The `Run` of a node of a run never answers that it needs a decision. -/
def NeverAsks (runID nodeID : String) (_ : StoreState) (_ : ELog) (_ : ℕ) (_ : Option ℕ) :
    Op → Env → Prop
  | .invoke inv, e => inv.runID = runID → inv.nodeID = nodeID → e.answer.asks = false
  | _, _ => True

instance (runID nodeID : String) (w : StoreState) (log : ELog) (t : ℕ) (i : Option ℕ) (op : Op)
    (e : Env) : Decidable (NeverAsks runID nodeID w log t i op e) := by
  unfold NeverAsks
  split <;> infer_instance

variable {host : Host} {reg : Registry} {kind : StoreKind} {w w' : StoreState} {log log' : ELog}
  {t i j : ℕ} {k : String × String × ℤ}

theorem invocations_cons (e : ℕ × Act Op Res Job JobResult) :
    invocations (e :: log) k = invocations log k + if invokes? e.2 = some k then 1 else 0 := by
  simp only [invocations, countP_cons, beq_iff_eq]

theorem waitingCode_conclude {spec : NodeSpec} {answer : RunAnswer} {err : NodeError}
    (h : conclude host spec answer = .error err) (hasks : answer.asks = false) :
    waitingCode err.code = false := by
  rw [conclude] at h
  rw [RunAnswer.asks] at hasks
  cases hout : answer.out with
  | ok out =>
    simp only [hout] at h
    split_ifs at h <;> cases h <;> rfl
  | error rerr =>
    simp only [hout] at h hasks
    split_ifs at h
    · cases h
      rfl
    · cases h
      rfl
    · cases h
      cases rerr with
      | node nerr => exact hasks
      | other text | canceled | deadlineExceeded => rfl

theorem waitingCode_of_state {spec : NodeSpec} {cur : NodeExecution} {res : JobResult}
    (h : (outcomeOf host spec cur res).next.state = .waiting) :
    ∃ err, res = .error err ∧ waitingCode err.code = true := by
  cases res with
  | ok out =>
    rw [outcomeOf] at h
    split at h <;> cases h
  | error err =>
    rw [outcomeOf] at h
    split_ifs at h with hcancelled hwaiting <;> try cases h
    exact ⟨err, rfl, hwaiting⟩

/-! ### Live jobs -/

/-- The engine put the row to wait for a decision. -/
def Released (post : List Event) : Prop :=
  ∃ i exec expected row,
    (⟨.save (.outcome i) exec expected, (.ok row : Except StoreError NodeExecution)⟩ : Event) ∈ post ∧
      exec.state = .waiting

/-- The job was dispatched for the row, and the row was not put to wait since. -/
structure Live (n : Slot) (k : String × String × ℤ) : Prop where
  key : n.job.exec.key = k
  dispatched : n.dispatched
  held : ¬Released n.post

/-- The row can still be claimed, now or after a decision. -/
def Queued (w : StoreState) (k : String × String × ℤ) : Prop :=
  ∀ row, w.row? k = some row →
    row.state = .pending ∨ row.state = .claimed ∨ row.state = .waiting

section Invariant

variable (host : Host) (reg : Registry) (runID nodeID : String)

/-- If the run is there, its definition gives the node a spec with side effects. -/
def EffectfulIn (w : StoreState) : Prop :=
  ∀ run, w.run? runID = some run → ∃ spec, specAt host reg run.definition nodeID = .ok spec ∧
    spec.sideEffect.effectful = true

/-- A job of a thread is live for the row. -/
def LiveAt (log : ELog) (k : String × String × ℤ) (t j : ℕ) (n : Slot) : Prop :=
  (party host reg log t).slots[j]? = some n ∧ Live n k

/-- What holds of the rows of a node with side effects. -/
structure OnceAt (w : StoreState) (log : ELog) : Prop where
  idle : ∀ a, Queued w (runID, nodeID, a) →
    (∀ t j n, ¬LiveAt host reg log (runID, nodeID, a) t j n) ∧
      invocations log (runID, nodeID, a) = 0
  single : ∀ a t j n t' j' n', LiveAt host reg log (runID, nodeID, a) t j n →
    LiveAt host reg log (runID, nodeID, a) t' j' n' → t = t' ∧ j = j'
  fresh : ∀ a t j n, LiveAt host reg log (runID, nodeID, a) t j n → ¬n.invoked →
    invocations log (runID, nodeID, a) = 0
  once : ∀ a, invocations log (runID, nodeID, a) ≤ 1

structure RunsOnce (w : StoreState) (log : ELog) : Prop where
  answers : ∀ (t j : ℕ) (n : Slot), (party host reg log t).slots[j]? = some n →
    n.job.exec.runID = runID → n.job.exec.nodeID = nodeID →
    ∀ inv answer, (⟨.invoke inv, (answer : RunAnswer)⟩ : Event) ∈ n.done → answer.asks = false
  once : EffectfulIn host reg runID nodeID w → OnceAt host reg runID nodeID w log

end Invariant

variable {runID nodeID : String}

theorem EffectfulIn.of_later (h : Later w w') (he : EffectfulIn host reg runID nodeID w') :
    EffectfulIn host reg runID nodeID w := by
  intro run hrun
  obtain ⟨run', hrun', hlater⟩ := h.runs _ run hrun
  rw [← hlater.definition]
  exact he run' hrun'

theorem Released.cons {post : List Event} (ev : Event) (h : Released post) : Released (ev :: post) := by
  obtain ⟨i, exec, expected, row, hmem, hstate⟩ := h
  exact ⟨i, exec, expected, row, mem_cons_of_mem ev hmem, hstate⟩

/-- A step after which no job is live that was not, but for one whose row was queued and is not any
longer; no row is queued that was not, but for those that have neither a live job nor a call then;
and `Run` was not called. -/
theorem OnceAt.step (h : OnceAt host reg runID nodeID w log) (t₀ j₀ : ℕ)
    (hlive : ∀ a t j n, LiveAt host reg log' (runID, nodeID, a) t j n →
      (∃ n₀, LiveAt host reg log (runID, nodeID, a) t j n₀ ∧ (n₀.invoked → n.invoked)) ∨
        (t = t₀ ∧ j = j₀) ∧ Queued w (runID, nodeID, a) ∧ ¬Queued w' (runID, nodeID, a))
    (hinv : ∀ k, invocations log' k = invocations log k)
    (hqueued : ∀ a, Queued w' (runID, nodeID, a) → Queued w (runID, nodeID, a) ∨
      (∀ t j n, ¬LiveAt host reg log' (runID, nodeID, a) t j n) ∧
        invocations log (runID, nodeID, a) = 0) : OnceAt host reg runID nodeID w' log' where
  idle a ha := by
    rw [hinv]
    rcases hqueued a ha with hq | hnone
    · obtain ⟨hnone, hzero⟩ := h.idle a hq
      refine ⟨fun t j n hn => ?_, hzero⟩
      rcases hlive a t j n hn with ⟨n₀, hn₀, -⟩ | ⟨-, -, hnot⟩
      · exact hnone t j n₀ hn₀
      · exact hnot ha
    · exact hnone
  single a t j n t' j' n' hn hn' := by
    rcases hlive a t j n hn with ⟨n₀, hn₀, -⟩ | ⟨⟨rfl, rfl⟩, hq, -⟩
    · rcases hlive a t' j' n' hn' with ⟨n₁, hn₁, -⟩ | ⟨-, hq, -⟩
      · exact h.single a t j n₀ t' j' n₁ hn₀ hn₁
      · exact absurd hn₀ ((h.idle a hq).1 t j n₀)
    · rcases hlive a t' j' n' hn' with ⟨n₁, hn₁, -⟩ | ⟨⟨rfl, rfl⟩, -⟩
      · exact absurd hn₁ ((h.idle a hq).1 t' j' n₁)
      · exact ⟨rfl, rfl⟩
  fresh a t j n hn hfresh := by
    rw [hinv]
    rcases hlive a t j n hn with ⟨n₀, hn₀, himp⟩ | ⟨-, hq, -⟩
    · exact h.fresh a t j n₀ hn₀ fun h₀ => hfresh (himp h₀)
    · exact (h.idle a hq).2
  once a := by
    rw [hinv]
    exact h.once a

/-! ### Which steps queue a row -/

theorem Saved.queued {exec : NodeExecution} {expected : NodeState}
    {r : Except StoreError NodeExecution} (h : Saved kind w exec expected w' r) (hq : Queued w' k) :
    Queued w k ∨ exec.key = k ∧ ∃ cur row, r = .ok row ∧ w.row? k = some cur ∧
      (expected = .unset ∨ cur.state = expected) ∧
      (exec.state = .pending ∨ exec.state = .claimed ∨ exec.state = .waiting) := by
  cases h with
  | refused err => exact .inl hq
  | @done cur row hcur hnames hexp hvalid hkey hstate =>
    by_cases hk : exec.key = k
    · subst hk
      refine .inr ⟨rfl, cur, row, rfl, hcur, hexp, ?_⟩
      have := hq row
      rw [row?_setRow, hcur, if_pos hkey, hstate] at this
      exact this rfl
    · refine .inl fun row' hrow' => hq row' ?_
      rw [row?_setRow, if_neg (hkey.symm ▸ hk)]
      exact hrow'

theorem Change.queued (h : Change kind w op w') (hd : w.Distinct) (hq : Queued w' k) :
    Queued w k ∨ ∃ site exec expected, op = .save site exec expected := by
  cases h with
  | saveRow => exact .inr ⟨_, _, _, rfl⟩
  | addRow hr hnew =>
    refine .inl fun row hrow => hq row ?_
    rw [row?_addRow rfl, hrow]
    rfl
  | @claimRow _ _ _ _ _ cur hcur hstate =>
    refine .inl fun row hrow => ?_
    by_cases hk : cur.key = k
    · have hrow' := row?_of_mem hd (mem_of_currentAttempt hcur).1
      rw [hk, hrow, some.injEq] at hrow'
      subst hrow'
      exact hstate.imp_right .inl
    · refine hq row ?_
      rw [row?_setRow, if_neg (by simpa using hk)]
      exact hrow
  | _ => exact .inl hq

theorem Base.queued_call (h : Base host reg w log) (he : EffectfulIn host reg runID nodeID w)
    (hmay : May host reg (party host reg log t).own (party host reg log t).slots op) (env : Env)
    {a : ℤ} (hq : Queued (op.exec kind w env).1 (runID, nodeID, a)) :
    Queued w (runID, nodeID, a) ∨ ∃ i exec expected n cur res row,
      op = .save (.outcome i) exec expected ∧ exec.state = .waiting ∧
      (⟨op, (op.exec kind w env).2⟩ : Event) =
        ⟨.save (.outcome i) exec expected, (.ok row : Except StoreError NodeExecution)⟩ ∧
      Recording (party host reg log t).slots i n cur res [] ∧
      n.job.exec.key = (runID, nodeID, a) ∧
      (outcomeOf host n.job.spec cur res).next.state = .waiting := by
  rcases Change.queued change_exec h.sane.distinct hq with hq | ⟨site, exec, expected, rfl⟩
  · exact .inl hq
  rcases (h.saved hmay env).queued hq with hq | ⟨hkey, cur₀, row, hr, hcur₀, hexp, hstate⟩
  · exact .inl hq
  -- The sites that write `pending` or `waiting`, by the state they expect.
  have hwas : cur₀.state = .pending ∨ cur₀.state = .claimed ∨ cur₀.state = .waiting →
      Queued w (runID, nodeID, a) := by
    intro hcase row' hrow'
    rw [hcur₀, some.injEq] at hrow'
    rwa [← hrow']
  cases hmay with
  | expire exec hk hs | recoverExpired exec hk hs | reject exec hk hs | skip hk hrun hs
  | undispatched exec hk hs | cancel exec hk hs | recoverParked exec hk hs hexp' =>
    simp [hs] at hstate
  | skipNothing => simp at hstate
  | requeue exec hk hs | resume exec hk hs =>
    exact .inl (hwas (.inr (.inr (by simpa using hexp))))
  | @recoverQueued cur run hrow hrun hid hs hagain =>
    have hexp' : cur₀.state = cur.state := by
      rcases hexp with hexp | hexp
      · rcases hs with hs | hs <;> rw [hs] at hexp <;> cases hexp
      · exact hexp
    rcases hs with hs | hs
    · exact .inl (hwas (by simp [hexp', hs]))
    · -- A running row is queued again only if its node has no side effects.
      have hdis := (h.sawRow hrow).dispatched hs
      obtain ⟨r, hr', hlater⟩ := h.sawRun hrun
      obtain ⟨hk1, hk2, -⟩ := parts_of_key (e := cur) hkey
      rw [← hid, hk1] at hr'
      obtain ⟨spec, hspec, heff⟩ := he r hr'
      rw [hlater.definition, specAt, ← hk2] at hspec
      simp [rerunnable, hdis, hspec, heff] at hagain
  | @outcome i n exec cur res hrec hk hs =>
    have hwait : (outcomeOf host n.job.spec cur res).next.state = .waiting := by
      rw [hs] at hstate
      cases res with
      | ok out =>
        rw [outcomeOf] at hstate
        split at hstate <;> simp [Outcome.next] at hstate
      | error err =>
        rw [outcomeOf] at hstate ⊢
        split_ifs at hstate ⊢ <;> simp [Outcome.next] at hstate ⊢
    refine .inr ⟨i, exec, _, n, cur, res, row, rfl, hs.trans hwait, ?_, hrec, ?_, hwait⟩
    · exact congrArg (Sigma.mk _) hr
    · rw [← hrec.key, ← hk]
      exact hkey
  | retry hrec hout => simp [(outcomeOf_retry hout).1] at hstate
  | park hrec => simp [parkedRow] at hstate

/-! ### The invariant -/

theorem liveAt_call {r : Res op} {t' : ℕ} (h : LiveAt host reg ((t, .call op r) :: log) k t' j n) :
    ∃ n₀, LiveAt host reg log k t' j n₀ ∧ (n₀.invoked → n.invoked) ∧
      (t = t' → op.slot? = some j → n.post = ⟨op, r⟩ :: n₀.post) := by
  obtain ⟨hn, hlive⟩ := h
  rw [slots_call] at hn
  obtain ⟨n₀, hn₀, rfl⟩ := map_eq_some_iff.mp hn
  split at hlive
  · next htj =>
    rw [if_pos htj]
    refine ⟨n₀, ⟨hn₀, hlive.key, hlive.dispatched, fun hrel => ?_⟩, fun h => h, fun _ _ => rfl⟩
    exact hlive.held (hrel.cons _)
  · next htj =>
    rw [if_neg htj]
    exact ⟨n₀, ⟨hn₀, hlive⟩, fun h => h, fun ht hop => absurd ⟨ht, hop⟩ htj⟩

theorem liveAt_work {r : Res op} {t' : ℕ}
    (h : LiveAt host reg ((t, .work i op r) :: log) k t' j n) :
    ∃ n₀, (party host reg log t').slots[j]? = some n₀ ∧
      (¬(t = t' ∧ i = j) ∧ n = n₀ ∨
        t = t' ∧ i = j ∧ n = { n₀ with done := ⟨op, r⟩ :: n₀.done }) := by
  obtain ⟨hn, -⟩ := h
  rw [slots_work] at hn
  obtain ⟨n₀, hn₀, rfl⟩ := map_eq_some_iff.mp hn
  refine ⟨n₀, hn₀, ?_⟩
  split
  · next htj => exact .inr ⟨htj.1, htj.2, rfl⟩
  · next htj => exact .inl ⟨htj, rfl⟩

theorem invocations_cons_none {a : Act Op Res Job JobResult} (h : invokes? a = none) :
    invocations ((t, a) :: log) k = invocations log k := by
  rw [invocations_cons, h]
  simp

theorem invokes?_of_may {own : List Event} {slots : List Slot} (h : May host reg own slots op) :
    op.invokes? = none := by
  cases op with
  | invoke inv => exact h.elim
  | _ => rfl

section

variable (h : RunsOnce host reg runID nodeID w log)

include h

theorem RunsOnce.waiting (hbase : Base host reg w log) {cur : NodeExecution} {res : JobResult}
    (hrec : Recording (party host reg log t).slots i n cur res [])
    (hwait : (outcomeOf host n.job.spec cur res).next.state = .waiting) {a : ℤ}
    (hkey : n.job.exec.key = (runID, nodeID, a)) :
    LiveAt host reg log (runID, nodeID, a) t i n ∧ ¬n.invoked := by
  have hends := (hbase.slots t i n hrec.slot).ends res hrec.result
  obtain ⟨err, rfl, hcode⟩ := waitingCode_of_state hwait
  refine ⟨⟨hrec.slot, hkey, ?_, ?_⟩, ?_⟩
  · by_contra hdis
    obtain ⟨-, serr, heq⟩ := hends.refused hdis
    cases heq
    cases hcode
  · rintro ⟨j, exec, expected, row, hmem, -⟩
    obtain ⟨rows, -, hpost⟩ := hrec.post
    rw [hpost, nil_append] at hmem
    cases mem_singleton.mp hmem
  · rintro ⟨inv, answer, hmem⟩
    obtain ⟨hr1, hr2, -⟩ := parts_of_key hkey
    have hasks := h.answers t i n hrec.slot hr1 hr2 inv answer hmem
    have hcon := hends.concluded inv answer hmem
    cases hc : conclude host n.job.spec answer with
    | ok out =>
      rw [hc] at hcon
      cases hcon
    | error nerr =>
      rw [hc] at hcon
      cases hcon
      exact absurd hcode (by simpa [ExecError.code] using waitingCode_conclude hc hasks)

theorem RunsOnce.call (hbase : Base host reg w log)
    (hmay : May host reg (party host reg log t).own (party host reg log t).slots op) (env : Env) :
    RunsOnce host reg runID nodeID (op.exec kind w env).1
      ((t, .call op (op.exec kind w env).2) :: log) := by
  refine ⟨fun t' j n hn hr1 hr2 inv answer hmem => ?_, fun he => ?_⟩
  · rw [slots_call] at hn
    obtain ⟨n₀, hn₀, rfl⟩ := map_eq_some_iff.mp hn
    refine h.answers t' j n₀ hn₀ ?_ ?_ inv answer ?_
    · split at hr1 <;> exact hr1
    · split at hr2 <;> exact hr2
    · split at hmem <;> exact hmem
  · have hchange : Change kind w op (op.exec kind w env).1 := change_exec
    have he₀ := he.of_later (hchange.later hbase.sane.distinct)
    have hat := h.once he₀
    refine hat.step t 0 (fun a t' j n hn => ?_)
      (fun k => invocations_cons_none (invokes?_of_may hmay)) fun a hq => ?_
    · obtain ⟨n₀, hn₀, himp, -⟩ := liveAt_call hn
      exact .inl ⟨n₀, hn₀, himp⟩
    · rcases hbase.queued_call he₀ hmay env hq with
        hq | ⟨i, exec, expected, n, cur, res, row, hop, hstate, hev, hrec, hkey, hwait⟩
      · exact .inl hq
      · obtain ⟨hlive, hfresh⟩ := h.waiting hbase hrec hwait hkey
        refine .inr ⟨fun t' j n' hn' => ?_, hat.fresh a t i n hlive hfresh⟩
        -- The only live job is the one whose outcome this is.
        obtain ⟨n₀, hn₀, -, hpost⟩ := liveAt_call hn'
        obtain ⟨rfl, rfl⟩ := hat.single a _ _ _ _ _ _ hlive hn₀
        refine hn'.2.held ⟨i, exec, expected, row, ?_, hstate⟩
        rw [hpost rfl (by rw [hop]; rfl), hev]
        exact mem_cons_self

theorem RunsOnce.of_shrunk {a : Act Op Res Job JobResult} (ha : invokes? a = none)
    (hslots : ∀ (t' j : ℕ) (n : Slot), (party host reg ((t, a) :: log) t').slots[j]? = some n →
      n.done = [] ∨ ∃ n₀, (party host reg log t').slots[j]? = some n₀ ∧ n₀.job = n.job ∧
        n₀.done = n.done ∧ n₀.post = n.post) : RunsOnce host reg runID nodeID w ((t, a) :: log) := by
  refine ⟨fun t' j n hn hr1 hr2 inv answer hmem => ?_, fun he => ?_⟩
  · rcases hslots t' j n hn with hdone | ⟨n₀, hn₀, hjob, hdone, -⟩
    · rw [hdone] at hmem
      cases hmem
    · rw [← hjob] at hr1 hr2
      rw [← hdone] at hmem
      exact h.answers t' j n₀ hn₀ hr1 hr2 inv answer hmem
  · refine (h.once he).step t 0 (fun a t' j n hn => ?_) (fun k => invocations_cons_none ha)
      fun a hq => .inl hq
    obtain ⟨hn, hkey, ⟨exec, expected, row, hdis⟩, hheld⟩ := hn
    rcases hslots t' j n hn with hdone | ⟨n₀, hn₀, hjob, hdone, hpost⟩
    · rw [hdone] at hdis
      cases hdis
    · refine .inl ⟨n₀, ⟨hn₀, hjob ▸ hkey, ⟨exec, expected, row, hdone ▸ hdis⟩, hpost ▸ hheld⟩, ?_⟩
      rintro ⟨inv, answer, hmem⟩
      exact ⟨inv, answer, hdone ▸ hmem⟩

end

theorem RunsOnce.answers_work (h : RunsOnce host reg runID nodeID w log) {r : Res op}
    (hr : ∀ inv (answer : RunAnswer), (⟨.invoke inv, answer⟩ : Event) = ⟨op, r⟩ →
      inv.runID = runID → inv.nodeID = nodeID → answer.asks = false)
    (hn₁ : (party host reg log t).slots[i]? = some n₁) (hmay : WorkerMay n₁ op) (t' j : ℕ)
    (n : Slot) (hn : (party host reg ((t, .work i op r) :: log) t').slots[j]? = some n)
    (hr1 : n.job.exec.runID = runID) (hr2 : n.job.exec.nodeID = nodeID) (inv : Invocation)
    (answer : RunAnswer) (hmem : (⟨.invoke inv, answer⟩ : Event) ∈ n.done) :
    answer.asks = false := by
  rw [slots_work] at hn
  obtain ⟨n₀, hn₀, rfl⟩ := map_eq_some_iff.mp hn
  split at hmem
  · next htj =>
    rw [if_pos htj] at hr1 hr2
    rcases mem_cons.mp hmem with heq | hmem
    · obtain ⟨rfl, rfl⟩ := htj
      obtain rfl : n₀ = n₁ := by simpa [hn₀] using hn₁
      cases heq
      obtain ⟨-, -, -, -, policyApproved, rfl⟩ := hmay
      exact hr _ answer rfl hr1 hr2
    · exact h.answers t' j n₀ hn₀ hr1 hr2 inv answer hmem
  · next htj =>
    rw [if_neg htj] at hr1 hr2
    exact h.answers t' j n₀ hn₀ hr1 hr2 inv answer hmem

section

variable (h : OnceAt host reg runID nodeID w log)

include h

theorem OnceAt.idle_work {r : Res op} (hdis : ∀ exec expected row, (⟨op, r⟩ : Event) ≠
      ⟨.save .dispatch exec expected, (.ok row : Except StoreError NodeExecution)⟩)
    (hinv : op.invokes? = none) : OnceAt host reg runID nodeID w ((t, .work i op r) :: log) := by
  refine h.step t i (fun a t' j n hn => .inl ?_) (fun k => invocations_cons_none hinv)
    fun a hq => .inl hq
  obtain ⟨n₀, hn₀, ⟨-, rfl⟩ | ⟨-, -, rfl⟩⟩ := liveAt_work hn
  · exact ⟨n, ⟨hn₀, hn.2⟩, fun h => h⟩
  · obtain ⟨-, hkey, hdispatched, hheld⟩ := hn
    rcases dispatched_cons.mp hdispatched with ⟨exec, expected, row, heq⟩ | hdispatched
    · exact absurd heq.symm (hdis exec expected row)
    · exact ⟨n₀, ⟨hn₀, hkey, hdispatched, hheld⟩, fun h => invoked_cons.mpr (.inr h)⟩

theorem OnceAt.dispatch
    (hn₁ : (party host reg log t).slots[i]? = some n₁) {r : Except StoreError NodeExecution}
    (hsaved : Saved kind w (dispatchedRow n₁.job.exec) .claimed w' r) :
    OnceAt host reg runID nodeID w'
      ((t, .work i (.save .dispatch (dispatchedRow n₁.job.exec) .claimed) r) :: log) := by
  cases hsaved with
  | refused err =>
    refine h.idle_work ?_ rfl
    rintro exec expected row ⟨⟩
  | @done cur row hcur hnames hexp hvalid hkey hstate =>
    have hclaimed : cur.state = .claimed := by simpa using hexp
    have hkey₁ : row.key = n₁.job.exec.key := hkey
    have hcur₁ : w.row? n₁.job.exec.key = some cur := hcur
    have hnot : ∀ a, n₁.job.exec.key = (runID, nodeID, a) →
        ¬Queued (w.setRow row) (runID, nodeID, a) := by
      intro a ha hq
      have := hq row
      rw [row?_setRow, if_pos (hkey₁.trans ha), ← ha, hcur₁, hstate] at this
      simpa [dispatchedRow] using this rfl
    refine h.step t i (fun a t' j n hn => ?_) (fun k => invocations_cons_none rfl) fun a hq => ?_
    · obtain ⟨n₀, hn₀, ⟨-, rfl⟩ | ⟨rfl, rfl, rfl⟩⟩ := liveAt_work hn
      · exact .inl ⟨n, ⟨hn₀, hn.2⟩, fun h => h⟩
      · obtain rfl : n₀ = n₁ := by simpa [hn₀] using hn₁
        have ha : n₀.job.exec.key = (runID, nodeID, a) := hn.2.key
        refine .inr ⟨⟨rfl, rfl⟩, fun row' hrow' => ?_, hnot a ha⟩
        -- The row was claimed, and so there was no live job for it.
        rw [← ha, hcur₁, some.injEq] at hrow'
        exact .inr (.inl (hrow' ▸ hclaimed))
    · refine .inl fun row' hrow' => hq row' ?_
      rw [row?_setRow, if_neg fun ha => hnot a (hkey₁.symm.trans ha) hq]
      exact hrow'

theorem OnceAt.invoke (hn₁ : (party host reg log t).slots[i]? = some n₁) {inv : Invocation}
    (hmay : WorkerMay n₁ (.invoke inv)) (answer : RunAnswer) :
    OnceAt host reg runID nodeID w ((t, .work i (.invoke inv) answer) :: log) := by
  obtain ⟨-, hpost, hdis, hfresh₁, policyApproved, rfl⟩ := hmay
  have hlive₁ : ∀ {a : ℤ}, n₁.job.exec.key = (runID, nodeID, a) →
      LiveAt host reg log (runID, nodeID, a) t i n₁ := by
    intro a ha
    refine ⟨hn₁, ha, hdis, ?_⟩
    rintro ⟨j, exec, expected, row, hmem, -⟩
    rw [hpost] at hmem
    cases hmem
  have hlive : ∀ {a : ℤ} {t' j : ℕ} {n : Slot},
      LiveAt host reg ((t, .work i (.invoke (n₁.job.invocation policyApproved)) answer) :: log)
        (runID, nodeID, a) t' j n →
      ∃ n₀, LiveAt host reg log (runID, nodeID, a) t' j n₀ ∧ (n₀.invoked → n.invoked) ∧
        (t = t' → i = j → n.invoked) := by
    intro a t' j n hn
    obtain ⟨n₀, hn₀, ⟨hother, rfl⟩ | ⟨rfl, rfl, rfl⟩⟩ := liveAt_work hn
    · exact ⟨n, ⟨hn₀, hn.2⟩, fun h => h, fun ht hj => absurd ⟨ht, hj⟩ hother⟩
    · obtain ⟨-, hkey, hdispatched, hheld⟩ := hn
      rcases dispatched_cons.mp hdispatched with ⟨exec, expected, row, heq⟩ | hdispatched
      · cases heq
      · exact ⟨n₀, ⟨hn₀, hkey, hdispatched, hheld⟩, fun h => invoked_cons.mpr (.inr h),
          fun _ _ => invoked_cons.mpr (.inl ⟨_, _, rfl⟩)⟩
  have hinv : ∀ a, invocations
      ((t, .work i (.invoke (n₁.job.invocation policyApproved)) answer) :: log) (runID, nodeID, a) =
      invocations log (runID, nodeID, a) +
        if n₁.job.exec.key = (runID, nodeID, a) then 1 else 0 := by
    intro a
    rw [invocations_cons]
    simp only [invokes?, Op.invokes?, some.injEq]
    rfl
  refine ⟨fun a hq => ?_, fun a t' j n t'' j' n' hn hn' => ?_, fun a t' j n hn hfresh => ?_,
    fun a => ?_⟩
  · obtain ⟨hnone, hzero⟩ := h.idle a hq
    have ha : n₁.job.exec.key ≠ (runID, nodeID, a) := fun ha => hnone t i n₁ (hlive₁ ha)
    refine ⟨fun t' j n hn => ?_, by rw [hinv, hzero, if_neg ha]⟩
    obtain ⟨n₀, hn₀, -⟩ := hlive hn
    exact hnone t' j n₀ hn₀
  · obtain ⟨n₀, hn₀, -⟩ := hlive hn
    obtain ⟨n₀', hn₀', -⟩ := hlive hn'
    exact h.single a t' j n₀ t'' j' n₀' hn₀ hn₀'
  · obtain ⟨n₀, hn₀, himp, hself⟩ := hlive hn
    have ha : n₁.job.exec.key ≠ (runID, nodeID, a) := by
      intro ha
      obtain ⟨rfl, rfl⟩ := h.single a _ _ _ _ _ _ (hlive₁ ha) hn₀
      exact hfresh (hself rfl rfl)
    rw [hinv, if_neg ha]
    exact h.fresh a t' j n₀ hn₀ fun h₀ => hfresh (himp h₀)
  · rw [hinv]
    split
    · next ha => rw [h.fresh a t i n₁ (hlive₁ ha) hfresh₁]
    · exact h.once a

end

theorem RunsOnce.work (hbase : Base host reg w log) (h : RunsOnce host reg runID nodeID w log)
    (hn₁ : (party host reg log t).slots[i]? = some n₁) (hmay : WorkerMay n₁ op) {env : Env}
    (hG : NeverAsks runID nodeID w log t (some i) op env) :
    RunsOnce host reg runID nodeID (op.exec kind w env).1
      ((t, .work i op (op.exec kind w env).2) :: log) := by
  refine ⟨h.answers_work (fun inv answer heq hr1 hr2 => ?_) hn₁ hmay, fun he => ?_⟩
  · cases heq
    exact hG hr1 hr2
  · have hchange : Change kind w op (op.exec kind w env).1 := change_exec
    have hat := h.once (he.of_later (hchange.later hbase.sane.distinct))
    have hrule := hmay.2.2
    cases op with
    | save site exec expected =>
      obtain ⟨rfl, rfl, rfl, -⟩ := hrule
      refine hat.dispatch hn₁ (saved_exec hbase.sane.distinct (fun _ _ => ?_) env)
      exact (hbase.jobOK (hbase.slots t i n₁ hn₁).job).1
    | invoke inv => exact hat.invoke hn₁ hmay env.answer
    | audit ev | getApproval runID' nodeID' =>
      refine hat.idle_work ?_ rfl
      rintro exec expected row ⟨⟩
    | _ => exact hrule.elim

theorem maintains_once (runID nodeID : String) :
    Maintains (engineSystem host reg kind) (conduct host reg) (NeverAsks runID nodeID)
      (Base host reg) (RunsOnce host reg runID nodeID) where
  call e hbase h hmay _ := h.call hbase hmay e
  work e hbase h hn hmay hG := h.work hbase hn hmay hG
  fork {w log t js} hbase h hmay := by
    refine h.of_shrunk rfl fun t' j n hn => ?_
    rw [slots_fork] at hn
    split at hn
    · obtain ⟨job, -, rfl⟩ := map_eq_some_iff.mp hn
      exact .inl rfl
    · exact .inr ⟨n, hn, rfl, rfl, rfl⟩
  join {w log t rs} hbase h hpost := by
    refine h.of_shrunk rfl fun t' j n hn => .inr ?_
    rcases slots_join hpost hn with hn | ⟨-, n₀, r, hn₀, -, rfl⟩
    · exact ⟨n, hn, rfl, rfl, rfl⟩
    · exact ⟨n₀, hn₀, rfl, rfl, rfl⟩

theorem once_new : RunsOnce host reg runID nodeID newStoreState [] := by
  have hnone : ∀ k t j n, ¬LiveAt host reg [] k t j n := by
    rintro k t j n ⟨hn, -⟩
    simp at hn
  refine ⟨fun t j n hn => by simp at hn, fun _ => ⟨fun a _ => ⟨hnone _, rfl⟩, ?_, ?_, ?_⟩⟩
  · intro a t j n t' j' n' hn
    exact absurd hn (hnone _ t j n)
  · intro a t j n hn
    exact absurd hn (hnone _ t j n)
  · intro a
    exact Nat.zero_le 1

/-! ### The numbers of attempts -/

theorem Sane.specAt (h : Sane host reg w) {run : Run} (hrun : w.run? runID = some run)
    (hnode : nodeID ∈ run.definition.ids) :
    ∃ spec, Nexaflow.specAt host reg run.definition nodeID = .ok spec := by
  obtain ⟨hmem, -⟩ := run?_mem hrun
  obtain ⟨n, hn, hid⟩ := mem_map.mp hnode
  cases hf : run.definition.nodes.find? (·.id == nodeID) with
  | none => simpa [hid] using find?_eq_none.mp hf n hn
  | some n' =>
    obtain ⟨spec, hspec⟩ := (h.runs run hmem).1.spec n' (mem_of_find?_eq_some hf)
    refine ⟨spec, ?_⟩
    rw [Nexaflow.specAt, nodeDefByID, hf]
    exact hspec

theorem Sane.attempts (h : Sane host reg w) (runID nodeID : String) :
    w.rowsOf runID nodeID = [] ∨ ∃ (k : ℕ) (run : Run) (spec : NodeSpec),
      w.run? runID = some run ∧ Nexaflow.specAt host reg run.definition nodeID = .ok spec ∧
      (k : ℤ) < max 1 spec.retry.maxAttempts ∧
      ((w.rowsOf runID nodeID).map NodeExecution.attempt).Perm ((List.range (k + 1)).map Int.ofNat) := by
  cases hcur : w.currentAttempt runID nodeID with
  | none =>
    refine .inl (eq_nil_iff_forall_not_mem.mpr fun row hrow => ?_)
    obtain ⟨hmem, hrun, hnode⟩ := mem_rowsOf.mp hrow
    exact currentAttempt_eq_none_iff.mp hcur row hmem hrun hnode
  | some cur =>
    have hrow := row?_current h.distinct hcur
    obtain ⟨hmem, hcurRun, hcurNode⟩ := mem_of_currentAttempt hcur
    have hnum := h.numberedAs hrow
    obtain ⟨k, hk⟩ := Int.eq_ofNat_of_zero_le hnum.nonneg
    dsimp only at hk
    obtain ⟨run, spec, hrun, hspec, hlt⟩ : ∃ run spec, w.run? runID = some run ∧
        Nexaflow.specAt host reg run.definition nodeID = .ok spec ∧
        cur.attempt < max 1 spec.retry.maxAttempts := by
      rcases hnum with ⟨h0, -⟩ | ⟨-, -, -, run, spec, hrun, hspec, hlt⟩
      · obtain ⟨run, hrun, hnode⟩ := h.rows cur hmem
        rw [hcurRun] at hrun
        rw [hcurNode] at hnode
        obtain ⟨spec, hspec⟩ := h.specAt hrun hnode
        exact ⟨run, spec, hrun, hspec, lt_of_eq_of_lt h0 (lt_max_of_lt_left Int.one_pos)⟩
      · exact ⟨run, spec, hrun, hspec, lt_max_of_lt_right hlt⟩
    refine .inr ⟨k, run, spec, hrun, hspec, hk ▸ hlt, ?_⟩
    have hkeys : ((w.rowsOf runID nodeID).map attempt).map
        (fun a => (runID, nodeID, a)) = (w.rowsOf runID nodeID).map key := by
      rw [List.map_map]
      refine map_congr_left fun row hrow => ?_
      obtain ⟨-, hr1, hr2⟩ := mem_rowsOf.mp hrow
      simp [key, hr1, hr2]
    have hnodup : ((w.rowsOf runID nodeID).map attempt).Nodup := by
      refine List.Nodup.of_map (fun a => (runID, nodeID, a)) ?_
      rw [hkeys]
      exact h.distinct.nodes.sublist (filter_sublist.map key)
    have hrange : ((List.range (k + 1)).map Int.ofNat).Nodup :=
      nodup_range.map fun _ _ => Int.ofNat.inj
    refine (perm_ext_iff_of_nodup hnodup hrange).mpr fun a => ?_
    simp only [List.mem_map, mem_rowsOf, List.mem_range]
    constructor
    · rintro ⟨row, ⟨hrowMem, hr1, hr2⟩, rfl⟩
      have hle := attempt_le_current hcur hrowMem hr1 hr2
      have hnn : 0 ≤ row.attempt := (h.numbered row hrowMem).nonneg
      exact ⟨row.attempt.toNat, by omega, by simpa using hnn⟩
    · rintro ⟨m, hm, rfl⟩
      obtain ⟨row, hrow'⟩ := h.row_upTo hcur (b := (m : ℤ)) (by omega) (by omega)
      obtain ⟨hrowMem, hr1, hr2, hr3⟩ := row?_parts hrow'
      exact ⟨row, ⟨hrowMem, hr1, hr2⟩, hr3⟩

/-- **A node with side effects runs at most once for each attempt**, if its `Run` never asks for a
decision itself, and the attempts of every node are numbered from `0` on, fewer than the spec allows:
whatever engines do over one store, in any interleaving. -/
theorem runs_at_most_once (host : Host) (reg : Registry) (kind : StoreKind)
    (items : List (Item Env EngineCall)) :
    (∀ runID nodeID run spec, RequestsMeet host reg kind (NeverAsks runID nodeID) items →
      (runEngines host reg kind items).world.run? runID = some run →
      specAt host reg run.definition nodeID = .ok spec → spec.sideEffect.effectful = true →
      ∀ attempt, invocations (runEngines host reg kind items).log (runID, nodeID, attempt) ≤ 1) ∧
    ∀ runID nodeID, (runEngines host reg kind items).world.rowsOf runID nodeID = [] ∨
      ∃ (k : ℕ) (run : Run) (spec : NodeSpec),
        (runEngines host reg kind items).world.run? runID = some run ∧
        specAt host reg run.definition nodeID = .ok spec ∧
        (k : ℤ) < max 1 spec.retry.maxAttempts ∧
        (((runEngines host reg kind items).world.rowsOf runID nodeID).map
          NodeExecution.attempt).Perm ((List.range (k + 1)).map Int.ofNat) := by
  refine ⟨fun runID nodeID run spec hmeets hrun hspec heff attempt => ?_, fun runID nodeID => ?_⟩
  · obtain ⟨-, honce⟩ := invariant_run_of (keeps_conduct kind) answers_base preserves_base
      (maintains_once runID nodeID) base_new once_new hmeets
    refine (honce.once fun run' hrun' => ⟨spec, ?_, heff⟩).once attempt
    rw [hrun, some.injEq] at hrun'
    exact hrun' ▸ hspec
  · exact (base_run items).sane.attempts runID nodeID

/-- The second attempt succeeds, and with it the run. Then engine 1 is heard of again. -/
def executeSolo : List (Item Env EngineCall) :=
  retriedSolo ++ List.replicate 4 (.work 3 0 {}) ++ goOn 3 20 { now := 6 + 30 * Go.second } ++
    List.replicate 4 (.work 1 0 {}) ++ goOn 1 6 { now := 7 + 30 * Go.second }

theorem runs_at_most_once_retried :
    ([0, 1, 2].map fun attempt => invocations
      (runEngines plainHost soloRegistry .memory executeSolo).log ("run_1", "start", attempt)) =
        [1, 1, 0] ∧
      ∀ attempt, invocations (runEngines plainHost soloRegistry .memory executeSolo).log
        ("run_1", "start", attempt) ≤ 1 := by
  have hspec : (((runEngines plainHost soloRegistry .memory executeSolo).world.run? "run_1").bind
      fun run => (specAt plainHost soloRegistry run.definition "start").toOption) = some soloSpec := by
    decide +kernel
  obtain ⟨run, hrun, hspec⟩ := bind_eq_some_iff.mp hspec
  have hspec' : specAt plainHost soloRegistry run.definition "start" = .ok soloSpec := by
    cases hs : specAt plainHost soloRegistry run.definition "start" with
    | error err => simp [hs, Except.toOption] at hspec
    | ok spec => simpa [hs, Except.toOption] using hspec
  refine ⟨by decide +kernel, ?_⟩
  exact (runs_at_most_once plainHost soloRegistry .memory executeSolo).1 "run_1" "start" run soloSpec
    (by decide +kernel) hrun hspec' rfl

end NexaRoute.Nexaflow
