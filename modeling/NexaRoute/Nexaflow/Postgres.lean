import NexaRoute.Nexaflow.Terminal

/-!
# Node rows in Postgres

`PostgresStore` keeps a node row as a JSON payload beside columns for the state and the lease, and
the columns win when a row is read. A claim and a release write the columns only, so a payload may
hold an older state and lease. Each method is one transaction and is taken to be atomic.

A record is written as JSON, and one with a time outside the years 0 to 9999 has no JSON; what is in
the payload column is a record that has (`Payload`).

The tables are compared with the memory store in two steps. They behave as a `StoreState` whose
saves go to the row that the record names (`saveAddressed`) and that refuses what has no JSON,
always. And that store behaves as the memory store, which saves to the current row and to no other
and encodes nothing, as long as no call meets the difference.

Assumed of the database: text and payloads come back as they were written, times are not rounded,
text is ordered by code points, and `clock_timestamp()` is the clock of the call. A clock reads a
time that Go can tell from no time at all, that is, none before year 1, and none after year 9999.

## Main results

* `serve_tables` — the tables behave as the store with addressed saves
* `answers_eq_of_agrees` — memory and Postgres answer a sequence of calls alike
-/

namespace NexaRoute.Nexaflow

open Go List StoreState Machine Except

/-- Whether `json.Marshal` has a text for a time. -/
def marshalsTime (t : Time) : Bool :=
  let year := (civil (t / day)).year
  0 ≤ year && year ≤ 9999

/-- What a clock may read. -/
abbrev Clock := { t : Time // zeroTime ≤ t ∧ marshalsTime t = true }

/-- Whether `json.Marshal` has a text for a record: of its fields, times may have none. -/
def NodeExecution.encodes (e : NodeExecution) : Bool :=
  [e.deadline, e.leaseUntil, e.createdAt, e.updatedAt, e.startedAt, e.finishedAt].all marshalsTime

/-- The calls about node executions. -/
inductive NodeOp
  | append (exec : NodeExecution) (now : Clock)
  | save (exec : NodeExecution) (expected : NodeState) (now : Clock)
  | tryClaim (runID nodeID owner : String) (ttl : Duration) (now : Clock)
  | releaseLease (runID nodeID owner : String)
  | get (runID : String)

/-- What a call returns when it does not fail. -/
inductive Answer
  | row (e : NodeExecution)
  | claim (e : Option NodeExecution)
  | released
  | rows (l : List NodeExecution)

/-- The state and the answer after a transaction. -/
def answered {σ β : Type} (s : σ) (f : β → Answer) :
    Except StoreError (σ × β) → σ × Except StoreError Answer
  | .ok (s', b) => (s', .ok (f b))
  | .error err => (s, .error err)

def StoreState.serve (s : StoreState) : NodeOp → StoreState × Except StoreError Answer
  | .append exec now => answered s .row (s.appendNodeExecution exec now)
  | .save exec expected now => answered s .row (s.saveNodeExecution exec expected now)
  | .tryClaim runID nodeID owner ttl now => answered s .claim (s.tryClaim runID nodeID owner ttl now)
  | .releaseLease runID nodeID owner =>
    answered s (fun _ => .released) ((s.releaseLease runID nodeID owner).map (·, ()))
  | .get runID => answered s .rows ((s.getNodeExecutions runID).map (s, ·))

/-- The memory store, with appends and saves that refuse what has no JSON, saves that go to the named
row and releases that need no row. -/
def StoreState.serveAddressed (s : StoreState) : NodeOp → StoreState × Except StoreError Answer
  | .append exec now =>
    if exec.encodes then answered s .row (s.appendNodeExecution exec now)
    else (s, .error .unencodable)
  | .save exec expected now =>
    if exec.encodes then answered s .row (s.saveAddressed exec expected now)
    else (s, .error .unencodable)
  | .releaseLease runID nodeID owner =>
    ((Machine.commit s (s.releaseLease runID nodeID owner)), .ok .released)
  | op => s.serve op

/-! ### The tables -/

/-- What the payload column holds. -/
abbrev Payload := { e : NodeExecution // e.encodes = true }

def encodeStoreJSON (exec : NodeExecution) : Except StoreError Payload :=
  if h : exec.encodes = true then .ok ⟨exec, h⟩ else .error .unencodable

structure NodeRow where
  runID : String
  nodeID : String
  attempt : ℤ
  payload : Payload
  state : NodeState
  leaseOwner : String
  leaseUntil : Option Time

/-- The run table, as far as node rows go, and the node table. -/
structure Tables where
  runs : List Run
  nodes : List NodeRow

def nullTime (t : Time) : Option Time := if t = zeroTime then none else some t

def scanNode (r : NodeRow) : NodeExecution :=
  { r.payload.val with
    state := r.state, leaseOwner := r.leaseOwner, leaseUntil := r.leaseUntil.getD zeroTime }

/-- The row an `INSERT` or an `UPDATE` writes for a record. -/
def nodeRow (payload : Payload) : NodeRow where
  runID := payload.val.runID
  nodeID := payload.val.nodeID
  attempt := payload.val.attempt
  payload
  state := payload.val.state
  leaseOwner := payload.val.leaseOwner
  leaseUntil := nullTime payload.val.leaseUntil

namespace Tables

/-- `WHERE run_id = $1 AND node_id = $2`. -/
def rowsOf (t : Tables) (runID nodeID : String) : List NodeRow :=
  t.nodes.filter fun r => r.runID == runID && r.nodeID == nodeID

/-- The one of two rows with the higher attempt. -/
def newer (cur : Option NodeRow) (r : NodeRow) : Option NodeRow :=
  match cur with
  | none => some r
  | some c => if c.attempt < r.attempt then some r else some c

/-- `ORDER BY attempt DESC LIMIT 1`, the attempt of which is `MAX(attempt)`. -/
def latest (t : Tables) (runID nodeID : String) : Option NodeRow :=
  (t.rowsOf runID nodeID).foldl newer none

/-- `UPDATE ... WHERE run_id = $1 AND node_id = $2 AND attempt = $3`. -/
def update (t : Tables) (runID nodeID : String) (attempt : ℤ) (f : NodeRow → NodeRow) : Tables :=
  { t with
    nodes := t.nodes.map fun r =>
      if r.runID = runID ∧ r.nodeID = nodeID ∧ r.attempt = attempt then f r else r }

/-- `SELECT ... WHERE run_id = $1`. -/
def run? (t : Tables) (runID : String) : Option Run := t.runs.find? (·.id == runID)

/-- `AppendNodeExecution`. -/
def append (t : Tables) (exec : NodeExecution) (now : Time) :
    Except StoreError (Tables × NodeExecution) := do
  let _ ← encodeStoreJSON exec
  match t.run? exec.runID with
  | none => .error .notFound
  | some _ =>
    let before := if exec.appendOperationID = "" then none
      else (t.rowsOf exec.runID exec.nodeID).find?
        (·.payload.val.appendOperationID == exec.appendOperationID)
    match before with
    | some existing => .ok (t, scanNode existing)
    | none =>
      let attempt := match t.latest exec.runID exec.nodeID with
        | none => 0
        | some r => r.attempt + 1
      let row := StoreState.appendedRow exec attempt now
      let payload ← encodeStoreJSON row
      .ok ({ t with nodes := t.nodes ++ [nodeRow payload] }, row)

/-- `SaveNodeExecution`. -/
def save (t : Tables) (exec : NodeExecution) (expected : NodeState) (now : Time) :
    Except StoreError (Tables × NodeExecution) := do
  let _ ← encodeStoreJSON exec
  let found := ((t.rowsOf exec.runID exec.nodeID).find? (·.attempt == exec.attempt)).or
    (t.latest exec.runID exec.nodeID)
  match found with
  | none => .error .notFound
  | some r => match nodeTransitionError (scanNode r).state exec.state expected with
    | some err => .error err
    | none =>
      let row := StoreState.savedRow (scanNode r) exec now
      let payload ← encodeStoreJSON row
      .ok (t.update row.runID row.nodeID row.attempt fun _ => nodeRow payload, row)

/-- The `WHERE` clause of the claim. -/
def claimable (r : NodeRow) (owner : String) (now : Time) : Bool :=
  (r.state == .pending || r.state == .claimed) &&
    (r.leaseOwner == "" || r.leaseUntil.all (fun u => decide (u ≤ now)) || r.leaseOwner == owner)

/-- The columns a claim writes. -/
def claimed (r : NodeRow) (owner : String) (ttl : Duration) (now : Time) : NodeRow :=
  { r with state := .claimed, leaseOwner := owner, leaseUntil := some (now + ttl) }

def tryClaim (t : Tables) (runID nodeID owner : String) (ttl : Duration) (now : Time) :
    Except StoreError (Tables × Option NodeExecution) :=
  match t.latest runID nodeID with
  | none => .error .notFound
  | some r =>
    if claimable r owner now then
      .ok (t.update runID nodeID r.attempt fun r => claimed r owner ttl now,
        some (scanNode (claimed r owner ttl now)))
    else .ok (t, none)

def releaseLease (t : Tables) (runID nodeID owner : String) : Tables :=
  match t.latest runID nodeID with
  | none => t
  | some r =>
    t.update runID nodeID r.attempt fun r =>
      if r.leaseOwner = owner then { r with leaseOwner := "", leaseUntil := none } else r

/-- `GetNodeExecutions`. -/
def get (t : Tables) (runID : String) : Except StoreError (List NodeExecution) :=
  match t.run? runID with
  | none => .error .notFound
  | some _ =>
    .ok (((t.nodes.filter (·.runID == runID)).map scanNode).insertionSort StoreState.rowBefore)

/-- The Postgres store. -/
def serve (t : Tables) : NodeOp → Tables × Except StoreError Answer
  | .append exec now => answered t .row (t.append exec now)
  | .save exec expected now => answered t .row (t.save exec expected now)
  | .tryClaim runID nodeID owner ttl now => answered t .claim (t.tryClaim runID nodeID owner ttl now)
  | .releaseLease runID nodeID owner => (t.releaseLease runID nodeID owner, .ok .released)
  | .get runID => answered t .rows ((t.get runID).map (t, ·))

end Tables

/-! ### Rows up to the time of their last write -/

/-- A row without `UpdatedAt`, which a claim writes into a memory row and not into a payload. -/
def sansUpdate (e : NodeExecution) : NodeExecution := { e with updatedAt := zeroTime }

/-- An answer without the times of the last writes. -/
def Answer.sansUpdate : Answer → Answer
  | .row e => .row (Nexaflow.sansUpdate e)
  | .claim e => .claim (e.map Nexaflow.sansUpdate)
  | .released => .released
  | .rows l => .rows (l.map Nexaflow.sansUpdate)

/-- A row of the memory store and one of the table that say the same. -/
structure RowRel (e : NodeExecution) (r : NodeRow) : Prop where
  runID : r.runID = e.runID
  nodeID : r.nodeID = e.nodeID
  attempt : r.attempt = e.attempt
  scan : sansUpdate (scanNode r) = sansUpdate e

/-- A memory store and tables that say the same. -/
structure Rel (s : StoreState) (t : Tables) : Prop where
  runs : t.runs = s.runs
  nodes : List.Forall₂ RowRel s.nodes t.nodes
  distinct : s.Distinct

/-- The stores still say the same, and so do their answers. -/
def Alike (p : StoreState × Except StoreError Answer) (q : Tables × Except StoreError Answer) :
    Prop :=
  Rel p.1 q.1 ∧ p.2.map Answer.sansUpdate = q.2.map Answer.sansUpdate

section Simulation

variable {s : StoreState} {t : Tables} {e cur exec : NodeExecution} {r : NodeRow}
  {runID nodeID owner : String} {now : Time}

theorem RowRel.state (h : RowRel e r) : r.state = e.state := congrArg NodeExecution.state h.scan

theorem RowRel.leaseOwner (h : RowRel e r) : r.leaseOwner = e.leaseOwner :=
  congrArg NodeExecution.leaseOwner h.scan

theorem RowRel.leaseUntil (h : RowRel e r) : r.leaseUntil.getD zeroTime = e.leaseUntil :=
  congrArg NodeExecution.leaseUntil h.scan

theorem RowRel.appendOperationID (h : RowRel e r) :
    r.payload.val.appendOperationID = e.appendOperationID :=
  show (sansUpdate (scanNode r)).appendOperationID = (sansUpdate e).appendOperationID by rw [h.scan]

theorem rowRel_nodeRow (payload : Payload) : RowRel payload.val (nodeRow payload) := by
  refine ⟨rfl, rfl, rfl, congrArg sansUpdate ?_⟩
  have hlease : (nullTime payload.val.leaseUntil).getD zeroTime = payload.val.leaseUntil := by
    rw [nullTime]
    split
    · next h => exact h.symm
    · rfl
  simp only [scanNode, nodeRow, hlease]

theorem encodeStoreJSON_of_encodes (h : e.encodes = true) :
    encodeStoreJSON e = .ok ⟨e, h⟩ := dif_pos h

theorem encodes_appendedRow (h : exec.encodes = true) (attempt : ℤ)
    (hnow : marshalsTime now = true) : (appendedRow exec attempt now).encodes = true := by
  simp only [NodeExecution.encodes, all_cons, all_nil, Bool.and_true, Bool.and_eq_true] at h ⊢
  exact ⟨h.1, h.2.1, hnow, hnow, h.2.2.2.2⟩

theorem marshalsTime_zeroTime : marshalsTime zeroTime = true := by decide

theorem encodes_savedRow (h : exec.encodes = true) (hcreated : marshalsTime cur.createdAt = true)
    (hnow : marshalsTime now = true) : (savedRow cur exec now).encodes = true := by
  simp only [NodeExecution.encodes, all_cons, all_nil, Bool.and_true, Bool.and_eq_true] at h ⊢
  obtain ⟨hdeadline, hlease, -, -, hstarted, hfinished⟩ := h
  simp only [savedRow]
  refine ⟨hdeadline, ?_, hcreated, hnow, ?_, ?_⟩ <;> split <;>
    first | assumption | exact marshalsTime_zeroTime

theorem find?_rel {l : List NodeExecution} {l' : List NodeRow} {p : NodeExecution → Bool}
    {q : NodeRow → Bool} (h : List.Forall₂ RowRel l l') (hpq : ∀ e r, RowRel e r → p e = q r) :
    Option.Rel RowRel (l.find? p) (l'.find? q) := by
  induction h with
  | nil => exact .none
  | @cons e r l l' hr _ ih =>
    rw [find?_cons, find?_cons, ← hpq e r hr]
    cases p e with
    | true => exact .some hr
    | false => exact ih

theorem rowsOf_rel (h : Rel s t) :
    List.Forall₂ RowRel (s.rowsOf runID nodeID) (t.rowsOf runID nodeID) := by
  refine rel_filter (fun e r hr => ?_) h.nodes
  show ((e.runID == runID && e.nodeID == nodeID) = true) ↔ _
  rw [← hr.runID, ← hr.nodeID]

theorem newer_rel {c : Option NodeExecution} {c' : Option NodeRow} (hc : Option.Rel RowRel c c')
    (hr : RowRel e r) : Option.Rel RowRel (newer c e) (Tables.newer c' r) := by
  cases hc with
  | none => exact .some hr
  | @some a b hab =>
    rw [newer, Tables.newer, hab.attempt, hr.attempt]
    split
    · exact .some hr
    · exact .some hab

theorem latest_rel (h : Rel s t) (runID nodeID : String) :
    Option.Rel RowRel (s.currentAttempt runID nodeID) (t.latest runID nodeID) := by
  have : ∀ {l : List NodeExecution} {l' : List NodeRow}, List.Forall₂ RowRel l l' →
      ∀ {c c'}, Option.Rel RowRel c c' →
        Option.Rel RowRel (l.foldl newer c) (l'.foldl Tables.newer c') := by
    intro l l' hl
    induction hl with
    | nil => exact fun hc => hc
    | cons hr _ ih => exact fun hc => ih (newer_rel hc hr)
  exact this (rowsOf_rel h) .none

theorem run?_rel (h : Rel s t) : t.run? runID = s.run? runID := by
  rw [Tables.run?, h.runs]
  rfl

theorem Rel.setRow (h : Rel s t) {row : NodeExecution} {f : NodeRow → NodeRow}
    (hf : ∀ e ∈ s.nodes, e.key = row.key → ∀ r, RowRel e r → RowRel row (f r)) :
    Rel (s.setRow row) (t.update row.runID row.nodeID row.attempt f) := by
  refine ⟨h.runs, ?_, h.distinct.setRow row⟩
  simp only [StoreState.setRow, Tables.update, Keyed.replace, forall₂_map_left_iff,
    forall₂_map_right_iff]
  have hmem := (forall₂_and_left ..).mpr ⟨fun _ he => he, h.nodes⟩
  refine hmem.imp fun e r her => ?_
  obtain ⟨he, hr⟩ := her
  have hiff : (r.runID = row.runID ∧ r.nodeID = row.nodeID ∧ r.attempt = row.attempt) ↔
      e.key = row.key := by
    rw [hr.runID, hr.nodeID, hr.attempt]
    simp [NodeExecution.key]
  by_cases hk : e.key = row.key
  · rw [if_pos hk, if_pos (hiff.mpr hk)]
    exact hf e he hk r hr
  · rw [if_neg hk, if_neg (hiff.not.mpr hk)]
    exact hr

theorem claimable_rel (hr : RowRel e r) (hnow : zeroTime ≤ now) :
    Tables.claimable r owner now =
      ((e.state == .pending || e.state == .claimed) &&
        !liveForeignLease e owner now) := by
  have hlease : (r.leaseUntil.all fun u => decide (u ≤ now)) =
      !(e.leaseUntil != zeroTime && decide (now < e.leaseUntil)) := by
    have hu := hr.leaseUntil
    cases hcol : r.leaseUntil with
    | none =>
      rw [hcol] at hu
      simp [← hu]
    | some u =>
      rw [hcol] at hu
      rw [← hu]
      by_cases hz : u = zeroTime
      · simp [hz, hnow]
      · have hne : (u != zeroTime) = true := by simpa using hz
        by_cases hlt : now < u
        · simp [hne, hlt]
        · simp [Int.not_lt.mp hlt]
  rw [Tables.claimable, liveForeignLease, hr.state, hr.leaseOwner, hlease]
  simp only [bne, Bool.and_assoc]
  cases e.leaseOwner == "" <;> cases e.leaseOwner == owner <;> simp

theorem optionRel_cases {α β : Type} {R : α → β → Prop} {a : Option α} {b : Option β}
    (h : Option.Rel R a b) : a = none ∧ b = none ∨ ∃ x y, a = some x ∧ b = some y ∧ R x y := by
  cases h with
  | none => exact .inl ⟨rfl, rfl⟩
  | some h => exact .inr ⟨_, _, rfl, rfl, h⟩

theorem rowRel_claimed (h : RowRel e r) (owner : String) (ttl : Duration) (now : Time) :
    RowRel (claimedRow e owner ttl now) (Tables.claimed r owner ttl now) := by
  refine ⟨h.runID, h.nodeID, h.attempt, ?_⟩
  have hscan := h.scan
  simp only [sansUpdate, scanNode, NodeExecution.mk.injEq] at hscan
  simp only [sansUpdate, scanNode, Tables.claimed, claimedRow, Option.getD_some, hscan]

theorem rowRel_released (h : RowRel e r) :
    RowRel (releasedRow e) { r with leaseOwner := "", leaseUntil := none } := by
  refine ⟨h.runID, h.nodeID, h.attempt, ?_⟩
  have hscan := h.scan
  simp only [sansUpdate, scanNode, NodeExecution.mk.injEq] at hscan
  simp only [sansUpdate, scanNode, releasedRow, Option.getD_none, hscan]

theorem append_rel (h : Rel s t) (exec : NodeExecution) (now : Clock) :
    Alike (s.serveAddressed (.append exec now)) (t.serve (.append exec now)) := by
  show Alike (if exec.encodes = true then answered s .row (s.appendNodeExecution exec now)
    else (s, .error .unencodable)) (answered t .row (t.append exec now))
  by_cases hencodes : exec.encodes = true
  swap
  · rw [if_neg hencodes, Tables.append, encodeStoreJSON, dif_neg hencodes]
    exact ⟨h, rfl⟩
  rw [if_pos hencodes, appendNodeExecution, Tables.append, encodeStoreJSON_of_encodes hencodes,
    run?_rel h]
  simp only [bind, Except.bind]
  cases s.run? exec.runID with
  | none => exact ⟨h, rfl⟩
  | some run =>
    have hbefore : Option.Rel RowRel (s.appendedBefore exec)
        (if exec.appendOperationID = "" then none
          else (t.rowsOf exec.runID exec.nodeID).find?
            (·.payload.val.appendOperationID == exec.appendOperationID)) := by
      rw [appendedBefore]
      split
      · exact .none
      · refine find?_rel (rowsOf_rel h) fun e r hr => ?_
        rw [hr.appendOperationID]
    dsimp only
    rcases optionRel_cases hbefore with ⟨hs, ht⟩ | ⟨e, r, hs, ht, hr⟩
    · rw [hs, ht]
      have hnext : s.nextAttempt exec.runID exec.nodeID =
          match t.latest exec.runID exec.nodeID with
          | none => 0
          | some r => r.attempt + 1 := by
        rw [nextAttempt]
        rcases optionRel_cases (latest_rel h exec.runID exec.nodeID) with
          ⟨hs, ht⟩ | ⟨e, r, hs, ht, hr⟩
        · rw [hs, ht]
        · rw [hs, ht]
          exact congrArg (· + 1) hr.attempt.symm
      have hrow := encodes_appendedRow hencodes (s.nextAttempt exec.runID exec.nodeID)
        now.property.2
      rw [← hnext, encodeStoreJSON_of_encodes hrow]
      refine ⟨⟨h.runs, ?_, h.distinct.addRow exec now⟩, rfl⟩
      exact rel_append h.nodes (.cons (rowRel_nodeRow ⟨_, hrow⟩) .nil)
    · rw [hs, ht]
      exact ⟨h, by simp only [answered, Except.map, Answer.sansUpdate, hr.scan]⟩

theorem RowRel.marshals_createdAt (h : RowRel e r) : marshalsTime e.createdAt = true := by
  have hcreated : (sansUpdate (scanNode r)).createdAt = (sansUpdate e).createdAt := by rw [h.scan]
  have hpayload := r.payload.property
  simp only [NodeExecution.encodes, all_cons, Bool.and_eq_true] at hpayload
  exact hcreated ▸ hpayload.2.2.1

theorem save_rel (h : Rel s t) (exec : NodeExecution) (expected : NodeState) (now : Clock) :
    Alike (s.serveAddressed (.save exec expected now)) (t.serve (.save exec expected now)) := by
  show Alike (if exec.encodes = true then answered s .row (s.saveAddressed exec expected now)
    else (s, .error .unencodable)) (answered t .row (t.save exec expected now))
  by_cases hencodes : exec.encodes = true
  swap
  · rw [if_neg hencodes, Tables.save, encodeStoreJSON, dif_neg hencodes]
    exact ⟨h, rfl⟩
  have hfound : Option.Rel RowRel (s.addressed exec)
      (((t.rowsOf exec.runID exec.nodeID).find? (·.attempt == exec.attempt)).or
        (t.latest exec.runID exec.nodeID)) := by
    have hnamed : Option.Rel RowRel ((s.rowsOf exec.runID exec.nodeID).find? (·.attempt == exec.attempt))
        ((t.rowsOf exec.runID exec.nodeID).find? (·.attempt == exec.attempt)) :=
      find?_rel (rowsOf_rel h) fun e r hr => by rw [hr.attempt]
    rw [addressed]
    rcases optionRel_cases hnamed with ⟨hs, ht⟩ | ⟨e, r, hs, ht, hr⟩
    · rw [hs, ht]
      exact latest_rel h _ _
    · rw [hs, ht]
      exact .some hr
  rw [if_pos hencodes, saveAddressed, Tables.save, encodeStoreJSON_of_encodes hencodes]
  simp only [bind, Except.bind]
  rcases optionRel_cases hfound with ⟨hs, ht⟩ | ⟨cur, r, hs, ht, hr⟩
  · rw [hs, ht]
    exact ⟨h, rfl⟩
  · rw [hs, ht]
    dsimp only
    rw [show (scanNode r).state = cur.state from hr.state]
    cases nodeTransitionError cur.state exec.state expected with
    | some err => exact ⟨h, rfl⟩
    | none =>
      have hscan := hr.scan
      simp only [sansUpdate, NodeExecution.mk.injEq] at hscan
      have hsaved : savedRow (scanNode r) exec now = savedRow cur exec now := by
        simp only [savedRow, hscan]
      have hrow := encodes_savedRow hencodes hr.marshals_createdAt now.property.2
      rw [hsaved, encodeStoreJSON_of_encodes hrow]
      exact ⟨h.setRow fun _ _ _ _ _ => rowRel_nodeRow ⟨_, hrow⟩, rfl⟩

theorem tryClaim_rel (h : Rel s t) (ttl : Duration) (hnow : zeroTime ≤ now) :
    Alike (answered s .claim (s.tryClaim runID nodeID owner ttl now))
      (answered t .claim (t.tryClaim runID nodeID owner ttl now)) := by
  rw [tryClaim, Tables.tryClaim]
  rcases optionRel_cases (latest_rel h runID nodeID) with
    ⟨hs, ht⟩ | ⟨cur, r, hs, ht, hr⟩
  · rw [hs, ht]
    exact ⟨h, rfl⟩
  · rw [hs, ht]
    dsimp only
    obtain ⟨hmem, rfl, rfl⟩ := mem_of_currentAttempt hs
    rw [claimable_rel hr hnow]
    by_cases hstate : cur.state ≠ .pending ∧ cur.state ≠ .claimed
    · have hfalse : (cur.state == .pending || cur.state == .claimed) = false := by simpa using hstate
      rw [if_pos hstate, hfalse]
      exact ⟨h, rfl⟩
    · have htrue : (cur.state == .pending || cur.state == .claimed) = true := by
        by_contra hne
        exact hstate (by simpa using hne)
      rw [if_neg hstate, htrue]
      cases liveForeignLease cur owner now with
      | true => exact ⟨h, rfl⟩
      | false =>
        have hclaimed : ∀ e ∈ s.nodes, e.key = cur.key → ∀ r, RowRel e r →
            RowRel (claimedRow cur owner ttl now) (Tables.claimed r owner ttl now) := by
          intro e he hkey r' hr'
          obtain rfl := Keyed.eq_of_key_eq h.distinct.nodes he hmem hkey
          exact rowRel_claimed hr' owner ttl now
        refine ⟨?_, ?_⟩
        · rw [hr.attempt]
          exact h.setRow hclaimed
        · have hrow := (rowRel_claimed hr owner ttl now).scan
          show ok (Answer.claim (some (sansUpdate _))) =
            ok (Answer.claim (some (sansUpdate _)))
          rw [hrow]

theorem releaseLease_rel (h : Rel s t) :
    Rel (commit s (s.releaseLease runID nodeID owner))
      (t.releaseLease runID nodeID owner) := by
  rw [releaseLease, Tables.releaseLease]
  rcases optionRel_cases (latest_rel h runID nodeID) with ⟨hs, ht⟩ | ⟨cur, r, hs, ht, hr⟩
  · rw [hs, ht]
    exact h
  · rw [hs, ht]
    dsimp only
    obtain ⟨hmem, rfl, rfl⟩ := mem_of_currentAttempt hs
    rw [hr.attempt]
    by_cases howner : cur.leaseOwner = owner
    · rw [if_pos howner]
      refine h.setRow fun e he hkey r' hr' => ?_
      obtain rfl := Keyed.eq_of_key_eq h.distinct.nodes he hmem hkey
      rw [if_pos (hr'.leaseOwner.trans howner)]
      exact rowRel_released hr'
    · -- nothing is written in memory; the update finds no row with this owner
      rw [if_neg howner]
      have hsame : s.setRow cur = s := setRow_self h.distinct hmem
      have hrel : Rel (s.setRow cur) _ := h.setRow (f := fun r =>
        if r.leaseOwner = owner then { r with leaseOwner := "", leaseUntil := none } else r)
        fun e he hkey r' hr' => by
          obtain rfl := Keyed.eq_of_key_eq h.distinct.nodes he hmem hkey
          rw [if_neg fun heq => howner (hr'.leaseOwner.symm.trans heq)]
          exact hr'
      rwa [hsame] at hrel

theorem get_rel (h : Rel s t) (runID : String) :
    Alike (answered s .rows ((s.getNodeExecutions runID).map (s, ·)))
      (answered t .rows ((t.get runID).map (t, ·))) := by
  rw [getNodeExecutions, Tables.get, run?_rel h]
  cases s.run? runID with
  | none => exact ⟨h, rfl⟩
  | some run =>
    have hrows : (s.nodes.filter (·.runID == runID)).map sansUpdate =
        ((t.nodes.filter (·.runID == runID)).map scanNode).map sansUpdate := by
      rw [← forall₂_eq_eq_eq]
      simp only [forall₂_map_left_iff, forall₂_map_right_iff]
      have hfilter : List.Forall₂ RowRel (s.nodes.filter (·.runID == runID))
          (t.nodes.filter (·.runID == runID)) := by
        refine rel_filter (fun e r hr => ?_) h.nodes
        show ((e.runID == runID) = true) ↔ _
        rw [← hr.runID]
      exact hfilter.imp fun e r hr => hr.scan.symm
    have hsort : ∀ l : List NodeExecution, (l.insertionSort rowBefore).map sansUpdate =
        (l.map sansUpdate).insertionSort rowBefore := fun l =>
      map_insertionSort _ _ sansUpdate l fun _ _ _ _ => Iff.rfl
    exact ⟨h, by simp only [answered, Except.map, Answer.sansUpdate, hsort, hrows]⟩

/-- **The tables behave as the store with addressed saves.** -/
theorem serve_tables (h : Rel s t) (op : NodeOp) : Alike (s.serveAddressed op) (t.serve op) := by
  cases op with
  | append exec now => exact append_rel h exec now
  | save exec expected now => exact save_rel h exec expected now
  | tryClaim runID nodeID owner ttl now => exact tryClaim_rel h ttl now.property.1
  | releaseLease runID nodeID owner => exact ⟨releaseLease_rel h, rfl⟩
  | get runID => exact get_rel h runID

end Simulation

/-! ### Where memory and Postgres agree -/

/-- A call that meets no difference between the stores: a record has JSON, a save for a node that has
rows names the current attempt, and a release is for a node that has a row. -/
def Agrees (s : StoreState) : NodeOp → Prop
  | .append exec _ => exec.encodes = true
  | .save exec _ _ => exec.encodes = true ∧
    ∀ cur ∈ s.currentAttempt exec.runID exec.nodeID, exec.attempt = cur.attempt
  | .releaseLease runID nodeID _ => (s.currentAttempt runID nodeID).isSome
  | _ => True

instance (s : StoreState) : DecidablePred (Agrees s)
  | .append exec _ => inferInstanceAs (Decidable (exec.encodes = true))
  | .save exec _ _ => inferInstanceAs (Decidable (exec.encodes = true ∧
      ∀ cur ∈ s.currentAttempt exec.runID exec.nodeID, exec.attempt = cur.attempt))
  | .releaseLease runID nodeID _ =>
    inferInstanceAs (Decidable ((s.currentAttempt runID nodeID).isSome = true))
  | .tryClaim .. => isTrue trivial
  | .get _ => isTrue trivial

section Agreement

variable {s : StoreState} {t : Tables}

theorem addressed_eq_none_iff {exec : NodeExecution} :
    s.addressed exec = none ↔ s.currentAttempt exec.runID exec.nodeID = none := by
  rw [addressed, Option.or_eq_none_iff]
  refine and_iff_right_of_imp fun hcur => ?_
  rw [find?_eq_none]
  intro e he
  obtain ⟨hmem, hrun, hnode⟩ := mem_rowsOf.mp he
  exact absurd hnode (currentAttempt_eq_none_iff.mp hcur e hmem hrun)

theorem save_eq_saveAddressed (h : s.Distinct) {exec : NodeExecution} (expected : NodeState)
    (now : Time)
    (hnames : ∀ cur ∈ s.currentAttempt exec.runID exec.nodeID, exec.attempt = cur.attempt) :
    s.saveNodeExecution exec expected now = s.saveAddressed exec expected now := by
  rw [saveNodeExecution, saveAddressed]
  cases hcur : s.currentAttempt exec.runID exec.nodeID with
  | none => rw [addressed_eq_none_iff.mpr hcur]
  | some cur =>
    obtain ⟨hmem, hrun, hnode⟩ := mem_of_currentAttempt hcur
    have hatt := hnames cur hcur
    have hkey : cur.key = exec.key := by simp only [NodeExecution.key, hrun, hnode, hatt]
    rw [addressed_of_mem h hmem hkey]
    dsimp only
    cases nodeTransitionError cur.state exec.state expected with
    | some err => rfl
    | none => rw [if_neg (not_not.mpr hatt)]

theorem serve_eq_serveAddressed (h : s.Distinct) (op : NodeOp) (hag : Agrees s op) :
    s.serve op = s.serveAddressed op := by
  cases op with
  | append exec now => exact (if_pos hag).symm
  | save exec expected now =>
    refine Eq.trans ?_ (if_pos hag.1).symm
    exact congrArg (answered s .row) (save_eq_saveAddressed h expected now hag.2)
  | releaseLease runID nodeID owner =>
    show answered s (fun _ => .released) ((s.releaseLease runID nodeID owner).map (·, ())) =
        ((commit s (s.releaseLease runID nodeID owner)), .ok .released)
    rw [releaseLease]
    cases hcur : s.currentAttempt runID nodeID with
    | none =>
      have hsome : (s.currentAttempt runID nodeID).isSome = true := hag
      rw [hcur] at hsome
      cases hsome
    | some cur =>
      dsimp only
      split <;> rfl
  | tryClaim => rfl
  | get => rfl

theorem answers_eq_of_rel (h : Rel s t) (ops : List NodeOp)
    (hag : Machine.Guarded (next serve) Agrees s ops) :
    (outputs serve s ops).map (·.map Answer.sansUpdate) =
        (outputs Tables.serve t ops).map (·.map Answer.sansUpdate) ∧
      Rel (run (next serve) s ops) (run (next Tables.serve) t ops) := by
  induction ops generalizing s t with
  | nil => exact ⟨rfl, h⟩
  | cons op ops ih =>
    obtain ⟨hrel, hans⟩ := serve_tables h op
    rw [← serve_eq_serveAddressed h.distinct op hag.1] at hrel hans
    obtain ⟨htail, hfinal⟩ := ih hrel hag.2
    simp only [outputs, map_cons, run_cons]
    exact ⟨by rw [hans]; exact congrArg _ htail, hfinal⟩

/-- A memory store with runs and no rows yet. -/
def memoryWith (runs : List Run) : StoreState := { runs }

/-- Tables with runs and no rows yet. -/
def tablesWith (runs : List Run) : Tables := { runs, nodes := [] }

def clock (n : Fin 100) : Clock :=
  ⟨zeroTime + n.val, Int.le_add_of_nonneg_right (Int.natCast_nonneg n.val), by revert n; decide⟩

/-- One run of a definition with one node. -/
def soloRun : Run := { id := "run_1", definition := StoreState.soloDefinition, state := .running }

/-- A node is claimed and dispatched. -/
def dispatchOps : List NodeOp :=
  [.append { runID := "run_1", nodeID := "start", appendOperationID := "initial" } (clock 1),
    .tryClaim "run_1" "start" "engine-1" 30 (clock 2),
    .save { runID := "run_1", nodeID := "start", state := .running, dispatched := true } .claimed
      (clock 3)]

/-- Its attempt fails, the next one is recorded and claimed, and succeeds. -/
def orderlyOps : List NodeOp :=
  dispatchOps ++
    [NodeOp.save { runID := "run_1", nodeID := "start", state := .failed } .running (clock 4),
      .append { runID := "run_1", nodeID := "start", appendOperationID := "retry:0" } (clock 5),
      .tryClaim "run_1" "start" "engine-2" 30 (clock 6),
      .save { runID := "run_1", nodeID := "start", attempt := 1, state := .running } .claimed
        (clock 7),
      .save { runID := "run_1", nodeID := "start", attempt := 1, state := .succeeded } .running
        (clock 8),
      .releaseLease "run_1" "start" "engine-2", .get "run_1"]

/-- The engine records the new attempt before the end of the old one. -/
def retriedOps : List NodeOp :=
  dispatchOps ++
    [NodeOp.append { runID := "run_1", nodeID := "start", appendOperationID := "retry:0" } (clock 4),
      .save { runID := "run_1", nodeID := "start", state := .failed } .running (clock 5)]

/-- A record with a deadline in the year 10000. -/
def distantOps : List NodeOp :=
  [.append { runID := "run_1", nodeID := "start", deadline := 253402300800 * second } (clock 1)]

/-- The two stores, each with the one run of `soloRun`, answer a sequence differently. -/
def AnswersDiffer (ops : List NodeOp) : Prop :=
  (Machine.outputs StoreState.serve (memoryWith [soloRun]) ops).map (·.map Answer.sansUpdate) ≠
    (Machine.outputs Tables.serve (tablesWith [soloRun]) ops).map (·.map Answer.sansUpdate)

theorem answersDiffer_of_isOk {ops : List NodeOp}
    (h : (Machine.outputs StoreState.serve (memoryWith [soloRun]) ops).map isOk ≠
      (Machine.outputs Tables.serve (tablesWith [soloRun]) ops).map isOk) : AnswersDiffer ops := by
  intro heq
  have hmap := congrArg (map isOk) heq
  have hcomp : isOk ∘ (Except.map Answer.sansUpdate : Except StoreError Answer → _) = isOk := by
    funext x
    cases x <;> rfl
  rw [map_map, map_map, hcomp] at hmap
  exact h hmap

end Agreement

end NexaRoute.Nexaflow
