import Mathlib.Data.List.Lex
import Mathlib.Data.List.TakeWhile
import Mathlib.Data.Set.Finite.Basic
import Mathlib.Order.WellFounded

/-!
# Directed graphs given by edge lists

Three searches over a finite directed graph: the nodes reachable from a start, a depth first search
that looks for a cycle, and Kahn's algorithm for a topological order. A graph is the list of its
edges, with parallel edges and in any order. Searches that are recursive in a program without a
bound carry fuel here; running out of it is a failure of the search.

## Main results

* `acyclic_of_searchCycle` — a graph in which the search finds no cycle is acyclic
* `perm_kahn` — on an acyclic graph Kahn's algorithm lists every node once
-/

namespace NexaRoute.Digraph

open List

variable {V : Type} [DecidableEq V] {E : List (V × V)}

variable {v w c : V} {next : V → List V} {fuel : ℕ} {ids vs gray black l out rem ready : List V}
  {st : (V → ℤ) × List V} {indeg : V → ℤ}

/-- The targets of the edges from a node, in the order of the edges. -/
def succs (E : List (V × V)) (v : V) : List V := (E.filter (·.1 == v)).map Prod.snd

theorem mem_succs : w ∈ succs E v ↔ (v, w) ∈ E := by
  simp only [succs, mem_map, mem_filter, beq_iff_eq]
  constructor
  · rintro ⟨⟨a, b⟩, ⟨h, rfl⟩, rfl⟩
    exact h
  · intro h
    exact ⟨(v, w), ⟨h, rfl⟩, rfl⟩

/-- No node reaches itself. -/
def Acyclic (E : List (V × V)) : Prop :=
  ∀ v, ¬Relation.TransGen (fun a b => (a, b) ∈ E) v v

/-! ### Reachability -/

/-- Everything reached from a node, added to what was reached before. -/
def visit (next : V → List V) : ℕ → List V → V → List V
  | 0, reached, _ => reached
  | fuel + 1, reached, v =>
    if v ∈ reached then reached else (next v).foldl (visit next fuel) (v :: reached)

/-- What a visit adds: nothing is lost, what is new is closed under `next`, and comes from the node
that was visited. -/
structure Explored (next : V → List V) (reached reached' vs : List V) : Prop where
  sub : ∀ w ∈ reached, w ∈ reached'
  start : ∀ v ∈ vs, v ∈ reached'
  closed : ∀ w ∈ reached', w ∉ reached → ∀ x ∈ next w, x ∈ reached'
  sound : ∀ w ∈ reached', w ∉ reached → ∃ v ∈ vs, Relation.ReflTransGen (fun a b => b ∈ next a) v w

theorem explored_foldl
    (hvisit : ∀ reached v, v ∈ ids → (ids.filter (· ∉ reached)).length < fuel →
      Explored next reached (visit next fuel reached v) [v]) {reached : List V}
    (hvs : ∀ v ∈ vs, v ∈ ids) (hfuel : (ids.filter (· ∉ reached)).length < fuel) :
    Explored next reached (vs.foldl (visit next fuel) reached) vs := by
  induction vs generalizing reached with
  | nil => exact ⟨fun _ hw => hw, by simp, fun w hw hw' => absurd hw hw', fun w hw hw' => absurd hw hw'⟩
  | cons v vs ih =>
    have hv := hvisit reached v (hvs v mem_cons_self) hfuel
    have hless : (ids.filter (· ∉ visit next fuel reached v)).length < fuel := by
      refine lt_of_le_of_lt (List.Sublist.length_le (monotone_filter_right ids fun w hw => ?_)) hfuel
      simp only [decide_eq_true_eq] at hw ⊢
      exact fun hr => hw (hv.sub w hr)
    have h := ih (fun w hw => hvs w (mem_cons_of_mem v hw)) hless
    refine ⟨fun w hw => h.sub w (hv.sub w hw), ?_, fun w hw hnew x hx => ?_, fun w hw hnew => ?_⟩
    · rintro w (_ | ⟨_, hw⟩)
      · exact h.sub v (hv.start v mem_cons_self)
      · exact h.start w hw
    · by_cases hold : w ∈ visit next fuel reached v
      · exact h.sub x (hv.closed w hold hnew x hx)
      · exact h.closed w hw hold x hx
    · by_cases hold : w ∈ visit next fuel reached v
      · obtain ⟨u, hu, huw⟩ := hv.sound w hold hnew
        exact ⟨u, mem_cons.mpr (.inl (mem_singleton.mp hu)), huw⟩
      · obtain ⟨u, hu, huw⟩ := h.sound w hw hold
        exact ⟨u, mem_cons_of_mem v hu, huw⟩

theorem explored_visit (hnext : ∀ v, ∀ w ∈ next v, w ∈ ids) {reached : List V} (hv : v ∈ ids)
    (hfuel : (ids.filter (· ∉ reached)).length < fuel) :
    Explored next reached (visit next fuel reached v) [v] := by
  induction fuel generalizing reached v with
  | zero => cases hfuel
  | succ fuel ih =>
    rw [visit]
    split
    · next hmem =>
      exact ⟨fun _ hw => hw, by simpa using hmem, fun w hw hw' => absurd hw hw',
        fun w hw hw' => absurd hw hw'⟩
    · next hmem =>
      have hless : (ids.filter (· ∉ v :: reached)).length < fuel := by
        have hsplit : ids.filter (· ∉ v :: reached) = (ids.filter (· ∉ reached)).filter (· ≠ v) := by
          simp
        have hlt := length_filter_lt_length_iff_exists (l := ids.filter (· ∉ reached))
          (p := (· ≠ v)) |>.mpr ⟨v, by simp [hv, hmem], by simp⟩
        rw [hsplit]
        omega
      have h := explored_foldl (fun r w hw hr => ih hw hr) (hnext v) hless
      refine ⟨fun w hw => h.sub w (mem_cons_of_mem v hw), ?_, fun w hw hnew x hx => ?_,
        fun w hw hnew => ?_⟩
      · simpa using h.sub v mem_cons_self
      · by_cases hwv : w = v
        · subst hwv
          exact h.start x hx
        · exact h.closed w hw (by simp [hwv, hnew]) x hx
      · refine ⟨v, mem_singleton_self v, ?_⟩
        by_cases hwv : w = v
        · rw [hwv]
        · obtain ⟨u, hu, huw⟩ := h.sound w hw (by simp [hwv, hnew])
          exact huw.head hu

/-- **The nodes that are reached from `vs` are those that a path leads to.** -/
theorem mem_foldl_visit_iff (hnext : ∀ v, ∀ w ∈ next v, w ∈ ids) (hvs : ∀ v ∈ vs, v ∈ ids)
    (hfuel : ids.length < fuel) : w ∈ vs.foldl (visit next fuel) [] ↔
      ∃ v ∈ vs, Relation.ReflTransGen (fun a b => b ∈ next a) v w := by
  have h : Explored next [] (vs.foldl (visit next fuel) []) vs :=
    explored_foldl (fun r v hv hr => explored_visit hnext hv hr) hvs (by simpa using hfuel)
  refine ⟨fun hw => h.sound w hw not_mem_nil, ?_⟩
  rintro ⟨v, hv, hvw⟩
  induction hvw with
  | refl => exact h.start v hv
  | tail _ hx ih => exact h.closed _ ih not_mem_nil _ hx

/-! ### Depth first search for a cycle -/

/-- One visit: `gray` are the nodes in progress and `black` the finished ones. An error is a node
that is met again while it is in progress. -/
def dfs (next : V → List V) : ℕ → List V → List V → V → Except V (List V)
  | 0, _, _, v => .error v
  | fuel + 1, gray, black, v =>
    ((next v).foldlM (fun black n =>
      if n ∈ v :: gray then .error n
      else if n ∈ black then .ok black
      else dfs next fuel (v :: gray) black n) black).map (v :: ·)

/-- A visit of every node that is not finished yet. -/
def searchCycle (next : V → List V) (fuel : ℕ) (vs : List V) : Except V (List V) :=
  vs.foldlM (fun black v => if v ∈ black then .ok black else dfs next fuel [] black v) []

/-- Nodes in the order they were finished, the last one first: the successors of each come after
it. -/
def Layered (next : V → List V) : List V → Prop
  | [] => True
  | v :: l => (∀ w ∈ next v, w ∈ l) ∧ v ∉ l ∧ Layered next l

/-- What a visit leaves: the finished nodes are still layered, and only grew, by nodes that were not
in progress. -/
structure Visited (next : V → List V) (gray black black' : List V) : Prop where
  layered : Layered next black'
  sub : ∀ w ∈ black, w ∈ black'
  new : ∀ w ∈ black', w ∈ black ∨ w ∉ gray

omit [DecidableEq V] in
theorem Visited.refl (h : Layered next black) :
    Visited next gray black black :=
  ⟨h, fun _ hw => hw, fun _ hw => .inl hw⟩

omit [DecidableEq V] in
theorem Visited.trans {a b c : List V} (hab : Visited next gray a b) (hbc : Visited next gray b c) :
    Visited next gray a c where
  layered := hbc.layered
  sub w hw := hbc.sub w (hab.sub w hw)
  new w hw := by
    rcases hbc.new w hw with hb | hg
    · exact hab.new w hb
    · exact .inr hg

omit [DecidableEq V] in
theorem visited_foldlM {f : List V → V → Except V (List V)} {black' : List V}
    (hf : ∀ b b' n, n ∈ l → f b n = .ok b' → Layered next b → Visited next gray b b' ∧ n ∈ b')
    (h : l.foldlM f black = .ok black') (hl : Layered next black) :
    Visited next gray black black' ∧ ∀ n ∈ l, n ∈ black' := by
  induction l generalizing black with
  | nil =>
    cases h
    exact ⟨Visited.refl hl, by simp⟩
  | cons n l ih =>
    rw [foldlM_cons] at h
    cases hn : f black n with
    | error v =>
      rw [hn] at h
      cases h
    | ok b =>
      rw [hn] at h
      obtain ⟨hv, hmem⟩ := hf black b n mem_cons_self hn hl
      obtain ⟨hv', hmem'⟩ := ih (fun b b' m hm => hf b b' m (mem_cons_of_mem n hm)) h hv.layered
      refine ⟨hv.trans hv', ?_⟩
      rintro m (_ | ⟨_, hm⟩)
      · exact hv'.sub n hmem
      · exact hmem' m hm

theorem visited_dfs {black' : List V} (h : dfs next fuel gray black v = .ok black')
    (hl : Layered next black) (hb : v ∉ black) (hg : v ∉ gray) :
    Visited next gray black black' ∧ v ∈ black' := by
  induction fuel generalizing gray black black' v with
  | zero => cases h
  | succ fuel ih =>
    rw [dfs] at h
    -- the visit of the successors, with `v` in progress
    generalize hfold : foldlM (m := Except V) _ black (next v) = out at h
    cases out with
    | error w => cases h
    | ok b =>
      obtain rfl : v :: b = black' := by simpa [Except.map] using h
      have hstep : Visited next (v :: gray) black b ∧ ∀ n ∈ next v, n ∈ b := by
        refine visited_foldlM (fun c c' n _ hn hc => ?_) hfold hl
        by_cases hgray : n ∈ v :: gray
        · simp [hgray] at hn
        · by_cases hblack : n ∈ c
          · obtain rfl : c = c' := by simpa [hgray, hblack] using hn
            exact ⟨Visited.refl hc, hblack⟩
          · simp only [hgray, hblack, if_false] at hn
            exact ih hn hc hblack hgray
      have hvb : v ∉ b := by
        intro hv
        rcases hstep.1.new v hv with h' | h'
        · exact hb h'
        · exact h' mem_cons_self
      refine ⟨⟨⟨hstep.2, hvb, hstep.1.layered⟩, fun w hw => ?_, ?_⟩, mem_cons_self⟩
      · exact mem_cons_of_mem v (hstep.1.sub w hw)
      · rintro w (_ | ⟨_, hw⟩)
        · exact .inr hg
        · rcases hstep.1.new w hw with h' | h'
          · exact .inl h'
          · exact .inr fun hm => h' (mem_cons_of_mem v hm)

omit [DecidableEq V] in
theorem Layered.mem_of_reaches (h : Layered next l) (hv : v ∈ l)
    (hvw : Relation.TransGen (fun a b => b ∈ next a) v w) : w ∈ l := by
  have hstep : ∀ {l : List V}, Layered next l → ∀ {a b}, a ∈ l → b ∈ next a → b ∈ l := by
    intro l hl
    induction l with
    | nil => simp
    | cons x l ih =>
      rintro a b (_ | ⟨_, ha⟩) hb
      · exact mem_cons_of_mem x (hl.1 b hb)
      · exact mem_cons_of_mem x (ih hl.2.2 ha hb)
  induction hvw with
  | single hb => exact hstep h hv hb
  | tail _ hb ih => exact hstep h ih hb

omit [DecidableEq V] in
theorem Layered.not_reaches_self (h : Layered next l) (hv : v ∈ l) :
    ¬Relation.TransGen (fun a b => b ∈ next a) v v := by
  induction l with
  | nil => cases hv
  | cons x l ih =>
    intro hvv
    rcases mem_cons.mp hv with rfl | hv
    · -- everything `v` reaches is among the nodes finished before it
      obtain ⟨w, hw, hwv⟩ := Relation.TransGen.head'_iff.mp hvv
      have hwl := h.1 w hw
      rcases Relation.reflTransGen_iff_eq_or_transGen.mp hwv with rfl | hwv
      · exact h.2.1 hwl
      · exact h.2.1 (h.2.2.mem_of_reaches hwl hwv)
    · exact ih h.2.2 hv hvv

theorem acyclic_of_searchCycle (h : searchCycle next fuel vs = .ok black)
    (hnext : ∀ v w, w ∈ next v ↔ (v, w) ∈ E) (hE : ∀ e ∈ E, e.1 ∈ vs) : Acyclic E := by
  have hv : Visited next [] [] black ∧ ∀ v ∈ vs, v ∈ black := by
    refine visited_foldlM (fun b b' n _ hn hb => ?_) h trivial
    by_cases hmem : n ∈ b
    · obtain rfl : b = b' := by simpa [hmem] using hn
      exact ⟨Visited.refl hb, hmem⟩
    · simp only [hmem, if_false] at hn
      exact visited_dfs hn hb hmem not_mem_nil
  intro v hvv
  have hrel : (fun a b => b ∈ next a) = fun a b => (a, b) ∈ E := by
    funext a b
    exact propext (hnext a b)
  have hmem : v ∈ vs := by
    obtain ⟨w, hw, -⟩ := Relation.TransGen.head'_iff.mp hvv
    exact hE (v, w) hw
  rw [← hrel] at hvv
  exact hv.1.layered.not_reaches_self (hv.2 v hmem) hvv

omit [DecidableEq V] in
theorem exists_foldlM_eq_ok {f : List V → V → Except V (List V)}
    (hf : ∀ b, ∀ n ∈ l, ∃ b', f b n = .ok b') (black : List V) :
    ∃ black', l.foldlM f black = .ok black' := by
  induction l generalizing black with
  | nil => exact ⟨black, rfl⟩
  | cons n l ih =>
    obtain ⟨b, hb⟩ := hf black n mem_cons_self
    obtain ⟨b', hb'⟩ := ih (fun c m hm => hf c m (mem_cons_of_mem n hm)) b
    exact ⟨b', by rw [foldlM_cons, hb]; exact hb'⟩

/-- In an acyclic graph a visit ends without an error. The nodes in progress are distinct, so fuel
for as many visits as there are nodes is enough. -/
theorem exists_dfs_eq_ok (hnext : ∀ v w, w ∈ next v ↔ (v, w) ∈ E) (hE : Acyclic E)
    (hvs : ∀ e ∈ E, e.2 ∈ vs) (hfuel : vs.length ≤ fuel + gray.length)
    (hnodup : (v :: gray).Nodup) (hsub : ∀ w ∈ v :: gray, w ∈ vs)
    (hreach : ∀ w ∈ gray, Relation.TransGen (fun a b => (a, b) ∈ E) w v) (black : List V) :
    ∃ black', dfs next fuel gray black v = .ok black' := by
  induction fuel generalizing gray black v with
  | zero =>
    have := (hnodup.subperm hsub).length_le
    simp at this
    omega
  | succ fuel ih =>
    have hstep : ∀ b, ∀ n ∈ next v, ∃ b', (if n ∈ v :: gray then Except.error n
        else if n ∈ b then .ok b else dfs next fuel (v :: gray) b n) = .ok b' := by
      intro b n hn
      have hvn : (v, n) ∈ E := (hnext v n).mp hn
      have hreach' : ∀ w ∈ v :: gray, Relation.TransGen (fun a b => (a, b) ∈ E) w n := by
        rintro w (_ | ⟨_, hw⟩)
        · exact .single hvn
        · exact (hreach w hw).tail hvn
      have hgray : n ∉ v :: gray := fun hmem => hE n (hreach' n hmem)
      rw [if_neg hgray]
      split
      · exact ⟨b, rfl⟩
      · refine ih (by simp; omega) (nodup_cons.mpr ⟨hgray, hnodup⟩) ?_ hreach' b
        rintro w (_ | ⟨_, hw⟩)
        · exact hvs _ hvn
        · exact hsub w hw
    obtain ⟨b, hb⟩ := exists_foldlM_eq_ok hstep black
    exact ⟨v :: b, by rw [dfs, hb]; rfl⟩

/-- **The search fails exactly if there is a cycle.** -/
theorem searchCycle_isOk_iff (hnext : ∀ v w, w ∈ next v ↔ (v, w) ∈ E)
    (hE : ∀ e ∈ E, e.1 ∈ vs ∧ e.2 ∈ vs) (hfuel : vs.length ≤ fuel) :
    (searchCycle next fuel vs).isOk = true ↔ Acyclic E := by
  constructor
  · intro h
    cases hs : searchCycle next fuel vs with
    | error v =>
      rw [hs] at h
      cases h
    | ok black => exact acyclic_of_searchCycle hs hnext fun e he => (hE e he).1
  · intro h
    have hstep : ∀ b, ∀ n ∈ vs,
        ∃ b', (if n ∈ b then Except.ok b else dfs next fuel [] b n) = .ok b' := by
      intro b n hn
      by_cases hmem : n ∈ b
      · exact ⟨b, if_pos hmem⟩
      · obtain ⟨b', hb'⟩ := exists_dfs_eq_ok hnext h (fun e he => (hE e he).2)
          hfuel (nodup_singleton n) (by simpa using hn) (by simp) b
        exact ⟨b', by rw [if_neg hmem, hb']⟩
    obtain ⟨black, hb⟩ := exists_foldlM_eq_ok hstep []
    rw [searchCycle, hb]
    rfl

/-! ### Kahn's algorithm -/

/-- The number of edges into a node. -/
def indegree (E : List (V × V)) (v : V) : ℤ := E.countP (·.2 == v)

/-- An element put into a sorted list, searching its place from the end. -/
def insertSorted [LT V] [DecidableLT V] (v : V) (l : List V) : List V :=
  (l.reverse.dropWhile (v < ·)).reverse ++ v :: (l.reverse.takeWhile (v < ·)).reverse

/-- An edge to `v` is removed; the node is ready when it was the last one. -/
def relax [LT V] [DecidableLT V] (st : (V → ℤ) × List V) (v : V) : (V → ℤ) × List V :=
  let indeg := Function.update st.1 v (st.1 v - 1)
  (indeg, if indeg v = 0 then insertSorted v st.2 else st.2)

/-- The loop: the first node that is ready is listed, and its edges are removed. -/
def kahnLoop [LT V] [DecidableLT V] (next : V → List V) : ℕ → (V → ℤ) → List V → List V
  | 0, _, _ => []
  | _ + 1, _, [] => []
  | fuel + 1, indeg, cur :: ready =>
    let st := (next cur).foldl relax (indeg, ready)
    cur :: kahnLoop next fuel st.1 st.2

/-- The nodes `ids` in an order in which every edge leads forward. -/
def kahn [LT V] [DecidableLT V] (E : List (V × V)) (fuel : ℕ) (ids : List V) : List V :=
  kahnLoop (succs E) fuel (indegree E) (ids.filter (indegree E · == 0))

section Kahn

variable [LT V] [DecidableLT V]

omit [DecidableEq V] in
theorem perm_insertSorted (v : V) (l : List V) : (insertSorted v l).Perm (v :: l) := by
  refine perm_middle.trans (List.Perm.cons v ?_)
  rw [← reverse_append, takeWhile_append_dropWhile, reverse_reverse]

/-- The edges into a node from nodes that are not listed yet. -/
def waiting (E : List (V × V)) (out : List V) (v : V) : ℕ :=
  E.countP fun e => e.2 == v && !decide (e.1 ∈ out)

omit [LT V] [DecidableLT V] in
theorem waiting_cons (hc : c ∉ out) (v : V) :
    waiting E out v = waiting E (c :: out) v + (succs E c).count v := by
  rw [waiting, waiting, succs, count, countP_map, countP_filter]
  induction E with
  | nil => rfl
  | cons e E ih =>
    by_cases hv : e.2 = v <;> by_cases h1 : e.1 = c <;> by_cases h2 : e.1 ∈ out <;>
      simp_all <;> omega

/-- The state of the loop, with `rem` the edges of the last listed node that are still to be
removed: a node is ready or listed just when nothing leads into it any more. -/
structure Progress (E : List (V × V)) (ids out rem : List V) (st : (V → ℤ) × List V) : Prop where
  nodup : (out ++ st.2).Nodup
  sub : ∀ v ∈ out ++ st.2, v ∈ ids
  indeg : ∀ v, st.1 v = waiting E out v + rem.count v
  zero : ∀ v ∈ ids, st.1 v = 0 ↔ v ∈ out ++ st.2

theorem Progress.relax (h : Progress E ids out (v :: rem) st) (hv : v ∈ ids) :
    Progress E ids out rem (relax st v) := by
  have hindeg : st.1 v = waiting E out v + (rem.count v + 1) := by simpa using h.indeg v
  have hnew : v ∉ out ++ st.2 := by
    intro hmem
    have := (h.zero v hv).mpr hmem
    omega
  have hother : ∀ w, w ≠ v → (Digraph.relax st v).1 w = st.1 w := by
    intro w hw
    simp [Digraph.relax, hw]
  have hself : (Digraph.relax st v).1 v = st.1 v - 1 := by simp [Digraph.relax]
  have hcount : ∀ w, (Digraph.relax st v).1 w = waiting E out w + rem.count w := by
    intro w
    by_cases hw : w = v
    · subst hw
      rw [hself]
      omega
    · rw [hother w hw, h.indeg w, count_cons_of_ne (Ne.symm hw)]
  by_cases hz : (Digraph.relax st v).1 v = 0
  · have hready : (Digraph.relax st v).2 = insertSorted v st.2 := if_pos hz
    have hperm : (out ++ (Digraph.relax st v).2).Perm (v :: (out ++ st.2)) := by
      rw [hready]
      exact ((perm_insertSorted v st.2).append_left out).trans perm_middle
    refine ⟨hperm.nodup_iff.mpr (nodup_cons.mpr ⟨hnew, h.nodup⟩), fun w hw => ?_, hcount,
      fun w hw => ?_⟩
    · rcases mem_cons.mp (hperm.mem_iff.mp hw) with rfl | hw
      · exact hv
      · exact h.sub w hw
    · rw [hperm.mem_iff, mem_cons]
      by_cases hwv : w = v
      · subst hwv
        exact iff_of_true hz (.inl rfl)
      · rw [hother w hwv, h.zero w hw]
        exact (or_iff_right hwv).symm
  · have hready : (Digraph.relax st v).2 = st.2 := if_neg hz
    refine ⟨hready ▸ h.nodup, hready ▸ h.sub, hcount, fun w hw => ?_⟩
    rw [hready]
    by_cases hwv : w = v
    · subst hwv
      exact iff_of_false hz hnew
    · rw [hother w hwv, h.zero w hw]

theorem Progress.relax_all (h : Progress E ids out rem st) (hrem : ∀ v ∈ rem, v ∈ ids) :
    Progress E ids out [] (rem.foldl Digraph.relax st) := by
  induction rem generalizing st with
  | nil => exact h
  | cons v rem ih =>
    exact ih (h.relax (hrem v mem_cons_self)) fun w hw => hrem w (mem_cons_of_mem v hw)

omit [LT V] [DecidableLT V] in
theorem Progress.list (h : Progress E ids out [] (indeg, c :: ready)) :
    Progress E ids (c :: out) (succs E c) (indeg, ready) := by
  have hperm : (c :: out ++ ready).Perm (out ++ c :: ready) := perm_middle.symm
  have hc : c ∉ out := fun hmem =>
    (nodup_append.mp h.nodup).2.2 c hmem c mem_cons_self rfl
  refine ⟨hperm.nodup_iff.mpr h.nodup, fun v hv => h.sub v (hperm.mem_iff.mp hv), fun v => ?_,
    fun v hv => ?_⟩
  · have := h.indeg v
    rw [waiting_cons hc] at this
    simpa using this
  · rw [hperm.mem_iff]
    exact h.zero v hv

omit [DecidableEq V] [LT V] [DecidableLT V] in
theorem exists_source (hE : Acyclic E) {S : Set V} (hfin : S.Finite) (hne : S.Nonempty) :
    ∃ v ∈ S, ∀ u ∈ S, (u, v) ∉ E := by
  have : Finite S := hfin
  let r : S → S → Prop := fun a b => Relation.TransGen (fun x y => (x, y) ∈ E) a.1 b.1
  have htrans : IsTrans S r := ⟨fun _ _ _ hab hbc => hab.trans hbc⟩
  have hirrefl : Std.Irrefl r := ⟨fun a => hE a.1⟩
  have hwf : WellFounded r := Finite.wellFounded_of_trans_of_irrefl r
  obtain ⟨v, hv⟩ := hne
  obtain ⟨m, -, hmin⟩ := hwf.has_min (Set.univ : Set S) ⟨⟨v, hv⟩, trivial⟩
  refine ⟨m.1, m.2, fun u hu hum => ?_⟩
  exact hmin ⟨u, hu⟩ trivial (Relation.TransGen.single hum)

omit [LT V] [DecidableLT V] in
theorem Progress.complete (hE : Acyclic E) (hsrc : ∀ e ∈ E, e.1 ∈ ids)
    (h : Progress E ids out [] (indeg, [])) :
    ∀ v ∈ ids, v ∈ out := by
  by_contra hne
  push Not at hne
  obtain ⟨v, hv, hvo⟩ := hne
  have hfin : {w | w ∈ ids ∧ w ∉ out}.Finite :=
    (finite_toSet ids).subset fun w hw => hw.1
  obtain ⟨m, ⟨hm, hmo⟩, hmin⟩ := exists_source hE hfin ⟨v, hv, hvo⟩
  -- a node that is not listed waits for one that is not listed either
  have hpos : waiting E out m ≠ 0 := by
    intro hz
    have := (h.zero m hm).mp (by rw [h.indeg m, hz]; simp)
    exact hmo (by simpa using this)
  obtain ⟨⟨u, w⟩, he, hw⟩ := countP_pos_iff.mp (Nat.pos_of_ne_zero hpos)
  simp only [Bool.and_eq_true, beq_iff_eq, Bool.not_eq_true', decide_eq_false_iff_not] at hw
  obtain ⟨rfl, huo⟩ := hw
  exact hmin u ⟨hsrc _ he, huo⟩ he

theorem Progress.perm_kahnLoop (hE : Acyclic E) (hids : ids.Nodup)
    (hends : ∀ e ∈ E, e.1 ∈ ids ∧ e.2 ∈ ids) (h : Progress E ids out [] (indeg, ready))
    (hfuel : ids.length ≤ fuel + out.length) :
    (out ++ kahnLoop (succs E) fuel indeg ready).Perm ids := by
  have hlen : out.length + ready.length ≤ ids.length := by
    rw [← length_append]
    exact (h.nodup.subperm h.sub).length_le
  induction fuel generalizing out ready indeg with
  | zero =>
    obtain rfl : ready = [] := by
      rw [← length_eq_zero_iff]
      omega
    refine (perm_ext_iff_of_nodup h.nodup hids).mpr fun v => ⟨h.sub v, fun hv => ?_⟩
    simpa using h.complete hE (fun e he => (hends e he).1) v hv
  | succ fuel ih =>
    cases ready with
    | nil =>
      refine (perm_ext_iff_of_nodup h.nodup hids).mpr fun v => ⟨h.sub v, fun hv => ?_⟩
      simpa using h.complete hE (fun e he => (hends e he).1) v hv
    | cons c ready =>
      have hnext := h.list.relax_all fun v hv => (hends _ (mem_succs.mp hv)).2
      refine perm_middle.trans (ih hnext (by simp; omega) ?_)
      rw [← length_append]
      exact (hnext.nodup.subperm hnext.sub).length_le

omit [LT V] [DecidableLT V] in
theorem progress_start (hids : ids.Nodup) :
    Progress E ids [] [] (indegree E, ids.filter (indegree E · == 0)) := by
  refine ⟨hids.filter _, fun v hv => (mem_filter.mp hv).1, fun v => ?_, fun v hv => ?_⟩
  · simp [indegree, waiting]
  · simp [hv]

/-- **On an acyclic graph every node is listed once.** -/
theorem perm_kahn (hE : Acyclic E) (hids : ids.Nodup) (hends : ∀ e ∈ E, e.1 ∈ ids ∧ e.2 ∈ ids)
    (hfuel : ids.length ≤ fuel) :
    (kahn E fuel ids).Perm ids := by
  exact (progress_start hids).perm_kahnLoop hE hids hends hfuel

end Kahn

/-! ### Topological orders -/

section Topological

/-- Every edge into a listed node comes from a node that is listed before it. -/
def Forward (E : List (V × V)) (l : List V) : Prop := ∀ e ∈ E, e.2 ∈ l → [e.1, e.2].Sublist l

/-- The nodes `ids`, in an order in which every edge leads forward. -/
structure IsTopological (E : List (V × V)) (ids l : List V) : Prop where
  perm : l.Perm ids
  forward : Forward E l

omit [DecidableEq V] in
theorem Forward.concat (h : Forward E l) (hc : ∀ u, (u, c) ∈ E → u ∈ l) :
    Forward E (l ++ [c]) := by
  rintro ⟨u, w⟩ he hw
  rcases mem_append.mp hw with hw | hw
  · exact (h _ he hw).trans (sublist_append_left l [c])
  · obtain rfl := mem_singleton.mp hw
    exact (singleton_sublist.mpr (hc u he)).append (List.Sublist.refl [w])

omit [DecidableEq V] in
theorem Forward.mem_of_edge {rest : List V} {u : V} (h : Forward E (l ++ c :: rest))
    (hnodup : (l ++ c :: rest).Nodup) (he : (u, c) ∈ E) : u ∈ l := by
  have hsub : [u, c].Sublist (l ++ c :: rest) := h (u, c) he (by simp)
  obtain ⟨s, t, hst, hs, ht⟩ := sublist_append_iff.mp hsub
  have hc : c ∉ rest := (nodup_cons.mp (nodup_append.mp hnodup).2.1).1
  cases s with
  | nil =>
    -- both ends behind `l`, and the second of them is not the `c` that stands there
    rw [nil_append] at hst
    rw [← hst] at ht
    cases ht with
    | cons _ ht => exact absurd (ht.subset (by simp)) hc
    | cons_cons _ ht => exact absurd (singleton_sublist.mp ht) hc
  | cons x s =>
    obtain ⟨rfl, -⟩ := cons.inj hst
    exact hs.subset mem_cons_self

theorem Progress.mem_iff (h : Progress E ids out [] st) (hv : v ∈ ids) :
    v ∈ out ++ st.2 ↔ ∀ u, (u, v) ∈ E → u ∈ out := by
  have hwaiting : waiting E out v = 0 ↔ ∀ u, (u, v) ∈ E → u ∈ out := by
    simp only [waiting, countP_eq_zero, Bool.and_eq_true, beq_iff_eq, Bool.not_eq_true',
      decide_eq_false_iff_not, not_and, not_not]
    exact ⟨fun h u hu => h (u, v) hu rfl, fun h e he hev => h e.1 (hev ▸ he)⟩
  rw [← h.zero v hv, h.indeg v, ← hwaiting]
  simp

variable [LinearOrder V]

theorem Progress.forward_kahnLoop (hends : ∀ e ∈ E, e.1 ∈ ids ∧ e.2 ∈ ids)
    (h : Progress E ids out [] (indeg, ready)) (hf : Forward E out.reverse) :
    Forward E (out.reverse ++ kahnLoop (succs E) fuel indeg ready) := by
  induction fuel generalizing out ready indeg with
  | zero => simpa [kahnLoop] using hf
  | succ fuel ih =>
    cases ready with
    | nil => simpa [kahnLoop] using hf
    | cons c ready =>
      have hnext := h.list.relax_all fun v hv => (hends _ (mem_succs.mp hv)).2
      have hc : ∀ u, (u, c) ∈ E → u ∈ out := (h.mem_iff (h.sub c (by simp))).mp (by simp)
      rw [kahnLoop]
      simpa using ih hnext (by simpa using hf.concat (by simpa using hc))

omit [DecidableEq V] in
theorem le_of_mem_dropWhile (hl : l.Pairwise (· ≥ ·)) :
    ∀ a ∈ l.dropWhile (v < ·), a ≤ v := by
  induction l with
  | nil => simp
  | cons b l ih =>
    rw [dropWhile_cons]
    split
    · exact ih hl.of_cons
    · next hb =>
      have hbv : b ≤ v := by simpa using hb
      rintro a (_ | ⟨_, ha⟩)
      · exact hbv
      · exact (rel_of_pairwise_cons hl ha).trans hbv

omit [DecidableEq V] in
theorem pairwise_insertSorted (hl : l.Pairwise (· ≤ ·)) :
    (insertSorted v l).Pairwise (· ≤ ·) := by
  have hdrop : ∀ a ∈ (l.reverse.dropWhile (v < ·)).reverse, a ≤ v := by
    intro a ha
    exact le_of_mem_dropWhile (pairwise_reverse.mpr hl) a (mem_reverse.mp ha)
  have htake : ∀ a ∈ (l.reverse.takeWhile (v < ·)).reverse, v ≤ a := by
    intro a ha
    exact le_of_lt (by simpa using mem_takeWhile_imp (mem_reverse.mp ha))
  rw [insertSorted, pairwise_append, pairwise_cons]
  refine ⟨hl.sublist ?_, ⟨htake, hl.sublist ?_⟩, fun a ha b hb => ?_⟩
  · simpa using (dropWhile_suffix (v < ·) (l := l.reverse)).sublist.reverse
  · simpa using ( takeWhile_prefix (v < ·) (l := l.reverse)).sublist.reverse
  · rcases mem_cons.mp hb with rfl | hb
    · exact hdrop a ha
    · exact (hdrop a ha).trans (htake b hb)

theorem pairwise_relax_all (h : st.2.Pairwise (· ≤ ·)) :
    (rem.foldl relax st).2.Pairwise (· ≤ ·) := by
  induction rem generalizing st with
  | nil => exact h
  | cons v rem ih =>
    refine ih ?_
    rw [relax]
    split
    · exact pairwise_insertSorted h
    · exact h

theorem Progress.kahnLoop_le {rest : List V} (hids : ids.Nodup)
    (hends : ∀ e ∈ E, e.1 ∈ ids ∧ e.2 ∈ ids) (h : Progress E ids out [] (indeg, ready))
    (hready : ready.Pairwise (· ≤ ·)) (hrest : IsTopological E ids (out.reverse ++ rest)) :
    kahnLoop (succs E) fuel indeg ready = rest ∨
      List.Lex (· < ·) (kahnLoop (succs E) fuel indeg ready) rest := by
  have hnil : ∀ l : List V, [] = l ∨ List.Lex (· < ·) [] l := by
    intro l
    cases l with
    | nil => exact .inl rfl
    | cons r l => exact .inr .nil
  induction fuel generalizing out ready rest indeg with
  | zero => exact hnil rest
  | succ fuel ih =>
    cases ready with
    | nil => exact hnil rest
    | cons c ready =>
      have hc : c ∉ out := fun hmem =>
        (nodup_append.mp h.nodup).2.2 c hmem c mem_cons_self rfl
      have hnodup := hrest.perm.nodup_iff.mpr hids
      cases rest with
      | nil =>
        have hmem := hrest.perm.mem_iff.mpr (h.sub c (by simp))
        exact absurd (by simpa using hmem) hc
      | cons r rest =>
        have hpred : ∀ u, (u, r) ∈ E → u ∈ out := fun u hu => by
          simpa using hrest.forward.mem_of_edge hnodup hu
        have hr : r ∈ c :: ready := by
          have hmem := (h.mem_iff (hrest.perm.mem_iff.mp (by simp))).mpr hpred
          rcases mem_append.mp hmem with hout | hr
          · have := (nodup_append.mp hnodup).2.2 r (mem_reverse.mpr hout) r
            exact absurd rfl (this mem_cons_self)
          · exact hr
        have hle : c ≤ r := by
          rcases mem_cons.mp hr with rfl | hr
          · exact le_refl r
          · exact rel_of_pairwise_cons hready hr
        rcases hle.eq_or_lt with rfl | hlt
        · have hnext := h.list.relax_all fun v hv => (hends _ (mem_succs.mp hv)).2
          have hrest' : IsTopological E ids ((c :: out).reverse ++ rest) := by simpa using hrest
          exact (ih hnext (pairwise_relax_all hready.of_cons) hrest').imp
            (congrArg (cons c)) List.Lex.cons
        · exact .inr (.rel hlt)

theorem isTopological_kahn (hE : Acyclic E) (hids : ids.Nodup)
    (hends : ∀ e ∈ E, e.1 ∈ ids ∧ e.2 ∈ ids) (hfuel : ids.length ≤ fuel) :
    IsTopological E ids (kahn E fuel ids) := by
  refine ⟨perm_kahn hE hids hends hfuel, ?_⟩
  exact (progress_start hids).forward_kahnLoop hends nofun

section

variable (hids : ids.Nodup) (hends : ∀ e ∈ E, e.1 ∈ ids ∧ e.2 ∈ ids)
  (hsorted : ids.Pairwise (· ≤ ·))

include hids hends hsorted

/-- **No topological order comes before that of Kahn's algorithm.** -/
theorem kahn_le (hl : IsTopological E ids l) :
    kahn E fuel ids = l ∨ List.Lex (· < ·) (kahn E fuel ids) l :=
  (progress_start hids).kahnLoop_le hids hends (hsorted.filter _) hl

theorem kahn_congr {E' : List (V × V)} {ids' : List V} {fuel' : ℕ} (hE : Acyclic E)
    (hfuel : ids.length ≤ fuel) (hE' : ∀ e, e ∈ E' ↔ e ∈ E) (hperm : ids'.Perm ids)
    (hsorted' : ids'.Pairwise (· ≤ ·)) (hfuel' : ids'.length ≤ fuel') :
    kahn E' fuel' ids' = kahn E fuel ids := by
  obtain rfl : ids' = ids := hperm.eq_of_pairwise' hsorted' hsorted
  have hends' : ∀ e ∈ E', e.1 ∈ ids' ∧ e.2 ∈ ids' := fun e he => hends e ((hE' e).mp he)
  have hacyclic' : Acyclic E' := by simpa [Acyclic, hE'] using hE
  have h := isTopological_kahn hE hids hends hfuel
  have h' := isTopological_kahn hacyclic' hids hends' hfuel'
  rcases kahn_le hids hends' hsorted ⟨h.perm, fun e he => h.forward e ((hE' e).mp he)⟩ with heq | hlt
  · exact heq
  rcases kahn_le hids hends hsorted ⟨h'.perm, fun e he => h'.forward e ((hE' e).mpr he)⟩ with
    heq | hlt'
  · exact heq.symm
  · exact absurd hlt' (asymm hlt)

end

end Topological

end NexaRoute.Digraph
