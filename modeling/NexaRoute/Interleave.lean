import NexaRoute.Machine
import Mathlib.Data.List.Forall2

/-!
# Programs that call a shared world, interleaved

A component that several callers drive at once is a family of programs over one world. A program is
the tree of its requests and of what follows each possible reply; at a `par` node it hands a list of
jobs to workers that run side by side, and goes on when all of them have returned. A request is
atomic, and between any two requests of one thread every other thread and worker may take any number
of steps. A thread that is never scheduled again has crashed.

A loop without a bound is a program that returns the next call instead of a result: the thread goes
on with the program of that call.

## How safety is proved

The steps of a thread are logged, and a `Protocol` reads off the log what a thread has done and what
it may do next. That a program only does what it may (`Obeys`) is a property of the program alone,
checked once for all worlds and all other threads. What the world and all the logs satisfy together
is then an invariant that only has to survive steps the protocol allows: `invariant_run`.

## Main definitions

* `Code`, `Prog` — programs without and with workers
* `System`, `Config`, `Config.step` — threads over a world, scheduled from outside
* `Protocol`, `Party`, `partyOf` — what a log says about a thread
* `Obeys`, `WObeys` — programs that keep to a protocol

## Main results

* `Obeys.bind`, `Obeys.mono`, `obeys_perform` — the rules for programs
* `invariant_run`, `invariant_run_of` — the invariant rule
-/

namespace NexaRoute.Interleave

variable {γ δ : Type}

/-- What a worker runs: requests, and what follows each reply. -/
inductive Code (Op : Type) (Res : Op → Type) (α : Type)
  | ret (a : α)
  | call (op : Op) (k : Res op → Code Op Res α)

/-- What a thread runs: requests, and lists of jobs for workers. -/
inductive Prog (Op : Type) (Res : Op → Type) (J R α : Type)
  | ret (a : α)
  | call (op : Op) (k : Res op → Prog Op Res J R α)
  | par (js : List J) (k : List R → Prog Op Res J R α)

section Monad

variable {Op : Type} {Res : Op → Type} {J R α β : Type}

namespace Code

def bind : Code Op Res α → (α → Code Op Res β) → Code Op Res β
  | .ret a, f => f a
  | .call op k, f => .call op fun r => (k r).bind f

instance : Monad (Code Op Res) where
  pure := .ret
  bind := bind

def perform (op : Op) : Code Op Res (Res op) := .call op .ret

end Code

namespace Prog

def bind : Prog Op Res J R α → (α → Prog Op Res J R β) → Prog Op Res J R β
  | .ret a, f => f a
  | .call op k, f => .call op fun r => (k r).bind f
  | .par js k, f => .par js fun rs => (k rs).bind f

instance : Monad (Prog Op Res J R) where
  pure := .ret
  bind := bind

def perform (op : Op) : Prog Op Res J R (Res op) := .call op .ret

/-- Jobs side by side, and their results in the order of the jobs. -/
def fork (js : List J) : Prog Op Res J R (List R) := .par js .ret

end Prog

end Monad

/-! ### Threads over a world -/

/-- How requests act on the world, with what the surroundings contribute to one; what a worker does
with a job; the program of a call; and which calls are made from outside. -/
structure System (σ E Op : Type) (Res : Op → Type) (J R C : Type) where
  exec : (op : Op) → σ → E → σ × Res op
  body : J → Code Op Res R
  prog : C → Prog Op Res J R (Option C)
  entry : C → Bool

/-- A thread in its own program, or waiting for workers. -/
inductive Thread (Op : Type) (Res : Op → Type) (J R C : Type)
  | main (p : Prog Op Res J R (Option C))
  | pool (ws : List (Code Op Res R)) (k : List R → Prog Op Res J R (Option C))

/-- A step of a thread: a request of its own, the start of workers, a request of one of them, their
end. -/
inductive Act (Op : Type) (Res : Op → Type) (J R : Type)
  | call (op : Op) (r : Res op)
  | fork (js : List J)
  | work (i : ℕ) (op : Op) (r : Res op)
  | join (rs : List R)

/-- The steps so far, each with its thread, the last one first. -/
abbrev Log (Op : Type) (Res : Op → Type) (J R : Type) := List (ℕ × Act Op Res J R)

structure Config (σ Op : Type) (Res : Op → Type) (J R C : Type) where
  world : σ
  threads : List (Thread Op Res J R C) := []
  log : Log Op Res J R := []

open Config List Machine

/-- What the scheduler does: it starts a call in a new thread, or lets a thread or a worker go on. -/
inductive Item (E C : Type)
  | start (c : C)
  | main (t : ℕ) (e : E)
  | work (t i : ℕ) (e : E)

variable {σ E Op : Type} {Res : Op → Type} {J R C α β : Type}

/-- The results of workers that have all returned. -/
def results : List (Code Op Res R) → Option (List R)
  | [] => some []
  | .ret r :: ws => (results ws).map (r :: ·)
  | .call _ _ :: _ => none

/-- A thread put in its place. -/
def Config.put (cfg : Config σ Op Res J R C) (t : ℕ) (th : Thread Op Res J R C) :
    Config σ Op Res J R C :=
  { cfg with threads := cfg.threads.set t th }

/-- The configuration after a step of the scheduler. Letting go on what cannot is no step. -/
def Config.step (S : System σ E Op Res J R C) (cfg : Config σ Op Res J R C) :
    Item E C → Config σ Op Res J R C
  | .start c =>
    if S.entry c then { cfg with threads := cfg.threads ++ [.main (S.prog c)] } else cfg
  | .main t e => match cfg.threads[t]? with
    | some (.main (.ret (some c))) => cfg.put t (.main (S.prog c))
    | some (.main (.call op k)) =>
      let out := S.exec op cfg.world e
      { cfg.put t (.main (k out.2)) with world := out.1, log := (t, .call op out.2) :: cfg.log }
    | some (.main (.par js k)) =>
      { cfg.put t (.pool (js.map S.body) k) with log := (t, .fork js) :: cfg.log }
    | some (.pool ws k) => match results ws with
      | some rs => { cfg.put t (.main (k rs)) with log := (t, .join rs) :: cfg.log }
      | none => cfg
    | _ => cfg
  | .work t i e => match cfg.threads[t]? with
    | some (.pool ws k) => match ws[i]? with
      | some (.call op k') =>
        let out := S.exec op cfg.world e
        { cfg.put t (.pool (ws.set i (k' out.2)) k) with
          world := out.1, log := (t, .work i op out.2) :: cfg.log }
      | _ => cfg
    | _ => cfg

/-- The request that a step of the scheduler carries out, with its thread and worker. -/
def Config.request (cfg : Config σ Op Res J R C) : Item E C → Option (ℕ × Option ℕ × Op × E)
  | .start _ => none
  | .main t e => match cfg.threads[t]? with
    | some (.main (.call op _)) => some (t, none, op, e)
    | _ => none
  | .work t i e => match cfg.threads[t]? with
    | some (.pool ws _) => match ws[i]? with
      | some (.call op _) => some (t, some i, op, e)
      | _ => none
    | _ => none

/-! ### Protocols -/

/-- What is known of a thread: a state of its own, and one for each worker of its last pool. -/
structure Party (M N : Type) where
  own : M
  slots : List N

/-- What threads and workers may do, as far as their own steps tell. -/
structure Protocol (Op : Type) (Res : Op → Type) (J R M N : Type) where
  init : M
  may : Party M N → Op → Prop
  after : Party M N → (op : Op) → Res op → Party M N
  mayFork : Party M N → List J → Prop
  /-- A worker that has not begun. -/
  slot : J → N
  job : N → J
  wMay : N → Op → Prop
  wAfter : N → (op : Op) → Res op → N
  /-- What is known when a worker returns. -/
  wPost : N → R → Prop
  ended : N → R → N
  /-- What a thread may count on in an answer. -/
  good : Party M N → (op : Op) → Res op → Prop
  job_slot : ∀ j, job (slot j) = j
  job_wAfter : ∀ n op r, job (wAfter n op r) = job n

variable {M N : Type}

namespace Protocol

variable (P : Protocol Op Res J R M N)

/-- What a step makes of what is known. -/
def next (m : Party M N) : Act Op Res J R → Party M N
  | .call op r => P.after m op r
  | .fork js => { m with slots := js.map P.slot }
  | .work i op r => { m with slots := m.slots.modify i fun n => P.wAfter n op r }
  | .join rs => { m with slots := List.zipWith P.ended m.slots rs }

/-- What a log says about a thread. -/
def partyOf (log : Log Op Res J R) (t : ℕ) : Party M N :=
  log.foldr (fun e m => if e.1 = t then P.next m e.2 else m) ⟨P.init, []⟩

@[simp] theorem partyOf_nil (t : ℕ) : P.partyOf [] t = ⟨P.init, []⟩ := rfl

@[simp] theorem partyOf_cons_self (log : Log Op Res J R) (t : ℕ) (a : Act Op Res J R) :
    P.partyOf ((t, a) :: log) t = P.next (P.partyOf log t) a := by simp [partyOf]

theorem partyOf_cons_of_ne (log : Log Op Res J R) {t t' : ℕ} (a : Act Op Res J R) (h : t ≠ t') :
    P.partyOf ((t, a) :: log) t' = P.partyOf log t' := by simp [partyOf, h]

/-- The code of a worker keeps to the protocol, and ends with `post`. -/
def WObeys (post : N → α → Prop) : N → Code Op Res α → Prop
  | n, .ret r => post n r
  | n, .call op k => P.wMay n op ∧ ∀ r, WObeys post (P.wAfter n op r) (k r)

/-- The program of a thread keeps to the protocol, and ends with `post`. -/
def Obeys (post : Party M N → α → Prop) : Party M N → Prog Op Res J R α → Prop
  | m, .ret a => post m a
  | m, .call op k => P.may m op ∧ ∀ r, P.good m op r → Obeys post (P.after m op r) (k r)
  | m, .par js k => P.mayFork m js ∧ ∀ ns rs, ns.map P.job = js → List.Forall₂ P.wPost ns rs →
      Obeys post { m with slots := List.zipWith P.ended ns rs } (k rs)

variable {P} {m : Party M N} {post post' : Party M N → α → Prop} {p : Prog Op Res J R α}

theorem Obeys.mono (h : P.Obeys post m p)
    (hpost : ∀ m a, post m a → post' m a) : P.Obeys post' m p := by
  induction p generalizing m with
  | ret a => exact hpost m a h
  | call op k ih => exact ⟨h.1, fun r hr => ih r (h.2 r hr)⟩
  | par js k ih => exact ⟨h.1, fun ns rs hns hrs => ih rs (h.2 ns rs hns hrs)⟩

theorem WObeys.bind {n : N} {c : Code Op Res α} {f : α → Code Op Res β} {post : N → α → Prop}
    {post' : N → β → Prop} (h : P.WObeys post n c)
    (hf : ∀ n' a, post n' a → P.WObeys post' n' (f a)) : P.WObeys post' n (c >>= f) := by
  induction c generalizing n with
  | ret a => exact hf n a h
  | call op k ih => exact ⟨h.1, fun r => ih r (h.2 r)⟩

theorem obeys_bind {f : α → Prog Op Res J R β}
    {post : Party M N → β → Prop} (h : P.Obeys (fun m a => P.Obeys post m (f a)) m p) :
    P.Obeys post m (p >>= f) := by
  induction p generalizing m with
  | ret a => exact h
  | call op k ih => exact ⟨h.1, fun r hr => ih r (h.2 r hr)⟩
  | par js k ih => exact ⟨h.1, fun ns rs hns hrs => ih rs (h.2 ns rs hns hrs)⟩

theorem Obeys.bind {f : α → Prog Op Res J R β} {post' : Party M N → β → Prop} (h : P.Obeys post m p)
    (hf : ∀ m' a, post m' a → P.Obeys post' m' (f a)) : P.Obeys post' m (p >>= f) :=
  obeys_bind (h.mono hf)

theorem obeys_pure {a : α} (h : post m a) : P.Obeys post m (pure a) := h

theorem obeys_ite {c : Prop} [Decidable c] {q : Prog Op Res J R α} (hp : c → P.Obeys post m p)
    (hq : ¬c → P.Obeys post m q) : P.Obeys post m (if c then p else q) := by
  split
  · next h => exact hp h
  · next h => exact hq h

theorem obeys_perform {op : Op} {post : Party M N → Res op → Prop} (hmay : P.may m op)
    (h : ∀ r, P.good m op r → post (P.after m op r) r) : P.Obeys post m (Prog.perform op) :=
  ⟨hmay, h⟩

end Protocol

/-! ### Threads that keep to a protocol -/

section Soundness

variable (S : System σ E Op Res J R C) (P : Protocol Op Res J R M N) (Pre : C → Party M N → Prop)

/-- What the program of a call leaves: if it goes on with another call, what that one needs. -/
def goesOn (m : Party M N) (out : Option C) : Prop := ∀ c, out = some c → Pre c m

/-- A thread keeps to the protocol. -/
def ThreadObeys (m : Party M N) : Thread Op Res J R C → Prop
  | .main p => P.Obeys (goesOn Pre) m p
  | .pool ws k => List.Forall₂ (P.WObeys P.wPost) m.slots ws ∧
      ∀ ns rs, ns.map P.job = m.slots.map P.job → List.Forall₂ P.wPost ns rs →
        P.Obeys (goesOn Pre) { m with slots := List.zipWith P.ended ns rs } (k rs)

/-- The programs of a system keep to a protocol. -/
structure Keeps : Prop where
  body : ∀ j, P.WObeys P.wPost (P.slot j) (S.body j)
  start : ∀ c, S.entry c = true → Pre c ⟨P.init, []⟩
  prog : ∀ c m, Pre c m → P.Obeys (goesOn Pre) m (S.prog c)

/-- What an invariant of the world and the log has to survive. `G` is a condition on the requests
of the run, with the world they find. -/
structure Preserves (G : σ → Log Op Res J R → ℕ → Option ℕ → Op → E → Prop)
    (Inv : σ → Log Op Res J R → Prop) : Prop where
  call : ∀ {w log t op} e, Inv w log → P.may (P.partyOf log t) op → G w log t none op e →
    Inv (S.exec op w e).1 ((t, .call op (S.exec op w e).2) :: log)
  fork : ∀ {w log t js}, Inv w log → P.mayFork (P.partyOf log t) js → Inv w ((t, .fork js) :: log)
  work : ∀ {w log t i n op} e, Inv w log → (P.partyOf log t).slots[i]? = some n → P.wMay n op →
    G w log t (some i) op e →
    Inv (S.exec op w e).1 ((t, .work i op (S.exec op w e).2) :: log)
  join : ∀ {w log t rs}, Inv w log → List.Forall₂ P.wPost (P.partyOf log t).slots rs →
    Inv w ((t, .join rs) :: log)

/-- What an invariant `Inv` has to survive if `Known` is an invariant too. -/
structure Maintains (G : σ → Log Op Res J R → ℕ → Option ℕ → Op → E → Prop)
    (Known Inv : σ → Log Op Res J R → Prop) : Prop where
  call : ∀ {w log t op} e, Known w log → Inv w log → P.may (P.partyOf log t) op →
    G w log t none op e → Inv (S.exec op w e).1 ((t, .call op (S.exec op w e).2) :: log)
  fork : ∀ {w log t js}, Known w log → Inv w log → P.mayFork (P.partyOf log t) js →
    Inv w ((t, .fork js) :: log)
  work : ∀ {w log t i n op} e, Known w log → Inv w log →
    (P.partyOf log t).slots[i]? = some n → P.wMay n op → G w log t (some i) op e →
    Inv (S.exec op w e).1 ((t, .work i op (S.exec op w e).2) :: log)
  join : ∀ {w log t rs}, Known w log → Inv w log →
    List.Forall₂ P.wPost (P.partyOf log t).slots rs → Inv w ((t, .join rs) :: log)

/-- Answers satisfy what the protocol takes for granted, where the invariant holds. -/
def Answers (Inv : σ → Log Op Res J R → Prop) : Prop :=
  ∀ {w log t op} e, Inv w log → P.may (P.partyOf log t) op →
    P.good (P.partyOf log t) op (S.exec op w e).2

/-- Every request of a step meets the condition. -/
def Config.Meets (G : σ → Log Op Res J R → ℕ → Option ℕ → Op → E → Prop)
    (cfg : Config σ Op Res J R C) (item : Item E C) : Prop :=
  ∀ t i op e, cfg.request item = some (t, i, op, e) → G cfg.world cfg.log t i op e

instance (G : σ → Log Op Res J R → ℕ → Option ℕ → Op → E → Prop)
    [∀ w log t i op e, Decidable (G w log t i op e)] (cfg : Config σ Op Res J R C)
    (item : Item E C) : Decidable (cfg.Meets G item) :=
  match h : cfg.request item with
  | none => isTrue fun t i op e h' => by simp [h] at h'
  | some (t, i, op, e) =>
    decidable_of_iff (G cfg.world cfg.log t i op e)
      ⟨fun hG t' i' op' e' h' => by
        rw [h] at h'
        cases h'
        exact hG, fun hm => hm t i op e h⟩

/-- What holds of a configuration all along: the invariant, and that every thread keeps to the
protocol. -/
structure Sound (Inv : σ → Log Op Res J R → Prop) (cfg : Config σ Op Res J R C) : Prop where
  inv : Inv cfg.world cfg.log
  threads : ∀ t th, cfg.threads[t]? = some th → ThreadObeys P Pre (P.partyOf cfg.log t) th
  fresh : ∀ t, cfg.threads.length ≤ t → P.partyOf cfg.log t = ⟨P.init, []⟩

variable {S P Pre} {G : σ → Log Op Res J R → ℕ → Option ℕ → Op → E → Prop}
  {Inv : σ → Log Op Res J R → Prop}

theorem forall₂_modify_set {Rl : γ → δ → Prop} {l : List γ} {l' : List δ}
    (h : List.Forall₂ Rl l l') {i : ℕ} {f : γ → γ} {b : δ} (hb : ∀ a, l[i]? = some a → Rl (f a) b) :
    List.Forall₂ Rl (l.modify i f) (l'.set i b) := by
  induction h generalizing i with
  | nil => simp
  | @cons a c l l' hac hl ih =>
    cases i with
    | zero => exact .cons (hb a rfl) hl
    | succ i => exact .cons hac (ih hb)

theorem map_modify_of_eq {g : γ → δ} {f : γ → γ} (h : ∀ a, g (f a) = g a) (l : List γ) (i : ℕ) :
    (l.modify i f).map g = l.map g := by
  induction l generalizing i with
  | nil => simp
  | cons a l ih =>
    cases i with
    | zero => simp [h]
    | succ i => simp [ih]

theorem forall₂_of_results {ws : List (Code Op Res R)} {rs : List R} {ns : List N}
    (h : List.Forall₂ (P.WObeys P.wPost) ns ws) (hr : results ws = some rs) :
    List.Forall₂ P.wPost ns rs := by
  induction h generalizing rs with
  | nil =>
    cases hr
    exact .nil
  | @cons n w ns ws hn _ ih =>
    cases w with
    | call op k => cases hr
    | ret r =>
      obtain ⟨rs', hrs', rfl⟩ := Option.map_eq_some_iff.mp hr
      exact .cons hn (ih hrs')

theorem get?_of_forall₂ {Rl : γ → δ → Prop} {l : List γ} {l' : List δ} (h : List.Forall₂ Rl l l')
    {i : ℕ} {b : δ} (hb : l'[i]? = some b) :
    ∃ a, l[i]? = some a ∧ Rl a b := by
  induction h generalizing i with
  | nil => simp at hb
  | @cons a c l l' hac _ ih =>
    cases i with
    | zero =>
      obtain rfl : c = b := by simpa using hb
      exact ⟨a, rfl, hac⟩
    | succ i => exact ih hb

theorem Sound.of_act {cfg : Config σ Op Res J R C}
    (h : Sound P Pre Inv cfg) {t : ℕ} {th th' : Thread Op Res J R C}
    (hth : cfg.threads[t]? = some th) {w : σ} {a : Act Op Res J R} (hinv : Inv w ((t, a) :: cfg.log))
    (hobeys : ThreadObeys P Pre (P.next (P.partyOf cfg.log t) a) th') :
    Sound P Pre Inv
      { cfg.put t th' with world := w, log := (t, a) :: cfg.log } := by
  have hlt : t < cfg.threads.length := (List.getElem?_eq_some_iff.mp hth).1
  refine ⟨hinv, fun t' u hu => ?_, fun t' ht' => ?_⟩
  · by_cases htt : t = t'
    · subst htt
      have : u = th' := by simpa [put, hlt] using hu.symm
      rw [P.partyOf_cons_self, this]
      exact hobeys
    · rw [P.partyOf_cons_of_ne _ _ htt]
      exact h.threads t' u (by simpa [put, getElem?_set_ne htt] using hu)
  · have hle : cfg.threads.length ≤ t' := by simpa [put] using ht'
    rw [P.partyOf_cons_of_ne _ _ (by omega)]
    exact h.fresh t' hle

theorem Sound.step (hkeeps : Keeps S P Pre) (hanswers : Answers S P Inv)
    (hpres : Preserves S P G Inv) {cfg : Config σ Op Res J R C}
    (h : Sound P Pre Inv cfg) {item : Item E C} (hmeets : cfg.Meets G item) :
    Sound P Pre Inv (cfg.step S item) := by
  cases item with
  | start c =>
    simp only [Config.step]
    split
    · next hentry =>
      refine ⟨h.inv, fun t th hth => ?_, fun t ht => ?_⟩
      · rcases Nat.lt_trichotomy t cfg.threads.length with hlt | heq | hgt
        · rw [getElem?_append_left hlt] at hth
          exact h.threads t th hth
        · subst heq
          obtain rfl : Thread.main (S.prog c) = th := by simpa using hth
          show ThreadObeys P Pre (P.partyOf cfg.log cfg.threads.length) _
          rw [h.fresh _ (Nat.le_refl _)]
          exact hkeeps.prog c _ (hkeeps.start c hentry)
        · rw [getElem?_eq_none (by simp; omega)] at hth
          cases hth
      · simp only [length_append, length_singleton] at ht
        exact h.fresh t (by omega)
    · exact h
  | main t e =>
    simp only [Config.step]
    cases hth : cfg.threads[t]? with
    | none => exact h
    | some th =>
      have hob := h.threads t th hth
      cases th with
      | main p =>
        cases p with
        | ret out =>
          cases out with
          | none => exact h
          | some c =>
            have hlt : t < cfg.threads.length := (List.getElem?_eq_some_iff.mp hth).1
            refine ⟨h.inv, fun t' u hu => ?_, fun t' ht' => ?_⟩
            · by_cases htt : t = t'
              · subst htt
                obtain rfl : u = .main (S.prog c) := by simpa [put, hlt] using hu.symm
                exact hkeeps.prog c _ (hob c rfl)
              · exact h.threads t' u (by simpa [put, getElem?_set_ne htt] using hu)
            · exact h.fresh t' (by simpa [put] using ht')
        | call op k =>
          have hG : G cfg.world cfg.log t none op e :=
            hmeets t none op e (by simp [request, hth])
          have hgood := hanswers e h.inv hob.1
          exact h.of_act hth (hpres.call e h.inv hob.1 hG) (hob.2 _ hgood)
        | par js k =>
          refine h.of_act hth (hpres.fork h.inv hob.1) ⟨?_, fun ns rs hns hrs => ?_⟩
          · simp only [Protocol.next, forall₂_map_left_iff, forall₂_map_right_iff,
              forall₂_same]
            exact fun j _ => hkeeps.body j
          · refine hob.2 ns rs ?_ hrs
            rw [hns, Protocol.next, map_map, show P.job ∘ P.slot = id from funext P.job_slot,
              map_id]
      | pool ws k =>
        dsimp only
        cases hr : results ws with
        | none => exact h
        | some rs =>
          have hpost := forall₂_of_results hob.1 hr
          exact h.of_act hth (hpres.join h.inv hpost) (hob.2 _ rs rfl hpost)
  | work t i e =>
    simp only [Config.step]
    cases hth : cfg.threads[t]? with
    | none => exact h
    | some th =>
      have hob := h.threads t th hth
      cases th with
      | main p => exact h
      | pool ws k =>
        dsimp only
        cases hw : ws[i]? with
        | none => exact h
        | some w =>
          cases w with
          | ret r => exact h
          | call op k' =>
            obtain ⟨n, hn, hmay, hcont⟩ := get?_of_forall₂ hob.1 hw
            have hG : G cfg.world cfg.log t (some i) op e :=
              hmeets t (some i) op e (by simp [request, hth, hw])
            refine h.of_act hth (hpres.work e h.inv hn hmay hG)
              ⟨forall₂_modify_set hob.1 fun n' hn' => ?_, fun ns rs hns hrs => ?_⟩
            · obtain rfl : n = n' := by simpa [hn] using hn'
              exact hcont _
            · refine hob.2 ns rs ?_ hrs
              rw [hns]
              exact map_modify_of_eq (fun n => P.job_wAfter n op _) _ i

/-- **The invariant rule.** Where programs keep to a protocol, an invariant that survives what the
protocol allows holds in every configuration that a run reaches, if the requests of the run meet the
condition under which it does. -/
theorem invariant_run (hkeeps : Keeps S P Pre) (hanswers : Answers S P Inv)
    (hpres : Preserves S P G Inv) {w : σ} (h0 : Inv w []) {items : List (Item E C)}
    (hmeets : Machine.Guarded (step S) (Config.Meets G) { world := w } items) :
    Inv (run (step S) { world := w } items).world
      (run (step S) { world := w } items).log := by
  have hsound : Sound P Pre Inv
      (run (step S) { world := w } items) := by
    refine run_induction (fun cfg item h hm => h.step hkeeps hanswers hpres hm) ?_ hmeets
    exact ⟨h0, fun t th hth => by simp at hth, fun _ _ => rfl⟩
  exact hsound.inv

def anyRequest : σ → Log Op Res J R → ℕ → Option ℕ → Op → E → Prop := fun _ _ _ _ _ _ => True

theorem invariant_run_of {Known : σ → Log Op Res J R → Prop} (hkeeps : Keeps S P Pre)
    (hanswers : Answers S P Known) (hknown : Preserves S P anyRequest Known)
    (hinv : Maintains S P G Known Inv) {w : σ} (hknown0 : Known w []) (h0 : Inv w [])
    {items : List (Item E C)}
    (hmeets : Machine.Guarded (step S) (Config.Meets G) { world := w } items) :
    Known (run (step S) { world := w } items).world
        (run (step S) { world := w } items).log ∧
      Inv (run (step S) { world := w } items).world
        (run (step S) { world := w } items).log := by
  have hboth : Preserves S P G fun w log => Known w log ∧ Inv w log := by
    refine ⟨?_, ?_, ?_, ?_⟩
    · intro w log t op e h hmay hG
      exact ⟨hknown.call e h.1 hmay trivial, hinv.call e h.1 h.2 hmay hG⟩
    · intro w log t js h hmay
      exact ⟨hknown.fork h.1 hmay, hinv.fork h.1 h.2 hmay⟩
    · intro w log t i n op e h hn hmay hG
      exact ⟨hknown.work e h.1 hn hmay trivial, hinv.work e h.1 h.2 hn hmay hG⟩
    · intro w log t rs h hpost
      exact ⟨hknown.join h.1 hpost, hinv.join h.1 h.2 hpost⟩
  exact invariant_run hkeeps (fun e h hmay => hanswers e h.1 hmay) hboth ⟨hknown0, h0⟩ hmeets

end Soundness

end NexaRoute.Interleave
