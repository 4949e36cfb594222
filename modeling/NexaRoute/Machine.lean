import Mathlib.Data.List.Basic

/-!
# Runs of a state machine

A component that changes its state one call at a time is a step function, and a run is a list of
calls. Properties of runs are proved by invariants, and often only for runs whose calls meet a
condition in the state they find; `Guarded` says that along a whole run, and `run_induction` is
the one induction every such proof uses.

## Main definitions

* `run` — the state after a list of calls
* `Guarded` — every call of a run meets a condition in its own state
* `next`, `outputs` — the states and the answers of calls that also return something

## Main results

* `run_induction`, `run_invariant` — an invariant that (guarded) calls keep holds after a (guarded)
  run; `foldlM_invariant`, `foldlM_simulation` and `mapM_eq_ok_iff` are the rules for a loop that
  may fail
* `forall_prefix_iff_guarded` — a property that holds all along exactly the guarded runs
* `Guarded.imp`, `Guarded.and`, `guarded_append`, `run_append`
* `simulation` — two machines whose steps correspond give the same answers
-/

namespace NexaRoute.Machine

open List

variable {σ ι : Type*}

/-- The state after a transaction: what it computed, or what there was before it failed. -/
def commit {ε : Type*} (s : σ) : Except ε σ → σ
  | .ok s' => s'
  | .error _ => s

/-- The state after the calls of a list, in order. -/
def run (step : σ → ι → σ) (s : σ) (calls : List ι) : σ := calls.foldl step s

/-- Every call of the run meets `G` in the state it is made in. -/
def Guarded (step : σ → ι → σ) (G : σ → ι → Prop) : σ → List ι → Prop
  | _, [] => True
  | s, i :: calls => G s i ∧ Guarded step G (step s i) calls

instance decidableGuarded (step : σ → ι → σ) (G : σ → ι → Prop) [∀ s i, Decidable (G s i)] :
    ∀ s calls, Decidable (Guarded step G s calls)
  | _, [] => isTrue trivial
  | s, i :: calls =>
    have := decidableGuarded step G (step s i) calls
    inferInstanceAs (Decidable (_ ∧ _))

variable {step : σ → ι → σ} {G G' : σ → ι → Prop} {s : σ} {i : ι} {calls calls' : List ι}
  {P : σ → Prop}

@[simp] theorem run_nil : run step s [] = s := rfl

@[simp] theorem run_cons : run step s (i :: calls) = run step (step s i) calls := rfl

theorem run_append : run step s (calls ++ calls') = run step (run step s calls) calls' :=
  foldl_append

@[simp] theorem guarded_nil : Guarded step G s [] := trivial

@[simp] theorem guarded_cons :
    Guarded step G s (i :: calls) ↔ G s i ∧ Guarded step G (step s i) calls := Iff.rfl

theorem guarded_append :
    Guarded step G s (calls ++ calls') ↔
      Guarded step G s calls ∧ Guarded step G (run step s calls) calls' := by
  induction calls generalizing s with
  | nil => simp
  | cons i calls ih => simp [ih, and_assoc]

theorem Guarded.imp (h : ∀ s i, G s i → G' s i) (hg : Guarded step G s calls) :
    Guarded step G' s calls := by
  induction calls generalizing s with
  | nil => trivial
  | cons i calls ih => exact ⟨h s i hg.1, ih hg.2⟩

theorem Guarded.and (hg : Guarded step G s calls) (hg' : Guarded step G' s calls) :
    Guarded step (fun s i => G s i ∧ G' s i) s calls := by
  induction calls generalizing s with
  | nil => trivial
  | cons i calls ih => exact ⟨⟨hg.1, hg'.1⟩, ih hg.2 hg'.2⟩

theorem guarded_of_mem {A : ι → Prop} (h : ∀ i ∈ calls, A i) :
    Guarded step (fun _ i => A i) s calls := by
  induction calls generalizing s with
  | nil => exact guarded_nil
  | cons i calls ih => exact ⟨h i mem_cons_self, ih fun j hj => h j (mem_cons_of_mem i hj)⟩

theorem guarded_of_forall (h : ∀ s i, G s i) : Guarded step G s calls := by
  induction calls generalizing s with
  | nil => trivial
  | cons i calls ih => exact ⟨h s i, ih⟩

/-- **The invariant rule.** -/
theorem run_induction (hstep : ∀ s i, P s → G s i → P (step s i)) (h0 : P s)
    (hg : Guarded step G s calls) : P (run step s calls) := by
  induction calls generalizing s with
  | nil => exact h0
  | cons i calls ih => exact ih (hstep s i h0 hg.1) hg.2

theorem run_invariant (hstep : ∀ s i, P s → P (step s i)) (h0 : P s) : P (run step s calls) := by
  induction calls generalizing s with
  | nil => exact h0
  | cons i calls ih => exact ih (hstep s i h0)

/-- What holds of a computation that may stop: `P` of what it returns, `Q` of what stops it. -/
def Ensures {ε α : Type*} (P : α → Prop) (Q : ε → Prop) : Except ε α → Prop
  | .ok a => P a
  | .error e => Q e

theorem Ensures.bind.{u, v} {ε : Type u} {α β : Type v} {P : α → Prop} {P' : β → Prop}
    {Q : ε → Prop} {x : Except ε α} {f : α → Except ε β} (hx : Ensures P Q x)
    (hf : ∀ a, P a → Ensures P' Q (f a)) : Ensures P' Q (x >>= f) := by
  cases x with
  | error e => exact hx
  | ok a => exact hf a hx

theorem Ensures.foldlM {ε : Type*} {f : σ → ι → Except ε σ} {Q : ε → Prop}
    (hstep : ∀ s i, P s → Ensures P Q (f s i)) (h0 : P s) : Ensures P Q (calls.foldlM f s) := by
  induction calls generalizing s with
  | nil => exact h0
  | cons i calls ih =>
    exact (hstep s i h0).bind fun _ h => ih h

theorem ok_of_bind.{u, v} {ε : Type u} {α β : Type v} {x : Except ε α} {f : α → Except ε β} {r : β}
    (h : x >>= f = .ok r) : ∃ a, x = .ok a ∧ f a = .ok r := by
  cases x with
  | error e => cases h
  | ok a => exact ⟨a, rfl, h⟩

theorem ok_of_map {ε α β : Type*} {x : Except ε α} {f : α → β} {r : β} (h : x.map f = .ok r) :
    ∃ a, x = .ok a ∧ f a = r := by
  cases x with
  | error e => cases h
  | ok a => exact ⟨a, rfl, Except.ok.inj h⟩

theorem mapM_eq_ok_iff.{u, v} {ε : Type u} {α β : Type v} {f : α → Except ε β} :
    ∀ {xs : List α} {ys : List β},
      xs.mapM f = .ok ys ↔ List.Forall₂ (fun a b => f a = .ok b) xs ys
  | [], ys => by
    rw [mapM_nil]
    constructor
    · intro h
      obtain rfl := Except.ok.inj h
      exact .nil
    · rintro ⟨⟩
      rfl
  | a :: xs, ys => by
    rw [mapM_cons]
    constructor
    · intro h
      obtain ⟨b, hb, h⟩ := ok_of_bind h
      obtain ⟨bs, hbs, h⟩ := ok_of_bind h
      obtain rfl := Except.ok.inj h
      exact .cons hb (mapM_eq_ok_iff.mp hbs)
    · rintro (_ | ⟨hb, hbs⟩)
      rw [hb, mapM_eq_ok_iff.mpr hbs]
      rfl

theorem foldlM_simulation {ε τ : Type*} {f : σ → ι → Except ε σ} {g : τ → ι → τ}
    {R : σ → τ → Prop} {t : τ} {s' : σ}
    (hstep : ∀ s t i s', R s t → f s i = .ok s' → R s' (g t i)) (h0 : R s t)
    (h : calls.foldlM f s = .ok s') : R s' (calls.foldl g t) := by
  induction calls generalizing s t with
  | nil =>
    cases h
    exact h0
  | cons i calls ih =>
    rw [foldlM_cons] at h
    cases hi : f s i with
    | error e =>
      rw [hi] at h
      cases h
    | ok s₁ =>
      rw [hi] at h
      exact ih (hstep s t i s₁ h0 hi) h

theorem foldlM_invariant {ε : Type*} {f : σ → ι → Except ε σ} {s' : σ}
    (hstep : ∀ s i s', P s → f s i = .ok s' → P s') (h0 : P s)
    (h : calls.foldlM f s = .ok s') : P s' :=
  foldlM_simulation (g := fun t _ => t) (R := fun s _ => P s) (t := ())
    (fun s _ i s' => hstep s i s') h0 h

theorem forall_prefix_iff_guarded {A : ι → Prop}
    (hstep : ∀ s i, P s → A i → (P (step s i) ↔ G s i)) (h0 : P s) (hA : ∀ i ∈ calls, A i) :
    (∀ before, before <+: calls → P (run step s before)) ↔ Guarded step G s calls := by
  induction calls generalizing s with
  | nil =>
    refine ⟨fun _ => trivial, fun _ before hb => ?_⟩
    rw [prefix_nil.mp hb]
    exact h0
  | cons i calls ih =>
    have hi := hstep s i h0 (hA i mem_cons_self)
    have hrest := fun j hj => hA j (mem_cons_of_mem i hj)
    constructor
    · intro h
      have hP : P (step s i) := h [i] (prefix_append [i] calls)
      refine ⟨hi.mp hP, (ih hP hrest).mp fun before hb => ?_⟩
      exact h (i :: before) ((prefix_cons_inj i).mpr hb)
    · rintro ⟨hg, hgs⟩ before hb
      cases before with
      | nil => exact h0
      | cons j before =>
        obtain ⟨rfl, hbefore⟩ := cons_prefix_cons.mp hb
        exact (ih (hi.mpr hg) hrest).mpr hgs before hbefore

/-! ### Calls that return something -/

variable {τ ω : Type*}

/-- The state after a call. -/
def next (step : σ → ι → σ × ω) (s : σ) (i : ι) : σ := (step s i).1

/-- What the calls of a list return, in order. -/
def outputs (step : σ → ι → σ × ω) : σ → List ι → List ω
  | _, [] => []
  | s, i :: calls => (step s i).2 :: outputs step (step s i).1 calls

/-- **Simulation.** A relation that corresponding calls keep, with equal answers, is kept by runs,
with equal answers. -/
theorem simulation {step : σ → ι → σ × ω} {step' : τ → ι → τ × ω} {R : σ → τ → Prop}
    (hstep : ∀ s t i, R s t → G s i →
      R (step s i).1 (step' t i).1 ∧ (step s i).2 = (step' t i).2)
    {s : σ} {t : τ} (h0 : R s t) (hg : Guarded (next step) G s calls) :
    R (run (next step) s calls) (run (next step') t calls) ∧
      outputs step s calls = outputs step' t calls := by
  induction calls generalizing s t with
  | nil => exact ⟨h0, rfl⟩
  | cons i calls ih =>
    obtain ⟨hR, hout⟩ := hstep s t i h0 hg.1
    obtain ⟨hrun, houts⟩ := ih hR hg.2
    exact ⟨hrun, by rw [outputs, outputs, hout, houts]⟩

end NexaRoute.Machine
