import Mathlib.Data.List.Chain

/-!
# Hash chains

A list is linked when each entry names the hash of the entry before it. Entries are of any type,
with two functions, `hash` and `prev`. If hashes tell entries apart, a linked list is determined
backwards by its last hash as far as it goes: of two such lists with the same last hash, one is
an end of the other. What remains is where the lists begin; an entry that may begin a list and
may not follow any entry of the other makes them equal.

## Main results

* `Linked.suffix_or_suffix` — two linked lists with one last hash
* `eq_of_suffix` — an end of a list that begins like the list is all of it
-/

namespace NexaRoute.HashChain

open List

variable {α κ : Type*} {hash prev : α → κ} {l l' : List α} {a b : α}

/-- Each entry names the hash of the entry before it. -/
def Linked (hash prev : α → κ) (l : List α) : Prop := l.IsChain fun a b => prev b = hash a

-- Read from the newest entry back, both lists follow the same names.
private theorem isPrefix_or_isPrefix (hinj : ∀ a ∈ l, ∀ b ∈ l', hash a = hash b → a = b)
    (hl : l.IsChain fun b a => prev b = hash a) (hl' : l'.IsChain fun b a => prev b = hash a)
    (hhead : ∀ a ∈ l.head?, ∀ b ∈ l'.head?, hash a = hash b) : l <+: l' ∨ l' <+: l := by
  induction l generalizing l' with
  | nil => exact .inl nil_prefix
  | cons a l ih =>
    cases l' with
    | nil => exact .inr nil_prefix
    | cons b l' =>
      obtain rfl : a = b := hinj a (mem_cons_self ..) b (mem_cons_self ..)
        (hhead a rfl b rfl)
      have hnext : ∀ c ∈ l.head?, ∀ d ∈ l'.head?, hash c = hash d := by
        intro c hc d hd
        rw [← (isChain_cons.mp hl).1 c hc, (isChain_cons.mp hl').1 d hd]
      have ih := ih (fun c hc d hd => hinj c (mem_cons_of_mem a hc) d
        (mem_cons_of_mem a hd)) (isChain_cons.mp hl).2 (isChain_cons.mp hl').2 hnext
      exact ih.imp (cons_prefix_cons.mpr ⟨rfl, ·⟩) (cons_prefix_cons.mpr ⟨rfl, ·⟩)

/-- **Backwards, a linked list is determined by its last hash.** -/
theorem Linked.suffix_or_suffix (h : Linked hash prev l) (h' : Linked hash prev l')
    (hinj : ∀ a ∈ l, ∀ b ∈ l', hash a = hash b → a = b)
    (hlast : ∀ a ∈ l.getLast?, ∀ b ∈ l'.getLast?, hash a = hash b) : l <:+ l' ∨ l' <:+ l := by
  have hends : l.reverse <+: l'.reverse ∨ l'.reverse <+: l.reverse := by
    refine isPrefix_or_isPrefix (fun a ha b hb => hinj a (mem_reverse.mp ha) b
      (mem_reverse.mp hb)) (isChain_reverse.mpr h) (isChain_reverse.mpr h') ?_
    simpa only [head?_reverse] using hlast
  exact hends.imp reverse_prefix.mp reverse_prefix.mp

theorem eq_of_suffix {R : α → α → Prop} (hl' : l'.IsChain R) (hs : l <:+ l') (hne : l ≠ [])
    (hfirst : ∀ a ∈ l.head?, ∀ p ∈ l', ¬R p a) : l = l' := by
  obtain ⟨before, rfl⟩ := hs
  cases hb : before.getLast? with
  | none => rw [getLast?_eq_none_iff.mp hb, nil_append]
  | some p =>
    obtain ⟨a, ha⟩ : ∃ a, a ∈ l.head? := ⟨_, head?_eq_some_head hne⟩
    have hpa := (isChain_append.mp hl').2.2 p hb a ha
    exact absurd hpa (hfirst a ha p (mem_append_left _ (mem_of_getLast? hb)))

end NexaRoute.HashChain
