import Mathlib.Data.Finset.Card
import Mathlib.Data.Nat.Digits.Defs
import NexaRoute.Go.Json
import NexaRoute.Go.Map
import NexaRoute.Machine

/-!
# Tool names for upstreams

`internal/translate/namemap.go`: an upstream accepts tool names of at most 64 (or 128) bytes out of
letters, digits, `_` and `-`. Any other name gets a new one, and the answers of the upstream are
translated back.

A name is any sequence of bytes here. The construction walks over the listed names and keeps the set
of names in use; a legal name is put into the set only when it is reached, so a name that is given
away earlier may be a legal name that comes later. That is the one way in which the map fails: two
names are then sent as one, and the answers cannot be told apart.

## Main results

* `tool_names_reversible_iff` — when names come back
-/

namespace NexaRoute.Translate

open Go Machine List Nat Option

/-! ### Names -/

/-- A tool name: any bytes. -/
abbrev Name := List UInt8

/-- The code points that upstreams accept. -/
def isSafeCode (n : ℕ) : Bool :=
  (97 ≤ n && n ≤ 122) || (65 ≤ n && n ≤ 90) || (48 ≤ n && n ≤ 57) || n == 95 || n == 45

def isSafeToolName (name : Name) : Bool := name.all (fun c => isSafeCode c.toNat) && !name.isEmpty

/-- ASCII text as bytes. -/
def ascii (l : List Char) : Name := l.map fun c => UInt8.ofNat c.toNat

/-- `fnv.New64a` over a text. -/
def fnv64a (s : Name) : UInt64 :=
  s.foldl (fun h b => (h ^^^ UInt64.ofNat b.toNat) * 1099511628211) 14695981039346656037

/-- `fmt.Sprintf("-%x", h.Sum64()&0xffffffff)`. -/
def hashTail (s : Name) : Name := ascii ('-' :: Nat.toDigits 16 ((fnv64a s).toNat % 2 ^ 32))

/-- `fmt.Sprintf("-%d", i)`. -/
def numberTail (i : ℕ) : Name := ascii ('-' :: Nat.toDigits 10 i)

/-- `truncateWithSuffix`. A suffix longer than the limit would make the slice bound negative; the
numbers of a search never get there. -/
def truncateWithSuffix (s : Name) (maxLen : ℕ) (suffix : Name) : Name :=
  if maxLen = 0 then s
  else if suffix.isEmpty then
    if s.length ≤ maxLen then s
    else if maxLen < (hashTail s).length + 1 then s.take maxLen
    else s.take (maxLen - (hashTail s).length) ++ hashTail s
  else
    (if maxLen < s.length + suffix.length then s.take (maxLen - suffix.length) else s) ++ suffix

/-- A rune of a name, or `_`. -/
def sanitizeRune (r : Char) : UInt8 := if isSafeCode r.toNat then UInt8.ofNat r.toNat else 95

def sanitizeToolName (name : Name) (maxLen : ℕ) : Name :=
  let out := (runes name).map sanitizeRune
  truncateWithSuffix (if out.isEmpty then ascii "tool".toList else out) maxLen []

/-! ### White space -/

/-- The encodings of the runes that are white space. -/
def spaces : List Name :=
  ([9, 10, 11, 12, 13, 32, 0x85, 0xA0, 0x1680, 0x2000, 0x2001, 0x2002, 0x2003, 0x2004, 0x2005,
    0x2006, 0x2007, 0x2008, 0x2009, 0x200A, 0x2028, 0x2029, 0x202F, 0x205F, 0x3000] : List ℕ).map
    fun n => bytes (String.singleton (Char.ofNat n))

/-- Take units off the front, as long as there is one. -/
def strip (units : List Name) : ℕ → Name → Name
  | 0, s => s
  | n + 1, s =>
    match units.find? fun u => u.isPrefixOf s with
    | some u => strip units n (s.drop u.length)
    | none => s

/-- `strings.TrimSpace` over bytes: a rune at either end is white space just when the bytes there
are the encoding of one. -/
def trimName (s : Name) : Name :=
  let s := strip spaces s.length s
  (strip (spaces.map List.reverse) s.length s.reverse).reverse

/-! ### The map -/

/-- The search for a name that is not in use: `s`, and then the numbered names from `i` on. -/
def firstFree {α : Type*} [DecidableEq α] (used : List α) (numbered : ℕ → α) :
    ℕ → ℕ → α → Option α
  | 0, _, _ => none
  | fuel + 1, i, s => if s ∈ used then firstFree used numbered fuel (i + 1) (numbered i) else some s

/-- The state of `newNameMap`. -/
structure Naming where
  used : List Name := []
  fwd : Map Name Name := ∅
  rev : Map Name Name := ∅

/-- The names that are left alone. -/
def Legal (maxLen : ℕ) (name : Name) : Prop := name.length ≤ maxLen ∧ isSafeToolName name = true

instance (maxLen : ℕ) (name : Name) : Decidable (Legal maxLen name) := by
  unfold Legal
  infer_instance

/-- The name a search gives to an original that is not legal. The search ends within the fuel:
`firstFree_isSome`. -/
def chosen (maxLen : ℕ) (used : List Name) (original : Name) : Option Name :=
  let base := sanitizeToolName original maxLen
  firstFree used (fun i => truncateWithSuffix base maxLen (numberTail i)) (used.length + 2) 2 base

def Naming.give (m : Naming) (original sanitized : Name) : Naming :=
  if sanitized = original then { m with used := sanitized :: m.used }
  else
    { used := sanitized :: m.used
      fwd := m.fwd.insert original sanitized
      rev := m.rev.insert sanitized original }

/-- One turn of the loop of `newNameMap`. -/
def Naming.step (maxLen : ℕ) (m : Naming) (original : Name) : Option Naming :=
  let original := trimName original
  if original = [] then some m
  else if Legal maxLen original then some { m with used := original :: m.used }
  else (chosen maxLen m.used original).map (m.give original)

structure NameMap where
  fwd : Map Name Name
  rev : Map Name Name

/-- `newNameMap`; the outer `none` would be a search that does not end. -/
def newNameMap (maxLen : ℕ) (names : List Name) : Option (Option NameMap) := do
  let m ← names.foldlM (Naming.step maxLen) {}
  return if m.fwd.len = 0 then none else some ⟨m.fwd, m.rev⟩

def newOpenAINameMap (names : List Name) : Option (Option NameMap) := newNameMap 64 names

def newAnthropicNameMap (names : List Name) : Option (Option NameMap) := newNameMap 128 names

def forward (m : Option NameMap) (name : Name) : Name :=
  match m with
  | none => name
  | some m => (m.fwd.lookup name).getD name

def reverse (m : Option NameMap) (name : Name) : Name :=
  match m with
  | none => name
  | some m => (m.rev.lookup name).getD name

/-- What a name map is for: the names stay apart, the upstream accepts them, answers are translated
back, and nothing is renamed without need. -/
structure Reversible (maxLen : ℕ) (names : List Name) (m : Option NameMap) : Prop where
  injective : ∀ a ∈ names, ∀ b ∈ names, forward m a = forward m b → a = b
  accepted : ∀ a ∈ names, (forward m a).length ≤ maxLen ∧ ∀ c ∈ forward m a, isSafeCode c.toNat
  restored : ∀ a ∈ names, reverse m (forward m a) = a
  unchanged : ∀ a ∈ names, Legal maxLen a → forward m a = a

/-! ### The search -/

section Search

variable {α : Type*} [DecidableEq α] {used : List α} {numbered : ℕ → α}

theorem firstFree_spec {fuel i : ℕ} {s r : α} (h : firstFree used numbered fuel i s = some r) :
    r ∉ used ∧ (r = s ∨ ∃ j, j < i + fuel ∧ r = numbered j) := by
  induction fuel generalizing i s with
  | zero => cases h
  | succ fuel ih =>
    rw [firstFree] at h
    split at h
    · obtain ⟨hr, htried⟩ := ih h
      refine ⟨hr, .inr ?_⟩
      rcases htried with rfl | ⟨j, hj, hrj⟩
      · exact ⟨i, by omega, rfl⟩
      · exact ⟨j, by omega, hrj⟩
    · next hs =>
      cases h
      exact ⟨hs, .inl rfl⟩

theorem numbered_mem_of_firstFree_eq_none {fuel i j : ℕ} {s : α}
    (h : firstFree used numbered fuel i s = none) (hj : j + 1 < fuel) : numbered (i + j) ∈ used := by
  induction fuel generalizing i j s with
  | zero => omega
  | succ fuel ih =>
    rw [firstFree] at h
    split at h
    · cases j with
      | zero =>
        obtain ⟨fuel, rfl⟩ : ∃ k, fuel = k + 1 := ⟨fuel - 1, by omega⟩
        rw [firstFree] at h
        split at h
        · next hmem => exact hmem
        · cases h
      | succ j =>
        have hmem := ih h (j := j) (by omega)
        rw [show i + (j + 1) = i + 1 + j by omega]
        exact hmem
    · cases h

/-- **The search ends**, when the numbered names are pairwise different: they are more than the names
in use. -/
theorem firstFree_isSome (hinj : Function.Injective numbered) (i : ℕ) (s : α) :
    ∃ r, firstFree used numbered (used.length + 2) i s = some r := by
  cases h : firstFree used numbered (used.length + 2) i s with
  | some r => exact ⟨r, rfl⟩
  | none =>
    have hsub : (range (used.length + 1)).map (fun j => numbered (i + j)) ⊆ used := by
      intro r hr
      obtain ⟨j, hj, rfl⟩ := mem_map.mp hr
      exact numbered_mem_of_firstFree_eq_none h (by have := mem_range.mp hj; omega)
    have hnodup : ((range (used.length + 1)).map fun j => numbered (i + j)).Nodup := by
      refine nodup_range.map fun j k hjk => ?_
      have := hinj hjk
      omega
    have hlen := (hnodup.subperm hsub).length_le
    rw [length_map, length_range] at hlen
    omega

end Search

/-! ### The names that are tried -/

theorem isSafeCode_digitChar : ∀ n < 16, isSafeCode (digitChar n).toNat = true := by decide

theorem isSafeCode_of_mem_toDigits {b n : ℕ} {c : Char} (hb : 1 < b) (hb' : b ≤ 16)
    (h : c ∈ toDigits b n) : isSafeCode c.toNat = true := by
  induction n using Nat.strongRecOn with
  | _ n ih =>
    by_cases hn : n < b
    · rw [toDigits_of_lt_base hn, mem_singleton] at h
      rw [h]
      exact isSafeCode_digitChar n (by omega)
    · rw [toDigits_of_base_le hb (by omega), mem_append, mem_singleton] at h
      rcases h with h | rfl
      · exact ih (n / b) (div_lt_self (by omega) hb) h
      · exact isSafeCode_digitChar _ (by have := mod_lt n (show 0 < b by omega); omega)

/-- Every byte is legal. -/
def Safe (s : Name) : Prop := ∀ c ∈ s, isSafeCode c.toNat = true

theorem isSafeToolName_iff (s : Name) : isSafeToolName s = true ↔ Safe s ∧ s ≠ [] := by
  simp [isSafeToolName, Safe]

theorem toNat_ofNat_of_safe {n : ℕ} (h : isSafeCode n = true) : (UInt8.ofNat n).toNat = n := by
  refine UInt8.toNat_ofNat_of_lt ?_
  simp only [isSafeCode, Bool.or_eq_true, Bool.and_eq_true, decide_eq_true_eq, beq_iff_eq] at h
  show n < 256
  omega

theorem Safe.append {s t : Name} (hs : Safe s) (ht : Safe t) : Safe (s ++ t) := by
  intro c hc
  rcases mem_append.mp hc with hc | hc
  · exact hs c hc
  · exact ht c hc

theorem Safe.take {s : Name} (hs : Safe s) (n : ℕ) : Safe (s.take n) :=
  fun c hc => hs c (mem_of_mem_take hc)

theorem safe_tail {b n : ℕ} (hb : 1 < b) (hb' : b ≤ 16) : Safe (ascii ('-' :: toDigits b n)) := by
  intro c hc
  obtain ⟨d, hd, rfl⟩ := mem_map.mp hc
  have hsafe : isSafeCode d.toNat = true := by
    rcases mem_cons.mp hd with rfl | hd
    · decide
    · exact isSafeCode_of_mem_toDigits hb hb' hd
  rw [toNat_ofNat_of_safe hsafe]
  exact hsafe

theorem Safe.truncateWithSuffix {s suffix : Name} (hs : Safe s) (hsuffix : Safe suffix) (maxLen : ℕ) :
    Safe (truncateWithSuffix s maxLen suffix) := by
  unfold Translate.truncateWithSuffix
  split_ifs
  · exact hs
  · exact hs
  · exact hs.take _
  · exact (hs.take _).append (safe_tail (by omega) (by omega))
  · exact (hs.take _).append hsuffix
  · exact hs.append hsuffix

variable {maxLen : ℕ}

theorem length_truncateWithSuffix {s suffix : Name} (hpos : 0 < maxLen)
    (hsuffix : suffix.length ≤ maxLen) : (truncateWithSuffix s maxLen suffix).length ≤ maxLen := by
  unfold truncateWithSuffix
  split_ifs with hzero hempty hshort htail hlong
  · omega
  · exact hshort
  · rw [length_take]
    omega
  · rw [length_append, length_take]
    omega
  · rw [length_append, length_take]
    omega
  · rw [length_append]
    omega

theorem safe_sanitizeToolName (name : Name) (maxLen : ℕ) : Safe (sanitizeToolName name maxLen) := by
  refine Safe.truncateWithSuffix ?_ (fun c hc => by cases hc) maxLen
  split
  · have hall : (ascii "tool".toList).all (fun c => isSafeCode c.toNat) = true := by decide
    exact all_eq_true.mp hall
  · intro c hc
    obtain ⟨r, -, rfl⟩ := mem_map.mp hc
    unfold sanitizeRune
    split
    · next hr =>
      rw [toNat_ofNat_of_safe hr]
      exact hr
    · decide

theorem length_sanitizeToolName {name : Name} (hpos : 0 < maxLen) :
    (sanitizeToolName name maxLen).length ≤ maxLen :=
  length_truncateWithSuffix hpos (zero_le _)

theorem ascii_toDigits (n : ℕ) : ascii (toDigits 10 n) = bytes (toString n) := by
  rw [toString_eq_ofList_toDigits, bytes_ofList_ascii]
  · rfl
  · intro c hc
    have hdigit := isDigit_of_mem_toDigits (by decide) (by decide) hc
    have hrange : 48 ≤ c.val ∧ c.val ≤ 57 := by simpa [Char.isDigit] using hdigit
    exact UInt32.le_trans hrange.2 (by decide)

theorem hyphen_notMem_digits (n : ℕ) : (45 : UInt8) ∉ ascii (toDigits 10 n) := by
  intro hmem
  obtain ⟨c, hc, hcode⟩ := mem_map.mp hmem
  have hsafe := isSafeCode_of_mem_toDigits (by decide) (by decide) hc
  have hcode' : c.toNat = 45 := by
    rw [← toNat_ofNat_of_safe hsafe, hcode]
    rfl
  have hdigit := isDigit_of_mem_toDigits (by decide) (by decide) hc
  have hrange : 48 ≤ c.val ∧ c.val ≤ 57 := by simpa [Char.isDigit] using hdigit
  have hle : 48 ≤ c.toNat := UInt32.le_iff_toNat_le.mp hrange.1
  omega

theorem numberTail_inj {x y : Name} {i j : ℕ} (h : x ++ numberTail i = y ++ numberTail j) :
    i = j := by
  have hrev : ∀ (z : Name) (k : ℕ), (z ++ numberTail k).reverse =
      (ascii (toDigits 10 k)).reverse ++ 45 :: z.reverse := by
    intro z k
    show (z ++ 45 :: ascii (toDigits 10 k)).reverse = _
    simp
  have hreverse := congrArg List.reverse h
  rw [hrev, hrev] at hreverse
  obtain ⟨hdigits, -⟩ := append_cons_inj (by simpa using hyphen_notMem_digits i)
    (by simpa using hyphen_notMem_digits j) hreverse
  rw [reverse_inj, ascii_toDigits, ascii_toDigits] at hdigits
  exact toString_nat_injective (bytes_injective hdigits)

theorem numbered_injective (base : Name) (hpos : 0 < maxLen) :
    Function.Injective fun i => truncateWithSuffix base maxLen (numberTail i) := by
  have hform : ∀ i, ∃ x, truncateWithSuffix base maxLen (numberTail i) = x ++ numberTail i := by
    intro i
    unfold truncateWithSuffix
    rw [if_neg (by omega), if_neg (by simp [numberTail, ascii])]
    exact ⟨_, rfl⟩
  intro i j hij
  obtain ⟨x, hx⟩ := hform i
  obtain ⟨y, hy⟩ := hform j
  exact numberTail_inj (hx.symm.trans (hij.trans hy))

/-- **What the search gives to an original**: a name that is not in use and that the upstream
accepts. -/
theorem chosen_spec {used : List Name} (hmax : 64 ≤ maxLen)
    (hused : used.length < 2 ^ 63) (original : Name) :
    ∃ s, chosen maxLen used original = some s ∧ s ∉ used ∧ s.length ≤ maxLen ∧ Safe s := by
  have hpos : 0 < maxLen := by omega
  obtain ⟨s, hs⟩ : ∃ s, chosen maxLen used original = some s :=
    firstFree_isSome (numbered_injective _ hpos) 2 _
  obtain ⟨hfree, htried⟩ := firstFree_spec hs
  refine ⟨s, hs, hfree, ?_⟩
  rcases htried with rfl | ⟨j, hj, rfl⟩
  · exact ⟨length_sanitizeToolName hpos, safe_sanitizeToolName original maxLen⟩
  · have hdigits : (toDigits 10 j).length ≤ 20 := toDigits_length 10 j 20 (by omega) (by omega)
    refine ⟨length_truncateWithSuffix hpos ?_,
      (safe_sanitizeToolName original maxLen).truncateWithSuffix (safe_tail (by omega) (by omega)) _⟩
    simp only [numberTail, ascii, length_map, length_cons]
    omega

/-! ### The loop -/

/-- What holds of the state when the names of `l` were reached. -/
structure Naming.Sound (maxLen : ℕ) (l : List Name) (m : Naming) : Prop where
  given : ∀ a b, m.fwd.lookup a = some b →
    a ∈ l ∧ ¬ Legal maxLen a ∧ b.length ≤ maxLen ∧ Safe b
  total : ∀ a ∈ l, ¬ Legal maxLen a → ∃ b, m.fwd.lookup a = some b
  back : ∀ a b, m.rev.lookup b = some a ↔ m.fwd.lookup a = some b
  used : ∀ u, u ∈ m.used ↔ u ∈ l ∧ Legal maxLen u ∨ ∃ a, m.fwd.lookup a = some u
  length : m.used.length ≤ l.length

/-- No legal name that was reached is given away. -/
def Naming.Clean (maxLen : ℕ) (l : List Name) (m : Naming) : Prop :=
  ∀ u ∈ l, Legal maxLen u → ∀ a, m.fwd.lookup a ≠ some u

/-- What a turn of the loop is asked: a legal name is not in use when it is reached. -/
def Naming.Allows (maxLen : ℕ) (m : Naming) (original : Name) : Prop :=
  Legal maxLen (trimName original) → trimName original ∉ m.used

/-- The state after a turn that ends. -/
def Naming.next (maxLen : ℕ) (m : Naming) (original : Name) : Naming :=
  (m.step maxLen original).getD m

namespace Naming

variable {maxLen : ℕ} {l : List Name} {m : Naming} {n s : Name}

theorem Sound.init : Sound maxLen [] {} where
  given := by
    intro a b h
    cases h
  total := by
    intro a ha
    cases ha
  back := by
    intro a b
    constructor <;> intro h <;> cases h
  used := by
    intro u
    constructor
    · intro h
      cases h
    · rintro (⟨h, -⟩ | ⟨a, h⟩)
      · cases h
      · cases h
  length := le_rfl

theorem Sound.keep (h : Sound maxLen l m) (hn : Legal maxLen n) :
    Sound maxLen (n :: l) { m with used := n :: m.used } where
  given := by
    intro a b hab
    obtain ⟨ha, hrest⟩ := h.given a b hab
    exact ⟨mem_cons_of_mem n ha, hrest⟩
  total := by
    intro a ha hillegal
    rcases mem_cons.mp ha with rfl | ha
    · exact absurd hn hillegal
    · exact h.total a ha hillegal
  back := h.back
  used := by
    intro u
    rw [mem_cons, mem_cons, h.used]
    constructor
    · rintro (rfl | ⟨hu, hlegal⟩ | hgiven)
      · exact .inl ⟨.inl rfl, hn⟩
      · exact .inl ⟨.inr hu, hlegal⟩
      · exact .inr hgiven
    · rintro (⟨rfl | hu, hlegal⟩ | hgiven)
      · exact .inl rfl
      · exact .inr (.inl ⟨hu, hlegal⟩)
      · exact .inr (.inr hgiven)
  length := succ_le_succ h.length

theorem Sound.give (h : Sound maxLen l m) (hl : n ∉ l) (hne : n ≠ []) (hn : ¬ Legal maxLen n)
    (hs : s ∉ m.used) (hlen : s.length ≤ maxLen) (hsafe : Safe s) :
    Sound maxLen (n :: l) (m.give n s) ∧
      ∀ a, (m.give n s).fwd.lookup a = if a = n then some s else m.fwd.lookup a := by
  have hdiff : s ≠ n := by
    rintro rfl
    exact hn ⟨hlen, (isSafeToolName_iff s).mpr ⟨hsafe, hne⟩⟩
  have hgive : m.give n s =
      ⟨s :: m.used, m.fwd.insert n s, m.rev.insert s n⟩ := if_neg hdiff
  -- neither the original nor its name was there before
  have hnew : m.fwd.lookup n = none := by
    by_contra hsome
    obtain ⟨b, hb⟩ := ne_none_iff_exists'.mp hsome
    exact hl (h.given n b hb).1
  have hfree : ∀ a, m.fwd.lookup a ≠ some s := fun a ha => hs ((h.used s).mpr (.inr ⟨a, ha⟩))
  rw [hgive]
  refine ⟨⟨?_, ?_, ?_, ?_, succ_le_succ h.length⟩, fun a => Map.lookup_insert ..⟩
  · intro a b hab
    rw [Map.lookup_insert] at hab
    split at hab
    · next ha =>
      cases hab
      subst ha
      exact ⟨mem_cons_self .., hn, hlen, hsafe⟩
    · obtain ⟨ha, hrest⟩ := h.given a b hab
      exact ⟨mem_cons_of_mem n ha, hrest⟩
  · intro a ha hillegal
    rw [Map.lookup_insert]
    split
    · exact ⟨s, rfl⟩
    · next hane =>
      exact h.total a ((mem_cons.mp ha).resolve_left hane) hillegal
  · intro a b
    rw [Map.lookup_insert, Map.lookup_insert]
    by_cases hb : b = s <;> by_cases ha : a = n
    · simp [hb, ha]
    · rw [if_pos hb, if_neg ha, hb]
      constructor
      · intro heq
        exact absurd (some.inj heq).symm ha
      · intro heq
        exact absurd heq (hfree a)
    · rw [if_neg hb, if_pos ha, ha, h.back, hnew]
      constructor
      · intro heq
        cases heq
      · intro heq
        exact absurd (some.inj heq).symm hb
    · rw [if_neg hb, if_neg ha]
      exact h.back a b
  · intro u
    rw [mem_cons, h.used]
    constructor
    · rintro (rfl | ⟨hu, hlegal⟩ | ⟨a, ha⟩)
      · exact .inr ⟨n, by rw [Map.lookup_insert, if_pos rfl]⟩
      · exact .inl ⟨mem_cons_of_mem n hu, hlegal⟩
      · refine .inr ⟨a, ?_⟩
        rw [Map.lookup_insert, if_neg, ha]
        rintro rfl
        rw [hnew] at ha
        cases ha
    · rintro (⟨hu, hlegal⟩ | ⟨a, ha⟩)
      · rcases mem_cons.mp hu with rfl | hu
        · exact absurd hlegal hn
        · exact .inr (.inl ⟨hu, hlegal⟩)
      · rw [Map.lookup_insert] at ha
        split at ha
        · exact .inl (some.inj ha).symm
        · exact .inr (.inr ⟨a, ha⟩)

/-- **One turn**: it ends, and it leaves no legal name given away just when there was none before and
the name it reaches is not. -/
theorem Sound.step (h : Sound maxLen l m) {original : Name} (hmax : 64 ≤ maxLen)
    (hlen : l.length < 2 ^ 63) (hl : trimName original ∉ l) (hne : trimName original ≠ []) :
    m.step maxLen original = some (m.next maxLen original) ∧
      Sound maxLen (trimName original :: l) (m.next maxLen original) ∧
      (Clean maxLen (trimName original :: l) (m.next maxLen original) ↔
        Clean maxLen l m ∧ m.Allows maxLen original) := by
  by_cases hn : Legal maxLen (trimName original)
  · have hstep : m.step maxLen original = some { m with used := trimName original :: m.used } := by
      rw [Naming.step, if_neg hne, if_pos hn]
    have hnext : m.next maxLen original = { m with used := trimName original :: m.used } := by
      rw [next, hstep]
      rfl
    rw [hnext]
    refine ⟨hstep, h.keep hn, ?_⟩
    constructor
    · intro hclean
      refine ⟨fun u hu => hclean u (mem_cons_of_mem _ hu), fun _ hmem => ?_⟩
      rcases (h.used _).mp hmem with ⟨hmem, -⟩ | ⟨a, ha⟩
      · exact hl hmem
      · exact hclean _ (mem_cons_self ..) hn a ha
    · rintro ⟨hclean, hallows⟩ u hu hlegal a ha
      rcases mem_cons.mp hu with rfl | hu
      · exact hallows hn ((h.used _).mpr (.inr ⟨a, ha⟩))
      · exact hclean u hu hlegal a ha
  · obtain ⟨s, hs, hfree, hslen, hsafe⟩ := chosen_spec hmax
      (lt_of_le_of_lt h.length hlen) (trimName original)
    have hstep : m.step maxLen original = some (m.give (trimName original) s) := by
      rw [Naming.step, if_neg hne, if_neg hn, hs]
      rfl
    have hnext : m.next maxLen original = m.give (trimName original) s := by
      rw [next, hstep]
      rfl
    obtain ⟨hsound, hlookup⟩ := h.give hl hne hn hfree hslen hsafe
    rw [hnext]
    refine ⟨hstep, hsound, ?_⟩
    constructor
    · intro hclean
      refine ⟨fun u hu hlegal a ha => ?_, fun hlegal => absurd hlegal hn⟩
      refine hclean u (mem_cons_of_mem _ hu) hlegal a ?_
      rw [hlookup, if_neg, ha]
      rintro rfl
      exact hl (h.given _ _ ha).1
    · rintro ⟨hclean, -⟩ u hu hlegal a ha
      rcases mem_cons.mp hu with rfl | hu
      · exact hn hlegal
      · rw [hlookup] at ha
        split at ha
        · -- the new name is not in use, and a legal name that was reached is
          cases ha
          exact hfree ((h.used s).mpr (.inl ⟨hu, hlegal⟩))
        · exact hclean u hu hlegal a ha

/-- **The loop.** -/
theorem Sound.run {names : List Name} (h : Sound maxLen l m) (hmax : 64 ≤ maxLen)
    (hlen : names.length + l.length < 2 ^ 63) (hnodup : (names.map trimName).Nodup)
    (hl : ∀ n ∈ names, trimName n ∉ l) (hne : ∀ n ∈ names, trimName n ≠ []) :
    ∃ m', names.foldlM (Naming.step maxLen) m = some m' ∧
      Sound maxLen ((names.map trimName).reverse ++ l) m' ∧
      (Clean maxLen ((names.map trimName).reverse ++ l) m' ↔
        Clean maxLen l m ∧ Guarded (Naming.next maxLen) (Naming.Allows maxLen) m names) := by
  induction names generalizing l m with
  | nil => exact ⟨m, rfl, h, (and_iff_left trivial).symm⟩
  | cons n names ih =>
    rw [map_cons, nodup_cons] at hnodup
    rw [length_cons] at hlen
    obtain ⟨hstep, hsound, hclean⟩ := h.step hmax (by omega) (hl n (mem_cons_self ..))
      (hne n (mem_cons_self ..))
    have hfresh : ∀ n' ∈ names, trimName n' ∉ trimName n :: l := by
      intro n' hn' hmem
      rcases mem_cons.mp hmem with heq | hmem
      · exact hnodup.1 (heq ▸ mem_map_of_mem hn')
      · exact hl n' (mem_cons_of_mem n hn') hmem
    obtain ⟨m', hrun, hsound', hclean'⟩ := ih hsound (by simpa using by omega) hnodup.2 hfresh
      fun n' hn' => hne n' (mem_cons_of_mem n hn')
    refine ⟨m', ?_, ?_, ?_⟩
    · rw [foldlM_cons, hstep]
      exact hrun
    · simpa using hsound'
    · rw [guarded_cons, ← and_assoc, ← hclean, ← hclean']
      simp

end Naming

/-! ### The map is reversible -/

/-- The map that the state at the end becomes. -/
def Naming.toMap (m : Naming) : Option NameMap :=
  if m.fwd.len = 0 then none else some ⟨m.fwd, m.rev⟩

namespace Naming

variable {maxLen : ℕ} {l : List Name} {m : Naming}

theorem Sound.forward_eq (h : Sound maxLen l m) (a : Name) :
    forward m.toMap a = (m.fwd.lookup a).getD a ∧ reverse m.toMap a = (m.rev.lookup a).getD a := by
  unfold toMap
  split
  · next hempty =>
    have hnone : ∀ b, m.fwd.lookup b = none := by
      intro b
      rw [AList.lookup_eq_none]
      intro hb
      rw [Map.len_eq_length_keys, length_eq_zero_iff] at hempty
      rw [AList.mem_keys, hempty] at hb
      cases hb
    have hnone' : m.rev.lookup a = none := by
      by_contra hsome
      obtain ⟨b, hb⟩ := ne_none_iff_exists'.mp hsome
      rw [h.back, hnone] at hb
      cases hb
    rw [hnone, hnone']
    exact ⟨rfl, rfl⟩
  · exact ⟨rfl, rfl⟩

theorem Sound.reversible (h : Sound maxLen l m) (hclean : Clean maxLen l m) :
    Reversible maxLen l m.toMap := by
  -- a legal name stays, any other is in the map
  have hcases : ∀ a ∈ l, Legal maxLen a ∧ forward m.toMap a = a ∨
      ∃ b, m.fwd.lookup a = some b ∧ forward m.toMap a = b := by
    intro a ha
    by_cases hlegal : Legal maxLen a
    · refine .inl ⟨hlegal, ?_⟩
      rw [(h.forward_eq a).1]
      cases hb : m.fwd.lookup a with
      | none => rfl
      | some b => exact absurd hlegal (h.given a b hb).2.1
    · obtain ⟨b, hb⟩ := h.total a ha hlegal
      refine .inr ⟨b, hb, ?_⟩
      rw [(h.forward_eq a).1, hb]
      rfl
  have hrestored : ∀ a ∈ l, reverse m.toMap (forward m.toMap a) = a := by
    intro a ha
    rcases hcases a ha with ⟨hlegal, hfwd⟩ | ⟨b, hb, hfwd⟩
    · rw [hfwd, (h.forward_eq a).2]
      cases hr : m.rev.lookup a with
      | none => rfl
      | some c => exact absurd ((h.back c a).mp hr) (hclean a ha hlegal c)
    · rw [hfwd, (h.forward_eq b).2, (h.back a b).mpr hb]
      rfl
  refine ⟨?_, ?_, hrestored, ?_⟩
  · intro a ha b hb heq
    rw [← hrestored a ha, heq, hrestored b hb]
  · intro a ha
    rcases hcases a ha with ⟨⟨hlen, hsafe⟩, hfwd⟩ | ⟨b, hb, hfwd⟩
    · rw [hfwd]
      exact ⟨hlen, ((isSafeToolName_iff a).mp hsafe).1⟩
    · rw [hfwd]
      exact (h.given a b hb).2.2
  · intro a ha hlegal
    rcases hcases a ha with ⟨-, hfwd⟩ | ⟨b, hb, -⟩
    · exact hfwd
    · exact absurd hlegal (h.given a b hb).2.1

theorem Sound.clean (h : Sound maxLen l m) (hrev : Reversible maxLen l m.toMap) :
    Clean maxLen l m := by
  intro u hu hlegal a ha
  have hkept := hrev.unchanged u hu hlegal
  have hgiven : forward m.toMap a = u := by
    rw [(h.forward_eq a).1, ha]
    rfl
  obtain ⟨hmem, hillegal, -⟩ := h.given a u ha
  have heq := hrev.injective a hmem u hu (hgiven.trans hkept.symm)
  exact hillegal (heq ▸ hlegal)

end Naming

/-- The construction of a map ends, and the map is reversible on the names exactly when no legal name
is in use before it is reached. A Go slice has fewer than `2 ^ 63` elements. -/
theorem newNameMap_reversible_iff {names : List Name} (hmax : 64 ≤ maxLen)
    (hlen : names.length < 2 ^ 63) (hnodup : (names.map trimName).Nodup)
    (hne : ∀ n ∈ names, trimName n ≠ []) :
    ∃ m, newNameMap maxLen names = some m ∧ (Reversible maxLen (names.map trimName) m ↔
      Guarded (Naming.next maxLen) (Naming.Allows maxLen) {} names) := by
  obtain ⟨m, hrun, hsound, hclean⟩ := Naming.Sound.init.run hmax hlen hnodup
    (fun n _ hn => by cases hn) hne
  rw [append_nil] at hsound hclean
  have hmap : newNameMap maxLen names = some m.toMap := by
    rw [newNameMap, hrun]
    rfl
  have hinit : Naming.Clean maxLen [] {} := fun u hu => by cases hu
  refine ⟨m.toMap, hmap, ?_⟩
  rw [and_iff_right hinit] at hclean
  rw [← hclean]
  -- the order of the names does not matter
  have hmem : ∀ {a}, a ∈ (names.map trimName).reverse ↔ a ∈ names.map trimName :=
    mem_reverse
  constructor
  · intro hrev
    refine hsound.clean ⟨?_, ?_, ?_, ?_⟩
    · exact fun a ha b hb => hrev.injective a (hmem.mp ha) b (hmem.mp hb)
    · exact fun a ha => hrev.accepted a (hmem.mp ha)
    · exact fun a ha => hrev.restored a (hmem.mp ha)
    · exact fun a ha => hrev.unchanged a (hmem.mp ha)
  · intro hc
    have hrev := hsound.reversible hc
    refine ⟨?_, ?_, ?_, ?_⟩
    · exact fun a ha b hb => hrev.injective a (hmem.mpr ha) b (hmem.mpr hb)
    · exact fun a ha => hrev.accepted a (hmem.mpr ha)
    · exact fun a ha => hrev.restored a (hmem.mpr ha)
    · exact fun a ha => hrev.unchanged a (hmem.mpr ha)

/-- **Tool names are mapped reversibly** for either kind of upstream, exactly when no legal name of
the list was given to another name before it is reached; and the construction always ends. -/
theorem tool_names_reversible_iff (names : List Name) (hlen : names.length < 2 ^ 63)
    (hnodup : (names.map trimName).Nodup) (hne : ∀ n ∈ names, trimName n ≠ []) :
    (∃ m, newOpenAINameMap names = some m ∧ (Reversible 64 (names.map trimName) m ↔
      Guarded (Naming.next 64) (Naming.Allows 64) {} names)) ∧
    ∃ m, newAnthropicNameMap names = some m ∧ (Reversible 128 (names.map trimName) m ↔
      Guarded (Naming.next 128) (Naming.Allows 128) {} names) :=
  ⟨newNameMap_reversible_iff (by omega) hlen hnodup hne,
    newNameMap_reversible_iff (by omega) hlen hnodup hne⟩

/-- The names `a_b` and `a.b`, in this order, are mapped reversibly: the second is sent as
`a_b-2`. -/
theorem tool_names_reversible_legal_first :
    ∃ m, newOpenAINameMap [bytes "a_b", bytes "a.b"] = some m ∧
      Reversible 64 ([bytes "a_b", bytes "a.b"].map trimName) m ∧
      forward m (bytes "a.b") = bytes "a_b-2" := by
  obtain ⟨⟨m, hm, hiff⟩, -⟩ := tool_names_reversible_iff [bytes "a_b", bytes "a.b"] (by decide)
    (by decide +kernel) (by decide +kernel)
  have hguard : Guarded (Naming.next 64) (Naming.Allows 64) {} [bytes "a_b", bytes "a.b"] := by
    refine ⟨?_, ?_, trivial⟩
    · intro _ hmem
      cases hmem
    · intro hlegal
      exact absurd hlegal (by decide +kernel)
  refine ⟨m, hm, hiff.mpr hguard, ?_⟩
  have hval : (newOpenAINameMap [bytes "a_b", bytes "a.b"]).map
      (fun m => forward m (bytes "a.b")) = some (bytes "a_b-2") := by decide +kernel
  rw [hm] at hval
  exact some.inj hval

/-- **Two names are sent as one**: `a.b` is sent as `a_b`, and so is `a_b`, which comes after it. -/
theorem later_legal_name_collides :
    ([bytes "a.b", bytes "a_b"].map trimName).Nodup ∧
    ∃ m, newOpenAINameMap [bytes "a.b", bytes "a_b"] = some m ∧
      forward m (bytes "a.b") = bytes "a_b" ∧ forward m (bytes "a_b") = bytes "a_b" ∧
      reverse m (forward m (bytes "a_b")) = bytes "a.b" ∧
      ¬ Reversible 64 ([bytes "a.b", bytes "a_b"].map trimName) m := by
  have hval : (newOpenAINameMap [bytes "a.b", bytes "a_b"]).map (fun m =>
      (forward m (bytes "a.b"), forward m (bytes "a_b"), reverse m (forward m (bytes "a_b")))) =
      some (bytes "a_b", bytes "a_b", bytes "a.b") := by decide +kernel
  obtain ⟨m, hm, hvals⟩ := map_eq_some_iff.mp hval
  obtain ⟨hfirst, hrest⟩ := Prod.mk.inj hvals
  obtain ⟨hsecond, hback⟩ := Prod.mk.inj hrest
  refine ⟨by decide +kernel, m, hm, hfirst, hsecond, hback, fun hrev => ?_⟩
  have heq : bytes "a.b" = bytes "a_b" := hrev.injective _ (by decide +kernel) _ (by decide +kernel)
    (hfirst.trans hsecond.symm)
  exact absurd heq (by decide +kernel)

end NexaRoute.Translate
