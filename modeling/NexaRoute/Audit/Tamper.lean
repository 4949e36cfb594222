import NexaRoute.Audit.Runs
import NexaRoute.HashChain

/-!
# Tamper evidence

With the metadata of a log intact, at most one list of chained records verifies, up to the order
it is stored in. The checks of consecutive records make a verified list a hash chain that ends at
the head; the check of the first record, against the anchor's sequence or against an empty link,
fixes where it begins. The hash is assumed to tell apart records that differ in what is hashed.

## Main results

* `verified_records_unique` — one list of chained records verifies
-/

namespace NexaRoute.Audit

open Go HashChain List

variable {H : Digest} {st st' : ChainState} {a b r : AuditEvent} {l : List AuditEvent}

/-- The canonical hash is injective on what it covers: everything but the stored hash. -/
def BindsContent (H : Digest) : Prop :=
  ∀ a b, canonicalAuditHash H a = canonicalAuditHash H b → a.content = b.content

/-- `b` passes the checks of a record right after the chained record `a`. -/
structure Succeeds (H : Digest) (a b : AuditEvent) : Prop where
  lt : a.seq < b.seq
  next : b.seq = a.seq + 1
  link : b.prevHash = a.hash
  intact : canonicalAuditHash H b = b.hash

/-- `r` passes the checks of a first record. -/
structure Begins (H : Digest) (anchor : ChainRef) (anchorState : RefState) (r : AuditEvent) :
    Prop where
  anchored : anchorState = .valid → r.prevHash = anchor.hash ∧ r.seq = anchor.seq + 1
  genesis : anchorState ≠ .valid → r.prevHash = ""
  intact : canonicalAuditHash H r = r.hash

theorem Passes.succeeds (h : Passes H a b) (ha : a.hash ≠ "") (hb : b.hash ≠ "") :
    Succeeds H a b := by
  obtain ⟨hnext, hintact, hlink⟩ := h.2 hb
  exact ⟨h.1, hnext ha, by rw [hlink, recordHash_chained H ha], hintact⟩

/-! ### What a verified chained log is -/

/-- The records of a chained log that verifies, in sequence order. -/
structure Authentic (H : Digest) (st : ChainState) (l : List AuditEvent) : Prop where
  chained : ∀ r ∈ l, r.hash ≠ ""
  chain : l.IsChain (Succeeds H)
  first : ∀ r ∈ l.head?, Begins H st.anchor st.anchorState r
  last : ∀ r ∈ l.getLast?, st.head.seq = r.seq ∧ st.head.hash = r.hash
  emptied : l = [] → st.anchorState = .valid ∧ st.head = st.anchor

theorem authentic_of_verified (hhead : st.headState = .valid) (hc : ∀ r ∈ l, r.hash ≠ "")
    (hv : (verifyChainState H { st with records := l }).verified = true) :
    Authentic H st (l.insertionSort bySeq) := by
  obtain ⟨hcons, hgap⟩ := verified_iff.mp hv
  have hc' : ∀ r ∈ l.insertionSort bySeq, r.hash ≠ "" := fun r hr =>
    hc r ((mem_insertionSort bySeq).mp hr)
  have hnogap : ¬AnchorGap { st with records := l } := by
    intro hg
    obtain ⟨r, hr, hlegacy⟩ := hgap hg
    exact hc' r hr hlegacy
  refine ⟨hc', hcons.linked.imp_of_mem_imp fun a b ha hb hab => hab.succeeds (hc' a ha) (hc' b hb),
    fun r hr => ?_, fun r hr => ?_, hcons.headEmptied hhead⟩
  · have hr' := hc' r (mem_of_mem_head? hr)
    obtain ⟨hintact, hprev⟩ := hcons.first r hr hr'
    refine ⟨fun hva => ⟨by rw [hprev, if_pos hva], ?_⟩, fun hva => by rw [hprev, if_neg hva],
      hintact⟩
    by_contra hne
    exact hnogap ⟨hva, r, hr, hr', hne⟩
  · have hlast : st.head = r.ref H := hcons.headLast hhead r hr
    rw [hlast, AuditEvent.ref, recordHash_chained H (hc' r (mem_of_getLast? hr))]
    exact ⟨rfl, rfl⟩

namespace Authentic

variable {l l' : List AuditEvent}

theorem intact (h : Authentic H st l) (hr : r ∈ l) : canonicalAuditHash H r = r.hash := by
  obtain ⟨s, t, rfl⟩ := append_of_mem hr
  cases hs : s.getLast? with
  | none =>
    rw [getLast?_eq_none_iff.mp hs] at h
    exact (h.first r rfl).intact
  | some p => exact ((isChain_append.mp h.chain).2.2 p hs r rfl).intact

theorem linked (h : Authentic H st l) : Linked AuditEvent.hash AuditEvent.prevHash l :=
  h.chain.imp fun _ _ hab => hab.link

theorem pairwise (h : Authentic H st l) : l.Pairwise SeqLt :=
  isChain_iff_pairwise.mp (h.chain.imp fun _ _ hab => hab.lt)

theorem first_le (h : Authentic H st l) (ha : a ∈ l.head?) (hr : r ∈ l) : a.seq ≤ r.seq := by
  obtain ⟨rest, rfl⟩ := head?_eq_some_iff.mp ha
  rcases mem_cons.mp hr with rfl | hr
  · exact UInt64.le_refl _
  · exact UInt64.le_of_lt (rel_of_pairwise_cons h.pairwise hr)

theorem eq_of_hash (hH : BindsContent H) (h : Authentic H st l) (h' : Authentic H st l')
    (ha : a ∈ l) (hb : b ∈ l') (hab : a.hash = b.hash) : a = b := by
  have hcontent : a.content = b.content := by
    refine hH a b ?_
    rw [h.intact ha, h'.intact hb, hab]
  calc a = { a.content with hash := a.hash } := rfl
    _ = { b.content with hash := b.hash } := by rw [hcontent, hab]
    _ = b := rfl

theorem not_succeeds_first (h : Authentic H st l) (h' : Authentic H st l') (hne : l' ≠ [])
    (ha : a ∈ l.head?) (hp : r ∈ l') : ¬Succeeds H r a := by
  intro hs
  obtain ⟨f, hf⟩ : ∃ f, f ∈ l'.head? := ⟨_, head?_eq_some_head hne⟩
  by_cases hv : st.anchorState = .valid
  · -- both lists begin right after the anchor, so nothing of the other is before `a`
    have hfirst : f.seq = a.seq := by
      rw [((h'.first f hf).anchored hv).2, ((h.first a ha).anchored hv).2]
    have hle := h'.first_le hf hp
    rw [hfirst] at hle
    exact absurd hs.lt (UInt64.not_lt.mpr hle)
  · refine h'.chained r hp ?_
    rw [← hs.link, (h.first a ha).genesis hv]

theorem eq_of_suffix (h : Authentic H st l) (h' : Authentic H st l') (hne : l ≠ [])
    (hs : l <:+ l') : l = l' := by
  have hne' : l' ≠ [] := by
    rintro rfl
    exact hne (suffix_nil.mp hs)
  exact HashChain.eq_of_suffix h'.chain hs hne fun a ha p hp =>
    h.not_succeeds_first h' hne' ha hp

theorem length_eq (h : l.IsChain (Succeeds H)) (ha : a ∈ l.head?) (hb : b ∈ l.getLast?) :
    b.seq.toNat + 1 = a.seq.toNat + l.length := by
  induction l generalizing a with
  | nil => cases ha
  | cons c l ih =>
    obtain rfl : c = a := Option.some.inj ha
    cases l with
    | nil =>
      obtain rfl : c = b := Option.some.inj hb
      rfl
    | cons d l =>
      obtain ⟨hcd, hrest⟩ := isChain_cons_cons.mp h
      have hlt := UInt64.lt_iff_toNat_lt.mp hcd.lt
      have hnext := congrArg UInt64.toNat hcd.next
      have h1 : (1 : UInt64).toNat = 1 := rfl
      have hbound := d.seq.toNat_lt
      rw [UInt64.toNat_add, h1] at hnext
      have := ih hrest rfl hb
      simp only [length_cons] at this ⊢
      omega

theorem eq_nil_of_emptied (h : Authentic H st l) (hlen : l.length < 2 ^ 64)
    (hv : st.anchorState = .valid) (hh : st.head = st.anchor) : l = [] := by
  by_contra hne
  obtain ⟨f, hf⟩ : ∃ f, f ∈ l.head? := ⟨_, head?_eq_some_head hne⟩
  obtain ⟨e, he⟩ : ∃ e, e ∈ l.getLast? := ⟨_, getLast?_eq_some_getLast hne⟩
  have hfirst := congrArg UInt64.toNat ((h.first f hf).anchored hv).2
  have hlast := (h.last e he).1
  have h1 : (1 : UInt64).toNat = 1 := rfl
  have hcount := length_eq h.chain hf he
  have hbound := e.seq.toNat_lt
  have hpos := length_pos_iff.mpr hne
  rw [← hh, hlast, UInt64.toNat_add, h1] at hfirst
  omega

theorem unique (h : Authentic H st l) (hH : BindsContent H) (h' : Authentic H st l')
    (hlen : l.length < 2 ^ 64) (hlen' : l'.length < 2 ^ 64) : l = l' := by
  by_cases hnil : l = []
  · obtain ⟨hv, hh⟩ := h.emptied hnil
    rw [hnil, h'.eq_nil_of_emptied hlen' hv hh]
  by_cases hnil' : l' = []
  · obtain ⟨hv, hh⟩ := h'.emptied hnil'
    rw [hnil', h.eq_nil_of_emptied hlen hv hh]
  have hlast : ∀ a ∈ l.getLast?, ∀ b ∈ l'.getLast?, a.hash = b.hash := by
    intro a ha b hb
    rw [← (h.last a ha).2, ← (h'.last b hb).2]
  rcases h.linked.suffix_or_suffix h'.linked (fun a ha b hb => eq_of_hash hH h h' ha hb) hlast
    with hs | hs
  · exact h.eq_of_suffix h' hnil hs
  · exact (h'.eq_of_suffix h hnil' hs).symm

end Authentic

/-- **Tamper evidence.** With a valid head, an anchor and an allocator fixed, two lists of chained
records that both verify hold the same records. The lengths are those of slices, which an `int`
counts. -/
theorem verified_records_unique (hH : BindsContent H) (hhead : st.headState = .valid)
    {l l' : List AuditEvent} (hc : ∀ r ∈ l, r.hash ≠ "") (hc' : ∀ r ∈ l', r.hash ≠ "")
    (hlen : l.length < 2 ^ 63) (hlen' : l'.length < 2 ^ 63)
    (hv : (verifyChainState H { st with records := l }).verified = true)
    (hv' : (verifyChainState H { st with records := l' }).verified = true) : l.Perm l' := by
  have h := authentic_of_verified hhead hc hv
  have h' := authentic_of_verified hhead hc' hv'
  have hsorted : l.insertionSort bySeq = l'.insertionSort bySeq := by
    refine h.unique hH h' ?_ ?_
    · rw [length_insertionSort]; omega
    · rw [length_insertionSort]; omega
  exact (perm_insertionSort bySeq l).symm.trans
    (hsorted ▸ perm_insertionSort bySeq l')

/-- A digest that keeps the message: the hash of a record is then its text. -/
def textDigest : Digest := ⟨fun m => 1 :: m, fun _ => List.cons_ne_nil _ _⟩

theorem bindsContent_textDigest : BindsContent textDigest :=
  fun _ _ => canonicalAuditHash_injective cons_injective

/-- Records of one event, each linked to the one before. -/
def firstLogin : AuditEvent := newRecord textDigest loginEvent 0 ""

def secondLogin : AuditEvent := newRecord textDigest loginEvent 1 firstLogin.hash

def thirdLogin : AuditEvent := newRecord textDigest loginEvent 2 secondLogin.hash

/-- The metadata of a log whose first record is pruned. -/
def prunedMeta : ChainState :=
  ⟨[], ⟨3, thirdLogin.hash⟩, .valid, ⟨1, firstLogin.hash⟩, .valid, 3⟩

theorem chained_logins : ∀ r ∈ [secondLogin, thirdLogin], r.hash ≠ "" := by
  simp [secondLogin, thirdLogin, newRecord, canonicalAuditHash_ne_empty]

theorem canonicalAuditHash_newRecord (ev : AuditEvent) (allocator : UInt64) (headHash : String) :
    canonicalAuditHash H (newRecord H ev allocator headHash) =
      (newRecord H ev allocator headHash).hash := rfl

theorem prunedMeta_verified (hl : l.insertionSort bySeq = [secondLogin, thirdLogin]) :
    (verifyChainState textDigest { prunedMeta with records := l }).verified = true := by
  have hsecond : secondLogin.hash ≠ "" := chained_logins _ (by simp)
  have hthird : thirdLogin.hash ≠ "" := chained_logins _ (by simp)
  have hsorted : ChainState.sorted { prunedMeta with records := l } = [secondLogin, thirdLogin] := hl
  have hpasses : Passes textDigest secondLogin thirdLogin :=
    ⟨show (2 : UInt64) < 3 by decide, fun _ => ⟨fun _ => rfl, canonicalAuditHash_newRecord _ _ _,
      (recordHash_chained _ hsecond _).symm⟩⟩
  refine verified_iff.mpr ⟨⟨nofun, ?_, ?_, nofun, ?_, ?_, nofun, ?_, ?_, ?_, ?_⟩, ?_⟩
  · rw [hsorted]
    exact .cons_cons hpasses (.singleton _)
  · rw [hsorted]
    rintro r ⟨⟩ _
    exact ⟨canonicalAuditHash_newRecord _ _ _, rfl⟩
  · rw [hsorted]
    rintro _ r ⟨⟩
    exact congrArg (ChainRef.mk 3) (recordHash_chained _ hthird _).symm
  · rw [hsorted]
    exact nofun
  · rw [hsorted]
    rintro r ⟨⟩
    exact show (3 : UInt64) ≤ 3 by decide
  · exact fun _ => show (1 : UInt64) ≤ 3 by decide
  · exact fun _ => show (3 : UInt64) ≤ 3 by decide
  · exact fun _ _ => rfl
  · rintro ⟨-, r, hr, -, hgap⟩
    rw [hsorted] at hr
    obtain rfl := Option.some.inj hr
    exact absurd rfl hgap

/-- The two records behind the anchor verify in either order. -/
theorem prunedLogins_unique :
    (verifyChainState textDigest
        { prunedMeta with records := [secondLogin, thirdLogin] }).verified = true ∧
      (verifyChainState textDigest
        { prunedMeta with records := [thirdLogin, secondLogin] }).verified = true ∧
      [secondLogin, thirdLogin].Perm [thirdLogin, secondLogin] := by
  have hv := prunedMeta_verified (l := [secondLogin, thirdLogin]) rfl
  have hv' := prunedMeta_verified (l := [thirdLogin, secondLogin]) rfl
  have hc : ∀ r ∈ [thirdLogin, secondLogin], r.hash ≠ "" := fun r hr =>
    chained_logins r (by simpa [or_comm] using hr)
  exact ⟨hv, hv', verified_records_unique bindsContent_textDigest rfl chained_logins hc (by decide)
    (by decide) hv hv'⟩

end NexaRoute.Audit
