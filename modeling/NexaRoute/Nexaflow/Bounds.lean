import Mathlib.Algebra.Order.BigOperators.Group.List
import NexaRoute.Go.Marshal
import NexaRoute.Nexaflow.Schedule

/-!
# What a node may store and how long it may wait

Both bounds are checked on a value that is not the one used. `sanitizeNodeOutput` measures the keys
it keeps and adds its marker afterwards, and `runWait` measures a product that has wrapped.

## Main results

* `stored_output_le_iff` — when what is stored is within its bound
* `runWait_exact_iff` — when a wait is timed exactly
-/

namespace NexaRoute.Nexaflow

open Go

variable (host : Host)

/-! ### Stored output -/

/-- The bytes of what `json.Marshal` writes. -/
def encodedLen (doc : Json) : ℕ := ((Go.write doc).map Char.utf8Size).sum

/-- The host that measures what `json.Marshal` writes. -/
def Host.measured : Host := { host with jsonLen := encodedLen }

def memberLen (p : String × Json) : ℕ :=
  ((writeString p.1).map Char.utf8Size).sum + 1 + encodedLen p.2

/-- The length of an object counts its members, each with the comma or the brace behind it. -/
theorem encodedLen_obj (o : Obj) :
    encodedLen (.obj o) = max 2 (1 + (o.map fun p => memberLen p + 1).sum) := by
  have hmembers : ∀ o : Obj, ((writeMembers o).map Char.utf8Size).sum =
      1 + (o.map fun p => memberLen p + 1).sum := by
    intro o
    induction o with
    | nil => rfl
    | cons p o ih =>
      simp [writeMembers, memberLen, encodedLen, ih, Char.utf8Size]
      omega
  cases o with
  | nil => rfl
  | cons p o =>
    have hne : 1 + ((p :: o).map fun p => memberLen p + 1).sum ≥ 2 := by
      simp only [List.map_cons, List.sum_cons]
      omega
    rw [max_eq_right hne]
    simp [encodedLen, Go.write, hmembers, memberLen, Char.utf8Size]
    omega

theorem encodedLen_perm {o o' : Obj} (h : o.Perm o') :
    encodedLen (.obj o) = encodedLen (.obj o') := by
  rw [encodedLen_obj, encodedLen_obj, (h.map _).sum_eq]

theorem encodedLen_sublist {o o' : Obj} (h : o.Sublist o') :
    encodedLen (.obj o) ≤ encodedLen (.obj o') := by
  have hsum := (h.map fun p => memberLen p + 1).sum_le_sum (fun _ _ => Nat.zero_le _)
  rw [encodedLen_obj, encodedLen_obj]
  omega

/-- The members in the order of their keys. -/
def sortedMembers (o : Obj) : Obj := o.insertionSort (fun p q => p.1 ≤ q.1)

/-- The members fit the bound, and the marker fits beside them. -/
def Fits (o : Obj) : Prop := encodedLen (.obj o) ≤ maxStoredOutputBytes

def RoomForMarker (o : Obj) : Prop :=
  encodedLen (.obj (o.filter (·.1 != "_truncated"))) + 18 ≤ maxStoredOutputBytes

theorem lookup_of_mem {o : Obj} (hkeys : (o.map Prod.fst).Nodup) {p : String × Json} (hp : p ∈ o) :
    o.lookup p.1 = some p.2 := by
  obtain ⟨before, after, rfl⟩ := List.append_of_mem hp
  refine List.lookup_eq_some_iff.mpr ⟨before, after, rfl, fun q hq => ?_⟩
  rw [List.map_append, List.nodup_append] at hkeys
  simpa using (hkeys.2.2 q.1 (List.mem_map_of_mem hq) p.1 (by simp)).symm

theorem marked_le_iff (kept : Obj) :
    encodedLen (.obj (Obj.set kept.reverse "_truncated" (.bool true))) ≤ maxStoredOutputBytes ↔
      RoomForMarker kept := by
  have hperm : (kept.reverse.filter (·.1 != "_truncated")).Perm
      (kept.filter (·.1 != "_truncated")) := (List.reverse_perm _).filter _
  have hmarker : memberLen ("_truncated", .bool true) = 17 := by decide
  rw [RoomForMarker, Obj.set, encodedLen_perm (hperm.cons _), encodedLen_obj, encodedLen_obj]
  simp only [List.map_cons, List.sum_cons, hmarker, maxStoredOutputBytes]
  omega

/-- The loop keeps the longest prefix that fits. -/
theorem keepKeys_eq {cleaned : Obj} (hkeys : (cleaned.map Prod.fst).Nodup) (kept rest : Obj)
    (hrest : ∀ p ∈ rest, p ∈ cleaned) (hnodup : ((kept ++ rest).map Prod.fst).Nodup)
    (hfits : Fits kept) :
    ∃ longest, keepKeys host.measured cleaned (rest.map Prod.fst) kept.reverse = longest.reverse ∧
      longest <+: kept ++ rest ∧ Fits longest ∧
      ∀ q, q <+: kept ++ rest → Fits q → q <+: longest := by
  induction rest generalizing kept with
  | nil => exact ⟨kept, rfl, by simp, hfits, fun q hq _ => by simpa using hq⟩
  | cons p rest ih =>
    have hset : Obj.set kept.reverse p.1 ((cleaned.get? p.1).getD .null) = (kept ++ [p]).reverse := by
      have hnew : ∀ q ∈ kept.reverse, (q.1 != p.1) = true := by
        intro q hq
        rw [List.map_append, List.nodup_append] at hnodup
        simpa using hnodup.2.2 q.1 (List.mem_map_of_mem (List.mem_reverse.mp hq)) p.1 (by simp)
      rw [Obj.get?, lookup_of_mem hkeys (hrest p List.mem_cons_self), Obj.set,
        List.filter_eq_self.mpr hnew]
      simp
    have hlen : host.measured.jsonLen (.obj (kept ++ [p]).reverse) = encodedLen (.obj (kept ++ [p])) :=
      encodedLen_perm (List.reverse_perm _)
    have happend : kept ++ p :: rest = kept ++ [p] ++ rest := by simp
    rw [List.map_cons, keepKeys, hset, hlen]
    split_ifs with hlong
    · -- a prefix with this member in it does not fit
      refine ⟨kept, rfl, List.prefix_append _ _, hfits, fun q hq hqfits => ?_⟩
      rw [happend] at hq
      rcases List.prefix_or_prefix_of_prefix hq (List.prefix_append _ _) with hle | hge
      · rcases List.prefix_concat_iff.mp hle with rfl | hle
        · exact absurd hqfits (not_le.mpr hlong)
        · exact hle
      · exact absurd ((encodedLen_sublist hge.sublist).trans hqfits) (not_le.mpr hlong)
    · rw [happend] at hnodup ⊢
      exact ih (kept ++ [p]) (fun q hq => hrest q (List.mem_cons_of_mem _ hq)) hnodup (not_lt.mp hlong)

/-- **The stored output is within its bound** just when the redacted output is, or every prefix of
its members, in the order of their keys, that fits the bound leaves room for the marker. -/
theorem stored_output_le_iff (out : Obj) (hkeys : ((host.redactJSON out).map Prod.fst).Nodup) :
    encodedLen (.obj (sanitizeNodeOutput host.measured out).1) ≤ maxStoredOutputBytes ↔
      Fits (host.redactJSON out) ∨
        ∀ q, q <+: sortedMembers (host.redactJSON out) → Fits q → RoomForMarker q := by
  have hperm := List.perm_insertionSort (fun p q : String × Json => p.1 ≤ q.1) (host.redactJSON out)
  have hsort : ((host.redactJSON out).map Prod.fst).insertionSort (· ≤ ·) =
      (sortedMembers (host.redactJSON out)).map Prod.fst :=
    (List.map_insertionSort _ _ Prod.fst _ fun _ _ _ _ => Iff.rfl).symm
  obtain ⟨longest, hkeep, hprefix, hfits, hlongest⟩ := keepKeys_eq host hkeys []
    (sortedMembers (host.redactJSON out)) (fun p hp => hperm.mem_iff.mp hp)
    ((hperm.map _).nodup_iff.mpr hkeys) (show 2 ≤ 65536 by decide)
  rw [sanitizeNodeOutput]
  split_ifs with h
  · exact iff_of_true h (.inl h)
  · refine Iff.trans ?_ (or_iff_right h).symm
    show encodedLen (.obj (Obj.set (keepKeys host.measured (host.redactJSON out)
      (((host.redactJSON out).map Prod.fst).insertionSort (· ≤ ·)) []) _ _)) ≤ _ ↔ _
    rw [hsort]
    show encodedLen (.obj (Obj.set (keepKeys _ _ _ ([] : Obj).reverse) _ _)) ≤ _ ↔ _
    rw [hkeep, marked_le_iff]
    refine ⟨fun hroom q hq hqfits => ?_, fun hall => hall longest hprefix hfits⟩
    have hle := encodedLen_sublist ((hlongest q hq hqfits).sublist.filter (·.1 != "_truncated"))
    exact (Nat.add_le_add_right hle 18).trans hroom

/-- An object with one long key. Long texts are cut by the redaction. -/
def longKey (n : ℕ) : Json := .obj [(String.ofList (List.replicate n 'a'), .null)]

theorem encodedLen_longKey (n : ℕ) : encodedLen (longKey n) = n + 9 := by
  have hrune : writeRune 'a' = ['a'] := by decide
  have hnull : encodedLen .null = 4 := by decide
  rw [longKey, encodedLen_obj]
  simp [memberLen, hnull, writeString, List.flatMap_replicate, hrune, Char.utf8Size]
  omega

theorem memberLen_letter {k : String} (hk : k = "a" ∨ k = "b") (v : Json) :
    memberLen (k, v) = 4 + encodedLen v := by
  have hkey : ((writeString k).map Char.utf8Size).sum = 3 := by
    obtain rfl | rfl := hk <;> decide
  rw [memberLen, hkey]

/-- Of two long members the first is stored with the marker, and the second is cut off. -/
theorem second_member_cut :
    let out : Obj := [("a", longKey 40000), ("b", longKey 40000)]
    ¬Fits out ∧
      encodedLen (.obj (sanitizeNodeOutput plainHost.measured out).1) ≤ maxStoredOutputBytes := by
  have hlong := encodedLen_longKey 40000
  generalize longKey 40000 = long at hlong ⊢
  intro out
  have hboth : ¬Fits out := by
    simp [out, Fits, encodedLen_obj, memberLen_letter, hlong, maxStoredOutputBytes]
  have hsort : sortedMembers out = out := if_pos (show "a" ≤ "b" by decide)
  refine ⟨hboth, (stored_output_le_iff plainHost out (by simp [out, plainHost])).mpr (.inr ?_)⟩
  show ∀ q, q <+: sortedMembers out → _
  rw [hsort]
  intro q hq hfits
  simp only [out, List.prefix_cons_iff, List.prefix_nil] at hq
  obtain rfl | ⟨q, rfl, rfl | ⟨q, rfl, rfl⟩⟩ := hq
  · simp [RoomForMarker, encodedLen_obj, maxStoredOutputBytes]
  · simp [RoomForMarker, encodedLen_obj, memberLen_letter, hlong, maxStoredOutputBytes]
  · exact absurd hfits hboth

/-- A value that fills the bound to the byte is kept, and the marker added to it. -/
theorem marker_above_bound :
    encodedLen (.obj (sanitizeNodeOutput plainHost.measured
      [("a", longKey 65521), ("b", .null)]).1) = maxStoredOutputBytes + 18 := by
  have hlong := encodedLen_longKey 65521
  generalize longKey 65521 = long at hlong ⊢
  have hnull : encodedLen .null = 4 := by decide
  have hmarker : memberLen ("_truncated", .bool true) = 17 := by decide
  have hsort : ["a", "b"].insertionSort (· ≤ ·) = ["a", "b"] := by decide +kernel
  have hb : [("a", long), ("b", .null)].lookup "b" = some .null := rfl
  simp [sanitizeNodeOutput, keepKeys, Host.measured, plainHost, Obj.set, Obj.get?, encodedLen_obj,
    memberLen_letter, hlong, hnull, hmarker, hsort, hb, maxStoredOutputBytes]

/-! ### Waiting -/

def millisecond : Duration := 1000000

def waitRefused : NodeError :=
  newNodeError host "validation_error" false "duration_ms exceeds configured maximum"

/-- The `time.Duration` that `runWait` starts its timer with. `max_duration` is what
`time.ParseDuration` makes of it, `duration_ms` an integral number; a product of durations keeps
its low 64 bits. -/
def runWait (maxDuration : Option Duration) (durationMS : Option ℤ) : Except NodeError Duration :=
  let maxDur := maxDuration.getD 0
  if maxDur ≤ 0 then
    .error (newNodeError host "validation_error" false "max_duration must be a positive duration")
  else
    let durMS := durationMS.getD 0
    let wait := Int.bmod (durMS * millisecond) (2 ^ 64)
    if durMS < 0 ∨ maxDur < wait then .error (waitRefused host) else .ok wait

end NexaRoute.Nexaflow
