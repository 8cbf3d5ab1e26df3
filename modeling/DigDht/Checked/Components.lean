/-
DigDht.Checked.Components — the routing table, the lookup and the
provider store with the panics of their arithmetic.

The other modules compute in `Nat` and index by `Fin 256`. Here every
index, subtraction, product and sum of `src/routing.rs`, `src/lookup.rs`
and `src/provider_store.rs` is the operation of the machine: 64-bit words
with overflow checks (`Cargo.toml` keeps them on in release), `none` where
it panics. What has no such operation is taken over as it is, and so are
the sorts by distance: `Key::distance` never panics
(`Key.distanceChecked_eq`).

Each function comes with the lemma that says when it is the function of
the other modules: always, or in a table with `k ≥ 1`, or with `3 * k` and
`k + 2 * alpha` in range, or with a count in range.
-/
import Mathlib.Algebra.Order.BigOperators.Group.List
import DigDht.Keyspace.MetricTheorems
import DigDht.Lib.Checked
import DigDht.Lookup.IterativeFind
import DigDht.Routing.RoutingTableTheorems
import DigDht.Store.ProviderStoreTheorems

namespace DigDht

open Checked

/-! ## §1 Distances and the bucket index -/

namespace Keyspace

/-- `distance`. -/
def Key.distanceChecked (a b : Key) : Option Distance := do
  let out ← List.Vector.mOfFn fun i : Fin 32 => do
    let x ← a.bytes.toList[i.val]?
    let y ← b.bytes.toList[i.val]?
    some (x ^^^ y)
  some ⟨out⟩

theorem Key.distanceChecked_eq (a b : Key) : a.distanceChecked b = some (a.distance b) := by
  rw [distanceChecked, mOfFn_eq_some (v := (a.distance b).bytes)]
  · rfl
  · intro i
    simp only [getElem?_toList, Option.bind_eq_bind, Option.bind_some, distance,
      List.Vector.zipWith_get]

namespace Distance

def bucketIndexCheckedFrom : Nat → List UInt8 → Option (Option Nat)
  | _, [] => some none
  | i, byte :: rest =>
    if byte ≠ 0 then do
      let bits ← mul i 8
      let leadingZeroBits ← add bits (leadingZeros byte)
      let idx ← sub 255 leadingZeroBits
      some (some idx)
    else
      bucketIndexCheckedFrom (i + 1) rest

/-- `bucket_index`. -/
def bucketIndexChecked (d : Distance) : Option (Option Nat) :=
  bucketIndexCheckedFrom 0 d.bytes.toList

theorem bucketIndexCheckedFrom_eq {i : Nat} {bytes : List UInt8} (hlen : i + bytes.length = 32) :
    bucketIndexCheckedFrom i bytes = some ((bucketIndexFrom i bytes).map Fin.val) := by
  induction bytes generalizing i with
  | nil => rfl
  | cons byte rest ih =>
    rw [List.length_cons] at hlen
    unfold bucketIndexCheckedFrom bucketIndexFrom
    by_cases hzero : byte = 0
    · simp only [hzero, ne_eq, not_true_eq_false, if_false]
      exact ih (by omega)
    · have hlog := log2_toNat_le byte
      have hzeros : leadingZeros byte ≤ 7 := by
        simp only [leadingZeros, hzero, if_false]
        omega
      have hbits : mul i 8 = some (i * 8) := mul_eq_some (by unfold wordLimit; omega)
      have hsum : add (i * 8) (leadingZeros byte) = some (i * 8 + leadingZeros byte) :=
        add_eq_some (by unfold wordLimit; omega)
      have hsub : sub 255 (i * 8 + leadingZeros byte) =
          some (255 - (i * 8 + leadingZeros byte)) := sub_eq_some (by omega)
      simp [hzero, hbits, hsum, hsub]

theorem bucketIndexChecked_eq (d : Distance) :
    d.bucketIndexChecked = some (d.bucketIndex.map Fin.val) :=
  bucketIndexCheckedFrom_eq (by simp)

end Distance

end Keyspace

/-! ## §2 The routing table -/

namespace Routing

open Keyspace

namespace KBucket

def offerChecked (b : KBucket) (contact : Contact) : Option (KBucket × InsertOutcome) :=
  match b.contacts.findIdx? fun c => c.peerId == contact.peerId with
  | some pos => do
    let rest ← removeAt b.contacts pos
    some ({ b with contacts := rest ++ [contact] }, .inserted)
  | none =>
    if b.contacts.length < b.capacity then
      some ({ b with contacts := b.contacts ++ [contact] }, .inserted)
    else do
      let lru ← b.contacts[0]?
      some (b, .full lru)

def replaceChecked (b : KBucket) (lruPeerId : String) (candidate : Contact) :
    Option (KBucket × Bool) :=
  match b.contacts.head? with
  | some front =>
    if front.peerId = lruPeerId then do
      let rest ← removeAt b.contacts 0
      some ({ b with contacts := rest ++ [candidate] }, true)
    else some (b, false)
  | none => some (b, false)

def removeChecked (b : KBucket) (peerId : String) : Option (KBucket × Bool) :=
  match b.contacts.findIdx? fun c => c.peerId == peerId with
  | some pos => do
    let rest ← removeAt b.contacts pos
    some ({ b with contacts := rest }, true)
  | none => some (b, false)

/-- A position that was searched for is there to remove. -/
theorem removeAt_findIdx {b : KBucket} {peerId : String} {pos : Nat}
    (h : b.contacts.findIdx? (fun c => c.peerId == peerId) = some pos) :
    removeAt b.contacts pos = some (b.without peerId) := by
  obtain ⟨hlt, -, -⟩ := List.findIdx?_eq_some_iff_getElem.mp h
  rw [removeAt_eq_some hlt, without, List.eraseP_eq_eraseIdx, h]

theorem holds_iff_findIdx {b : KBucket} {peerId : String} :
    b.holds peerId = (b.contacts.findIdx? fun c => c.peerId == peerId).isSome := by
  rw [holds, List.findIdx?_isSome]

/-- The one panic of an offer is the index into an empty full bucket. -/
theorem offerChecked_eq (b : KBucket) (contact : Contact) :
    b.offerChecked contact =
      if (b.offer contact).2 = .panicked then none else some (b.offer contact) := by
  unfold offerChecked offer
  cases hpos : b.contacts.findIdx? fun c => c.peerId == contact.peerId with
  | some pos =>
    have hholds : b.holds contact.peerId = true := by rw [holds_iff_findIdx, hpos]; rfl
    simp [hholds, removeAt_findIdx hpos]
  | none =>
    have hholds : b.holds contact.peerId = false := by rw [holds_iff_findIdx, hpos]; rfl
    by_cases hroom : b.contacts.length < b.capacity
    · simp [hholds, hroom]
    · simp only [hholds, Bool.false_eq_true, if_false, if_neg hroom]
      cases b.contacts <;> simp

theorem replaceChecked_eq (b : KBucket) (lruPeerId : String) (candidate : Contact) :
    b.replaceChecked lruPeerId candidate = some (b.replace lruPeerId candidate) := by
  unfold replaceChecked replace
  cases hcontacts : b.contacts with
  | nil => rfl
  | cons front rest =>
    simp only [List.head?_cons, removeAt_eq_some (show 0 < (front :: rest).length by simp)]
    split <;> rfl

theorem removeChecked_eq (b : KBucket) (peerId : String) :
    b.removeChecked peerId = some (b.remove peerId) := by
  unfold removeChecked remove
  cases hpos : b.contacts.findIdx? fun c => c.peerId == peerId with
  | some pos =>
    have hholds : b.holds peerId = true := by rw [holds_iff_findIdx, hpos]; rfl
    simp [hholds, removeAt_findIdx hpos]
  | none =>
    have hholds : b.holds peerId = false := by rw [holds_iff_findIdx, hpos]; rfl
    simp [hholds]

end KBucket

namespace RoutingTable

/-- `self.buckets[idx]`, of 256 buckets. -/
def bucketAt (idx : Nat) : Option (Fin 256) :=
  if h : idx < 256 then some ⟨idx, h⟩ else none

/-- What `insert`, `replace` and `remove` share: nothing to do without a
key or a bucket, else an operation on the key's bucket. -/
def atBucketChecked {β : Type} (t : RoutingTable) (key : Option Key) (absent : β)
    (op : KBucket → Option (KBucket × β)) : Option (RoutingTable × β) :=
  match key with
  | none => some (t, absent)
  | some key => do
    let distance ← t.localKey.distanceChecked key
    match ← distance.bucketIndexChecked with
    | none => some (t, absent)
    | some idx => do
      let i ← bucketAt idx
      let (b, result) ← op (t.bucket i)
      some (t.setBucket i b, result)

theorem atBucketChecked_eq {β : Type} (t : RoutingTable) (key : Option Key) (absent : β)
    (op : KBucket → Option (KBucket × β)) :
    t.atBucketChecked key absent op =
      match key.bind t.bucketFor with
      | none => some (t, absent)
      | some i => (op (t.bucket i)).map fun x => (t.setBucket i x.1, x.2) := by
  cases key with
  | none => rfl
  | some key =>
    simp only [atBucketChecked, Key.distanceChecked_eq, Distance.bucketIndexChecked_eq,
      Option.bind_some, bucketFor, Option.bind_eq_bind]
    cases (t.localKey.distance key).bucketIndex with
    | none => rfl
    | some i =>
      simp only [Option.map_some, bucketAt, i.isLt, dite_true, Option.bind_some]
      cases op (t.bucket i) <;> rfl

variable [Deps]

def insertChecked (t : RoutingTable) (contact : Contact) : Option (RoutingTable × InsertOutcome) :=
  t.atBucketChecked contact.key .inserted fun b => b.offerChecked contact

def replaceChecked (t : RoutingTable) (lru candidate : Contact) : Option (RoutingTable × Bool) :=
  t.atBucketChecked candidate.key false fun b => b.replaceChecked lru.peerId candidate

def removeChecked (t : RoutingTable) (peerId : String) : Option (RoutingTable × Bool) :=
  t.atBucketChecked ((Deps.fromHex peerId).map Key.fromPeerId) false fun b =>
    b.removeChecked peerId

omit [Deps] in
def lenChecked (t : RoutingTable) : Option Nat :=
  sum (t.buckets.toList.map fun b => b.contacts.length)

theorem insertChecked_eq (t : RoutingTable) (contact : Contact) :
    t.insertChecked contact =
      if (t.insert contact).2 = .panicked then none else some (t.insert contact) := by
  unfold insertChecked insert
  rw [atBucketChecked_eq, show contact.key.bind t.bucketFor = t.bucketOf contact from rfl]
  cases t.bucketOf contact with
  | none => rfl
  | some i =>
    simp only [KBucket.offerChecked_eq]
    by_cases hpanic : ((t.bucket i).offer contact).2 = .panicked <;> simp [hpanic]

/-- With room for one contact in every bucket, an insert does not panic. -/
theorem insertChecked_eq_some {localId : PeerId} {k : Nat} {t : RoutingTable}
    (ht : WellPlaced localId k t) (hk : 1 ≤ k) (contact : Contact) :
    t.insertChecked contact = some (t.insert contact) := by
  rw [insertChecked_eq, if_neg (insert_ne_panicked hk ht contact)]

theorem replaceChecked_eq (t : RoutingTable) (lru candidate : Contact) :
    t.replaceChecked lru candidate = some (t.replace lru candidate) := by
  unfold replaceChecked replace
  rw [atBucketChecked_eq, show candidate.key.bind t.bucketFor = t.bucketOf candidate from rfl]
  cases t.bucketOf candidate with
  | none => rfl
  | some i => simp only [KBucket.replaceChecked_eq, Option.map_some]

theorem removeChecked_eq (t : RoutingTable) (peerId : String) :
    t.removeChecked peerId = some (t.remove peerId) := by
  unfold removeChecked remove
  rw [atBucketChecked_eq, Option.bind_map]
  simp only [Function.comp_def]
  cases (Deps.fromHex peerId).bind fun p => t.bucketFor (Key.fromPeerId p) with
  | none => rfl
  | some i => simp only [KBucket.removeChecked_eq, Option.map_some]

omit [Deps] in
theorem lenChecked_eq_some {t : RoutingTable} (h : t.len < wordLimit) :
    t.lenChecked = some t.len :=
  sum_eq_some h

end RoutingTable

end Routing

/-! ## §3 The lookup -/

namespace Lookup

open Routing BoundedLoop Selection

namespace LookupParams

variable (p : LookupParams)

/-- `3 * k` and `k + 2 * alpha` are 64-bit words. -/
structure CapFits : Prop where
  returned : p.k * 3 < wordLimit
  probes : p.k + p.alpha * 2 < wordLimit

/-- `(k * 3).max(k + alpha * 2)`. -/
def shortlistCapChecked : Option Nat := do
  let returned ← mul p.k 3
  let probes ← mul p.alpha 2
  let headroom ← add p.k probes
  some (max returned headroom)

/-- `sort_and_cap`. -/
def sortAndCapChecked (shortlist : List ShortlistEntry) : Option (List ShortlistEntry) := do
  let sorted := sortByKey ShortlistEntry.distance shortlist
  let cap ← p.shortlistCapChecked
  some (sorted.take cap)

variable [Deps]

/-- A round is reached with `3 * k` in range only, where the saturating
`k * 2` of the response ceilings is the plain one of `foldAnswer`. -/
def roundChecked (peers : Peers) (w : Walk) : Option Walk := do
  let folded := (p.answers peers w).foldl p.foldAnswer w
  let shortlist ← p.sortAndCapChecked folded.shortlist
  some { folded with shortlist }

def passChecked (peers : Peers) (w : Walk) : Option (Pass Walk Exit) :=
  if p.batch w.shortlist = [] then some (.done w .exhausted)
  else do
    let w' ← p.roundChecked peers w
    if p.stopOnProviders ∧ 0 < FMap.size w'.providers then some (.done w' .stoppedOnProviders)
    else if p.settled w'.shortlist then some (.done w' .converged)
    else some (.next w')

def seededChecked (seeds : List Contact) : Option Walk := do
  let merged := seeds.foldl p.mergeContact Walk.empty
  let shortlist ← p.sortAndCapChecked merged.shortlist
  some { merged with shortlist }

/-- The loop, with its counter: `rounds += 1`, then the guard. The fuel
ends the recursion one pass behind the guard. -/
def loopChecked (peers : Peers) : Nat → Nat → Walk → Option (Walk × Exit)
  | 0, _, w => some (w, .guard)
  | fuel + 1, rounds, w => do
    let rounds ← add rounds 1
    if maxLookupRounds < rounds then some (w, .guard)
    else
      match ← p.passChecked peers w with
      | .next w' => loopChecked peers fuel rounds w'
      | .done w' reason => some (w', reason)

def walkChecked (peers : Peers) (seeds : List Contact) : Option (Walk × Exit) := do
  let start ← p.seededChecked seeds
  p.loopChecked peers (maxLookupRounds + 1) 0 start

variable {p}

omit [Deps] in
theorem sortAndCapChecked_eq_some (h : p.CapFits) (shortlist : List ShortlistEntry) :
    p.sortAndCapChecked shortlist = some (p.sortAndCap shortlist) := by
  have hprobes : p.alpha * 2 < wordLimit := by
    have hfits := h.probes
    omega
  simp [sortAndCapChecked, shortlistCapChecked, mul_eq_some h.returned, mul_eq_some hprobes,
    add_eq_some h.probes, sortAndCap, shortlistCap]

omit [Deps] in
/-- Out of range, the cap panics whatever the shortlist. -/
theorem sortAndCapChecked_eq_none (h : ¬p.CapFits) (shortlist : List ShortlistEntry) :
    p.sortAndCapChecked shortlist = none := by
  unfold sortAndCapChecked shortlistCapChecked
  by_cases hreturned : p.k * 3 < wordLimit
  · have hprobes : wordLimit ≤ p.k + p.alpha * 2 :=
      Nat.not_lt.mp fun hprobes => h ⟨hreturned, hprobes⟩
    by_cases hmul : p.alpha * 2 < wordLimit
    · simp [mul_eq_some hreturned, mul_eq_some hmul, add_eq_none hprobes]
    · simp [mul_eq_some hreturned, mul_eq_none (Nat.not_lt.mp hmul)]
  · simp [mul_eq_none (Nat.not_lt.mp hreturned)]

theorem roundChecked_eq_some (h : p.CapFits) (peers : Peers) (w : Walk) :
    p.roundChecked peers w = some (p.round peers w) := by
  simp [roundChecked, sortAndCapChecked_eq_some h, round]

theorem passChecked_eq_some (h : p.CapFits) (peers : Peers) (w : Walk) :
    p.passChecked peers w = some (p.pass peers w) := by
  unfold passChecked pass
  simp only [roundChecked_eq_some h, Option.bind_eq_bind, Option.bind_some]
  split
  · rfl
  · split
    · rfl
    · split <;> rfl

/-- The counter runs from 0 to the guard, so it never overflows. -/
theorem loopChecked_eq_some (h : p.CapFits) (peers : Peers) {fuel rounds : Nat}
    (hfuel : fuel + rounds = maxLookupRounds) (w : Walk) :
    p.loopChecked peers (fuel + 1) rounds w = some (run (p.pass peers) .guard fuel w) := by
  have hadd : add rounds 1 = some (rounds + 1) := by
    apply add_eq_some
    unfold maxLookupRounds at hfuel
    unfold wordLimit
    omega
  induction fuel generalizing rounds w with
  | zero =>
    have hguard : maxLookupRounds < rounds + 1 := by omega
    simp [loopChecked, hadd, hguard, run]
  | succ fuel ih =>
    have hguard : ¬maxLookupRounds < rounds + 1 := by omega
    have hnext : add (rounds + 1) 1 = some (rounds + 1 + 1) := by
      apply add_eq_some
      unfold maxLookupRounds at hfuel
      unfold wordLimit
      omega
    rw [loopChecked, hadd]
    simp only [Option.bind_eq_bind, Option.bind_some, hguard, if_false, passChecked_eq_some h, run]
    cases p.pass peers w with
    | next w' => exact ih (by omega) w' hnext
    | done w' reason => rfl

theorem walkChecked_eq_some (h : p.CapFits) (peers : Peers) (seeds : List Contact) :
    p.walkChecked peers seeds = some (p.walk peers seeds) := by
  simp [walkChecked, seededChecked, sortAndCapChecked_eq_some h,
    loopChecked_eq_some h peers (Nat.add_zero maxLookupRounds), walk, seeded]

/-- Out of range, a lookup panics before it asks anybody. -/
theorem walkChecked_eq_none (h : ¬p.CapFits) (peers : Peers) (seeds : List Contact) :
    p.walkChecked peers seeds = none := by
  simp [walkChecked, seededChecked, sortAndCapChecked_eq_none h]

end LookupParams

end Lookup

/-! ## §4 The provider store -/

namespace Store

open Record

namespace ProviderStore

def lenChecked (s : ProviderStore) : Option Nat :=
  sum ((FMap.values s.byKey).map FMap.size)

/-- `put_at`. -/
def putAtChecked (s : ProviderStore) (record : ProviderRecord) (now : Nat) :
    Option (ProviderStore × PutOutcome) :=
  match s.entry record.contentKey record.providerPeerId with
  | some existing => some (s.refresh existing record, .accepted)
  | none => do
    let len ← s.lenChecked
    if s.limits.maxTotalRecords ≤ len then
      some (s, .rejectedOverCapacity)
    else
      match s.makeRoom record.contentKey now with
      | none => some (s, .rejectedOverCapacity)
      | some providers => do
        let nextAdmittedSeq ← add s.nextAdmittedSeq 1
        some ({ s.admitNew providers record with nextAdmittedSeq }, .accepted)

/-- The closure of `gc`: `removed += before - providers.len()`. -/
def sweepChecked (now removed : Nat) (providers : FMap String ProviderEntry) : Option Nat := do
  let dropped ← sub (FMap.size providers) (FMap.size (live now providers))
  add removed dropped

def gcChecked (s : ProviderStore) (now : Nat) : Option (ProviderStore × Nat) := do
  let removed ← (FMap.values s.byKey).foldlM (sweepChecked now) 0
  some ({ s with byKey := FMap.filterMap (fun _ => sweep now) s.byKey }, removed)

/-- The closure of `snapshot`: `count()` of a key's live records. -/
def liveCountChecked (now : Nat) (e : (_ : String) × FMap String ProviderEntry) :
    Option (Option ProviderSnapshotEntry) := do
  let live ← count (fun e => !e.record.isExpired now) (FMap.values e.2)
  some (if 0 < live then some ⟨e.1, live⟩ else none)

def snapshotChecked (s : ProviderStore) (now maxKeys : Nat) : Option ProviderSnapshot := do
  let counts ← s.byKey.entries.mapM (liveCountChecked now)
  let entries := Selection.sortByKey ProviderSnapshotEntry.contentKey (counts.filterMap id)
  some { entries := entries.take maxKeys
         totalKeys := entries.length
         truncated := maxKeys < entries.length }

theorem lenChecked_eq_some {s : ProviderStore} (h : s.len < wordLimit) :
    s.lenChecked = some s.len :=
  sum_eq_some h

theorem nextAdmittedSeq_le_putAt (s : ProviderStore) (r : ProviderRecord) (now : Nat) :
    s.nextAdmittedSeq ≤ (s.putAt r now).1.nextAdmittedSeq := by
  obtain ⟨e, -, h⟩ | ⟨-, h⟩ | ⟨ps, -, -, -, h⟩ := s.putAt_cases r now
  · rw [h]
    exact le_rfl
  · rw [h]
  · rw [h]
    exact Nat.le_succ _

/-- A put does not panic while the store counts its records and its
admissions in 64 bits. -/
theorem putAtChecked_eq_some {s : ProviderStore} {r : ProviderRecord} {now : Nat}
    (hlen : s.len < wordLimit) (hseq : (s.putAt r now).1.nextAdmittedSeq < wordLimit) :
    s.putAtChecked r now = some (s.putAt r now) := by
  unfold putAtChecked
  unfold putAt at hseq ⊢
  cases he : s.entry r.contentKey r.providerPeerId with
  | some e => rfl
  | none =>
    simp only [he, lenChecked_eq_some hlen, Option.bind_eq_bind, Option.bind_some] at hseq ⊢
    by_cases hcap : s.limits.maxTotalRecords ≤ s.len
    · simp only [if_pos hcap]
    · simp only [if_neg hcap] at hseq ⊢
      cases hroom : s.makeRoom r.contentKey now with
      | none => rfl
      | some ps =>
        simp only [hroom] at hseq
        have hadd : add s.nextAdmittedSeq 1 = some (s.nextAdmittedSeq + 1) := add_eq_some hseq
        simp only [hadd, Option.bind_some]
        rfl

/-- A sweep removes no more than the store holds. -/
theorem removed_gc_le (s : ProviderStore) (now : Nat) : (s.gc now).2 ≤ s.len :=
  List.sum_le_sum fun _ _ => Nat.sub_le _ _

theorem gcChecked_eq_some {s : ProviderStore} (h : s.len < wordLimit) (now : Nat) :
    s.gcChecked now = some (s.gc now) := by
  let dropped (ps : FMap String ProviderEntry) : Nat := FMap.size ps - FMap.size (live now ps)
  have hsub : ∀ ps, sub (FMap.size ps) (FMap.size (live now ps)) = some (dropped ps) := by
    intro ps
    exact sub_eq_some (FMap.size_filterMap_le _ ps)
  have hfold : (FMap.values s.byKey).foldl (fun removed ps => removed + dropped ps) 0 =
      FMap.sumBy dropped s.byKey := by
    rw [FMap.sumBy, List.sum_eq_foldl, List.foldl_map]
  have htotal : FMap.sumBy dropped s.byKey ≤ s.len := s.removed_gc_le now
  have hremoved : (FMap.values s.byKey).foldlM (sweepChecked now) 0 =
      some (FMap.sumBy dropped s.byKey) := by
    rw [← hfold]
    refine foldlM_eq_some (I := fun _ => True) (m := id) (fun _ _ _ => trivial)
      (fun removed ps _ => Nat.le_add_right _ _) ?_ _ trivial
      (lt_of_le_of_lt (hfold.trans_le htotal) h)
    intro removed ps _ hlt
    simp only [sweepChecked, hsub, Option.bind_eq_bind, Option.bind_some]
    exact add_eq_some hlt
  simp only [gcChecked, hremoved, Option.bind_eq_bind, Option.bind_some]
  rfl

/-- The records of one key are records of the store. -/
theorem snapshotChecked_eq_some {s : ProviderStore} (h : s.len < wordLimit) (now maxKeys : Nat) :
    s.snapshotChecked now maxKeys = some (s.snapshot now maxKeys) := by
  let liveCount (e : (_ : String) × FMap String ProviderEntry) : Option ProviderSnapshotEntry :=
    let live := (FMap.values e.2).countP fun e => !e.record.isExpired now
    if 0 < live then some ⟨e.1, live⟩ else none
  have hcount : ∀ e ∈ s.byKey.entries, liveCountChecked now e = some (liveCount e) := by
    intro e he
    have hmem : FMap.size e.2 ∈ (FMap.values s.byKey).map FMap.size :=
      List.mem_map_of_mem (List.mem_map_of_mem he)
    have hsize : FMap.size e.2 ≤ s.len := List.le_sum_of_mem hmem
    have hlength : (FMap.values e.2).length < wordLimit := by
      rw [FMap.values, List.length_map]
      exact lt_of_le_of_lt hsize h
    simp [liveCountChecked, count_eq_some _ hlength, liveCount]
  simp only [snapshotChecked, mapM_eq_some hcount, Option.bind_eq_bind, Option.bind_some,
    List.filterMap_map]
  rfl

end ProviderStore

end Store

end DigDht
