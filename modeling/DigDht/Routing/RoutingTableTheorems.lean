/-
DigDht.Routing.RoutingTableTheorems — the routing-table invariant, and
the one operation that can break it.

§1 is one spec lemma for each bucket operation. §2 lifts them to the
table: a contact of `t` sits in the bucket its distance to the local key
selects, no bucket holds more than `k`, and the contacts a step stores
were stored before or are the one it was given (`mem_step`). §3 is
uniqueness. `offer` looks for the contact before it appends it; `replace`
does not, so it duplicates a candidate that entered the bucket after the
`Full` it answers. `invariant_iff_replacesFresh` says that nothing else
goes wrong: a run keeps the invariant exactly when no `replace` that
takes effect finds its candidate behind the front of the bucket.
-/
import Mathlib.Data.Set.Card
import DigDht.Keyspace.KeyTheorems
import DigDht.Routing.RoutingTable

namespace DigDht.Routing

open Keyspace Record Runs

/-! ## §1 The buckets -/

namespace KBucket

theorem holds_iff {b : KBucket} {x : String} :
    b.holds x = true ↔ ∃ c ∈ b.contacts, c.peerId = x := by
  simp [holds]

theorem without_sublist (b : KBucket) (x : String) : (b.without x).Sublist b.contacts :=
  List.eraseP_sublist

theorem without_of_not_holds {b : KBucket} {x : String} (h : ¬b.holds x = true) :
    b.without x = b.contacts := by
  refine List.eraseP_of_forall_not fun c hc hx => h ?_
  exact holds_iff.mpr ⟨c, hc, by simpa using hx⟩

theorem length_without {b : KBucket} {x : String} (h : b.holds x = true) :
    (b.without x).length + 1 = b.contacts.length := by
  obtain ⟨c, hc, hx⟩ := holds_iff.mp h
  have hlen := List.length_eraseP_of_mem (p := fun c => c.peerId == x) hc (by simpa using hx)
  have hpos := List.length_pos_of_mem hc
  rw [without, hlen]
  omega

/-- Where ids are unique, none is left behind. -/
theorem not_mem_without {b : KBucket} {x : String}
    (h : (b.contacts.map Contact.peerId).Nodup) : x ∉ (b.without x).map Contact.peerId := by
  unfold without
  revert h
  induction b.contacts with
  | nil => simp
  | cons c l ih =>
    intro h
    obtain ⟨hc, hl⟩ := List.nodup_cons.mp h
    by_cases hx : c.peerId = x
    · rw [List.eraseP_cons_of_pos (by simpa using hx)]
      exact hx ▸ hc
    · rw [List.eraseP_cons_of_neg (by simpa using hx), List.map_cons, List.mem_cons, not_or]
      exact ⟨Ne.symm hx, ih hl⟩

/-- `offer` leaves the bucket, or moves the contact to the back of it. -/
theorem offer_cases (b : KBucket) (c : Contact) :
    (b.offer c).1 = b ∨
    ((b.offer c).1 = { b with contacts := b.without c.peerId ++ [c] } ∧
      ((b.without c.peerId).length + 1 ≤ b.contacts.length ∨
        (b.without c.peerId).length + 1 ≤ b.capacity)) := by
  unfold offer
  by_cases hholds : b.holds c.peerId = true
  · rw [if_pos hholds]
    exact Or.inr ⟨rfl, Or.inl (length_without hholds).le⟩
  · rw [if_neg hholds]
    by_cases hroom : b.contacts.length < b.capacity
    · rw [if_pos hroom, without_of_not_holds hholds]
      exact Or.inr ⟨rfl, Or.inr hroom⟩
    · rw [if_neg hroom]
      left
      split <;> rfl

/-- `offer` panics on an empty bucket that may hold nothing. -/
theorem offer_panicked_iff (b : KBucket) (c : Contact) :
    (b.offer c).2 = .panicked ↔ b.capacity = 0 ∧ b.contacts = [] := by
  unfold offer
  by_cases hholds : b.holds c.peerId = true
  · obtain ⟨d, hd, -⟩ := holds_iff.mp hholds
    have hne : b.contacts ≠ [] := List.ne_nil_of_mem hd
    simp [hholds, hne]
  · rw [if_neg hholds]
    cases hb : b.contacts with
    | nil =>
      by_cases hcap : b.capacity = 0
      · simp [hcap]
      · simp [hcap, Nat.pos_of_ne_zero hcap]
    | cons d rest =>
      by_cases hroom : (d :: rest).length < b.capacity
      · rw [if_pos hroom]
        simp
      · rw [if_neg hroom]
        simp

/-- `replace` leaves the bucket, or drops its front for the candidate. -/
theorem replace_cases (b : KBucket) (lru : String) (c : Contact) :
    (b.replace lru c).1 = b ∨
    ∃ front rest, b.contacts = front :: rest ∧ front.peerId = lru ∧
      (b.replace lru c).1 = { b with contacts := rest ++ [c] } := by
  unfold replace
  cases hb : b.contacts with
  | nil => exact Or.inl rfl
  | cons front rest =>
    by_cases hlru : front.peerId = lru
    · exact Or.inr ⟨front, rest, rfl, hlru, by simp [hlru]⟩
    · exact Or.inl (by simp [hlru])

theorem remove_eq (b : KBucket) (x : String) :
    (b.remove x).1 = { b with contacts := b.without x } := by
  unfold remove
  by_cases hholds : b.holds x = true
  · rw [if_pos hholds]
  · rw [if_neg hholds, without_of_not_holds hholds]

end KBucket

/-! ## §2 The table -/

namespace RoutingTable

@[simp] theorem bucket_setBucket_self (t : RoutingTable) (i : Fin 256) (b : KBucket) :
    (t.setBucket i b).bucket i = b :=
  List.Vector.get_set_same _ _ _

theorem bucket_setBucket (t : RoutingTable) (i j : Fin 256) (b : KBucket) :
    (t.setBucket i b).bucket j = if j = i then b else t.bucket j := by
  by_cases h : j = i
  · subst h
    rw [if_pos rfl, bucket_setBucket_self]
  · rw [if_neg h]
    exact List.Vector.get_set_of_ne (Ne.symm h) _

@[simp] theorem localKey_setBucket (t : RoutingTable) (i : Fin 256) (b : KBucket) :
    (t.setBucket i b).localKey = t.localKey := rfl

@[simp] theorem bucketFor_setBucket (t : RoutingTable) (i : Fin 256) (b : KBucket) (key : Key) :
    (t.setBucket i b).bucketFor key = t.bucketFor key := rfl

@[simp] theorem bucket_new (localId : PeerId) (k : Nat) (i : Fin 256) :
    (new localId k).bucket i = KBucket.new k :=
  List.Vector.get_replicate _ _

theorem toList_buckets (t : RoutingTable) :
    t.buckets.toList = (List.finRange 256).map t.bucket := by
  rw [← List.ofFn_eq_map, ← List.Vector.toList_ofFn]
  exact congrArg List.Vector.toList (List.Vector.ofFn_get t.buckets).symm

theorem contacts_eq (t : RoutingTable) :
    t.contacts = (List.finRange 256).flatMap fun i => (t.bucket i).contacts := by
  rw [contacts, toList_buckets, List.flatMap_map]

theorem mem_contacts {t : RoutingTable} {c : Contact} :
    c ∈ t.contacts ↔ ∃ i, c ∈ (t.bucket i).contacts := by
  simp [contacts_eq]

@[simp] theorem contacts_new (localId : PeerId) (k : Nat) : (new localId k).contacts = [] := by
  simp [contacts_eq, KBucket.new]

theorem len_eq (t : RoutingTable) : t.len = t.contacts.length := by
  simp [len, contacts, List.length_flatMap]

theorem length_closest_le [Deps] (t : RoutingTable) (target : Key) :
    (t.closest target).length ≤ t.k := by
  simp [closest]

theorem mem_of_mem_closest [Deps] {t : RoutingTable} {target : Key} {c : Contact}
    (h : c ∈ t.closest target) : c ∈ t.contacts := by
  obtain ⟨x, hx, rfl⟩ := List.mem_map.mp h
  have hsorted := (Selection.mem_sortByKey Prod.snd).mp (List.mem_of_mem_take hx)
  obtain ⟨d, hd, heq⟩ := List.mem_filterMap.mp hsorted
  obtain ⟨key, -, rfl⟩ := Option.map_eq_some_iff.mp heq
  exact hd

end RoutingTable

/-- No bucket names a peer twice. -/
def Unique (t : RoutingTable) : Prop :=
  ∀ i, ((t.bucket i).contacts.map Contact.peerId).Nodup

theorem unique_setBucket {t : RoutingTable} (ht : Unique t) (i : Fin 256) (b : KBucket) :
    Unique (t.setBucket i b) ↔ (b.contacts.map Contact.peerId).Nodup := by
  constructor
  · intro h
    have hi := h i
    rwa [RoutingTable.bucket_setBucket_self] at hi
  · intro h j
    rw [RoutingTable.bucket_setBucket]
    split
    · exact h
    · exact ht j

theorem nodup_append_singleton {l : List Contact} {c : Contact}
    (hl : (l.map Contact.peerId).Nodup) :
    ((l ++ [c]).map Contact.peerId).Nodup ↔ c.peerId ∉ l.map Contact.peerId := by
  rw [List.map_append, List.nodup_append_comm, List.map_singleton, List.singleton_append,
    List.nodup_cons]
  exact and_iff_left hl

/-! ### What a step stores -/

section Steps

variable [Deps]

/-- The contact an operation offers to the table. -/
def RoutingOp.offered : RoutingOp → Option Contact
  | .insert contact => some contact
  | .replace _ candidate => some candidate
  | .remove _ => none

/-- A step rewrites at most one bucket, with contacts it held or the one
offered, and does not push it over its capacity. -/
theorem step_cases (t : RoutingTable) (op : RoutingOp) :
    step t op = t ∨
    ∃ i b, step t op = t.setBucket i b ∧ b.capacity = (t.bucket i).capacity ∧
      (∀ c ∈ b.contacts, c ∈ (t.bucket i).contacts ∨
        (op.offered = some c ∧ t.bucketOf c = some i)) ∧
      (b.contacts.length ≤ (t.bucket i).contacts.length ∨ b.contacts.length ≤ b.capacity) := by
  cases op with
  | insert contact =>
    cases hidx : t.bucketOf contact with
    | none => exact Or.inl (by simp [step, RoutingTable.insert, hidx])
    | some i =>
      refine Or.inr ⟨i, ((t.bucket i).offer contact).1, ?_, ?_⟩
      · simp [step, RoutingTable.insert, hidx]
      · rcases (t.bucket i).offer_cases contact with h | ⟨h, hlen⟩
        · rw [h]
          exact ⟨rfl, fun c hc => Or.inl hc, Or.inl le_rfl⟩
        · rw [h]
          refine ⟨rfl, ?_, by simpa using hlen⟩
          intro c hc
          rcases List.mem_append.mp hc with hc | hc
          · exact Or.inl ((KBucket.without_sublist _ _).subset hc)
          · cases List.mem_singleton.mp hc
            exact Or.inr ⟨rfl, hidx⟩
  | replace lru candidate =>
    cases hidx : t.bucketOf candidate with
    | none => exact Or.inl (by simp [step, RoutingTable.replace, hidx])
    | some i =>
      refine Or.inr ⟨i, ((t.bucket i).replace lru.peerId candidate).1, ?_, ?_⟩
      · simp [step, RoutingTable.replace, hidx]
      · rcases (t.bucket i).replace_cases lru.peerId candidate with h | ⟨front, rest, hb, -, h⟩
        · rw [h]
          exact ⟨rfl, fun c hc => Or.inl hc, Or.inl le_rfl⟩
        · rw [h]
          refine ⟨rfl, ?_, Or.inl (by simp [hb])⟩
          intro c hc
          rcases List.mem_append.mp hc with hc | hc
          · exact Or.inl (hb ▸ List.mem_cons_of_mem _ hc)
          · cases List.mem_singleton.mp hc
            exact Or.inr ⟨rfl, hidx⟩
  | remove x =>
    cases hidx : (Deps.fromHex x).bind fun p => t.bucketFor (Key.fromPeerId p) with
    | none => exact Or.inl (by simp [step, RoutingTable.remove, hidx])
    | some i =>
      refine Or.inr ⟨i, ((t.bucket i).remove x).1, ?_, ?_⟩
      · simp [step, RoutingTable.remove, hidx]
      · rw [KBucket.remove_eq]
        have hsub := (t.bucket i).without_sublist x
        exact ⟨rfl, fun c hc => Or.inl (hsub.subset hc), Or.inl hsub.length_le⟩

/-- What a step stores was stored before or is what it was given. -/
theorem mem_step {t : RoutingTable} {op : RoutingOp} {c : Contact} (h : c ∈ (step t op).contacts) :
    c ∈ t.contacts ∨ op.offered = some c := by
  rcases step_cases t op with heq | ⟨i, b, heq, -, hmem, -⟩
  · rw [heq] at h
    exact Or.inl h
  · rw [heq] at h
    obtain ⟨j, hj⟩ := RoutingTable.mem_contacts.mp h
    rw [RoutingTable.bucket_setBucket] at hj
    split at hj
    · rcases hmem c hj with hold | ⟨hnew, -⟩
      · exact Or.inl (RoutingTable.mem_contacts.mpr ⟨i, hold⟩)
      · exact Or.inr hnew
    · exact Or.inl (RoutingTable.mem_contacts.mpr ⟨j, hj⟩)

@[simp] theorem k_step (t : RoutingTable) (op : RoutingOp) : (step t op).k = t.k := by
  rcases step_cases t op with h | ⟨i, b, h, -⟩ <;> rw [h]
  rfl

/-- The half of the invariant no operation can break. -/
structure WellPlaced (localId : PeerId) (k : Nat) (t : RoutingTable) : Prop where
  localKey_eq : t.localKey = Key.fromPeerId localId
  capacity_eq : ∀ i, (t.bucket i).capacity = k
  placed : ∀ i, ∀ c ∈ (t.bucket i).contacts, t.bucketOf c = some i
  capped : ∀ i, (t.bucket i).contacts.length ≤ k

theorem wellPlaced_new (localId : PeerId) (k : Nat) :
    WellPlaced localId k (RoutingTable.new localId k) := by
  refine ⟨rfl, ?_, ?_, ?_⟩ <;> simp [KBucket.new]

theorem wellPlaced_step {localId : PeerId} {k : Nat} {t : RoutingTable}
    (ht : WellPlaced localId k t) (op : RoutingOp) : WellPlaced localId k (step t op) := by
  rcases step_cases t op with h | ⟨i, b, h, hcap, hmem, hlen⟩
  · rwa [h]
  · rw [h]
    constructor
    · exact ht.localKey_eq
    · intro j
      rw [RoutingTable.bucket_setBucket]
      split
      · rw [hcap]; exact ht.capacity_eq i
      · exact ht.capacity_eq j
    · intro j c hc
      rw [RoutingTable.bucket_setBucket] at hc
      split at hc
      · rename_i hj
        subst hj
        rcases hmem c hc with hold | ⟨-, hnew⟩
        · exact ht.placed _ c hold
        · exact hnew
      · exact ht.placed j c hc
    · intro j
      rw [RoutingTable.bucket_setBucket]
      split
      · rw [hcap, ht.capacity_eq] at hlen
        exact hlen.elim (fun hold => le_trans hold (ht.capped i)) id
      · exact ht.capped j

/-- With buckets of size `k`, an insert panics at `k = 0` on every contact
that has a bucket, and never otherwise. -/
theorem insert_panicked_iff {localId : PeerId} {k : Nat} {t : RoutingTable}
    (ht : WellPlaced localId k t) (c : Contact) :
    (t.insert c).2 = .panicked ↔ k = 0 ∧ (t.bucketOf c).isSome = true := by
  unfold RoutingTable.insert
  cases hidx : t.bucketOf c with
  | none => simp
  | some i =>
    simp only [KBucket.offer_panicked_iff, ht.capacity_eq i, Option.isSome_some, and_true]
    refine and_iff_left_of_imp ?_
    intro hzero
    have hcap := ht.capped i
    rw [hzero, Nat.le_zero, List.length_eq_zero_iff] at hcap
    exact hcap

theorem insert_ne_panicked {localId : PeerId} {k : Nat} (hk : 1 ≤ k) {t : RoutingTable}
    (ht : WellPlaced localId k t) (c : Contact) : (t.insert c).2 ≠ .panicked := by
  intro hpanic
  have hzero := ((insert_panicked_iff ht c).mp hpanic).1
  omega

/-- A contact in canonical form: its id is some identity's encoding. -/
def Contact.Canonical (c : Contact) : Prop :=
  ∃ p : PeerId, c.peerId = Deps.toHex p

/-- An operation that offers no contact out of canonical form. -/
def RoutingOp.Canonical (op : RoutingOp) : Prop :=
  ∀ c, op.offered = some c → c.Canonical

theorem canonical_step {t : RoutingTable} (ht : ∀ c ∈ t.contacts, c.Canonical)
    {op : RoutingOp} (hop : op.Canonical) : ∀ c ∈ (step t op).contacts, c.Canonical := by
  intro c hc
  rcases mem_step hc with hold | hnew
  · exact ht c hold
  · exact hop c hnew

/-! ## §3 Uniqueness -/

/-- In a well-placed table two contacts with one id share a bucket, so
uniqueness in each bucket is uniqueness in the table. -/
theorem nodup_contacts_iff {t : RoutingTable}
    (hplaced : ∀ i, ∀ c ∈ (t.bucket i).contacts, t.bucketOf c = some i) :
    (t.contacts.map Contact.peerId).Nodup ↔ Unique t := by
  rw [RoutingTable.contacts_eq, List.map_flatMap, List.nodup_flatMap]
  constructor
  · intro h i
    exact h.1 i (List.mem_finRange i)
  · intro h
    refine ⟨fun i _ => h i, (List.nodup_finRange 256).imp ?_⟩
    intro i j hij x hxi hxj
    obtain ⟨c, hc, rfl⟩ := List.mem_map.mp hxi
    obtain ⟨d, hd, hcd⟩ := List.mem_map.mp hxj
    have hbucket : t.bucketOf d = t.bucketOf c := by
      simp only [RoutingTable.bucketOf, Contact.key, Contact.peer, hcd]
    rw [hplaced i c hc, hplaced j d hd] at hbucket
    exact hij (Option.some.inj hbucket).symm

/-- A `replace` that takes effect finds its candidate nowhere behind the
front of the bucket. The other operations have no condition. -/
def ReplacesFresh (t : RoutingTable) : RoutingOp → Prop
  | .replace lru candidate =>
    ∀ i ∈ t.bucketOf candidate, ∀ front ∈ (t.bucket i).contacts.head?,
      front.peerId = lru.peerId →
        candidate.peerId ∉ (t.bucket i).contacts.tail.map Contact.peerId
  | _ => True

instance decidableReplacesFresh (t : RoutingTable) : ∀ op, Decidable (ReplacesFresh t op)
  | .replace lru candidate =>
    inferInstanceAs (Decidable (∀ i ∈ t.bucketOf candidate,
      ∀ front ∈ (t.bucket i).contacts.head?, front.peerId = lru.peerId →
        candidate.peerId ∉ (t.bucket i).contacts.tail.map Contact.peerId))
  | .insert _ | .remove _ => isTrue trivial

theorem unique_step_iff {t : RoutingTable} (ht : Unique t) (op : RoutingOp) :
    Unique (step t op) ↔ ReplacesFresh t op := by
  cases op with
  | insert contact =>
    refine iff_of_true ?_ trivial
    simp only [step, RoutingTable.insert]
    cases hidx : t.bucketOf contact with
    | none => exact ht
    | some i =>
      refine (unique_setBucket ht i _).mpr ?_
      rcases (t.bucket i).offer_cases contact with h | ⟨h, -⟩
      · rw [h]
        exact ht i
      · rw [h]
        have hsub := ((t.bucket i).without_sublist contact.peerId).map Contact.peerId
        exact (nodup_append_singleton (hsub.nodup (ht i))).mpr (KBucket.not_mem_without (ht i))
  | replace lru candidate =>
    simp only [step, RoutingTable.replace, ReplacesFresh]
    cases hidx : t.bucketOf candidate with
    | none => simpa using ht
    | some i =>
      simp only [Option.mem_def, Option.some.injEq, forall_eq']
      rw [unique_setBucket ht]
      have hi := ht i
      unfold KBucket.replace
      cases hb : (t.bucket i).contacts with
      | nil => simp [hb]
      | cons front rest =>
        rw [hb, List.map_cons] at hi
        by_cases hlru : front.peerId = lru.peerId
        · have hrest : (rest.map Contact.peerId).Nodup := (List.nodup_cons.mp hi).2
          simpa [hlru] using nodup_append_singleton (c := candidate) hrest
        · simpa [hlru, hb] using List.nodup_cons.mp hi
  | remove x =>
    refine iff_of_true ?_ trivial
    simp only [step, RoutingTable.remove]
    cases hidx : (Deps.fromHex x).bind fun p => t.bucketFor (Key.fromPeerId p) with
    | none => exact ht
    | some i =>
      refine (unique_setBucket ht i _).mpr ?_
      rw [KBucket.remove_eq]
      exact (((t.bucket i).without_sublist x).map Contact.peerId).nodup (ht i)

/-- **The routing-table invariant.** -/
structure Invariant (localId : PeerId) (k : Nat) (t : RoutingTable) : Prop where
  not_local : ∀ c ∈ t.contacts, c.key ≠ some (Key.fromPeerId localId)
  placed : ∀ i, ∀ c ∈ (t.bucket i).contacts, ∃ key, c.key = some key ∧
    ((Key.fromPeerId localId).distance key).bucketIndex = some i
  capped : ∀ i, (t.bucket i).contacts.length ≤ k
  unique : (t.contacts.map Contact.peerId).Nodup
  len_distinct : t.len = {p : PeerId | ∃ c ∈ t.contacts, c.peer = some p}.ncard

variable [LawfulPeerIdHex]

/-- Over canonical contacts the ids are the encodings of the identities. -/
theorem map_peerId_eq {l : List Contact} (hl : ∀ c ∈ l, c.Canonical) :
    l.map Contact.peerId = (l.filterMap Contact.peer).map Deps.toHex := by
  induction l with
  | nil => rfl
  | cons c l ih =>
    obtain ⟨p, hp⟩ := hl c List.mem_cons_self
    have hpeer : c.peer = some p := by rw [Contact.peer, hp, LawfulPeerIdHex.fromHex_toHex]
    rw [List.map_cons, List.filterMap_cons, hpeer, List.map_cons, hp,
      ih fun d hd => hl d (List.mem_cons_of_mem c hd)]

theorem len_distinct_of_nodup {t : RoutingTable} (hcanon : ∀ c ∈ t.contacts, c.Canonical)
    (hnodup : (t.contacts.map Contact.peerId).Nodup) :
    t.len = {p : PeerId | ∃ c ∈ t.contacts, c.peer = some p}.ncard := by
  have hids := map_peerId_eq hcanon
  have hset : {p : PeerId | ∃ c ∈ t.contacts, c.peer = some p} =
      ((t.contacts.filterMap Contact.peer).toFinset : Set PeerId) := by
    ext p
    simp
  have hpeers : (t.contacts.filterMap Contact.peer).Nodup := by
    rw [hids] at hnodup
    exact hnodup.of_map _
  rw [hset, Set.ncard_coe_finset, List.toFinset_card_of_nodup hpeers, RoutingTable.len_eq,
    ← List.length_map Contact.peerId, hids, List.length_map]

theorem invariant_iff_unique {localId : PeerId} {k : Nat} {t : RoutingTable}
    (ht : WellPlaced localId k t) (hcanon : ∀ c ∈ t.contacts, c.Canonical) :
    Invariant localId k t ↔ Unique t := by
  have hkey : ∀ i, ∀ c ∈ (t.bucket i).contacts, ∃ key, c.key = some key ∧
      ((Key.fromPeerId localId).distance key).bucketIndex = some i := by
    intro i c hc
    obtain ⟨key, hk, hi⟩ := Option.bind_eq_some_iff.mp (ht.placed i c hc)
    exact ⟨key, hk, by rw [← ht.localKey_eq]; exact hi⟩
  rw [← nodup_contacts_iff ht.placed]
  refine ⟨fun h => h.unique, fun h => ⟨?_, hkey, ht.capped, h, len_distinct_of_nodup hcanon h⟩⟩
  intro c hc hlocal
  obtain ⟨i, hi⟩ := RoutingTable.mem_contacts.mp hc
  obtain ⟨key, hk, hidx⟩ := hkey i c hi
  rw [hlocal] at hk
  cases hk
  rw [Key.bucketIndex_distance_self] at hidx
  cases hidx

theorem invariant_new (localId : PeerId) (k : Nat) :
    Invariant localId k (RoutingTable.new localId k) := by
  refine (invariant_iff_unique (wellPlaced_new localId k) (by simp)).mpr ?_
  intro i
  simp [KBucket.new]

/-- **Exactly the fresh runs keep the invariant.** Over canonical
contacts, every state of a run is well formed if and only if every
`replace` of it that takes effect has a candidate that is not in the
bucket already. -/
theorem invariant_iff_replacesFresh (localId : PeerId) (k : Nat) (ops : List RoutingOp)
    (hops : ∀ op ∈ ops, op.Canonical) :
    Always step (Invariant localId k) (RoutingTable.new localId k) ops ↔
      EachStep step ReplacesFresh (RoutingTable.new localId k) ops := by
  refine always_iff_eachStep (G := fun t => WellPlaced localId k t ∧ ∀ c ∈ t.contacts, c.Canonical)
    ?_ ?_ ⟨wellPlaced_new localId k, by simp⟩ (invariant_new localId k)
  · intro t op hop h
    obtain ⟨ht, hcanon⟩ := h
    exact ⟨wellPlaced_step ht op, canonical_step hcanon (hops op hop)⟩
  · intro t op hop h hinv
    obtain ⟨ht, hcanon⟩ := h
    have hunique : Unique t := (invariant_iff_unique ht hcanon).mp hinv
    rw [invariant_iff_unique (wellPlaced_step ht op) (canonical_step hcanon (hops op hop))]
    exact unique_step_iff hunique op

end Steps

/-! ### Two runs at `k = 2` -/

section Runs

/-- Identities as their own hex text; no digest is taken. -/
local instance hexIds : Deps := hexDeps fun _ => List.Vector.replicate 32 0

/-- A run that completes a ping-and-replace while the bucket stands
still keeps the invariant. -/
theorem invariant_of_fresh_replace :
    let peer (first : UInt8) : PeerId := ⟨first ::ᵥ List.Vector.replicate 31 0⟩
    let a := Contact.new (peer 129) []
    let b := Contact.new (peer 130) []
    let c := Contact.new (peer 131) []
    Always step (Invariant (peer 0) 2) (RoutingTable.new (peer 0) 2)
      [.insert a, .insert b, .insert c, .replace a c, .remove b.peerId] := by
  intro peer a b c
  have hcanon : ∀ first, (Contact.new (peer first) []).Canonical := fun first => ⟨_, rfl⟩
  refine (invariant_iff_replacesFresh (peer 0) 2 _ ?_).mpr ?_
  · simp only [List.forall_mem_cons, RoutingOp.Canonical, RoutingOp.offered, Option.some.injEq,
      forall_eq']
    exact ⟨hcanon 129, hcanon 130, hcanon 131, hcanon 131, nofun, nofun⟩
  · decide +kernel

/-- A ping that times out after the bucket has moved: `c` is offered to
the full bucket of `a` and `b`, `b` leaves, `c` is offered again and
enters, and the pending `replace` of `a` by `c` stores `c` twice. -/
theorem replace_stores_candidate_twice :
    let peer (first : UInt8) : PeerId := ⟨first ::ᵥ List.Vector.replicate 31 0⟩
    let a := Contact.new (peer 129) []
    let b := Contact.new (peer 130) []
    let c := Contact.new (peer 131) []
    let before : List RoutingOp := [.insert a, .insert b]
    let after : List RoutingOp := [.insert c, .remove b.peerId, .insert c, .replace a c]
    (∀ op ∈ before ++ after, op.Canonical) ∧
      ((exec step (RoutingTable.new (peer 0) 2) before).insert c).2 = .full a ∧
      ¬Always step (Invariant (peer 0) 2) (RoutingTable.new (peer 0) 2) (before ++ after) := by
  intro peer a b c before after
  refine ⟨?_, by decide +kernel, ?_⟩
  · have hcanon : ∀ first, (Contact.new (peer first) []).Canonical := fun first => ⟨_, rfl⟩
    simp only [before, after, List.cons_append, List.nil_append, List.forall_mem_cons,
      RoutingOp.Canonical, RoutingOp.offered, Option.some.injEq, forall_eq']
    exact ⟨hcanon 129, hcanon 130, hcanon 131, nofun, hcanon 131, hcanon 131, nofun⟩
  · intro h
    -- The table names `c` twice in one bucket.
    have hunique : ((exec step (RoutingTable.new (peer 0) 2) (before ++ after)).contacts.map
        Contact.peerId).Nodup := h.last.unique
    revert hunique
    decide +kernel

end Runs

end DigDht.Routing
