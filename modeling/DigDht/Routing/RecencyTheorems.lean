/-
DigDht.Routing.RecencyTheorems — the order of a k-bucket is the order of
last offers, and what it takes to leave the table.

Recency is not stored: it is a place in a list that `offer` and `replace`
append to. `taken` is the contact an operation has the table take in, and
the log of a run is what it took in, in order. §1 says exactly what
`offer` and `insert` do; §2 keeps the buckets in step with the log
(`Recent`); §3 is what leaves and what stays.

A peer is known to the table by its `peer_id` TEXT, which is what
`offer` compares; a `peer_id` that does not decode, or is this node's,
has no bucket and is never taken.
-/
import DigDht.Lib.Recency
import DigDht.Routing.RoutingTableTheorems

namespace DigDht.Routing

open Keyspace Record Runs Recency

/-! ## §1 `offer` and `insert`, exactly -/

namespace KBucket

/-- The bucket with `c` at the back, moved there or new. -/
def withBack (b : KBucket) (c : Contact) : KBucket :=
  { b with contacts := b.without c.peerId ++ [c] }

/-- `offer` takes a contact it knows or has room for, and otherwise names
its front contact, if it has one. -/
theorem offer_eq (b : KBucket) (c : Contact) :
    b.offer c =
      if b.holds c.peerId = true ∨ b.contacts.length < b.capacity then (b.withBack c, .inserted)
      else (b, (b.contacts.head?.map InsertOutcome.full).getD .panicked) := by
  unfold offer withBack
  by_cases hholds : b.holds c.peerId = true
  · simp [hholds]
  · by_cases hroom : b.contacts.length < b.capacity
    · simp [hholds, hroom, without_of_not_holds hholds]
    · rw [if_neg hholds, if_neg hroom, if_neg (not_or.mpr ⟨hholds, hroom⟩)]
      cases b.contacts <;> rfl

theorem offer_full_iff {b : KBucket} {c lru : Contact} :
    (b.offer c).2 = .full lru ↔
      ¬b.holds c.peerId = true ∧ b.capacity ≤ b.contacts.length ∧
        b.contacts.head? = some lru := by
  rw [offer_eq]
  by_cases hroom : b.holds c.peerId = true ∨ b.contacts.length < b.capacity
  · rw [if_pos hroom]
    simp only [reduceCtorEq, false_iff]
    rintro ⟨hholds, hfull, -⟩
    exact hroom.elim hholds (by omega)
  · rw [if_neg hroom]
    obtain ⟨hholds, hfull⟩ := not_or.mp hroom
    cases b.contacts.head? <;> simp [hholds, Nat.not_lt.mp hfull]

/-- A bucket that refuses a contact stays as it is. -/
theorem offer_of_full {b : KBucket} {c lru : Contact} (h : (b.offer c).2 = .full lru) :
    (b.offer c).1 = b := by
  obtain ⟨hholds, hfull, -⟩ := offer_full_iff.mp h
  rw [offer_eq, if_neg (not_or.mpr ⟨hholds, Nat.not_lt.mpr hfull⟩)]

theorem mem_without_of_ne {b : KBucket} {x : String} {c : Contact} (hc : c ∈ b.contacts)
    (hne : c.peerId ≠ x) : c ∈ b.without x :=
  (List.mem_eraseP_of_neg (by simpa using hne)).mpr hc

end KBucket

namespace RoutingTable

/-- The `peer_id`s of the stored contacts. -/
def ids (t : RoutingTable) : List String :=
  t.contacts.map Contact.peerId

theorem mem_ids {t : RoutingTable} {x : String} :
    x ∈ t.ids ↔ ∃ i, x ∈ (t.bucket i).contacts.map Contact.peerId := by
  simp only [ids, List.mem_map, mem_contacts]
  constructor
  · rintro ⟨c, ⟨i, hc⟩, hx⟩
    exact ⟨i, c, hc, hx⟩
  · rintro ⟨i, c, hc, hx⟩
    exact ⟨c, ⟨i, hc⟩, hx⟩

theorem setBucket_bucket (t : RoutingTable) (i : Fin 256) : t.setBucket i (t.bucket i) = t := by
  have hbuckets : t.buckets.set i (t.buckets.get i) = t.buckets := by
    refine List.Vector.ext ?_
    intro j
    by_cases hij : i = j
    · rw [hij, List.Vector.get_set_same]
    · rw [List.Vector.get_set_of_ne hij]
  unfold setBucket bucket
  rw [hbuckets]

/-- A contact outlives a bucket update that keeps it, if it is there. -/
theorem mem_contacts_setBucket {t : RoutingTable} {i j : Fin 256} {b : KBucket} {d : Contact}
    (hd : d ∈ (t.bucket j).contacts) (hkept : j = i → d ∈ b.contacts) :
    d ∈ (t.setBucket i b).contacts := by
  refine mem_contacts.mpr ⟨j, ?_⟩
  rw [bucket_setBucket]
  by_cases hji : j = i
  · rw [if_pos hji]
    exact hkept hji
  · rw [if_neg hji]
    exact hd

end RoutingTable

section Steps

variable [Deps]

/-- The contact an operation has the table take in: the one of an insert
that went through, or the candidate of a replace that did. -/
def taken (t : RoutingTable) : RoutingOp → Option Contact
  | .insert contact =>
    (t.bucketOf contact).bind fun _ =>
      if (t.insert contact).2 = .inserted then some contact else none
  | .replace lru candidate => if (t.replace lru candidate).2 then some candidate else none
  | .remove _ => none

/-- What a run took in, in order. -/
abbrev offers (t : RoutingTable) (ops : List RoutingOp) : List Contact :=
  logged step taken t ops

/-- A replace is called with a candidate the table does not hold. -/
def CandidateNew (t : RoutingTable) : RoutingOp → Prop
  | .replace _ candidate => candidate.peerId ∉ t.ids
  | _ => True

instance decidableCandidateNew (t : RoutingTable) : ∀ op, Decidable (CandidateNew t op)
  | .replace _ candidate => inferInstanceAs (Decidable (candidate.peerId ∉ t.ids))
  | .insert _ | .remove _ => isTrue trivial

/-- An insert, exactly: nothing for a contact without a bucket, and else
what its bucket does. -/
theorem insert_of_bucket {t : RoutingTable} {c : Contact} {i : Fin 256}
    (h : t.bucketOf c = some i) :
    t.insert c = (t.setBucket i ((t.bucket i).offer c).1, ((t.bucket i).offer c).2) := by
  simp [RoutingTable.insert, h]

theorem insert_of_no_bucket {t : RoutingTable} {c : Contact} (h : t.bucketOf c = none) :
    t.insert c = (t, .inserted) := by
  simp [RoutingTable.insert, h]

/-- What an operation does to the buckets: it takes a contact in at the
back of one of them, drops a contact from one, or does neither. -/
theorem step_effect (t : RoutingTable) (op : RoutingOp) :
    (taken t op = none ∧ step t op = t) ∨
    (∃ c i, op = .insert c ∧ t.bucketOf c = some i ∧ taken t op = some c ∧
      step t op = t.setBucket i ((t.bucket i).withBack c)) ∨
    (∃ lru c i front rest, op = .replace lru c ∧ t.bucketOf c = some i ∧
      taken t op = some c ∧ (t.bucket i).contacts = front :: rest ∧
      front.peerId = lru.peerId ∧
      step t op = t.setBucket i { t.bucket i with contacts := rest ++ [c] }) ∨
    (∃ x i, op = .remove x ∧ taken t op = none ∧
      step t op = t.setBucket i { t.bucket i with contacts := (t.bucket i).without x }) := by
  cases op with
  | insert c =>
    cases hidx : t.bucketOf c with
    | none => exact Or.inl (by simp [taken, step, hidx, insert_of_no_bucket hidx])
    | some i =>
      by_cases hroom : (t.bucket i).holds c.peerId = true ∨
          (t.bucket i).contacts.length < (t.bucket i).capacity
      · refine Or.inr (Or.inl ⟨c, i, rfl, hidx, ?_, ?_⟩)
        · simp [taken, hidx, insert_of_bucket hidx, KBucket.offer_eq, hroom]
        · simp [step, insert_of_bucket hidx, KBucket.offer_eq, hroom]
      · left
        constructor
        · cases hhead : (t.bucket i).contacts.head? <;>
            simp [taken, hidx, insert_of_bucket hidx, KBucket.offer_eq, hroom, hhead]
        · simp [step, insert_of_bucket hidx, KBucket.offer_eq, hroom,
            RoutingTable.setBucket_bucket]
  | replace lru c =>
    cases hidx : t.bucketOf c with
    | none => exact Or.inl (by simp [taken, step, RoutingTable.replace, hidx])
    | some i =>
      cases hb : (t.bucket i).contacts with
      | nil =>
        left
        simp [taken, step, RoutingTable.replace, hidx, KBucket.replace, hb,
          RoutingTable.setBucket_bucket]
      | cons front rest =>
        by_cases hlru : front.peerId = lru.peerId
        · refine Or.inr (Or.inr (Or.inl ⟨lru, c, i, front, rest, rfl, hidx, ?_, hb, hlru, ?_⟩))
          · simp [taken, RoutingTable.replace, hidx, KBucket.replace, hb, hlru]
          · simp [step, RoutingTable.replace, hidx, KBucket.replace, hb, hlru]
        · left
          simp [taken, step, RoutingTable.replace, hidx, KBucket.replace, hb, hlru,
            RoutingTable.setBucket_bucket]
  | remove x =>
    cases hidx : (Deps.fromHex x).bind fun p => t.bucketFor (Key.fromPeerId p) with
    | none => exact Or.inl (by simp [taken, step, RoutingTable.remove, hidx])
    | some i =>
      refine Or.inr (Or.inr (Or.inr ⟨x, i, rfl, rfl, ?_⟩))
      simp [step, RoutingTable.remove, hidx, KBucket.remove_eq]

/-! ## §2 Buckets in step with the log -/

/-- Every bucket lists its contacts in the order they were last taken in,
as they were then. -/
structure Recent (localId : PeerId) (k : Nat) (t : RoutingTable) (log : List Contact) : Prop where
  placed : WellPlaced localId k t
  ordered : ∀ i, (t.bucket i).contacts.Sublist (latestOf Contact.peerId log)

theorem recent_new (localId : PeerId) (k : Nat) :
    Recent localId k (RoutingTable.new localId k) [] :=
  ⟨wellPlaced_new localId k, fun i => by simp [KBucket.new]⟩

variable {localId : PeerId} {k : Nat} {t : RoutingTable} {log : List Contact}

theorem Recent.nodup (h : Recent localId k t log) (i : Fin 256) :
    ((t.bucket i).contacts.map Contact.peerId).Nodup :=
  ((h.ordered i).map Contact.peerId).nodup nodup_latestOf

/-- A contact named like one of bucket `i` is for bucket `i`. -/
theorem WellPlaced.bucketOf_eq (h : WellPlaced localId k t) {i : Fin 256} {c : Contact}
    (hc : c.peerId ∈ (t.bucket i).contacts.map Contact.peerId) : t.bucketOf c = some i := by
  obtain ⟨d, hd, hid⟩ := List.mem_map.mp hc
  have hplaced := h.placed i d hd
  simpa only [RoutingTable.bucketOf, Contact.key, Contact.peer, hid] using hplaced

/-- Taking `c` in at the back of its bucket, where it is nowhere else in
what is left of it. -/
theorem Recent.take {l : List Contact} {i : Fin 256} {c : Contact} (h : Recent localId k t log)
    (hl : l.Sublist (t.bucket i).contacts) (hfresh : c.peerId ∉ l.map Contact.peerId)
    (hidx : t.bucketOf c = some i) (j : Fin 256) :
    ((t.setBucket i { t.bucket i with contacts := l ++ [c] }).bucket j).contacts.Sublist
      (latestOf Contact.peerId (log ++ [c])) := by
  rw [RoutingTable.bucket_setBucket]
  by_cases hj : j = i
  · rw [if_pos hj]
    exact append_sublist_latestOf_concat (hl.trans (h.ordered i)) hfresh
  · rw [if_neg hj]
    refine sublist_latestOf_concat (h.ordered j) ?_
    intro hc
    have hplaced := h.placed.bucketOf_eq hc
    rw [hidx] at hplaced
    exact hj (Option.some.inj hplaced).symm

/-- **One operation** keeps the buckets in step with the log. -/
theorem recent_step (h : Recent localId k t log) {op : RoutingOp} (hop : CandidateNew t op) :
    Recent localId k (step t op) (log ++ (taken t op).toList) := by
  refine ⟨wellPlaced_step h.placed op, ?_⟩
  intro j
  rcases step_effect t op with ⟨htaken, hstep⟩ | ⟨c, i, -, hidx, htaken, hstep⟩ |
    ⟨lru, c, i, front, rest, rfl, hidx, htaken, hb, -, hstep⟩ | ⟨x, i, -, htaken, hstep⟩
  · simpa [htaken, hstep] using h.ordered j
  · rw [htaken, hstep]
    exact h.take ((t.bucket i).without_sublist _) (KBucket.not_mem_without (h.nodup i)) hidx j
  · rw [htaken, hstep]
    have hrest : rest.Sublist (t.bucket i).contacts := hb ▸ List.sublist_cons_self front rest
    refine h.take hrest ?_ hidx j
    intro hmem
    exact hop (RoutingTable.mem_ids.mpr ⟨i, (hrest.map Contact.peerId).subset hmem⟩)
  · rw [htaken, hstep, RoutingTable.bucket_setBucket]
    by_cases hj : j = i
    · rw [if_pos hj]
      simpa using ((t.bucket i).without_sublist x).trans (h.ordered i)
    · rw [if_neg hj]
      simpa using h.ordered j

/-- **Every run** keeps the buckets in step with its log. -/
theorem recent_run (localId : PeerId) (k : Nat) {ops : List RoutingOp}
    (hops : EachStep step CandidateNew (RoutingTable.new localId k) ops) :
    Recent localId k (exec step (RoutingTable.new localId k) ops)
      (offers (RoutingTable.new localId k) ops) := by
  have h := logged_rule (f := taken) (Q := Recent localId k)
    (fun s log op hs hop => recent_step hs hop) (recent_new localId k) hops
  simpa using h

/-! ## §3 What leaves and what stays -/

/-- An insert moves or adds its own contact; every other one stays. -/
theorem mem_contacts_insert {c d : Contact} (hd : d ∈ t.contacts) (hne : d.peerId ≠ c.peerId) :
    d ∈ (step t (.insert c)).contacts := by
  obtain ⟨j, hj⟩ := RoutingTable.mem_contacts.mp hd
  rcases step_effect t (.insert c) with ⟨-, hstep⟩ | ⟨c', i, hop, -, -, hstep⟩ |
    ⟨lru, c', i, front, rest, hop, -⟩ | ⟨x, i, hop, -⟩
  · rwa [hstep]
  · cases hop
    rw [hstep]
    refine RoutingTable.mem_contacts_setBucket hj ?_
    rintro rfl
    exact List.mem_append_left _ (KBucket.mem_without_of_ne hj hne)
  · cases hop
  · cases hop

/-- An insert keeps every `peer_id`. -/
theorem mem_ids_insert {c : Contact} {x : String} (hx : x ∈ t.ids) :
    x ∈ (step t (.insert c)).ids := by
  obtain ⟨d, hd, rfl⟩ := List.mem_map.mp hx
  by_cases hne : d.peerId = c.peerId
  · obtain ⟨j, hj⟩ := RoutingTable.mem_contacts.mp hd
    rcases step_effect t (.insert c) with ⟨-, hstep⟩ | ⟨c', i, hop, hidx, -, hstep⟩ |
      ⟨lru, c', i, front, rest, hop, -⟩ | ⟨x, i, hop, -⟩
    · rwa [hstep]
    · cases hop
      rw [hstep, hne]
      refine List.mem_map_of_mem (RoutingTable.mem_contacts.mpr ⟨i, ?_⟩)
      rw [RoutingTable.bucket_setBucket_self]
      exact List.mem_append_right _ (List.mem_singleton_self c)
    · cases hop
    · cases hop
  · exact List.mem_map_of_mem (mem_contacts_insert hd hne)

/-- **Inserts displace nobody**: whoever is offered, the table keeps every
`peer_id` it knows, and every contact not offered again as it is. -/
theorem inserts_keep (t : RoutingTable) (offered : List Contact) :
    (∀ x ∈ t.ids, x ∈ (exec step t (offered.map .insert)).ids) ∧
      ∀ d ∈ t.contacts, d.peerId ∉ offered.map Contact.peerId →
        d ∈ (exec step t (offered.map .insert)).contacts := by
  induction offered generalizing t with
  | nil => simp
  | cons c offered ih =>
    obtain ⟨hids, hcontacts⟩ := ih (step t (.insert c))
    constructor
    · intro x hx
      exact hids x (mem_ids_insert hx)
    · intro d hd hfresh
      rw [List.map_cons, List.mem_cons, not_or] at hfresh
      exact hcontacts d (mem_contacts_insert hd hfresh.1) hfresh.2

/-- A `peer_id` leaves by its own removal, or as the front of the bucket
a replace names it in. -/
theorem leaves_cases (h : Recent localId k t log) {op : RoutingOp} {x : String} (hx : x ∈ t.ids)
    (hgone : x ∉ (step t op).ids) :
    op = .remove x ∨
    ∃ lru candidate i front, op = .replace lru candidate ∧ lru.peerId = x ∧
      front.peerId = x ∧ LeastRecent Contact.peerId log (t.bucket i).contacts front := by
  obtain ⟨d, hd, rfl⟩ := List.mem_map.mp hx
  obtain ⟨j, hj⟩ := RoutingTable.mem_contacts.mp hd
  have hleft : d ∉ (step t op).contacts := fun hin => hgone (List.mem_map_of_mem hin)
  cases op with
  | insert c => exact absurd (mem_ids_insert hx) hgone
  | replace lru c =>
    right
    rcases step_effect t (.replace lru c) with ⟨-, hstep⟩ | ⟨c', i, hop, -⟩ |
      ⟨lru', c', i, front, rest, hop, -, -, hb, hlru, hstep⟩ | ⟨x, i, hop, -⟩
    · exact absurd hd (hstep ▸ hleft)
    · cases hop
    · cases hop
      have hhead : (t.bucket i).contacts.head? = some front := by rw [hb]; rfl
      by_cases hfront : front = d
      · subst hfront
        exact ⟨lru, c, i, front, rfl, hlru.symm, rfl, leastRecent_of_head (h.ordered i) hhead⟩
      · refine absurd ?_ hleft
        rw [hstep]
        refine RoutingTable.mem_contacts_setBucket hj ?_
        rintro rfl
        rw [hb] at hj
        exact List.mem_append_left _ ((List.mem_cons.mp hj).resolve_left (Ne.symm hfront))
    · cases hop
  | remove x =>
    left
    rcases step_effect t (.remove x) with ⟨-, hstep⟩ | ⟨c', i, hop, -⟩ |
      ⟨lru', c', i, front, rest, hop, -⟩ | ⟨y, i, hop, -, hstep⟩
    · exact absurd hd (hstep ▸ hleft)
    · cases hop
    · cases hop
    · cases hop
      by_cases hdx : d.peerId = x
      · rw [hdx]
      · refine absurd ?_ hleft
        rw [hstep]
        refine RoutingTable.mem_contacts_setBucket hj ?_
        rintro rfl
        exact KBucket.mem_without_of_ne hj hdx

/-- An insert is refused exactly when the `peer_id` is new, not this
node's, and its bucket holds `k` contacts. -/
theorem insert_full_iff (hk : 1 ≤ k) (h : WellPlaced localId k t) (c : Contact) :
    (∃ lru, (t.insert c).2 = .full lru) ↔
      c.peerId ∉ t.ids ∧ c.key ≠ some (Key.fromPeerId localId) ∧
        ∃ i, t.bucketOf c = some i ∧ (t.bucket i).contacts.length = k := by
  cases hidx : t.bucketOf c with
  | none => simp [insert_of_no_bucket hidx]
  | some i =>
    have hlocal : c.key ≠ some (Key.fromPeerId localId) := by
      intro hkey
      rw [RoutingTable.bucketOf, hkey, Option.bind_some, RoutingTable.bucketFor, h.localKey_eq,
        Key.bucketIndex_distance_self] at hidx
      cases hidx
    -- Who has the id at all has it in the contact's own bucket.
    have hids : c.peerId ∈ t.ids ↔ (t.bucket i).holds c.peerId = true := by
      rw [RoutingTable.mem_ids, KBucket.holds_iff, ← List.mem_map]
      constructor
      · rintro ⟨j, hj⟩
        have hj' := h.bucketOf_eq hj
        rw [hidx] at hj'
        cases hj'
        exact hj
      · intro hi
        exact ⟨i, hi⟩
    have hcap := h.capacity_eq i
    have hlen := h.capped i
    simp only [insert_of_bucket hidx, KBucket.offer_full_iff, hids, Option.some.injEq,
      exists_eq_left', hcap, ne_eq, hlocal, not_false_eq_true, true_and]
    constructor
    · rintro ⟨lru, hholds, hfull, -⟩
      exact ⟨hholds, by omega⟩
    · rintro ⟨hholds, hfull⟩
      have hne : (t.bucket i).contacts ≠ [] := by
        intro hnil
        rw [hnil] at hfull
        simp at hfull
        omega
      exact ⟨(t.bucket i).contacts.head hne, hholds, by omega, List.head?_eq_some_head hne⟩

/-- A refused insert changes nothing and names the least recent contact. -/
theorem insert_of_full (h : Recent localId k t log) {c lru : Contact}
    (hfull : (t.insert c).2 = .full lru) :
    (t.insert c).1 = t ∧ ∃ i, t.bucketOf c = some i ∧
      LeastRecent Contact.peerId log (t.bucket i).contacts lru := by
  cases hidx : t.bucketOf c with
  | none => simp [insert_of_no_bucket hidx] at hfull
  | some i =>
    rw [insert_of_bucket hidx] at hfull ⊢
    obtain ⟨-, -, hhead⟩ := KBucket.offer_full_iff.mp hfull
    refine ⟨?_, i, rfl, leastRecent_of_head (h.ordered i) hhead⟩
    simp only [KBucket.offer_of_full hfull]
    exact t.setBucket_bucket i

/-- **Recency and eviction resistance.** In every state of a run whose
replaces bring in new candidates, each bucket lists its contacts in the
order of their last offers, as they were offered; a `peer_id` leaves only
by its own removal or by a replace that names it while it is the least
recent of its bucket; an insert is refused exactly when the peer is new,
not this node, and its bucket is full, and then nothing changes and the
least recent contact is reported. Inserts displace nobody. -/
theorem recency_and_eviction (localId : PeerId) (k : Nat) (hk : 1 ≤ k) (ops : List RoutingOp)
    (hops : EachStep step CandidateNew (RoutingTable.new localId k) ops) :
    let t := exec step (RoutingTable.new localId k) ops
    let log := offers (RoutingTable.new localId k) ops
    (∀ i, (t.bucket i).contacts.Sublist (latestOf Contact.peerId log)) ∧
    (∀ op x, x ∈ t.ids → x ∉ (step t op).ids →
      op = .remove x ∨
      ∃ lru candidate i front, op = .replace lru candidate ∧ lru.peerId = x ∧
        front.peerId = x ∧ LeastRecent Contact.peerId log (t.bucket i).contacts front) ∧
    (∀ c, (∃ lru, (t.insert c).2 = .full lru) ↔
      c.peerId ∉ t.ids ∧ c.key ≠ some (Key.fromPeerId localId) ∧
        ∃ i, t.bucketOf c = some i ∧ (t.bucket i).contacts.length = k) ∧
    (∀ c lru, (t.insert c).2 = .full lru →
      (t.insert c).1 = t ∧ ∃ i, t.bucketOf c = some i ∧
        LeastRecent Contact.peerId log (t.bucket i).contacts lru) ∧
    ∀ offered : List Contact, (∀ c ∈ offered, c.peerId ∉ t.ids) →
      ∀ d ∈ t.contacts, d ∈ (exec step t (offered.map .insert)).contacts := by
  intro t log
  have h : Recent localId k t log := recent_run localId k hops
  refine ⟨h.ordered, ?_, insert_full_iff hk h.placed, ?_, ?_⟩
  · intro op x hx hgone
    exact leaves_cases h hx hgone
  · intro c lru hfull
    exact insert_of_full h hfull
  · intro offered hnew d hd
    refine (inserts_keep t offered).2 d hd ?_
    intro hmem
    obtain ⟨c, hc, hid⟩ := List.mem_map.mp hmem
    exact hnew c hc (hid ▸ List.mem_map_of_mem hd)

end Steps

section Runs

attribute [local instance] hexIds

/-- A run at `k = 2`: `a` answers again before `c` replaces `b`. -/
theorem recency_of_refresh_and_replace :
    let peer (first : UInt8) : PeerId := ⟨first ::ᵥ List.Vector.replicate 31 0⟩
    let a := Contact.new (peer 129) []
    let b := Contact.new (peer 130) []
    let c := Contact.new (peer 131) []
    let start := RoutingTable.new (peer 0) 2
    let ops : List RoutingOp := [.insert a, .insert b, .insert c, .insert a, .replace b c]
    ((exec step start ops).bucket 255).contacts = [a, c] ∧
      ((exec step start ops).bucket 255).contacts.Sublist
        (latestOf Contact.peerId (offers start ops)) := by
  intro peer a b c start ops
  refine ⟨by decide +kernel, ?_⟩
  exact (recency_and_eviction (peer 0) 2 (by decide) ops (by decide +kernel)).1 255

end Runs

end DigDht.Routing
