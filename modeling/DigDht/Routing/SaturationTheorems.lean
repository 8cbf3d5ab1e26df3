/-
DigDht.Routing.SaturationTheorems — what a table that has been offered
everybody can tell.

A table never evicts for a newcomer, so it does not hold everybody it was
offered. It does COVER them: an id it does not hold belongs in a bucket
that is full. Offering covers (`covers_insert`), and no insert uncovers
(`Covers.insert`). §2 is what this is worth to a lookup, and the step of
Kademlia routing: asked for the contacts closest to a target, a table
names the member `x`, or it names `k` contacts — and if `x` is nearer to
the target than the node itself, all of these are nearer too
(`closest_progress`).
-/
import DigDht.Routing.DistanceTheorems

namespace DigDht.Routing

open Keyspace Record Runs Selection

/-! ## §1 Covering -/

/-- `offer` drops nobody; it takes the contact in, or the bucket is full. -/
theorem KBucket.offer_grows (b : KBucket) (c : Contact) :
    (∀ x, b.holds x = true → (b.offer c).1.holds x = true) ∧
      b.contacts.length ≤ (b.offer c).1.contacts.length ∧
      ((b.offer c).1.holds c.peerId = true ∨ b.capacity ≤ b.contacts.length) := by
  unfold offer
  by_cases hholds : b.holds c.peerId = true
  · rw [if_pos hholds]
    have hlen := length_without hholds
    refine ⟨?_, by simp; omega, Or.inl (by simp [holds])⟩
    intro x hx
    by_cases hsame : c.peerId = x
    · simp [holds, hsame]
    · obtain ⟨d, hd, rfl⟩ := holds_iff.mp hx
      refine holds_iff.mpr ⟨d, List.mem_append_left _ ?_, rfl⟩
      exact (List.mem_eraseP_of_neg (by simpa using Ne.symm hsame)).mpr hd
  · rw [if_neg hholds]
    by_cases hroom : b.contacts.length < b.capacity
    · rw [if_pos hroom]
      refine ⟨?_, by simp, Or.inl (by simp [holds])⟩
      intro x hx
      simpa [holds] using Or.inl hx
    · rw [if_neg hroom]
      have hfull := Nat.not_lt.mp hroom
      split <;> exact ⟨fun _ hx => hx, le_rfl, Or.inr hfull⟩

/-- Keys of one bucket are all nearer to a target than the local key is,
or none of them is. -/
theorem distance_lt_of_bucket {a x z : Key} {i : Fin 256}
    (hx : (a.distance x).bucketIndex = some i) (hz : (a.distance z).bucketIndex = some i)
    {target : Key} (hlt : target.distance x < target.distance a) :
    target.distance z < target.distance a := by
  obtain ⟨hxne, hxlog⟩ := Distance.bucketIndex_eq_some_iff_log2.mp hx
  obtain ⟨hzne, hzlog⟩ := Distance.bucketIndex_eq_some_iff_log2.mp hz
  rw [Key.toNat_distance] at hxne hxlog hzne hzlog
  rw [Distance.lt_iff, Key.toNat_distance, Key.toNat_distance] at hlt ⊢
  exact BigEndian.xor_lt_of_log2_eq (Nat.xor_ne_zero_iff.mp hxne) (Nat.xor_ne_zero_iff.mp hzne)
    (hxlog.trans hzlog.symm) hlt

section Tables

variable [Deps]

theorem RoutingTable.bucketOf_congr (t : RoutingTable) {c d : Contact}
    (h : c.peerId = d.peerId) : t.bucketOf c = t.bucketOf d := by
  simp only [bucketOf, Contact.key, Contact.peer, h]

theorem RoutingTable.bucketOf_setBucket (t : RoutingTable) (i : Fin 256) (b : KBucket)
    (c : Contact) : (t.setBucket i b).bucketOf c = t.bucketOf c := rfl

theorem RoutingTable.insert_cases (t : RoutingTable) (c : Contact) :
    (t.bucketOf c = none ∧ (t.insert c).1 = t) ∨
    ∃ i, t.bucketOf c = some i ∧ (t.insert c).1 = t.setBucket i ((t.bucket i).offer c).1 := by
  cases hidx : t.bucketOf c with
  | none => exact Or.inl ⟨rfl, by simp [insert, hidx]⟩
  | some i => exact Or.inr ⟨i, rfl, by simp [insert, hidx]⟩

/-- `x` is held, or the bucket it belongs in is full. -/
def RoutingTable.Covers (t : RoutingTable) (x : String) : Prop :=
  ∀ i ∈ t.bucketOf ⟨x, []⟩, (t.bucket i).holds x = true ∨ t.k ≤ (t.bucket i).contacts.length

variable {localId : PeerId} {k : Nat} {t : RoutingTable}

/-- Whom a table is offered, it covers. -/
theorem covers_insert (hcap : ∀ i, (t.bucket i).capacity = t.k) (c : Contact) :
    (t.insert c).1.Covers c.peerId := by
  intro i hi
  have hbucket : t.bucketOf ⟨c.peerId, []⟩ = t.bucketOf c := t.bucketOf_congr rfl
  rcases t.insert_cases c with ⟨hnone, heq⟩ | ⟨j, hj, heq⟩
  · rw [heq, hbucket, hnone] at hi
    cases hi
  · rw [heq, RoutingTable.bucketOf_setBucket, hbucket, hj] at hi
    cases hi
    obtain ⟨-, hlen, hoffered⟩ := (t.bucket i).offer_grows c
    rw [hcap] at hoffered
    rw [heq, RoutingTable.bucket_setBucket_self]
    exact hoffered.imp_right fun hfull => le_trans hfull hlen

/-- No insert uncovers. -/
theorem RoutingTable.Covers.insert {x : String} (h : t.Covers x) (c : Contact) :
    (t.insert c).1.Covers x := by
  rcases t.insert_cases c with ⟨-, heq⟩ | ⟨j, -, heq⟩
  · rwa [heq]
  · rw [heq]
    intro i hi
    obtain ⟨hheld, hlen, -⟩ := (t.bucket j).offer_grows c
    rw [bucket_setBucket]
    split
    · rename_i hij
      subst hij
      exact (h i hi).imp (hheld x) fun hfull => le_trans hfull hlen
    · exact h i hi

/-! ## §2 Routing -/

/-- A contact that `closest` leaves out is no nearer than one it returns. -/
theorem nearer_of_left_out (hkeys : ∀ c ∈ t.contacts, c.key.isSome = true) {target : Key}
    {c d : Contact} (hd : d ∈ t.contacts) (hout : d ∉ t.closest target)
    (hc : c ∈ t.closest target) : c.Nearer target d := by
  obtain ⟨rest, hperm, hsorted, -⟩ := RoutingTable.closest_split hkeys target
  obtain ⟨-, -, hcross⟩ := List.pairwise_append.mp hsorted
  exact hcross c hc d ((List.mem_append.mp (hperm.mem_iff.mpr hd)).resolve_left hout)

variable (ht : WellPlaced localId t.k t)

include ht in
theorem length_closest_of_left_out {target : Key} {d : Contact} (hd : d ∈ t.contacts)
    (hout : d ∉ t.closest target) : (t.closest target).length = t.k := by
  obtain ⟨rest, hperm, -, hlen⟩ := RoutingTable.closest_split ht.key_isSome target
  have hrest : d ∈ rest := (List.mem_append.mp (hperm.mem_iff.mpr hd)).resolve_left hout
  have hsum := hperm.length_eq
  rw [List.length_append, ← t.len_eq] at hsum
  have hpos := List.length_pos_of_mem hrest
  omega

include ht in
/-- A full bucket all of which is nearer to the target than the local key
leaves no room for anybody that is not. -/
theorem closest_lt_of_full (hunique : Unique t) {i : Fin 256}
    (hfull : t.k ≤ (t.bucket i).contacts.length) {target : Key}
    (hnear : ∀ d ∈ (t.bucket i).contacts, ∀ kd ∈ d.key,
      target.distance kd < target.distance t.localKey) :
    ∀ c ∈ t.closest target, ∀ kc ∈ c.key, target.distance kc < target.distance t.localKey := by
  intro c hc kc hkc
  by_contra hfar
  have hbucket : (t.bucket i).contacts ⊆ t.closest target := by
    intro d hd
    by_contra hout
    have hmem : d ∈ t.contacts := RoutingTable.mem_contacts.mpr ⟨i, hd⟩
    obtain ⟨kd, hkd⟩ := Option.isSome_iff_exists.mp (ht.key_isSome d hmem)
    have hle := nearer_of_left_out ht.key_isSome hmem hout hc kc hkc kd hkd
    exact hfar (lt_of_le_of_lt hle (hnear d hd kd hkd))
  have hnew : c ∉ (t.bucket i).contacts := fun hd => hfar (hnear c hd kc hkc)
  have hsub : c :: (t.bucket i).contacts ⊆ t.closest target :=
    List.cons_subset.mpr ⟨hc, hbucket⟩
  have hnodup : (c :: (t.bucket i).contacts).Nodup :=
    List.nodup_cons.mpr ⟨hnew, (hunique i).of_map⟩
  have hcount := (hnodup.subperm hsub).length_le
  have hcap := t.length_closest_le target
  rw [List.length_cons] at hcount
  omega

include ht in
/-- **A step of Kademlia routing.** A table that covers `x` names it among
the contacts closest to a target, or it names `k` contacts; and if `x` is
nearer to the target than the node itself, so are all of these. -/
theorem closest_progress (hunique : Unique t) {x : String} (hcovers : t.Covers x) {p : PeerId}
    (hp : Deps.fromHex x = some p) (hother : p ≠ localId) (target : Key) :
    x ∈ (t.closest target).map Contact.peerId ∨
      ((t.closest target).length = t.k ∧
        (target.distance (Key.fromPeerId p) < target.distance (Key.fromPeerId localId) →
          ∀ c ∈ t.closest target, ∀ key ∈ c.key,
            target.distance key < target.distance (Key.fromPeerId localId))) := by
  rw [or_iff_not_imp_left]
  intro hout
  rw [← ht.localKey_eq]
  -- The bucket `x` belongs in.
  obtain ⟨i, hi⟩ : ∃ i, t.bucketFor (Key.fromPeerId p) = some i := by
    refine Option.isSome_iff_exists.mp (Option.isSome_iff_ne_none.mpr ?_)
    intro hnone
    rw [RoutingTable.bucketFor, Distance.bucketIndex_eq_none_iff_toNat,
      Key.toNat_distance_eq_zero_iff, ht.localKey_eq] at hnone
    exact hother (Key.fromPeerId_injective hnone.symm)
  have hbucket : t.bucketOf ⟨x, []⟩ = some i := by
    simpa [RoutingTable.bucketOf, Contact.key, Contact.peer, hp] using hi
  by_cases hheld : (t.bucket i).holds x = true
  · -- It is held, and still others come first.
    obtain ⟨d, hd, rfl⟩ := KBucket.holds_iff.mp hheld
    have hmem : d ∈ t.contacts := RoutingTable.mem_contacts.mpr ⟨i, hd⟩
    have hleft : d ∉ t.closest target := fun hin => hout (List.mem_map_of_mem hin)
    refine ⟨length_closest_of_left_out ht hmem hleft, ?_⟩
    intro hlt c hc key hkey
    have hkd : d.key = some (Key.fromPeerId p) := by simp [Contact.key, Contact.peer, hp]
    exact lt_of_le_of_lt (nearer_of_left_out ht.key_isSome hmem hleft hc key hkey _ hkd) hlt
  · -- It is not, and the bucket is full of contacts as near as it is.
    have hfull := (hcovers i hbucket).resolve_left hheld
    have hlen : (t.closest target).length = t.k := by
      obtain ⟨rest, -, -, hlen⟩ := RoutingTable.closest_split ht.key_isSome target
      have hle : (t.bucket i).contacts.length ≤ t.len := by
        have hsub : (t.bucket i).contacts ⊆ t.contacts := fun d hd =>
          RoutingTable.mem_contacts.mpr ⟨i, hd⟩
        rw [t.len_eq]
        exact ((hunique i).of_map.subperm hsub).length_le
      omega
    refine ⟨hlen, ?_⟩
    intro hlt
    refine closest_lt_of_full ht hunique hfull ?_
    intro d hd kd hkd
    have hplaced := ht.placed i d hd
    rw [RoutingTable.bucketOf, hkd, Option.bind_some] at hplaced
    exact distance_lt_of_bucket hi hplaced hlt

end Tables

end DigDht.Routing
