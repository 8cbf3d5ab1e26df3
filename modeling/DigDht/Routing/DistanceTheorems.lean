/-
DigDht.Routing.DistanceTheorems — what the XOR distance means for the
table.

§1: buckets are kept around the local key, `closest` asks about any other
one. It ranks ALL stored contacts, and every stored contact has a key, so
what it returns is the front of a sorted permutation of the table
(`closest_split`). Whatever the buckets are, nothing nearer is left out
(`closest_exact`).

§2: around the local key the buckets ARE the order: a contact of a lower
one is nearer than a contact of a higher one (`xor_geometry`).
-/
import DigDht.Keyspace.MetricTheorems
import DigDht.Routing.RoutingTableTheorems

namespace DigDht.Routing

open Keyspace Record Runs Selection

section Distances

variable [Deps]

/-- `c` is at most as far from `target` as `d`. -/
def Contact.Nearer (target : Key) (c d : Contact) : Prop :=
  ∀ kc ∈ c.key, ∀ kd ∈ d.key, target.distance kc ≤ target.distance kd

/-! ## §1 `closest` -/

namespace RoutingTable

/-- The stored contacts with their distances, as `closest` sorts them. -/
def ranked (t : RoutingTable) (target : Key) : List (Contact × Distance) :=
  t.contacts.filterMap fun c => c.key.map fun key => (c, target.distance key)

theorem closest_eq (t : RoutingTable) (target : Key) :
    t.closest target = ((sortByKey Prod.snd (t.ranked target)).take t.k).map Prod.fst := rfl

theorem snd_of_mem_ranked {t : RoutingTable} {target : Key} {x : Contact × Distance}
    (hx : x ∈ t.ranked target) {key : Key} (hkey : key ∈ x.1.key) :
    x.2 = target.distance key := by
  obtain ⟨c, -, heq⟩ := List.mem_filterMap.mp hx
  obtain ⟨key', hkey', rfl⟩ := Option.map_eq_some_iff.mp heq
  have hsame : key' = key := Option.some.inj (hkey'.symm.trans hkey)
  exact hsame ▸ rfl

theorem map_fst_ranked {t : RoutingTable} (hkeys : ∀ c ∈ t.contacts, c.key.isSome = true)
    (target : Key) : (t.ranked target).map Prod.fst = t.contacts := by
  unfold ranked
  revert hkeys
  induction t.contacts with
  | nil => simp
  | cons c l ih =>
    intro hkeys
    obtain ⟨hc, hl⟩ := List.forall_mem_cons.mp hkeys
    obtain ⟨key, hkey⟩ := Option.isSome_iff_exists.mp hc
    rw [List.filterMap_cons, hkey]
    simp [ih hl]

/-- `closest` is the front of the table in the order of the distances. -/
theorem closest_split {t : RoutingTable} (hkeys : ∀ c ∈ t.contacts, c.key.isSome = true)
    (target : Key) :
    ∃ rest, (t.closest target ++ rest).Perm t.contacts ∧
      (t.closest target ++ rest).Pairwise (Contact.Nearer target) ∧
      (t.closest target).length = min t.k t.len := by
  let sorted := sortByKey Prod.snd (t.ranked target)
  have hperm : (sorted.map Prod.fst).Perm t.contacts := by
    have hmap := (sortByKey_perm Prod.snd (t.ranked target)).map Prod.fst
    rwa [map_fst_ranked hkeys] at hmap
  have hsplit : t.closest target ++ (sorted.drop t.k).map Prod.fst = sorted.map Prod.fst := by
    rw [closest_eq, ← List.map_append, List.take_append_drop]
  refine ⟨(sorted.drop t.k).map Prod.fst, hsplit ▸ hperm, ?_, ?_⟩
  · rw [hsplit, List.pairwise_map]
    refine (sortByKey_pairwise Prod.snd (t.ranked target)).imp_of_mem ?_
    intro x y hx hy hle kx hkx ky hky
    rw [mem_sortByKey] at hx hy
    rwa [snd_of_mem_ranked hx hkx, snd_of_mem_ranked hy hky] at hle
  · have hlen := hperm.length_eq
    rw [List.length_map] at hlen
    rw [closest_eq, List.length_map, List.length_take, len_eq, ← hlen]

/-- The closest contacts of a table are distinct if its contacts are. -/
theorem nodup_closest {t : RoutingTable} (hkeys : ∀ c ∈ t.contacts, c.key.isSome = true)
    (h : (t.contacts.map Contact.peerId).Nodup) (target : Key) :
    ((t.closest target).map Contact.peerId).Nodup := by
  obtain ⟨rest, hperm, -, -⟩ := closest_split hkeys target
  have hboth := ((hperm.map Contact.peerId).nodup_iff).mpr h
  rw [List.map_append] at hboth
  exact (List.sublist_append_left _ _).nodup hboth

end RoutingTable

theorem WellPlaced.key_isSome {localId : PeerId} {k : Nat} {t : RoutingTable}
    (h : WellPlaced localId k t) : ∀ c ∈ t.contacts, c.key.isSome = true := by
  intro c hc
  obtain ⟨i, hi⟩ := RoutingTable.mem_contacts.mp hc
  obtain ⟨key, hkey, -⟩ := Option.bind_eq_some_iff.mp (h.placed i c hi)
  rw [hkey]
  rfl

/-- **`closest` is exact.** In every table a run leads to whose replaces
are fresh (inserts and removals always are), `closest` returns `k`
contacts or all there are, stored ones, each once, in the order of their
distances to the target; a stored contact that it leaves out is at least
as far as every one it returns. -/
theorem closest_exact (localId : PeerId) (k : Nat) (ops : List RoutingOp)
    (hops : EachStep step ReplacesFresh (RoutingTable.new localId k) ops) (target : Key) :
    let t := exec step (RoutingTable.new localId k) ops
    (∀ c ∈ t.contacts, c.key.isSome = true) ∧
    (t.closest target).length = min k t.len ∧
    (∀ c ∈ t.closest target, c ∈ t.contacts) ∧
    ((t.closest target).map Contact.peerId).Nodup ∧
    (t.closest target).Pairwise (Contact.Nearer target) ∧
    ∀ d ∈ t.contacts, d ∉ t.closest target → ∀ c ∈ t.closest target, c.Nearer target d := by
  intro t
  have hk : t.k = k :=
    exec_invariant (Q := fun s => s.k = k) (fun s op hs => (k_step s op).trans hs) rfl ops
  have hunique : WellPlaced localId k t ∧ Unique t :=
    (always_of_eachStep (Q := fun s => WellPlaced localId k s ∧ Unique s)
      (fun s op hs hop => ⟨wellPlaced_step hs.1 op, (unique_step_iff hs.2 op).mpr hop⟩)
      ⟨wellPlaced_new localId k, fun i => by simp [KBucket.new]⟩ hops).last
  obtain ⟨hplaced, hunique⟩ := hunique
  have hids : (t.contacts.map Contact.peerId).Nodup :=
    (nodup_contacts_iff hplaced.placed).mpr hunique
  obtain ⟨rest, hperm, hsorted, hlen⟩ := RoutingTable.closest_split hplaced.key_isSome target
  obtain ⟨hfront, -, hcross⟩ := List.pairwise_append.mp hsorted
  refine ⟨hplaced.key_isSome, hk ▸ hlen, ?_, RoutingTable.nodup_closest hplaced.key_isSome hids _,
    hfront, ?_⟩
  · intro c hc
    exact RoutingTable.mem_of_mem_closest hc
  · intro d hd hout c hc
    have hrest : d ∈ rest := (List.mem_append.mp (hperm.mem_iff.mpr hd)).resolve_left hout
    exact hcross c hc d hrest

/-! ## §2 Buckets -/

/-- Contacts of a lower bucket are nearer to the local key. -/
theorem distance_lt_of_bucket_lt {localId : PeerId} {k : Nat} {t : RoutingTable}
    (h : WellPlaced localId k t) {i j : Fin 256} (hij : i < j) {c d : Contact}
    (hc : c ∈ (t.bucket i).contacts) (hd : d ∈ (t.bucket j).contacts) :
    ∃ kc kd, c.key = some kc ∧ d.key = some kd ∧
      (Key.fromPeerId localId).distance kc < (Key.fromPeerId localId).distance kd := by
  obtain ⟨kc, hkc, hi⟩ := Option.bind_eq_some_iff.mp (h.placed i c hc)
  obtain ⟨kd, hkd, hj⟩ := Option.bind_eq_some_iff.mp (h.placed j d hd)
  refine ⟨kc, kd, hkc, hkd, ?_⟩
  rw [← h.localKey_eq]
  exact Distance.lt_of_bucketIndex_lt hi hj hij

/-- **XOR geometry.** The distance is a metric on the 256-bit numbers the
keys are, ordered as its numbers are; the bucket index of a distance is
the place of its highest bit, none for zero; keys in bucket `i` of each
other share exactly their first `255 - i` bits; and every contact in a
lower bucket of a table is strictly nearer to the node than every contact
in a higher one. -/
theorem xor_geometry :
    (∀ a b : Key, a.distance b = b.distance a) ∧
    (∀ a b : Key, (a.distance b).toNat = 0 ↔ a = b) ∧
    (∀ a b c : Key, (a.distance c).toNat ≤ (a.distance b).toNat + (b.distance c).toNat) ∧
    (∀ d e : Distance, (d ≤ e ↔ d.toNat ≤ e.toNat) ∧ (d < e ↔ d.toNat < e.toNat)) ∧
    (∀ d : Distance, d.bucketIndex = none ↔ d.toNat = 0) ∧
    (∀ (d : Distance) (n : Nat), d.bucketIndex.map Fin.val = some n ↔
      2 ^ n ≤ d.toNat ∧ d.toNat < 2 ^ (n + 1)) ∧
    (∀ (a b : Key) (i : Fin 256), (a.distance b).bucketIndex = some i ↔
      a.SharesExactly b (255 - i.val)) ∧
    ∀ (localId : PeerId) (k : Nat) (ops : List RoutingOp),
      let t := exec step (RoutingTable.new localId k) ops
      ∀ i j, i < j → ∀ c ∈ (t.bucket i).contacts, ∀ d ∈ (t.bucket j).contacts,
        ∃ kc kd, c.key = some kc ∧ d.key = some kd ∧
          (Key.fromPeerId localId).distance kc < (Key.fromPeerId localId).distance kd := by
  refine ⟨Key.distance_comm, Key.toNat_distance_eq_zero_iff, Key.distance_triangle, ?_, ?_, ?_,
    ?_, ?_⟩
  · intro d e
    exact ⟨Distance.le_iff d e, Distance.lt_iff d e⟩
  · intro d
    exact Distance.bucketIndex_eq_none_iff_toNat
  · intro d n
    exact Distance.bucketIndex_val_eq_some_iff
  · intro a b i
    exact Key.bucketIndex_distance_iff
  · intro localId k ops t i j hij c hc d hd
    have hplaced : WellPlaced localId k t :=
      exec_invariant (Q := WellPlaced localId k) (fun _ op hs => wellPlaced_step hs op)
        (wellPlaced_new localId k) ops
    exact distance_lt_of_bucket_lt hplaced hij hc hd

end Distances

section Runs

attribute [local instance] hexIds

/-- Three contacts, two of them asked for. -/
theorem closest_exact_of_three :
    let peer (first : UInt8) : PeerId := ⟨first ::ᵥ List.Vector.replicate 31 0⟩
    let start := RoutingTable.new (peer 0) 2
    let ops : List RoutingOp := [.insert (Contact.new (peer 1) []),
      .insert (Contact.new (peer 2) []), .insert (Contact.new (peer 128) []),
      .remove (Contact.new (peer 9) []).peerId]
    let t := exec step start ops
    (t.closest (Key.fromPeerId (peer 130))).length = min 2 t.len ∧ t.len = 3 := by
  intro peer start ops t
  exact ⟨(closest_exact (peer 0) 2 ops (by decide +kernel) (Key.fromPeerId (peer 130))).2.1,
    by decide +kernel⟩

end Runs

end DigDht.Routing
