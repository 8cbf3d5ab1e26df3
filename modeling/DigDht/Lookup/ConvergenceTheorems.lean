/-
DigDht.Lookup.ConvergenceTheorems — a lookup finds the nearest peers of a
network whose members know them.

§1 is the specification: a `Network` is a finite set of ids with distinct
keys, `nearest` its `k` members closest to a target. §2 is the invariant.
A member of `nearest` that was seen stays on the shortlist (`Kept`): the
cut keeps at least the first `k` of what is listed, and nothing but
members is listed. Any one answer makes all of `nearest` seen. So once a
round was folded the shortlist begins with `nearest`, whichever exit the
walk takes (`converges`).
-/
import DigDht.Lookup.RoundTheorems

namespace DigDht.Lookup

open Keyspace Record Routing Selection BoundedLoop

section Networks

variable [Deps]

/-! ## §1 Networks -/

/-- A finite set of peers with distinct keys. -/
structure Network where
  ids : List String
  spells : ∀ x ∈ ids, ∃ p, Deps.fromHex x = some p
  distinct : (ids.map Deps.fromHex).Nodup

namespace Network

variable (N : Network) (target : Key)

/-- The members by distance, closest first. -/
def byDistance : List String :=
  sortByKey (distanceOf target) N.ids

/-- The `k` members closest to `target`, closest first. -/
def nearest (k : Nat) : List String :=
  (N.byDistance target).take k

theorem mem_byDistance {x : String} : x ∈ N.byDistance target ↔ x ∈ N.ids :=
  mem_sortByKey _

theorem eq_of_fromHex_eq {x y : String} (hx : x ∈ N.ids) (hy : y ∈ N.ids)
    (h : Deps.fromHex x = Deps.fromHex y) : x = y :=
  List.inj_on_of_nodup_map N.distinct hx hy h

theorem nodup_distances : (N.ids.map (distanceOf target)).Nodup := by
  refine N.distinct.of_map.map_on ?_
  intro x hx y hy h
  obtain ⟨a, ha⟩ := N.spells x hx
  obtain ⟨b, hb⟩ := N.spells y hy
  exact N.eq_of_fromHex_eq hx hy (by rw [ha, hb, distanceOf_inj ha hb h])

theorem byDistance_strict :
    (N.byDistance target).Pairwise fun x y => distanceOf target x < distanceOf target y :=
  sortByKey_strict _ (N.nodup_distances target)

end Network

/-- Sorted entries with distinct distances have strictly sorted ids. -/
theorem ids_strict {target : Key} {l : List ShortlistEntry}
    (hmeasured : ∀ e ∈ l, Measured target e)
    (hsorted : l.Pairwise fun a b => a.distance < b.distance) :
    (ids l).Pairwise fun x y => distanceOf target x < distanceOf target y := by
  refine List.pairwise_map.mpr (hsorted.imp_of_mem ?_)
  intro a b ha hb hab
  rwa [← (hmeasured a ha).distance_eq, ← (hmeasured b hb).distance_eq]

namespace LookupParams

variable (p : LookupParams)

/-- An answer of a member that knows the members closest to the target,
in the part of the answer that is read. -/
def Informed (N : Network) (answer : Contact × Option QueryOutcome) : Prop :=
  ∃ o, answer.2 = some o ∧ (∀ c ∈ o.closer, c.peerId ∈ N.ids) ∧
    N.nearest p.target p.k ⊆ (o.closer.take p.closerCap).map Contact.peerId

/-! ## §2 What the walk keeps -/

section Walks

variable {p} {N : Network} {peers : Peers} {seeds : List Contact}

theorem mem_of_mem_heard (hseeds : ∀ c ∈ seeds, c.peerId ∈ N.ids) {w : Walk}
    (hinformed : ∀ a ∈ w.trace, p.Informed N a) :
    ∀ c ∈ p.heard seeds w, c.peerId ∈ N.ids := by
  intro c hc
  rcases List.mem_append.mp hc with hc | hc
  · exact hseeds c hc
  · obtain ⟨a, ha, hc⟩ := List.mem_flatMap.mp hc
    obtain ⟨o, ho, hmembers, -⟩ := hinformed a ha
    rw [learnt, ho] at hc
    exact hmembers c (List.mem_of_mem_take hc)

/-- One answer makes every member of `nearest` known. -/
theorem seen_of_informed {w : Walk} (hw : p.Grounded peers seeds w) (hasked : w.trace ≠ [])
    (hinformed : ∀ a ∈ w.trace, p.Informed N a) :
    ∀ x ∈ N.nearest p.target p.k, x ∈ w.seen := by
  intro x hx
  obtain ⟨a, ha⟩ := List.exists_mem_of_ne_nil _ hasked
  obtain ⟨o, ho, -, hnearest⟩ := hinformed a ha
  obtain ⟨c, hc, hid⟩ := List.mem_map.mp (hnearest hx)
  have hmember : x ∈ N.ids := (N.mem_byDistance p.target).mp (List.mem_of_mem_take hx)
  refine (hw.seen_iff x).mpr (mem_keyedIds.mpr ⟨⟨c, ?_, hid⟩, N.spells x hmember⟩)
  refine List.mem_append_right _ (List.mem_flatMap.mpr ⟨a, ha, ?_⟩)
  rwa [learnt, ho]

/-- Nothing but members is listed. -/
def Inside (N : Network) (l : List ShortlistEntry) : Prop :=
  ∀ x ∈ ids l, x ∈ N.ids

/-- The members of `nearest` that were seen are listed. -/
def Kept (p : LookupParams) (N : Network) (w : Walk) : Prop :=
  ∀ x ∈ N.nearest p.target p.k, x ∈ w.seen → x ∈ ids w.shortlist

theorem nodup_distances_of_inside {l : List ShortlistEntry} (hids : (ids l).Nodup)
    (hmeasured : ∀ e ∈ l, Measured p.target e) (hinside : Inside N l) :
    (l.map ShortlistEntry.distance).Nodup :=
  nodup_distances hids hmeasured fun x hx y hy =>
    N.eq_of_fromHex_eq (hinside x hx) (hinside y hy)

/-- The cut does not lose a member of `nearest`. -/
theorem mem_ids_sortAndCap {l : List ShortlistEntry} (hids : (ids l).Nodup)
    (hmeasured : ∀ e ∈ l, Measured p.target e) (hinside : Inside N l) {x : String}
    (hnearest : x ∈ N.nearest p.target p.k) (hx : x ∈ ids l) : x ∈ ids (p.sortAndCap l) := by
  have hdistinct := nodup_distances_of_inside hids hmeasured hinside
  have hperm : (ids (sortByKey ShortlistEntry.distance l)).Perm (ids l) :=
    (sortByKey_perm _ l).map _
  have hstrict : (ids (sortByKey ShortlistEntry.distance l)).Pairwise
      fun x y => distanceOf p.target x < distanceOf p.target y :=
    ids_strict (fun e he => hmeasured e ((mem_sortByKey _).mp he)) (sortByKey_strict _ hdistinct)
  have hsub : ids (sortByKey ShortlistEntry.distance l) ⊆ N.byDistance p.target := by
    intro y hy
    exact (N.mem_byDistance p.target).mpr (hinside y (hperm.mem_iff.mp hy))
  have hfirst : x ∈ (ids (sortByKey ShortlistEntry.distance l)).take p.k :=
    mem_take_of_subset _ hstrict (N.byDistance_strict p.target) hsub hnearest
      (hperm.mem_iff.mpr hx)
  have hcap : p.k ≤ p.shortlistCap := by
    unfold shortlistCap
    omega
  rw [ids_sortAndCap]
  exact (List.take_subset_take_left _ hcap) hfirst

theorem kept_seeded (hseeds : ∀ c ∈ seeds, c.peerId ∈ N.ids) : Kept p N (p.seeded seeds) := by
  have hmerges := p.merges_foldl_mergeContact Walk.empty seeds
  have hconsistent : Consistent (seeds.foldl p.mergeContact Walk.empty) :=
    List.foldlRecOn seeds _ consistent_empty fun _ hw c _ => p.consistent_mergeContact hw c
  have hentry : ∀ e ∈ (seeds.foldl p.mergeContact Walk.empty).shortlist,
      e.contact ∈ seeds ∧ Measured p.target e := by
    intro e he
    rcases hmerges.entry e he with ⟨d, hd, -⟩ | hnew
    · cases hd
    · exact hnew
  intro x hnearest hseen
  refine mem_ids_sortAndCap hconsistent.nodup (fun e he => (hentry e he).2) ?_ hnearest ?_
  · intro y hy
    obtain ⟨e, he, rfl⟩ := List.mem_map.mp hy
    exact hseeds _ (hentry e he).1
  · have hlisted := hmerges.ids_iff x
    rw [hlisted]
    right
    have hfresh : x ∉ Walk.empty.seen := by simp [Walk.empty]
    exact ⟨hfresh, ((hmerges.seen_iff x).mp hseen).resolve_left hfresh⟩

theorem kept_round (hseeds : ∀ c ∈ seeds, c.peerId ∈ N.ids) {w : Walk}
    (hw : p.Grounded peers seeds w) (hkept : Kept p N w)
    (hinformed : ∀ a ∈ (p.round peers w).trace, p.Informed N a) :
    Kept p N (p.round peers w) := by
  have hentry := p.entry_folded peers hw
  intro x hnearest hseen
  refine mem_ids_sortAndCap (p.consistent_foldl_answers peers hw.toConsistent).nodup
    (fun e he => (hentry e he).2) ?_ hnearest ?_
  · intro y hy
    obtain ⟨e, he, rfl⟩ := List.mem_map.mp hy
    exact mem_of_mem_heard hseeds hinformed _ (hentry e he).1
  · rw [mem_ids_folded]
    by_cases hold : x ∈ w.seen
    · exact Or.inl (hkept x hnearest hold)
    · exact Or.inr ⟨hold, hseen⟩

/-- A walk keeps what it has seen of `nearest` to its end. -/
theorem kept_walk (hseeds : ∀ c ∈ seeds, c.peerId ∈ N.ids)
    (hinformed : ∀ a ∈ (p.walk peers seeds).1.trace, p.Informed N a) :
    Kept p N (p.walk peers seeds).1 := by
  -- Answers only come in, so an informed trace was informed before.
  let Good : Walk → Prop := fun w =>
    p.Grounded peers seeds w ∧ ((∀ a ∈ w.trace, p.Informed N a) → Kept p N w)
  have hround : ∀ w, Good w → Good (p.round peers w) := by
    intro w hw
    obtain ⟨hgrounded, hkept⟩ := hw
    refine ⟨p.grounded_round peers hgrounded, ?_⟩
    intro hall
    refine kept_round hseeds hgrounded (hkept ?_) hall
    intro a ha
    exact hall a (by rw [trace_round]; exact List.mem_append_left _ ha)
  have hgood : Good (p.walk peers seeds).1 := p.walk_invariant peers hround
    ⟨p.grounded_seeded peers seeds, fun _ => kept_seeded hseeds⟩
  exact hgood.2 hinformed

/-- With a seed to ask, somebody is asked. -/
theorem trace_walk_ne_nil (hk : 1 ≤ p.k) (halpha : 1 ≤ p.alpha) (hne : seeds ≠ [])
    (hseeds : ∀ c ∈ seeds, c.peerId ∈ N.ids) : (p.walk peers seeds).1.trace ≠ [] := by
  have hgrounded := p.grounded_seeded peers seeds
  have hasked : askedIds (p.seeded seeds) = [] := by simp [askedIds]
  -- The first seed is listed, and the cut leaves at least one entry.
  obtain ⟨c, hc⟩ := List.exists_mem_of_ne_nil _ hne
  have hlisted : c.peerId ∈ ids (seeds.foldl p.mergeContact Walk.empty).shortlist := by
    have hkeyed : c.peerId ∈ keyedIds seeds :=
      mem_keyedIds.mpr ⟨⟨c, hc, rfl⟩, N.spells _ (hseeds c hc)⟩
    refine ((p.merges_foldl_mergeContact Walk.empty seeds).ids_iff _).mpr (Or.inr ⟨?_, hkeyed⟩)
    simp [Walk.empty]
  have hentry : ∃ e, e ∈ (p.seeded seeds).shortlist := by
    have hpos : 0 < (seeds.foldl p.mergeContact Walk.empty).shortlist.length := by
      have hids := List.length_pos_of_mem hlisted
      rwa [ids, List.length_map] at hids
    refine List.length_pos_iff_exists_mem.mp ?_
    rw [seeded, sortAndCap, List.length_take, length_sortByKey, shortlistCap]
    omega
  obtain ⟨e, he⟩ := hentry
  have hbatch : p.batch (p.seeded seeds).shortlist ≠ [] := by
    intro hnone
    have hunasked : e.unasked = true := by
      rw [hgrounded.unasked_iff he, hasked]
      exact List.not_mem_nil
    rw [p.settled_of_batch_eq_nil halpha hnone e he] at hunasked
    cases hunasked
  obtain ⟨d, hd⟩ := List.exists_mem_of_ne_nil _ hbatch
  obtain ⟨a, ha, -⟩ := List.mem_map.mp ((p.answers_perm peers _).mem_iff.mpr hd)
  have hfirst : p.seeded seeds ∈
      visited (p.pass peers) maxLookupRounds (p.seeded seeds) := List.mem_cons_self
  rw [trace_walk]
  exact List.ne_nil_of_mem (List.mem_flatMap.mpr ⟨_, hfirst, ha⟩)

end Walks

/-- Where every answer was one, no entry has failed. -/
theorem not_failed {N : Network} {w : Walk} (hw : Consistent w)
    (hinformed : ∀ a ∈ w.trace, p.Informed N a) : ∀ e ∈ w.shortlist, e.failed = false := by
  intro e he
  cases hq : e.queried with
  | true =>
    obtain ⟨res, hres, hfailed⟩ := hw.queried e he hq
    obtain ⟨o, ho, -⟩ := hinformed _ hres
    rw [← hfailed, show res = some o from ho]
    rfl
  | false => exact (hw.unqueried e he hq).1

/-- **Convergence in a complete network.** A lookup seeded from `N`, all
of whose answers are members' that know the members closest to the
target, returns exactly these, closest first. It does so whatever else
the answers contain, with the stop flag or without, and whatever ends the
walk. -/
theorem converges (N : Network) (peers : Peers) (seeds : List Contact) (hk : 1 ≤ p.k)
    (halpha : 1 ≤ p.alpha) (hne : seeds ≠ []) (hseeds : ∀ c ∈ seeds, c.peerId ∈ N.ids)
    (hinformed : ∀ a ∈ (p.walk peers seeds).1.trace, p.Informed N a) :
    (p.iterativeFind peers seeds).closest.map Contact.peerId = N.nearest p.target p.k := by
  have hw := p.grounded_walk peers seeds
  have hkept := kept_walk hseeds hinformed
  have hseen := seen_of_informed hw (trace_walk_ne_nil hk halpha hne hseeds) hinformed
  have hinside : Inside N (p.walk peers seeds).1.shortlist := by
    intro x hx
    obtain ⟨e, he, rfl⟩ := List.mem_map.mp hx
    exact mem_of_mem_heard hseeds hinformed _ (hw.source e he)
  have hlive : ((p.walk peers seeds).1.shortlist.filter fun e => !e.failed) =
      (p.walk peers seeds).1.shortlist :=
    List.filter_eq_self.mpr fun e he => by
      simp [p.not_failed hw.toConsistent hinformed e he]
  have hclosest : (p.iterativeFind peers seeds).closest.map Contact.peerId =
      (ids (p.walk peers seeds).1.shortlist).take p.k := by
    simp only [iterativeFind, Walk.result, hlive, ids, List.map_take, List.map_map]
    rfl
  have hdistinct := nodup_distances_of_inside hw.nodup hw.measured hinside
  have hstrict : (ids (p.walk peers seeds).1.shortlist).Pairwise
      fun x y => distanceOf p.target x < distanceOf p.target y := by
    refine ids_strict hw.measured ((hw.sorted.and (List.pairwise_map.mp hdistinct)).imp ?_)
    intro a b hab
    exact lt_of_le_of_ne hab.1 hab.2
  rw [hclosest]
  refine take_eq_of_subset _ hstrict (N.byDistance_strict p.target) ?_ ?_
  · intro x hx
    exact (N.mem_byDistance p.target).mpr (hinside x hx)
  · intro x hx
    exact hkept x hx (hseen x hx)

end LookupParams

end Networks

/-! ### A network of three -/

section Samples

attribute [local instance] hexIds

/-- Peers 1, 2 and 3. -/
def sampleNetwork : Network where
  ids := [(sampleContact 3).peerId, (sampleContact 1).peerId, (sampleContact 2).peerId]
  spells := by
    have hsome : ∀ x ∈ [(sampleContact 3).peerId, (sampleContact 1).peerId,
        (sampleContact 2).peerId], (Deps.fromHex x).isSome = true := by decide +kernel
    intro x hx
    exact Option.isSome_iff_exists.mp (hsome x hx)
  distinct := by decide +kernel

/-- Everybody knows everybody: from the farthest peer the lookup finds the
two nearest ones. -/
theorem converges_three :
    let p : LookupParams := { sampleLookup 1 with k := 2 }
    let contacts := [sampleContact 3, sampleContact 2, sampleContact 1]
    let peers := answering (fun _ => some ⟨contacts, []⟩) id List.Perm.refl
    (p.iterativeFind peers [sampleContact 3]).closest.map Contact.peerId =
        sampleNetwork.nearest p.target 2 ∧
      sampleNetwork.nearest p.target 2 = [(sampleContact 1).peerId, (sampleContact 2).peerId] := by
  intro p contacts peers
  have hinformed : ∀ a ∈ (p.walk peers [sampleContact 3]).1.trace,
      p.Informed sampleNetwork a := by
    intro a ha
    obtain ⟨_, hanswer⟩ := (p.walk_spec peers [sampleContact 3]).1.answered a ha
    exact ⟨⟨contacts, []⟩, hanswer, by decide +kernel, by decide +kernel⟩
  exact ⟨p.converges sampleNetwork peers [sampleContact 3] (by decide) (by decide) (by decide)
    (by decide +kernel) hinformed, by decide +kernel⟩

end Samples

end DigDht.Lookup
