/-
DigDht.Lookup.RoutedTheorems — a lookup finds the nearest peers of a
network whose members know the way to them.

Nobody has to know the members nearest to a target. It is enough that
every answer ROUTES: it names a member, or it names `k` members, and
these are nearer than the one who answers if the missing one is
(`Guides`; `closest_progress` is why a table that covers the network
routes). §1 reads the shortlist as the front of all that was learned. §2
is the argument. Say a settled walk has not learned of a member `x` that
is among the `k` nearest. Then one of the `k` it did return is farther
than `x`; it was asked, and named `k` members nearer than itself: it is
not among the `k` nearest learned of (`routed_exact`). §3 says when the
guard does not come before that (`routed_lookup`).
-/
import DigDht.Lookup.CapTheorems
import DigDht.Lookup.ConvergenceTheorems

namespace DigDht.Lookup

open Keyspace Record Routing Selection BoundedLoop

section Routed

variable [Deps]

/-- Contacts that show the way from `x` to the target: members, at most
`k` and each once; and a member they leave out they make up for with `k`
others, all nearer than `x` if that member is. -/
structure Network.Guides (N : Network) (target : Key) (k : Nat) (x : String) (cs : List Contact) :
    Prop where
  members : ∀ c ∈ cs, c.peerId ∈ N.ids
  nodup : (cs.map Contact.peerId).Nodup
  length : cs.length ≤ k
  way : ∀ y ∈ N.ids, y ≠ x → y ∈ cs.map Contact.peerId ∨
    (cs.length = k ∧ (distanceOf target y < distanceOf target x →
      ∀ c ∈ cs, distanceOf target c.peerId < distanceOf target x))

/-- The guard does not cut a lookup: it ended otherwise, or there are no
more members than the guard allows rounds. -/
def Network.Uncut (N : Network) (exit : Exit) : Prop :=
  exit ≠ .guard ∨ N.ids.length ≤ maxLookupRounds

namespace LookupParams

variable (p : LookupParams)

/-! ## §1 What was learned -/

/-- The ids a walk has learned of, nearest first. -/
def learnedIds (seeds : List Contact) (w : Walk) : List String :=
  (p.nearest seeds w).map Contact.peerId

theorem mem_learnedIds {seeds : List Contact} {w : Walk} {x : String} :
    x ∈ p.learnedIds seeds w ↔ x ∈ keyedIds (p.heard seeds w) := by
  have hperm : (p.learnedIds seeds w).Perm
      ((sightings ∅ (p.heard seeds w)).map Contact.peerId) := (sortByKey_perm _ _).map _
  rw [hperm.mem_iff, sightings, mem_map_keepFirst]
  simp [keyedIds]

theorem nodup_learnedIds (seeds : List Contact) (w : Walk) : (p.learnedIds seeds w).Nodup := by
  have hperm : (p.learnedIds seeds w).Perm
      ((sightings ∅ (p.heard seeds w)).map Contact.peerId) := (sortByKey_perm _ _).map _
  exact hperm.nodup_iff.mpr (nodup_keepFirst _ _ _)

section Members

variable {p} {N : Network} {seeds : List Contact} {w : Walk}

theorem mem_of_mem_learnedIds (hmembers : ∀ c ∈ p.heard seeds w, c.peerId ∈ N.ids) :
    ∀ x ∈ p.learnedIds seeds w, x ∈ N.ids := by
  intro x hx
  obtain ⟨⟨c, hc, rfl⟩, -⟩ := mem_keyedIds.mp (p.mem_learnedIds.mp hx)
  exact hmembers c hc

/-- Where nothing but members was heard of, there are no ties. -/
theorem learnedIds_strict (hmembers : ∀ c ∈ p.heard seeds w, c.peerId ∈ N.ids) :
    (p.learnedIds seeds w).Pairwise
      fun x y => distanceOf p.target x < distanceOf p.target y := by
  have hsorted : (p.learnedIds seeds w).Pairwise
      fun x y => distanceOf p.target x ≤ distanceOf p.target y :=
    List.pairwise_map.mpr (sortByKey_pairwise _ _)
  have hmember := mem_of_mem_learnedIds hmembers
  refine (hsorted.and (p.nodup_learnedIds seeds w)).imp_of_mem ?_
  intro x y hx hy hxy
  refine lt_of_le_of_ne hxy.1 ?_
  intro heq
  obtain ⟨a, ha⟩ := N.spells x (hmember x hx)
  obtain ⟨b, hb⟩ := N.spells y (hmember y hy)
  refine hxy.2 (N.eq_of_fromHex_eq (hmember x hx) (hmember y hy) ?_)
  rw [ha, hb, distanceOf_inj ha hb heq]

/-- The shortlist begins with the `k` nearest learned of. -/
theorem take_ids_shortlist (hfront : p.Fronted seeds w) :
    (ids w.shortlist).take p.k = (p.learnedIds seeds w).take p.k := by
  have hcap : p.k ≤ p.shortlistCap := by
    unfold shortlistCap
    omega
  have hids : ids w.shortlist = (p.learnedIds seeds w).take p.shortlistCap := by
    rw [ids_eq_map, learnedIds, ← List.map_take]
    exact congrArg (List.map Contact.peerId) hfront
  rw [hids, List.take_take, min_eq_left hcap]

/-- Where nobody was asked in vain, these are what is returned. -/
theorem closest_learned (hw : Consistent w) (hfront : p.Fronted seeds w)
    (hanswered : ∀ a ∈ w.trace, a.2 ≠ none) :
    (w.result p.k).closest.map Contact.peerId = (p.learnedIds seeds w).take p.k := by
  have hlive : (w.shortlist.filter fun e => !e.failed) = w.shortlist := by
    refine List.filter_eq_self.mpr fun e he => ?_
    cases hq : e.queried with
    | false => simp [(hw.unqueried e he hq).1]
    | true =>
      obtain ⟨res, hres, hfailed⟩ := hw.queried e he hq
      cases res with
      | none => exact absurd rfl (hanswered _ hres)
      | some o => simp [← hfailed]
  rw [← take_ids_shortlist hfront]
  simp only [Walk.result, hlive, ids, List.map_take, List.map_map]
  rfl

end Members

/-! ## §2 The argument -/

/-- An answer that shows the way. -/
def Routes (N : Network) (answer : Contact × Option QueryOutcome) : Prop :=
  ∃ o, answer.2 = some o ∧ N.Guides p.target p.k answer.1.peerId o.closer

variable {p} {N : Network} {peers : Peers} {seeds : List Contact}

omit [Deps] in
theorem learnt_of_routes {answer : Contact × Option QueryOutcome} {o : QueryOutcome}
    (hanswer : answer.2 = some o) (hlen : o.closer.length ≤ p.k) : p.learnt answer = o.closer := by
  have hcap : p.k ≤ p.closerCap := by
    unfold closerCap
    omega
  rw [learnt, hanswer]
  exact List.take_of_length_le (le_trans hlen hcap)

theorem members_of_routes (hseeds : ∀ c ∈ seeds, c.peerId ∈ N.ids) {w : Walk}
    (hroutes : ∀ a ∈ w.trace, p.Routes N a) : ∀ c ∈ p.heard seeds w, c.peerId ∈ N.ids := by
  intro c hc
  rcases List.mem_append.mp hc with hc | hc
  · exact hseeds c hc
  · obtain ⟨a, ha, hc⟩ := List.mem_flatMap.mp hc
    obtain ⟨o, ho, hguides⟩ := hroutes a ha
    rw [learnt_of_routes ho hguides.length] at hc
    exact hguides.members c hc

/-- A member a walk has not learned of, everybody it asked made up for. -/
theorem named_of_asked_missing {w : Walk} (hroutes : ∀ a ∈ w.trace, p.Routes N a) {x y : String}
    (hx : x ∈ N.ids) (hmissing : x ∉ p.learnedIds seeds w) (hasked : y ∈ askedIds w)
    (hother : x ≠ y) :
    ∃ named : List String, named.Nodup ∧ named ⊆ p.learnedIds seeds w ∧ named.length = p.k ∧
      (distanceOf p.target x < distanceOf p.target y →
        ∀ z ∈ named, distanceOf p.target z < distanceOf p.target y) := by
  obtain ⟨a, ha, rfl⟩ := mem_askedIds.mp hasked
  obtain ⟨o, ho, hguides⟩ := hroutes a ha
  have hlearned : o.closer.map Contact.peerId ⊆ p.learnedIds seeds w := by
    intro z hz
    obtain ⟨c, hc, rfl⟩ := List.mem_map.mp hz
    refine p.mem_learnedIds.mpr (mem_keyedIds.mpr ⟨⟨c, ?_, rfl⟩, N.spells _ (hguides.members c hc)⟩)
    refine List.mem_append_right _ (List.mem_flatMap.mpr ⟨a, ha, ?_⟩)
    rwa [learnt_of_routes ho hguides.length]
  obtain ⟨hfull, hnearer⟩ := (hguides.way x hx hother).resolve_left fun h => hmissing (hlearned h)
  refine ⟨_, hguides.nodup, hlearned, by rw [List.length_map, hfull], ?_⟩
  intro hlt
  exact List.forall_mem_map.mpr (hnearer hlt)

theorem mem_learned_of_seed {w : Walk} {c : Contact} (hc : c ∈ seeds) (hmember : c.peerId ∈ N.ids) :
    c.peerId ∈ p.learnedIds seeds w :=
  p.mem_learnedIds.mpr
    (mem_keyedIds.mpr ⟨⟨c, List.mem_append_left _ hc, rfl⟩, N.spells _ hmember⟩)

/-- Where at least `k` members were learned of and one of the `k` nearest
was not, one of the `k` nearest learned of is farther than it. -/
theorem exists_farther {w : Walk} (hmembers : ∀ x ∈ p.learnedIds seeds w, x ∈ N.ids)
    (hmany : p.k ≤ (p.learnedIds seeds w).length) {x : String}
    (hx : x ∈ N.nearest p.target p.k) (hmissing : x ∉ p.learnedIds seeds w) :
    ∃ y ∈ (p.learnedIds seeds w).take p.k, distanceOf p.target x < distanceOf p.target y := by
  by_contra hnone
  have hxN : x ∈ N.ids := (N.mem_byDistance p.target).mp (List.mem_of_mem_take hx)
  have hbelow : ∀ y ∈ (p.learnedIds seeds w).take p.k,
      distanceOf p.target y < distanceOf p.target x := by
    intro y hy
    have hyN := hmembers y (List.mem_of_mem_take hy)
    refine lt_of_le_of_ne (not_lt.mp fun h => hnone ⟨y, hy, h⟩) ?_
    intro heq
    obtain ⟨a, ha⟩ := N.spells x hxN
    obtain ⟨b, hb⟩ := N.spells y hyN
    have hsame : y = x := N.eq_of_fromHex_eq hyN hxN (by rw [ha, hb, distanceOf_inj hb ha heq])
    exact hmissing (hsame ▸ List.mem_of_mem_take hy)
  have hsub : (p.learnedIds seeds w).take p.k ⊆ N.byDistance p.target := by
    intro y hy
    exact (N.mem_byDistance p.target).mpr (hmembers y (List.mem_of_mem_take hy))
  have hfew := length_lt_of_mem_take (N.byDistance_strict p.target) hx
    ((p.nodup_learnedIds seeds w).sublist (List.take_sublist _ _)) hsub hbelow
  rw [List.length_take] at hfew
  omega

/-- Once the `k` nearest learned of were all asked, the `k` nearest
members are learned of. -/
theorem nearest_learned (hk : 1 ≤ p.k) (hseeds : ∀ c ∈ seeds, c.peerId ∈ N.ids)
    (hne : seeds ≠ []) {w : Walk} (hroutes : ∀ a ∈ w.trace, p.Routes N a)
    (hasked : ∀ y ∈ (p.learnedIds seeds w).take p.k, y ∈ askedIds w) :
    N.nearest p.target p.k ⊆ p.learnedIds seeds w := by
  intro x hx
  by_contra hmissing
  have hheard := members_of_routes hseeds hroutes
  have hmembers := mem_of_mem_learnedIds hheard
  have hxN : x ∈ N.ids := (N.mem_byDistance p.target).mp (List.mem_of_mem_take hx)
  have hnamed : ∀ y ∈ (p.learnedIds seeds w).take p.k, ∃ named : List String,
      named.Nodup ∧ named ⊆ p.learnedIds seeds w ∧ named.length = p.k ∧
      (distanceOf p.target x < distanceOf p.target y →
        ∀ z ∈ named, distanceOf p.target z < distanceOf p.target y) := by
    intro y hy
    have hother : x ≠ y := fun h => hmissing (h ▸ List.mem_of_mem_take hy)
    exact named_of_asked_missing hroutes hxN hmissing (hasked y hy) hother
  -- Somebody was asked, so at least `k` were learned of.
  have hmany : p.k ≤ (p.learnedIds seeds w).length := by
    obtain ⟨c, hc⟩ := List.exists_mem_of_ne_nil _ hne
    have hlearned : c.peerId ∈ p.learnedIds seeds w := mem_learned_of_seed hc (hseeds c hc)
    have hpos := List.length_pos_of_mem hlearned
    obtain ⟨y, hy⟩ : ∃ y, y ∈ (p.learnedIds seeds w).take p.k := by
      refine List.length_pos_iff_exists_mem.mp ?_
      rw [List.length_take]
      omega
    obtain ⟨named, hnodup, hsub, hlen, -⟩ := hnamed y hy
    exact hlen ▸ (hnodup.subperm hsub).length_le
  -- One of them is farther than `x`, and named `k` nearer than itself.
  obtain ⟨y, hy, hxy⟩ := exists_farther hmembers hmany hx hmissing
  obtain ⟨named, hnodup, hsub, hlen, hnearer⟩ := hnamed y hy
  have hfew := length_lt_of_mem_take (learnedIds_strict hheard) hy hnodup hsub (hnearer hxy)
  omega

/-- A settled walk has asked the `k` nearest members, and learned of
nobody nearer. -/
theorem nearest_asked (hk : 1 ≤ p.k) (halpha : 1 ≤ p.alpha) (hne : seeds ≠ [])
    (hseeds : ∀ c ∈ seeds, c.peerId ∈ N.ids)
    (hroutes : ∀ a ∈ (p.walk peers seeds).1.trace, p.Routes N a)
    (hexit : (p.walk peers seeds).2 = .exhausted ∨ (p.walk peers seeds).2 = .converged) :
    (p.learnedIds seeds (p.walk peers seeds).1).take p.k = N.nearest p.target p.k ∧
      ∀ x ∈ N.nearest p.target p.k, x ∈ askedIds (p.walk peers seeds).1 := by
  have hw := p.grounded_walk peers seeds
  have hheard := members_of_routes hseeds hroutes
  have hsettled : p.settled (p.walk peers seeds).1.shortlist = true := by
    have hspec := (p.walk_spec peers seeds).2
    rcases hexit with hexit | hexit <;> rw [hexit] at hspec
    · refine p.settled_iff.mpr ?_
      intro e he
      exact p.settled_of_batch_eq_nil halpha hspec e (List.mem_of_mem_take he)
    · exact hspec
  have hasked := (p.settled_iff_asked hw.toConsistent).mp hsettled
  rw [take_ids_shortlist (p.fronted_walk peers seeds)] at hasked
  have hnearest : (p.learnedIds seeds (p.walk peers seeds).1).take p.k =
      N.nearest p.target p.k := by
    refine take_eq_of_subset _ (learnedIds_strict hheard) (N.byDistance_strict p.target) ?_ ?_
    · intro x hx
      exact (N.mem_byDistance p.target).mpr (mem_of_mem_learnedIds hheard x hx)
    · exact nearest_learned hk hseeds hne hroutes hasked
  exact ⟨hnearest, hnearest ▸ hasked⟩

/-- A lookup seeded from `N`, all of whose answers route and which the
guard does not cut, returns exactly the `k` members closest to the
target, closest first. -/
theorem routed_exact (hk : 1 ≤ p.k) (halpha : 1 ≤ p.alpha) (hne : seeds ≠ [])
    (hseeds : ∀ c ∈ seeds, c.peerId ∈ N.ids)
    (hroutes : ∀ a ∈ (p.walk peers seeds).1.trace, p.Routes N a)
    (hexit : (p.walk peers seeds).2 = .exhausted ∨ (p.walk peers seeds).2 = .converged) :
    (p.iterativeFind peers seeds).closest.map Contact.peerId = N.nearest p.target p.k := by
  have hanswered : ∀ a ∈ (p.walk peers seeds).1.trace, a.2 ≠ none := by
    intro a ha hnone
    obtain ⟨o, ho, -⟩ := hroutes a ha
    rw [hnone] at ho
    cases ho
  show ((p.walk peers seeds).1.result p.k).closest.map Contact.peerId = _
  rw [closest_learned (p.grounded_walk peers seeds).toConsistent (p.fronted_walk peers seeds)
    hanswered]
  exact (nearest_asked hk halpha hne hseeds hroutes hexit).1

/-! ## §3 The guard -/

/-- A pass that goes on asked somebody for the first time. -/
theorem length_askedIds_next {w w' : Walk} (h : p.pass peers w = .next w') :
    (askedIds w).length + 1 ≤ (askedIds w').length := by
  have hbatch : p.batch w.shortlist ≠ [] := by
    intro hnone
    rw [pass, if_pos hnone] at h
    cases h
  have hperm := (p.answers_perm peers w).length_eq
  have hpos := List.length_pos_iff.mpr hbatch
  rw [List.length_map] at hperm
  rw [(p.pass_eq_next peers h).1, askedIds, askedIds, trace_round, List.map_append,
    List.length_append, List.length_map, List.length_map]
  omega

/-- A network of no more members than the guard allows rounds is asked
through before the guard. -/
theorem exit_ne_guard (hseeds : ∀ c ∈ seeds, c.peerId ∈ N.ids)
    (hroutes : ∀ a ∈ (p.walk peers seeds).1.trace, p.Routes N a)
    (hsmall : N.ids.length ≤ maxLookupRounds) : (p.walk peers seeds).2 ≠ .guard := by
  intro hguard
  have hw := p.grounded_walk peers seeds
  have hheard := members_of_routes hseeds hroutes
  have hmember : ∀ e ∈ (p.walk peers seeds).1.shortlist, e.contact.peerId ∈ N.ids :=
    fun e he => hheard _ (hw.source e he)
  -- The last of the rounds left somebody to ask.
  obtain ⟨hasked, hunsettled⟩ : maxLookupRounds ≤ (askedIds (p.walk peers seeds).1).length ∧
      p.settled (p.walk peers seeds).1.shortlist = false := by
    have hgrown := measure_of_cut (Q := fun w => w = p.seeded seeds ∨ p.settled w.shortlist = false)
      (f := fun w => (askedIds w).length) ?_ ?_ maxLookupRounds (Or.inl rfl) hguard
    · have hstart : (askedIds (p.seeded seeds)).length = 0 := by simp [askedIds]
      obtain ⟨hlen, hlast⟩ := hgrown
      have hlen' : maxLookupRounds ≤ (askedIds (p.walk peers seeds).1).length := by
        rw [hstart, Nat.zero_add] at hlen
        exact hlen
      refine ⟨hlen', hlast.resolve_left ?_⟩
      intro heq
      have hzero : (askedIds (p.walk peers seeds).1).length = 0 := by
        rw [← hstart]
        exact congrArg (fun w => (askedIds w).length) heq
      have hpos : 0 < maxLookupRounds := by decide
      omega
    · intro w w' _ h
      exact ⟨Or.inr (p.pass_eq_next peers h).2, length_askedIds_next h⟩
    · intro w w' exit h heq
      subst heq
      unfold pass at h
      simp only at h
      repeat' split at h
      all_goals cases h
  obtain ⟨e, he, hunasked⟩ : ∃ e ∈ (p.walk peers seeds).1.shortlist, e.unasked = true := by
    by_contra hnone
    have hall : p.settled (p.walk peers seeds).1.shortlist = true := by
      refine p.settled_iff.mpr ?_
      intro e he
      by_contra h
      exact hnone ⟨e, List.mem_of_mem_take he, by simpa using h⟩
    rw [hall] at hunsettled
    cases hunsettled
  have hfresh := (hw.unasked_iff he).mp hunasked
  have hsub : e.contact.peerId :: askedIds (p.walk peers seeds).1 ⊆ N.ids := by
    refine List.cons_subset.mpr ⟨hmember e he, ?_⟩
    intro x hx
    obtain ⟨a, ha, rfl⟩ := mem_askedIds.mp hx
    exact hheard a.1 (p.mem_heard_of_asked peers ha)
  have hnodup := List.nodup_cons.mpr ⟨hfresh, p.nodup_askedIds peers seeds⟩
  have hcount := (hnodup.subperm hsub).length_le
  rw [List.length_cons] at hcount
  omega

theorem ne_guard_of_uncut (hseeds : ∀ c ∈ seeds, c.peerId ∈ N.ids)
    (hroutes : ∀ a ∈ (p.walk peers seeds).1.trace, p.Routes N a)
    (huncut : N.Uncut (p.walk peers seeds).2) : (p.walk peers seeds).2 ≠ .guard := by
  rcases huncut with hexit | hsmall
  · exact hexit
  · exact exit_ne_guard hseeds hroutes hsmall

/-- **Kademlia routing finds the nearest.** Let no member of a network
know more than the way. A lookup seeded from the network that the guard
does not cut returns exactly the `k` members closest to its target,
closest first. It has asked each of these, and nobody twice. The guard
never cuts one in a network of no more members than it allows rounds. -/
theorem routed_lookup (N : Network) (peers : Peers) (seeds : List Contact) (hk : 1 ≤ p.k)
    (halpha : 1 ≤ p.alpha) (hstop : p.stopOnProviders = false) (hne : seeds ≠ [])
    (hseeds : ∀ c ∈ seeds, c.peerId ∈ N.ids)
    (hroutes : ∀ a ∈ (p.walk peers seeds).1.trace, p.Routes N a)
    (huncut : N.Uncut (p.walk peers seeds).2) :
    (p.iterativeFind peers seeds).closest.map Contact.peerId = N.nearest p.target p.k ∧
      N.nearest p.target p.k ⊆ askedIds (p.walk peers seeds).1 ∧
      (askedIds (p.walk peers seeds).1).Nodup := by
  have hexit : (p.walk peers seeds).2 = .exhausted ∨ (p.walk peers seeds).2 = .converged := by
    have hspec := (p.walk_spec peers seeds).2
    have hguard := ne_guard_of_uncut hseeds hroutes huncut
    cases hexit : (p.walk peers seeds).2 with
    | guard => exact absurd hexit hguard
    | exhausted => exact Or.inl rfl
    | converged => exact Or.inr rfl
    | stoppedOnProviders =>
      rw [hexit] at hspec
      rw [hspec.1] at hstop
      cases hstop
  exact ⟨routed_exact hk halpha hne hseeds hroutes hexit,
    (nearest_asked hk halpha hne hseeds hroutes hexit).2, p.nodup_askedIds peers seeds⟩

end LookupParams

end Routed

/-! ### Three peers in a row -/

section Samples

attribute [local instance] hexIds

/-- Peer 3 knows peer 2 alone, and peer 2 knows peer 1. -/
theorem routed_lookup_three :
    let p := sampleLookup 1
    let peers := answering (fun x => some
      ⟨[if x = (sampleContact 2).peerId then sampleContact 1 else sampleContact 2], []⟩)
      id List.Perm.refl
    (p.iterativeFind peers [sampleContact 3]).closest.map Contact.peerId =
        [(sampleContact 1).peerId] ∧
      askedIds (p.walk peers [sampleContact 3]).1 =
        [(sampleContact 3).peerId, (sampleContact 2).peerId, (sampleContact 1).peerId] := by
  intro p peers
  have htrace : (p.walk peers [sampleContact 3]).1.trace =
      [(sampleContact 3, some ⟨[sampleContact 2], []⟩),
        (sampleContact 2, some ⟨[sampleContact 1], []⟩),
        (sampleContact 1, some ⟨[sampleContact 2], []⟩)] := by decide +kernel
  have hroutes : ∀ a ∈ (p.walk peers [sampleContact 3]).1.trace, p.Routes sampleNetwork a := by
    rw [htrace]
    intro a ha
    simp only [List.mem_cons, List.not_mem_nil, or_false] at ha
    rcases ha with rfl | rfl | rfl <;>
      exact ⟨_, rfl, by decide +kernel, by decide +kernel, by decide +kernel, by decide +kernel⟩
  have hfound := (p.routed_lookup sampleNetwork peers [sampleContact 3] (by decide) (by decide) rfl
    (by decide) (by decide +kernel) hroutes (Or.inr (by decide))).1
  exact ⟨hfound.trans (by decide +kernel), by rw [askedIds, htrace]; rfl⟩

end Samples

end DigDht.Lookup
