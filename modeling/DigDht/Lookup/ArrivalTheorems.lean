/-
DigDht.Lookup.ArrivalTheorems — the order in which answers arrive does
not matter.

The answers of one round come back in any order and are folded one by
one. When the answer of a peer depends on its id alone and ids are
spelled canonically, two walks that differ in nothing but the order of
arrival have the same ids on the shortlist and have asked the same ids at
every round boundary (`Alike`). Their contacts may differ: the first
answer to name a peer decides which address list its entry carries. So
what does not depend on the order is said of ids: the rounds, the closest
peers and the providers (`arrival_irrelevant`).
-/
import DigDht.Lookup.RoundTheorems

namespace DigDht.Lookup

open Keyspace Record Routing Selection BoundedLoop

/-- The answer depends on the id asked and on nothing else. -/
def Peers.AnswerBy (peers : Peers) (f : String → Option QueryOutcome) : Prop :=
  ∀ asked c, peers.query asked c = f c.peerId

namespace LookupParams

variable (p : LookupParams) [Deps]

section OneWalk

variable {peers : Peers} {seeds : List Contact} {f : String → Option QueryOutcome}

/-- Every contact heard of is spelled canonically. -/
theorem canonical_heard (hf : peers.AnswerBy f) (hseeds : ∀ c ∈ seeds, CanonicalId c.peerId)
    (hanswers : ∀ x o, f x = some o → ∀ c ∈ o.closer, CanonicalId c.peerId) {w : Walk}
    (hw : p.WalkInv peers w) : ∀ c ∈ p.heard seeds w, CanonicalId c.peerId := by
  intro c hc
  rcases List.mem_append.mp hc with hc | hc
  · exact hseeds c hc
  · obtain ⟨a, ha, hc⟩ := List.mem_flatMap.mp hc
    obtain ⟨asked, hanswer⟩ := hw.answered a ha
    rw [hf] at hanswer
    unfold learnt at hc
    cases ho : a.2 with
    | none => simp [ho] at hc
    | some o =>
      rw [ho] at hanswer hc
      exact hanswers _ o hanswer.symm c (List.mem_of_mem_take hc)

end OneWalk

/-- Two walks that have asked the same ids. -/
structure SameAsked (first second : Peers) (seeds : List Contact) (w w' : Walk) : Prop where
  grounded : p.Grounded first seeds w
  grounded' : p.Grounded second seeds w'
  asked_iff : ∀ x, x ∈ askedIds w ↔ x ∈ askedIds w'

/-- Two walks that look the same when the addresses of the contacts are
left out. -/
structure Alike (first second : Peers) (seeds : List Contact) (w w' : Walk) : Prop
    extends p.SameAsked first second seeds w w' where
  ids_eq : ids w.shortlist = ids w'.shortlist

theorem SameAsked.symm {p : LookupParams} {first second : Peers} {seeds : List Contact}
    {w w' : Walk} (h : p.SameAsked first second seeds w w') :
    p.SameAsked second first seeds w' w where
  grounded := h.grounded'
  grounded' := h.grounded
  asked_iff x := (h.asked_iff x).symm

section TwoWalks

variable {p} {first second : Peers} {seeds : List Contact} {f : String → Option QueryOutcome}
  {w w' : Walk}

/-! ### The same answers -/

section SameAnswers

variable (hfirst : first.AnswerBy f) (hsecond : second.AnswerBy f)
  (h : p.SameAsked first second seeds w w')

include hfirst hsecond h

/-- Who was asked here gave the same answer there. -/
theorem SameAsked.same_answer {a : Contact × Option QueryOutcome} (ha : a ∈ w.trace) :
    ∃ b ∈ w'.trace, b.2 = a.2 := by
  have hasked : a.1.peerId ∈ askedIds w := mem_askedIds.mpr ⟨a, ha, rfl⟩
  obtain ⟨b, hb, hid⟩ := mem_askedIds.mp ((h.asked_iff _).mp hasked)
  refine ⟨b, hb, ?_⟩
  obtain ⟨_, hanswer⟩ := h.grounded.answered a ha
  obtain ⟨_, hanswer'⟩ := h.grounded'.answered b hb
  rw [hanswer, hanswer', hfirst, hsecond, hid]

/-- What is read off the answers alone is the same. -/
theorem SameAsked.mem_flatMap_iff {α : Type} {g : Contact × Option QueryOutcome → List α}
    (hg : ∀ a b, a.2 = b.2 → g a = g b) (x : α) :
    x ∈ w.trace.flatMap g ↔ x ∈ w'.trace.flatMap g := by
  rw [List.mem_flatMap, List.mem_flatMap]
  constructor
  · intro hx
    obtain ⟨a, ha, hx⟩ := hx
    obtain ⟨b, hb, heq⟩ := h.same_answer hfirst hsecond ha
    exact ⟨b, hb, hg b a heq ▸ hx⟩
  · intro hx
    obtain ⟨a, ha, hx⟩ := hx
    obtain ⟨b, hb, heq⟩ := h.symm.same_answer hsecond hfirst ha
    exact ⟨b, hb, hg b a heq ▸ hx⟩

theorem SameAsked.seen_iff (x : String) : x ∈ w.seen ↔ x ∈ w'.seen := by
  have hlearnt : ∀ a b : Contact × Option QueryOutcome, a.2 = b.2 → p.learnt a = p.learnt b := by
    intro a b hab
    rw [learnt, learnt, hab]
  have hheard : ∀ c, c ∈ p.heard seeds w ↔ c ∈ p.heard seeds w' := by
    intro c
    rw [heard, heard, List.mem_append, List.mem_append,
      h.mem_flatMap_iff hfirst hsecond hlearnt c]
  rw [h.grounded.seen_iff, h.grounded'.seen_iff, mem_keyedIds, mem_keyedIds]
  simp only [hheard]

theorem SameAsked.providers_iff (x : String) :
    x ∈ (FMap.values w.providers).map ProviderRecord.providerPeerId ↔
      x ∈ (FMap.values w'.providers).map ProviderRecord.providerPeerId := by
  have hcontribution : ∀ a b : Contact × Option QueryOutcome, a.2 = b.2 →
      p.contribution a = p.contribution b := by
    intro a b hab
    rw [contribution, contribution, hab]
  have hcollected := h.mem_flatMap_iff hfirst hsecond hcontribution
  rw [h.grounded.mem_providers_iff, h.grounded'.mem_providers_iff, List.mem_map, List.mem_map]
  simp only [collected, hcollected]

end SameAnswers

/-! ### The same round -/

theorem Alike.batch_eq (h : p.Alike first second seeds w w') :
    (p.batch w.shortlist).map Contact.peerId = (p.batch w'.shortlist).map Contact.peerId := by
  rw [p.map_batch h.grounded.toConsistent, p.map_batch h.grounded'.toConsistent, h.ids_eq]
  simp only [h.asked_iff]

theorem Alike.settled_eq (h : p.Alike first second seeds w w') :
    p.settled w.shortlist = p.settled w'.shortlist := by
  refine Bool.eq_iff_iff.mpr ?_
  rw [p.settled_iff_asked h.grounded.toConsistent, p.settled_iff_asked h.grounded'.toConsistent,
    h.ids_eq]
  simp only [h.asked_iff]

variable (hfirst : first.AnswerBy f) (hsecond : second.AnswerBy f)
  (hseeds : ∀ c ∈ seeds, CanonicalId c.peerId)
  (hanswers : ∀ x o, f x = some o → ∀ c ∈ o.closer, CanonicalId c.peerId)

include hfirst hsecond hseeds hanswers

/-- A round of walks that look the same. -/
theorem Alike.round (h : p.Alike first second seeds w w') :
    p.Alike first second seeds (p.round first w) (p.round second w') := by
  have hafter : p.SameAsked first second seeds (p.round first w) (p.round second w') := by
    refine ⟨p.grounded_round first h.grounded, p.grounded_round second h.grounded', ?_⟩
    intro x
    rw [mem_askedIds_round, mem_askedIds_round, h.asked_iff, h.batch_eq]
  refine ⟨hafter, ?_⟩
  have hentry := p.entry_folded first h.grounded
  have hentry' := p.entry_folded second h.grounded'
  refine p.ids_sortAndCap_congr (fun e he => (hentry e he).2) (fun e he => (hentry' e he).2) ?_ ?_
  · -- No id is listed twice, so the same members make the same list up to order.
    have hnodup := (p.consistent_foldl_answers first h.grounded.toConsistent).nodup
    have hnodup' := (p.consistent_foldl_answers second h.grounded'.toConsistent).nodup
    refine (List.perm_ext_iff_of_nodup hnodup hnodup').mpr ?_
    intro x
    rw [mem_ids_folded, mem_ids_folded, h.ids_eq, h.seen_iff hfirst hsecond,
      hafter.seen_iff hfirst hsecond]
  · have hcanonical := p.canonical_heard hfirst hseeds hanswers hafter.grounded.toWalkInv
    refine nodup_distances (p.consistent_foldl_answers first h.grounded.toConsistent).nodup
      (fun e he => (hentry e he).2) ?_
    intro x hx y hy hsame
    obtain ⟨e, he, rfl⟩ := List.mem_map.mp hx
    obtain ⟨d, hd, rfl⟩ := List.mem_map.mp hy
    obtain ⟨a, ha⟩ := (hentry e he).2.spells
    exact (hcanonical _ (hentry e he).1).eq (hcanonical _ (hentry d hd).1) ha (hsame ▸ ha)

theorem Alike.pass (h : p.Alike first second seeds w w') :
    Pass.Rel (p.Alike first second seeds) (p.pass first w) (p.pass second w') := by
  have hround := h.round hfirst hsecond hseeds hanswers
  have hempty : p.batch w.shortlist = [] ↔ p.batch w'.shortlist = [] := by
    rw [← List.map_eq_nil_iff (f := Contact.peerId), h.batch_eq, List.map_eq_nil_iff]
  have hnone : FMap.values (p.round first w).providers = [] ↔
      FMap.values (p.round second w').providers = [] := by
    rw [← List.map_eq_nil_iff (f := ProviderRecord.providerPeerId),
      ← List.map_eq_nil_iff (f := ProviderRecord.providerPeerId) (l := FMap.values _),
      List.eq_nil_iff_forall_not_mem, List.eq_nil_iff_forall_not_mem]
    simp only [hround.providers_iff hfirst hsecond]
  have hstop : p.stopOnProviders = true ∧ 0 < FMap.size (p.round first w).providers ↔
      p.stopOnProviders = true ∧ 0 < FMap.size (p.round second w').providers := by
    rw [FMap.size_pos_iff, FMap.size_pos_iff, ne_eq, ne_eq, hnone]
  unfold LookupParams.pass
  simp only
  rw [hround.settled_eq]
  by_cases hbatch : p.batch w.shortlist = []
  · rw [if_pos hbatch, if_pos (hempty.mp hbatch)]
    exact .done _ h
  · rw [if_neg hbatch, if_neg (mt hempty.mpr hbatch)]
    by_cases hstopped : p.stopOnProviders = true ∧ 0 < FMap.size (p.round first w).providers
    · rw [if_pos hstopped, if_pos (hstop.mp hstopped)]
      exact .done _ hround
    · rw [if_neg hstopped, if_neg (mt hstop.mpr hstopped)]
      split
      · exact .done _ hround
      · exact .next hround

end TwoWalks

/-! ## Two lookups -/

theorem alike_seeded (first second : Peers) (seeds : List Contact) :
    p.Alike first second seeds (p.seeded seeds) (p.seeded seeds) where
  grounded := p.grounded_seeded first seeds
  grounded' := p.grounded_seeded second seeds
  asked_iff _ := Iff.rfl
  ids_eq := rfl

omit [Deps] in
/-- The ids a walk returns, read off the ids and the answers. -/
theorem closest_ids {peers : Peers} {f : String → Option QueryOutcome} (hf : peers.AnswerBy f)
    {w : Walk} (hw : p.WalkInv peers w) :
    (w.result p.k).closest.map Contact.peerId =
      ((ids w.shortlist).filter fun x => ¬(x ∈ askedIds w ∧ f x = none)).take p.k := by
  have hfilter : (w.shortlist.filter fun e => !e.failed) =
      w.shortlist.filter fun e =>
        ¬(e.contact.peerId ∈ askedIds w ∧ f e.contact.peerId = none) := by
    refine List.filter_congr ?_
    intro e he
    cases hq : e.queried with
    | true =>
      obtain ⟨res, hres, hfailed⟩ := hw.queried e he hq
      obtain ⟨_, hanswer⟩ := hw.answered _ hres
      have hasked : e.contact.peerId ∈ askedIds w := mem_askedIds.mpr ⟨_, hres, rfl⟩
      have hres' : res = f e.contact.peerId := hanswer.trans (hf _ _)
      rw [← hfailed, ← hres']
      cases res <;> simp [hasked]
    | false =>
      obtain ⟨hfailed, hnever⟩ := hw.unqueried e he hq
      have hasked : e.contact.peerId ∉ askedIds w := by
        rw [mem_askedIds]
        intro h
        obtain ⟨a, ha, heq⟩ := h
        exact hnever a ha heq
      simp [hfailed, hasked]
  simp only [Walk.result]
  rw [hfilter, ids, List.filter_map, List.map_map, ← List.map_take]
  rfl

/-- **Arrival order does not matter.** Of two lookups over peers with the
same answers, whatever the order in which each round's answers arrive,
every round asks the same ids and the results name the same closest peers
in the same order and the same providers. -/
theorem arrival_irrelevant (first second : Peers) (seeds : List Contact)
    (f : String → Option QueryOutcome) (hfirst : first.AnswerBy f) (hsecond : second.AnswerBy f)
    (hseeds : ∀ c ∈ seeds, CanonicalId c.peerId)
    (hanswers : ∀ x o, f x = some o → ∀ c ∈ o.closer, CanonicalId c.peerId) :
    (p.rounds first seeds).map (fun batch => batch.map Contact.peerId) =
        (p.rounds second seeds).map (fun batch => batch.map Contact.peerId) ∧
      (p.iterativeFind first seeds).closest.map Contact.peerId =
        (p.iterativeFind second seeds).closest.map Contact.peerId ∧
      ∀ x, x ∈ (p.iterativeFind first seeds).providers.map ProviderRecord.providerPeerId ↔
        x ∈ (p.iterativeFind second seeds).providers.map ProviderRecord.providerPeerId := by
  have hpass : ∀ w w', p.Alike first second seeds w w' →
      Pass.Rel (p.Alike first second seeds) (p.pass first w) (p.pass second w') :=
    fun _ _ h => h.pass hfirst hsecond hseeds hanswers
  obtain ⟨hvisited, hend, -⟩ :
      (visited (p.pass first) maxLookupRounds (p.seeded seeds)).map
          (fun w => (p.batch w.shortlist).map Contact.peerId) =
        (visited (p.pass second) maxLookupRounds (p.seeded seeds)).map
          (fun w => (p.batch w.shortlist).map Contact.peerId) ∧
      p.Alike first second seeds (p.walk first seeds).1 (p.walk second seeds).1 ∧
      (p.walk first seeds).2 = (p.walk second seeds).2 :=
    run_rel (fun _ _ h => h.batch_eq) hpass maxLookupRounds (p.alike_seeded first second seeds)
  refine ⟨?_, ?_, hend.providers_iff hfirst hsecond⟩
  · rw [rounds, rounds, List.map_map, List.map_map]
    exact hvisited
  · rw [iterativeFind, iterativeFind, p.closest_ids hfirst hend.grounded.toWalkInv,
      p.closest_ids hsecond hend.grounded'.toWalkInv, hend.ids_eq]
    simp only [hend.asked_iff]

end LookupParams

/-! ### One lookup, two orders of arrival -/

section Samples

attribute [local instance] hexIds

/-- Peer 1 knows peer 3 at an address, the others know it without. -/
def sampleAnswers (x : String) : Option QueryOutcome :=
  if x = (sampleContact 1).peerId then
    some ⟨[{ sampleContact 3 with addresses := [.direct "host" 1] }], []⟩
  else some ⟨[sampleContact 3], []⟩

/-- Peers 1 and 2 are asked in one round and both name peer 3. Whose
answer comes first decides its addresses, and nothing else. -/
theorem arrival_irrelevant_reversed :
    let p : LookupParams := { sampleLookup 2 with k := 3 }
    let first := answering sampleAnswers id List.Perm.refl
    let second := answering sampleAnswers List.reverse List.reverse_perm
    let seeds := [sampleContact 1, sampleContact 2]
    (p.iterativeFind first seeds).closest ≠ (p.iterativeFind second seeds).closest ∧
      (p.rounds first seeds).map (fun batch => batch.map Contact.peerId) =
        (p.rounds second seeds).map (fun batch => batch.map Contact.peerId) ∧
      (p.iterativeFind first seeds).closest.map Contact.peerId =
        (p.iterativeFind second seeds).closest.map Contact.peerId ∧
      ∀ x, x ∈ (p.iterativeFind first seeds).providers.map ProviderRecord.providerPeerId ↔
        x ∈ (p.iterativeFind second seeds).providers.map ProviderRecord.providerPeerId := by
  intro p first second seeds
  have hanswers : ∀ x o, sampleAnswers x = some o → ∀ c ∈ o.closer, CanonicalId c.peerId := by
    have hthree : CanonicalId (sampleContact 3).peerId := by decide +kernel
    intro x o ho c hc
    unfold sampleAnswers at ho
    split at ho
    · cases ho
      rw [List.mem_singleton.mp hc]
      exact hthree
    · cases ho
      rw [List.mem_singleton.mp hc]
      exact hthree
  exact ⟨by decide +kernel, p.arrival_irrelevant first second seeds sampleAnswers
    (fun _ _ => rfl) (fun _ _ => rfl) (by decide +kernel) hanswers⟩

end Samples

end DigDht.Lookup
