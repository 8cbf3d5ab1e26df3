/-
DigDht.Lookup.BoundTheorems — what a lookup may cost and what it may
return, against any peers.

`Peers` is the adversary: a peer's answer may depend on everybody asked
in earlier rounds and be as long as it likes. §1 is the cost. The state a
round starts from knows its past (`log_of_visited`), so a contact asked
in it was a seed or stood in the folded part of an answer of a round
before; an id that was asked is never unasked again, whether or not its
entry is still on the shortlist. §2 is the result.
-/
import Mathlib.Algebra.Group.Action.Defs
import Mathlib.Algebra.Order.BigOperators.Group.List
import DigDht.Lookup.RoundTheorems

namespace DigDht.Lookup

open Keyspace Record Routing Selection BoundedLoop

namespace LookupParams

variable (p : LookupParams) [Deps] (peers : Peers)

/-! ## §1 The cost -/

omit [Deps] in
theorem length_batch_le (shortlist : List ShortlistEntry) :
    (p.batch shortlist).length ≤ p.alpha := by
  rw [batch, List.length_map]
  exact List.length_take_le _ _

omit [Deps] in
theorem length_answers_le (w : Walk) : (p.answers peers w).length ≤ p.alpha := by
  have hperm := (p.answers_perm peers w).length_eq
  rw [List.length_map] at hperm
  rw [hperm]
  exact p.length_batch_le w.shortlist

omit [Deps] in
/-- A batch names nobody twice, and nobody who was asked. -/
theorem nodup_batch {w : Walk} (hw : Consistent w) :
    ((p.batch w.shortlist).map Contact.peerId).Nodup ∧
      ∀ x ∈ (p.batch w.shortlist).map Contact.peerId, x ∉ askedIds w := by
  rw [p.map_batch hw]
  constructor
  · exact (hw.nodup.filter _).sublist (List.take_sublist _ _)
  · intro x hx
    have hfilter := List.mem_of_mem_take hx
    simpa using (List.mem_filter.mp hfilter).2

theorem nodup_askedIds_round {w : Walk} (hw : Consistent w) (hasked : (askedIds w).Nodup) :
    (askedIds (p.round peers w)).Nodup := by
  obtain ⟨hnodup, hfresh⟩ := p.nodup_batch hw
  have hids : ((p.answers peers w).map fun x => x.1.peerId).Perm
      ((p.batch w.shortlist).map Contact.peerId) := by
    simpa [Function.comp_def] using (p.answers_perm peers w).map Contact.peerId
  rw [askedIds, trace_round, List.map_append, List.nodup_append']
  refine ⟨hasked, hids.nodup_iff.mpr hnodup, ?_⟩
  intro x hx hx'
  exact hfresh x (hids.mem_iff.mp hx') hx

/-- No id is asked twice. -/
theorem nodup_askedIds (seeds : List Contact) :
    (askedIds (p.walk peers seeds).1).Nodup := by
  let Q (w : Walk) : Prop := Consistent w ∧ (askedIds w).Nodup
  have hround : ∀ w, Q w → Q (p.round peers w) := by
    intro w hw
    exact ⟨p.consistent_round peers hw.1, p.nodup_askedIds_round peers hw.1 hw.2⟩
  have hstart : Q (p.seeded seeds) := ⟨p.consistent_seeded seeds, by simp [askedIds]⟩
  exact (p.walk_invariant peers hround hstart).2

/-- The exchanges of a walk, round by round. -/
def exchanges (seeds : List Contact) : List (List (Contact × Option QueryOutcome)) :=
  (visited (p.pass peers) maxLookupRounds (p.seeded seeds)).map (p.answers peers)

theorem trace_eq_flatten (seeds : List Contact) :
    (p.walk peers seeds).1.trace = (p.exchanges peers seeds).flatten := by
  rw [trace_walk, exchanges, List.flatMap_def]

theorem length_batch_exchanged_le (seeds : List Contact) :
    ∀ r ∈ p.exchanges peers seeds, r.length ≤ p.alpha := by
  intro r hr
  obtain ⟨w, -, rfl⟩ := List.mem_map.mp hr
  exact p.length_answers_le peers w

theorem length_exchanges_le (seeds : List Contact) :
    (p.exchanges peers seeds).length ≤ maxLookupRounds := by
  rw [exchanges, List.length_map]
  exact length_visited_le _ _

/-- As many rounds as the guard allows, each of as many queries as a
batch holds. -/
theorem length_trace_le (seeds : List Contact) :
    (p.walk peers seeds).1.trace.length ≤ maxLookupRounds * p.alpha := by
  have hsum := List.sum_le_card_nsmul ((p.exchanges peers seeds).map List.length) p.alpha
    (List.forall_mem_map.mpr (p.length_batch_exchanged_le peers seeds))
  rw [List.length_map, smul_eq_mul] at hsum
  rw [p.trace_eq_flatten peers seeds, List.length_flatten]
  exact le_trans hsum (Nat.mul_le_mul_right _ (p.length_exchanges_le peers seeds))

/-- `c` is a seed, or stands in the folded part of a successful answer
among `before`. -/
def Named (seeds : List Contact) (before : List (Contact × Option QueryOutcome)) (c : Contact) :
    Prop :=
  c ∈ seeds ∨ ∃ a ∈ before, ∃ outcome, a.2 = some outcome ∧ c ∈ outcome.closer.take p.closerCap

omit [Deps] in
theorem mem_heard {seeds : List Contact} {w : Walk} {c : Contact} :
    c ∈ p.heard seeds w ↔ p.Named seeds w.trace c := by
  rw [heard, List.mem_append, List.mem_flatMap, Named]
  refine or_congr Iff.rfl (exists_congr ?_)
  intro a
  refine and_congr_right ?_
  intro _
  unfold learnt
  cases a.2 <;> simp

/-- Who is asked in a round was named before it. -/
theorem named_of_asked {seeds : List Contact}
    {before after : List (List (Contact × Option QueryOutcome))}
    {r : List (Contact × Option QueryOutcome)}
    (h : p.exchanges peers seeds = before ++ r :: after) :
    ∀ x ∈ r, p.Named seeds before.flatten x.1 := by
  obtain ⟨ws, vs, hvisited, rfl, hrest⟩ := List.map_eq_append_iff.mp h
  obtain ⟨w, us, rfl, rfl, -⟩ := List.map_eq_cons_iff.mp hrest
  have hw : p.Grounded peers seeds w := by
    refine p.visited_invariant peers (fun _ hv => p.grounded_round peers hv)
      (p.grounded_seeded peers seeds) w ?_
    rw [hvisited]
    exact List.mem_append_right _ List.mem_cons_self
  have htrace : w.trace = (ws.map (p.answers peers)).flatten := by
    have hlog := log_of_visited (f := Walk.trace) (g := p.answers peers)
      (fun v v' hnext => by rw [(p.pass_eq_next peers hnext).1, trace_round])
      maxLookupRounds hvisited
    rwa [trace_seeded, List.nil_append, List.flatMap_def] at hlog
  intro x hx
  obtain ⟨hbatch, -⟩ := p.mem_answers peers hx
  obtain ⟨e, he, hcontact⟩ := List.mem_map.mp (p.mem_batch hbatch)
  have hheard := hw.source e he
  rwa [hcontact, mem_heard, htrace] at hheard

/-- A walk asks whom it has heard of. -/
theorem mem_heard_of_asked {seeds : List Contact} {x : Contact × Option QueryOutcome}
    (h : x ∈ (p.walk peers seeds).1.trace) : x.1 ∈ p.heard seeds (p.walk peers seeds).1 := by
  rw [p.trace_eq_flatten peers seeds] at h
  obtain ⟨r, hr, hx⟩ := List.mem_flatten.mp h
  obtain ⟨before, after, hsplit⟩ := List.append_of_mem hr
  refine p.mem_heard.mpr ?_
  rw [p.trace_eq_flatten peers seeds, hsplit]
  rcases p.named_of_asked peers hsplit x hx with hseed | ⟨a, ha, hnamed⟩
  · exact Or.inl hseed
  · refine Or.inr ⟨a, ?_, hnamed⟩
    rw [List.flatten_append]
    exact List.mem_append_left _ ha

/-! ## §2 The result -/

/-- How many exchanges of a walk succeeded. -/
def successes (trace : List (Contact × Option QueryOutcome)) : Nat :=
  trace.countP fun a => a.2.isSome

omit [Deps] in
theorem length_collected_le (trace : List (Contact × Option QueryOutcome)) :
    (p.collected trace).length ≤ p.providerCap * successes trace := by
  induction trace with
  | nil => simp [collected]
  | cons a trace ih =>
    rw [collected, List.flatMap_cons, List.length_append, successes, List.countP_cons]
    rw [collected, successes] at ih
    have hone : (p.contribution a).length ≤ p.providerCap * (if a.2.isSome then 1 else 0) := by
      unfold contribution
      cases a.2 with
      | none => simp
      | some outcome => simp
    rw [Nat.mul_add]
    omega

omit [Deps] in
/-- What is collected stood in the folded part of a successful answer. -/
theorem mem_collected {trace : List (Contact × Option QueryOutcome)} {r : ProviderRecord} :
    r ∈ p.collected trace ↔
      ∃ a ∈ trace, ∃ outcome, a.2 = some outcome ∧ r ∈ outcome.providers.take p.providerCap := by
  rw [collected, List.mem_flatMap]
  refine exists_congr ?_
  intro a
  refine and_congr_right ?_
  intro _
  unfold contribution
  cases a.2 <;> simp

omit [Deps] in
/-- The collected providers are distinct, and as many as the answers may
name. -/
theorem providers_bounds {peers : Peers} {w : Walk} (hw : p.WalkInv peers w) :
    ((FMap.values w.providers).map ProviderRecord.providerPeerId).Nodup ∧
      (FMap.values w.providers).length ≤ p.providerCap * successes w.trace := by
  have hkeys : (FMap.values w.providers).map ProviderRecord.providerPeerId = w.providers.keys :=
    FMap.map_values_eq_keys fun _ _ hlookup => (hw.providers_spec hlookup).2
  have hnodup : ((FMap.values w.providers).map ProviderRecord.providerPeerId).Nodup :=
    hkeys ▸ w.providers.keys_nodup
  refine ⟨hnodup, ?_⟩
  have hsub : (FMap.values w.providers).map ProviderRecord.providerPeerId ⊆
      (p.collected w.trace).map ProviderRecord.providerPeerId := by
    intro x hx
    exact (hw.mem_providers_iff x).mp hx
  have hlength := (hnodup.subperm hsub).length_le
  rw [List.length_map, List.length_map] at hlength
  exact le_trans hlength (p.length_collected_le w.trace)

/-- The entries a walk returns the contacts of. -/
def returned (w : Walk) : List ShortlistEntry :=
  (w.shortlist.filter fun e => !e.failed).take p.k

omit [Deps] in
theorem returned_sublist (w : Walk) : (p.returned w).Sublist w.shortlist :=
  (List.take_sublist _ _).trans List.filter_sublist

omit [Deps] in
/-- A contact that was asked in vain is not returned. -/
theorem answer_of_returned {w : Walk} (hw : Consistent w) (hasked : (askedIds w).Nodup)
    {e : ShortlistEntry} (he : e ∈ p.returned w) :
    ∀ a ∈ w.trace, a.1.peerId = e.contact.peerId → a.2 ≠ none := by
  have hmem := List.mem_filter.mp (List.mem_of_mem_take he)
  have hlive : e.failed = false := by simpa using hmem.2
  intro a ha hid
  cases hq : e.queried with
  | false => exact absurd hid ((hw.unqueried e hmem.1 hq).2 a ha)
  | true =>
    obtain ⟨res, hres, hfailed⟩ := hw.queried e hmem.1 hq
    have hsame : a = (e.contact, res) := List.inj_on_of_nodup_map hasked ha hres hid
    rw [hsame]
    intro hnone
    have hnone' : res = none := hnone
    rw [hnone', hlive] at hfailed
    cases hfailed

theorem closest_eq_returned (seeds : List Contact) :
    (p.iterativeFind peers seeds).closest =
      (p.returned (p.walk peers seeds).1).map ShortlistEntry.contact := rfl

/-- What is returned is measured by its key. -/
theorem distance_of_returned {peers : Peers} {seeds : List Contact} {w : Walk}
    (hw : p.Grounded peers seeds w) {e : ShortlistEntry} (he : e ∈ p.returned w) :
    ∃ key, e.contact.key = some key ∧ e.distance = p.target.distance key := by
  have hmeasured := hw.measured e ((p.returned_sublist w).subset he)
  obtain ⟨key, hkey, hdistance⟩ := Option.map_eq_some_iff.mp hmeasured
  exact ⟨key, hkey, hdistance.symm⟩

/-- What one lookup may cost and return. -/
structure Bounds (seeds : List Contact) : Prop where
  rounds : (p.exchanges peers seeds).length ≤ maxLookupRounds
  trace : (p.walk peers seeds).1.trace = (p.exchanges peers seeds).flatten
  batch : ∀ r ∈ p.exchanges peers seeds, r.length ≤ p.alpha
  calls : (p.walk peers seeds).1.trace.length ≤ maxLookupRounds * p.alpha
  once : (askedIds (p.walk peers seeds).1).Nodup
  asked : ∀ before r after, p.exchanges peers seeds = before ++ r :: after →
    ∀ x ∈ r, p.Named seeds before.flatten x.1
  closest_named : ∀ c ∈ (p.iterativeFind peers seeds).closest,
    p.Named seeds (p.walk peers seeds).1.trace c
  closest_length : (p.iterativeFind peers seeds).closest.length ≤ p.k
  closest_nodup : ((p.iterativeFind peers seeds).closest.map Contact.peerId).Nodup
  closest_keyed : ∀ c ∈ (p.iterativeFind peers seeds).closest, c.key ≠ none
  closest_sorted : (p.iterativeFind peers seeds).closest.Pairwise fun c d =>
    ∀ a b, c.key = some a → d.key = some b → p.target.distance a ≤ p.target.distance b
  closest_answered : ∀ c ∈ (p.iterativeFind peers seeds).closest,
    ∀ a ∈ (p.walk peers seeds).1.trace, a.1.peerId = c.peerId → a.2 ≠ none
  providers_nodup :
    ((p.iterativeFind peers seeds).providers.map ProviderRecord.providerPeerId).Nodup
  providers_named : ∀ r ∈ (p.iterativeFind peers seeds).providers,
    ∃ a ∈ (p.walk peers seeds).1.trace, ∃ outcome, a.2 = some outcome ∧
      r ∈ outcome.providers.take p.providerCap
  providers_length : (p.iterativeFind peers seeds).providers.length ≤
    p.providerCap * successes (p.walk peers seeds).1.trace

/-- **Work and result bounds**, against any peers. -/
theorem lookup_bounds (seeds : List Contact) : p.Bounds peers seeds := by
  have hw : p.Grounded peers seeds (p.walk peers seeds).1 := p.grounded_walk peers seeds
  have hasked := p.nodup_askedIds peers seeds
  have hreturned := p.returned_sublist (p.walk peers seeds).1
  obtain ⟨hnodup, hlength⟩ := p.providers_bounds hw.toWalkInv
  refine
    { rounds := p.length_exchanges_le peers seeds
      trace := p.trace_eq_flatten peers seeds
      batch := p.length_batch_exchanged_le peers seeds
      calls := p.length_trace_le peers seeds
      once := hasked
      asked := fun before r after h => p.named_of_asked peers h
      closest_named := fun c hc => p.mem_heard.mp (p.mem_heard_of_mem_closest hw hc)
      closest_length := ?_
      closest_nodup := ?_
      closest_keyed := ?_
      closest_sorted := ?_
      closest_answered := ?_
      providers_nodup := hnodup
      providers_named := ?_
      providers_length := hlength }
  · rw [closest_eq_returned, List.length_map]
    exact List.length_take_le _ _
  · rw [closest_eq_returned, ← ids_eq_map]
    exact hw.nodup.sublist (hreturned.map _)
  · rw [closest_eq_returned, List.forall_mem_map]
    intro e he hnone
    obtain ⟨key, hkey, -⟩ := p.distance_of_returned hw he
    rw [hnone] at hkey
    cases hkey
  · rw [closest_eq_returned, List.pairwise_map]
    refine (hw.sorted.sublist hreturned).imp_of_mem ?_
    intro e d he hd hle a b ha hb
    obtain ⟨_, hkey, hdistance⟩ := p.distance_of_returned hw he
    obtain ⟨_, hkey', hdistance'⟩ := p.distance_of_returned hw hd
    cases ha.symm.trans hkey
    cases hb.symm.trans hkey'
    rwa [← hdistance, ← hdistance']
  · rw [closest_eq_returned, List.forall_mem_map]
    intro e he
    exact p.answer_of_returned hw.toConsistent hasked he
  · intro r hr
    obtain ⟨x, hx⟩ := FMap.mem_values_iff.mp hr
    exact p.mem_collected.mp (hw.providers_spec hx).1

end LookupParams

end DigDht.Lookup
