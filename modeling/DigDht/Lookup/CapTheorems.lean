/-
DigDht.Lookup.CapTheorems — what the cap of the shortlist costs.

§1 is what the cap does not cost. A walk merges every contact it hears
of, first spelling first; cut or not, its shortlist is the first
`shortlistCap` of ALL of them in order of distance (`shortlist_eq`),
because sorting, cutting and going on is sorting and cutting at the end.
§2 is what it costs. The cap counts contacts that were asked in vain, the
result does not: the lookup returns the nearest it learned of exactly
when the cap left `k` that did not fail, or cut none.
-/
import DigDht.Lookup.BoundTheorems

namespace DigDht.Lookup

open Keyspace Record Routing Selection BoundedLoop

section Sightings

variable [Deps]

/-- The contacts of `cs` that spell a key, the first of each id, ids in
`seen` left out. -/
def sightings (seen : Finset String) (cs : List Contact) : List Contact :=
  keepFirst Contact.peerId seen (cs.filter fun c => c.key.isSome)

theorem sightings_append (seen : Finset String) (cs ds : List Contact) :
    sightings seen (cs ++ ds) =
      sightings seen cs ++ sightings (seen ∪ (keyedIds cs).toFinset) ds := by
  rw [sightings, List.filter_append, keepFirst_append]
  rfl

end Sightings

namespace LookupParams

variable (p : LookupParams) [Deps]

/-! ## §1 The shortlist -/

/-- The contacts on the shortlist. -/
def contacts (w : Walk) : List Contact :=
  w.shortlist.map ShortlistEntry.contact

theorem contacts_foldl_mergeContact (w : Walk) (cs : List Contact) :
    contacts (cs.foldl p.mergeContact w) = contacts w ++ sightings w.seen cs := by
  induction cs generalizing w with
  | nil => simp [sightings]
  | cons c cs ih =>
    rw [List.foldl_cons, ih]
    unfold mergeContact sightings
    cases hkey : c.key with
    | none => simp [hkey]
    | some key =>
      by_cases hseen : c.peerId ∈ w.seen
      · simp [hkey, hseen, keepFirst]
      · simp [hkey, hseen, keepFirst, contacts]

theorem contacts_foldl_foldAnswer (w : Walk) (as : List (Contact × Option QueryOutcome)) :
    contacts (as.foldl p.foldAnswer w) = contacts w ++ sightings w.seen (as.flatMap p.learnt) := by
  induction as generalizing w with
  | nil => simp [sightings]
  | cons a as ih =>
    have hseen : (p.foldAnswer w a).seen = w.seen ∪ (keyedIds (p.learnt a)).toFinset := by
      ext x
      rw [(p.merges_foldAnswer w a).seen_iff, Finset.mem_union, List.mem_toFinset]
    have hone : contacts (p.foldAnswer w a) = contacts w ++ sightings w.seen (p.learnt a) := by
      rw [foldAnswer_eq, contacts_foldl_mergeContact]
      congr 1
      exact map_contact_markQueried _ _ _
    rw [List.foldl_cons, ih, hone, hseen, List.flatMap_cons, sightings_append,
      List.append_assoc]

/-- The contacts a walk from `seeds` has learned of, nearest first, in the
order they were learned where they are as near. -/
def nearest (seeds : List Contact) (w : Walk) : List Contact :=
  sortByKey (fun c => distanceOf p.target c.peerId) (sightings ∅ (p.heard seeds w))

theorem contacts_sortAndCap {l : List ShortlistEntry} (h : ∀ e ∈ l, Measured p.target e) :
    (p.sortAndCap l).map ShortlistEntry.contact =
      (sortByKey (fun c => distanceOf p.target c.peerId)
        (l.map ShortlistEntry.contact)).take p.shortlistCap := by
  rw [sortAndCap, List.map_take]
  congr 1
  exact map_sortByKey _ fun e he => (h e he).distance_eq

/-- The shortlist is the front of everything learned. -/
def Fronted (seeds : List Contact) (w : Walk) : Prop :=
  contacts w = (p.nearest seeds w).take p.shortlistCap

theorem fronted_seeded (seeds : List Contact) :
    p.Fronted seeds (p.seeded seeds) := by
  have hmeasured : ∀ e ∈ (seeds.foldl p.mergeContact Walk.empty).shortlist,
      Measured p.target e := fun e he => (p.entry_merged_seeds seeds e he).2
  have hmerged := p.contacts_foldl_mergeContact Walk.empty seeds
  rw [Fronted, nearest, heard, trace_seeded, List.flatMap_nil, List.append_nil]
  show (p.sortAndCap _).map ShortlistEntry.contact = _
  rw [p.contacts_sortAndCap hmeasured]
  unfold contacts at hmerged
  rw [hmerged]
  rfl

theorem fronted_round (peers : Peers) {seeds : List Contact} {w : Walk}
    (hw : p.Grounded peers seeds w) (h : p.Fronted seeds w) :
    p.Fronted seeds (p.round peers w) := by
  have hmeasured : ∀ e ∈ ((p.answers peers w).foldl p.foldAnswer w).shortlist,
      Measured p.target e := by
    intro e he
    exact (p.entry_folded peers hw e he).2
  have hseen : w.seen = (keyedIds (p.heard seeds w)).toFinset := by
    ext x
    rw [hw.seen_iff, List.mem_toFinset]
  have hfolded := p.contacts_foldl_foldAnswer w (p.answers peers w)
  unfold contacts at hfolded
  rw [Fronted, nearest, heard_round, sightings_append, Finset.empty_union]
  show (p.sortAndCap _).map ShortlistEntry.contact = _
  rw [p.contacts_sortAndCap hmeasured, hfolded, hseen]
  have hcontacts : w.shortlist.map ShortlistEntry.contact =
      (p.nearest seeds w).take p.shortlistCap := h
  rw [hcontacts, nearest, take_sortByKey_append]

/-- The shortlist a walk ends with. -/
theorem fronted_walk (peers : Peers) (seeds : List Contact) :
    p.Fronted seeds (p.walk peers seeds).1 := by
  refine (p.walk_invariant peers (Q := fun w => p.Grounded peers seeds w ∧ p.Fronted seeds w)
    ?_ ⟨p.grounded_seeded peers seeds, p.fronted_seeded seeds⟩).2
  intro w hw
  exact ⟨p.grounded_round peers hw.1, p.fronted_round peers hw.1 hw.2⟩

/-! ## §2 The result -/

/-- `c` was asked in vain. -/
def failedIn (trace : List (Contact × Option QueryOutcome)) (c : Contact) : Bool :=
  trace.any fun a => a.1.peerId = c.peerId && a.2.isNone

omit [Deps] in
theorem failed_eq {w : Walk} (hw : Consistent w) (hasked : (askedIds w).Nodup)
    {e : ShortlistEntry} (he : e ∈ w.shortlist) : e.failed = failedIn w.trace e.contact := by
  rw [Bool.eq_iff_iff, failedIn, List.any_eq_true]
  simp only [Bool.and_eq_true, decide_eq_true_eq]
  cases hq : e.queried with
  | false =>
    obtain ⟨hfailed, hnever⟩ := hw.unqueried e he hq
    refine iff_of_false (by simp [hfailed]) ?_
    intro h
    obtain ⟨a, ha, hid, -⟩ := h
    exact hnever a ha hid
  | true =>
    obtain ⟨res, hres, hfailed⟩ := hw.queried e he hq
    constructor
    · intro h
      exact ⟨_, hres, rfl, by rw [hfailed, h]⟩
    · intro h
      obtain ⟨a, ha, hid, hnone⟩ := h
      have hsame : a = (e.contact, res) := List.inj_on_of_nodup_map hasked ha hres hid
      rw [hsame] at hnone
      rw [← hfailed, hnone]

/-- The result is the front of what was learned, less what was asked in
vain. -/
theorem closest_eq_filter_front (peers : Peers) (seeds : List Contact) :
    let w := (p.walk peers seeds).1
    (p.iterativeFind peers seeds).closest =
      (((p.nearest seeds w).take p.shortlistCap).filter fun c =>
        !failedIn w.trace c).take p.k := by
  intro w
  have hw : p.Grounded peers seeds w := p.grounded_walk peers seeds
  have hasked : (askedIds w).Nodup := p.nodup_askedIds peers seeds
  have hfront : w.shortlist.map ShortlistEntry.contact =
      (p.nearest seeds w).take p.shortlistCap := p.fronted_walk peers seeds
  have hresult : (p.iterativeFind peers seeds).closest =
      ((w.shortlist.filter fun e => !e.failed).take p.k).map ShortlistEntry.contact := rfl
  have hflags : w.shortlist.filter (fun e => !e.failed) =
      w.shortlist.filter fun e => !failedIn w.trace e.contact := by
    refine List.filter_congr ?_
    intro e he
    rw [failed_eq hw.toConsistent hasked he]
  rw [hresult, hflags, List.map_take, ← hfront, List.filter_map]
  rfl

/-- **What the cap costs.** A lookup returns the `k` nearest contacts it
learned of that were not asked in vain exactly when `k` of those within
the cap were not, or all those beyond it were. -/
theorem closest_eq_nearest_iff (peers : Peers) (seeds : List Contact) :
    let w := (p.walk peers seeds).1
    (p.iterativeFind peers seeds).closest =
        ((p.nearest seeds w).filter fun c => !failedIn w.trace c).take p.k ↔
      p.k ≤ ((p.nearest seeds w).take p.shortlistCap).countP (fun c => !failedIn w.trace c) ∨
        ∀ c ∈ (p.nearest seeds w).drop p.shortlistCap, failedIn w.trace c = true := by
  intro w
  have hclosest : (p.iterativeFind peers seeds).closest =
      (((p.nearest seeds w).take p.shortlistCap).filter fun c => !failedIn w.trace c).take p.k :=
    p.closest_eq_filter_front peers seeds
  rw [hclosest, take_filter_take_iff]
  simp only [Bool.not_eq_false']

end LookupParams

section Samples

attribute [local instance] hexIds

/-- A chain of answers: each peer that answers tells of a contact beyond
every other, which fails, and of the next peer that answers. -/
def chain (peerId : String) : Option QueryOutcome :=
  if peerId = (sampleContact 8).peerId then some ⟨[sampleContact 3, sampleContact 7], []⟩
  else if peerId = (sampleContact 7).peerId then some ⟨[sampleContact 2, sampleContact 6], []⟩
  else if peerId = (sampleContact 6).peerId then some ⟨[sampleContact 1, sampleContact 5], []⟩
  else none

/-- The peers of the chain, each round answering in the order asked. -/
def chained : Peers :=
  answering chain id fun batch => List.Perm.refl batch

/-- Five contacts asked in vain fill the shortlist; the three that
answered are cut and the lookup returns nothing. -/
theorem closest_lost_to_cap :
    let seeds := [sampleContact 4, sampleContact 8]
    let w := ((sampleLookup 2).walk chained seeds).1
    ((sampleLookup 2).iterativeFind chained seeds).closest ≠
      (((sampleLookup 2).nearest seeds w).filter fun c =>
        !LookupParams.failedIn w.trace c).take (sampleLookup 2).k := by
  intro seeds w
  have hclosest : ((sampleLookup 2).iterativeFind chained seeds).closest = [] := by
    decide +kernel
  have hnearest : (((sampleLookup 2).nearest seeds w).filter fun c =>
      !LookupParams.failedIn w.trace c).take (sampleLookup 2).k = [sampleContact 6] := by
    decide +kernel
  rw [hclosest, hnearest]
  exact (List.cons_ne_nil _ _).symm

end Samples

end DigDht.Lookup
