/-
DigDht.Lookup.RoundTheorems — what a round does, read as sets of ids.

A round folds its answers one by one into a list that is appended to,
marked and cut. `Merges` forgets the order: which ids were seen before
and which the answers named decide which ids are seen after and which
entries are on the shortlist (§1). From it comes what holds of a walk at
every round boundary (`Grounded`, §2): every entry was a seed or was
named in an answer and stands at its distance, and the ids seen are the
ids of the seeds and the answers. With that the flags, the batch and the
convergence test can be read off the ids and the exchanges alone (§3).
§4 is the list of rounds of a walk.
-/
import DigDht.Keyspace.KeyTheorems
import DigDht.Lookup.IterativeFindTheorems

namespace DigDht.Lookup

open Keyspace Record Routing Selection BoundedLoop

/-! ## §1 Merging, without the order -/

/-- The ids asked so far. -/
def askedIds (w : Walk) : List String :=
  w.trace.map fun x => x.1.peerId

section Merging

variable [Deps]

/-- The ids among `cs` that spell a key. -/
def keyedIds (cs : List Contact) : List String :=
  (cs.filter fun c => c.key.isSome).map Contact.peerId

@[simp] theorem keyedIds_nil : keyedIds [] = [] := rfl

@[simp] theorem keyedIds_append (cs ds : List Contact) :
    keyedIds (cs ++ ds) = keyedIds cs ++ keyedIds ds := by
  simp [keyedIds]

theorem mem_keyedIds {cs : List Contact} {x : String} :
    x ∈ keyedIds cs ↔ (∃ c ∈ cs, c.peerId = x) ∧ ∃ p, Deps.fromHex x = some p := by
  simp only [keyedIds, List.mem_map, List.mem_filter, Contact.key, Contact.peer,
    Option.isSome_map, Option.isSome_iff_exists]
  constructor
  · intro h
    obtain ⟨c, ⟨hc, hkey⟩, rfl⟩ := h
    exact ⟨⟨c, hc, rfl⟩, hkey⟩
  · intro h
    obtain ⟨⟨c, hc, rfl⟩, hkey⟩ := h
    exact ⟨c, ⟨hc, hkey⟩, rfl⟩

/-- The entry stands at the distance of the key its contact names. -/
def Measured (target : Key) (e : ShortlistEntry) : Prop :=
  e.contact.key.map target.distance = some e.distance

/-- How far the identity `x` spells is from `target`; zero if it spells
none. -/
def distanceOf (target : Key) (x : String) : Distance :=
  target.distance (((Deps.fromHex x).map Key.fromPeerId).getD target)

theorem Measured.distance_eq {target : Key} {e : ShortlistEntry} (h : Measured target e) :
    e.distance = distanceOf target e.contact.peerId := by
  obtain ⟨key, hkey, hdistance⟩ := Option.map_eq_some_iff.mp h
  have hspelt : (Deps.fromHex e.contact.peerId).map Key.fromPeerId = some key := hkey
  rw [distanceOf, hspelt, Option.getD_some, hdistance]

theorem Measured.spells {target : Key} {e : ShortlistEntry} (h : Measured target e) :
    ∃ p, Deps.fromHex e.contact.peerId = some p := by
  obtain ⟨key, hkey, -⟩ := Option.map_eq_some_iff.mp h
  obtain ⟨p, hp, -⟩ := Option.map_eq_some_iff.mp hkey
  exact ⟨p, hp⟩

/-- Identities at one distance are one identity. -/
theorem distanceOf_inj {target : Key} {x y : String} {a b : PeerId}
    (hx : Deps.fromHex x = some a) (hy : Deps.fromHex y = some b)
    (h : distanceOf target x = distanceOf target y) : a = b := by
  have hkey : Key.fromPeerId a = Key.fromPeerId b := by
    refine target.distance_injective ?_
    simpa [distanceOf, hx, hy] using h
  cases a
  cases b
  exact congrArg PeerId.mk (congrArg Key.bytes hkey)

theorem map_distance_eq {target : Key} {l : List ShortlistEntry} (h : ∀ e ∈ l, Measured target e) :
    l.map ShortlistEntry.distance = (ids l).map (distanceOf target) := by
  rw [ids, List.map_map]
  exact List.map_congr_left fun e he => (h e he).distance_eq

/-- With one spelling for each identity there are no ties. -/
theorem nodup_distances {target : Key} {l : List ShortlistEntry} (hids : (ids l).Nodup)
    (hmeasured : ∀ e ∈ l, Measured target e)
    (hspelt : ∀ x ∈ ids l, ∀ y ∈ ids l, Deps.fromHex x = Deps.fromHex y → x = y) :
    (l.map ShortlistEntry.distance).Nodup := by
  have hdecodes : ∀ x ∈ ids l, ∃ p, Deps.fromHex x = some p :=
    List.forall_mem_map.mpr fun e he => (hmeasured e he).spells
  rw [map_distance_eq hmeasured]
  refine hids.map_on ?_
  intro x hx y hy h
  obtain ⟨a, ha⟩ := hdecodes x hx
  obtain ⟨b, hb⟩ := hdecodes y hy
  exact hspelt x hx y hy (by rw [ha, hb, distanceOf_inj ha hb h])

/-- From `w` to `w'` the contacts `cs` were merged; entries may have been
marked. -/
structure Merges (target : Key) (w : Walk) (cs : List Contact) (w' : Walk) : Prop where
  seen_iff : ∀ x, x ∈ w'.seen ↔ x ∈ w.seen ∨ x ∈ keyedIds cs
  ids_iff : ∀ x, x ∈ ids w'.shortlist ↔ x ∈ ids w.shortlist ∨ x ∉ w.seen ∧ x ∈ keyedIds cs
  entry : ∀ e ∈ w'.shortlist,
    (∃ d ∈ w.shortlist, d.contact = e.contact ∧ d.distance = e.distance) ∨
      e.contact ∈ cs ∧ Measured target e

namespace Merges

variable {target : Key} {w w' w'' : Walk}

theorem refl (w : Walk) : Merges target w [] w := by
  constructor
  · simp
  · simp
  · intro e he
    exact Or.inl ⟨e, he, rfl, rfl⟩

theorem trans {cs ds : List Contact} (h : Merges target w cs w')
    (h' : Merges target w' ds w'') : Merges target w (cs ++ ds) w'' := by
  constructor
  · intro x
    rw [h'.seen_iff, h.seen_iff, keyedIds_append, List.mem_append, or_assoc]
  · intro x
    rw [h'.ids_iff, h.ids_iff, h.seen_iff, keyedIds_append, List.mem_append]
    tauto
  · intro e he
    rcases h'.entry e he with ⟨d, hd, hcontact, hdistance⟩ | ⟨hnew, hmeasured⟩
    · rcases h.entry d hd with ⟨b, hb, hb', hb''⟩ | ⟨hold, hmeasured⟩
      · exact Or.inl ⟨b, hb, hb'.trans hcontact, hb''.trans hdistance⟩
      · refine Or.inr ⟨List.mem_append_left _ (hcontact ▸ hold), ?_⟩
        rwa [Measured, ← hcontact, ← hdistance]
    · exact Or.inr ⟨List.mem_append_right _ hnew, hmeasured⟩

end Merges

end Merging

/-- Marking moves no contact and no distance. -/
theorem mem_markQueried_cases {x : String} {failed : Bool} {l : List ShortlistEntry}
    {e : ShortlistEntry} (h : e ∈ markQueried x failed l) :
    ∃ d ∈ l, d.contact = e.contact ∧ d.distance = e.distance := by
  induction l with
  | nil => cases h
  | cons a l ih =>
    unfold markQueried at h
    split at h
    · rcases List.mem_cons.mp h with rfl | h
      · exact ⟨a, List.mem_cons_self, rfl, rfl⟩
      · exact ⟨e, List.mem_cons_of_mem a h, rfl, rfl⟩
    · rcases List.mem_cons.mp h with rfl | h
      · exact ⟨e, List.mem_cons_self, rfl, rfl⟩
      · obtain ⟨d, hd, hsame⟩ := ih h
        exact ⟨d, List.mem_cons_of_mem a hd, hsame⟩

namespace LookupParams

variable (p : LookupParams) [Deps]

theorem merges_mergeContact (w : Walk) (c : Contact) :
    Merges p.target w [c] (p.mergeContact w c) := by
  unfold mergeContact
  split
  · rename_i hseen
    have hold : ∀ x, x ∈ keyedIds [c] → x ∈ w.seen := by
      intro x hx
      obtain ⟨⟨d, hd, rfl⟩, -⟩ := mem_keyedIds.mp hx
      rwa [List.mem_singleton.mp hd]
    constructor
    · intro x
      exact (or_iff_left_of_imp (hold x)).symm
    · intro x
      refine (or_iff_left_of_imp ?_).symm
      intro h
      exact absurd (hold x h.2) h.1
    · intro e he
      exact Or.inl ⟨e, he, rfl, rfl⟩
  · rename_i hfresh
    cases hkey : c.key with
    | none =>
      have hnone : keyedIds [c] = [] := by simp [keyedIds, hkey]
      constructor
      · simp [hnone]
      · simp [hnone]
      · intro e he
        exact Or.inl ⟨e, he, rfl, rfl⟩
    | some key =>
      have hone : keyedIds [c] = [c.peerId] := by simp [keyedIds, hkey]
      constructor
      · intro x
        rw [hone, Finset.mem_insert, List.mem_singleton, or_comm]
      · intro x
        rw [hone, List.mem_singleton, ids, List.map_append, List.mem_append]
        refine or_congr Iff.rfl ?_
        simp only [List.map_singleton, List.mem_singleton]
        refine ⟨?_, fun h => h.2⟩
        intro h
        exact ⟨h ▸ hfresh, h⟩
      · intro e he
        rcases List.mem_append.mp he with he | he
        · exact Or.inl ⟨e, he, rfl, rfl⟩
        · rw [List.mem_singleton.mp he]
          exact Or.inr ⟨List.mem_singleton.mpr rfl, by simp [Measured, hkey]⟩

theorem merges_foldl_mergeContact (w : Walk) (cs : List Contact) :
    Merges p.target w cs (cs.foldl p.mergeContact w) := by
  induction cs generalizing w with
  | nil => exact Merges.refl w
  | cons c cs ih => exact (p.merges_mergeContact w c).trans (ih _)

theorem merges_foldAnswer (w : Walk) (answer : Contact × Option QueryOutcome) :
    Merges p.target w (p.learnt answer) (p.foldAnswer w answer) := by
  have hnote : Merges p.target w [] (p.noteAnswer w answer) := by
    constructor
    · simp [noteAnswer]
    · simp [noteAnswer]
    · intro e he
      exact Or.inl (mem_markQueried_cases he)
  rw [foldAnswer_eq]
  exact hnote.trans (p.merges_foldl_mergeContact _ _)

theorem merges_foldl_foldAnswer (w : Walk) (as : List (Contact × Option QueryOutcome)) :
    Merges p.target w (as.flatMap p.learnt) (as.foldl p.foldAnswer w) := by
  induction as generalizing w with
  | nil => exact Merges.refl w
  | cons a as ih => exact (p.merges_foldAnswer w a).trans (ih _)

/-! ## §2 At every round boundary -/

omit [Deps] in
theorem mem_sortAndCap {l : List ShortlistEntry} {e : ShortlistEntry} (h : e ∈ p.sortAndCap l) :
    e ∈ l :=
  (mem_sortByKey _).mp (List.mem_of_mem_take h)

omit [Deps] in
theorem sorted_sortAndCap (l : List ShortlistEntry) :
    (p.sortAndCap l).Pairwise fun a b => a.distance ≤ b.distance :=
  (sortByKey_pairwise _ l).sublist (List.take_sublist _ _)

omit [Deps] in
theorem ids_sortAndCap (l : List ShortlistEntry) :
    ids (p.sortAndCap l) = (ids (sortByKey ShortlistEntry.distance l)).take p.shortlistCap := by
  rw [sortAndCap, ids, ids, List.map_take]

/-- What the cut leaves depends on the ids alone. -/
theorem ids_sortAndCap_congr {l l' : List ShortlistEntry}
    (hmeasured : ∀ e ∈ l, Measured p.target e) (hmeasured' : ∀ e ∈ l', Measured p.target e)
    (hperm : (ids l).Perm (ids l')) (hdistinct : (l.map ShortlistEntry.distance).Nodup) :
    ids (p.sortAndCap l) = ids (p.sortAndCap l') := by
  have hsorted : ids (sortByKey ShortlistEntry.distance l) =
      ids (sortByKey ShortlistEntry.distance l') :=
    map_sortByKey_eq _ (fun e he => (hmeasured e he).distance_eq)
      (fun e he => (hmeasured' e he).distance_eq) hperm hdistinct
  rw [ids_sortAndCap, ids_sortAndCap, hsorted]

/-- The contacts a walk from `seeds` has heard of. -/
def heard (seeds : List Contact) (w : Walk) : List Contact :=
  seeds ++ w.trace.flatMap p.learnt

/-- What holds of a walk from `seeds` whenever a round is over. -/
structure Grounded (peers : Peers) (seeds : List Contact) (w : Walk) : Prop
    extends p.WalkInv peers w where
  source : ∀ e ∈ w.shortlist, e.contact ∈ p.heard seeds w
  measured : ∀ e ∈ w.shortlist, Measured p.target e
  seen_iff : ∀ x, x ∈ w.seen ↔ x ∈ keyedIds (p.heard seeds w)
  sorted : w.shortlist.Pairwise fun a b => a.distance ≤ b.distance

variable (peers : Peers)

/-- An entry of the first shortlist is a measured seed. -/
theorem entry_merged_seeds (seeds : List Contact) :
    ∀ e ∈ (seeds.foldl p.mergeContact Walk.empty).shortlist,
      e.contact ∈ seeds ∧ Measured p.target e := by
  intro e he
  rcases (p.merges_foldl_mergeContact Walk.empty seeds).entry e he with ⟨d, hd, -⟩ | hentry
  · cases hd
  · exact hentry

theorem grounded_seeded (seeds : List Contact) : p.Grounded peers seeds (p.seeded seeds) := by
  have hmerges := p.merges_foldl_mergeContact Walk.empty seeds
  have hinv := p.walkInv_seeded peers seeds
  have hheard : p.heard seeds (p.seeded seeds) = seeds := by simp [heard]
  refine ⟨hinv, ?_, ?_, ?_, p.sorted_sortAndCap _⟩
  · intro e he
    rw [hheard]
    exact (p.entry_merged_seeds seeds e (p.mem_sortAndCap he)).1
  · intro e he
    exact (p.entry_merged_seeds seeds e (p.mem_sortAndCap he)).2
  · intro x
    rw [hheard]
    exact (hmerges.seen_iff x).trans (by simp [Walk.empty])

/-- The ids on the shortlist when a round has folded and not cut yet:
those that were on it, and those the round made known. -/
theorem mem_ids_folded (w : Walk) (x : String) :
    x ∈ ids ((p.answers peers w).foldl p.foldAnswer w).shortlist ↔
      x ∈ ids w.shortlist ∨ x ∉ w.seen ∧ x ∈ (p.round peers w).seen := by
  have hmerges := p.merges_foldl_foldAnswer w (p.answers peers w)
  have hseen : x ∈ (p.round peers w).seen ↔
      x ∈ w.seen ∨ x ∈ keyedIds ((p.answers peers w).flatMap p.learnt) := hmerges.seen_iff x
  rw [hmerges.ids_iff, hseen]
  tauto

theorem heard_round (seeds : List Contact) (w : Walk) :
    p.heard seeds (p.round peers w) =
      p.heard seeds w ++ (p.answers peers w).flatMap p.learnt := by
  simp [heard, trace_round]

/-- The entries at that point. -/
theorem entry_folded {seeds : List Contact} {w : Walk} (hw : p.Grounded peers seeds w) :
    ∀ e ∈ ((p.answers peers w).foldl p.foldAnswer w).shortlist,
      e.contact ∈ p.heard seeds (p.round peers w) ∧ Measured p.target e := by
  intro e he
  rw [heard_round]
  rcases (p.merges_foldl_foldAnswer w (p.answers peers w)).entry e he with
    ⟨d, hd, hcontact, hdistance⟩ | ⟨hnew, hmeasured⟩
  · refine ⟨List.mem_append_left _ (hcontact ▸ hw.source d hd), ?_⟩
    have hd' := hw.measured d hd
    rwa [Measured, hcontact, hdistance] at hd'
  · exact ⟨List.mem_append_right _ hnew, hmeasured⟩

theorem grounded_round {seeds : List Contact} {w : Walk} (hw : p.Grounded peers seeds w) :
    p.Grounded peers seeds (p.round peers w) := by
  have hentry := p.entry_folded peers hw
  refine ⟨p.walkInv_round peers hw.toWalkInv, ?_, ?_, ?_, p.sorted_sortAndCap _⟩
  · intro e he
    exact (hentry e (p.mem_sortAndCap he)).1
  · intro e he
    exact (hentry e (p.mem_sortAndCap he)).2
  · intro x
    rw [heard_round, keyedIds_append, List.mem_append, ← hw.seen_iff x]
    exact (p.merges_foldl_foldAnswer w (p.answers peers w)).seen_iff x

/-- A walk returns contacts it has heard of. -/
theorem mem_heard_of_mem_closest {peers : Peers} {seeds : List Contact} {w : Walk}
    (hw : p.Grounded peers seeds w) {c : Contact} (h : c ∈ (w.result p.k).closest) :
    c ∈ p.heard seeds w := by
  obtain ⟨e, he, rfl⟩ := List.mem_map.mp h
  exact hw.source e (List.mem_of_mem_filter (List.mem_of_mem_take he))

/-- A walk is grounded when it ends. -/
theorem grounded_walk (seeds : List Contact) :
    p.Grounded peers seeds (p.walk peers seeds).1 :=
  p.walk_invariant peers (fun _ hw => p.grounded_round peers hw) (p.grounded_seeded peers seeds)

end LookupParams

/-! ## §3 Reading the flags off the exchanges -/

theorem mem_askedIds {w : Walk} {x : String} :
    x ∈ askedIds w ↔ ∃ a ∈ w.trace, a.1.peerId = x := by
  simp [askedIds]

/-- Left to ask is what was never asked. -/
theorem Consistent.unasked_iff {w : Walk} (hw : Consistent w) {e : ShortlistEntry}
    (he : e ∈ w.shortlist) : e.unasked = true ↔ e.contact.peerId ∉ askedIds w := by
  rw [mem_askedIds]
  cases hq : e.queried with
  | true =>
    obtain ⟨res, hres, -⟩ := hw.queried e he hq
    refine iff_of_false (by simp [ShortlistEntry.unasked, hq]) ?_
    exact not_not.mpr ⟨_, hres, rfl⟩
  | false =>
    obtain ⟨hfailed, hnever⟩ := hw.unqueried e he hq
    refine iff_of_true (by simp [ShortlistEntry.unasked, hq, hfailed]) ?_
    intro h
    obtain ⟨a, ha, heq⟩ := h
    exact hnever a ha heq

namespace LookupParams

variable (p : LookupParams)

/-- The ids of a batch. -/
theorem map_batch {w : Walk} (hw : Consistent w) :
    (p.batch w.shortlist).map Contact.peerId =
      ((ids w.shortlist).filter fun x => x ∉ askedIds w).take p.alpha := by
  have hfilter : w.shortlist.filter ShortlistEntry.unasked =
      w.shortlist.filter fun e => e.contact.peerId ∉ askedIds w := by
    refine List.filter_congr ?_
    intro e he
    exact Bool.eq_iff_iff.mpr ((hw.unasked_iff he).trans (by simp))
  rw [batch, hfilter, ids, List.filter_map, List.map_map, List.map_take]
  rfl

/-- A walk has settled when the `k` nearest were all asked. -/
theorem settled_iff_asked {w : Walk} (hw : Consistent w) :
    p.settled w.shortlist = true ↔ ∀ x ∈ (ids w.shortlist).take p.k, x ∈ askedIds w := by
  rw [settled_iff, ids, ← List.map_take, List.forall_mem_map]
  refine forall₂_congr ?_
  intro e he
  have hunasked := hw.unasked_iff (List.mem_of_mem_take he)
  rw [← Bool.not_eq_true, hunasked, not_not]

/-! ## §4 The rounds of a walk -/

variable [Deps] (peers : Peers)

/-- The contacts asked, round by round. A round that finds nobody left to
ask, which ends the walk, is listed with its empty batch. -/
def rounds (seeds : List Contact) : List (List Contact) :=
  (visited (p.pass peers) maxLookupRounds (p.seeded seeds)).map fun w => p.batch w.shortlist

omit [Deps] in
/-- The answers of a round are its batch's, in some order. -/
theorem answers_perm (w : Walk) :
    ((p.answers peers w).map Prod.fst).Perm (p.batch w.shortlist) := by
  simpa [answers, Function.comp_def] using peers.arrival_perm _ _

theorem mem_askedIds_round (w : Walk) (x : String) :
    x ∈ askedIds (p.round peers w) ↔
      x ∈ askedIds w ∨ x ∈ (p.batch w.shortlist).map Contact.peerId := by
  have hbatch := ((p.answers_perm peers w).map Contact.peerId).mem_iff (a := x)
  rw [askedIds, trace_round, List.map_append, List.mem_append, ← hbatch, List.map_map]
  rfl

/-- The exchanges of a walk are the rounds' answers. -/
theorem trace_walk (seeds : List Contact) :
    (p.walk peers seeds).1.trace =
      (visited (p.pass peers) maxLookupRounds (p.seeded seeds)).flatMap (p.answers peers) := by
  have hlog : (p.walk peers seeds).1.trace = (p.seeded seeds).trace ++
      (visited (p.pass peers) maxLookupRounds (p.seeded seeds)).flatMap (p.answers peers) := by
    refine run_log (f := Walk.trace) (g := p.answers peers) ?_ ?_ maxLookupRounds (p.seeded seeds)
    · intro w w' h
      rw [(p.pass_eq_next peers h).1, trace_round]
    · intro w w' exit h
      obtain ⟨⟨hbatch, rfl⟩ | rfl, -⟩ := p.pass_eq_done peers h
      · have hnone := p.answers_perm peers w'
        rw [hbatch, List.perm_nil, List.map_eq_nil_iff] at hnone
        rw [hnone, List.append_nil]
      · rw [trace_round]
  rwa [trace_seeded, List.nil_append] at hlog

end LookupParams

end DigDht.Lookup
