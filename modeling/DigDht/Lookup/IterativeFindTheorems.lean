/-
DigDht.Lookup.IterativeFindTheorems — what the states of a walk keep.

§1 ties the flags of a shortlist entry to the exchanges: an entry marked
queried was asked and its `failed` flag says how that went; an entry not
marked was never asked (`Consistent`). Every round keeps this, whatever
the peers answer and in whatever order. §2 reads the collected providers
off the exchanges: the map holds, for each provider, the FIRST record
folded in. `walk_spec` says what holds when the walk ends, and what each
way to end says of the last state.
-/
import DigDht.Lookup.IterativeFind

namespace DigDht.Lookup

open Keyspace Record Routing Selection BoundedLoop

/-! ## §1 Flags and exchanges -/

/-- The ids of the shortlist. -/
def ids (shortlist : List ShortlistEntry) : List String :=
  shortlist.map fun e => e.contact.peerId

/-- The flags of every entry say what happened to it. -/
structure Consistent (w : Walk) : Prop where
  nodup : (ids w.shortlist).Nodup
  seen_of_entry : ∀ e ∈ w.shortlist, e.contact.peerId ∈ w.seen
  seen_of_trace : ∀ x ∈ w.trace, x.1.peerId ∈ w.seen
  queried : ∀ e ∈ w.shortlist, e.queried = true →
    ∃ res, (e.contact, res) ∈ w.trace ∧ res.isNone = e.failed
  unqueried : ∀ e ∈ w.shortlist, e.queried = false →
    e.failed = false ∧ ∀ x ∈ w.trace, x.1.peerId ≠ e.contact.peerId

theorem consistent_empty : Consistent Walk.empty := by
  constructor <;> simp [Walk.empty, ids]

@[simp] theorem map_contact_markQueried (x : String) (failed : Bool) (l : List ShortlistEntry) :
    (markQueried x failed l).map ShortlistEntry.contact = l.map ShortlistEntry.contact := by
  induction l with
  | nil => rfl
  | cons e l ih =>
    unfold markQueried
    split
    · rfl
    · rw [List.map_cons, List.map_cons, ih]

theorem ids_eq_map (l : List ShortlistEntry) :
    ids l = (l.map ShortlistEntry.contact).map Contact.peerId := by
  simp [ids, Function.comp_def]

@[simp] theorem ids_markQueried (x : String) (failed : Bool) (l : List ShortlistEntry) :
    ids (markQueried x failed l) = ids l := by
  rw [ids_eq_map, ids_eq_map, map_contact_markQueried]

/-- Where ids are unique, marking touches the entry of that id and no other. -/
theorem mem_markQueried {x : String} {failed : Bool} {l : List ShortlistEntry}
    (hl : (ids l).Nodup) {e' : ShortlistEntry} (h : e' ∈ markQueried x failed l) :
    ∃ e ∈ l, (e.contact.peerId = x ∧ e' = { e with queried := true, failed }) ∨
      (e.contact.peerId ≠ x ∧ e' = e) := by
  induction l with
  | nil => simp [markQueried] at h
  | cons e l ih =>
    obtain ⟨hnew, htail⟩ := List.nodup_cons.mp hl
    unfold markQueried at h
    split at h
    · rename_i hx
      rcases List.mem_cons.mp h with rfl | h
      · exact ⟨e, List.mem_cons_self, Or.inl ⟨hx, rfl⟩⟩
      · refine ⟨e', List.mem_cons_of_mem e h, Or.inr ⟨?_, rfl⟩⟩
        intro hx'
        exact hnew (List.mem_map.mpr ⟨e', h, hx'.trans hx.symm⟩)
    · rename_i hx
      rcases List.mem_cons.mp h with rfl | h
      · exact ⟨e', List.mem_cons_self, Or.inr ⟨hx, rfl⟩⟩
      · obtain ⟨d, hd, hcase⟩ := ih htail h
        exact ⟨d, List.mem_cons_of_mem e hd, hcase⟩

/-- The entry of a contact of the shortlist is the one that is marked. -/
theorem eq_of_peerId_eq {l : List ShortlistEntry} (hl : (ids l).Nodup) {d e : ShortlistEntry}
    (hd : d ∈ l) (he : e ∈ l) (h : d.contact.peerId = e.contact.peerId) : d = e :=
  List.inj_on_of_nodup_map hl hd he h

/-- Recording an answer of a contact of the shortlist. -/
theorem consistent_marked {w : Walk} (hw : Consistent w) {c : Contact}
    (res : Option QueryOutcome) (hc : c ∈ w.shortlist.map ShortlistEntry.contact) :
    Consistent { w with
      shortlist := markQueried c.peerId res.isNone w.shortlist
      trace := w.trace ++ [(c, res)] } := by
  obtain ⟨d, hd, rfl⟩ := List.mem_map.mp hc
  constructor
  · simpa using hw.nodup
  · intro e' he'
    obtain ⟨e, he, ⟨-, rfl⟩ | ⟨-, rfl⟩⟩ := mem_markQueried hw.nodup he'
    · exact hw.seen_of_entry e he
    · exact hw.seen_of_entry e' he
  · intro x hx
    rcases List.mem_append.mp hx with hx | hx
    · exact hw.seen_of_trace x hx
    · rw [List.mem_singleton.mp hx]
      exact hw.seen_of_entry d hd
  · intro e' he' hq
    obtain ⟨e, he, ⟨hx, rfl⟩ | ⟨-, rfl⟩⟩ := mem_markQueried hw.nodup he'
    · rw [eq_of_peerId_eq hw.nodup he hd hx]
      exact ⟨res, List.mem_append_right _ (List.mem_singleton.mpr rfl), rfl⟩
    · obtain ⟨r, hr, hfailed⟩ := hw.queried e' he hq
      exact ⟨r, List.mem_append_left _ hr, hfailed⟩
  · intro e' he' hq
    obtain ⟨e, he, ⟨-, rfl⟩ | ⟨hx, rfl⟩⟩ := mem_markQueried hw.nodup he'
    · cases hq
    · obtain ⟨hfailed, hnever⟩ := hw.unqueried e' he hq
      refine ⟨hfailed, ?_⟩
      intro x hx'
      rcases List.mem_append.mp hx' with hx' | hx'
      · exact hnever x hx'
      · rw [List.mem_singleton.mp hx']
        exact Ne.symm hx

/-- A merge keeps every contact, the trace and the providers. -/
structure Extends (w w' : Walk) : Prop where
  contacts : w.shortlist.map ShortlistEntry.contact ⊆ w'.shortlist.map ShortlistEntry.contact
  trace_eq : w'.trace = w.trace
  providers_eq : w'.providers = w.providers

namespace LookupParams

variable (p : LookupParams)

theorem consistent_sortAndCap {w : Walk} (hw : Consistent w) :
    Consistent { w with shortlist := p.sortAndCap w.shortlist } := by
  have hmem : ∀ e ∈ p.sortAndCap w.shortlist, e ∈ w.shortlist := fun e he =>
    (mem_sortByKey _).mp (List.mem_of_mem_take he)
  constructor
  · have hsorted : (ids (sortByKey ShortlistEntry.distance w.shortlist)).Nodup :=
      ((sortByKey_perm _ _).map _).nodup_iff.mpr hw.nodup
    exact ((List.take_sublist _ _).map _).nodup hsorted
  · exact fun e he => hw.seen_of_entry e (hmem e he)
  · exact hw.seen_of_trace
  · exact fun e he => hw.queried e (hmem e he)
  · exact fun e he => hw.unqueried e (hmem e he)

theorem mem_answers (peers : Peers) {w : Walk} {x : Contact × Option QueryOutcome}
    (h : x ∈ p.answers peers w) :
    x.1 ∈ p.batch w.shortlist ∧ x.2 = peers.query (w.trace.map Prod.fst) x.1 := by
  obtain ⟨c, hc, rfl⟩ := List.mem_map.mp h
  exact ⟨(peers.arrival_perm _ _).mem_iff.mp hc, rfl⟩

theorem mem_batch {shortlist : List ShortlistEntry} {c : Contact}
    (h : c ∈ p.batch shortlist) : c ∈ shortlist.map ShortlistEntry.contact := by
  obtain ⟨e, he, rfl⟩ := List.mem_map.mp h
  exact List.mem_map.mpr ⟨e, (List.mem_filter.mp (List.mem_of_mem_take he)).1, rfl⟩

/-! ### Reading the flags -/

theorem settled_iff {shortlist : List ShortlistEntry} :
    p.settled shortlist = true ↔ ∀ e ∈ shortlist.take p.k, e.unasked = false := by
  simp [settled]

theorem settled_of_batch_eq_nil (halpha : 1 ≤ p.alpha) {shortlist : List ShortlistEntry}
    (h : p.batch shortlist = []) : ∀ e ∈ shortlist, e.unasked = false := by
  have htake : (shortlist.filter ShortlistEntry.unasked).take p.alpha = [] :=
    List.map_eq_nil_iff.mp h
  rcases List.take_eq_nil_iff.mp htake with hzero | hnil
  · omega
  · simpa using List.filter_eq_nil_iff.mp hnil

/-! ### Merging and folding -/

variable [Deps]

/-- A merge leaves the walk, or appends one fresh entry. -/
theorem mergeContact_cases (w : Walk) (c : Contact) :
    p.mergeContact w c = w ∨
    ∃ distance, c.peerId ∉ w.seen ∧ p.mergeContact w c =
      { w with
        seen := insert c.peerId w.seen
        shortlist := w.shortlist ++ [⟨c, distance, false, false⟩] } := by
  unfold mergeContact
  split
  · exact Or.inl rfl
  · rename_i hnew
    cases c.key with
    | none => exact Or.inl rfl
    | some key => exact Or.inr ⟨_, hnew, rfl⟩

theorem consistent_mergeContact {w : Walk} (hw : Consistent w) (c : Contact) :
    Consistent (p.mergeContact w c) := by
  rcases p.mergeContact_cases w c with h | ⟨distance, hnew, h⟩
  · rwa [h]
  · rw [h]
    constructor
    · simp only [ids, List.map_append, List.map_singleton]
      rw [List.nodup_append_comm, List.singleton_append, List.nodup_cons]
      refine ⟨?_, hw.nodup⟩
      intro hmem
      obtain ⟨e, he, heq⟩ := List.mem_map.mp hmem
      exact hnew (heq ▸ hw.seen_of_entry e he)
    · intro e he
      rcases List.mem_append.mp he with he | he
      · exact Finset.mem_insert_of_mem (hw.seen_of_entry e he)
      · rw [List.mem_singleton.mp he]
        exact Finset.mem_insert_self _ _
    · intro x hx
      exact Finset.mem_insert_of_mem (hw.seen_of_trace x hx)
    · intro e he hq
      rcases List.mem_append.mp he with he | he
      · exact hw.queried e he hq
      · rw [List.mem_singleton.mp he] at hq
        cases hq
    · intro e he hq
      rcases List.mem_append.mp he with he | he
      · exact hw.unqueried e he hq
      · rw [List.mem_singleton.mp he]
        refine ⟨rfl, fun x hx heq => hnew ?_⟩
        exact heq ▸ hw.seen_of_trace x hx

theorem extends_foldl_mergeContact (w : Walk) (cs : List Contact) :
    Extends w (cs.foldl p.mergeContact w) := by
  refine List.foldlRecOn cs _ ⟨List.Subset.refl _, rfl, rfl⟩ ?_
  intro w' h c _
  rcases p.mergeContact_cases w' c with hw' | ⟨distance, -, hw'⟩
  · rwa [hw']
  · rw [hw']
    refine ⟨?_, h.trace_eq, h.providers_eq⟩
    intro x hx
    rw [List.map_append]
    exact List.mem_append_left _ (h.contacts hx)

/-- Nobody is asked before the first round. -/
@[simp] theorem trace_seeded (seeds : List Contact) : (p.seeded seeds).trace = [] :=
  (p.extends_foldl_mergeContact Walk.empty seeds).trace_eq

/-- The providers one answer adds. -/
def contribution (answer : Contact × Option QueryOutcome) : List ProviderRecord :=
  match answer.2 with
  | none => []
  | some outcome => outcome.providers.take p.providerCap

/-- The contacts one answer brings. -/
def learnt (answer : Contact × Option QueryOutcome) : List Contact :=
  match answer.2 with
  | none => []
  | some outcome => outcome.closer.take p.closerCap

/-- The walk with one answer noted and its contacts not merged yet. -/
def noteAnswer (w : Walk) (answer : Contact × Option QueryOutcome) : Walk :=
  { w with
    shortlist := markQueried answer.1.peerId answer.2.isNone w.shortlist
    trace := w.trace ++ [answer]
    providers := (p.contribution answer).foldl orInsert w.providers }

theorem foldAnswer_eq (w : Walk) (answer : Contact × Option QueryOutcome) :
    p.foldAnswer w answer = (p.learnt answer).foldl p.mergeContact (p.noteAnswer w answer) := by
  unfold foldAnswer noteAnswer learnt contribution
  cases answer.2 with
  | none => rfl
  | some outcome => rfl

theorem trace_foldAnswer (w : Walk) (answer : Contact × Option QueryOutcome) :
    (p.foldAnswer w answer).trace = w.trace ++ [answer] := by
  rw [foldAnswer_eq, (p.extends_foldl_mergeContact _ _).trace_eq, noteAnswer]

theorem providers_foldAnswer (w : Walk) (answer : Contact × Option QueryOutcome) :
    (p.foldAnswer w answer).providers = (p.contribution answer).foldl orInsert w.providers := by
  rw [foldAnswer_eq, (p.extends_foldl_mergeContact _ _).providers_eq, noteAnswer]

theorem contacts_foldAnswer (w : Walk) (answer : Contact × Option QueryOutcome) :
    w.shortlist.map ShortlistEntry.contact ⊆
      (p.foldAnswer w answer).shortlist.map ShortlistEntry.contact := by
  rw [foldAnswer_eq]
  refine List.Subset.trans ?_ (p.extends_foldl_mergeContact _ _).contacts
  rw [noteAnswer, map_contact_markQueried]
  exact List.Subset.refl _

theorem consistent_foldAnswer {w : Walk} (hw : Consistent w) {c : Contact}
    {res : Option QueryOutcome} (hc : c ∈ w.shortlist.map ShortlistEntry.contact) :
    Consistent (p.foldAnswer w (c, res)) := by
  rw [foldAnswer_eq]
  have hmarked := consistent_marked hw res hc
  exact List.foldlRecOn _ _
    ⟨hmarked.nodup, hmarked.seen_of_entry, hmarked.seen_of_trace, hmarked.queried,
      hmarked.unqueried⟩
    fun w' hw' d _ => p.consistent_mergeContact hw' d

theorem consistent_seeded (seeds : List Contact) : Consistent (p.seeded seeds) :=
  p.consistent_sortAndCap
    (List.foldlRecOn seeds _ consistent_empty fun _ hw c _ => p.consistent_mergeContact hw c)

/-! ### One round -/

variable (peers : Peers)

/-- The contacts of the batch stay on the shortlist while the round
folds. -/
theorem consistent_foldl_answers {w : Walk} (hw : Consistent w) :
    Consistent ((p.answers peers w).foldl p.foldAnswer w) := by
  have hfold : Consistent ((p.answers peers w).foldl p.foldAnswer w) ∧
      w.shortlist.map ShortlistEntry.contact ⊆
        ((p.answers peers w).foldl p.foldAnswer w).shortlist.map ShortlistEntry.contact := by
    refine List.foldlRecOn (motive := fun w' => Consistent w' ∧
      w.shortlist.map ShortlistEntry.contact ⊆ w'.shortlist.map ShortlistEntry.contact)
      _ _ ⟨hw, List.Subset.refl _⟩ ?_
    intro w' h x hx
    obtain ⟨hw', hsub⟩ := h
    obtain ⟨c, res⟩ := x
    have hc : c ∈ w'.shortlist.map ShortlistEntry.contact :=
      hsub (p.mem_batch (p.mem_answers peers hx).1)
    exact ⟨p.consistent_foldAnswer hw' hc,
      List.Subset.trans hsub (p.contacts_foldAnswer w' (c, res))⟩
  exact hfold.1

theorem consistent_round {w : Walk} (hw : Consistent w) : Consistent (p.round peers w) :=
  p.consistent_sortAndCap (p.consistent_foldl_answers peers hw)

theorem trace_round (w : Walk) : (p.round peers w).trace = w.trace ++ p.answers peers w := by
  have hfold : ∀ (as : List (Contact × Option QueryOutcome)) (w : Walk),
      (as.foldl p.foldAnswer w).trace = w.trace ++ as := by
    intro as
    induction as with
    | nil => simp
    | cons a as ih =>
      intro w
      rw [List.foldl_cons, ih, trace_foldAnswer, List.append_assoc, List.singleton_append]
  exact hfold _ w

end LookupParams

/-! ## §2 The collected providers -/

theorem lookup_orInsert (m : FMap String ProviderRecord) (r : ProviderRecord) (x : String) :
    (orInsert m r).lookup x =
      (m.lookup x).or (if r.providerPeerId = x then some r else none) := by
  unfold orInsert
  cases hr : m.lookup r.providerPeerId with
  | some old =>
    by_cases hx : r.providerPeerId = x
    · subst hx; simp [hr]
    · simp [hx]
  | none =>
    by_cases hx : r.providerPeerId = x
    · subst hx; simp [hr]
    · simp [hx, AList.lookup_insert_ne (Ne.symm hx)]

/-- First come, first kept. -/
theorem lookup_foldl_orInsert (l : List ProviderRecord) (m : FMap String ProviderRecord)
    (x : String) :
    (l.foldl orInsert m).lookup x =
      (m.lookup x).or (l.find? fun r => r.providerPeerId = x) := by
  induction l generalizing m with
  | nil => simp
  | cons r l ih =>
    rw [List.foldl_cons, ih, lookup_orInsert, Option.or_assoc, List.find?_cons]
    by_cases hx : r.providerPeerId = x <;> simp [hx]

namespace LookupParams

variable (p : LookupParams)

/-- Every record the exchanges brought in, in the order of the fold. -/
def collected (trace : List (Contact × Option QueryOutcome)) : List ProviderRecord :=
  trace.flatMap p.contribution

/-- What holds of a walk in every state. -/
structure WalkInv (peers : Peers) (w : Walk) : Prop extends Consistent w where
  providers_eq : w.providers = (p.collected w.trace).foldl orInsert ∅
  answered : ∀ x ∈ w.trace, ∃ asked, x.2 = peers.query asked x.1

theorem WalkInv.lookup_providers {p : LookupParams} {peers : Peers} {w : Walk}
    (hw : p.WalkInv peers w) (x : String) :
    w.providers.lookup x = (p.collected w.trace).find? fun r => r.providerPeerId = x := by
  rw [hw.providers_eq, lookup_foldl_orInsert, AList.lookup_empty, Option.none_or]

/-- A collected record came in with an exchange, under its provider. -/
theorem WalkInv.providers_spec {p : LookupParams} {peers : Peers} {w : Walk}
    (hw : p.WalkInv peers w) {x : String} {r : ProviderRecord}
    (h : w.providers.lookup x = some r) : r ∈ p.collected w.trace ∧ r.providerPeerId = x := by
  rw [hw.lookup_providers] at h
  exact ⟨List.mem_of_find?_eq_some h, by simpa using List.find?_some h⟩

/-- The providers collected are those the exchanges name. -/
theorem WalkInv.mem_providers_iff {p : LookupParams} {peers : Peers} {w : Walk}
    (hw : p.WalkInv peers w) (x : String) :
    x ∈ (FMap.values w.providers).map ProviderRecord.providerPeerId ↔
      x ∈ (p.collected w.trace).map ProviderRecord.providerPeerId := by
  rw [List.mem_map, List.mem_map]
  constructor
  · intro h
    obtain ⟨r, hr, rfl⟩ := h
    obtain ⟨y, hy⟩ := FMap.mem_values_iff.mp hr
    exact ⟨r, (hw.providers_spec hy).1, rfl⟩
  · intro h
    obtain ⟨r, hr, rfl⟩ := h
    cases hfound : w.providers.lookup r.providerPeerId with
    | none =>
      rw [hw.lookup_providers, List.find?_eq_none] at hfound
      exact absurd (by simp) (hfound r hr)
    | some q => exact ⟨q, FMap.mem_values_iff.mpr ⟨_, hfound⟩, (hw.providers_spec hfound).2⟩

variable [Deps] (peers : Peers)

theorem providers_round (w : Walk) :
    (p.round peers w).providers =
      ((p.answers peers w).flatMap p.contribution).foldl orInsert w.providers := by
  have hfold : ∀ (as : List (Contact × Option QueryOutcome)) (w : Walk),
      (as.foldl p.foldAnswer w).providers =
        (as.flatMap p.contribution).foldl orInsert w.providers := by
    intro as
    induction as with
    | nil => intro w; rfl
    | cons a as ih =>
      intro w
      rw [List.foldl_cons, ih, providers_foldAnswer, List.flatMap_cons, List.foldl_append]
  exact hfold _ w

theorem walkInv_seeded (seeds : List Contact) : p.WalkInv peers (p.seeded seeds) := by
  refine ⟨p.consistent_seeded seeds, ?_, by simp⟩
  rw [trace_seeded]
  exact (p.extends_foldl_mergeContact Walk.empty seeds).providers_eq

theorem walkInv_round {w : Walk} (hw : p.WalkInv peers w) :
    p.WalkInv peers (p.round peers w) where
  toConsistent := p.consistent_round peers hw.toConsistent
  providers_eq := by
    rw [providers_round, trace_round, collected, List.flatMap_append, List.foldl_append,
      hw.providers_eq]
    rfl
  answered := by
    intro x hx
    rw [trace_round] at hx
    rcases List.mem_append.mp hx with hx | hx
    · exact hw.answered x hx
    · exact ⟨_, (p.mem_answers peers hx).2⟩

/-- What the exit of a walk says about the state it ended in. -/
def ExitSpec (w : Walk) : Exit → Prop
  | .guard => True
  | .exhausted => p.batch w.shortlist = []
  | .stoppedOnProviders => p.stopOnProviders = true ∧ 0 < FMap.size w.providers
  | .converged => p.settled w.shortlist = true

/-- A pass that goes on is a round that neither stopped nor settled. -/
theorem pass_eq_next {w w' : Walk} (h : p.pass peers w = .next w') :
    w' = p.round peers w ∧ p.settled w'.shortlist = false := by
  unfold pass at h
  simp only at h
  split at h
  · cases h
  · split at h
    · cases h
    · split at h
      · cases h
      · rename_i hsettled
        cases h
        exact ⟨rfl, by simpa using hsettled⟩

/-- A pass that ends the walk asked nobody, or is a round. -/
theorem pass_eq_done {w w' : Walk} {exit : Exit} (h : p.pass peers w = .done w' exit) :
    (p.batch w.shortlist = [] ∧ w' = w ∨ w' = p.round peers w) ∧ p.ExitSpec w' exit := by
  unfold pass at h
  simp only at h
  split at h
  · rename_i hbatch
    cases h
    exact ⟨Or.inl ⟨hbatch, rfl⟩, hbatch⟩
  · split at h
    · rename_i hstop
      cases h
      exact ⟨Or.inr rfl, hstop⟩
    · split at h
      · rename_i hsettled
        cases h
        exact ⟨Or.inr rfl, hsettled⟩
      · cases h

section Invariant

variable {Q : Walk → Prop} {seeds : List Contact}

/-- What every round keeps holds of the states the rounds start from. -/
theorem visited_invariant (hround : ∀ w, Q w → Q (p.round peers w)) (hstart : Q (p.seeded seeds)) :
    ∀ w ∈ visited (p.pass peers) maxLookupRounds (p.seeded seeds), Q w := by
  refine forall_visited ?_ maxLookupRounds hstart
  intro w w' hw h
  rw [(p.pass_eq_next peers h).1]
  exact hround w hw

/-- What every round keeps holds of the walk when it ends. -/
theorem walk_invariant (hround : ∀ w, Q w → Q (p.round peers w)) (hstart : Q (p.seeded seeds)) :
    Q (p.walk peers seeds).1 := by
  refine run_rule (Q := Q) (R := fun w _ => Q w) ?_ ?_ ?_ maxLookupRounds hstart
  · intro w w' hw h
    rw [(p.pass_eq_next peers h).1]
    exact hround w hw
  · intro w w' exit hw h
    obtain ⟨⟨-, rfl⟩ | rfl, -⟩ := p.pass_eq_done peers h
    · exact hw
    · exact hround w hw
  · intro w hw
    exact hw

end Invariant

/-- The spec of the walk: the invariant, and what its exit means. -/
theorem walk_spec (seeds : List Contact) :
    p.WalkInv peers (p.walk peers seeds).1 ∧
      p.ExitSpec (p.walk peers seeds).1 (p.walk peers seeds).2 := by
  refine ⟨p.walk_invariant peers (fun _ hw => p.walkInv_round peers hw)
    (p.walkInv_seeded peers seeds), ?_⟩
  refine run_rule (Q := fun _ => True) (R := p.ExitSpec) ?_ ?_ ?_ maxLookupRounds trivial
  · intro w w' _ _
    trivial
  · intro w w' exit _ h
    exact (p.pass_eq_done peers h).2
  · intro w _
    trivial

/-- With nobody to ask the walk is over at once. -/
theorem walk_nil : (p.walk peers []).2 = .exhausted := by
  have hbatch : p.batch (p.seeded []).shortlist = [] := by
    simp [batch, seeded, sortAndCap, sortByKey, Walk.empty]
  have hpass : p.pass peers (p.seeded []) = .done (p.seeded []) .exhausted := by
    rw [pass, if_pos hbatch]
  simp only [walk, maxLookupRounds, run, hpass]

end LookupParams

/-! ### Sample walks at `k = 1` -/

section Samples

/-- Identities as their own hex text; no digest is taken. -/
local instance hexIds : Deps := hexDeps fun _ => List.Vector.replicate 32 0

/-- The contact whose id starts with `first`. -/
def sampleContact (first : UInt8) : Contact :=
  Contact.new ⟨first ::ᵥ List.Vector.replicate 31 0⟩ []

/-- Peers that answer with nothing, `down` excepted, which fails. -/
def peersWithout (down : Contact) : Peers where
  query _ c := if c = down then none else some ⟨[], []⟩
  arrival _ batch := batch
  arrival_perm _ batch := List.Perm.refl batch

/-- Peers with the answers `f`, each round in the given order. -/
def answering (f : String → Option QueryOutcome) (order : List Contact → List Contact)
    (horder : ∀ batch, (order batch).Perm batch) : Peers where
  query _ c := f c.peerId
  arrival _ batch := order batch
  arrival_perm _ batch := horder batch

/-- The walk to the zero key. -/
def sampleLookup (alpha : Nat) : LookupParams where
  target := ⟨List.Vector.replicate 32 0⟩
  k := 1
  alpha := alpha
  stopOnProviders := false

end Samples

end DigDht.Lookup
