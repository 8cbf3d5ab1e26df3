/-
DigDht.Store.SweepTheorems — what dead records cost.

§1 reads a store at one instant as a partial function to live records
and says when a put costs none of them (`KeepsLive`): it does wherever
the key has a dead slot to reclaim or room for one more. §2 compares a
put with a put right after a sweep. They differ in one place: the global
cap counts the dead records that are still stored.
-/
import DigDht.Store.LivenessTheorems
import DigDht.Store.PolicyTheorems

namespace DigDht.Store

open Record Selection Runs

namespace ProviderStore

/-! ## §1 What a put costs -/

/-- The record that reads at `now` find under a pair. -/
def liveRecord (s : ProviderStore) (now : Nat) (k x : String) : Option ProviderRecord :=
  ((s.entry k x).filter fun e => !e.record.isExpired now).map ProviderEntry.record

theorem mem_get_iff {s : ProviderStore} {k : String} {now : Nat} {r : ProviderRecord} :
    r ∈ s.get k now ↔ ∃ x, s.liveRecord now k x = some r := by
  simp only [liveRecord, Option.map_eq_some_iff, Option.filter_eq_some_iff, Bool.not_eq_true']
  constructor
  · intro h
    obtain ⟨x, e, he, rfl, hlive⟩ := mem_get h
    exact ⟨x, e, ⟨he, hlive⟩, rfl⟩
  · intro h
    obtain ⟨x, e, ⟨he, hlive⟩, rfl⟩ := h
    exact mem_get_of_entry he hlive

theorem liveRecord_gc (s : ProviderStore) (now : Nat) (k x : String) :
    (s.gc now).1.liveRecord now k x = s.liveRecord now k x := by
  simp [liveRecord, entry_gc, Option.filter_filter]

/-- A put that costs no live record its place: the new record is stored,
and what is live under the other pairs is what was. -/
structure KeepsLive (s : ProviderStore) (r : ProviderRecord) (now : Nat) (s' : ProviderStore) :
    Prop where
  stored : (s'.entry r.contentKey r.providerPeerId).map ProviderEntry.record = some r
  others : ∀ k x, ¬(k = r.contentKey ∧ x = r.providerPeerId) →
    (s'.entry k x).filter (fun e => !e.record.isExpired now) =
      (s.entry k x).filter fun e => !e.record.isExpired now

/-- Two puts of one record that cost nothing leave the same reads. -/
theorem KeepsLive.congr {s₁ s₂ s₁' s₂' : ProviderStore} {r : ProviderRecord} {now : Nat}
    (h₁ : KeepsLive s₁ r now s₁') (h₂ : KeepsLive s₂ r now s₂')
    (hs : ∀ k x, s₁.liveRecord now k x = s₂.liveRecord now k x) (k x : String) :
    s₁'.liveRecord now k x = s₂'.liveRecord now k x := by
  by_cases hkx : k = r.contentKey ∧ x = r.providerPeerId
  · obtain ⟨rfl, rfl⟩ := hkx
    obtain ⟨e₁, he₁, hr₁⟩ := Option.map_eq_some_iff.mp h₁.stored
    obtain ⟨e₂, he₂, hr₂⟩ := Option.map_eq_some_iff.mp h₂.stored
    rw [liveRecord, liveRecord, he₁, he₂]
    cases hr : r.isExpired now <;> simp [Option.filter, hr₁, hr₂, hr]
  · rw [liveRecord, liveRecord, h₁.others k x hkx, h₂.others k x hkx]
    exact hs k x

theorem keepsLive_refresh (s : ProviderStore) (e : ProviderEntry) (r : ProviderRecord)
    (now : Nat) : KeepsLive s r now (s.refresh e r) where
  stored := by simp [entry_refresh]
  others := by
    intro k x hkx
    rw [entry_refresh, if_neg hkx]

/-- A newcomer under `k` finds a slot: the key is below its cap, or one
of its slots is dead. -/
def HasSlot (s : ProviderStore) (k : String) (now : Nat) : Prop :=
  FMap.size (s.providersOf k) < max 1 s.limits.maxProvidersPerKey ∨ s.HasExpired k now

/-- Who is evicted from a key with a slot is dead. -/
theorem victim_expired {s : ProviderStore} (hs : s.WellFormed) {k : String} {now : Nat}
    (hslot : s.HasSlot k now) (hfull : s.limits.maxProvidersPerKey ≤ FMap.size (s.providersOf k))
    {victim : String}
    (h : evictionVictim (s.providersOf k) s.limits.maxProvidersPerKey now = some victim) :
    ∃ e, s.entry k victim = some e ∧ e.record.isExpired now = true := by
  obtain ⟨e, he, hevict, -⟩ := evictionVictim_isVictim hs h
  refine ⟨e, he, hevict.expired ?_⟩
  rcases hslot with hbelow | hdead
  · rw [← lookup_providersOf] at he
    have hpos := FMap.size_pos_of_lookup he
    omega
  · exact hdead

theorem keepsLive_putAt {s : ProviderStore} (hs : s.WellFormed) {r : ProviderRecord} {now : Nat}
    (hnew : s.entry r.contentKey r.providerPeerId = none)
    (hroom : s.len < s.limits.maxTotalRecords) (hslot : s.HasSlot r.contentKey now) :
    KeepsLive s r now (s.putAt r now).1 := by
  obtain ⟨ps, hps, hput⟩ := putAt_of_room hs hnew hroom now
  rw [hput]
  refine ⟨by simp [entry_admitNew], ?_⟩
  intro k x hkx
  rw [entry_admitNew]
  by_cases hk : k = r.contentKey
  · have hx : x ≠ r.providerPeerId := fun hx => hkx ⟨hk, hx⟩
    rw [if_pos hk, if_neg hx, hk]
    rcases makeRoom_cases hps with ⟨rfl, -⟩ | ⟨victim, hfull, hvictim, rfl⟩
    · rw [lookup_providersOf]
    · obtain ⟨e, he, hdead⟩ := victim_expired hs hslot hfull hvictim
      by_cases hxv : x = victim
      · subst hxv
        simp [he, Option.filter, hdead]
      · rw [AList.lookup_erase_ne hxv, lookup_providersOf]
  · rw [if_neg hk]

/-- The providers that reads of `k` at `now` name. -/
def liveProviders (s : ProviderStore) (k : String) (now : Nat) : Set String :=
  {x | ∃ e, s.entry k x = some e ∧ e.record.isExpired now = false}

theorem length_get_eq_ncard (s : ProviderStore) (k : String) (now : Nat) :
    (s.get k now).length = (s.liveProviders k now).ncard := by
  simp only [liveProviders, ← lookup_providersOf]
  rw [FMap.ncard_setOf_lookup, length_get, size_live]
  simp

theorem finite_liveProviders (s : ProviderStore) (k : String) (now : Nat) :
    (s.liveProviders k now).Finite := by
  simp only [liveProviders, ← lookup_providersOf]
  exact FMap.finite_setOf_lookup _ _

/-- What a new pair must meet for its put to cost no live record its
place. -/
def CostsNoLive (s : ProviderStore) (r : ProviderRecord) (now : Nat) : Prop :=
  s.limits.maxTotalRecords ≤ s.len ∨ s.HasSlot r.contentKey now

section NewPair

variable {s : ProviderStore} {r : ProviderRecord} {now : Nat}

theorem entry_putAt_of_costsNoLive (hs : s.WellFormed)
    (hnew : s.entry r.contentKey r.providerPeerId = none) (h : s.CostsNoLive r now)
    {k x : String} {e : ProviderEntry} (he : s.entry k x = some e)
    (hlive : e.record.isExpired now = false) : (s.putAt r now).1.entry k x = some e := by
  by_cases hfull : s.limits.maxTotalRecords ≤ s.len
  · have hreject := (putAt_rejected_iff hs r now).mpr ⟨hnew, hfull⟩
    rwa [(putAt_of_not_accepted (by rw [hreject]; decide)).1]
  · have hslot : s.HasSlot r.contentKey now := h.resolve_left hfull
    have hkx : ¬(k = r.contentKey ∧ x = r.providerPeerId) := by
      intro hkx
      rw [hkx.1, hkx.2, hnew] at he
      cases he
    have hkept := (keepsLive_putAt hs hnew (Nat.lt_of_not_le hfull) hslot).others k x hkx
    have hsome : (s.entry k x).filter (fun e => !e.record.isExpired now) = some e := by
      simp [he, Option.filter, hlive]
    exact (Option.filter_eq_some_iff.mp (hkept.trans hsome)).1

/-- A full key of live records loses one of them to any newcomer, which
is read in its place if it is live. -/
theorem liveProviders_putAt_of_full (hs : s.WellFormed)
    (hnew : s.entry r.contentKey r.providerPeerId = none) (h : ¬s.CostsNoLive r now) :
    ∃ victim ∈ s.liveProviders r.contentKey now,
      (s.putAt r now).1.liveProviders r.contentKey now =
        if r.isExpired now = false then
          insert r.providerPeerId (s.liveProviders r.contentKey now \ {victim})
        else s.liveProviders r.contentKey now \ {victim} := by
  rw [CostsNoLive, HasSlot, not_or, not_or, Nat.not_le, Nat.not_lt] at h
  obtain ⟨hroom, hfull, hlive⟩ := h
  obtain ⟨victim, ⟨e, he, -⟩, hafter⟩ := putAt_of_full hs hnew hroom now hfull
  have helive : e.record.isExpired now = false := by
    by_contra hdead
    rw [Bool.not_eq_false] at hdead
    exact hlive ⟨victim, e, he, hdead⟩
  have hpid : r.providerPeerId ∉ s.liveProviders r.contentKey now := by
    intro hmem
    obtain ⟨d, hd, -⟩ := hmem
    rw [hnew] at hd
    cases hd
  refine ⟨victim, ⟨e, he, helive⟩, ?_⟩
  ext x
  have hread : x ∈ (s.putAt r now).1.liveProviders r.contentKey now ↔
      if x = r.providerPeerId then r.isExpired now = false
      else x ≠ victim ∧ x ∈ s.liveProviders r.contentKey now := by
    simp only [liveProviders, Set.mem_ofPred_eq, hafter]
    by_cases hx : x = r.providerPeerId
    · simp [hx]
    · by_cases hxv : x = victim
      · simp [hxv]
      · simp [hx, hxv]
  rw [hread]
  by_cases hx : x = r.providerPeerId
  · subst hx
    cases hexp : r.isExpired now with
    | true => simp [hpid]
    | false => simp
  · cases hexp : r.isExpired now with
    | true => simp [hx, and_comm]
    | false => simp [hx, and_comm]

/-- A put of a new pair leaves a key with no fewer live records exactly
when it is live itself or costs none. -/
theorem length_get_putAt_iff (hs : s.WellFormed)
    (hnew : s.entry r.contentKey r.providerPeerId = none) :
    (s.get r.contentKey now).length ≤ ((s.putAt r now).1.get r.contentKey now).length ↔
      r.isExpired now = false ∨ s.CostsNoLive r now := by
  rw [length_get_eq_ncard, length_get_eq_ncard]
  by_cases h : s.CostsNoLive r now
  · simp only [h, or_true, iff_true]
    refine Set.ncard_le_ncard ?_ (finite_liveProviders _ _ _)
    intro x hx
    obtain ⟨e, he, hlive⟩ := hx
    exact ⟨e, entry_putAt_of_costsNoLive hs hnew h he hlive, hlive⟩
  · obtain ⟨victim, hvictim, hafter⟩ := liveProviders_putAt_of_full hs hnew h
    have hpid : r.providerPeerId ∉ s.liveProviders r.contentKey now := by
      intro hmem
      obtain ⟨d, hd, -⟩ := hmem
      rw [hnew] at hd
      cases hd
    simp only [h, or_false]
    rw [hafter]
    cases hexp : r.isExpired now with
    | false =>
      rw [if_pos rfl, Set.ncard_exchange hpid hvictim]
      simp
    | true =>
      have hlost := Set.ncard_sdiff_singleton_lt_of_mem hvictim (finite_liveProviders _ _ _)
      rw [if_neg (by simp)]
      simp only [reduceCtorEq, iff_false, Nat.not_le]
      exact hlost

/-- What a put of a new pair must leave: no fewer live records under its
key, and every live record where it is if the new one is dead. -/
structure SlotsKept (s : ProviderStore) (r : ProviderRecord) (now : Nat) : Prop where
  count : (s.get r.contentKey now).length ≤ ((s.putAt r now).1.get r.contentKey now).length
  places : r.isExpired now = true → ∀ k x e, s.entry k x = some e →
    e.record.isExpired now = false → (s.putAt r now).1.entry k x = some e

theorem slotsKept_iff (hs : s.WellFormed)
    (hnew : s.entry r.contentKey r.providerPeerId = none) :
    s.SlotsKept r now ↔ r.isExpired now = false ∨ s.CostsNoLive r now := by
  rw [← length_get_putAt_iff hs hnew]
  constructor
  · intro h
    exact h.count
  · intro hcount
    refine ⟨hcount, ?_⟩
    intro hdead k x e he hlive
    rcases (length_get_putAt_iff hs hnew).mp hcount with hnewlive | hcosts
    · rw [hdead] at hnewlive
      cases hnewlive
    · exact entry_putAt_of_costsNoLive hs hnew hcosts he hlive

end NewPair

/-! ## §2 A put after a sweep -/

theorem size_live_lt {s : ProviderStore} {k : String} {now : Nat} (h : s.HasExpired k now) :
    FMap.size (live now (s.providersOf k)) < FMap.size (s.providersOf k) := by
  obtain ⟨x, e, he, hdead⟩ := h
  have hmem : e ∈ FMap.values (s.providersOf k) := mem_values_providersOf.mpr ⟨x, he⟩
  have hsize : FMap.size (s.providersOf k) = (FMap.values (s.providersOf k)).length := by
    simp [FMap.size, FMap.values]
  rw [size_live, hsize]
  exact List.countP_lt_length_iff.mpr ⟨e, hmem, by simp [hdead]⟩

/-- A sweep that finds something dead makes room. -/
theorem len_gc_lt {s : ProviderStore} {k : String} {now : Nat} (h : s.HasExpired k now) :
    (s.gc now).1.len < s.len := by
  obtain ⟨x, e, he, -⟩ := id h
  obtain ⟨ps, hps, -⟩ := exists_lookup_of_entry he
  have hsame : s.providersOf k = ps := by simp [providersOf, hps]
  have hlt := size_live_lt h
  rw [hsame] at hlt
  have hremoved : (s.gc now).2 = FMap.size ps - FMap.size (live now ps) +
      FMap.sumBy (fun ps => FMap.size ps - FMap.size (live now ps)) (s.byKey.erase k) :=
    FMap.sumBy_erase _ hps
  have hsum := s.len_gc_add now
  omega

/-- A key without a dead slot is swept as it is. -/
theorem lookup_gc_of_live {s : ProviderStore} (hs : s.WellFormed) {k : String} {now : Nat}
    (hlive : ¬s.HasExpired k now) : (s.gc now).1.byKey.lookup k = s.byKey.lookup k := by
  have hlookup : (s.gc now).1.byKey.lookup k = (s.byKey.lookup k).bind (sweep now) :=
    FMap.lookup_filterMap _ _ _
  rw [hlookup]
  cases hk : s.byKey.lookup k with
  | none => rfl
  | some ps =>
    have hall : live now ps = ps := by
      refine AList.ext ?_
      rw [live, FMap.entries_retain, List.filter_eq_self]
      intro e he
      rw [Bool.not_eq_true']
      by_contra hdead
      rw [Bool.not_eq_false] at hdead
      exact hlive ⟨e.1, e.2, by rw [entry_of_lookup hk, FMap.mk_mem_entries.mp he], hdead⟩
    have hpos := hs.inner_nonempty k ps hk
    rw [Option.bind_some, sweep, hall, if_neg (by omega)]

/-- The put with and without a sweep in front of it: one outcome, and
every key reads the same. -/
def SweepInvisible (s : ProviderStore) (r : ProviderRecord) (now : Nat) : Prop :=
  (s.putAt r now).2 = ((s.gc now).1.putAt r now).2 ∧
    ∀ k r', r' ∈ (s.putAt r now).1.get k now ↔ r' ∈ ((s.gc now).1.putAt r now).1.get k now

section Sweeping

variable {s : ProviderStore} {r : ProviderRecord} {now : Nat}

theorem sweepInvisible_of_liveRecord
    (houtcome : (s.putAt r now).2 = ((s.gc now).1.putAt r now).2)
    (hreads : ∀ k x, (s.putAt r now).1.liveRecord now k x =
      ((s.gc now).1.putAt r now).1.liveRecord now k x) : s.SweepInvisible r now := by
  refine ⟨houtcome, ?_⟩
  intro k r'
  rw [mem_get_iff, mem_get_iff]
  simp only [hreads]

/-- After a sweep that made room at its key, a new pair is let in and
costs nothing. -/
theorem putAt_gc_of_hasExpired (hs : s.WellFormed) (hcaps : s.Bounded)
    (hdead : s.HasExpired r.contentKey now)
    (hnew : (s.gc now).1.entry r.contentKey r.providerPeerId = none) :
    ((s.gc now).1.putAt r now).2 = .accepted ∧
      KeepsLive (s.gc now).1 r now ((s.gc now).1.putAt r now).1 := by
  have hg : (s.gc now).1.WellFormed := wellFormed_step hs (.gc now)
  have hroom : (s.gc now).1.len < (s.gc now).1.limits.maxTotalRecords :=
    lt_of_lt_of_le (len_gc_lt hdead) hcaps.total
  have hslot : (s.gc now).1.HasSlot r.contentKey now := by
    left
    rw [providersOf_gc]
    exact lt_of_lt_of_le (size_live_lt hdead) (size_providersOf_le hcaps _)
  exact ⟨(putAt_accepted_iff hg r now).mpr (Or.inr hroom), keepsLive_putAt hg hnew hroom hslot⟩

theorem sweepInvisible_of_refresh (hs : s.WellFormed) (hcaps : s.Bounded) {e : ProviderEntry}
    (he : s.entry r.contentKey r.providerPeerId = some e) : s.SweepInvisible r now := by
  have hput : s.putAt r now = (s.refresh e r, .accepted) := by simp [putAt, he]
  have hdirect : KeepsLive s r now (s.putAt r now).1 := by
    rw [hput]
    exact keepsLive_refresh s e r now
  cases hexp : e.record.isExpired now with
  | true =>
    -- The sweep takes the old record; the put is an admission after it.
    have hdead : s.HasExpired r.contentKey now := ⟨r.providerPeerId, e, he, hexp⟩
    have hnew : (s.gc now).1.entry r.contentKey r.providerPeerId = none := by
      simp [entry_gc, he, Option.filter, hexp]
    obtain ⟨houtcome, hkeeps⟩ := putAt_gc_of_hasExpired hs hcaps hdead hnew
    refine sweepInvisible_of_liveRecord (by rw [hput, houtcome]) ?_
    exact hdirect.congr hkeeps fun k x => (s.liveRecord_gc now k x).symm
  | false =>
    have he' : (s.gc now).1.entry r.contentKey r.providerPeerId = some e := by
      simp [entry_gc, he, Option.filter, hexp]
    have hput' : (s.gc now).1.putAt r now = ((s.gc now).1.refresh e r, .accepted) := by
      simp [putAt, he']
    refine sweepInvisible_of_liveRecord (by rw [hput, hput']) ?_
    rw [hput']
    exact hdirect.congr (keepsLive_refresh _ e r now) fun k x => (s.liveRecord_gc now k x).symm

theorem sweepInvisible_of_room (hs : s.WellFormed) (hcaps : s.Bounded)
    (hnew : s.entry r.contentKey r.providerPeerId = none)
    (hroom : s.len < s.limits.maxTotalRecords) : s.SweepInvisible r now := by
  have hg : (s.gc now).1.WellFormed := wellFormed_step hs (.gc now)
  have hnew' : (s.gc now).1.entry r.contentKey r.providerPeerId = none := by
    simp [entry_gc, hnew]
  have hroom' : (s.gc now).1.len < (s.gc now).1.limits.maxTotalRecords := by
    have hsum := s.len_gc_add now
    show (s.gc now).1.len < s.limits.maxTotalRecords
    omega
  obtain ⟨ps, hps, hput⟩ := putAt_of_room hs hnew hroom now
  by_cases hdead : s.HasExpired r.contentKey now
  · obtain ⟨houtcome, hkeeps⟩ := putAt_gc_of_hasExpired hs hcaps hdead hnew'
    refine sweepInvisible_of_liveRecord (by rw [hput, houtcome]) ?_
    have hdirect := keepsLive_putAt hs hnew hroom (Or.inr hdead)
    exact hdirect.congr hkeeps fun k x => (s.liveRecord_gc now k x).symm
  · -- Every record of the key is live: both puts make the same room.
    obtain ⟨ps', hps', hput'⟩ := putAt_of_room hg hnew' hroom' now
    have hsame : (s.gc now).1.makeRoom r.contentKey now = s.makeRoom r.contentKey now := by
      simp only [makeRoom, lookup_gc_of_live hs hdead]
      rfl
    rw [hsame, hps] at hps'
    cases hps'
    refine sweepInvisible_of_liveRecord (by rw [hput, hput']) ?_
    intro k x
    rw [hput, hput']
    by_cases hk : k = r.contentKey
    · simp only [liveRecord, entry_admitNew, if_pos hk]
      rfl
    · have hgc := s.liveRecord_gc now k x
      simp only [liveRecord] at hgc
      simp only [liveRecord, entry_admitNew, if_neg hk, hgc]

/-- A store that is full of live records turns a newcomer away either
way. -/
theorem sweepInvisible_of_full (hs : s.WellFormed)
    (hnew : s.entry r.contentKey r.providerPeerId = none)
    (hfull : s.limits.maxTotalRecords ≤ (s.gc now).1.len) : s.SweepInvisible r now := by
  have hg : (s.gc now).1.WellFormed := wellFormed_step hs (.gc now)
  have hnew' : (s.gc now).1.entry r.contentKey r.providerPeerId = none := by
    simp [entry_gc, hnew]
  have hsum := s.len_gc_add now
  have hreject := (putAt_rejected_iff hs r now).mpr ⟨hnew, by omega⟩
  have hreject' := (putAt_rejected_iff hg r now).mpr ⟨hnew', hfull⟩
  refine sweepInvisible_of_liveRecord (hreject.trans hreject'.symm) ?_
  intro k x
  rw [(putAt_of_not_accepted (by rw [hreject]; decide)).1,
    (putAt_of_not_accepted (by rw [hreject']; decide)).1, liveRecord_gc]

end Sweeping

/-- **Where a sweep before a put cannot be told**, in every reachable
store: the pair is stored, or the total is below its cap, or the live
records alone reach it. -/
theorem sweep_invisible_iff (limits : ProviderStoreLimits) (ops : List StoreOp)
    (r : ProviderRecord) (now : Nat) :
    let s := exec step (withLimits limits) ops
    s.SweepInvisible r now ↔
      s.entry r.contentKey r.providerPeerId ≠ none ∨ s.len < s.limits.maxTotalRecords ∨
        s.limits.maxTotalRecords ≤ (s.byKey.keys.map fun k => (s.get k now).length).sum := by
  intro s
  have hinv : s.WellFormed ∧ s.Bounded := bounded_exec limits ops
  obtain ⟨hs, hcaps⟩ := hinv
  have hg : (s.gc now).1.WellFormed := wellFormed_step hs (.gc now)
  rw [← len_gc]
  cases he : s.entry r.contentKey r.providerPeerId with
  | some e => simp [sweepInvisible_of_refresh hs hcaps he]
  | none =>
    simp only [ne_eq, not_true_eq_false, false_or]
    constructor
    · intro h
      by_contra hnot
      rw [not_or] at hnot
      have hnew' : (s.gc now).1.entry r.contentKey r.providerPeerId = none := by
        simp [entry_gc, he]
      have hreject := (putAt_rejected_iff hs r now).mpr ⟨he, by omega⟩
      have hsame := h.1
      rw [hreject] at hsame
      have hfull := ((putAt_rejected_iff hg r now).mp hsame.symm).2
      exact hnot.2 hfull
    · intro h
      rcases h with hroom | hfull
      · exact sweepInvisible_of_room hs hcaps he hroom
      · exact sweepInvisible_of_full hs he hfull

/-- One dead record fills a store of one: a newcomer is turned away, and
let in after a sweep. -/
theorem sweep_visible_at_cap :
    let announce (key provider : String) (expiresAt : Nat) : ProviderRecord :=
      ⟨key, provider, [], expiresAt, none⟩
    let s := exec step (withLimits ⟨20, 1⟩) [.putAt (announce "a" "p" 5) 0]
    (s.putAt (announce "b" "q" 9) 6).2 = .rejectedOverCapacity ∧
      ((s.gc 6).1.putAt (announce "b" "q" 9) 6).2 = .accepted ∧
      ¬s.SweepInvisible (announce "b" "q" 9) 6 := by
  refine ⟨by decide, by decide, ?_⟩
  intro h
  exact absurd h.1 (by decide)

end ProviderStore

end DigDht.Store
