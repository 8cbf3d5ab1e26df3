/-
DigDht.Store.LivenessTheorems — the three notions of a live record agree.

`get` filters on read, `snapshot` counts, `gc` sweeps. §1 reads all of
them through the list of a key's values. §2 is the snapshot: its keys
are the keys with a non-empty `get`, in ascending order, cut at the
bound. §3 is the sweep, which no later read can see: a record expired at
`now` is expired at every `t ≥ now`.
-/
import DigDht.Store.AdmissionTheorems

namespace DigDht.Store

open Record Selection Runs

namespace ProviderStore

/-! ## §1 Live records -/

theorem get_eq (s : ProviderStore) (k : String) (now : Nat) :
    s.get k now = (FMap.values (live now (s.providersOf k))).map ProviderEntry.record := by
  have hlive : ∀ ps : FMap String ProviderEntry,
      ((FMap.values ps).map ProviderEntry.record).filter (fun r => !r.isExpired now) =
        (FMap.values (live now ps)).map ProviderEntry.record := by
    intro ps
    rw [live, FMap.values_retain, List.filter_map]
    rfl
  unfold get providersOf
  cases s.byKey.lookup k with
  | none => rfl
  | some ps => exact hlive ps

theorem length_get (s : ProviderStore) (k : String) (now : Nat) :
    (s.get k now).length = FMap.size (live now (s.providersOf k)) := by
  rw [get_eq, List.length_map, FMap.values, List.length_map]
  rfl

theorem size_live (now : Nat) (ps : FMap String ProviderEntry) :
    FMap.size (live now ps) = (FMap.values ps).countP fun e => !e.record.isExpired now := by
  have hsize : FMap.size (live now ps) = (FMap.values (live now ps)).length := by
    simp [FMap.size, FMap.values]
  rw [hsize, live, FMap.values_retain, List.countP_eq_length_filter]

/-- What has expired stays expired. -/
theorem isExpired_mono {r : ProviderRecord} {now t : Nat} (ht : now ≤ t)
    (h : r.isExpired now = true) : r.isExpired t = true := by
  simp only [ProviderRecord.isExpired, decide_eq_true_eq] at h ⊢
  omega

/-- What is live later is live now. -/
theorem live_mono {r : ProviderRecord} {now t : Nat} (ht : now ≤ t)
    (h : r.isExpired t = false) : r.isExpired now = false := by
  by_contra hne
  rw [Bool.not_eq_false] at hne
  rw [isExpired_mono ht hne] at h
  cases h

/-- What is answered later is answered now. -/
theorem mem_get_of_le {s : ProviderStore} {k : String} {now t : Nat} (ht : now ≤ t)
    {r : ProviderRecord} (h : r ∈ s.get k t) : r ∈ s.get k now := by
  rw [get_eq] at h ⊢
  obtain ⟨e, he, rfl⟩ := List.mem_map.mp h
  rw [live, FMap.values_retain, List.mem_filter] at he
  refine List.mem_map_of_mem ?_
  rw [live, FMap.values_retain, List.mem_filter]
  exact ⟨he.1, by simpa using live_mono ht (by simpa using he.2)⟩

theorem countP_live_mono {now t : Nat} (ht : now ≤ t) (ps : FMap String ProviderEntry) :
    (FMap.values (live now ps)).countP (fun e => !e.record.isExpired t) =
      (FMap.values ps).countP fun e => !e.record.isExpired t := by
  rw [live, FMap.values_retain, List.countP_filter]
  refine List.countP_congr ?_
  intro e _
  simp only [Bool.and_eq_true, Bool.not_eq_true', and_iff_left_iff_imp]
  exact live_mono ht

/-! ## §2 The snapshot -/

/-- The rows of a snapshot before they are sorted and cut. -/
def liveCounts (s : ProviderStore) (now : Nat) : List ProviderSnapshotEntry :=
  s.byKey.entries.filterMap fun e =>
    let live := (FMap.values e.2).countP fun e => !e.record.isExpired now
    if 0 < live then some ⟨e.1, live⟩ else none

theorem mem_liveCounts {s : ProviderStore} {now : Nat} {p : ProviderSnapshotEntry} :
    p ∈ s.liveCounts now ↔
      s.get p.contentKey now ≠ [] ∧ p.providers = (s.get p.contentKey now).length := by
  obtain ⟨k, n⟩ := p
  simp only [liveCounts, List.mem_filterMap, ← List.length_pos_iff, length_get, size_live]
  constructor
  · intro h
    obtain ⟨⟨k', ps⟩, hps, hrow⟩ := h
    have hk' : s.byKey.lookup k' = some ps := FMap.mk_mem_entries.mp hps
    simp only at hrow
    split at hrow
    · rename_i hpos
      cases hrow
      simpa [providersOf, hk'] using hpos
    · cases hrow
  · intro h
    obtain ⟨hpos, rfl⟩ := h
    cases hk : s.byKey.lookup k with
    | none => simp [providersOf, hk, FMap.values] at hpos
    | some ps =>
      simp only [providersOf, hk, Option.getD_some] at hpos ⊢
      exact ⟨⟨k, ps⟩, FMap.mk_mem_entries.mpr hk, if_pos hpos⟩

theorem nodup_liveCounts (s : ProviderStore) (now : Nat) :
    ((s.liveCounts now).map ProviderSnapshotEntry.contentKey).Nodup := by
  refine List.pairwise_map.mpr ?_
  refine (List.nodupKeys_iff_pairwise.mp s.byKey.nodupKeys).filterMap _ ?_
  intro e e' hne p hp p' hp'
  simp only at hp hp'
  split at hp
  · split at hp'
    · cases hp
      cases hp'
      exact hne
    · cases hp'
  · cases hp

/-- What a snapshot has to be, said through `get`. -/
structure SnapshotAgrees (s : ProviderStore) (now maxKeys : Nat) (view : ProviderSnapshot) :
    Prop where
  total : view.totalKeys = {k | s.get k now ≠ []}.ncard
  truncated : view.truncated = true ↔ maxKeys < view.totalKeys
  count : view.entries.length = min maxKeys view.totalKeys
  ascending : view.entries.Pairwise fun p q => p.contentKey < q.contentKey
  row : ∀ p ∈ view.entries, s.get p.contentKey now ≠ [] ∧
    p.providers = (s.get p.contentKey now).length
  first : ∀ k, s.get k now ≠ [] → k ∉ view.entries.map ProviderSnapshotEntry.contentKey →
    ∀ p ∈ view.entries, p.contentKey < k

theorem ncard_live_keys (s : ProviderStore) (now : Nat) :
    {k | s.get k now ≠ []}.ncard = (s.liveCounts now).length := by
  have hset : {k | s.get k now ≠ []} =
      (((s.liveCounts now).map ProviderSnapshotEntry.contentKey).toFinset : Set String) := by
    ext k
    simp only [Set.mem_ofPred_eq, List.coe_toFinset, List.mem_map, mem_liveCounts]
    constructor
    · intro h
      exact ⟨⟨k, (s.get k now).length⟩, ⟨h, rfl⟩, rfl⟩
    · intro h
      obtain ⟨p, ⟨hne, -⟩, rfl⟩ := h
      exact hne
  rw [hset, Set.ncard_coe_finset, List.toFinset_card_of_nodup (s.nodup_liveCounts now),
    List.length_map]

theorem snapshot_agrees (s : ProviderStore) (now maxKeys : Nat) :
    SnapshotAgrees s now maxKeys (s.snapshot now maxKeys) := by
  have hentries : (s.snapshot now maxKeys).entries =
      (sortByKey ProviderSnapshotEntry.contentKey (s.liveCounts now)).take maxKeys := rfl
  have htotal : (s.snapshot now maxKeys).totalKeys = (s.liveCounts now).length :=
    length_sortByKey ProviderSnapshotEntry.contentKey _
  have hsorted := sortByKey_strict ProviderSnapshotEntry.contentKey (s.nodup_liveCounts now)
  have hrow : ∀ p ∈ sortByKey ProviderSnapshotEntry.contentKey (s.liveCounts now),
      s.get p.contentKey now ≠ [] ∧ p.providers = (s.get p.contentKey now).length := by
    intro p hp
    exact mem_liveCounts.mp ((mem_sortByKey _).mp hp)
  refine ⟨?_, ?_, ?_, ?_, ?_, ?_⟩
  · rw [htotal, ncard_live_keys]
  · simp [snapshot]
  · rw [htotal, hentries, List.length_take, length_sortByKey]
  · rw [hentries]
    exact hsorted.sublist (List.take_sublist _ _)
  · intro p hp
    exact hrow p (List.mem_of_mem_take hp)
  · intro k hk hnot p hp
    have hmem : ⟨k, (s.get k now).length⟩ ∈
        sortByKey ProviderSnapshotEntry.contentKey (s.liveCounts now) :=
      (mem_sortByKey _).mpr (mem_liveCounts.mpr ⟨hk, rfl⟩)
    rw [← List.take_append_drop maxKeys
      (sortByKey ProviderSnapshotEntry.contentKey (s.liveCounts now))] at hmem hsorted
    rcases List.mem_append.mp hmem with hkept | hcut
    · exact absurd (List.mem_map_of_mem hkept) hnot
    · exact (List.pairwise_append.mp hsorted).2.2 p hp _ hcut

/-! ## §3 The sweep -/

theorem live_live {now t : Nat} (ht : now ≤ t) (ps : FMap String ProviderEntry) :
    live t (live now ps) = live t ps := by
  refine AList.ext ?_
  simp only [live, FMap.entries_retain, List.filter_filter]
  refine List.filter_congr ?_
  intro e _
  rw [Bool.eq_iff_iff, Bool.and_eq_true, Bool.not_eq_true', Bool.not_eq_true',
    and_iff_left_iff_imp]
  exact live_mono ht

/-- A key keeps its live part; a key without one is dropped. -/
theorem providersOf_gc (s : ProviderStore) (now : Nat) (k : String) :
    (s.gc now).1.providersOf k = live now (s.providersOf k) := by
  have hlookup : (s.gc now).1.byKey.lookup k = (s.byKey.lookup k).bind (sweep now) :=
    FMap.lookup_filterMap _ _ _
  unfold providersOf
  rw [hlookup]
  cases s.byKey.lookup k with
  | none => rfl
  | some ps =>
    rw [Option.bind_some, Option.getD_some]
    unfold sweep
    split
    · rename_i hempty
      exact AList.ext (List.length_eq_zero_iff.mp hempty).symm
    · rfl

theorem get_gc (s : ProviderStore) {now t : Nat} (ht : now ≤ t) (k : String) :
    (s.gc now).1.get k t = s.get k t := by
  rw [get_eq, get_eq, providersOf_gc, live_live ht]

theorem liveCounts_gc (s : ProviderStore) {now t : Nat} (ht : now ≤ t) :
    (s.gc now).1.liveCounts t = s.liveCounts t := by
  simp only [liveCounts, gc, FMap.filterMap, List.filterMap_filterMap]
  refine List.filterMap_congr ?_
  intro e _
  rw [← countP_live_mono ht e.2]
  unfold sweep
  split
  · rename_i hempty
    have hnil : FMap.values (live now e.2) = [] := by
      rw [FMap.values, List.length_eq_zero_iff.mp hempty, List.map_nil]
    simp [hnil]
  · rfl

theorem snapshot_gc (s : ProviderStore) {now t : Nat} (ht : now ≤ t) (maxKeys : Nat) :
    (s.gc now).1.snapshot t maxKeys = s.snapshot t maxKeys := by
  have hsnapshot : ∀ s : ProviderStore, s.snapshot t maxKeys =
      let entries := sortByKey ProviderSnapshotEntry.contentKey (s.liveCounts t)
      ⟨entries.take maxKeys, entries.length, maxKeys < entries.length⟩ := fun _ => rfl
  rw [hsnapshot, hsnapshot, liveCounts_gc s ht]

theorem len_gc_eq (s : ProviderStore) (now : Nat) :
    (s.gc now).1.len = FMap.sumBy (fun ps => FMap.size (live now ps)) s.byKey := by
  refine FMap.sumBy_filterMap_eq _ _ _ ?_ ?_ s.byKey
  · intro k ps qs h
    unfold sweep at h
    split at h
    · cases h
    · cases h
      rfl
  · intro k ps h
    unfold sweep at h
    split at h
    · assumption
    · cases h

/-- What is left is counted by the reads. -/
theorem len_gc (s : ProviderStore) (now : Nat) :
    (s.gc now).1.len = (s.byKey.keys.map fun k => (s.get k now).length).sum := by
  rw [len_gc_eq]
  refine FMap.sumBy_eq_keys _ _ _ ?_
  intro k ps hk
  simp [length_get, providersOf, hk]

theorem len_gc_add (s : ProviderStore) (now : Nat) :
    (s.gc now).1.len + (s.gc now).2 = s.len := by
  rw [len_gc_eq, gc, ← FMap.sumBy_add, len]
  refine FMap.sumBy_congr ?_
  intro ps _
  have hle := size_live_le now ps
  omega

/-- The sweep reports the records it dropped. -/
theorem count_gc (s : ProviderStore) (now : Nat) :
    (s.gc now).2 =
      {x : String × String | ∃ e, s.entry x.1 x.2 = some e ∧
        e.record.isExpired now = true}.ncard := by
  have hset : {x : String × String | ∃ e, s.entry x.1 x.2 = some e ∧
      e.record.isExpired now = true} =
      {x | ∃ ps e, s.byKey.lookup x.1 = some ps ∧ ps.lookup x.2 = some e ∧
        e.record.isExpired now = true} := by
    ext x
    simp only [Set.mem_ofPred_eq, entry, Option.bind_eq_some_iff]
    tauto
  rw [hset, FMap.ncard_setOf_nested]
  simp only [gc, FMap.sumBy]
  congr 1
  refine List.map_congr_left ?_
  intro ps _
  have hsplit := List.length_eq_countP_add_countP
    (fun e : ProviderEntry => e.record.isExpired now) (l := FMap.values ps)
  have hsize : FMap.size ps = (FMap.values ps).length := by simp [FMap.size, FMap.values]
  rw [hsize, hsplit, size_live]
  simp

/-- What a sweep at `now` has to leave and to report. -/
structure GcAgrees (s : ProviderStore) (now : Nat) (s' : ProviderStore) (removed : Nat) :
    Prop where
  count : removed = {x : String × String | ∃ e, s.entry x.1 x.2 = some e ∧
    e.record.isExpired now = true}.ncard
  kept : ∀ k x e, s'.entry k x = some e ↔ s.entry k x = some e ∧ e.record.isExpired now = false
  get : ∀ k t, now ≤ t → s'.get k t = s.get k t
  snapshot : ∀ t maxKeys, now ≤ t → s'.snapshot t maxKeys = s.snapshot t maxKeys
  len : s'.len = (s.byKey.keys.map fun k => (s.get k now).length).sum

theorem gc_agrees (s : ProviderStore) (now : Nat) :
    GcAgrees s now (s.gc now).1 (s.gc now).2 where
  count := count_gc s now
  kept := by
    intro k x e
    rw [entry_gc, Option.filter_eq_some_iff, Bool.not_eq_true']
  get := by
    intro k t ht
    exact get_gc s ht k
  snapshot := by
    intro t maxKeys ht
    exact snapshot_gc s ht maxKeys
  len := len_gc s now

/-- **Snapshot, `get` and `gc` agree** on what is live. -/
theorem liveness_agrees (s : ProviderStore) (now maxKeys : Nat) :
    SnapshotAgrees s now maxKeys (s.snapshot now maxKeys) ∧
      GcAgrees s now (s.gc now).1 (s.gc now).2 :=
  ⟨snapshot_agrees s now maxKeys, gc_agrees s now⟩

end ProviderStore

end DigDht.Store
