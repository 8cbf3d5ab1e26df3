/-
DigDht.Store.AdmissionTheorems — what a put does to the rest of the
store.

§1 is the put itself: when it is accepted, and that an accepted record is
the one found afterwards. §2 is the other keys, which a put does not see
except through the total: `len_putAt` says when the total grows. §3 is
the other providers of the same key: a put evicts one record at most, and
only where its key is full and its provider new.
-/
import Mathlib.Data.Set.Subsingleton
import DigDht.Store.ProviderStoreTheorems

namespace DigDht.Store

open Record Selection Runs

namespace ProviderStore

/-! ## §1 The record that is put -/

theorem mem_get_of_entry {s : ProviderStore} {k x : String} {now : Nat} {e : ProviderEntry}
    (he : s.entry k x = some e) (hlive : e.record.isExpired now = false) :
    e.record ∈ s.get k now := by
  obtain ⟨ps, hk, hx⟩ := exists_lookup_of_entry he
  have hmem : e ∈ FMap.values ps := FMap.mem_values_iff.mpr ⟨x, hx⟩
  simp only [get, hk, List.mem_filter]
  exact ⟨List.mem_map_of_mem hmem, by simp [hlive]⟩

/-- An accepted record is the one found under its pair. -/
theorem entry_putAt_accepted {s : ProviderStore} {r : ProviderRecord} {now : Nat}
    (h : (s.putAt r now).2 = .accepted) :
    ∃ e, (s.putAt r now).1.entry r.contentKey r.providerPeerId = some e ∧ e.record = r := by
  obtain ⟨e, -, hput⟩ | ⟨-, hput⟩ | ⟨ps, -, -, -, hput⟩ := s.putAt_cases r now <;>
    rw [hput] at h ⊢
  · exact ⟨{ e with record := r }, by simp [entry_refresh], rfl⟩
  · cases h
  · exact ⟨⟨r, s.nextAdmittedSeq⟩, by simp [entry_admitNew], rfl⟩

/-- A put is accepted if it is a refresh or there is room in the total. -/
theorem putAt_accepted_iff {s : ProviderStore} (hs : s.WellFormed)
    (r : ProviderRecord) (now : Nat) :
    (s.putAt r now).2 = .accepted ↔
      s.entry r.contentKey r.providerPeerId ≠ none ∨ s.len < s.limits.maxTotalRecords := by
  unfold putAt
  cases he : s.entry r.contentKey r.providerPeerId with
  | some e => simp
  | none =>
    by_cases hfull : s.limits.maxTotalRecords ≤ s.len
    · simp [hfull]
    · obtain ⟨ps, hroom⟩ :=
        Option.ne_none_iff_exists'.mp (makeRoom_ne_none hs r.contentKey now)
      simp [hfull, hroom, Nat.lt_of_not_le hfull]

/-- A put that is turned away changes nothing. -/
theorem putAt_of_not_accepted {s : ProviderStore} {r : ProviderRecord} {now : Nat}
    (h : (s.putAt r now).2 ≠ .accepted) :
    (s.putAt r now).1 = s ∧ s.entry r.contentKey r.providerPeerId = none := by
  obtain ⟨e, -, hput⟩ | ⟨hnone, hput⟩ | ⟨ps, -, -, -, hput⟩ := s.putAt_cases r now
  · exact absurd (congrArg Prod.snd hput) h
  · exact ⟨congrArg Prod.fst hput, hnone⟩
  · exact absurd (congrArg Prod.snd hput) h

/-- A live record is found after its put exactly when it was accepted. -/
theorem mem_get_putAt_iff {s : ProviderStore} (hs : s.WellFormed) {r : ProviderRecord}
    (now : Nat) {now' : Nat} (hlive : r.isExpired now' = false) :
    r ∈ (s.putAt r now).1.get r.contentKey now' ↔
      s.entry r.contentKey r.providerPeerId ≠ none ∨ s.len < s.limits.maxTotalRecords := by
  rw [← putAt_accepted_iff hs r now]
  constructor
  · intro hmem
    obtain ⟨x, e, he, hr, -⟩ := mem_get hmem
    have hx := ((wellFormed_step hs (.putAt r now)).key_agrees _ _ _ he).2
    by_contra hrejected
    obtain ⟨hsame, hnone⟩ := putAt_of_not_accepted hrejected
    rw [hsame, ← hx, hr, hnone] at he
    cases he
  · intro haccepted
    obtain ⟨e, he, rfl⟩ := entry_putAt_accepted haccepted
    exact mem_get_of_entry he hlive

/-! ## §2 The other keys -/

theorem get_congr {s s' : ProviderStore} {k : String} (h : s'.byKey.lookup k = s.byKey.lookup k)
    (now : Nat) : s'.get k now = s.get k now := by
  simp only [get, h]

theorem lookup_putAt_ne {s : ProviderStore} {r : ProviderRecord} {k : String}
    (hk : k ≠ r.contentKey) (now : Nat) :
    (s.putAt r now).1.byKey.lookup k = s.byKey.lookup k := by
  obtain ⟨e, -, hput⟩ | ⟨-, hput⟩ | ⟨ps, -, -, -, hput⟩ := s.putAt_cases r now <;> rw [hput]
  · exact AList.lookup_insert_ne hk
  · exact AList.lookup_insert_ne hk

theorem entry_putAt_ne {s : ProviderStore} {r : ProviderRecord} {k : String}
    (hk : k ≠ r.contentKey) (now : Nat) (x : String) :
    (s.putAt r now).1.entry k x = s.entry k x := by
  simp only [entry, lookup_putAt_ne hk]

/-- A put of `x` under `k` has no entry to refresh, and none to evict. -/
def Adds (s : ProviderStore) (x k : String) : Prop :=
  s.entry k x = none ∧ FMap.size (s.providersOf k) < s.limits.maxProvidersPerKey

instance (s : ProviderStore) (x k : String) : Decidable (s.Adds x k) :=
  inferInstanceAs (Decidable (_ ∧ _))

theorem adds_putAt_ne {s : ProviderStore} {r : ProviderRecord} {k : String}
    (hk : k ≠ r.contentKey) (now : Nat) (x : String) :
    (s.putAt r now).1.Adds x k ↔ s.Adds x k := by
  have hlimits : (s.putAt r now).1.limits = s.limits := limits_step s (.putAt r now)
  simp only [Adds, entry_putAt_ne hk, providersOf, lookup_putAt_ne hk, hlimits]

/-- The total grows by one where a put adds a record and there is room. -/
theorem len_putAt {s : ProviderStore} (hs : s.WellFormed) (hmax : 1 ≤ s.limits.maxProvidersPerKey)
    (r : ProviderRecord) (now : Nat) :
    (s.putAt r now).1.len =
      if s.Adds r.providerPeerId r.contentKey ∧ s.len < s.limits.maxTotalRecords then s.len + 1
      else s.len := by
  obtain ⟨e, he, hput⟩ | ⟨hnone, hput⟩ | ⟨ps, hnone, htotal, hroom, hput⟩ := s.putAt_cases r now
  · rw [hput, if_neg]
    · have hlen := len_setProviders s r.contentKey
        ((s.providersOf r.contentKey).insert r.providerPeerId { e with record := r })
      rw [← lookup_providersOf] at he
      rw [FMap.size_insert_of_some he] at hlen
      exact Nat.add_right_cancel hlen
    · intro h
      rw [h.1.1] at he
      cases he
  · rw [hput, if_neg]
    intro h
    have haccepted := (putAt_accepted_iff hs r now).mpr (Or.inr h.2)
    rw [hput] at haccepted
    cases haccepted
  · rw [hput]
    have hlen := len_setProviders s r.contentKey
      (ps.insert r.providerPeerId ⟨r, s.nextAdmittedSeq⟩)
    have hfresh : ps.lookup r.providerPeerId = none := by
      by_contra hne
      obtain ⟨e, he⟩ := Option.ne_none_iff_exists'.mp hne
      rw [entry_of_makeRoom hroom he] at hnone
      cases hnone
    rw [FMap.size_insert_of_none hfresh] at hlen
    have hsame : (s.admitNew ps r).len = (s.setProviders r.contentKey
      (ps.insert r.providerPeerId ⟨r, s.nextAdmittedSeq⟩)).len := rfl
    rw [hsame]
    rcases makeRoom_cases hroom with ⟨rfl, hbelow⟩ | ⟨victim, hfull, hvictim, rfl⟩
    · have hsize : FMap.size (s.providersOf r.contentKey) < s.limits.maxProvidersPerKey := by
        rcases hbelow with hk | hlt
        · simp only [providersOf, hk, Option.getD_none, FMap.size_empty]
          exact hmax
        · exact hlt
      rw [if_pos ⟨⟨hnone, hsize⟩, htotal⟩]
      omega
    · -- The newcomer takes the place of the evicted entry.
      obtain ⟨e, he, -⟩ := lookup_victim hs hvictim
      rw [← lookup_providersOf] at he
      have hsize := FMap.size_erase_of_some he
      rw [if_neg]
      · omega
      · intro h
        exact absurd h.1.2 (Nat.not_lt.mpr hfull)

/-- The keys a list of puts by `x` goes through leave another key's inner
map alone, and the total below its cap exactly when the records they add
fit. -/
theorem len_exec_puts {x : String} {k : String} (puts : List (ProviderRecord × Nat))
    {s : ProviderStore} (hs : s.WellFormed) (hmax : 1 ≤ s.limits.maxProvidersPerKey)
    (hids : ∀ p ∈ puts, p.1.providerPeerId = x)
    (hkeys : (k :: puts.map fun p => p.1.contentKey).Nodup) :
    let s' := exec step s (puts.map fun p => .putAt p.1 p.2)
    s'.byKey.lookup k = s.byKey.lookup k ∧
      (s'.len < s.limits.maxTotalRecords ↔
        s.len + puts.countP (fun p => s.Adds x p.1.contentKey) < s.limits.maxTotalRecords) := by
  induction puts generalizing s with
  | nil => simp
  | cons p puts ih =>
    obtain ⟨r, now⟩ := p
    simp only [List.map_cons, List.nodup_cons, List.mem_cons, not_or] at hkeys
    obtain ⟨⟨hk, hkrest⟩, hr, hrest⟩ := hkeys
    have hid : r.providerPeerId = x := hids (r, now) List.mem_cons_self
    have hlimits : (s.putAt r now).1.limits = s.limits := limits_step s (.putAt r now)
    obtain ⟨hlookup, hlen⟩ := ih (s := (s.putAt r now).1) (wellFormed_step hs (.putAt r now))
      (by rwa [hlimits]) (fun p hp => hids p (List.mem_cons_of_mem _ hp))
      (List.nodup_cons.mpr ⟨hkrest, hrest⟩)
    have hcount : puts.countP (fun p => (s.putAt r now).1.Adds x p.1.contentKey) =
        puts.countP (fun p => s.Adds x p.1.contentKey) := by
      refine List.countP_congr ?_
      intro p hp
      have hne : p.1.contentKey ≠ r.contentKey := by
        intro heq
        exact hr (heq ▸ List.mem_map_of_mem hp)
      simp only [decide_eq_true_eq, adds_putAt_ne hne]
    rw [hlimits, hcount, len_putAt hs hmax] at hlen
    simp only [List.map_cons, exec_cons, step]
    refine ⟨hlookup.trans (lookup_putAt_ne hk now), hlen.trans ?_⟩
    rw [List.countP_cons, hid]
    by_cases hadds : s.Adds x r.contentKey
    · by_cases hroom : s.len < s.limits.maxTotalRecords
      · simp only [hadds, hroom, and_self, if_true, decide_true]
        omega
      · simp only [hadds, hroom, and_false, if_false, if_true, decide_true]
        omega
    · simp only [hadds, false_and, if_false, decide_false, Bool.false_eq_true]
      omega

theorem announced_exec_puts (puts : List (ProviderRecord × Nat)) (s : ProviderStore) :
    (exec step s (puts.map fun p => .putAt p.1 p.2)).announced = s.announced := by
  refine exec_invariant_mem (Q := fun s' : ProviderStore => s'.announced = s.announced) ?_ rfl
  intro s' op hop hs'
  obtain ⟨p, -, rfl⟩ := List.mem_map.mp hop
  exact (announced_putAt s' p.1 p.2).trans hs'

end ProviderStore

/-! ## §3 The other providers of a key -/

/-- The entries of every provider but `x`, with the keys they are under. -/
def othersOf (x : String) (s : ProviderStore) : Set (String × ProviderEntry) :=
  {p | (∃ y, s.entry p.1 y = some p.2) ∧ p.2.record.providerPeerId ≠ x}

/-- A put evicts under its own key, from a full key its provider is not
in, and one entry at most. -/
structure EvictsFor (r : ProviderRecord) (s s' : ProviderStore) : Prop where
  subset : othersOf r.providerPeerId s' ⊆ othersOf r.providerPeerId s
  subsingleton : (othersOf r.providerPeerId s \ othersOf r.providerPeerId s').Subsingleton
  full : ∀ p ∈ othersOf r.providerPeerId s \ othersOf r.providerPeerId s',
    p.1 = r.contentKey ∧ s.limits.maxProvidersPerKey ≤ FMap.size (s.providersOf r.contentKey) ∧
      s.entry r.contentKey r.providerPeerId = none

theorem evictsFor_of_eq {r : ProviderRecord} {s s' : ProviderStore}
    (h : othersOf r.providerPeerId s' = othersOf r.providerPeerId s) : EvictsFor r s s' := by
  refine ⟨h.subset, ?_, ?_⟩
  · rw [h, Set.sdiff_self]
    exact Set.subsingleton_empty
  · intro p hp
    rw [h, Set.sdiff_self] at hp
    cases hp

/-- A refresh replaces the provider's own entry. -/
theorem othersOf_refresh {s : ProviderStore} (hs : s.WellFormed) (e : ProviderEntry)
    (r : ProviderRecord) (he : s.entry r.contentKey r.providerPeerId = some e) :
    othersOf r.providerPeerId (s.refresh e r) = othersOf r.providerPeerId s := by
  ext p
  simp only [othersOf, Set.mem_ofPred_eq, ProviderStore.entry_refresh]
  refine and_congr_left ?_
  intro hother
  constructor
  · intro h
    obtain ⟨y, hy⟩ := h
    split at hy
    · rw [← Option.some.inj hy] at hother
      exact absurd rfl hother
    · exact ⟨y, hy⟩
  · intro h
    obtain ⟨y, hy⟩ := h
    refine ⟨y, ?_⟩
    rw [if_neg, hy]
    intro hown
    obtain ⟨hk, hx⟩ := hown
    rw [hk, hx, he] at hy
    cases hy
    exact hother (hs.key_agrees _ _ _ he).2

/-- An admission keeps every other entry that the room made for it keeps. -/
theorem mem_othersOf_admitNew {s : ProviderStore} {ps : FMap String ProviderEntry}
    {r : ProviderRecord} {p : String × ProviderEntry} :
    p ∈ othersOf r.providerPeerId (s.admitNew ps r) ↔
      (∃ y, if p.1 = r.contentKey then y ≠ r.providerPeerId ∧ ps.lookup y = some p.2
        else s.entry p.1 y = some p.2) ∧ p.2.record.providerPeerId ≠ r.providerPeerId := by
  simp only [othersOf, Set.mem_ofPred_eq, ProviderStore.entry_admitNew]
  refine and_congr_left ?_
  intro hother
  refine exists_congr ?_
  intro y
  by_cases hk : p.1 = r.contentKey
  · rw [if_pos hk, if_pos hk]
    by_cases hy : y = r.providerPeerId
    · rw [if_pos hy]
      constructor
      · intro h
        rw [← Option.some.inj h] at hother
        exact absurd rfl hother
      · intro h
        exact absurd hy h.1
    · rw [if_neg hy]
      exact (and_iff_right hy).symm
  · rw [if_neg hk, if_neg hk]

section Admitting

variable {s : ProviderStore} {r : ProviderRecord} {now : Nat} {ps : FMap String ProviderEntry}

theorem othersOf_admitNew_subset (hroom : s.makeRoom r.contentKey now = some ps) :
    othersOf r.providerPeerId (s.admitNew ps r) ⊆ othersOf r.providerPeerId s := by
  intro p hp
  obtain ⟨⟨y, hy⟩, hother⟩ := mem_othersOf_admitNew.mp hp
  refine ⟨⟨y, ?_⟩, hother⟩
  split at hy
  · rename_i hk
    rw [hk]
    exact ProviderStore.entry_of_makeRoom hroom hy.2
  · exact hy

/-- What is lost was under the key of the put, and the room does not hold
it. -/
theorem lost_of_admitNew (hnew : s.entry r.contentKey r.providerPeerId = none)
    {p : String × ProviderEntry} (hp : p ∈ othersOf r.providerPeerId s)
    (hgone : p ∉ othersOf r.providerPeerId (s.admitNew ps r)) :
    ∃ y, p.1 = r.contentKey ∧ s.entry r.contentKey y = some p.2 ∧ ps.lookup y ≠ some p.2 := by
  obtain ⟨⟨y, hy⟩, hother⟩ := hp
  rw [mem_othersOf_admitNew] at hgone
  by_cases hk : p.1 = r.contentKey
  · refine ⟨y, hk, by rwa [← hk], ?_⟩
    intro hkept
    refine hgone ⟨⟨y, ?_⟩, hother⟩
    rw [if_pos hk]
    refine ⟨?_, hkept⟩
    intro hyr
    rw [hk, hyr, hnew] at hy
    cases hy
  · exact absurd ⟨⟨y, by rwa [if_neg hk]⟩, hother⟩ hgone

theorem evictsFor_admitNew (hnew : s.entry r.contentKey r.providerPeerId = none)
    (hroom : s.makeRoom r.contentKey now = some ps) : EvictsFor r s (s.admitNew ps r) := by
  have hsub := othersOf_admitNew_subset hroom
  rcases ProviderStore.makeRoom_cases hroom with ⟨rfl, -⟩ | ⟨victim, hfull, -, rfl⟩
  · -- Nothing is evicted.
    refine evictsFor_of_eq (Set.Subset.antisymm hsub ?_)
    intro p hp
    by_contra hgone
    obtain ⟨y, -, hy, hkept⟩ := lost_of_admitNew hnew hp hgone
    rw [ProviderStore.lookup_providersOf] at hkept
    exact hkept hy
  · have hvictim : ∀ p ∈ othersOf r.providerPeerId s \ othersOf r.providerPeerId
        (s.admitNew ((s.providersOf r.contentKey).erase victim) r),
        p.1 = r.contentKey ∧ s.entry r.contentKey victim = some p.2 := by
      intro p hp
      obtain ⟨y, hk, hy, hkept⟩ := lost_of_admitNew hnew hp.1 hp.2
      refine ⟨hk, ?_⟩
      by_cases hyv : y = victim
      · rwa [← hyv]
      · rw [AList.lookup_erase_ne hyv, ProviderStore.lookup_providersOf] at hkept
        exact absurd hy hkept
    refine ⟨hsub, ?_, ?_⟩
    · intro p hp q hq
      obtain ⟨hpk, hpe⟩ := hvictim p hp
      obtain ⟨hqk, hqe⟩ := hvictim q hq
      rw [hpe] at hqe
      exact Prod.ext (hpk.trans hqk.symm) (Option.some.inj hqe)
    · intro p hp
      exact ⟨(hvictim p hp).1, hfull, hnew⟩

end Admitting

theorem evictsFor_putAt {s : ProviderStore} (hs : s.WellFormed) (r : ProviderRecord) (now : Nat) :
    EvictsFor r s (s.putAt r now).1 := by
  obtain ⟨e, he, h⟩ | ⟨-, h⟩ | ⟨ps, hnew, -, hroom, h⟩ := s.putAt_cases r now <;> rw [h]
  · exact evictsFor_of_eq (othersOf_refresh hs e r he)
  · exact evictsFor_of_eq rfl
  · exact evictsFor_admitNew hnew hroom

end DigDht.Store
