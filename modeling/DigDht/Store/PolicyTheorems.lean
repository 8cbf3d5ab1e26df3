/-
DigDht.Store.PolicyTheorems — the admission policy, stated without the
code and proved of it.

§1 says who has to make room at a full key: `Evictable` is the tier (the
expired entries if there are any, otherwise those with a full floor of
elders), `IsVictim` its least member by `(expires_at, admitted_seq)`.
The order of iteration of the inner map is not in it, so there is one
victim at most (`IsVictim.unique`), and `evictionVictim` finds it. §2 is
the policy as a relation between a store, a put and what comes of it.
-/
import DigDht.Store.AdmissionTheorems
import DigDht.Store.IncumbentTheorems

namespace DigDht.Store

open Record Selection Runs

namespace ProviderStore

/-! ## §1 The victim -/

/-- A dead slot among those of `k`. -/
def HasExpired (s : ProviderStore) (k : String) (now : Nat) : Prop :=
  ∃ x e, s.entry k x = some e ∧ e.record.isExpired now = true

/-- An entry of `k` that may have to make room: an expired one if `k` has
one, otherwise one outside the floor. -/
structure Evictable (s : ProviderStore) (k : String) (now : Nat) (e : ProviderEntry) : Prop where
  stored : ∃ x, s.entry k x = some e
  expired : s.HasExpired k now → e.record.isExpired now = true
  outside_floor : ¬s.HasExpired k now →
    s.limits.maxProvidersPerKey / establishedFloorDivisor ≤ (s.elders k e.admittedSeq).ncard

/-- The entry of `x` comes before every other evictable entry of `k`. -/
def IsVictim (s : ProviderStore) (k : String) (now : Nat) (x : String) : Prop :=
  ∃ e, s.entry k x = some e ∧ s.Evictable k now e ∧
    ∀ e', s.Evictable k now e' → e' ≠ e → e.evictionKey < e'.evictionKey

theorem IsVictim.unique {s : ProviderStore} (hs : s.WellFormed) {k : String} {now : Nat}
    {x y : String} (hx : s.IsVictim k now x) (hy : s.IsVictim k now y) : x = y := by
  obtain ⟨e, he, hevict, hleast⟩ := hx
  obtain ⟨d, hd, hevict', hleast'⟩ := hy
  by_cases hsame : d = e
  · subst hsame
    exact (hs.seq_injective k x d k y d he hd rfl).2
  · have hlt := hleast d hevict' hsame
    have hgt := hleast' e hevict (Ne.symm hsame)
    exact absurd hlt (lt_asymm hgt)

/-- Two entries of a key with one eviction key are one entry. -/
theorem eq_of_evictionKey_eq {s : ProviderStore} (hs : s.WellFormed) {k : String}
    {e e' : ProviderEntry} (he : ∃ x, s.entry k x = some e) (he' : ∃ x, s.entry k x = some e')
    (h : e.evictionKey = e'.evictionKey) : e = e' := by
  obtain ⟨x, hx⟩ := he
  obtain ⟨x', hx'⟩ := he'
  have hseq : e.admittedSeq = e'.admittedSeq :=
    congrArg (fun key : Nat ×ₗ Nat => (ofLex key).2) h
  obtain ⟨-, rfl⟩ := hs.seq_injective k x e k x' e' hx hx' hseq
  rw [hx] at hx'
  exact Option.some.inj hx'

/-- The least of a list of entries of `k` that lists the evictable ones
is the victim. -/
theorem isVictim_of_argmin {s : ProviderStore} (hs : s.WellFormed) {k : String} {now : Nat}
    {tier : List ProviderEntry} (htier : ∀ e, e ∈ tier ↔ s.Evictable k now e)
    {e : ProviderEntry} (h : tier.argmin ProviderEntry.evictionKey = some e) :
    s.IsVictim k now e.record.providerPeerId := by
  have hevict : s.Evictable k now e := (htier e).mp (List.argmin_mem h)
  obtain ⟨x, hx⟩ := hevict.stored
  have hagree := (hs.key_agrees k x e hx).2
  refine ⟨e, by rwa [hagree], hevict, ?_⟩
  intro e' hevict' hne
  have hle : e.evictionKey ≤ e'.evictionKey :=
    List.le_of_mem_argmin ((htier e').mpr hevict') h
  refine lt_of_le_of_ne hle ?_
  intro heq
  exact hne (eq_of_evictionKey_eq hs hevict'.stored hevict.stored heq.symm)

/-- Behind the first `n` of a key's entries by admission are those with
`n` elders. -/
theorem mem_drop_iff_elders {s : ProviderStore} (hs : s.WellFormed) (k : String) (n : Nat)
    (e : ProviderEntry) :
    e ∈ (sortByKey ProviderEntry.admittedSeq (FMap.values (s.providersOf k))).drop n ↔
      (∃ x, s.entry k x = some e) ∧ n ≤ (s.elders k e.admittedSeq).ncard := by
  have hstrict := sortByKey_strict ProviderEntry.admittedSeq (nodup_admittedSeq hs k)
  rw [← rank_eq_ncard_elders, ← rank_perm (sortByKey_perm ProviderEntry.admittedSeq _)]
  constructor
  · intro hdrop
    have hmem := (mem_sortByKey ProviderEntry.admittedSeq).mp (List.mem_of_mem_drop hdrop)
    exact ⟨mem_values_providersOf.mp hmem, le_rank_of_mem_drop hstrict hdrop⟩
  · intro h
    obtain ⟨hstored, hrank⟩ := h
    have hmem := mem_values_providersOf.mpr hstored
    exact mem_drop_of_le_rank hstrict ((mem_sortByKey _).mpr hmem) hrank

/-- What `eviction_victim` picks is the victim. -/
theorem evictionVictim_isVictim {s : ProviderStore} (hs : s.WellFormed) {k : String} {now : Nat}
    {victim : String}
    (h : evictionVictim (s.providersOf k) s.limits.maxProvidersPerKey now = some victim) :
    s.IsVictim k now victim := by
  have hexpired : ∀ e, e ∈ (sortByKey ProviderEntry.admittedSeq
      (FMap.values (s.providersOf k))).filter (·.record.isExpired now) ↔
      (∃ x, s.entry k x = some e) ∧ e.record.isExpired now = true := by
    intro e
    rw [List.mem_filter, mem_sortByKey, mem_values_providersOf]
  simp only [evictionVictim] at h
  split at h
  · rename_i dead hdead
    cases h
    obtain ⟨⟨y, hy⟩, hgone⟩ := (hexpired dead).mp (List.argmin_mem hdead)
    have hdies : s.HasExpired k now := ⟨y, dead, hy, hgone⟩
    refine isVictim_of_argmin hs ?_ hdead
    intro e
    rw [hexpired]
    constructor
    · intro h
      exact ⟨h.1, fun _ => h.2, fun hlive => absurd hdies hlive⟩
    · intro h
      exact ⟨h.stored, h.expired hdies⟩
  · rename_i hnone
    obtain ⟨e, he, rfl⟩ := Option.map_eq_some_iff.mp h
    have hlive : ¬s.HasExpired k now := by
      intro hdead
      obtain ⟨y, dead, hy, hgone⟩ := hdead
      have hmem := (hexpired dead).mpr ⟨⟨y, hy⟩, hgone⟩
      rw [List.argmin_eq_none.mp hnone] at hmem
      cases hmem
    refine isVictim_of_argmin hs ?_ he
    intro e'
    rw [mem_drop_iff_elders hs]
    constructor
    · intro h
      exact ⟨h.1, fun hdead => absurd hdead hlive, fun _ => h.2⟩
    · intro h
      exact ⟨h.stored, h.outside_floor hlive⟩

/-! ## §2 The policy -/

/-- What the policy makes of a put: the store after it and the outcome. -/
structure PutPolicy (s : ProviderStore) (r : ProviderRecord) (now : Nat) (s' : ProviderStore)
    (outcome : PutOutcome) : Prop where
  refreshed : ∀ e, s.entry r.contentKey r.providerPeerId = some e →
    outcome = .accepted ∧ s'.nextAdmittedSeq = s.nextAdmittedSeq ∧
      s'.entry r.contentKey r.providerPeerId = some ⟨r, e.admittedSeq⟩ ∧
      ∀ x, x ≠ r.providerPeerId → s'.entry r.contentKey x = s.entry r.contentKey x
  rejected_iff : outcome = .rejectedOverCapacity ↔
    s.entry r.contentKey r.providerPeerId = none ∧ s.limits.maxTotalRecords ≤ s.len
  rejected : outcome = .rejectedOverCapacity → s' = s
  admitted : s.entry r.contentKey r.providerPeerId = none → s.len < s.limits.maxTotalRecords →
    s'.entry r.contentKey r.providerPeerId = some ⟨r, s.nextAdmittedSeq⟩ ∧
      s'.nextAdmittedSeq = s.nextAdmittedSeq + 1 ∧
      ∀ k x e, s.entry k x = some e → e.admittedSeq < s.nextAdmittedSeq
  joined : s.entry r.contentKey r.providerPeerId = none → s.len < s.limits.maxTotalRecords →
    FMap.size (s.providersOf r.contentKey) < s.limits.maxProvidersPerKey →
      ∀ x, x ≠ r.providerPeerId → s'.entry r.contentKey x = s.entry r.contentKey x
  displaced : s.entry r.contentKey r.providerPeerId = none → s.len < s.limits.maxTotalRecords →
    FMap.size (s.providersOf r.contentKey) = s.limits.maxProvidersPerKey →
      ∃ victim, s.IsVictim r.contentKey now victim ∧
        ∀ x, x ≠ r.providerPeerId → s'.entry r.contentKey x =
          if x = victim then none else s.entry r.contentKey x
  elsewhere : ∀ k, k ≠ r.contentKey → s'.byKey.lookup k = s.byKey.lookup k
  announced : s'.announced = s.announced
  limits : s'.limits = s.limits
  representation : s'.Representation

theorem representation_withLimits (limits : ProviderStoreLimits) :
    (withLimits limits).Representation :=
  ⟨wellFormed_withLimits limits, withinCaps_withLimits limits,
    makeRoom_ne_none (wellFormed_withLimits limits)⟩

theorem representation_putAt {s : ProviderStore} (hs : s.Representation)
    (hmax : 1 ≤ s.limits.maxProvidersPerKey) (r : ProviderRecord) (now : Nat) :
    (s.putAt r now).1.Representation := by
  have hwf := wellFormed_step hs.toWellFormed (.putAt r now)
  have hcaps := withinCaps_step hs.toWellFormed hs.toWithinCaps hmax (.putAt r now)
  exact ⟨hwf, hcaps, makeRoom_ne_none hwf⟩

/-- A put that is turned away is a new pair met by a full store. -/
theorem putAt_rejected_iff {s : ProviderStore} (hs : s.WellFormed)
    (r : ProviderRecord) (now : Nat) :
    (s.putAt r now).2 = .rejectedOverCapacity ↔
      s.entry r.contentKey r.providerPeerId = none ∧ s.limits.maxTotalRecords ≤ s.len := by
  have haccepted := putAt_accepted_iff hs r now
  cases houtcome : (s.putAt r now).2 with
  | accepted =>
    rw [houtcome] at haccepted
    have hcases := haccepted.mp rfl
    constructor
    · intro h
      cases h
    · intro h
      obtain ⟨hnew, hfull⟩ := h
      rcases hcases with hold | hroom
      · exact absurd hnew hold
      · omega
  | rejectedOverCapacity =>
    have hnot : ¬(s.entry r.contentKey r.providerPeerId ≠ none ∨
        s.len < s.limits.maxTotalRecords) := by
      intro h
      rw [houtcome] at haccepted
      cases haccepted.mpr h
    rw [not_or, not_not, Nat.not_lt] at hnot
    simp only [true_iff]
    exact hnot

/-- Admission, with the room it was given. -/
theorem putAt_of_room {s : ProviderStore} (hs : s.WellFormed)
    {r : ProviderRecord} (hnew : s.entry r.contentKey r.providerPeerId = none)
    (hroom : s.len < s.limits.maxTotalRecords) (now : Nat) :
    ∃ ps, s.makeRoom r.contentKey now = some ps ∧
      s.putAt r now = (s.admitNew ps r, .accepted) := by
  obtain ⟨e, he, -⟩ | ⟨-, hput⟩ | ⟨ps, -, -, hps, hput⟩ := s.putAt_cases r now
  · rw [hnew] at he
    cases he
  · have hreject := (putAt_rejected_iff hs r now).mp (by rw [hput])
    omega
  · exact ⟨ps, hps, hput⟩

/-- Admission to a full key: the victim's place goes to the newcomer. -/
theorem putAt_of_full {s : ProviderStore} (hs : s.WellFormed) {r : ProviderRecord}
    (hnew : s.entry r.contentKey r.providerPeerId = none)
    (hroom : s.len < s.limits.maxTotalRecords) (now : Nat)
    (hfull : max 1 s.limits.maxProvidersPerKey ≤ FMap.size (s.providersOf r.contentKey)) :
    ∃ victim, s.IsVictim r.contentKey now victim ∧
      ∀ x, (s.putAt r now).1.entry r.contentKey x =
        if x = r.providerPeerId then some ⟨r, s.nextAdmittedSeq⟩
        else if x = victim then none else s.entry r.contentKey x := by
  obtain ⟨ps, hps, hput⟩ := putAt_of_room hs hnew hroom now
  rcases makeRoom_cases hps with ⟨rfl, hnone | hbelow⟩ | ⟨victim, -, hvictim, rfl⟩
  · -- A key with no inner map is below its cap.
    simp only [providersOf, hnone, Option.getD_none, FMap.size_empty] at hfull
    omega
  · omega
  · refine ⟨victim, evictionVictim_isVictim hs hvictim, ?_⟩
    intro x
    rw [hput, entry_admitNew, if_pos rfl]
    by_cases hx : x = victim
    · subst hx
      simp
    · rw [AList.lookup_erase_ne hx, lookup_providersOf, if_neg hx]

/-- **`put_at` follows the policy**, on every store that represents one. -/
theorem putAt_policy {s : ProviderStore} (hs : s.Representation)
    (hmax : 1 ≤ s.limits.maxProvidersPerKey) (r : ProviderRecord) (now : Nat) :
    PutPolicy s r now (s.putAt r now).1 (s.putAt r now).2 where
  refreshed := by
    intro e he
    have hput : s.putAt r now = (s.refresh e r, .accepted) := by simp [putAt, he]
    rw [hput]
    refine ⟨rfl, rfl, ?_, ?_⟩
    · simp [entry_refresh]
    · intro x hx
      simp [entry_refresh, hx]
  rejected_iff := putAt_rejected_iff hs.toWellFormed r now
  rejected := by
    intro hreject
    have hnot : (s.putAt r now).2 ≠ .accepted := by
      rw [hreject]
      decide
    exact (putAt_of_not_accepted hnot).1
  admitted := by
    intro hnew hroom
    obtain ⟨ps, -, hput⟩ := putAt_of_room hs.toWellFormed hnew hroom now
    rw [hput]
    exact ⟨by simp [entry_admitNew], rfl, hs.seq_lt⟩
  joined := by
    intro hnew hroom hbelow x hx
    obtain ⟨ps, hps, hput⟩ := putAt_of_room hs.toWellFormed hnew hroom now
    rw [hput, entry_admitNew, if_pos rfl, if_neg hx]
    rcases makeRoom_cases hps with ⟨rfl, -⟩ | ⟨victim, hfull, -, -⟩
    · rw [lookup_providersOf]
    · omega
  displaced := by
    intro hnew hroom hfull
    obtain ⟨victim, hvictim, hafter⟩ := putAt_of_full hs.toWellFormed hnew hroom now (by omega)
    refine ⟨victim, hvictim, ?_⟩
    intro x hx
    rw [hafter, if_neg hx]
  elsewhere := by
    intro k hk
    exact lookup_putAt_ne hk now
  announced := announced_putAt s r now
  limits := limits_step s (.putAt r now)
  representation := representation_putAt hs hmax r now

/-- At a cap of 2 with two live providers the newcomer takes the place of
the later of them, which is the one outside the floor of 1. -/
theorem putAt_policy_at_cap :
    let announce (provider : String) (expiresAt : Nat) : ProviderRecord :=
      ⟨"key", provider, [], expiresAt, none⟩
    let s := exec step (withLimits ⟨2, 5⟩)
      [.putAt (announce "early" 6) 0, .putAt (announce "late" 9) 0]
    PutPolicy s (announce "new" 7) 1 (s.putAt (announce "new" 7) 1).1
      (s.putAt (announce "new" 7) 1).2 := by
  intro announce s
  have hs : s.Representation :=
    representation_putAt (representation_putAt (representation_withLimits ⟨2, 5⟩) (by decide) _ 0)
      (by decide) _ 0
  exact putAt_policy hs (by decide) _ 1

end ProviderStore

end DigDht.Store
