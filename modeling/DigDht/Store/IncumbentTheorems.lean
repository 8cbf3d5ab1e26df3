/-
DigDht.Store.IncumbentTheorems — an established provider is not
displaced, whatever is announced after it.

`put_at` reserves the `maxProvidersPerKey / 2` longest-established
entries of a key. §1 says who is in the floor: an entry whose RANK by
admission ordinal, the number of entries of its key admitted before it,
is below the floor. §2 is the step lemma. Ordinals only grow, so the set
of elders of a stored entry can only shrink (`elders_step_subset`); and
an eviction victim is expired or has a full floor of elders, so a live
entry of the floor is never it. §3 is the run.
-/
import DigDht.Store.ProviderStoreTheorems

namespace DigDht.Store

open Record Selection Runs

namespace ProviderStore

/-! ## §1 The established floor -/

/-- The entry of `x` under `k` carries `seq` and fewer than
`maxProvidersPerKey / 2` entries of `k` carry a smaller ordinal. -/
structure InFloor (s : ProviderStore) (k x : String) (seq : Nat) : Prop where
  stored : (s.entry k x).map ProviderEntry.admittedSeq = some seq
  floor : rank ProviderEntry.admittedSeq (FMap.values (s.providersOf k)) seq <
    s.limits.maxProvidersPerKey / establishedFloorDivisor

/-- The providers of `k` admitted before `seq`. -/
def elders (s : ProviderStore) (k : String) (seq : Nat) : Set String :=
  {y | ∃ e, s.entry k y = some e ∧ e.admittedSeq < seq}

theorem elders_eq (s : ProviderStore) (k : String) (seq : Nat) :
    s.elders k seq =
      {y | ∃ e, (s.providersOf k).lookup y = some e ∧ e.admittedSeq < seq} := by
  simp only [elders, lookup_providersOf]

theorem rank_eq_ncard_elders (s : ProviderStore) (k : String) (seq : Nat) :
    rank ProviderEntry.admittedSeq (FMap.values (s.providersOf k)) seq =
      (s.elders k seq).ncard := by
  rw [elders_eq, FMap.ncard_setOf_lookup]
  rfl

theorem finite_elders (s : ProviderStore) (k : String) (seq : Nat) :
    (s.elders k seq).Finite := by
  rw [elders_eq]
  exact FMap.finite_setOf_lookup _ _

theorem nodup_admittedSeq {s : ProviderStore} (hs : s.WellFormed) (k : String) :
    ((FMap.values (s.providersOf k)).map ProviderEntry.admittedSeq).Nodup := by
  rw [FMap.values, List.map_map]
  refine List.Nodup.map_on ?_ (s.providersOf k).nodupKeys.nodup
  intro a he b he' hseq
  obtain ⟨x, e⟩ := a
  obtain ⟨x', e'⟩ := b
  have hx : s.entry k x = some e := by rw [← lookup_providersOf]; exact FMap.mk_mem_entries.mp he
  have hx' : s.entry k x' = some e' := by
    rw [← lookup_providersOf]; exact FMap.mk_mem_entries.mp he'
  obtain ⟨-, rfl⟩ := hs.seq_injective k x e k x' e' hx hx' hseq
  rw [hx] at hx'
  cases hx'
  rfl

/-! ## §2 One step -/

/-- A step that neither removes the entry of `x` under `k` on request nor
looks at it after its record has expired. -/
def Spares (k x : String) (s : ProviderStore) : StoreOp → Prop
  | .remove k' x' => ¬(k' = k ∧ x' = x)
  | .removeKey k' => k' ≠ k
  | .putAt _ now => ∀ e ∈ s.entry k x, e.record.isExpired now = false
  | .gc now => ∀ e ∈ s.entry k x, e.record.isExpired now = false
  | _ => True

instance decidableSpares (k x : String) (s : ProviderStore) :
    ∀ op, Decidable (Spares k x s op)
  | .remove k' x' => inferInstanceAs (Decidable ¬(k' = k ∧ x' = x))
  | .removeKey k' => inferInstanceAs (Decidable (k' ≠ k))
  | .putAt _ now | .gc now =>
    inferInstanceAs (Decidable (∀ e ∈ s.entry k x, e.record.isExpired now = false))
  | .get _ _ | .snapshot _ _ | .markAnnounced _ | .markAnnouncedWithCollateral _ _
  | .unmarkAnnounced _ => isTrue trivial

/-- Nobody becomes the elder of an entry that is already stored. -/
theorem elders_step_subset {s : ProviderStore} {k : String} {seq : Nat}
    (hseq : seq < s.nextAdmittedSeq) (op : StoreOp) :
    (step s op).elders k seq ⊆ s.elders k seq := by
  intro y hy
  obtain ⟨e, he, hlt⟩ := hy
  rcases entry_step_cases he with ⟨h, -⟩ | ⟨e₀, r, now, -, -, -, h, rfl, -⟩ |
    ⟨r, now, -, -, -, -, rfl, -⟩
  · exact ⟨e, h, hlt⟩
  · exact ⟨e₀, h, hlt⟩
  · -- The newcomer carries the counter itself.
    exact absurd hlt (Nat.lt_asymm hseq)

/-- A live entry of the floor is not the eviction victim of its key. -/
theorem victim_ne_of_inFloor {s : ProviderStore} (hs : s.WellFormed) {k x : String} {now : Nat}
    {e : ProviderEntry} (he : s.entry k x = some e) (hlive : e.record.isExpired now = false)
    (hfloor : rank ProviderEntry.admittedSeq (FMap.values (s.providersOf k)) e.admittedSeq <
      s.limits.maxProvidersPerKey / establishedFloorDivisor)
    {victim : String}
    (hv : evictionVictim (s.providersOf k) s.limits.maxProvidersPerKey now = some victim) :
    x ≠ victim := by
  intro heq
  subst heq
  obtain ⟨e', he', hdead | hdrop⟩ := lookup_victim hs hv
  · cases he.symm.trans he'
    rw [hlive] at hdead
    cases hdead
  · cases he.symm.trans he'
    have hrank := le_rank_of_mem_drop (sortByKey_strict _ (nodup_admittedSeq hs k)) hdrop
    rw [rank_perm (sortByKey_perm _ _)] at hrank
    omega

/-- A sparing step keeps the entry, with its ordinal. -/
theorem admittedSeq_step {s : ProviderStore} (hs : s.WellFormed) {k x : String} {seq : Nat}
    (h : s.InFloor k x seq) {op : StoreOp} (hop : Spares k x s op) :
    ((step s op).entry k x).map ProviderEntry.admittedSeq = some seq := by
  obtain ⟨e, he, rfl⟩ := Option.map_eq_some_iff.mp h.stored
  have hkept : (s.entry k x).map ProviderEntry.admittedSeq = some e.admittedSeq := h.stored
  cases op with
  | putAt r now =>
    simp only [step]
    obtain ⟨e₀, he₀, hput⟩ | ⟨-, hput⟩ | ⟨ps, hnone, -, hroom, hput⟩ := s.putAt_cases r now <;>
      rw [hput]
    · simp only [entry_refresh]
      by_cases hkx : k = r.contentKey ∧ x = r.providerPeerId
      · obtain ⟨rfl, rfl⟩ := hkx
        cases he.symm.trans he₀
        simp
      · rwa [if_neg hkx]
    · exact hkept
    · simp only [entry_admitNew]
      by_cases hk : k = r.contentKey
      · subst hk
        have hx : x ≠ r.providerPeerId := by
          intro heq
          subst heq
          rw [hnone] at he
          cases he
        rw [if_pos rfl, if_neg hx]
        rcases makeRoom_cases hroom with ⟨rfl, -⟩ | ⟨victim, -, hv, rfl⟩
        · rwa [lookup_providersOf]
        · have hne := victim_ne_of_inFloor hs he (hop e he) h.floor hv
          rwa [AList.lookup_erase_ne hne, lookup_providersOf]
      · rwa [if_neg hk]
  | gc now =>
    have hlive := hop e he
    simp [step, entry_gc, he, Option.filter, hlive]
  | remove k' x' =>
    have hne : ¬(k = k' ∧ x = x') := fun hkx => hop ⟨hkx.1.symm, hkx.2.symm⟩
    simp only [step, entry_remove]
    rwa [if_neg hne]
  | removeKey k' =>
    have hne : k ≠ k' := fun hk => hop hk.symm
    simp only [step, entry_removeKey]
    rwa [if_neg hne]
  | get _ _ => exact hkept
  | snapshot _ _ => exact hkept
  | markAnnounced _ => exact hkept
  | markAnnouncedWithCollateral _ _ => exact hkept
  | unmarkAnnounced _ => exact hkept

theorem inFloor_step {s : ProviderStore} (hs : s.WellFormed) {k x : String} {seq : Nat}
    (h : s.InFloor k x seq) {op : StoreOp} (hop : Spares k x s op) :
    (step s op).InFloor k x seq where
  stored := admittedSeq_step hs h hop
  floor := by
    obtain ⟨e, he, hseq⟩ := Option.map_eq_some_iff.mp h.stored
    have hlt : seq < s.nextAdmittedSeq := hseq ▸ hs.seq_lt k x e he
    have hcard : ((step s op).elders k seq).ncard ≤ (s.elders k seq).ncard :=
      Set.ncard_le_ncard (elders_step_subset hlt op) (finite_elders s k seq)
    have hfloor := h.floor
    rw [rank_eq_ncard_elders] at hfloor ⊢
    rw [limits_step]
    exact lt_of_le_of_lt hcard hfloor

/-! ## §3 The run -/

/-- **Incumbent survival.** An entry of the floor outlives any run that
does not remove it on request or outlast its record, and keeps its
ordinal. -/
theorem incumbent_survives (limits : ProviderStoreLimits) (before after : List StoreOp)
    (k x : String) (seq : Nat)
    (hfloor : (exec step (withLimits limits) before).InFloor k x seq)
    (hspared : EachStep step (Spares k x) (exec step (withLimits limits) before) after) :
    ((exec step (withLimits limits) (before ++ after)).entry k x).map
      ProviderEntry.admittedSeq = some seq := by
  have hwf : (exec step (withLimits limits) before).WellFormed :=
    wellFormed_exec (wellFormed_withLimits limits) before
  have hrun : Always step (fun s => s.WellFormed ∧ s.InFloor k x seq)
      (exec step (withLimits limits) before) after := by
    refine always_of_eachStep ?_ ⟨hwf, hfloor⟩ hspared
    intro s op hinv hop
    obtain ⟨hs, h⟩ := hinv
    exact ⟨wellFormed_step hs op, inFloor_step hs h hop⟩
  rw [exec_append]
  exact hrun.last.2.stored

/-- At a cap of 4 the floor is 2: the first announcer outlives five later
ones and a sweep, and is refreshed on the way. -/
theorem incumbent_survives_flood :
    let announce (provider : String) (expiresAt now : Nat) : StoreOp :=
      .putAt ⟨"key", provider, [], expiresAt, none⟩ now
    let before : List StoreOp := [announce "holder" 10 0]
    let after : List StoreOp :=
      [announce "s1" 99 1, announce "s2" 99 1, announce "s3" 99 2, announce "s4" 99 2,
        announce "holder" 20 9, .gc 15, announce "s5" 99 15]
    ((exec step (withLimits ⟨4, 100⟩) (before ++ after)).entry "key" "holder").map
      ProviderEntry.admittedSeq = some 0 :=
  incumbent_survives ⟨4, 100⟩ _ _ "key" "holder" 0 ⟨by decide, by decide⟩ (by decide)

end ProviderStore

end DigDht.Store
