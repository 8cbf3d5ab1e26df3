/-
DigDht.Store.ProviderStoreTheorems — what each store operation does, and
the representation invariant.

§1 reads a store through `entry`, the partial function from (content key,
provider) to the stored entry, and says what every operation does to it:
`putAt_cases` is the one case split of `put_at`, and `entry_step_cases`
says where an entry present after a step comes from. §2 is the
representation invariant. It has two halves. `WellFormed` (key
agreement, no empty inner map, distinct admission ordinals below the
counter) holds with any limits; `WithinCaps` needs a per-key cap of at
least 1. The guard branch of `put_at` ("every slot is established") is
unreachable because the floor `max / 2` is below the cap.
-/
import DigDht.Store.ProviderStore

namespace DigDht.Store

open Record Selection Runs

namespace ProviderStore

/-! ## §1 The operations, read through `entry` -/

theorem entry_of_lookup {s : ProviderStore} {k : String} {ps : FMap String ProviderEntry}
    (h : s.byKey.lookup k = some ps) (x : String) : s.entry k x = ps.lookup x := by
  simp [entry, h]

theorem entry_of_lookup_none {s : ProviderStore} {k : String}
    (h : s.byKey.lookup k = none) (x : String) : s.entry k x = none := by
  simp [entry, h]

theorem lookup_providersOf (s : ProviderStore) (k x : String) :
    (s.providersOf k).lookup x = s.entry k x := by
  cases h : s.byKey.lookup k <;> simp [providersOf, entry, h]

theorem exists_lookup_of_entry {s : ProviderStore} {k x : String} {e : ProviderEntry}
    (h : s.entry k x = some e) : ∃ ps, s.byKey.lookup k = some ps ∧ ps.lookup x = some e :=
  Option.bind_eq_some_iff.mp h

theorem mem_values_providersOf {s : ProviderStore} {k : String} {e : ProviderEntry} :
    e ∈ FMap.values (s.providersOf k) ↔ ∃ x, s.entry k x = some e := by
  simp only [FMap.mem_values_iff, lookup_providersOf]

theorem entry_setProviders (s : ProviderStore) (k : String) (ps : FMap String ProviderEntry)
    (k' x : String) :
    (s.setProviders k ps).entry k' x = if k' = k then ps.lookup x else s.entry k' x := by
  by_cases hk : k' = k
  · subst hk; simp [setProviders, entry]
  · simp [setProviders, entry, hk]

/-- The case split of `put_at`: a refresh, a rejection, or an admission
into the room the per-key cap leaves. -/
theorem putAt_cases (s : ProviderStore) (r : ProviderRecord) (now : Nat) :
    (∃ e, s.entry r.contentKey r.providerPeerId = some e ∧
      s.putAt r now = (s.refresh e r, .accepted)) ∨
    (s.entry r.contentKey r.providerPeerId = none ∧
      s.putAt r now = (s, .rejectedOverCapacity)) ∨
    (∃ ps, s.entry r.contentKey r.providerPeerId = none ∧ s.len < s.limits.maxTotalRecords ∧
      s.makeRoom r.contentKey now = some ps ∧ s.putAt r now = (s.admitNew ps r, .accepted)) := by
  unfold putAt
  cases he : s.entry r.contentKey r.providerPeerId with
  | some e => exact Or.inl ⟨e, rfl, rfl⟩
  | none =>
    by_cases hcap : s.limits.maxTotalRecords ≤ s.len
    · exact Or.inr (Or.inl ⟨rfl, by simp [hcap]⟩)
    · cases hroom : s.makeRoom r.contentKey now with
      | none => exact Or.inr (Or.inl ⟨rfl, by simp [hcap]⟩)
      | some ps => exact Or.inr (Or.inr ⟨ps, rfl, Nat.lt_of_not_le hcap, rfl, by simp [hcap]⟩)

@[simp] theorem announced_putAt (s : ProviderStore) (r : ProviderRecord) (now : Nat) :
    (s.putAt r now).1.announced = s.announced := by
  obtain ⟨e, -, h⟩ | ⟨-, h⟩ | ⟨ps, -, -, -, h⟩ := s.putAt_cases r now <;> rw [h] <;> rfl

theorem entry_refresh (s : ProviderStore) (e : ProviderEntry) (r : ProviderRecord)
    (k x : String) :
    (s.refresh e r).entry k x =
      if k = r.contentKey ∧ x = r.providerPeerId then some { e with record := r }
      else s.entry k x := by
  rw [refresh, entry_setProviders]
  by_cases hk : k = r.contentKey
  · subst hk
    by_cases hx : x = r.providerPeerId
    · subst hx; simp
    · simp [hx, lookup_providersOf]
  · simp [hk]

theorem entry_admitNew (s : ProviderStore) (ps : FMap String ProviderEntry) (r : ProviderRecord)
    (k x : String) :
    (s.admitNew ps r).entry k x =
      if k = r.contentKey then
        if x = r.providerPeerId then some ⟨r, s.nextAdmittedSeq⟩ else ps.lookup x
      else s.entry k x := by
  have hset : (s.admitNew ps r).entry k x =
      (s.setProviders r.contentKey
        (ps.insert r.providerPeerId ⟨r, s.nextAdmittedSeq⟩)).entry k x := rfl
  rw [hset, entry_setProviders]
  by_cases hx : x = r.providerPeerId
  · subst hx; simp
  · simp [hx]

/-- Making room adds nothing: it returns the key's inner map, with at
most the eviction victim missing. -/
theorem makeRoom_cases {s : ProviderStore} {k : String} {now : Nat}
    {ps : FMap String ProviderEntry} (h : s.makeRoom k now = some ps) :
    (ps = s.providersOf k ∧
      (s.byKey.lookup k = none ∨ FMap.size ps < s.limits.maxProvidersPerKey)) ∨
    (∃ victim, s.limits.maxProvidersPerKey ≤ FMap.size (s.providersOf k) ∧
      evictionVictim (s.providersOf k) s.limits.maxProvidersPerKey now = some victim ∧
      ps = (s.providersOf k).erase victim) := by
  unfold makeRoom at h
  cases hk : s.byKey.lookup k with
  | none =>
    rw [hk] at h
    cases h
    exact Or.inl ⟨by simp [providersOf, hk], Or.inl rfl⟩
  | some qs =>
    have hqs : s.providersOf k = qs := by simp [providersOf, hk]
    rw [hk] at h
    simp only at h
    by_cases hfull : s.limits.maxProvidersPerKey ≤ FMap.size qs
    · rw [if_pos hfull] at h
      cases hv : evictionVictim qs s.limits.maxProvidersPerKey now with
      | none => rw [hv] at h; cases h
      | some victim =>
        rw [hv] at h
        cases h
        exact Or.inr ⟨victim, by rwa [hqs], by rwa [hqs], by rw [hqs]⟩
    · rw [if_neg hfull] at h
      cases h
      exact Or.inl ⟨hqs.symm, Or.inr (Nat.lt_of_not_le hfull)⟩

theorem entry_of_makeRoom {s : ProviderStore} {k : String} {now : Nat}
    {ps : FMap String ProviderEntry} (h : s.makeRoom k now = some ps) {x : String}
    {e : ProviderEntry} (he : ps.lookup x = some e) : s.entry k x = some e := by
  rcases makeRoom_cases h with ⟨rfl, -⟩ | ⟨victim, -, -, rfl⟩
  · rwa [lookup_providersOf] at he
  · by_cases hx : x = victim
    · subst hx; simp at he
    · rwa [AList.lookup_erase_ne hx, lookup_providersOf] at he

/-- The case split of `remove`: no such key, the key loses its last
provider and is dropped, or it keeps the others. -/
theorem remove_cases (s : ProviderStore) (k x : String) :
    (s.byKey.lookup k = none ∧ (s.remove k x).1 = s) ∨
    ∃ ps, s.byKey.lookup k = some ps ∧
      ((FMap.size (ps.erase x) = 0 ∧ (s.remove k x).1 = { s with byKey := s.byKey.erase k }) ∨
      (0 < FMap.size (ps.erase x) ∧ (s.remove k x).1 = s.setProviders k (ps.erase x))) := by
  unfold remove
  cases hk : s.byKey.lookup k with
  | none => exact Or.inl ⟨rfl, rfl⟩
  | some ps =>
    refine Or.inr ⟨ps, rfl, ?_⟩
    by_cases hempty : FMap.size (ps.erase x) = 0
    · exact Or.inl ⟨hempty, by simp [hempty]⟩
    · exact Or.inr ⟨Nat.pos_of_ne_zero hempty, by simp [hempty, setProviders]⟩

theorem entry_remove (s : ProviderStore) (k x k' x' : String) :
    (s.remove k x).1.entry k' x' =
      if k' = k ∧ x' = x then none else s.entry k' x' := by
  rcases s.remove_cases k x with ⟨hk, h⟩ | ⟨ps, hk, ⟨hempty, h⟩ | ⟨-, h⟩⟩ <;> rw [h]
  · by_cases hkx : k' = k ∧ x' = x
    · rw [if_pos hkx, hkx.1]
      exact entry_of_lookup_none hk x'
    · rw [if_neg hkx]
  · by_cases hk' : k' = k
    · subst hk'
      by_cases hx : x' = x
      · simp [entry, hx]
      · have hnone := FMap.lookup_of_size_eq_zero hempty x'
        rw [AList.lookup_erase_ne hx] at hnone
        simp [entry, hk, hx, hnone]
    · simp [entry, hk']
  · rw [entry_setProviders]
    by_cases hk' : k' = k
    · subst hk'
      by_cases hx : x' = x
      · subst hx; simp
      · simp [hx, entry_of_lookup hk]
    · simp [hk']

theorem entry_removeKey (s : ProviderStore) (k k' x' : String) :
    (s.removeKey k).1.entry k' x' = if k' = k then none else s.entry k' x' := by
  by_cases hk : k' = k
  · subst hk; simp [removeKey, entry]
  · simp [removeKey, entry, hk]

theorem lookup_live (now : Nat) (ps : FMap String ProviderEntry) (x : String) :
    (live now ps).lookup x = (ps.lookup x).filter fun e => !e.record.isExpired now :=
  FMap.lookup_retain _ _ _

theorem entry_gc (s : ProviderStore) (now : Nat) (k x : String) :
    (s.gc now).1.entry k x = (s.entry k x).filter fun e => !e.record.isExpired now := by
  simp only [gc, entry, FMap.lookup_filterMap]
  cases hk : s.byKey.lookup k with
  | none => simp
  | some ps =>
    simp only [Option.bind_some]
    rw [← lookup_live]
    unfold sweep
    by_cases hempty : FMap.size (live now ps) = 0
    · rw [if_pos hempty, FMap.lookup_of_size_eq_zero hempty, Option.bind_none]
    · rw [if_neg hempty, Option.bind_some]

@[simp] theorem limits_step (s : ProviderStore) (op : StoreOp) :
    (step s op).limits = s.limits := by
  cases op with
  | putAt r now =>
    obtain ⟨e, -, h⟩ | ⟨-, h⟩ | ⟨ps, -, -, -, h⟩ := s.putAt_cases r now <;>
      simp only [step, h] <;> rfl
  | remove k x =>
    simp only [step]
    rcases s.remove_cases k x with ⟨-, h⟩ | ⟨ps, -, ⟨-, h⟩ | ⟨-, h⟩⟩ <;> simp [h, setProviders]
  | _ => rfl

theorem limits_exec (s : ProviderStore) (ops : List StoreOp) :
    (exec step s ops).limits = s.limits :=
  exec_invariant (Q := fun s' : ProviderStore => s'.limits = s.limits)
    (fun s' op hs' => (limits_step s' op).trans hs') rfl ops

/-- Where an entry present after a step comes from: it was there, it was
there with an older record, or the step admitted it. -/
theorem entry_step_cases {s : ProviderStore} {op : StoreOp} {k x : String} {e' : ProviderEntry}
    (h : (step s op).entry k x = some e') :
    (s.entry k x = some e' ∧ s.nextAdmittedSeq ≤ (step s op).nextAdmittedSeq) ∨
    (∃ e r now, op = .putAt r now ∧ r.contentKey = k ∧ r.providerPeerId = x ∧
      s.entry k x = some e ∧ e' = { e with record := r } ∧
      (step s op).nextAdmittedSeq = s.nextAdmittedSeq) ∨
    (∃ r now, op = .putAt r now ∧ r.contentKey = k ∧ r.providerPeerId = x ∧
      s.entry k x = none ∧ e' = ⟨r, s.nextAdmittedSeq⟩ ∧
      (step s op).nextAdmittedSeq = s.nextAdmittedSeq + 1) := by
  cases op with
  | putAt r now =>
    simp only [step] at h ⊢
    obtain ⟨e, he, hput⟩ | ⟨-, hput⟩ | ⟨ps, hnone, -, hroom, hput⟩ := s.putAt_cases r now
    · rw [hput] at h ⊢
      simp only [entry_refresh] at h
      by_cases hkx : k = r.contentKey ∧ x = r.providerPeerId
      · obtain ⟨rfl, rfl⟩ := hkx
        simp only [and_self, if_true, Option.some.injEq] at h
        exact Or.inr (Or.inl ⟨e, r, now, rfl, rfl, rfl, he, h.symm, rfl⟩)
      · rw [if_neg hkx] at h
        exact Or.inl ⟨h, le_rfl⟩
    · rw [hput] at h ⊢
      exact Or.inl ⟨h, le_rfl⟩
    · rw [hput] at h ⊢
      simp only [entry_admitNew] at h
      by_cases hk : k = r.contentKey
      · subst hk
        by_cases hx : x = r.providerPeerId
        · subst hx
          simp only [if_true, Option.some.injEq] at h
          exact Or.inr (Or.inr ⟨r, now, rfl, rfl, rfl, hnone, h.symm, rfl⟩)
        · rw [if_pos rfl, if_neg hx] at h
          exact Or.inl ⟨entry_of_makeRoom hroom h, Nat.le_succ _⟩
      · rw [if_neg hk] at h
        exact Or.inl ⟨h, Nat.le_succ _⟩
  | gc now =>
    simp only [step, entry_gc, Option.filter_eq_some_iff] at h
    exact Or.inl ⟨h.1, le_rfl⟩
  | remove k' x' =>
    have hseq : (step s (.remove k' x')).nextAdmittedSeq = s.nextAdmittedSeq := by
      simp only [step]
      rcases s.remove_cases k' x' with ⟨-, h⟩ | ⟨ps, -, ⟨-, h⟩ | ⟨-, h⟩⟩ <;>
        simp [h, setProviders]
    simp only [step, entry_remove] at h
    split at h
    · cases h
    · exact Or.inl ⟨h, hseq.ge⟩
  | removeKey k' =>
    simp only [step, entry_removeKey] at h
    split at h
    · cases h
    · exact Or.inl ⟨h, le_rfl⟩
  | get _ _ => exact Or.inl ⟨h, le_rfl⟩
  | snapshot _ _ => exact Or.inl ⟨h, le_rfl⟩
  | markAnnounced _ => exact Or.inl ⟨h, le_rfl⟩
  | markAnnouncedWithCollateral _ _ => exact Or.inl ⟨h, le_rfl⟩
  | unmarkAnnounced _ => exact Or.inl ⟨h, le_rfl⟩

/-- The key an operation marks as announced. -/
def marks : StoreOp → Option String
  | .markAnnounced contentKey => some contentKey
  | .markAnnouncedWithCollateral contentKey _ => some contentKey
  | _ => none

/-- A pointer remembered after a step was remembered before, or the step
marked the key with it. -/
theorem lookup_announced_cases {s : ProviderStore} {op : StoreOp} {hex : String}
    {pointer : Option String} (h : (step s op).announced.lookup hex = some pointer) :
    s.announced.lookup hex = some pointer ∨ op = .markAnnouncedWithCollateral hex pointer ∨
      op = .markAnnounced hex ∧ pointer = none := by
  have hmark : ∀ k coin,
      (s.markAnnouncedWithCollateral k coin).announced.lookup hex = some pointer →
        s.announced.lookup hex = some pointer ∨ k = hex ∧ coin = pointer := by
    intro k coin hlookup
    by_cases hk : hex = k
    · subst hk
      rw [markAnnouncedWithCollateral, AList.lookup_insert] at hlookup
      exact Or.inr ⟨rfl, Option.some.inj hlookup⟩
    · rw [markAnnouncedWithCollateral, AList.lookup_insert_ne hk] at hlookup
      exact Or.inl hlookup
  cases op with
  | putAt r now =>
    simp only [step, announced_putAt] at h
    exact Or.inl h
  | remove k x =>
    simp only [step] at h
    rcases s.remove_cases k x with ⟨-, heq⟩ | ⟨ps, -, ⟨-, heq⟩ | ⟨-, heq⟩⟩ <;> rw [heq] at h <;>
      exact Or.inl h
  | markAnnounced k =>
    rcases hmark k none h with hold | ⟨rfl, rfl⟩
    · exact Or.inl hold
    · exact Or.inr (Or.inr ⟨rfl, rfl⟩)
  | markAnnouncedWithCollateral k coin =>
    rcases hmark k coin h with hold | ⟨rfl, rfl⟩
    · exact Or.inl hold
    · exact Or.inr (Or.inl rfl)
  | unmarkAnnounced k => exact Or.inl (FMap.lookup_of_lookup_erase h)
  | get _ _ => exact Or.inl h
  | snapshot _ _ => exact Or.inl h
  | gc _ => exact Or.inl h
  | removeKey _ => exact Or.inl h

/-- An announced key was announced before the step, with the pointer it
has, or the step marked it. -/
theorem lookup_announced_step {s : ProviderStore} {op : StoreOp} {hex : String}
    {pointer : Option String} (h : (step s op).announced.lookup hex = some pointer) :
    s.announced.lookup hex = some pointer ∨ marks op = some hex := by
  rcases lookup_announced_cases h with hold | rfl | ⟨rfl, -⟩
  · exact Or.inl hold
  · exact Or.inr rfl
  · exact Or.inr rfl

/-- The same over several operations. -/
theorem lookup_announced_exec {s : ProviderStore} {ops : List StoreOp} {hex : String}
    {pointer : Option String} (h : (exec step s ops).announced.lookup hex = some pointer) :
    s.announced.lookup hex = some pointer ∨ ∃ op ∈ ops,
      op = .markAnnouncedWithCollateral hex pointer ∨ op = .markAnnounced hex ∧ pointer = none := by
  refine exec_invariant_mem (Q := fun s' : ProviderStore =>
    s'.announced.lookup hex = some pointer → s.announced.lookup hex = some pointer ∨ ∃ op ∈ ops,
      op = .markAnnouncedWithCollateral hex pointer ∨ op = .markAnnounced hex ∧ pointer = none)
    ?_ Or.inl h
  intro s' op hop hs' hstep
  rcases lookup_announced_cases hstep with hold | hmark | hmark
  · exact hs' hold
  · exact Or.inr ⟨op, hop, Or.inl hmark⟩
  · exact Or.inr ⟨op, hop, Or.inr hmark⟩

theorem mem_localAnnouncements_step {s : ProviderStore} {op : StoreOp} {hex : String}
    (h : hex ∈ (step s op).localAnnouncements) :
    hex ∈ s.localAnnouncements ∨ marks op = some hex := by
  obtain ⟨pointer, hpointer⟩ := FMap.mem_keys_iff.mp h
  rcases lookup_announced_step hpointer with hold | hmark
  · exact Or.inl (FMap.mem_keys_iff.mpr ⟨pointer, hold⟩)
  · exact Or.inr hmark

theorem mem_get {s : ProviderStore} {k : String} {now : Nat} {r : ProviderRecord}
    (h : r ∈ s.get k now) :
    ∃ x e, s.entry k x = some e ∧ e.record = r ∧ r.isExpired now = false := by
  unfold get at h
  cases hk : s.byKey.lookup k with
  | none => simp [hk] at h
  | some ps =>
    rw [hk] at h
    obtain ⟨hmem, hlive⟩ := List.mem_filter.mp h
    obtain ⟨e, he, rfl⟩ := List.mem_map.mp hmem
    obtain ⟨x, hx⟩ := FMap.mem_values_iff.mp he
    exact ⟨x, e, by rw [entry_of_lookup hk, hx], rfl, by simpa using hlive⟩

theorem length_get_le (s : ProviderStore) (k : String) (now : Nat) :
    (s.get k now).length ≤ FMap.size (s.providersOf k) := by
  unfold get providersOf
  cases s.byKey.lookup k with
  | none => simp
  | some ps =>
    refine le_trans (List.length_filter_le _ _) ?_
    simp [FMap.values, FMap.size]

/-- A snapshot counts the live entries of a key. -/
theorem mem_snapshot {s : ProviderStore} {now maxKeys : Nat} {p : ProviderSnapshotEntry}
    (h : p ∈ (s.snapshot now maxKeys).entries) :
    p.providers = {x | ∃ e, s.entry p.contentKey x = some e ∧
      e.record.isExpired now = false}.ncard := by
  have hsorted := (mem_sortByKey ProviderSnapshotEntry.contentKey).mp (List.mem_of_mem_take h)
  obtain ⟨⟨k, ps⟩, hps, hp⟩ := List.mem_filterMap.mp hsorted
  have hk : s.byKey.lookup k = some ps := FMap.mk_mem_entries.mp hps
  simp only at hp
  split at hp
  · cases hp
    simp only [entry_of_lookup hk]
    rw [FMap.ncard_setOf_lookup]
    simp
  · cases hp

/-- What is found after some operations was found before, or was put. -/
theorem entry_exec_cases {s : ProviderStore} {ops : List StoreOp} {k x : String}
    {e : ProviderEntry} (h : (exec step s ops).entry k x = some e) :
    s.entry k x = some e ∨
      ∃ r now, StoreOp.putAt r now ∈ ops ∧ r.contentKey = k ∧ e.record = r := by
  refine exec_invariant_mem (Q := fun s' : ProviderStore => ∀ e, s'.entry k x = some e →
    s.entry k x = some e ∨
      ∃ r now, StoreOp.putAt r now ∈ ops ∧ r.contentKey = k ∧ e.record = r) ?_ ?_ e h
  · intro s' op hop hs' e he
    rcases entry_step_cases he with ⟨hold, -⟩ |
      ⟨e', r, now, rfl, hk, -, -, rfl, -⟩ | ⟨r, now, rfl, hk, -, -, rfl, -⟩
    · exact hs' e hold
    · exact Or.inr ⟨r, now, hop, hk, rfl⟩
    · exact Or.inr ⟨r, now, hop, hk, rfl⟩
  · intro e he
    exact Or.inl he

/-- Operations that put nothing for a pair do not bring it back. -/
theorem entry_exec_none {s : ProviderStore} {k x : String} (h : s.entry k x = none)
    (ops : List StoreOp)
    (hops : ∀ r now, StoreOp.putAt r now ∈ ops → r.contentKey = k → r.providerPeerId ≠ x) :
    (exec step s ops).entry k x = none := by
  refine exec_invariant_mem (Q := fun s : ProviderStore => s.entry k x = none)
    (fun s op hop hs => ?_) h
  by_contra hne
  obtain ⟨e, he⟩ := Option.ne_none_iff_exists'.mp hne
  rcases entry_step_cases he with ⟨hold, -⟩ |
    ⟨_, r, now, rfl, hk, hx, -, -, -⟩ | ⟨r, now, rfl, hk, hx, -, -, -⟩
  · rw [hs] at hold
    cases hold
  · exact hops r now hop hk hx
  · exact hops r now hop hk hx

/-- Operations that do not mark a key leave it unannounced. -/
theorem not_announced_exec {s : ProviderStore} {hex : String} (h : hex ∉ s.localAnnouncements)
    (ops : List StoreOp) (hops : ∀ op ∈ ops, marks op ≠ some hex) :
    hex ∉ (exec step s ops).localAnnouncements := by
  refine exec_invariant_mem (Q := fun s : ProviderStore => hex ∉ s.localAnnouncements)
    (fun s op hop hs hmem => ?_) h
  rcases mem_localAnnouncements_step hmem with hold | hmark
  · exact hs hold
  · exact hops op hop hmark

/-! ## §2 The representation invariant -/

/-- The half that holds with any limits. -/
structure WellFormed (s : ProviderStore) : Prop where
  inner_nonempty : ∀ k ps, s.byKey.lookup k = some ps → 0 < FMap.size ps
  key_agrees : ∀ k x e, s.entry k x = some e →
    e.record.contentKey = k ∧ e.record.providerPeerId = x
  seq_lt : ∀ k x e, s.entry k x = some e → e.admittedSeq < s.nextAdmittedSeq
  seq_injective : ∀ k x e k' x' e', s.entry k x = some e → s.entry k' x' = some e' →
    e.admittedSeq = e'.admittedSeq → k = k' ∧ x = x'

/-- The two caps. -/
structure WithinCaps (s : ProviderStore) : Prop where
  per_key : ∀ k ps, s.byKey.lookup k = some ps → FMap.size ps ≤ s.limits.maxProvidersPerKey
  total : s.len ≤ s.limits.maxTotalRecords

/-- The caps as they are with any limits: a per-key cap of 0 still lets
the first record of a key in. -/
structure Bounded (s : ProviderStore) : Prop where
  per_key : ∀ k ps, s.byKey.lookup k = some ps →
    FMap.size ps ≤ max 1 s.limits.maxProvidersPerKey
  total : s.len ≤ s.limits.maxTotalRecords

theorem withinCaps_iff_bounded {s : ProviderStore} (hmax : 1 ≤ s.limits.maxProvidersPerKey) :
    s.WithinCaps ↔ s.Bounded := by
  have hcap : max 1 s.limits.maxProvidersPerKey = s.limits.maxProvidersPerKey := max_eq_right hmax
  constructor
  · intro h
    exact ⟨by rw [hcap]; exact h.per_key, h.total⟩
  · intro h
    have hper := h.per_key
    rw [hcap] at hper
    exact ⟨hper, h.total⟩

theorem wellFormed_withLimits (limits : ProviderStoreLimits) :
    (withLimits limits).WellFormed := by
  constructor <;> simp [withLimits, entry]

theorem withinCaps_withLimits (limits : ProviderStoreLimits) :
    (withLimits limits).WithinCaps := by
  constructor <;> simp [withLimits, len]

theorem bounded_withLimits (limits : ProviderStoreLimits) : (withLimits limits).Bounded := by
  constructor <;> simp [withLimits, len]

/-- What holds of every inner map survives the replacement of one. -/
theorem forall_inner_setProviders {P : FMap String ProviderEntry → Prop} {s : ProviderStore}
    (hs : ∀ k ps, s.byKey.lookup k = some ps → P ps) {k : String}
    {ps : FMap String ProviderEntry} (hps : P ps) (k' : String) (qs : FMap String ProviderEntry)
    (h : (s.setProviders k ps).byKey.lookup k' = some qs) : P qs := by
  rcases FMap.lookup_insert_cases h with rfl | hold
  · exact hps
  · exact hs k' qs hold

/-- No step leaves an empty inner map behind. -/
theorem inner_nonempty_step {s : ProviderStore}
    (hs : ∀ k ps, s.byKey.lookup k = some ps → 0 < FMap.size ps) (op : StoreOp)
    (k : String) (ps : FMap String ProviderEntry)
    (h : (step s op).byKey.lookup k = some ps) : 0 < FMap.size ps := by
  have hset := @forall_inner_setProviders (fun ps => 0 < FMap.size ps) s hs
  cases op with
  | putAt r now =>
    simp only [step] at h
    obtain ⟨e, -, hput⟩ | ⟨-, hput⟩ | ⟨qs, -, -, -, hput⟩ := s.putAt_cases r now <;>
      rw [hput] at h
    · exact hset (FMap.size_pos_of_lookup (AList.lookup_insert _)) k ps h
    · exact hs k ps h
    · exact hset (FMap.size_pos_of_lookup (AList.lookup_insert _)) k ps h
  | gc now =>
    simp only [step, gc, FMap.lookup_filterMap, Option.bind_eq_some_iff] at h
    obtain ⟨qs, -, hsweep⟩ := h
    unfold sweep at hsweep
    split at hsweep
    · cases hsweep
    · rename_i hne
      cases hsweep
      exact Nat.pos_of_ne_zero hne
  | remove k' x' =>
    simp only [step] at h
    rcases s.remove_cases k' x' with ⟨-, heq⟩ | ⟨qs, -, ⟨-, heq⟩ | ⟨hpos, heq⟩⟩ <;> rw [heq] at h
    · exact hs k ps h
    · exact hs k ps (FMap.lookup_of_lookup_erase h)
    · exact hset hpos k ps h
  | removeKey k' => exact hs k ps (FMap.lookup_of_lookup_erase h)
  | get _ _ => exact hs k ps h
  | snapshot _ _ => exact hs k ps h
  | markAnnounced _ => exact hs k ps h
  | markAnnouncedWithCollateral _ _ => exact hs k ps h
  | unmarkAnnounced _ => exact hs k ps h

theorem wellFormed_step {s : ProviderStore} (hs : s.WellFormed) (op : StoreOp) :
    (step s op).WellFormed where
  inner_nonempty := inner_nonempty_step hs.inner_nonempty op
  key_agrees := by
    intro k x e he
    rcases entry_step_cases he with ⟨h, -⟩ | ⟨_, _, _, -, rfl, rfl, -, rfl, -⟩ |
      ⟨_, _, -, rfl, rfl, -, rfl, -⟩
    · exact hs.key_agrees k x e h
    · exact ⟨rfl, rfl⟩
    · exact ⟨rfl, rfl⟩
  seq_lt := by
    intro k x e he
    rcases entry_step_cases he with ⟨h, hle⟩ | ⟨e₀, _, _, -, -, -, h, rfl, hseq⟩ |
      ⟨_, _, -, -, -, -, rfl, hseq⟩
    · exact lt_of_lt_of_le (hs.seq_lt k x e h) hle
    · rw [hseq]; exact hs.seq_lt k x e₀ h
    · rw [hseq]; exact Nat.lt_succ_self _
  seq_injective := by
    -- An entry after the step either keeps the ordinal of the entry that was
    -- there, or is the newcomer and carries the counter itself.
    have horigin : ∀ k x e, (step s op).entry k x = some e →
        (∃ e₀, s.entry k x = some e₀ ∧ e₀.admittedSeq = e.admittedSeq) ∨
        (e.admittedSeq = s.nextAdmittedSeq ∧
          ∃ r now, op = .putAt r now ∧ r.contentKey = k ∧ r.providerPeerId = x) := by
      intro k x e he
      rcases entry_step_cases he with ⟨h, -⟩ | ⟨e₀, _, _, -, -, -, h, rfl, -⟩ |
        ⟨r, now, hop, hk, hx, -, rfl, -⟩
      · exact Or.inl ⟨e, h, rfl⟩
      · exact Or.inl ⟨e₀, h, rfl⟩
      · exact Or.inr ⟨rfl, r, now, hop, hk, hx⟩
    intro k x e k' x' e' he he' hseq
    rcases horigin k x e he with ⟨e₀, h₀, hs₀⟩ | ⟨hn, r, now, hop, rfl, rfl⟩ <;>
      rcases horigin k' x' e' he' with ⟨e₁, h₁, hs₁⟩ | ⟨hn', r', now', hop', rfl, rfl⟩
    · exact hs.seq_injective _ _ _ _ _ _ h₀ h₁ (by rw [hs₀, hs₁, hseq])
    · have hlt := hs.seq_lt _ _ _ h₀
      omega
    · have hlt := hs.seq_lt _ _ _ h₁
      omega
    · cases hop.symm.trans hop'
      exact ⟨rfl, rfl⟩

theorem wellFormed_exec {s : ProviderStore} (hs : s.WellFormed) (ops : List StoreOp) :
    (exec step s ops).WellFormed :=
  exec_invariant (Q := WellFormed) (fun _ op hs => wellFormed_step hs op) hs ops

/-- A read names no provider twice. -/
theorem nodup_get {s : ProviderStore} (hs : s.WellFormed) (k : String) (now : Nat) :
    ((s.get k now).map ProviderRecord.providerPeerId).Nodup := by
  unfold get
  cases hk : s.byKey.lookup k with
  | none => simp
  | some ps =>
    have hkeys : (FMap.values ps).map (fun e => e.record.providerPeerId) = ps.keys := by
      refine FMap.map_values_eq_keys ?_
      intro x e he
      exact (hs.key_agrees k x e (by rw [entry_of_lookup hk, he])).2
    have hall : (((FMap.values ps).map (·.record)).map
        ProviderRecord.providerPeerId).Nodup := by
      rw [List.map_map]
      exact hkeys ▸ ps.keys_nodup
    exact ((List.filter_sublist (p := fun r => !r.isExpired now)).map _).nodup hall

/-! ### The eviction victim -/

/-- The victim is an entry of the key, and it is expired or stands behind
the established floor. -/
theorem evictionVictim_spec {ps : FMap String ProviderEntry} {max now : Nat} {victim : String}
    (h : evictionVictim ps max now = some victim) :
    ∃ e ∈ FMap.values ps, e.record.providerPeerId = victim ∧
      (e.record.isExpired now = true ∨
        e ∈ (sortByKey ProviderEntry.admittedSeq (FMap.values ps)).drop
          (max / establishedFloorDivisor)) := by
  simp only [evictionVictim] at h
  split at h
  · rename_i dead hdead
    cases h
    have hmem := List.mem_filter.mp (List.argmin_mem hdead)
    exact ⟨dead, (mem_sortByKey _).mp hmem.1, rfl, Or.inl hmem.2⟩
  · obtain ⟨e, he, rfl⟩ := Option.map_eq_some_iff.mp h
    have hmem := List.argmin_mem he
    exact ⟨e, (mem_sortByKey _).mp (List.mem_of_mem_drop hmem), rfl, Or.inr hmem⟩

/-- A key that holds more than the floor always has a victim. -/
theorem evictionVictim_ne_none {ps : FMap String ProviderEntry} {max : Nat} (now : Nat)
    (h : max / establishedFloorDivisor < FMap.size ps) : evictionVictim ps max now ≠ none := by
  simp only [evictionVictim]
  split
  · simp
  · intro hnone
    have hdrop := List.argmin_eq_none.mp (Option.map_eq_none_iff.mp hnone)
    have hlen := List.drop_eq_nil_iff.mp hdrop
    simp only [length_sortByKey, FMap.values, List.length_map] at hlen
    exact absurd h (Nat.not_lt.mpr hlen)

/-- The victim is removed under its own id. -/
theorem lookup_victim {s : ProviderStore} (hs : s.WellFormed) {k : String} {max now : Nat}
    {victim : String} (h : evictionVictim (s.providersOf k) max now = some victim) :
    ∃ e, s.entry k victim = some e ∧ (e.record.isExpired now = true ∨
      e ∈ (sortByKey ProviderEntry.admittedSeq (FMap.values (s.providersOf k))).drop
        (max / establishedFloorDivisor)) := by
  obtain ⟨e, hmem, rfl, hwhere⟩ := evictionVictim_spec h
  obtain ⟨x, hx⟩ := mem_values_providersOf.mp hmem
  have hagree := (hs.key_agrees k x e hx).2
  exact ⟨e, by rw [hagree]; exact hx, hwhere⟩

/-! ### The caps -/

theorem len_eq_of_key (s : ProviderStore) (k : String) :
    s.len = FMap.size (s.providersOf k) + FMap.sumBy FMap.size (s.byKey.erase k) := by
  cases hk : s.byKey.lookup k with
  | none => simp [len, providersOf, hk, FMap.erase_of_lookup_none]
  | some ps => simp [len, providersOf, hk, FMap.sumBy_erase FMap.size hk]

theorem len_setProviders (s : ProviderStore) (k : String) (ps : FMap String ProviderEntry) :
    (s.setProviders k ps).len + FMap.size (s.providersOf k) = s.len + FMap.size ps := by
  rw [len_eq_of_key s k]
  simp only [len, setProviders, FMap.sumBy_insert]
  omega

theorem len_setProviders_le {s : ProviderStore} {k : String} {ps : FMap String ProviderEntry}
    (h : FMap.size ps ≤ FMap.size (s.providersOf k)) : (s.setProviders k ps).len ≤ s.len := by
  have hlen := len_setProviders s k ps
  omega

theorem size_live_le (now : Nat) (ps : FMap String ProviderEntry) :
    FMap.size (live now ps) ≤ FMap.size ps :=
  FMap.size_filterMap_le _ ps

theorem size_of_sweep {now : Nat} {ps qs : FMap String ProviderEntry}
    (h : sweep now ps = some qs) : FMap.size qs ≤ FMap.size ps := by
  unfold sweep at h
  split at h
  · cases h
  · cases h; exact size_live_le now ps

/-- The inner map a newcomer is added to has room for it. -/
theorem size_makeRoom_lt {s : ProviderStore} (hs : s.WellFormed) (hcaps : s.Bounded)
    {k : String} {now : Nat} {ps : FMap String ProviderEntry} (h : s.makeRoom k now = some ps) :
    FMap.size ps < max 1 s.limits.maxProvidersPerKey ∧
      FMap.size ps ≤ FMap.size (s.providersOf k) := by
  rcases makeRoom_cases h with ⟨rfl, hk | hlt⟩ | ⟨victim, hfull, hvictim, rfl⟩
  · simp only [providersOf, hk, Option.getD_none, FMap.size_empty]
    omega
  · omega
  · obtain ⟨e, he, -⟩ := lookup_victim hs hvictim
    obtain ⟨qs, hqs, -⟩ := exists_lookup_of_entry he
    have hcap := hcaps.per_key k qs hqs
    rw [← lookup_providersOf] at he
    have hsize := FMap.size_erase_of_some he
    have hsame : s.providersOf k = qs := by simp [providersOf, hqs]
    rw [hsame] at hsize ⊢
    omega

theorem size_providersOf_le {s : ProviderStore} (hcaps : s.Bounded) (k : String) :
    FMap.size (s.providersOf k) ≤ max 1 s.limits.maxProvidersPerKey := by
  cases hk : s.byKey.lookup k with
  | none => simp [providersOf, hk]
  | some ps => simpa [providersOf, hk] using hcaps.per_key k ps hk

/-- Dropping a key stays within the caps. -/
theorem Bounded.erase {s : ProviderStore} (hcaps : s.Bounded) (k : String) :
    { s with byKey := s.byKey.erase k }.Bounded where
  per_key k' ps h := hcaps.per_key k' ps (FMap.lookup_of_lookup_erase h)
  total := le_trans (FMap.sumBy_erase_le FMap.size s.byKey k) hcaps.total

/-- Replacing an inner map by one that is not larger stays within the caps. -/
theorem Bounded.setProviders {s : ProviderStore} (hcaps : s.Bounded) {k : String}
    {ps : FMap String ProviderEntry} (hps : FMap.size ps ≤ FMap.size (s.providersOf k)) :
    (s.setProviders k ps).Bounded where
  per_key := forall_inner_setProviders hcaps.per_key
    (le_trans hps (size_providersOf_le hcaps k))
  total := le_trans (len_setProviders_le hps) hcaps.total

theorem bounded_putAt {s : ProviderStore} (hs : s.WellFormed) (hcaps : s.Bounded)
    (r : ProviderRecord) (now : Nat) : (s.putAt r now).1.Bounded := by
  obtain ⟨e, he, hput⟩ | ⟨-, hput⟩ | ⟨ps, hnone, htotal, hroom, hput⟩ := s.putAt_cases r now <;>
    rw [hput]
  · -- A refresh replaces a value under a present key: no size changes.
    rw [← lookup_providersOf] at he
    exact hcaps.setProviders (FMap.size_insert_of_some he { e with record := r }).le
  · exact hcaps
  · have hfresh : ps.lookup r.providerPeerId = none := by
      by_contra hne
      obtain ⟨e, he⟩ := Option.ne_none_iff_exists'.mp hne
      rw [entry_of_makeRoom hroom he] at hnone
      cases hnone
    have hsize := FMap.size_insert_of_none hfresh ⟨r, s.nextAdmittedSeq⟩
    obtain ⟨hlt, hle⟩ := size_makeRoom_lt hs hcaps hroom
    have hlen := len_setProviders s r.contentKey
      (ps.insert r.providerPeerId ⟨r, s.nextAdmittedSeq⟩)
    refine ⟨forall_inner_setProviders hcaps.per_key (by omega), ?_⟩
    show (s.setProviders r.contentKey _).len ≤ s.limits.maxTotalRecords
    omega

theorem bounded_step {s : ProviderStore} (hs : s.WellFormed) (hcaps : s.Bounded)
    (op : StoreOp) : (step s op).Bounded := by
  cases op with
  | putAt r now => exact bounded_putAt hs hcaps r now
  | gc now =>
    refine ⟨?_, le_trans ?_ hcaps.total⟩
    · intro k ps h
      simp only [step, gc, FMap.lookup_filterMap, Option.bind_eq_some_iff] at h
      obtain ⟨qs, hqs, hsweep⟩ := h
      exact le_trans (size_of_sweep hsweep) (hcaps.per_key k qs hqs)
    · exact FMap.sumBy_filterMap_le FMap.size FMap.size (fun _ => sweep now)
        (fun _ _ _ h => size_of_sweep h) s.byKey
  | remove k' x' =>
    simp only [step]
    rcases s.remove_cases k' x' with ⟨-, heq⟩ | ⟨qs, hk, ⟨-, heq⟩ | ⟨-, heq⟩⟩ <;> rw [heq]
    · exact hcaps
    · exact hcaps.erase k'
    · have hqs : s.providersOf k' = qs := by simp [providersOf, hk]
      refine hcaps.setProviders ?_
      rw [hqs]
      exact FMap.size_erase_le qs x'
  | removeKey k' => exact hcaps.erase k'
  | get _ _ => exact hcaps
  | snapshot _ _ => exact hcaps
  | markAnnounced _ => exact ⟨hcaps.per_key, hcaps.total⟩
  | markAnnouncedWithCollateral _ _ => exact ⟨hcaps.per_key, hcaps.total⟩
  | unmarkAnnounced _ => exact ⟨hcaps.per_key, hcaps.total⟩

theorem bounded_exec (limits : ProviderStoreLimits) (ops : List StoreOp) :
    (exec step (withLimits limits) ops).WellFormed ∧
      (exec step (withLimits limits) ops).Bounded := by
  refine exec_invariant (Q := fun s : ProviderStore => s.WellFormed ∧ s.Bounded) ?_
    ⟨wellFormed_withLimits limits, bounded_withLimits limits⟩ ops
  intro s op h
  obtain ⟨hs, hcaps⟩ := h
  exact ⟨wellFormed_step hs op, bounded_step hs hcaps op⟩

theorem withinCaps_step {s : ProviderStore} (hs : s.WellFormed) (hcaps : s.WithinCaps)
    (hmax : 1 ≤ s.limits.maxProvidersPerKey) (op : StoreOp) : (step s op).WithinCaps := by
  have hlimits : (step s op).limits = s.limits := limits_step s op
  rw [withinCaps_iff_bounded hmax] at hcaps
  rw [withinCaps_iff_bounded (by rwa [hlimits])]
  exact bounded_step hs hcaps op

/-- The guard branch of `put_at` is unreachable: a key at its cap holds
more than half its cap. -/
theorem makeRoom_ne_none {s : ProviderStore} (hs : s.WellFormed) (k : String) (now : Nat) :
    s.makeRoom k now ≠ none := by
  unfold makeRoom
  cases hk : s.byKey.lookup k with
  | none => simp
  | some ps =>
    by_cases hfull : s.limits.maxProvidersPerKey ≤ FMap.size ps
    · have hfloor : s.limits.maxProvidersPerKey / establishedFloorDivisor < FMap.size ps := by
        have hpos := hs.inner_nonempty k ps hk
        simp only [establishedFloorDivisor]
        omega
      obtain ⟨victim, hv⟩ :=
        Option.ne_none_iff_exists'.mp (evictionVictim_ne_none now hfloor)
      simp [hfull, hv]
    · simp [hfull]

/-- The invariant as one statement about a state. -/
structure Representation (s : ProviderStore) : Prop extends s.WellFormed, s.WithinCaps where
  guard_unreachable : ∀ k now, s.makeRoom k now ≠ none

/-- **The representation and capacity invariant** holds in every state of
every run from the empty store. -/
theorem representation_invariant (limits : ProviderStoreLimits)
    (hmax : 1 ≤ limits.maxProvidersPerKey) (ops : List StoreOp) :
    Always step Representation (withLimits limits) ops := by
  have hinv : Always step
      (fun s => s.WellFormed ∧ s.WithinCaps ∧ 1 ≤ s.limits.maxProvidersPerKey)
      (withLimits limits) ops := by
    refine always_of_step ?_
      ⟨wellFormed_withLimits limits, withinCaps_withLimits limits, hmax⟩ ops
    intro s op h
    obtain ⟨hs, hcaps, h1⟩ := h
    exact ⟨wellFormed_step hs op, withinCaps_step hs hcaps h1 op, by rwa [limits_step]⟩
  refine hinv.imp ?_
  intro s h
  obtain ⟨hs, hcaps, h1⟩ := h
  exact ⟨hs, hcaps, makeRoom_ne_none hs⟩

/-- A run through every mutating operation, with an eviction at the
per-key cap and a rejection at the global one. -/
theorem representation_invariant_run :
    let announce (key provider : String) (expiresAt now : Nat) : StoreOp :=
      .putAt ⟨key, provider, [], expiresAt, none⟩ now
    Always step Representation (withLimits ⟨2, 3⟩)
      [announce "a" "p" 5 0, announce "a" "q" 6 0, announce "a" "r" 7 1, announce "b" "p" 9 1,
        announce "c" "p" 9 1, .gc 6, .remove "b" "p", .removeKey "a", .markAnnounced "a",
        .unmarkAnnounced "a"] :=
  representation_invariant ⟨2, 3⟩ (by decide) _

end ProviderStore

end DigDht.Store
