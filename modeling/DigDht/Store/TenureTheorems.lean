/-
DigDht.Store.TenureTheorems — a key with room for everybody.

The established floor protects half of a full key
(`DigDht.Store.IncumbentTheorems`). A key never fills where no more
providers than its cap have a claim on it: a newcomer then always finds
a free slot (`makeRoom_of_tenured`). So nobody is evicted, and who is
stored stays stored until it expires or is removed on request
(`kept_exec`).
-/
import DigDht.Store.AdmissionTheorems

namespace DigDht.Store

open Record Selection Runs

namespace ProviderStore

/-- An operation under which the providers of `k` last until `t`: what it
puts under `k` does, it removes nothing there, and it sweeps earlier. -/
def Upholds (k : String) (t : Nat) : StoreOp → Prop
  | .putAt r _ => r.contentKey = k → t ≤ r.expiresAt
  | .remove k' _ => k' ≠ k
  | .removeKey k' => k' ≠ k
  | .gc now => now < t
  | _ => True

instance decidableUpholds (k : String) (t : Nat) : ∀ op, Decidable (Upholds k t op)
  | .putAt r _ => inferInstanceAs (Decidable (r.contentKey = k → t ≤ r.expiresAt))
  | .remove k' _ | .removeKey k' => inferInstanceAs (Decidable (k' ≠ k))
  | .gc now => inferInstanceAs (Decidable (now < t))
  | .get _ _ | .snapshot _ _ | .markAnnounced _ | .markAnnouncedWithCollateral _ _
  | .unmarkAnnounced _ => isTrue trivial

/-- `k` is provided by some of `ids` only, who all fit under its cap, and
by each until `t` at least. -/
structure Tenured (ids : List String) (k : String) (t : Nat) (s : ProviderStore) : Prop where
  room : ids.length ≤ s.limits.maxProvidersPerKey
  among : ∀ x e, s.entry k x = some e → x ∈ ids
  lasting : ∀ x e, s.entry k x = some e → t ≤ e.record.expiresAt

/-- The operation puts nobody under `k` but some of `ids`. -/
def PutsAmong (ids : List String) (k : String) (op : StoreOp) : Prop :=
  ∀ r now, op = .putAt r now → r.contentKey = k → r.providerPeerId ∈ ids

variable {ids : List String} {k : String} {t : Nat} {s : ProviderStore}

theorem tenured_withLimits {limits : ProviderStoreLimits}
    (h : ids.length ≤ limits.maxProvidersPerKey) : (withLimits limits).Tenured ids k t where
  room := h
  among := by simp [withLimits, entry]
  lasting := by simp [withLimits, entry]

/-- A newcomer with a claim finds room. -/
theorem makeRoom_of_tenured (h : s.Tenured ids k t) {x : String} (hx : x ∈ ids)
    (hnew : s.entry k x = none) {now : Nat} {ps : FMap String ProviderEntry}
    (hroom : s.makeRoom k now = some ps) : ps = s.providersOf k := by
  rcases makeRoom_cases hroom with ⟨heq, -⟩ | ⟨victim, hfull, -, -⟩
  · exact heq
  · have hfresh : x ∉ (s.providersOf k).keys := by
      intro hmem
      obtain ⟨e, he⟩ := FMap.mem_keys_iff.mp hmem
      rw [lookup_providersOf, hnew] at he
      cases he
    have hsub : x :: (s.providersOf k).keys ⊆ ids := by
      refine List.cons_subset.mpr ⟨hx, ?_⟩
      intro y hy
      obtain ⟨e, he⟩ := FMap.mem_keys_iff.mp hy
      rw [lookup_providersOf] at he
      exact h.among y e he
    have hnodup : (x :: (s.providersOf k).keys).Nodup :=
      List.nodup_cons.mpr ⟨hfresh, (s.providersOf k).keys_nodup⟩
    have hcount := (hnodup.subperm hsub).length_le
    have hsize : (s.providersOf k).keys.length = FMap.size (s.providersOf k) := by
      simp [AList.keys, List.keys, FMap.size]
    rw [List.length_cons, hsize] at hcount
    have hcap := h.room
    omega

theorem tenured_step (h : s.Tenured ids k t) {op : StoreOp} (hop : Upholds k t op)
    (hputs : PutsAmong ids k op) : (step s op).Tenured ids k t := by
  refine ⟨by rw [limits_step]; exact h.room, ?_, ?_⟩
  · intro x e he
    rcases entry_step_cases he with ⟨hold, -⟩ | ⟨_, r, now, rfl, hk, rfl, -, -, -⟩ |
      ⟨r, now, rfl, hk, rfl, -, -, -⟩
    · exact h.among x e hold
    · exact hputs r now rfl hk
    · exact hputs r now rfl hk
  · intro x e he
    rcases entry_step_cases he with ⟨hold, -⟩ | ⟨_, r, now, rfl, hk, -, -, rfl, -⟩ |
      ⟨r, now, rfl, hk, -, -, rfl, -⟩
    · exact h.lasting x e hold
    · exact hop hk
    · exact hop hk

/-- Nobody who provides the key is lost. -/
theorem kept_step (h : s.Tenured ids k t) {op : StoreOp} (hop : Upholds k t op)
    (hputs : PutsAmong ids k op) {x : String} (hx : (s.entry k x).isSome) :
    ((step s op).entry k x).isSome := by
  cases op with
  | putAt r now =>
    simp only [step]
    obtain ⟨e, he, hput⟩ | ⟨-, hput⟩ | ⟨ps, hnone, -, hroom, hput⟩ := s.putAt_cases r now <;>
      rw [hput]
    · rw [entry_refresh]
      split
      · rfl
      · exact hx
    · exact hx
    · rw [entry_admitNew]
      split
      · rename_i hk
        subst hk
        split
        · rfl
        · rwa [makeRoom_of_tenured h (hputs r now rfl rfl) hnone hroom, lookup_providersOf]
      · exact hx
  | gc now =>
    obtain ⟨e, he⟩ := Option.isSome_iff_exists.mp hx
    have hlive : e.record.isExpired now = false := by
      have hlast := h.lasting x e he
      simp only [Upholds] at hop
      simp only [ProviderRecord.isExpired, decide_eq_false_iff_not]
      omega
    simp [step, entry_gc, he, Option.filter, hlive]
  | remove k' x' =>
    have hother : ¬(k = k' ∧ x = x') := fun heq => hop heq.1.symm
    simpa only [step, entry_remove, if_neg hother] using hx
  | removeKey k' =>
    have hother : k ≠ k' := fun heq => hop heq.symm
    simpa only [step, entry_removeKey, if_neg hother] using hx
  | get _ _ => exact hx
  | snapshot _ _ => exact hx
  | markAnnounced _ => exact hx
  | markAnnouncedWithCollateral _ _ => exact hx
  | unmarkAnnounced _ => exact hx

/-- The same of several operations. -/
theorem kept_exec {ops : List StoreOp} (hops : ∀ op ∈ ops, Upholds k t op ∧ PutsAmong ids k op)
    (h : s.Tenured ids k t) :
    (exec step s ops).Tenured ids k t ∧
      ∀ x, (s.entry k x).isSome → ((exec step s ops).entry k x).isSome := by
  refine exec_invariant_mem (Q := fun s' : ProviderStore => s'.Tenured ids k t ∧
    ∀ x, (s.entry k x).isSome → (s'.entry k x).isSome) ?_ ⟨h, fun x hx => hx⟩
  intro s' op hmem hs'
  obtain ⟨hop, hputs⟩ := hops op hmem
  exact ⟨tenured_step hs'.1 hop hputs, fun x hx => kept_step hs'.1 hop hputs (hs'.2 x hx)⟩

/-- Who provides the key is found. -/
theorem exists_mem_get (hs : s.WellFormed) (h : s.Tenured ids k t) {x : String}
    (hx : (s.entry k x).isSome) {now : Nat} (hnow : now < t) :
    ∃ r ∈ s.get k now, r.contentKey = k ∧ r.providerPeerId = x := by
  obtain ⟨e, he⟩ := Option.isSome_iff_exists.mp hx
  have hlast := h.lasting x e he
  have hlive : e.record.isExpired now = false := by
    simp only [ProviderRecord.isExpired, decide_eq_false_iff_not]
    omega
  exact ⟨e.record, mem_get_of_entry he hlive, hs.key_agrees k x e he⟩

end ProviderStore

end DigDht.Store
