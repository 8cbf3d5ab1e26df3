/-
DigDht.Service.MergeTheorems — `merge_dedup_by_provider`.

The `retain` tests expiry FIRST and only then inserts into its seen-set,
so a dead record never enters the set: the merge is the first occurrence
of each provider among the live records (`dedupLive_eq`). What it keeps
and drops follows from that; the order of the two lists is kept.
-/
import DigDht.Service.Service

namespace DigDht.Service

open Record Selection

/-- The `retain` is: the live records, the first one of each provider. -/
theorem dedupLive_eq (now : Nat) (seen : Finset String) (l : List ProviderRecord) :
    dedupLive now seen l =
      keepFirst ProviderRecord.providerPeerId seen (l.filter fun r => !r.isExpired now) := by
  induction l generalizing seen with
  | nil => rfl
  | cons r rest ih =>
    unfold dedupLive
    by_cases hlive : r.isExpired now = false
    · rw [List.filter_cons_of_pos (by simpa using hlive), keepFirst]
      by_cases hseen : r.providerPeerId ∈ seen
      · simp [hseen, ih]
      · simp [hseen, hlive, ih]
    · rw [List.filter_cons_of_neg (by simpa using hlive)]
      simp [hlive, ih]

theorem mem_dedupLive {now : Nat} {seen : Finset String} {l : List ProviderRecord}
    {r : ProviderRecord} (h : r ∈ dedupLive now seen l) : r ∈ l ∧ r.isExpired now = false := by
  rw [dedupLive_eq] at h
  have hlive := (keepFirst_sublist _ _ _).subset h
  simpa using hlive

/-- The merge names no provider twice. -/
theorem nodup_dedupLive (now : Nat) (seen : Finset String) (l : List ProviderRecord) :
    ((dedupLive now seen l).map ProviderRecord.providerPeerId).Nodup := by
  rw [dedupLive_eq]
  exact nodup_keepFirst _ _ _

/-- A provider not seen before is kept if it has a live record at all. -/
theorem exists_mem_dedupLive {now : Nat} {seen : Finset String} {l : List ProviderRecord}
    {r : ProviderRecord} (hr : r ∈ l) (hlive : r.isExpired now = false)
    (hseen : r.providerPeerId ∉ seen) :
    ∃ r' ∈ dedupLive now seen l, r'.providerPeerId = r.providerPeerId := by
  have hmem : r ∈ l.filter fun r => !r.isExpired now := by simp [hr, hlive]
  rw [dedupLive_eq]
  exact List.mem_map.mp
    ((mem_map_keepFirst _).mpr ⟨List.mem_map_of_mem hmem, hseen⟩)

/-- The merge has a live record for a provider exactly when one of its
two inputs has. -/
theorem exists_mem_merge_iff (authoritative extra : List ProviderRecord) (now : Nat) (x : String) :
    (∃ r ∈ mergeDedupByProvider authoritative extra now,
        r.providerPeerId = x ∧ r.isExpired now = false) ↔
      (∃ r ∈ authoritative, r.providerPeerId = x ∧ r.isExpired now = false) ∨
        ∃ r ∈ extra, r.providerPeerId = x ∧ r.isExpired now = false := by
  have hkept : ∀ r ∈ authoritative ++ extra, r.providerPeerId = x → r.isExpired now = false →
      ∃ r ∈ mergeDedupByProvider authoritative extra now,
        r.providerPeerId = x ∧ r.isExpired now = false := by
    intro r hr heq hlive
    subst heq
    obtain ⟨r', hr', hid⟩ := exists_mem_dedupLive hr hlive (Finset.notMem_empty _)
    exact ⟨r', hr', hid, (mem_dedupLive hr').2⟩
  constructor
  · intro h
    obtain ⟨r, hr, hx, hlive⟩ := h
    rcases List.mem_append.mp (mem_dedupLive hr).1 with hmem | hmem
    · exact Or.inl ⟨r, hmem, hx, hlive⟩
    · exact Or.inr ⟨r, hmem, hx, hlive⟩
  · intro h
    rcases h with ⟨r, hr, hx, hlive⟩ | ⟨r, hr, hx, hlive⟩
    · exact hkept r (List.mem_append_left _ hr) hx hlive
    · exact hkept r (List.mem_append_right _ hr) hx hlive

/-- Of each provider the merge has the first live record, and no other. -/
theorem filter_merge (authoritative extra : List ProviderRecord) (now : Nat) (x : String) :
    (mergeDedupByProvider authoritative extra now).filter (fun r => r.providerPeerId = x) =
      ((authoritative ++ extra).find? fun r =>
        r.isExpired now = false ∧ r.providerPeerId = x).toList := by
  rw [mergeDedupByProvider, dedupLive_eq, filter_keepFirst _ (Finset.notMem_empty x),
    List.find?_filter]
  congr 2
  funext r
  cases r.isExpired now <;> simp

/-- **The strongest live claim is kept.** The merge is a part of the
authoritative list followed by a part of the extra one, both in their
order; all of it is live; and of each provider it has exactly the first
record of the two lists, taken in that order, that is live. A dead record
in front of it changes nothing. -/
theorem merge_keeps_first_live (authoritative extra : List ProviderRecord) (now : Nat) :
    let merged := mergeDedupByProvider authoritative extra now
    (∃ first second, merged = first ++ second ∧ first.Sublist authoritative ∧
      second.Sublist extra) ∧
    (∀ r ∈ merged, r.isExpired now = false) ∧
    (∀ x, merged.filter (fun r => r.providerPeerId = x) =
      ((authoritative ++ extra).find? fun r =>
        r.isExpired now = false ∧ r.providerPeerId = x).toList) ∧
    ∀ r ∈ authoritative ++ extra, r.isExpired now = false →
      ∃ r', merged.filter (fun s => s.providerPeerId = r.providerPeerId) = [r'] := by
  intro merged
  refine ⟨?_, ?_, filter_merge authoritative extra now, ?_⟩
  · have hsub : merged.Sublist (authoritative ++ extra) := by
      have hkept := keepFirst_sublist ProviderRecord.providerPeerId ∅
        ((authoritative ++ extra).filter fun r => !r.isExpired now)
      rw [← dedupLive_eq] at hkept
      exact hkept.trans List.filter_sublist
    obtain ⟨first, second, heq, hfirst, hsecond⟩ := List.sublist_append_iff.mp hsub
    exact ⟨first, second, heq, hfirst, hsecond⟩
  · intro r hr
    exact (mem_dedupLive hr).2
  · intro r hr hlive
    rw [filter_merge]
    have hsome : ((authoritative ++ extra).find? fun s =>
        s.isExpired now = false ∧ s.providerPeerId = r.providerPeerId).isSome := by
      rw [List.find?_isSome]
      exact ⟨r, hr, by simpa using hlive⟩
    obtain ⟨r', hr'⟩ := Option.isSome_iff_exists.mp hsome
    exact ⟨r', by rw [hr']; rfl⟩

end DigDht.Service
