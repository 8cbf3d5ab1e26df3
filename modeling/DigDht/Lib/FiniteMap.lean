/-
DigDht.Lib.FiniteMap — hash maps as Mathlib's `AList`.

A hash map without its buckets is a list of key/value pairs with no key
twice, which is `AList`: the `nodupKeys` field makes a map with a
duplicate key unbuildable. Mathlib has lookup, insert and erase; this
module adds what iteration needs — `size`, `values`, the `filterMap`
behind an in-place sweep, and how a SUM over the values changes under an
insert and an erase (which is what a total over a nested map is).

The iteration order of a hash map is unspecified. Here it is the entry
order; every lemma below reads a map through `lookup`, membership, or a
sum, none of which sees the order.
-/
import Mathlib.Data.List.AList
import Mathlib.Algebra.BigOperators.Group.List.Basic
import Mathlib.Data.Set.Card

/-- A map with keys `κ` and values `α`. -/
abbrev FMap (κ α : Type) := AList (fun _ : κ => α)

namespace FMap

variable {κ α β : Type}

/-- The number of entries. -/
def size (m : FMap κ α) : Nat :=
  m.entries.length

/-- The values, in iteration order. -/
def values (m : FMap κ α) : List α :=
  m.entries.map Sigma.snd

/-- The sum of `f` over the values. -/
def sumBy (f : α → Nat) (m : FMap κ α) : Nat :=
  (m.values.map f).sum

/-- Rewrite every value, dropping the entries `f` maps to `none`. -/
def filterMap (f : κ → α → Option β) (m : FMap κ α) : FMap κ β where
  entries := m.entries.filterMap fun e => (f e.1 e.2).map (Sigma.mk e.1)
  nodupKeys := by
    have hpair := List.nodupKeys_iff_pairwise.mp m.nodupKeys
    refine List.nodupKeys_iff_pairwise.mpr (hpair.filterMap _ ?_)
    intro e e' hne d hd d' hd'
    obtain ⟨b, -, rfl⟩ := Option.map_eq_some_iff.mp hd
    obtain ⟨b', -, rfl⟩ := Option.map_eq_some_iff.mp hd'
    exact hne

/-- Drop the entries that fail `p`. -/
def retain (p : κ → α → Bool) (m : FMap κ α) : FMap κ α :=
  filterMap (fun k v => if p k v then some v else none) m

/-! ## Entries and lookups -/

section Lookup

variable [DecidableEq κ]

theorem mk_mem_entries {m : FMap κ α} {k : κ} {v : α} :
    Sigma.mk k v ∈ m.entries ↔ m.lookup k = some v :=
  (List.mem_dlookup_iff m.nodupKeys).symm

theorem mem_values_iff {m : FMap κ α} {v : α} :
    v ∈ values m ↔ ∃ k, m.lookup k = some v := by
  constructor
  · intro h
    obtain ⟨e, he, rfl⟩ := List.mem_map.mp h
    exact ⟨e.1, mk_mem_entries.mp he⟩
  · intro h
    obtain ⟨k, hk⟩ := h
    exact List.mem_map.mpr ⟨⟨k, v⟩, mk_mem_entries.mpr hk, rfl⟩

theorem mem_keys_iff {m : FMap κ α} {k : κ} :
    k ∈ m.keys ↔ ∃ v, m.lookup k = some v := by
  rw [← AList.mem_keys, ← AList.lookup_isSome, Option.isSome_iff_exists]

/-- Where every value carries its key, the values list the keys. -/
theorem map_values_eq_keys {m : FMap κ α} {f : α → κ} (h : ∀ k v, m.lookup k = some v → f v = k) :
    (values m).map f = m.keys := by
  rw [values, List.map_map, AList.keys, List.keys]
  refine List.map_congr_left ?_
  intro e he
  exact h e.1 e.2 (mk_mem_entries.mp he)

theorem lookup_filterMap (f : κ → α → Option β) (m : FMap κ α) (k : κ) :
    (filterMap f m).lookup k = (m.lookup k).bind (f k) := by
  refine Option.ext ?_
  intro b
  rw [← mk_mem_entries]
  simp only [filterMap, List.mem_filterMap, Option.map_eq_some_iff, Option.bind_eq_some_iff]
  constructor
  · intro h
    obtain ⟨⟨k', v⟩, he, b', hf, heq⟩ := h
    cases heq
    exact ⟨v, mk_mem_entries.mp he, hf⟩
  · intro h
    obtain ⟨v, hv, hf⟩ := h
    exact ⟨⟨k, v⟩, mk_mem_entries.mpr hv, b, hf, rfl⟩

theorem lookup_retain (p : κ → α → Bool) (m : FMap κ α) (k : κ) :
    (retain p m).lookup k = (m.lookup k).filter (p k) := by
  rw [retain, lookup_filterMap]
  cases m.lookup k <;> simp [Option.filter]

theorem size_pos_of_lookup {m : FMap κ α} {k : κ} {v : α} (h : m.lookup k = some v) :
    0 < size m :=
  List.length_pos_of_mem (mk_mem_entries.mpr h)

theorem lookup_of_size_eq_zero {m : FMap κ α} (h : size m = 0) (k : κ) : m.lookup k = none := by
  by_contra hne
  obtain ⟨v, hv⟩ := Option.ne_none_iff_exists'.mp hne
  have hpos := size_pos_of_lookup hv
  omega

omit [DecidableEq κ] in
theorem size_pos_iff {m : FMap κ α} : 0 < size m ↔ values m ≠ [] := by
  have hlength : size m = (values m).length := by simp [size, values]
  rw [hlength, List.length_pos_iff]

/-- What is found after an insert was inserted, or was there before. -/
theorem lookup_insert_cases {m : FMap κ α} {k k' : κ} {v v' : α}
    (h : (m.insert k v).lookup k' = some v') : v' = v ∨ m.lookup k' = some v' := by
  by_cases hk : k' = k
  · subst hk
    rw [AList.lookup_insert] at h
    exact Or.inl (Option.some.inj h).symm
  · rw [AList.lookup_insert_ne hk] at h
    exact Or.inr h

theorem lookup_of_lookup_erase {m : FMap κ α} {k k' : κ} {v : α}
    (h : (m.erase k).lookup k' = some v) : m.lookup k' = some v := by
  by_cases hk : k' = k
  · subst hk
    simp at h
  · rwa [AList.lookup_erase_ne hk] at h

@[simp] theorem entries_erase (m : FMap κ α) (k : κ) :
    (m.erase k).entries = m.entries.kerase k := rfl

theorem erase_of_lookup_none {m : FMap κ α} {k : κ} (h : m.lookup k = none) :
    m.erase k = m :=
  AList.ext (List.kerase_of_notMem_keys (AList.lookup_eq_none.mp h))

end Lookup

/-! ## Sums and sizes -/

theorem sumBy_congr {f g : α → Nat} {m : FMap κ α} (h : ∀ v ∈ values m, f v = g v) :
    sumBy f m = sumBy g m := by
  rw [sumBy, List.map_congr_left h, sumBy]

theorem sumBy_add (f g : α → Nat) (m : FMap κ α) :
    sumBy (fun v => f v + g v) m = sumBy f m + sumBy g m := by
  rw [sumBy, sumBy, sumBy]
  exact List.sum_map_add

/-- A sum over the values, taken over the keys. -/
theorem sumBy_eq_keys [DecidableEq κ] (f : α → Nat) (f' : κ → Nat) (m : FMap κ α)
    (h : ∀ k v, m.lookup k = some v → f' k = f v) :
    sumBy f m = (m.keys.map f').sum := by
  rw [sumBy, values, AList.keys, List.keys, List.map_map, List.map_map]
  congr 1
  refine List.map_congr_left ?_
  intro e he
  exact (h e.1 e.2 (mk_mem_entries.mp he)).symm

@[simp] theorem sumBy_empty (f : α → Nat) : sumBy f (∅ : FMap κ α) = 0 := rfl

@[simp] theorem size_empty : size (∅ : FMap κ α) = 0 := rfl

theorem size_eq_sumBy (m : FMap κ α) : size m = sumBy (fun _ => 1) m := by
  simp [size, sumBy, values, Function.comp_def]

theorem size_filterMap_le (f : κ → α → Option β) (m : FMap κ α) :
    size (filterMap f m) ≤ size m :=
  List.length_filterMap_le _ _

/-- A sweep that never enlarges a value does not enlarge the sum. -/
theorem sumBy_filterMap_le (g : β → Nat) (g' : α → Nat) (f : κ → α → Option β)
    (hf : ∀ k v b, f k v = some b → g b ≤ g' v) (m : FMap κ α) :
    sumBy g (filterMap f m) ≤ sumBy g' m := by
  simp only [sumBy, values, filterMap]
  induction m.entries with
  | nil => simp
  | cons e l ih =>
    cases hb : f e.1 e.2 with
    | none =>
      simp only [List.filterMap_cons, hb, Option.map_none, List.map_cons, List.sum_cons]
      omega
    | some b =>
      have hle : g b ≤ g' e.2 := hf _ _ _ hb
      simp only [List.filterMap_cons, hb, Option.map_some, List.map_cons, List.sum_cons]
      omega

/-- A sweep that keeps what a value counts for, and drops only what counts
for nothing, keeps the sum. -/
theorem sumBy_filterMap_eq (g : β → Nat) (g' : α → Nat) (f : κ → α → Option β)
    (hsome : ∀ k v b, f k v = some b → g b = g' v) (hnone : ∀ k v, f k v = none → g' v = 0)
    (m : FMap κ α) : sumBy g (filterMap f m) = sumBy g' m := by
  simp only [sumBy, values, filterMap]
  induction m.entries with
  | nil => simp
  | cons e l ih =>
    cases hb : f e.1 e.2 with
    | none =>
      have hzero : g' e.2 = 0 := hnone _ _ hb
      simp only [List.filterMap_cons, hb, Option.map_none, List.map_cons, List.sum_cons]
      omega
    | some b =>
      have hsame : g b = g' e.2 := hsome _ _ _ hb
      simp only [List.filterMap_cons, hb, Option.map_some, List.map_cons, List.sum_cons]
      omega

theorem entries_retain (p : κ → α → Bool) (m : FMap κ α) :
    (retain p m).entries = m.entries.filter fun e => p e.1 e.2 := by
  simp only [retain, filterMap]
  rw [← List.filterMap_eq_filter]
  refine List.filterMap_congr ?_
  intro e _
  by_cases h : p e.1 e.2 <;> simp [Option.guard, h]

theorem values_retain (p : α → Bool) (m : FMap κ α) :
    values (retain (fun _ => p) m) = (values m).filter p := by
  rw [values, entries_retain, values, List.filter_map]
  rfl

section Sum

variable [DecidableEq κ]

/-- An insert replaces whatever the key held. -/
theorem sumBy_insert (f : α → Nat) (m : FMap κ α) (k : κ) (v : α) :
    sumBy f (m.insert k v) = f v + sumBy f (m.erase k) := by
  simp [sumBy, values]

theorem perm_cons_kerase {l : List (Sigma fun _ : κ => α)} {k : κ} {v : α}
    (h : l.dlookup k = some v) : l.Perm (⟨k, v⟩ :: l.kerase k) := by
  induction l with
  | nil => simp at h
  | cons e l ih =>
    by_cases hk : k = e.1
    · subst hk
      rw [List.dlookup_cons_eq] at h
      cases h
      rw [List.kerase_cons_eq rfl]
    · rw [List.dlookup_cons_ne _ _ hk] at h
      rw [List.kerase_cons_ne hk]
      exact ((ih h).cons e).trans (List.Perm.swap _ _ _)

/-- An erase takes away what the key held. -/
theorem sumBy_erase (f : α → Nat) {m : FMap κ α} {k : κ} {v : α} (h : m.lookup k = some v) :
    sumBy f m = f v + sumBy f (m.erase k) := by
  have hperm := ((perm_cons_kerase h).map Sigma.snd).map f
  simpa [sumBy, values] using hperm.sum_eq

theorem sumBy_erase_le (f : α → Nat) (m : FMap κ α) (k : κ) :
    sumBy f (m.erase k) ≤ sumBy f m := by
  cases h : m.lookup k with
  | none => rw [erase_of_lookup_none h]
  | some v => rw [sumBy_erase f h]; omega

theorem size_insert_of_none {m : FMap κ α} {k : κ} (h : m.lookup k = none) (v : α) :
    size (m.insert k v) = size m + 1 := by
  rw [size_eq_sumBy, sumBy_insert, erase_of_lookup_none h, ← size_eq_sumBy]
  omega

theorem size_insert_of_some {m : FMap κ α} {k : κ} {u : α} (h : m.lookup k = some u) (v : α) :
    size (m.insert k v) = size m := by
  rw [size_eq_sumBy, sumBy_insert, size_eq_sumBy m, sumBy_erase _ h]

theorem size_erase_of_some {m : FMap κ α} {k : κ} {v : α} (h : m.lookup k = some v) :
    size (m.erase k) + 1 = size m := by
  rw [size_eq_sumBy m, sumBy_erase _ h, ← size_eq_sumBy]
  omega

theorem size_erase_le (m : FMap κ α) (k : κ) : size (m.erase k) ≤ size m :=
  (List.kerase_sublist k m.entries).length_le

end Sum

/-! ## Counting the keys whose value satisfies a predicate -/

section Count

variable [DecidableEq κ] (p : α → Prop)

theorem finite_setOf_lookup (m : FMap κ α) :
    {k | ∃ v, m.lookup k = some v ∧ p v}.Finite := by
  refine (m.keys.toFinset.finite_toSet).subset ?_
  intro k h
  obtain ⟨v, hv, -⟩ := h
  exact List.mem_toFinset.mpr (mem_keys_iff.mpr ⟨v, hv⟩)

/-- Counting over the values counts keys, since no key occurs twice. -/
theorem ncard_setOf_lookup [DecidablePred p] (m : FMap κ α) :
    {k | ∃ v, m.lookup k = some v ∧ p v}.ncard = (values m).countP fun v => p v := by
  let kept := m.entries.filter fun e => p e.2
  have hnodup : (kept.map Sigma.fst).Nodup :=
    List.Nodup.sublist (List.filter_sublist.map Sigma.fst) m.nodupKeys
  have hset : {k | ∃ v, m.lookup k = some v ∧ p v} = ((kept.map Sigma.fst).toFinset : Set κ) := by
    ext k
    simp only [Set.mem_ofPred_eq, List.coe_toFinset, List.mem_map]
    constructor
    · intro h
      obtain ⟨v, hv, hp⟩ := h
      exact ⟨⟨k, v⟩, List.mem_filter.mpr ⟨mk_mem_entries.mpr hv, by simpa using hp⟩, rfl⟩
    · intro h
      obtain ⟨e, he, rfl⟩ := h
      have hmem := List.mem_filter.mp he
      exact ⟨e.2, mk_mem_entries.mp hmem.1, by simpa using hmem.2⟩
  rw [hset, Set.ncard_coe_finset, List.toFinset_card_of_nodup hnodup, List.length_map]
  rw [values, List.countP_map, List.countP_eq_length_filter]
  rfl

/-- Counting in every value of a map of maps counts pairs of keys. -/
theorem ncard_setOf_nested {κ' : Type} [DecidableEq κ'] [DecidablePred p]
    (m : FMap κ' (FMap κ α)) :
    {x : κ' × κ | ∃ m' v, m.lookup x.1 = some m' ∧ m'.lookup x.2 = some v ∧ p v}.ncard =
      sumBy (fun m' => (values m').countP fun v => p v) m := by
  let inner (e : Sigma fun _ : κ' => FMap κ α) : List (κ' × κ) :=
    (e.2.entries.filter fun d => p d.2).map fun d => (e.1, d.1)
  have hmem : ∀ e x, x ∈ inner e ↔ e.1 = x.1 ∧ ∃ v, e.2.lookup x.2 = some v ∧ p v := by
    intro e x
    simp only [inner, List.mem_map, List.mem_filter, decide_eq_true_eq]
    constructor
    · intro h
      obtain ⟨d, ⟨hd, hp⟩, rfl⟩ := h
      exact ⟨rfl, d.2, mk_mem_entries.mp hd, hp⟩
    · intro h
      obtain ⟨hfst, v, hv, hp⟩ := h
      exact ⟨⟨x.2, v⟩, ⟨mk_mem_entries.mpr hv, hp⟩, Prod.ext hfst rfl⟩
  have hnodup : (m.entries.flatMap inner).Nodup := by
    refine List.nodup_flatMap.mpr ⟨?_, ?_⟩
    · intro e _
      have hsub : ((e.2.entries.filter fun d => p d.2).map Sigma.fst).Nodup :=
        List.Nodup.sublist (List.filter_sublist.map Sigma.fst) e.2.nodupKeys
      refine List.Nodup.of_map Prod.snd ?_
      simpa [inner, Function.comp_def] using hsub
    · refine (List.nodupKeys_iff_pairwise.mp m.nodupKeys).imp ?_
      intro e e' hne x hx hx'
      exact hne (((hmem e x).mp hx).1.trans ((hmem e' x).mp hx').1.symm)
  have hset : {x : κ' × κ | ∃ m' v, m.lookup x.1 = some m' ∧ m'.lookup x.2 = some v ∧ p v} =
      ((m.entries.flatMap inner).toFinset : Set (κ' × κ)) := by
    ext x
    simp only [Set.mem_ofPred_eq, List.coe_toFinset, List.mem_flatMap]
    constructor
    · intro h
      obtain ⟨m', v, hm', hv, hp⟩ := h
      exact ⟨⟨x.1, m'⟩, mk_mem_entries.mpr hm', (hmem _ _).mpr ⟨rfl, v, hv, hp⟩⟩
    · intro h
      obtain ⟨⟨k, m'⟩, he, hx⟩ := h
      obtain ⟨rfl, v, hv, hp⟩ := (hmem _ _).mp hx
      exact ⟨m', v, mk_mem_entries.mp he, hv, hp⟩
  rw [hset, Set.ncard_coe_finset, List.toFinset_card_of_nodup hnodup, List.length_flatMap, sumBy,
    values, List.map_map]
  congr 1
  refine List.map_congr_left ?_
  intro e _
  simp only [inner, values, Function.comp_apply, List.length_map, List.countP_eq_length_filter,
    List.filter_map]
  rfl

end Count

end FMap
