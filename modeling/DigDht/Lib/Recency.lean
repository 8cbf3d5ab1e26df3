/-
DigDht.Lib.Recency — lists kept in the order of last use.

Nothing here names a program. A log has an entry for each use of a key;
`latestOf key log` is the last entry of each key, the least recently used
first. A list that is a sublist of it is in the order of last use and
carries every key with the data of its last use. The rules say how such a
list follows the log: an entry of a key it does not hold leaves it alone
(`sublist_latestOf_concat`), and a move to the back is the right answer
to an entry of its own (`append_sublist_latestOf_concat`).
-/
import Mathlib.Data.List.Basic

namespace Recency

variable {α κ : Type} [DecidableEq κ] (key : α → κ)

/-- The last entry of each key, in the order of the log. -/
def latestOf : List α → List α
  | [] => []
  | a :: later => if key a ∈ later.map key then latestOf later else a :: latestOf later

/-- The last entry for `a` is before the one for `b`. -/
def UsedBefore (log : List α) (a b : α) : Prop :=
  [a, b].Sublist (latestOf key log)

/-- `a` is the member of `l` whose last entry is the oldest. -/
def LeastRecent (log l : List α) (a : α) : Prop :=
  a ∈ l ∧ ∀ b ∈ l, b ≠ a → UsedBefore key log a b

variable {key} {log : List α}

theorem latestOf_sublist : (latestOf key log).Sublist log := by
  induction log with
  | nil => exact List.Sublist.refl []
  | cons a later ih =>
    rw [latestOf]
    split
    · exact ih.cons a
    · exact ih.cons_cons a

/-- No key has two last entries. -/
theorem nodup_latestOf : ((latestOf key log).map key).Nodup := by
  induction log with
  | nil => exact List.nodup_nil
  | cons a later ih =>
    rw [latestOf]
    split
    case isTrue => exact ih
    case isFalse h =>
      refine List.nodup_cons.mpr ⟨?_, ih⟩
      exact fun ha => h ((latestOf_sublist.map key).subset ha)

/-- A new entry takes the place of the earlier ones of its key. -/
theorem latestOf_concat (log : List α) (a : α) :
    latestOf key (log ++ [a]) = (latestOf key log).filter (fun b => key b ≠ key a) ++ [a] := by
  induction log with
  | nil => rfl
  | cons b later ih =>
    rw [List.cons_append, latestOf, latestOf, ih]
    by_cases hlater : key b ∈ later.map key
    · have hmem : key b ∈ (later ++ [a]).map key := by simp_all
      rw [if_pos hmem, if_pos hlater]
    · rw [if_neg hlater]
      by_cases hba : key b = key a
      · have hmem : key b ∈ (later ++ [a]).map key := by simp [hba]
        rw [if_pos hmem, List.filter_cons_of_neg (by simpa using hba)]
      · have hmem : key b ∉ (later ++ [a]).map key := by simp_all
        rw [if_neg hmem, List.filter_cons_of_pos (by simpa using hba), List.cons_append]

theorem sublist_filter_latestOf {l : List α} {a : α} (hl : l.Sublist (latestOf key log))
    (ha : key a ∉ l.map key) : l.Sublist ((latestOf key log).filter fun b => key b ≠ key a) := by
  have hkept : l.filter (fun b => key b ≠ key a) = l := by
    refine List.filter_eq_self.mpr ?_
    intro b hb
    have hne : key b ≠ key a := fun h => ha (h ▸ List.mem_map_of_mem hb)
    simpa using hne
  have hsub := hl.filter fun b => key b ≠ key a
  rwa [hkept] at hsub

/-- An entry of a key the list does not hold. -/
theorem sublist_latestOf_concat {l : List α} {a : α} (hl : l.Sublist (latestOf key log))
    (ha : key a ∉ l.map key) : l.Sublist (latestOf key (log ++ [a])) := by
  rw [latestOf_concat]
  exact (sublist_filter_latestOf hl ha).trans (List.sublist_append_left _ _)

/-- An entry appended to the list and to the log. -/
theorem append_sublist_latestOf_concat {l : List α} {a : α} (hl : l.Sublist (latestOf key log))
    (ha : key a ∉ l.map key) : (l ++ [a]).Sublist (latestOf key (log ++ [a])) := by
  rw [latestOf_concat]
  exact (sublist_filter_latestOf hl ha).append (List.Sublist.refl [a])

/-- The front of the list is the least recent. -/
theorem leastRecent_of_head {l : List α} {a : α} (hl : l.Sublist (latestOf key log))
    (ha : l.head? = some a) : LeastRecent key log l a := by
  cases l with
  | nil => cases ha
  | cons c rest =>
    cases ha
    refine ⟨List.mem_cons_self, ?_⟩
    intro b hb hne
    have hrest : b ∈ rest := (List.mem_cons.mp hb).resolve_left hne
    exact ((List.singleton_sublist.mpr hrest).cons_cons a).trans hl

end Recency
