/-
DigDht.Lib.Selection — selecting from a list by a key.

`sortByKey f` is a stable sort by the key `f` (the library sort of the
languages that promise stability), `rank f l b` is how many entries of
`l` have a key smaller than `b`. With all keys distinct the two meet:
what the sort leaves behind its first `n` entries has rank at least `n`
(`le_rank_of_mem_drop`). That turns "behind the first `n` of the sorted
list" into a statement that survives additions and removals, because a
rank only moves when a SMALLER key enters or leaves. The first `n` of a
sorted list can also be found in a part of it (`mem_take_of_subset`,
`take_eq_of_subset`), and a stream may be cut to its first `n` as it is
sorted in (`take_sortByKey_append`). `keepFirst f` drops every entry
whose key came before.
-/
import Mathlib.Data.Finset.Card
import Mathlib.Data.List.Sort

namespace Selection

variable {α β : Type} [LinearOrder β]

/-- Stable sort by the key `f`, smallest first. -/
def sortByKey (f : α → β) (l : List α) : List α :=
  l.insertionSort fun a b => f a ≤ f b

/-- How many entries of `l` have a key smaller than `b`. -/
def rank (f : α → β) (l : List α) (b : β) : Nat :=
  l.countP fun y => f y < b

section Sorting

variable (f : α → β)

theorem sortByKey_perm (l : List α) : (sortByKey f l).Perm l :=
  List.perm_insertionSort _ l

@[simp] theorem mem_sortByKey {l : List α} {x : α} : x ∈ sortByKey f l ↔ x ∈ l :=
  (sortByKey_perm f l).mem_iff

@[simp] theorem length_sortByKey (l : List α) : (sortByKey f l).length = l.length :=
  (sortByKey_perm f l).length_eq

theorem sortByKey_pairwise (l : List α) :
    (sortByKey f l).Pairwise fun a b => f a ≤ f b := by
  have htotal : Std.Total fun a b : α => f a ≤ f b := ⟨fun a b => le_total (f a) (f b)⟩
  have htrans : IsTrans α fun a b : α => f a ≤ f b := ⟨fun _ _ _ => le_trans⟩
  exact List.pairwise_insertionSort _ l

theorem sortByKey_of_sorted {l : List α} (h : l.Pairwise fun a b => f a ≤ f b) :
    sortByKey f l = l :=
  h.insertionSort_eq

/-- Distinct keys make the sort strict. -/
theorem sortByKey_strict {l : List α} (hd : (l.map f).Nodup) :
    (sortByKey f l).Pairwise fun a b => f a < f b := by
  have hne : (sortByKey f l).Pairwise fun a b => f a ≠ f b := by
    refine List.pairwise_map.mp ?_
    exact (((sortByKey_perm f l).map f).nodup_iff).mpr hd
  refine ((sortByKey_pairwise f l).and hne).imp ?_
  intro a b h
  obtain ⟨hle, hab⟩ := h
  exact lt_of_le_of_ne hle hab

/-- Where the key reads `g` only, sorting and showing `g` commute. -/
theorem map_sortByKey {γ : Type} {g : α → γ} {h : γ → β} {l : List α}
    (hl : ∀ x ∈ l, f x = h (g x)) : (sortByKey f l).map g = sortByKey h (l.map g) := by
  refine List.map_insertionSort (fun a b => f a ≤ f b) (fun a b => h a ≤ h b) g l ?_
  intro a ha b hb
  rw [hl a ha, hl b hb]

/-- Two lists that show the same through `g`, which the key reads, show
the same when they are sorted. -/
theorem map_sortByKey_eq {γ : Type} {g : α → γ} {h : γ → β} {l l' : List α}
    (hl : ∀ x ∈ l, f x = h (g x)) (hl' : ∀ x ∈ l', f x = h (g x))
    (hperm : (l.map g).Perm (l'.map g)) (hd : (l.map f).Nodup) :
    (sortByKey f l).map g = (sortByKey f l').map g := by
  have hkeys : (l'.map f).Perm (l.map f) := by
    rw [List.map_congr_left hl, List.map_congr_left hl']
    simpa [Function.comp_def] using (hperm.map h).symm
  have hsorted : ∀ m : List α, (∀ x ∈ m, f x = h (g x)) → (m.map f).Nodup →
      ((sortByKey f m).map g).Pairwise fun a b => h a < h b := by
    intro m hm hdm
    refine List.pairwise_map.mpr ((sortByKey_strict f hdm).imp_of_mem ?_)
    intro a b ha hb hab
    rwa [← hm a ((mem_sortByKey f).mp ha), ← hm b ((mem_sortByKey f).mp hb)]
  have hsame : ((sortByKey f l).map g).Perm ((sortByKey f l').map g) :=
    (((sortByKey_perm f l).map g).trans hperm).trans ((sortByKey_perm f l').map g).symm
  refine hsame.eq_of_pairwise ?_ (hsorted l hl hd) (hsorted l' hl' (hkeys.nodup_iff.mpr hd))
  intro a b _ _ hab hba
  exact absurd hab (lt_asymm hba)

theorem tail_subset_tail {a b : α} {l l' : List α} (hl : (b :: l).Pairwise fun x y => f x < f y)
    (hl' : (a :: l').Pairwise fun x y => f x < f y) (hsub : b :: l ⊆ a :: l') : l ⊆ l' := by
  obtain ⟨hleast, -⟩ := List.pairwise_cons.mp hl
  obtain ⟨hmin, -⟩ := List.pairwise_cons.mp hl'
  intro x hx
  rcases List.mem_cons.mp (hsub (List.mem_cons_of_mem b hx)) with rfl | hx'
  · -- `x` would be the least of the larger list, and `b` is before it.
    have hbx : f b < f x := hleast x hx
    rcases List.mem_cons.mp (hsub List.mem_cons_self) with rfl | hb
    · exact absurd hbx (lt_irrefl _)
    · exact absurd hbx (lt_asymm (hmin b hb))
  · exact hx'

/-- What is among the first `n` of a strictly sorted list is among the
first `n` of every strictly sorted part it lies in. -/
theorem mem_take_of_subset {l l' : List α} (hl : l.Pairwise fun a b => f a < f b)
    (hl' : l'.Pairwise fun a b => f a < f b) (hsub : l ⊆ l') {n : Nat} {x : α}
    (hfirst : x ∈ l'.take n) (hx : x ∈ l) : x ∈ l.take n := by
  induction l' generalizing l n with
  | nil => simp at hfirst
  | cons a l' ih =>
    cases n with
    | zero => simp at hfirst
    | succ n =>
      cases l with
      | nil => cases hx
      | cons b l =>
        rw [List.take_succ_cons, List.mem_cons]
        rcases List.mem_cons.mp hx with heq | htail
        · exact Or.inl heq
        · right
          have hsub' := tail_subset_tail f hl hl' hsub
          rcases List.mem_cons.mp hfirst with rfl | hfirst
          · -- The least entry is not behind another one.
            exact absurd ((List.pairwise_cons.mp hl').1 x (hsub' htail)) (lt_irrefl _)
          · exact ih hl.of_cons hl'.of_cons hsub' hfirst htail

/-- A strictly sorted part that has the first `n` entries begins with
them. -/
theorem take_eq_of_subset {l l' : List α} (hl : l.Pairwise fun a b => f a < f b)
    (hl' : l'.Pairwise fun a b => f a < f b) (hsub : l ⊆ l') {n : Nat} (hfirst : l'.take n ⊆ l) :
    l.take n = l'.take n := by
  induction l' generalizing l n with
  | nil => rw [List.subset_nil.mp hsub]
  | cons a l' ih =>
    cases n with
    | zero => rfl
    | succ n =>
      have ha : a ∈ l := hfirst (by simp)
      cases l with
      | nil => cases ha
      | cons b l =>
        have hsub' := tail_subset_tail f hl hl' hsub
        have hba : b = a := by
          rcases List.mem_cons.mp ha with heq | htail
          · exact heq.symm
          · exact absurd ((List.pairwise_cons.mp hl').1 a (hsub' htail)) (lt_irrefl _)
        subst hba
        rw [List.take_succ_cons, List.take_succ_cons, ih hl.of_cons hl'.of_cons hsub' ?_]
        intro x hx
        rcases List.mem_cons.mp (hfirst (List.mem_cons_of_mem b hx)) with rfl | htail
        · exact absurd ((List.pairwise_cons.mp hl').1 x (List.mem_of_mem_take hx)) (lt_irrefl _)
        · exact htail

/-! ### Sorting a stream -/

/-- The first `n` of an insert depend on the first `n` of the list. -/
theorem take_orderedInsert {r : α → α → Prop} [DecidableRel r] (n : Nat) (a : α) (l : List α) :
    ((l.take n).orderedInsert r a).take n = (l.orderedInsert r a).take n := by
  induction l generalizing n with
  | nil => simp
  | cons b l ih =>
    cases n with
    | zero => simp
    | succ n =>
      rw [List.take_succ_cons, List.orderedInsert_cons, List.orderedInsert_cons]
      by_cases h : r a b
      · have hcut : (b :: l.take n).take n = (b :: l).take n := by
          rw [← List.take_succ_cons, List.take_take, Nat.min_eq_left (Nat.le_succ n)]
        rw [if_pos h, if_pos h, List.take_succ_cons, List.take_succ_cons, hcut]
      · rw [if_neg h, if_neg h, List.take_succ_cons, List.take_succ_cons, ih]

/-- An insert in front of the equals and one behind them commute. -/
theorem orderedInsert_comm (a x : α) (l : List α) :
    (l.orderedInsert (fun y z => f y < f z) x).orderedInsert (fun y z => f y ≤ f z) a =
      (l.orderedInsert (fun y z => f y ≤ f z) a).orderedInsert (fun y z => f y < f z) x := by
  induction l with
  | nil =>
    by_cases h : f a ≤ f x
    · simp [h]
    · simp [h, lt_of_not_ge h]
  | cons b l ih =>
    by_cases hxb : f x < f b
    · by_cases hax : f a ≤ f x
      · have hab : f a ≤ f b := le_trans hax hxb.le
        simp [hxb, hax, hab]
      · by_cases hab : f a ≤ f b <;> simp [hxb, hax, hab, lt_of_not_ge hax]
    · by_cases hab : f a ≤ f b
      · have hax : f a ≤ f x := le_trans hab (le_of_not_gt hxb)
        simp [hxb, hax, hab]
      · simp [hxb, hab, ih]

/-- A newcomer at the end of a list is sorted in behind its equals. -/
theorem sortByKey_concat (l : List α) (x : α) :
    sortByKey f (l ++ [x]) = (sortByKey f l).orderedInsert (fun y z => f y < f z) x := by
  induction l with
  | nil => simp [sortByKey]
  | cons a l ih =>
    have hcons : ∀ l : List α, sortByKey f (a :: l) =
        (sortByKey f l).orderedInsert (fun y z => f y ≤ f z) a := fun _ => rfl
    rw [List.cons_append, hcons, ih, hcons, orderedInsert_comm]

/-- Newcomers are sorted in one by one. -/
theorem sortByKey_append (l l' : List α) :
    sortByKey f (l ++ l') =
      l'.foldl (fun sorted x => sorted.orderedInsert (fun y z => f y < f z) x)
        (sortByKey f l) := by
  induction l' generalizing l with
  | nil => simp
  | cons x l' ih => rw [List.append_cons, ih, sortByKey_concat, List.foldl_cons]

/-- **Sorting, cutting and going on.** What is cut behind the first `n`
does not come back among them, whatever is merged later. -/
theorem take_sortByKey_append (n : Nat) (l l' : List α) :
    (sortByKey f ((sortByKey f l).take n ++ l')).take n = (sortByKey f (l ++ l')).take n := by
  have hfold : ∀ (l' s s' : List α), s.take n = s'.take n →
      (l'.foldl (fun sorted x => sorted.orderedInsert (fun y z => f y < f z) x) s).take n =
        (l'.foldl (fun sorted x => sorted.orderedInsert (fun y z => f y < f z) x) s').take n := by
    intro l'
    induction l' with
    | nil => intro s s' h; exact h
    | cons x l' ih =>
      intro s s' h
      refine ih _ _ ?_
      rw [← take_orderedInsert, h, take_orderedInsert]
  have hsorted : sortByKey f ((sortByKey f l).take n) = (sortByKey f l).take n :=
    sortByKey_of_sorted f ((sortByKey_pairwise f l).sublist (List.take_sublist _ _))
  rw [sortByKey_append, sortByKey_append, hsorted]
  exact hfold l' _ _ (by rw [List.take_take, Nat.min_self])

end Sorting

/-- A cut at `n` is felt by the first `k` that meet `q` unless `k` of them
are in front of it or none is behind it. -/
theorem take_filter_take_iff (q : α → Bool) (k n : Nat) (l : List α) :
    ((l.take n).filter q).take k = (l.filter q).take k ↔
      k ≤ (l.take n).countP q ∨ ∀ x ∈ l.drop n, q x = false := by
  have hsplit : l.filter q = (l.take n).filter q ++ (l.drop n).filter q := by
    rw [← List.filter_append, List.take_append_drop]
  have hbehind : (l.drop n).filter q = [] ↔ ∀ x ∈ l.drop n, q x = false := by
    simp [List.filter_eq_nil_iff]
  rw [hsplit, List.take_append, List.self_eq_append_right, List.take_eq_nil_iff, hbehind,
    List.countP_eq_length_filter, Nat.sub_eq_zero_iff_le]

/-- The first `k` that meet `q` are those of the first `k` that do, and as
many from behind as the first `k` have that do not. -/
theorem take_filter_eq_append (q : α → Bool) (k : Nat) (l : List α) :
    (l.filter q).take k = (l.take k).filter q ++
      ((l.drop k).filter q).take ((l.take k).countP fun x => !q x) := by
  have hsplit : l.filter q = (l.take k).filter q ++ (l.drop k).filter q := by
    rw [← List.filter_append, List.take_append_drop]
  have hcount : (l.take k).countP q + (l.take k).countP (fun x => !q x) = min k l.length := by
    rw [← List.length_take]
    simpa using (List.length_eq_countP_add_countP q (l := l.take k)).symm
  rw [hsplit, List.take_append, ← List.countP_eq_length_filter]
  congr 1
  · rw [List.take_of_length_le]
    rw [← List.countP_eq_length_filter]
    omega
  · rcases Nat.le_total k l.length with hk | hk
    · congr 1
      omega
    · simp [List.drop_eq_nil_of_le hk]

/-! ## Rank -/

section Rank

variable {f : α → β}

theorem rank_perm {l l' : List α} (h : l.Perm l') (b : β) : rank f l b = rank f l' b :=
  h.countP_eq _

/-- What stands behind the first `n` entries of a strictly sorted list
has at least `n` smaller keys in front of it. -/
theorem le_rank_of_mem_drop {l : List α} (hs : l.Pairwise fun a b => f a < f b)
    {n : Nat} {x : α} (hx : x ∈ l.drop n) : n ≤ rank f l (f x) := by
  induction l generalizing n with
  | nil => simp at hx
  | cons a l ih =>
    obtain ⟨ha, hl⟩ := List.pairwise_cons.mp hs
    cases n with
    | zero => exact Nat.zero_le _
    | succ n =>
      rw [List.drop_succ_cons] at hx
      have hax : f a < f x := ha x (List.mem_of_mem_drop hx)
      have hle : n ≤ rank f l (f x) := ih hl hx
      have hcons : rank f (a :: l) (f x) = rank f l (f x) + 1 := by simp [rank, hax]
      omega

/-- An entry with `n` smaller keys in front of it stands behind the first
`n` entries. -/
theorem mem_drop_of_le_rank {l : List α} (hs : l.Pairwise fun a b => f a < f b)
    {n : Nat} {x : α} (hx : x ∈ l) (hn : n ≤ rank f l (f x)) : x ∈ l.drop n := by
  induction l generalizing n with
  | nil => cases hx
  | cons a l ih =>
    obtain ⟨ha, hl⟩ := List.pairwise_cons.mp hs
    cases n with
    | zero => exact hx
    | succ n =>
      rw [List.drop_succ_cons]
      rcases List.mem_cons.mp hx with rfl | htail
      · -- The least key has nothing in front of it.
        have hzero : rank f (x :: l) (f x) = 0 := by
          simp only [rank, List.countP_eq_zero, List.mem_cons, decide_eq_true_eq]
          rintro y (rfl | hy)
          · exact lt_irrefl _
          · exact lt_asymm (ha y hy)
        omega
      · have hax : f a < f x := ha x htail
        have hcons : rank f (a :: l) (f x) = rank f l (f x) + 1 := by simp [rank, hax]
        exact ih hl htail (by omega)

/-- Fewer than `n` entries are in front of one of the first `n`. -/
theorem length_lt_of_mem_take {l s : List α} (hs : l.Pairwise fun a b => f a < f b) {n : Nat}
    {x : α} (hx : x ∈ l.take n) (hnodup : s.Nodup) (hsub : s ⊆ l) (hbelow : ∀ y ∈ s, f y < f x) :
    s.length < n := by
  have hfront : s ⊆ l.filter fun y => f y < f x := by
    intro y hy
    exact List.mem_filter.mpr ⟨hsub hy, by simpa using hbelow y hy⟩
  have hrank : s.length ≤ rank f l (f x) := by
    rw [rank, List.countP_eq_length_filter]
    exact (hnodup.subperm hfront).length_le
  by_contra hle
  have hbehind : x ∈ l.drop n :=
    mem_drop_of_le_rank hs (List.mem_of_mem_take hx) (le_trans (Nat.not_lt.mp hle) hrank)
  -- A strictly sorted list has no entry twice.
  have hdistinct : l.Nodup := by
    refine hs.imp ?_
    rintro a b hab rfl
    exact lt_irrefl _ hab
  rw [← List.take_append_drop n l] at hdistinct
  exact (List.nodup_append.mp hdistinct).2.2 x hx x hbehind rfl

/-- The first of its kind in a sorted list has the least key. -/
theorem find_le {p : α → Bool} {l : List α} (hs : l.Pairwise fun a b => f a ≤ f b) {a b : α}
    (hb : l.find? p = some b) (ha : a ∈ l) (hp : p a = true) : f b ≤ f a := by
  obtain ⟨-, front, behind, rfl, hfront⟩ := List.find?_eq_some_iff_append.mp hb
  obtain ⟨-, hbehind, -⟩ := List.pairwise_append.mp hs
  rcases List.mem_append.mp ha with hin | hin
  · have hnot := hfront a hin
    simp [hp] at hnot
  · rcases List.mem_cons.mp hin with rfl | hin
    · exact le_refl _
    · exact (List.pairwise_cons.mp hbehind).1 a hin

/-- What the key decides is met among the first `n` of a sorted list iff
an entry with fewer than `n` smaller keys meets it. -/
theorem exists_mem_take_iff_rank {P : α → Prop} (hP : ∀ a b, f a = f b → P a → P b)
    {l : List α} (hs : l.Pairwise fun a b => f a ≤ f b) (n : Nat) :
    (∃ a ∈ l.take n, P a) ↔ ∃ a ∈ l, P a ∧ rank f l (f a) < n := by
  induction l generalizing n with
  | nil => simp
  | cons b l ih =>
    obtain ⟨hb, hl⟩ := List.pairwise_cons.mp hs
    have hcons : ∀ a, rank f (b :: l) (f a) = rank f l (f a) + if f b < f a then 1 else 0 := by
      intro a
      simp [rank, List.countP_cons]
    cases n with
    | zero => simp
    | succ n =>
      rw [List.take_succ_cons]
      constructor
      · rintro ⟨a, ha, hPa⟩
        rcases List.mem_cons.mp ha with rfl | ha
        · have hzero : rank f (a :: l) (f a) = 0 := by
            simp only [rank, List.countP_eq_zero, List.mem_cons, decide_eq_true_eq, not_lt]
            rintro y (rfl | hy)
            · exact le_refl _
            · exact hb y hy
          exact ⟨a, List.mem_cons_self, hPa, hzero ▸ Nat.succ_pos n⟩
        · obtain ⟨a', ha', hPa', hrank⟩ := (ih hl n).mp ⟨a, ha, hPa⟩
          refine ⟨a', List.mem_cons_of_mem b ha', hPa', ?_⟩
          rw [hcons]
          split <;> omega
      · rintro ⟨a, ha, hPa, hrank⟩
        rcases List.mem_cons.mp ha with rfl | ha
        · exact ⟨a, List.mem_cons_self, hPa⟩
        · rcases (hb a ha).lt_or_eq with hlt | heq
          · rw [hcons, if_pos hlt] at hrank
            obtain ⟨a', ha', hPa'⟩ := (ih hl n).mpr ⟨a, ha, hPa, Nat.lt_of_succ_lt_succ hrank⟩
            exact ⟨a', List.mem_cons_of_mem b ha', hPa'⟩
          · -- The head has the same key, so it will do.
            exact ⟨b, List.mem_cons_self, hP a b heq.symm hPa⟩

/-- The same of a list before it is sorted. -/
theorem exists_mem_take_sortByKey_iff {P : α → Prop} (hP : ∀ a b, f a = f b → P a → P b)
    (n : Nat) (l : List α) :
    (∃ a ∈ (sortByKey f l).take n, P a) ↔ ∃ a ∈ l, P a ∧ rank f l (f a) < n := by
  rw [exists_mem_take_iff_rank hP (sortByKey_pairwise f l)]
  simp only [mem_sortByKey, rank_perm (sortByKey_perm f l)]

end Rank

/-! ## First of each key -/

section KeepFirst

variable {γ : Type} [DecidableEq γ] (f : α → γ)

/-- The first entry of each key, keys in `seen` left out: what
`retain(|a| seen.insert(f(a)))` keeps. -/
def keepFirst : Finset γ → List α → List α
  | _, [] => []
  | seen, a :: l => if f a ∈ seen then keepFirst seen l else a :: keepFirst (insert (f a) seen) l

@[simp] theorem keepFirst_nil (seen : Finset γ) : keepFirst f seen [] = [] := rfl

theorem keepFirst_sublist (seen : Finset γ) (l : List α) : (keepFirst f seen l).Sublist l := by
  induction l generalizing seen with
  | nil => exact List.Sublist.refl []
  | cons a l ih =>
    rw [keepFirst]
    split
    · exact (ih seen).cons a
    · exact (ih _).cons_cons a

/-- No key but those in `seen` is lost. -/
theorem mem_map_keepFirst {seen : Finset γ} {l : List α} {y : γ} :
    y ∈ (keepFirst f seen l).map f ↔ y ∈ l.map f ∧ y ∉ seen := by
  induction l generalizing seen with
  | nil => simp [keepFirst]
  | cons a l ih =>
    rw [keepFirst]
    split
    case isTrue h =>
      rw [ih, List.map_cons, List.mem_cons]
      constructor
      · rintro ⟨hy, hseen⟩
        exact ⟨Or.inr hy, hseen⟩
      · rintro ⟨rfl | hy, hseen⟩
        · exact absurd h hseen
        · exact ⟨hy, hseen⟩
    case isFalse h =>
      rw [List.map_cons, List.mem_cons, ih, List.map_cons, List.mem_cons, Finset.mem_insert]
      constructor
      · rintro (rfl | ⟨hy, hseen⟩)
        · exact ⟨Or.inl rfl, h⟩
        · exact ⟨Or.inr hy, fun hy' => hseen (Or.inr hy')⟩
      · rintro ⟨hy, hseen⟩
        by_cases hya : y = f a
        · exact Or.inl hya
        · exact Or.inr ⟨hy.resolve_left hya, fun hy' => hy'.elim hya hseen⟩

/-- Of the entries with one key, the first is kept. -/
theorem filter_keepFirst {seen : Finset γ} {l : List α} {y : γ} (hy : y ∉ seen) :
    (keepFirst f seen l).filter (fun a => f a = y) = (l.find? fun a => f a = y).toList := by
  induction l generalizing seen with
  | nil => rfl
  | cons a l ih =>
    rw [keepFirst]
    by_cases hay : f a = y
    · have hfresh : f a ∉ seen := hay ▸ hy
      have hrest : (keepFirst f (insert (f a) seen) l).filter (fun b => f b = y) = [] := by
        refine List.filter_eq_nil_iff.mpr ?_
        intro b hb hby
        have hkey := (mem_map_keepFirst f).mp (List.mem_map_of_mem hb)
        exact hkey.2 (by simp_all)
      rw [if_neg hfresh, List.filter_cons_of_pos (by simpa using hay), hrest,
        List.find?_cons_of_pos (by simpa using hay)]
      rfl
    · rw [List.find?_cons_of_neg (by simpa using hay)]
      split
      · exact ih hy
      · rw [List.filter_cons_of_neg (by simpa using hay)]
        exact ih (by simp [Ne.symm hay, hy])

theorem nodup_keepFirst (seen : Finset γ) (l : List α) : ((keepFirst f seen l).map f).Nodup := by
  induction l generalizing seen with
  | nil => exact List.nodup_nil
  | cons a l ih =>
    rw [keepFirst]
    split
    · exact ih seen
    · refine List.nodup_cons.mpr ⟨?_, ih _⟩
      intro ha
      exact ((mem_map_keepFirst f).mp ha).2 (Finset.mem_insert_self _ _)

theorem length_keepFirst (l : List α) :
    (keepFirst f ∅ l).length = (l.map f).toFinset.card := by
  have hsame : ((keepFirst f ∅ l).map f).toFinset = (l.map f).toFinset := by
    ext y
    rw [List.mem_toFinset, List.mem_toFinset, mem_map_keepFirst]
    simp
  rw [← hsame, List.toFinset_card_of_nodup (nodup_keepFirst f ∅ l), List.length_map]

theorem keepFirst_append (seen : Finset γ) (l l' : List α) :
    keepFirst f seen (l ++ l') =
      keepFirst f seen l ++ keepFirst f (seen ∪ (l.map f).toFinset) l' := by
  induction l generalizing seen with
  | nil => simp [keepFirst]
  | cons a l ih =>
    have hkeys : seen ∪ ((a :: l).map f).toFinset = insert (f a) seen ∪ (l.map f).toFinset := by
      rw [List.map_cons, List.toFinset_cons, Finset.union_insert, Finset.insert_union]
    rw [List.cons_append, keepFirst, keepFirst, hkeys]
    by_cases h : f a ∈ seen
    · rw [if_pos h, if_pos h, ih, Finset.insert_eq_of_mem h]
    · rw [if_neg h, if_neg h, ih, List.cons_append]

end KeepFirst

end Selection
