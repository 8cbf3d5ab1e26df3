/-
DigDht.Lib.Checked — machine words, vectors and folds that may panic.

Nothing here names a program. A computation that may panic is an
`Option`, `none` being the panic, and sequencing is `Option`'s bind. The
words have 64 bits and overflow checks. Each operation comes with the
lemma that says when it yields its mathematical value.

`foldlM_eq_some` takes a whole loop: a fold of a checked body is the fold
of the plain one when the body is, on the states an invariant allows and
as long as a quantity that only grows stays within a bound.
-/
import Mathlib.Algebra.BigOperators.Group.List.Basic
import Mathlib.Algebra.Order.Group.Nat
import Mathlib.Algebra.Ring.Nat
import Mathlib.Data.Vector.Basic

namespace Checked

/-- One more than the largest 64-bit word. -/
def wordLimit : Nat := 2 ^ 64

def add (a b : Nat) : Option Nat :=
  if a + b < wordLimit then some (a + b) else none

def mul (a b : Nat) : Option Nat :=
  if a * b < wordLimit then some (a * b) else none

def sub (a b : Nat) : Option Nat :=
  if b ≤ a then some (a - b) else none

/-- `Iterator::sum`. -/
def sum (l : List Nat) : Option Nat :=
  l.foldlM add 0

/-- A counter that goes up by one for every item that passes. -/
def count {α : Type*} (p : α → Bool) (l : List α) : Option Nat :=
  l.foldlM (fun n a => if p a then add n 1 else some n) 0

/-- `Vec::remove`. -/
def removeAt {α : Type*} (l : List α) (i : Nat) : Option (List α) :=
  if i < l.length then some (l.eraseIdx i) else none

theorem add_eq_some {a b : Nat} (h : a + b < wordLimit) : add a b = some (a + b) :=
  if_pos h

theorem add_eq_none {a b : Nat} (h : wordLimit ≤ a + b) : add a b = none :=
  if_neg (Nat.not_lt.mpr h)

theorem mul_eq_some {a b : Nat} (h : a * b < wordLimit) : mul a b = some (a * b) :=
  if_pos h

theorem mul_eq_none {a b : Nat} (h : wordLimit ≤ a * b) : mul a b = none :=
  if_neg (Nat.not_lt.mpr h)

theorem sub_eq_some {a b : Nat} (h : b ≤ a) : sub a b = some (a - b) :=
  if_pos h

theorem removeAt_eq_some {α : Type*} {l : List α} {i : Nat} (h : i < l.length) :
    removeAt l i = some (l.eraseIdx i) :=
  if_pos h

/-- An array built entry by entry, if no entry panics. -/
theorem mOfFn_eq_some {α : Type} {n : Nat} {f : Fin n → Option α} {v : List.Vector α n}
    (h : ∀ i, f i = some (v.get i)) : List.Vector.mOfFn f = some v := by
  have hpure : f = fun i => pure (v.get i) := funext h
  rw [hpure, List.Vector.mOfFn_pure, List.Vector.ofFn_get]
  rfl

/-- A list built item by item, if no item panics. -/
theorem mapM_eq_some {α β : Type*} {f : α → Option β} {g : α → β} {l : List α}
    (h : ∀ a ∈ l, f a = some (g a)) : l.mapM f = some (l.map g) := by
  induction l with
  | nil => rfl
  | cons a l ih =>
    obtain ⟨hhead, htail⟩ := List.forall_mem_cons.mp h
    rw [List.mapM_cons, hhead, ih htail]
    rfl

/-! ## Folds -/

section Folds

variable {σ α : Type*} {f : σ → α → Option σ} {g : σ → α → σ} {I : σ → Prop} {m : σ → Nat}

theorem le_foldl (hI : ∀ s a, I s → I (g s a)) (hm : ∀ s a, I s → m s ≤ m (g s a))
    (l : List α) {s : σ} (hs : I s) : m s ≤ m (l.foldl g s) := by
  induction l generalizing s with
  | nil => exact le_rfl
  | cons a l ih => exact le_trans (hm s a hs) (ih (hI s a hs))

theorem foldlM_eq_some {b : Nat} (hI : ∀ s a, I s → I (g s a))
    (hm : ∀ s a, I s → m s ≤ m (g s a))
    (hf : ∀ s a, I s → m (g s a) < b → f s a = some (g s a))
    (l : List α) {s : σ} (hs : I s) (hbound : m (l.foldl g s) < b) :
    l.foldlM f s = some (l.foldl g s) := by
  induction l generalizing s with
  | nil => rfl
  | cons a l ih =>
    have hnext := hI s a hs
    have hfirst : f s a = some (g s a) :=
      hf s a hs (lt_of_le_of_lt (le_foldl hI hm l hnext) hbound)
    rw [List.foldlM_cons, hfirst]
    exact ih hnext hbound

/-- The same, with nothing that grows. -/
theorem foldlM_eq_some_of_invariant (hI : ∀ s a, I s → I (g s a))
    (hf : ∀ s a, I s → f s a = some (g s a)) (l : List α) {s : σ} (hs : I s) :
    l.foldlM f s = some (l.foldl g s) :=
  foldlM_eq_some (m := fun _ => 0) (b := 1) hI (fun _ _ _ => le_rfl)
    (fun s a hs _ => hf s a hs) l hs Nat.zero_lt_one

end Folds

theorem sum_eq_some {l : List Nat} (h : l.sum < wordLimit) : sum l = some l.sum := by
  have hfold : l.foldl (· + ·) 0 = l.sum := List.sum_eq_foldl.symm
  rw [← hfold] at h ⊢
  exact foldlM_eq_some (I := fun _ => True) (m := id) (fun _ _ _ => trivial)
    (fun a b _ => Nat.le_add_right a b) (fun a b _ hlt => add_eq_some hlt) l trivial h

theorem count_eq_some {α : Type*} (p : α → Bool) {l : List α} (h : l.length < wordLimit) :
    count p l = some (l.countP p) := by
  have hfold : ∀ n, l.foldl (fun n a => if p a then n + 1 else n) n = n + l.countP p := by
    clear h
    induction l with
    | nil => simp
    | cons a l ih =>
      intro n
      rw [List.foldl_cons, ih, List.countP_cons]
      split <;> omega
  have hle : l.countP p < wordLimit := lt_of_le_of_lt List.countP_le_length h
  have hcount := hfold 0
  rw [Nat.zero_add] at hcount
  rw [← hcount] at hle ⊢
  refine foldlM_eq_some (I := fun _ => True) (m := id) (fun _ _ _ => trivial) ?_ ?_ l trivial hle
  · intro n a _
    show n ≤ if p a then n + 1 else n
    split <;> omega
  · intro n a _ hlt
    by_cases ha : p a = true
    · simp only [ha, if_true, id] at hlt ⊢
      exact add_eq_some hlt
    · simp only [if_neg ha]

end Checked
