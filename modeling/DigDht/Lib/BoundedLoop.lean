/-
DigDht.Lib.BoundedLoop — a loop with an iteration guard.

Nothing here names a program. One pass of the body goes on with a state
or ends the loop in one, with a reason; the guard ends it after `n`
passes with the reason `cut`.

`run_rule` is the Hoare rule: an invariant of the passes, and a
postcondition that may read the reason. `measure_of_cut` says what the
guard costs: a measure the passes increase has grown by `n` when it cuts.
`visited` is the list of states the passes start from: an invariant holds
of all of them (`forall_visited`), `run_log` and `log_of_visited` read a
log off it, and `run_rel` compares two loops pass by pass.
-/
import Mathlib.Logic.Basic

namespace BoundedLoop

variable {σ ε : Type*}

/-- What one pass of the body does. -/
inductive Pass (σ ε : Type*) where
  | next (s : σ)
  | done (s : σ) (reason : ε)

variable (body : σ → Pass σ ε) (cut : ε)

/-- The last state and the reason the loop ended. -/
def run : Nat → σ → σ × ε
  | 0, s => (s, cut)
  | n + 1, s =>
    match body s with
    | .next s' => run n s'
    | .done s' reason => (s', reason)

/-- The states the passes start from, in order. -/
def visited : Nat → σ → List σ
  | 0, _ => []
  | n + 1, s =>
    s :: match body s with
      | .next s' => visited n s'
      | .done _ _ => []

variable {body cut}

/-- The loop rule: `Q` is kept by the passes that go on, and every way to
end, the guard included, establishes `R`. -/
theorem run_rule {Q : σ → Prop} {R : σ → ε → Prop}
    (hnext : ∀ s s', Q s → body s = .next s' → Q s')
    (hdone : ∀ s s' reason, Q s → body s = .done s' reason → R s' reason)
    (hcut : ∀ s, Q s → R s cut) (n : Nat) {s : σ} (hs : Q s) :
    R (run body cut n s).1 (run body cut n s).2 := by
  induction n generalizing s with
  | zero => exact hcut s hs
  | succ n ih =>
    unfold run
    split
    · rename_i s' hb
      exact ih (hnext s s' hs hb)
    · rename_i s' reason hb
      exact hdone s s' reason hs hb

/-- If the guard cuts the loop, a measure that every pass that goes on
increases has grown by as much as the guard allows. -/
theorem measure_of_cut {Q : σ → Prop} {f : σ → Nat}
    (hnext : ∀ s s', Q s → body s = .next s' → Q s' ∧ f s + 1 ≤ f s')
    (hdone : ∀ s s' reason, body s = .done s' reason → reason ≠ cut) (n : Nat) {s : σ} (hs : Q s)
    (hcut : (run body cut n s).2 = cut) :
    f s + n ≤ f (run body cut n s).1 ∧ Q (run body cut n s).1 := by
  induction n generalizing s with
  | zero => exact ⟨Nat.le_refl _, hs⟩
  | succ n ih =>
    unfold run at hcut ⊢
    cases hb : body s with
    | next s' =>
      rw [hb] at hcut
      obtain ⟨hs', hgrow⟩ := hnext s s' hs hb
      obtain ⟨hlen, hlast⟩ := ih hs' hcut
      exact ⟨by simp only; omega, hlast⟩
    | done s' reason =>
      rw [hb] at hcut
      exact absurd hcut (hdone s s' reason hb)

/-- What every pass appends to a log `f`, the loop appends for every state
it visits. -/
theorem run_log {α : Type*} {f g : σ → List α}
    (hnext : ∀ s s', body s = .next s' → f s' = f s ++ g s)
    (hdone : ∀ s s' reason, body s = .done s' reason → f s' = f s ++ g s) (n : Nat) (s : σ) :
    f (run body cut n s).1 = f s ++ (visited body n s).flatMap g := by
  induction n generalizing s with
  | zero => simp [run, visited]
  | succ n ih =>
    unfold run visited
    cases hb : body s with
    | next s' => simp only [ih, hnext s s' hb, List.flatMap_cons, List.append_assoc]
    | done s' reason =>
      simp only [hdone s s' reason hb, List.flatMap_cons, List.flatMap_nil, List.append_nil]

theorem length_visited_le (n : Nat) (s : σ) : (visited body n s).length ≤ n := by
  induction n generalizing s with
  | zero => exact Nat.le_refl 0
  | succ n ih =>
    unfold visited
    cases body s with
    | next s' => exact Nat.succ_le_succ (ih s')
    | done s' reason => exact Nat.succ_le_succ (Nat.zero_le n)

/-- What the passes that go on keep holds of every state visited. -/
theorem forall_visited {Q : σ → Prop} (hnext : ∀ s s', Q s → body s = .next s' → Q s') (n : Nat)
    {s : σ} (hs : Q s) : ∀ t ∈ visited body n s, Q t := by
  induction n generalizing s with
  | zero => simp [visited]
  | succ n ih =>
    intro t ht
    unfold visited at ht
    rcases List.mem_cons.mp ht with rfl | ht
    · exact hs
    · cases hb : body s with
      | next s' =>
        rw [hb] at ht
        exact ih (hnext s s' hs hb) t ht
      | done s' reason =>
        rw [hb] at ht
        cases ht

/-- The log a pass starts from was appended by the passes before it. -/
theorem log_of_visited {α : Type*} {f g : σ → List α}
    (hnext : ∀ s s', body s = .next s' → f s' = f s ++ g s) (n : Nat) {s t : σ}
    {before after : List σ} (h : visited body n s = before ++ t :: after) :
    f t = f s ++ before.flatMap g := by
  induction n generalizing s before with
  | zero => simp [visited] at h
  | succ n ih =>
    unfold visited at h
    cases before with
    | nil =>
      obtain ⟨rfl, -⟩ := List.cons_eq_cons.mp h
      simp
    | cons b before =>
      obtain ⟨rfl, hrest⟩ := List.cons_eq_cons.mp h
      cases hb : body s with
      | next s' =>
        rw [hb] at hrest
        simp [ih hrest, hnext s s' hb]
      | done s' reason =>
        rw [hb] at hrest
        simp at hrest

/-! ## Two loops -/

section TwoLoops

variable {τ : Type*} {body' : τ → Pass τ ε} {R : σ → τ → Prop}

/-- Both passes go on, or both end, with one reason. -/
inductive Pass.Rel (R : σ → τ → Prop) : Pass σ ε → Pass τ ε → Prop
  | next {s : σ} {t : τ} : R s t → Rel R (.next s) (.next t)
  | done {s : σ} {t : τ} (reason : ε) : R s t → Rel R (.done s reason) (.done t reason)

/-- Loops whose passes keep `R` show the same of the states they visit and
end alike. -/
theorem run_rel {α : Type*} {f : σ → α} {g : τ → α} (hobs : ∀ s t, R s t → f s = g t)
    (hbody : ∀ s t, R s t → Pass.Rel R (body s) (body' t)) (n : Nat) {s : σ} {t : τ}
    (h : R s t) :
    (visited body n s).map f = (visited body' n t).map g ∧
      R (run body cut n s).1 (run body' cut n t).1 ∧
      (run body cut n s).2 = (run body' cut n t).2 := by
  induction n generalizing s t with
  | zero => exact ⟨rfl, h, rfl⟩
  | succ n ih =>
    have hpass := hbody s t h
    have hhead := hobs s t h
    unfold visited run
    cases hs : body s with
    | next s' =>
      cases ht : body' t with
      | next t' =>
        rw [hs, ht] at hpass
        cases hpass with
        | next hnext =>
          obtain ⟨hvisited, hrun⟩ := ih hnext
          exact ⟨List.cons_eq_cons.mpr ⟨hhead, hvisited⟩, hrun⟩
      | done t' reason =>
        rw [hs, ht] at hpass
        cases hpass
    | done s' reason =>
      cases ht : body' t with
      | next t' =>
        rw [hs, ht] at hpass
        cases hpass
      | done t' reason' =>
        rw [hs, ht] at hpass
        cases hpass with
        | done _ hdone => exact ⟨List.cons_eq_cons.mpr ⟨hhead, rfl⟩, hdone, rfl⟩

end TwoLoops

end BoundedLoop
