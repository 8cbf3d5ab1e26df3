/-
DigDht.Lib.Runs — runs of a deterministic step function.

Nothing here names a program: `step : σ → ι → σ` is any state machine
whose inputs carry every choice of its environment. The notions:

* `exec step s is` — the state after the inputs `is`;
* `Always step Q s is` — `Q` holds in every state of the run, the
  first and the last included;
* `EachStep step P s is` — every step taken meets `P`, which reads the
  state BEFORE the step and the input;
* `latest step f s is` — the last value `f` reads off a step of the run,
  a ghost that an invariant can speak about (`latest_rule`);
* `logged step f s is` — all of these values, in order (`logged_rule`).

The invariant rule is packaged once (`always_of_eachStep`), together
with the two-directional form for an invariant that a step preserves
EXACTLY when it meets `P` (`always_iff_eachStep`, and
`always_iff_eachStep_of` for runs of a given kind).

`TwoRuns` adds a relational rule. A machine `step : σ → ι → ν → σ × ο`
takes a shared input `ι` and a private input `ν`; when a view of it moves
as a machine of its own that never reads `ν`, two runs over the same
shared inputs look the same (`transcript_view_eq`).
-/
import Mathlib.Data.List.Basic

namespace Runs

/-! ## One run -/

section OneRun

variable {σ ι : Type*} (step : σ → ι → σ)

/-- The state after the inputs `is`. -/
def exec (s : σ) (is : List ι) : σ :=
  is.foldl step s

/-- `Q` holds in every state of the run. -/
def Always (Q : σ → Prop) : σ → List ι → Prop
  | s, [] => Q s
  | s, i :: is => Q s ∧ Always Q (step s i) is

/-- Every step of the run meets `P`. -/
def EachStep (P : σ → ι → Prop) : σ → List ι → Prop
  | _, [] => True
  | s, i :: is => P s i ∧ EachStep P (step s i) is

instance decidableEachStep {step : σ → ι → σ} {P : σ → ι → Prop} [∀ s i, Decidable (P s i)] :
    ∀ (s : σ) (is : List ι), Decidable (EachStep step P s is)
  | _, [] => isTrue trivial
  | s, i :: is =>
    have : Decidable (EachStep step P (step s i) is) := decidableEachStep (step s i) is
    inferInstanceAs (Decidable (P s i ∧ EachStep step P (step s i) is))

@[simp] theorem exec_nil (s : σ) : exec step s [] = s := rfl

@[simp] theorem exec_cons (s : σ) (i : ι) (is : List ι) :
    exec step s (i :: is) = exec step (step s i) is := rfl

theorem exec_append (s : σ) (is js : List ι) :
    exec step s (is ++ js) = exec step (exec step s is) js :=
  List.foldl_append

variable {step}

theorem Always.head {Q : σ → Prop} {s : σ} {is : List ι}
    (h : Always step Q s is) : Q s := by
  cases is with
  | nil => exact h
  | cons i is => exact h.1

/-- What always holds, holds at the end. -/
theorem Always.last {Q : σ → Prop} {s : σ} {is : List ι}
    (h : Always step Q s is) : Q (exec step s is) := by
  induction is generalizing s with
  | nil => exact h
  | cons i is ih => exact ih h.2

theorem Always.imp {Q Q' : σ → Prop} (hQ : ∀ s, Q s → Q' s) {s : σ} {is : List ι}
    (h : Always step Q s is) : Always step Q' s is := by
  induction is generalizing s with
  | nil => exact hQ s h
  | cons i is ih => exact ⟨hQ s h.1, ih h.2⟩

/-- The invariant rule: what holds at the start and survives every step
meeting `P` holds along every run whose steps meet `P`. -/
theorem always_of_eachStep {Q : σ → Prop} {P : σ → ι → Prop}
    (hstep : ∀ s i, Q s → P s i → Q (step s i)) {s : σ} {is : List ι}
    (hs : Q s) (h : EachStep step P s is) : Always step Q s is := by
  induction is generalizing s with
  | nil => exact hs
  | cons i is ih => exact ⟨hs, ih (hstep s i hs h.1) h.2⟩

/-- The invariant rule without a condition on the steps. -/
theorem always_of_step {Q : σ → Prop} (hstep : ∀ s i, Q s → Q (step s i)) {s : σ}
    (hs : Q s) (is : List ι) : Always step Q s is := by
  induction is generalizing s with
  | nil => exact hs
  | cons i is ih => exact ⟨hs, ih (hstep s i hs)⟩

theorem exec_invariant {Q : σ → Prop} (hstep : ∀ s i, Q s → Q (step s i)) {s : σ}
    (hs : Q s) (is : List ι) : Q (exec step s is) :=
  (always_of_step hstep hs is).last

/-- The invariant rule for a given list of inputs. -/
theorem exec_invariant_mem {Q : σ → Prop} {s : σ} {is : List ι}
    (hstep : ∀ s, ∀ i ∈ is, Q s → Q (step s i)) (hs : Q s) : Q (exec step s is) := by
  induction is generalizing s with
  | nil => exact hs
  | cons i is ih =>
    have hnext : Q (step s i) := hstep s i List.mem_cons_self hs
    exact ih (fun s j hj => hstep s j (List.mem_cons_of_mem i hj)) hnext

/-- The exact form. `G` is what every step keeps anyway; when among the
`G`-states a step from a `Q`-state leads to a `Q`-state EXACTLY when it
meets `P`, the runs that stay in `Q` are the runs whose steps all meet
`P`. -/
theorem always_iff_eachStep {G Q : σ → Prop} {P : σ → ι → Prop} {is : List ι}
    (hG : ∀ s, ∀ i ∈ is, G s → G (step s i))
    (hstep : ∀ s, ∀ i ∈ is, G s → Q s → (Q (step s i) ↔ P s i)) {s : σ}
    (hg : G s) (hs : Q s) : Always step Q s is ↔ EachStep step P s is := by
  induction is generalizing s with
  | nil => simp [Always, EachStep, hs]
  | cons i is ih =>
    have hhead := hstep s i List.mem_cons_self hg hs
    have hg' : G (step s i) := hG s i List.mem_cons_self hg
    have hGtail := fun s j hj => hG s j (List.mem_cons_of_mem i hj)
    have htail := fun s j hj => hstep s j (List.mem_cons_of_mem i hj)
    constructor
    · intro h
      have hnext : Q (step s i) := h.2.head
      exact ⟨hhead.mp hnext, (ih hGtail htail hg' hnext).mp h.2⟩
    · intro h
      have hnext : Q (step s i) := hhead.mpr h.1
      exact ⟨hs, (ih hGtail htail hg' hnext).mpr h.2⟩

/-- The exact form along runs whose steps meet `U`. -/
theorem always_iff_eachStep_of {G Q : σ → Prop} {U P : σ → ι → Prop}
    (hG : ∀ s i, G s → U s i → G (step s i))
    (hstep : ∀ s i, G s → U s i → Q s → (Q (step s i) ↔ P s i)) {s : σ} {is : List ι}
    (hg : G s) (hs : Q s) (hU : EachStep step U s is) :
    Always step Q s is ↔ EachStep step P s is := by
  induction is generalizing s with
  | nil => simp [Always, EachStep, hs]
  | cons i is ih =>
    have hhead := hstep s i hg hU.1 hs
    have htail := fun hnext => ih (hG s i hg hU.1) hnext hU.2
    constructor
    · intro h
      exact ⟨hhead.mp h.2.head, (htail h.2.head).mp h.2⟩
    · intro h
      have hnext : Q (step s i) := hhead.mpr h.1
      exact ⟨hs, (htail hnext).mpr h.2⟩

/-- What an invariant of the run gives for one step, it gives for every
step. -/
theorem eachStep_of_invariant {I : σ → Prop} {P : σ → ι → Prop} {s : σ} {is : List ι}
    (hI : ∀ s, ∀ i ∈ is, I s → I (step s i)) (hP : ∀ s, ∀ i ∈ is, I s → P s i) (hs : I s) :
    EachStep step P s is := by
  induction is generalizing s with
  | nil => trivial
  | cons i is ih =>
    have hnext : I (step s i) := hI s i List.mem_cons_self hs
    refine ⟨hP s i List.mem_cons_self hs, ih (fun s j hj => ?_) (fun s j hj => ?_) hnext⟩
    · exact hI s j (List.mem_cons_of_mem i hj)
    · exact hP s j (List.mem_cons_of_mem i hj)

/-- What `P` and an invariant it keeps give for one step, they give for
every step. -/
theorem EachStep.imp {I : σ → Prop} {P P' : σ → ι → Prop}
    (hI : ∀ s i, I s → P s i → I (step s i)) (hP : ∀ s i, I s → P s i → P' s i) {s : σ}
    {is : List ι} (hs : I s) (h : EachStep step P s is) : EachStep step P' s is := by
  induction is generalizing s with
  | nil => trivial
  | cons i is ih => exact ⟨hP s i hs h.1, ih (hI s i hs h.1) h.2⟩

/-- Along runs whose steps meet `U`, which keeps `I`: what is equivalent
for one step from an `I`-state is equivalent for every step. -/
theorem eachStep_congr {I : σ → Prop} {U P P' : σ → ι → Prop}
    (hI : ∀ s i, I s → U s i → I (step s i)) (h : ∀ s i, I s → (P s i ↔ P' s i)) {s : σ}
    {is : List ι} (hs : I s) (hU : EachStep step U s is) :
    EachStep step P s is ↔ EachStep step P' s is := by
  induction is generalizing s with
  | nil => exact Iff.rfl
  | cons i is ih => exact and_congr (h s i hs) (ih (hI s i hs hU.1) hU.2)

theorem eachStep_append {P : σ → ι → Prop} {s : σ} {is js : List ι} :
    EachStep step P s (is ++ js) ↔
      EachStep step P s is ∧ EachStep step P (exec step s is) js := by
  induction is generalizing s with
  | nil => simp [EachStep]
  | cons i is ih => simp only [List.cons_append, EachStep, exec_cons, ih, and_assoc]

/-- Every step meets `P` when each does where the run stands by then. -/
theorem eachStep_of_split {P : σ → ι → Prop} {s : σ} {is : List ι}
    (h : ∀ before i after, is = before ++ i :: after → P (exec step s before) i) :
    EachStep step P s is := by
  induction is generalizing s with
  | nil => trivial
  | cons i is ih =>
    refine ⟨h [] i is rfl, ih fun before j after hsplit => ?_⟩
    exact h (i :: before) j after (congrArg (i :: ·) hsplit)

theorem EachStep.and {P P' : σ → ι → Prop} {s : σ} {is : List ι} (h : EachStep step P s is)
    (h' : EachStep step P' s is) : EachStep step (fun s i => P s i ∧ P' s i) s is := by
  induction is generalizing s with
  | nil => trivial
  | cons i is ih => exact ⟨⟨h.1, h'.1⟩, ih h.2 h'.2⟩

/-- The last value `f` reads off a step of the run. -/
def latest {τ : Type*} (step : σ → ι → σ) (f : σ → ι → Option τ) : σ → List ι → Option τ
  | _, [] => none
  | s, i :: is => (latest step f (step s i) is).or (f s i)

/-- The invariant rule with the last value read as a part of the state. -/
theorem latest_rule {τ : Type*} {f : σ → ι → Option τ} {Q : σ → Option τ → Prop} {is : List ι}
    (hstep : ∀ s w, ∀ i ∈ is, Q s w → Q (step s i) ((f s i).or w)) {s : σ} {w : Option τ}
    (hs : Q s w) : Q (exec step s is) ((latest step f s is).or w) := by
  induction is generalizing s w with
  | nil => exact hs
  | cons i is ih =>
    have hnext : Q (step s i) ((f s i).or w) := hstep s w i List.mem_cons_self hs
    have htail := ih (fun s w j hj => hstep s w j (List.mem_cons_of_mem i hj)) hnext
    rwa [← Option.or_assoc] at htail

/-- Every value `f` reads off a step of the run, in order. -/
def logged {τ : Type*} (step : σ → ι → σ) (f : σ → ι → Option τ) : σ → List ι → List τ
  | _, [] => []
  | s, i :: is => (f s i).toList ++ logged step f (step s i) is

theorem logged_append {τ : Type*} (f : σ → ι → Option τ) (s : σ) (is js : List ι) :
    logged step f s (is ++ js) = logged step f s is ++ logged step f (exec step s is) js := by
  induction is generalizing s with
  | nil => rfl
  | cons i is ih => simp only [List.cons_append, logged, exec_cons, ih, List.append_assoc]

/-- Where every step shows a value, the log has one entry a step. -/
theorem length_logged {τ : Type*} (f : σ → ι → τ) (s : σ) (is : List ι) :
    (logged step (fun s i => some (f s i)) s is).length = is.length := by
  induction is generalizing s with
  | nil => rfl
  | cons i is ih => simp [logged, ih]

/-- The invariant rule with the log of the run as a part of the state. -/
theorem logged_rule {τ : Type*} {f : σ → ι → Option τ} {P : σ → ι → Prop}
    {Q : σ → List τ → Prop} {is : List ι}
    (hstep : ∀ s log i, Q s log → P s i → Q (step s i) (log ++ (f s i).toList)) {s : σ}
    {log : List τ} (hs : Q s log) (h : EachStep step P s is) :
    Q (exec step s is) (log ++ logged step f s is) := by
  induction is generalizing s log with
  | nil => simpa [logged] using hs
  | cons i is ih =>
    have hnext : Q (step s i) (log ++ (f s i).toList) := hstep s log i hs h.1
    have htail := ih hnext h.2
    rwa [List.append_assoc] at htail

/-- `s'` is reached from `s` by inputs that all meet `P`. -/
def Reach (step : σ → ι → σ) (P : ι → Prop) (s s' : σ) : Prop :=
  ∃ is, (∀ i ∈ is, P i) ∧ exec step s is = s'

theorem Reach.refl {P : ι → Prop} (s : σ) : Reach step P s s :=
  ⟨[], by simp, rfl⟩

theorem Reach.single {P : ι → Prop} (s : σ) {i : ι} (hi : P i) : Reach step P s (step s i) :=
  ⟨[i], by simpa using hi, rfl⟩

theorem Reach.trans {P : ι → Prop} {s t u : σ} (h : Reach step P s t) (h' : Reach step P t u) :
    Reach step P s u := by
  obtain ⟨is, his, rfl⟩ := h
  obtain ⟨js, hjs, rfl⟩ := h'
  exact ⟨is ++ js, List.forall_mem_append.mpr ⟨his, hjs⟩, exec_append step s is js⟩

theorem Reach.imp {P P' : ι → Prop} (hP : ∀ i, P i → P' i) {s s' : σ}
    (h : Reach step P s s') : Reach step P' s s' := by
  obtain ⟨is, his, hexec⟩ := h
  exact ⟨is, fun i hi => hP i (his i hi), hexec⟩

/-- The invariant rule for reachability. -/
theorem Reach.invariant {P : ι → Prop} {Q : σ → Prop}
    (hstep : ∀ s i, Q s → P i → Q (step s i)) {s s' : σ} (h : Reach step P s s') (hs : Q s) :
    Q s' := by
  obtain ⟨is, his, rfl⟩ := h
  induction is generalizing s with
  | nil => exact hs
  | cons i is ih =>
    obtain ⟨hi, his⟩ := List.forall_mem_cons.mp his
    exact ih (hstep s i hs hi) his

end OneRun

/-! ## Two runs -/

section TwoRuns

variable {σ ι ν ο α β : Type*} (step : σ → ι → ν → σ × ο)

/-- The states reached and the outputs produced, step by step. -/
def transcript : σ → List (ι × ν) → List (σ × ο)
  | _, [] => []
  | s, (i, n) :: is => step s i n :: transcript (step s i n).1 is

variable {step}

/-- **Projection.** A machine with private inputs `ν` has a view of
itself, `abs` of its states and `out` of its outputs, that moves by
`next` and shows `obs` whatever the private inputs are. Then two runs
over the same shared inputs, from states with one view, show the same. -/
theorem transcript_view_eq {Q : σ → Prop} (abs : σ → α) (out : ο → β) (next : α → ι → α)
    (obs : α → ι → β)
    (hstep : ∀ s i n, Q s → Q (step s i n).1 ∧ abs (step s i n).1 = next (abs s) i ∧
      out (step s i n).2 = obs (abs s) i)
    {s t : σ} (hs : Q s) (ht : Q t) (hst : abs s = abs t) (is : List (ι × ν × ν)) :
    (transcript step s (is.map fun x => (x.1, x.2.1))).map (fun a => (abs a.1, out a.2)) =
      (transcript step t (is.map fun x => (x.1, x.2.2))).map fun a => (abs a.1, out a.2) := by
  induction is generalizing s t with
  | nil => rfl
  | cons x is ih =>
    obtain ⟨i, n, m⟩ := x
    obtain ⟨hQs, habs, hout⟩ := hstep s i n hs
    obtain ⟨hQt, habs', hout'⟩ := hstep t i m ht
    simp only [List.map_cons, transcript, List.cons.injEq, Prod.mk.injEq]
    refine ⟨⟨?_, ?_⟩, ih hQs hQt ?_⟩
    · rw [habs, habs', hst]
    · rw [hout, hout', hst]
    · rw [habs, habs', hst]

end TwoRuns

end Runs
