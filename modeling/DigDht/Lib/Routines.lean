/-
DigDht.Lib.Routines — asynchronous routines that share a state.

Nothing here names a program. A `Routine σ ε μ α` is what an asynchronous
function compiles to: it runs from one point where others may run to the
next. Between two such points it acts on the shared state `σ` alone and
at once (the state is locked, or nobody else is looking); with what its
environment gives it there (`ε`) it sends messages (`μ`) and decides how
it goes on. The notions:

* `access`, `send` and `>>=` build routines as a source writes them;
* `Alone` runs a routine that nobody interrupts;
* `Pool.step` runs any number of routines, one window of one of them at a
  time: a list of events is a schedule, and a routine that is never
  advanced again was dropped. Each message is logged with the routine that
  sent it;
* `Upholds I E L P Q t` is the judgement that makes schedules disappear:
  from every state in which `I` holds, whatever others did to it
  meanwhile, each window of `t` restores `I` and sends what meets `P`, and
  the value returned meets `Q`. All of this may speak of what is on the
  log: `t` relies on `L` of the messages it sends itself. It composes
  along `>>=` (`Upholds.bind`), and routines that uphold `I` keep it under
  every schedule (`Pool.always_guarded`); `L` can be the log of the whole
  run, which only grows (`Pool.sent_exec_subset`).
-/
import DigDht.Lib.Runs

/-- An asynchronous function, at a point where it can be interrupted. -/
inductive Routine.{u} (σ ε μ α : Type u) : Type u where
  | done (a : α)
  /-- It panicked. -/
  | halted
  | window (act : σ → ε → σ × List μ) (next : σ → ε → Routine σ ε μ α)

namespace Routine

universe u v

variable {σ ε μ α β : Type u}

/-! ## §1 Building routines -/

def bind : Routine σ ε μ α → (α → Routine σ ε μ β) → Routine σ ε μ β
  | done a, k => k a
  | halted, _ => halted
  | window act next, k => window act fun s e => (next s e).bind k

instance : Monad (Routine σ ε μ) where
  pure := done
  bind := bind

/-- One window on the shared state. -/
def access (f : σ → ε → σ × β) : Routine σ ε μ β :=
  window (fun s e => ((f s e).1, [])) fun s e => done (f s e).2

/-- Messages are sent, and the environment answers; the state is only read. -/
def send (out : σ → ε → List μ × β) : Routine σ ε μ β :=
  window (fun s e => (s, (out s e).1)) fun s e => done (out s e).2

/-! ## §2 A routine alone -/

/-- `Alone view G t s s' sent a`: uninterrupted, its windows given what
meets `G`, `t` takes the state from `s` to `s'`, sends what `view` shows as
`sent` and returns `a`, or panics (`none`). -/
inductive Alone {ν : Type v} (view : μ → ν) (G : ε → Prop) :
    Routine σ ε μ α → σ → σ → List ν → Option α → Prop
  | done (a : α) (s : σ) : Alone view G (.done a) s s [] (some a)
  | halted (s : σ) : Alone view G .halted s s [] none
  | window (act : σ → ε → σ × List μ) (next : σ → ε → Routine σ ε μ α) {s s' : σ}
      {sent : List ν} {a : Option α} (e : ε) (he : G e)
      (h : Alone view G (next s e) (act s e).1 s' sent a) :
      Alone view G (.window act next) s s' ((act s e).2.map view ++ sent) a

namespace Alone

variable {ν : Type v} {view : μ → ν} {G : ε → Prop}
variable {t : Routine σ ε μ α} {k : α → Routine σ ε μ β} {s s' s'' : σ} {sent sent' : List ν}

theorem pure (a : α) (s : σ) :
    Alone view G (pure a : Routine σ ε μ α) s s [] (some a) :=
  .done a s

/-- One routine after another. -/
theorem bind {a : α} {b : Option β} (h : Alone view G t s s' sent (some a))
    (h' : Alone view G (k a) s' s'' sent' b) :
    Alone view G (t >>= k) s s'' (sent ++ sent') b := by
  induction t generalizing s sent with
  | done a' =>
    cases h
    exact h'
  | halted => cases h
  | window act next ih =>
    cases h with
    | window _ _ e he hnext =>
      rw [List.append_assoc]
      exact .window _ _ e he (ih s e hnext)

/-- Nothing follows a panic. -/
theorem bind_none (h : Alone view G t s s' sent none) :
    Alone view G (t >>= k) s s' sent none := by
  induction t generalizing s sent with
  | done a => cases h
  | halted =>
    cases h
    exact .halted _
  | window act next ih =>
    cases h with
    | window _ _ e he hnext => exact .window _ _ e he (ih s e hnext)

theorem access (f : σ → ε → σ × β) (s : σ) (e : ε) (he : G e) :
    Alone view G (Routine.access f : Routine σ ε μ β) s (f s e).1 [] (some (f s e).2) :=
  .window (fun s e => ((f s e).1, [])) _ e he (.done (f s e).2 (f s e).1)

theorem send (out : σ → ε → List μ × β) (s : σ) (e : ε) (he : G e) :
    Alone view G (Routine.send out) s s ((out s e).1.map view) (some (out s e).2) := by
  have h : Alone view G (Routine.send out) s s ((out s e).1.map view ++ []) (some (out s e).2) :=
    .window (fun s e => (s, (out s e).1)) _ e he (.done (out s e).2 s)
  rwa [List.append_nil] at h

/-- After a routine that sent nothing. -/
theorem bind_quiet {a : α} {b : Option β} (h : Alone view G t s s' [] (some a))
    (h' : Alone view G (k a) s' s'' sent b) : Alone view G (t >>= k) s s'' sent b :=
  h.bind h'

/-- Before a routine that sends nothing. -/
theorem bind_silent {a : α} {b : Option β} (h : Alone view G t s s' sent (some a))
    (h' : Alone view G (k a) s' s'' [] b) : Alone view G (t >>= k) s s'' sent b := by
  have hboth := h.bind h'
  rwa [List.append_nil] at hboth

theorem map {a : Option α} (f : α → β) (h : Alone view G t s s' sent a) :
    Alone view G (f <$> t) s s' sent (a.map f) := by
  cases a with
  | none => exact h.bind_none
  | some a => exact h.bind_silent (.done (f a) s')

end Alone

/-! ## §3 What a routine upholds -/

/-- Every window keeps the invariant and sends what is allowed, whatever
happened to the state before it; and what is returned is what was
promised. What a window sends is on the log by then. -/
def Upholds (I : σ → Prop) (E : σ → ε → Prop) (L P : μ → Prop) (Q : α → Prop) :
    Routine σ ε μ α → Prop
  | done a => Q a
  | halted => True
  | window act next => ∀ s e, I s → E s e → (∀ m ∈ (act s e).2, L m) →
      I (act s e).1 ∧ (∀ m ∈ (act s e).2, P m) ∧ Upholds I E L P Q (next s e)

namespace Upholds

variable {I : σ → Prop} {E : σ → ε → Prop} {L P : μ → Prop} {Q : α → Prop} {R : β → Prop}
variable {t : Routine σ ε μ α} {k : α → Routine σ ε μ β}

/-- The sequencing rule: what the first part promises is all the second
part may rely on. -/
theorem bind (h : Upholds I E L P Q t) (hk : ∀ a, Q a → Upholds I E L P R (k a)) :
    Upholds I E L P R (t >>= k) := by
  induction t with
  | done a => exact hk a h
  | halted => trivial
  | window act next ih =>
    intro s e hs he hlogged
    obtain ⟨hkeeps, hsends, hnext⟩ := h s e hs he hlogged
    exact ⟨hkeeps, hsends, ih s e hnext⟩

theorem map {f : α → β} (h : Upholds I E L P Q t) (hf : ∀ a, Q a → R (f a)) :
    Upholds I E L P R (f <$> t) :=
  h.bind hf

/-- Both branches, each under its condition. -/
theorem ite {c : Prop} [Decidable c] {t t' : Routine σ ε μ α} (h : c → Upholds I E L P Q t)
    (h' : ¬c → Upholds I E L P Q t') : Upholds I E L P Q (if c then t else t') := by
  split
  · exact h ‹c›
  · exact h' ‹¬c›

theorem access {f : σ → ε → σ × β} (h : ∀ s e, I s → E s e → I (f s e).1 ∧ R (f s e).2) :
    Upholds I E L P R (Routine.access f : Routine σ ε μ β) := by
  intro s e hs he _
  obtain ⟨hkeeps, hresult⟩ := h s e hs he
  exact ⟨hkeeps, nofun, hresult⟩

/-- What was sent, and with it what was answered, is on the log. -/
theorem send {out : σ → ε → List μ × β}
    (h : ∀ s e, I s → E s e → (∀ m ∈ (out s e).1, L m) →
      (∀ m ∈ (out s e).1, P m) ∧ R (out s e).2) :
    Upholds I E L P R (Routine.send out) := by
  intro s e hs he hlogged
  obtain ⟨hsends, hresult⟩ := h s e hs he hlogged
  exact ⟨hs, hsends, hresult⟩

end Upholds

end Routine

/-! ## §4 Schedules -/

/-- A state shared by running routines, and the log: all that was sent, and
by which of them. -/
structure Pool.{u} (σ ε μ α : Type u) where
  state : σ
  running : List (Routine σ ε μ α)
  sent : List (Nat × μ)

namespace Pool

universe u v

variable {σ ε μ α : Type u}

/-- What can happen next: a routine is started, or one gets to run a window. -/
inductive Turn (σ ε μ α : Type u) : Type u where
  | start (t : Routine σ ε μ α)
  | advance (i : Nat) (e : ε)

def step (p : Pool σ ε μ α) : Turn σ ε μ α → Pool σ ε μ α
  | .start t => { p with running := p.running ++ [t] }
  | .advance i e =>
    match p.running[i]? with
    | some (.window act next) =>
      { state := (act p.state e).1
        running := p.running.set i (next p.state e)
        sent := p.sent ++ (act p.state e).2.map fun m => (i, m) }
    | _ => p

theorem length_running_advance (p : Pool σ ε μ α) (i : Nat) (e : ε) :
    (p.step (.advance i e)).running.length = p.running.length := by
  simp only [step]
  split
  · exact List.length_set
  · rfl

/-- A state with nothing running. -/
def idle (s : σ) : Pool σ ε μ α where
  state := s
  running := []
  sent := []

/-- A routine at its end: what it returned, or that it panicked. -/
def ended : Option α → Routine σ ε μ α
  | some a => .done a
  | none => .halted

/-- Running a routine alone is one schedule: its windows, one after the
other. -/
theorem exists_schedule {ν : Type v} {view : μ → ν} {G : ε → Prop} {t : Routine σ ε μ α}
    {s s' : σ} {sent : List ν} {a : Option α} (h : t.Alone view G s s' sent a)
    {p : Pool σ ε μ α} {i : Nat} (hs : p.state = s) (hi : p.running[i]? = some t) :
    ∃ es : List ε, (∀ e ∈ es, G e) ∧
      (Runs.exec step p (es.map (.advance i))).state = s' ∧
      (Runs.exec step p (es.map (.advance i))).running = p.running.set i (ended a) ∧
      (Runs.exec step p (es.map (.advance i))).sent.map (fun x => view x.2) =
        p.sent.map (fun x => view x.2) ++ sent := by
  have hstays : ∀ {p : Pool σ ε μ α} {t : Routine σ ε μ α}, p.running[i]? = some t →
      p.running = p.running.set i t := by
    intro p t hi
    obtain ⟨hlt, rfl⟩ := List.getElem?_eq_some_iff.mp hi
    rw [List.set_getElem_self]
  induction h generalizing p with
  | done a s => exact ⟨[], nofun, hs, hstays hi, (List.append_nil _).symm⟩
  | halted s => exact ⟨[], nofun, hs, hstays hi, (List.append_nil _).symm⟩
  | window act next e he _ ih =>
    have hstep : p.step (.advance i e) =
        { state := (act p.state e).1
          running := p.running.set i (next p.state e)
          sent := p.sent ++ (act p.state e).2.map fun m => (i, m) } := by
      simp only [step, hi]
    have hlt := (List.getElem?_eq_some_iff.mp hi).1
    obtain ⟨es, hes, hstate, hrunning, hsent⟩ := ih (p := p.step (.advance i e))
      (by rw [hstep, hs]) (by rw [hstep, hs]; exact List.getElem?_set_self hlt)
    refine ⟨e :: es, List.forall_mem_cons.mpr ⟨he, hes⟩, hstate, ?_, ?_⟩
    · rw [List.map_cons, Runs.exec_cons, hrunning, hstep, List.set_set]
    · rw [List.map_cons, Runs.exec_cons, hsent, hstep, hs]
      simp [List.map_append, Function.comp_def]

/-! ### The log -/

theorem sent_step_subset (p : Pool σ ε μ α) (turn : Turn σ ε μ α) :
    p.sent ⊆ (p.step turn).sent := by
  cases turn with
  | start t => exact List.Subset.refl _
  | advance i e =>
    simp only [step]
    split
    · exact List.subset_append_left _ _
    · exact List.Subset.refl _

theorem sent_exec_subset (p : Pool σ ε μ α) (turns : List (Turn σ ε μ α)) :
    p.sent ⊆ (Runs.exec step p turns).sent :=
  Runs.exec_invariant (Q := fun q : Pool σ ε μ α => p.sent ⊆ q.sent)
    (fun q turn h => List.Subset.trans h (q.sent_step_subset turn)) (List.Subset.refl _) turns

section Guarded

variable (I : σ → Prop) (E : Nat → σ → ε → Prop) (L P : Nat → μ → Prop) (Q : Nat → α → Prop)

/-- What the `i`-th routine upholds, given what it may rely on. -/
def UpholdsAt (i : Nat) (t : Routine σ ε μ α) : Prop :=
  Routine.Upholds I (E i) (L i) (P i) (Q i) t

/-- The invariant holds, all that was sent was allowed, and every running
routine upholds the invariant from where it stands. -/
structure Guarded (p : Pool σ ε μ α) : Prop where
  state : I p.state
  running : ∀ i t, p.running[i]? = some t → UpholdsAt I E L P Q i t
  sent : ∀ x ∈ p.sent, P x.1 x.2

/-- The turn starts a routine that upholds the invariant, or gives a
running one what the environment may; and what is sent goes on the log. -/
def Allowed (p : Pool σ ε μ α) : Turn σ ε μ α → Prop
  | .start t => UpholdsAt I E L P Q p.running.length t
  | .advance i e => E i p.state e ∧ ∀ x ∈ (p.step (.advance i e)).sent, L x.1 x.2

variable {I E L P Q}

theorem guarded_idle {s : σ} (hs : I s) : Guarded I E L P Q (idle s : Pool σ ε μ α) where
  state := hs
  running := by simp [idle]
  sent := nofun

theorem guarded_step {p : Pool σ ε μ α} (h : Guarded I E L P Q p) {turn : Turn σ ε μ α}
    (hturn : Allowed I E L P Q p turn) : Guarded I E L P Q (p.step turn) := by
  cases turn with
  | start t =>
    refine ⟨h.state, ?_, h.sent⟩
    intro i t' ht'
    rcases Nat.lt_trichotomy i p.running.length with hlt | rfl | hgt
    · rw [step, List.getElem?_append_left hlt] at ht'
      exact h.running i t' ht'
    · rw [step, List.getElem?_concat_length] at ht'
      cases ht'
      exact hturn
    · rw [step, List.getElem?_eq_none (by simp; omega)] at ht'
      cases ht'
  | advance i e =>
    obtain ⟨he, hlogged⟩ := hturn
    simp only [step] at hlogged ⊢
    split at hlogged
    · rename_i act next hget
      obtain ⟨hkeeps, hsends, hnext⟩ := h.running i _ hget p.state e h.state he fun m hm =>
        hlogged (i, m) (List.mem_append_right _ (List.mem_map_of_mem hm))
      refine ⟨hkeeps, ?_, ?_⟩
      · intro j t' ht'
        by_cases hij : i = j
        · subst hij
          rw [List.getElem?_set_self (List.getElem?_eq_some_iff.mp hget).1] at ht'
          cases ht'
          exact hnext
        · rw [List.getElem?_set_ne hij] at ht'
          exact h.running j t' ht'
      · intro x hx
        rcases List.mem_append.mp hx with hx | hx
        · exact h.sent x hx
        · obtain ⟨m, hm, rfl⟩ := List.mem_map.mp hx
          exact hsends m hm
    · exact h

/-- Under every schedule of routines that uphold it, the invariant holds in
every state. -/
theorem always_guarded {p : Pool σ ε μ α} (h : Guarded I E L P Q p)
    {turns : List (Turn σ ε μ α)} (hturns : Runs.EachStep step (Allowed I E L P Q) p turns) :
    Runs.Always step (Guarded I E L P Q) p turns :=
  Runs.always_of_eachStep (fun _ _ h hturn => guarded_step h hturn) h hturns

/-- What a routine that ran to its end returned is what was promised. -/
theorem Guarded.returned {p : Pool σ ε μ α} (h : Guarded I E L P Q p) {i : Nat} {a : α}
    (ha : p.running[i]? = some (.done a)) : Q i a :=
  h.running i _ ha

end Guarded

end Pool
