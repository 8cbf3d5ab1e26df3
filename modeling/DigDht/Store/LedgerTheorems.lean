/-
DigDht.Store.LedgerTheorems — the store against the ledger it stands for.

§1 is what a provider store is for, with nothing bounded and nothing
swept: a `Ledger` says which record each pair was last given, and which
keys are announced. §2 runs a store beside its ledger (`Audit`). What the
store holds, the ledger holds (`Below`), whatever the caps: a record that
was superseded or taken back is never served again. §3 is the other
direction. A sweep loses nothing a read can see, and a put does exactly
where a cap turns a live record away or an eviction picks one
(`Lossless`); so the store serves the ledger to the letter along the runs
whose puts all find room, and along no others.
-/
import DigDht.Store.SweepTheorems

namespace DigDht.Store

open Record Runs

/-! ## §1 The ledger -/

/-- Who provides what, with no bound on either. -/
structure Ledger where
  held : String → String → Option ProviderRecord
  announced : String → Option (Option String)

namespace Ledger

def empty : Ledger where
  held := fun _ _ => none
  announced := fun _ => none

/-- What a pair holds from now on. -/
def write (l : Ledger) (k x : String) (r : Option ProviderRecord) : Ledger :=
  { l with held := Function.update l.held k (Function.update (l.held k) x r) }

/-- What an operation means. Reads change nothing, and neither does a sweep. -/
def step (l : Ledger) : StoreOp → Ledger
  | .putAt r _ => l.write r.contentKey r.providerPeerId (some r)
  | .remove k x => l.write k x none
  | .removeKey k => { l with held := Function.update l.held k fun _ => none }
  | .markAnnounced k => { l with announced := Function.update l.announced k (some none) }
  | .markAnnouncedWithCollateral k coin =>
    { l with announced := Function.update l.announced k (some coin) }
  | .unmarkAnnounced k => { l with announced := Function.update l.announced k none }
  | .get _ _ => l
  | .snapshot _ _ => l
  | .gc _ => l

/-- The live record of a pair. -/
def live (l : Ledger) (now : Nat) (k x : String) : Option ProviderRecord :=
  (l.held k x).filter fun r => !r.isExpired now

/-- What a read of a key at `now` is to return. -/
def serves (l : Ledger) (k : String) (now : Nat) : Set ProviderRecord :=
  {r | ∃ x, l.live now k x = some r}

@[simp] theorem announced_write (l : Ledger) (k x : String) (r : Option ProviderRecord) :
    (l.write k x r).announced = l.announced := rfl

theorem held_write (l : Ledger) (k x : String) (r : Option ProviderRecord) (k' x' : String) :
    (l.write k x r).held k' x' = if k' = k ∧ x' = x then r else l.held k' x' := by
  simp only [write, Function.update_apply]
  by_cases hk : k' = k
  · subst hk
    by_cases hx : x' = x <;> simp [hx]
  · simp [hk]

end Ledger

/-! ## §2 A store beside its ledger -/

/-- A store, its ledger and the latest clock they were given. -/
structure Audit where
  store : ProviderStore
  ledger : Ledger
  clock : Nat

/-- The clock reading an operation acts on. -/
def StoreOp.clock : StoreOp → Option Nat
  | .putAt _ now => some now
  | .gc now => some now
  | _ => none

namespace Audit

def start (limits : ProviderStoreLimits) : Audit where
  store := ProviderStore.withLimits limits
  ledger := Ledger.empty
  clock := 0

def step (a : Audit) (op : StoreOp) : Audit where
  store := Store.step a.store op
  ledger := a.ledger.step op
  clock := op.clock.getD a.clock

/-- What the store holds, the ledger holds; and they agree on the
announcements. -/
structure Below (a : Audit) : Prop where
  records : ∀ k x e, a.store.entry k x = some e → a.ledger.held k x = some e.record
  announced : ∀ k, a.store.announced.lookup k = a.ledger.announced k

theorem below_start (limits : ProviderStoreLimits) : (start limits).Below where
  records := by simp [start, ProviderStore.withLimits, ProviderStore.entry]
  announced := by simp [start, ProviderStore.withLimits, Ledger.empty]

end Audit

/-- What a put leaves under a pair: its own record, or what was there. -/
theorem ProviderStore.entry_of_entry_putAt {s : ProviderStore} {r : ProviderRecord} {now : Nat}
    {k x : String} {e : ProviderEntry} (h : (s.putAt r now).1.entry k x = some e) :
    (k = r.contentKey ∧ x = r.providerPeerId) ∧ e.record = r ∨
      ¬(k = r.contentKey ∧ x = r.providerPeerId) ∧ s.entry k x = some e := by
  by_cases hkx : k = r.contentKey ∧ x = r.providerPeerId
  · refine Or.inl ⟨hkx, ?_⟩
    obtain ⟨rfl, rfl⟩ := hkx
    obtain ⟨d, -, hput⟩ | ⟨hnew, hput⟩ | ⟨ps, -, -, -, hput⟩ := s.putAt_cases r now <;>
      rw [hput] at h
    · simp only [entry_refresh, and_self, if_true, Option.some.injEq] at h
      rw [← h]
    · simp only [hnew] at h
      cases h
    · simp only [entry_admitNew, if_true, Option.some.injEq] at h
      rw [← h]
  · refine Or.inr ⟨hkx, ?_⟩
    obtain ⟨d, -, hput⟩ | ⟨-, hput⟩ | ⟨ps, -, -, hroom, hput⟩ := s.putAt_cases r now <;>
      rw [hput] at h
    · simpa only [entry_refresh, if_neg hkx] using h
    · exact h
    · rw [entry_admitNew] at h
      by_cases hk : k = r.contentKey
      · have hx : x ≠ r.providerPeerId := fun hx => hkx ⟨hk, hx⟩
        rw [if_pos hk, if_neg hx] at h
        rw [hk]
        exact entry_of_makeRoom hroom h
      · rwa [if_neg hk] at h

namespace Audit

variable {a : Audit}

theorem records_step (h : a.Below) (op : StoreOp) {k x : String} {e : ProviderEntry}
    (he : (a.step op).store.entry k x = some e) :
    (a.step op).ledger.held k x = some e.record := by
  cases op with
  | putAt r now =>
    simp only [step, Ledger.step, Store.step, Ledger.held_write] at he ⊢
    rcases ProviderStore.entry_of_entry_putAt he with ⟨hkx, rfl⟩ | ⟨hkx, hold⟩
    · rw [if_pos hkx]
    · rw [if_neg hkx]
      exact h.records k x e hold
  | gc now =>
    simp only [step, Store.step, ProviderStore.entry_gc, Option.filter_eq_some_iff] at he
    exact h.records k x e he.1
  | remove k' x' =>
    simp only [step, Ledger.step, Store.step, Ledger.held_write,
      ProviderStore.entry_remove] at he ⊢
    split at he
    · cases he
    · rename_i hkx
      rw [if_neg hkx]
      exact h.records k x e he
  | removeKey k' =>
    simp only [step, Ledger.step, Store.step, Function.update_apply,
      ProviderStore.entry_removeKey] at he ⊢
    split at he
    · cases he
    · rename_i hk
      rw [if_neg hk]
      exact h.records k x e he
  | get _ _ => exact h.records k x e he
  | snapshot _ _ => exact h.records k x e he
  | markAnnounced _ => exact h.records k x e he
  | markAnnouncedWithCollateral _ _ => exact h.records k x e he
  | unmarkAnnounced _ => exact h.records k x e he

theorem announced_step (h : a.Below) (op : StoreOp) (k : String) :
    (a.step op).store.announced.lookup k = (a.step op).ledger.announced k := by
  have hmark : ∀ k' coin, (a.store.markAnnouncedWithCollateral k' coin).announced.lookup k =
      Function.update a.ledger.announced k' (some coin) k := by
    intro k' coin
    rw [Function.update_apply, ProviderStore.markAnnouncedWithCollateral]
    by_cases hk : k = k'
    · subst hk
      rw [if_pos rfl, AList.lookup_insert]
    · rw [if_neg hk, AList.lookup_insert_ne hk, h.announced k]
  cases op with
  | putAt r now =>
    simp only [step, Ledger.step, Store.step, ProviderStore.announced_putAt,
      Ledger.announced_write]
    exact h.announced k
  | remove k' x' =>
    simp only [step, Store.step]
    rcases a.store.remove_cases k' x' with ⟨-, heq⟩ | ⟨ps, -, ⟨-, heq⟩ | ⟨-, heq⟩⟩ <;>
      rw [heq] <;> exact h.announced k
  | markAnnounced k' => exact hmark k' none
  | markAnnouncedWithCollateral k' coin => exact hmark k' coin
  | unmarkAnnounced k' =>
    simp only [step, Ledger.step, Store.step, ProviderStore.unmarkAnnounced,
      Function.update_apply]
    by_cases hk : k = k'
    · subst hk
      rw [if_pos rfl, AList.lookup_erase]
    · rw [if_neg hk, AList.lookup_erase_ne hk, h.announced k]
  | get _ _ => exact h.announced k
  | snapshot _ _ => exact h.announced k
  | gc _ => exact h.announced k
  | removeKey _ => exact h.announced k

theorem below_step (h : a.Below) (op : StoreOp) : (a.step op).Below where
  records := fun _ _ _ he => records_step h op he
  announced := announced_step h op

/-- What the reads of the store return, against the ledger. -/
structure Conforms (a : Audit) : Prop where
  served : ∀ k t, {r | r ∈ a.store.get k t} ⊆ a.ledger.serves k t
  announcements : ∀ k, k ∈ a.store.localAnnouncements ↔ (a.ledger.announced k).isSome
  collateral : ∀ k, a.store.announcedCollateral k = (a.ledger.announced k).join

theorem Below.conforms (h : a.Below) : a.Conforms where
  served := by
    intro k t r hr
    obtain ⟨x, e, he, rfl, hlive⟩ := ProviderStore.mem_get hr
    exact ⟨x, by simp [Ledger.live, h.records k x e he, Option.filter, hlive]⟩
  announcements := by
    intro k
    rw [ProviderStore.localAnnouncements, FMap.mem_keys_iff, h.announced k,
      Option.isSome_iff_exists]
  collateral := by
    intro k
    rw [ProviderStore.announcedCollateral, h.announced k]

/-- **The store never outruns its ledger**, whatever its limits: in every
state of every run a read returns only records their pairs hold, and the
announcements are the ledger's. -/
theorem always_conforms (limits : ProviderStoreLimits) (ops : List StoreOp) :
    Always step Conforms (start limits) ops := by
  have hbelow : Always step Below (start limits) ops :=
    always_of_step (Q := Below) (fun _ op h => below_step h op) (below_start limits) ops
  exact hbelow.imp fun _ h => h.conforms

end Audit

/-! ## §3 Where they agree -/

namespace ProviderStore

instance decidableHasSlot (s : ProviderStore) (k : String) (now : Nat) :
    Decidable (s.HasSlot k now) :=
  have hdead : (∃ e ∈ FMap.values (s.providersOf k), e.record.isExpired now = true) ↔
      s.HasExpired k now := by
    simp only [HasExpired, mem_values_providersOf]
    grind
  have : Decidable (s.HasExpired k now) := decidable_of_iff _ hdead
  inferInstanceAs (Decidable (_ ∨ _))

/-- A put that no read can find fault with: it refreshes a pair, it is
dead on arrival and turned away, or it is let in where a slot is free. -/
def Lossless (s : ProviderStore) : StoreOp → Prop
  | .putAt r now => s.entry r.contentKey r.providerPeerId ≠ none ∨
      if s.limits.maxTotalRecords ≤ s.len then r.isExpired now = true
      else s.HasSlot r.contentKey now
  | _ => True

instance decidableLossless (s : ProviderStore) : ∀ op, Decidable (s.Lossless op)
  | .putAt r now => inferInstanceAs (Decidable (s.entry r.contentKey r.providerPeerId ≠ none ∨
      if s.limits.maxTotalRecords ≤ s.len then r.isExpired now = true
      else s.HasSlot r.contentKey now))
  | .get _ _ | .snapshot _ _ | .gc _ | .remove _ _ | .removeKey _ | .markAnnounced _
  | .markAnnouncedWithCollateral _ _ | .unmarkAnnounced _ => isTrue trivial

theorem liveRecord_eq (s : ProviderStore) (now : Nat) (k x : String) :
    s.liveRecord now k x =
      ((s.entry k x).map ProviderEntry.record).filter fun r => !r.isExpired now := by
  rw [liveRecord]
  cases s.entry k x with
  | none => rfl
  | some e => cases h : e.record.isExpired now <;> simp [Option.filter, h]

end ProviderStore

/-- What is live later is to be found among what is live now. -/
theorem filter_live_of_le {c t : Nat} (ht : c ≤ t) (o : Option ProviderRecord) :
    (o.filter fun r => !r.isExpired c).filter (fun r => !r.isExpired t) =
      o.filter fun r => !r.isExpired t := by
  cases o with
  | none => rfl
  | some r =>
    cases hdead : r.isExpired c with
    | true => simp [Option.filter, hdead, ProviderStore.isExpired_mono ht hdead]
    | false => simp [Option.filter, hdead]

namespace Audit

variable {a : Audit}

/-- The operation's clock is not behind the run's. -/
def Timely (a : Audit) (op : StoreOp) : Prop :=
  a.clock ≤ op.clock.getD a.clock

instance decidableTimely (a : Audit) (op : StoreOp) : Decidable (a.Timely op) :=
  inferInstanceAs (Decidable (a.clock ≤ op.clock.getD a.clock))

/-- From now on, a read of any key returns what the ledger says. -/
def Faithful (a : Audit) : Prop :=
  ∀ t, a.clock ≤ t → ∀ k, {r | r ∈ a.store.get k t} = a.ledger.serves k t

/-- The same of the pairs, at the clock. -/
def Agrees (a : Audit) : Prop :=
  ∀ k x, a.store.liveRecord a.clock k x = a.ledger.live a.clock k x

theorem Agrees.later (h : a.Agrees) {t : Nat} (ht : a.clock ≤ t) (k x : String) :
    a.store.liveRecord t k x = a.ledger.live t k x := by
  have hnow := h k x
  rw [ProviderStore.liveRecord_eq, Ledger.live] at hnow ⊢
  rw [← filter_live_of_le ht, hnow, filter_live_of_le ht]

/-- What every run keeps: the store is well formed and below its ledger,
which files each record under its own pair. -/
structure Sound (a : Audit) : Prop where
  wellFormed : a.store.WellFormed
  below : a.Below
  keyed : ∀ k x r, a.ledger.held k x = some r → r.contentKey = k ∧ r.providerPeerId = x

theorem sound_start (limits : ProviderStoreLimits) : (start limits).Sound where
  wellFormed := ProviderStore.wellFormed_withLimits limits
  below := below_start limits
  keyed := by simp [start, Ledger.empty]

theorem keyed_step (h : a.Sound) (op : StoreOp) {k x : String} {r : ProviderRecord}
    (hr : (a.step op).ledger.held k x = some r) : r.contentKey = k ∧ r.providerPeerId = x := by
  cases op with
  | putAt r' now =>
    simp only [step, Ledger.step, Ledger.held_write] at hr
    split at hr
    · rename_i hkx
      cases hr
      exact ⟨hkx.1.symm, hkx.2.symm⟩
    · exact h.keyed k x r hr
  | remove k' x' =>
    simp only [step, Ledger.step, Ledger.held_write] at hr
    split at hr
    · cases hr
    · exact h.keyed k x r hr
  | removeKey k' =>
    simp only [step, Ledger.step, Function.update_apply] at hr
    split at hr
    · cases hr
    · exact h.keyed k x r hr
  | get _ _ => exact h.keyed k x r hr
  | snapshot _ _ => exact h.keyed k x r hr
  | gc _ => exact h.keyed k x r hr
  | markAnnounced _ => exact h.keyed k x r hr
  | markAnnouncedWithCollateral _ _ => exact h.keyed k x r hr
  | unmarkAnnounced _ => exact h.keyed k x r hr

theorem sound_step (h : a.Sound) (op : StoreOp) : (a.step op).Sound where
  wellFormed := ProviderStore.wellFormed_step h.wellFormed op
  below := below_step h.below op
  keyed := fun _ _ _ hr => keyed_step h op hr

/-- A record names its pair, so reads agree key by key when they agree
pair by pair. -/
theorem faithful_iff_agrees (h : a.Sound) : a.Faithful ↔ a.Agrees := by
  constructor
  · intro hread k x
    have hkey := hread a.clock le_rfl k
    have hmine : ∀ x' r, a.store.liveRecord a.clock k x' = some r →
        r.providerPeerId = x' := by
      intro x' r hr
      obtain ⟨e, he, rfl⟩ := Option.map_eq_some_iff.mp hr
      exact (h.wellFormed.key_agrees k x' e (Option.filter_eq_some_iff.mp he).1).2
    have htheirs : ∀ x' r, a.ledger.live a.clock k x' = some r → r.providerPeerId = x' :=
      fun x' r hr => (h.keyed k x' r (Option.filter_eq_some_iff.mp hr).1).2
    ext r
    have hmem := Set.ext_iff.mp hkey r
    simp only [Set.mem_ofPred_eq, Ledger.serves, ProviderStore.mem_get_iff] at hmem
    constructor
    · intro hr
      obtain ⟨x', hr'⟩ := hmem.mp ⟨x, hr⟩
      rwa [← hmine x r hr, htheirs x' r hr']
    · intro hr
      obtain ⟨x', hr'⟩ := hmem.mpr ⟨x, hr⟩
      rwa [← htheirs x r hr, hmine x' r hr']
  · intro hpairs t ht k
    ext r
    simp only [Set.mem_ofPred_eq, Ledger.serves, ProviderStore.mem_get_iff, hpairs.later ht k]

section Putting

variable {r : ProviderRecord} {now : Nat}

theorem live_write_some (l : Ledger) (r : ProviderRecord) (now : Nat) (k x : String) :
    (l.write r.contentKey r.providerPeerId (some r)).live now k x =
      if k = r.contentKey ∧ x = r.providerPeerId then
        (some r).filter fun r => !r.isExpired now
      else l.live now k x := by
  rw [Ledger.live, Ledger.held_write]
  split <;> rfl

/-- A put that costs nothing is the ledger's. -/
theorem agrees_of_keepsLive (hold : ∀ k x, a.store.liveRecord now k x = a.ledger.live now k x)
    (hkeeps : a.store.KeepsLive r now (a.store.putAt r now).1) :
    (a.step (.putAt r now)).Agrees := by
  intro k x
  simp only [step, Ledger.step, Store.step, StoreOp.clock, Option.getD_some, live_write_some]
  rw [ProviderStore.liveRecord_eq]
  by_cases hkx : k = r.contentKey ∧ x = r.providerPeerId
  · rw [if_pos hkx, hkx.1, hkx.2, hkeeps.stored]
  · rw [if_neg hkx, ← hold k x, ← ProviderStore.liveRecord_eq, ProviderStore.liveRecord,
      hkeeps.others k x hkx]
    rfl

/-- A newcomer that the full store turns away is missed while it lives. -/
theorem agrees_of_rejected (hold : ∀ k x, a.store.liveRecord now k x = a.ledger.live now k x)
    (hnew : a.store.entry r.contentKey r.providerPeerId = none)
    (hput : (a.store.putAt r now).1 = a.store) :
    (a.step (.putAt r now)).Agrees ↔ r.isExpired now = true := by
  simp only [Agrees, step, Ledger.step, Store.step, StoreOp.clock, Option.getD_some, hput,
    live_write_some]
  constructor
  · intro h
    have hpair := h r.contentKey r.providerPeerId
    rw [ProviderStore.liveRecord_eq, hnew, if_pos ⟨rfl, rfl⟩] at hpair
    simpa [Option.filter] using hpair
  · intro hdead k x
    split
    · rename_i hkx
      rw [ProviderStore.liveRecord_eq, hkx.1, hkx.2, hnew]
      simp [Option.filter, hdead]
    · exact hold k x

/-- Where no slot is free a live record goes, and the ledger misses it. -/
theorem not_agrees_of_evicted (h : a.Sound)
    (hnew : a.store.entry r.contentKey r.providerPeerId = none)
    (hroom : a.store.len < a.store.limits.maxTotalRecords)
    (hslot : ¬a.store.HasSlot r.contentKey now) : ¬(a.step (.putAt r now)).Agrees := by
  rw [ProviderStore.HasSlot, not_or, Nat.not_lt] at hslot
  obtain ⟨hfull, hlive⟩ := hslot
  obtain ⟨victim, ⟨e, he, -⟩, hafter⟩ :=
    ProviderStore.putAt_of_full h.wellFormed hnew hroom now hfull
  have hother : victim ≠ r.providerPeerId := by
    rintro rfl
    rw [hnew] at he
    cases he
  have helive : e.record.isExpired now = false := by
    by_contra hdead
    rw [Bool.not_eq_false] at hdead
    exact hlive ⟨victim, e, he, hdead⟩
  intro hagrees
  have hpair := hagrees r.contentKey victim
  simp only [step, Ledger.step, Store.step, StoreOp.clock, Option.getD_some, live_write_some,
    hother, and_false, if_false] at hpair
  rw [ProviderStore.liveRecord_eq, hafter, if_neg hother, if_pos rfl, Ledger.live,
    h.below.records _ _ e he] at hpair
  simp [Option.filter, helive] at hpair

theorem agrees_putAt (h : a.Sound) (hnow : a.clock ≤ now) (hagrees : a.Agrees) :
    (a.step (.putAt r now)).Agrees ↔ a.store.Lossless (.putAt r now) := by
  have hold := fun k x => hagrees.later hnow k x
  rw [ProviderStore.Lossless]
  cases hstored : a.store.entry r.contentKey r.providerPeerId with
  | some e =>
    have hput : (a.store.putAt r now).1 = a.store.refresh e r := by
      simp [ProviderStore.putAt, hstored]
    have hkeeps := ProviderStore.keepsLive_refresh a.store e r now
    rw [← hput] at hkeeps
    simp [agrees_of_keepsLive hold hkeeps]
  | none =>
    simp only [ne_eq, not_true_eq_false, false_or]
    by_cases hfull : a.store.limits.maxTotalRecords ≤ a.store.len
    · have hreject := (ProviderStore.putAt_rejected_iff h.wellFormed r now).mpr ⟨hstored, hfull⟩
      have hput := (ProviderStore.putAt_of_not_accepted (by rw [hreject]; decide)).1
      rw [if_pos hfull]
      exact agrees_of_rejected hold hstored hput
    · rw [if_neg hfull]
      rw [Nat.not_le] at hfull
      constructor
      · intro hafter
        by_contra hslot
        exact not_agrees_of_evicted h hstored hfull hslot hafter
      · intro hslot
        exact agrees_of_keepsLive hold
          (ProviderStore.keepsLive_putAt h.wellFormed hstored hfull hslot)

end Putting

/-- An operation keeps the agreement exactly when it loses nothing. -/
theorem agrees_step (h : a.Sound) {op : StoreOp} (hop : a.Timely op) (hagrees : a.Agrees) :
    (a.step op).Agrees ↔ a.store.Lossless op := by
  cases op with
  | putAt r now => exact agrees_putAt h hop hagrees
  | gc now =>
    simp only [ProviderStore.Lossless, iff_true]
    intro k x
    have hswept := ProviderStore.liveRecord_gc a.store now k x
    exact hswept.trans (hagrees.later hop k x)
  | remove k' x' =>
    simp only [ProviderStore.Lossless, iff_true]
    intro k x
    have hpair := hagrees k x
    simp only [ProviderStore.liveRecord_eq, Ledger.live] at hpair
    simp only [step, Ledger.step, Store.step, StoreOp.clock, Option.getD_none,
      ProviderStore.liveRecord_eq, Ledger.live, Ledger.held_write, ProviderStore.entry_remove]
    split
    · rfl
    · exact hpair
  | removeKey k' =>
    simp only [ProviderStore.Lossless, iff_true]
    intro k x
    have hpair := hagrees k x
    simp only [ProviderStore.liveRecord_eq, Ledger.live] at hpair
    simp only [step, Ledger.step, Store.step, StoreOp.clock, Option.getD_none,
      ProviderStore.liveRecord_eq, Ledger.live, Function.update_apply,
      ProviderStore.entry_removeKey]
    split
    · rfl
    · exact hpair
  | get _ _ => exact iff_of_true hagrees trivial
  | snapshot _ _ => exact iff_of_true hagrees trivial
  | markAnnounced _ => exact iff_of_true hagrees trivial
  | markAnnouncedWithCollateral _ _ => exact iff_of_true hagrees trivial
  | unmarkAnnounced _ => exact iff_of_true hagrees trivial

theorem faithful_start (limits : ProviderStoreLimits) : (start limits).Faithful := by
  rw [faithful_iff_agrees (sound_start limits)]
  intro k x
  simp [start, ProviderStore.liveRecord, ProviderStore.entry, ProviderStore.withLimits,
    Ledger.live, Ledger.empty]

/-- **Bounded, the store is the ledger exactly while every put finds
room**: along a run whose clocks never go back, each read of each state
from its clock on returns what the ledger says if and only if no put is
turned away alive and none takes the slot of a live record. -/
theorem faithful_iff_lossless (limits : ProviderStoreLimits) (ops : List StoreOp)
    (h : EachStep step Timely (start limits) ops) :
    Always step Faithful (start limits) ops ↔
      EachStep step (fun a op => a.store.Lossless op) (start limits) ops := by
  refine always_iff_eachStep_of (G := Sound) ?_ ?_ (sound_start limits)
    (faithful_start limits) h
  · intro a op hs _
    exact sound_step hs op
  · intro a op hs hop hread
    rw [faithful_iff_agrees (sound_step hs op)]
    exact agrees_step hs hop ((faithful_iff_agrees hs).mp hread)

/-- A key of two slots outlives a dead provider, a sweep and a withdrawal. -/
theorem faithful_iff_lossless_run :
    let announce (key provider : String) (expiresAt now : Nat) : StoreOp :=
      .putAt ⟨key, provider, [], expiresAt, none⟩ now
    Always step Faithful (start ⟨2, 3⟩)
      [announce "a" "p" 5 0, announce "a" "q" 9 1, announce "a" "q" 12 4, .get "a" 4,
        announce "a" "r" 14 5, announce "b" "p" 15 6, announce "c" "p" 6 6, .gc 7,
        .remove "a" "q", announce "a" "p" 20 8, .markAnnounced "a"] :=
  (faithful_iff_lossless ⟨2, 3⟩ _ (by decide)).mpr (by decide)

end Audit

end DigDht.Store
