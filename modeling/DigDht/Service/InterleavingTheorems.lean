/-
DigDht.Service.InterleavingTheorems — a retract among running
publications.

§1 is one window: what it does to the service and what it hands on. §2 is
the state a retract leaves when no running publication is still going to
put the key, and that every event keeps (`clean_step`); the retract is
then not undone (`retract_not_undone`). §3 connects the windows to the
source's loop: a publication that is never interrupted does what
`republish` does. §4 is the schedule that undoes a retract.
-/
import DigDht.Service.Interleaving
import DigDht.Service.RetractTheorems

namespace DigDht.Service

open Keyspace Record Routing Lookup Store Wire Content Runs

/-- The record a publication has in hand, and when it was built. -/
def Stage.held : Stage → Option (ProviderRecord × Nat)
  | .idle => none
  | .built _ record builtAt => some (record, builtAt)
  | .stored _ record builtAt => some (record, builtAt)
  | .found _ record builtAt _ => some (record, builtAt)
  | .sending _ record builtAt _ => some (record, builtAt)

/-- The record a publication is about to put. -/
def Stage.unstored : Stage → Option ProviderRecord
  | .built _ record _ => some record
  | _ => none

/-- A record about to be put is in hand. -/
theorem Stage.held_of_unstored {stage : Stage} {r : ProviderRecord} (h : stage.unstored = some r) :
    ∃ b, stage.held = some (r, b) := by
  cases stage with
  | built target record b =>
    cases h
    exact ⟨b, rfl⟩
  | idle => cases h
  | stored target record b => cases h
  | found target record b closest => cases h
  | sending target record b peers => cases h

section Windows

variable [Deps]

/-! ## §1 One window -/

/-- The publication has yet to put a record for `content`. -/
def Publication.WillStore (content : ContentId) (p : Publication) : Prop :=
  content.toKey.toHex ∈ p.pending ∨
    p.stage.unstored.any (fun r => r.contentKey = content.toKey.toHex) = true

instance (content : ContentId) (p : Publication) : Decidable (p.WillStore content) :=
  inferInstanceAs (Decidable (_ ∨ _))

namespace Publication

/-- What holds of every publication: its keys are content keys, and what
it holds was built before `time`. -/
structure Sound (time : Nat) (p : Publication) : Prop where
  canonical : ∀ hex ∈ p.pending, ∃ key : Key, hex = key.toHex
  stamped : ∀ r b, p.stage.held = some (r, b) → b < time

/-- A publication that will neither put a record for `content` nor send
one built at `since` or later. -/
structure Harmless (content : ContentId) (since : Nat) (p : Publication) : Prop where
  done : ¬p.WillStore content
  old : ∀ r b, p.stage.held = some (r, b) → r.contentKey = content.toKey.toHex → b < since

omit [Deps] in
theorem Sound.mono {time time' : Nat} {p : Publication} (h : p.Sound time) (hle : time ≤ time') :
    p.Sound time' :=
  ⟨h.canonical, fun r b hheld => lt_of_lt_of_le (h.stamped r b hheld) hle⟩

variable (svc : DhtService) (time now : Nat) (swarm : Swarm) (p : Publication)

/-- A window puts the record in hand, moves the table, or leaves the
service alone. -/
theorem window_svc :
    (p.window svc time now swarm).1 = svc ∨
    (∃ r, p.stage.unstored = some r ∧
      (p.window svc time now swarm).1 =
        { svc with providers := (svc.providers.putAt r now).1 }) ∨
    ∃ cs, (p.window svc time now swarm).1 = svc.absorbContacts cs := by
  obtain ⟨pending, stage⟩ := p
  cases stage with
  | idle =>
    cases pending with
    | nil => exact Or.inl rfl
    | cons hex rest =>
      simp only [window]
      cases parseKey hex <;> exact Or.inl rfl
  | built target r b => exact Or.inr (Or.inl ⟨r, rfl, rfl⟩)
  | stored target r b =>
    simp only [window]
    split <;> exact Or.inl rfl
  | found target r b closest => exact Or.inr (Or.inr ⟨closest, rfl⟩)
  | sending target r b peers => cases peers <;> exact Or.inl rfl

/-- What a publication has in hand after a window it had before, or it
took the next key off its list and built the record. -/
theorem window_held :
    ((p.window svc time now swarm).2.1.pending = p.pending ∧
      (p.window svc time now swarm).2.1.stage.unstored = none ∧
      ∀ x, (p.window svc time now swarm).2.1.stage.held = some x → p.stage.held = some x) ∨
    (∃ hex, p.pending = hex :: (p.window svc time now swarm).2.1.pending ∧
      ((p.window svc time now swarm).2.1.stage = .idle ∨
      ∃ target r, parseKey hex = some target ∧ r.contentKey = target.toHex ∧
        (p.window svc time now swarm).2.1.stage = .built target r time)) := by
  obtain ⟨pending, stage⟩ := p
  cases stage with
  | idle =>
    cases pending with
    | nil => exact Or.inl ⟨rfl, rfl, fun x hx => hx⟩
    | cons hex rest =>
      refine Or.inr ⟨hex, ?_⟩
      simp only [window]
      cases hparse : parseKey hex with
      | none => exact ⟨rfl, Or.inl rfl⟩
      | some target => exact ⟨rfl, Or.inr ⟨target, _, rfl, rfl, rfl⟩⟩
  | built target r b => exact Or.inl ⟨rfl, rfl, fun x hx => hx⟩
  | stored target r b =>
    left
    simp only [window]
    split
    · exact ⟨rfl, rfl, fun x hx => by cases hx⟩
    · exact ⟨rfl, rfl, fun x hx => hx⟩
  | found target r b closest => exact Or.inl ⟨rfl, rfl, fun x hx => hx⟩
  | sending target r b peers =>
    cases peers with
    | nil => exact Or.inl ⟨rfl, rfl, fun x hx => by cases hx⟩
    | cons peer peers => exact Or.inl ⟨rfl, rfl, fun x hx => hx⟩

/-- What a window sends is the record in hand. -/
theorem window_posted {m : Posted} (h : m ∈ (p.window svc time now swarm).2.2) :
    p.stage.held = some (m.record, m.builtAt) := by
  obtain ⟨pending, stage⟩ := p
  cases stage with
  | idle =>
    cases pending with
    | nil => cases h
    | cons hex rest =>
      simp only [window] at h
      split at h <;> cases h
  | built target r b => cases h
  | stored target r b =>
    simp only [window] at h
    split at h <;> cases h
  | found target r b closest => cases h
  | sending target r b peers =>
    cases peers with
    | nil => cases h
    | cons peer peers => rw [List.mem_singleton.mp h]; rfl

variable {svc time now swarm p}

theorem Sound.window (h : p.Sound time) : (p.window svc time now swarm).2.1.Sound (time + 1) := by
  rcases p.window_held svc time now swarm with ⟨hpending, -, hheld⟩ | ⟨hex, hpending, hstage⟩
  · refine ⟨by rw [hpending]; exact h.canonical, ?_⟩
    intro r b hx
    exact Nat.lt_succ_of_lt (h.stamped r b (hheld _ hx))
  · refine ⟨fun hex' hmem => h.canonical hex' (by rw [hpending]; exact List.mem_cons_of_mem _ hmem),
      fun r b hx => ?_⟩
    rcases hstage with hidle | ⟨target, r', -, -, hbuilt⟩
    · rw [hidle] at hx
      cases hx
    · rw [hbuilt] at hx
      cases hx
      exact Nat.lt_succ_self time

/-- A harmless publication stays harmless: the key it takes off its list
is another one. -/
theorem Harmless.window {content : ContentId} {since : Nat} (hs : p.Sound time)
    (h : p.Harmless content since) : (p.window svc time now swarm).2.1.Harmless content since := by
  obtain ⟨hlisted, -⟩ := not_or.mp h.done
  rcases p.window_held svc time now swarm with ⟨hpending, hnone, hheld⟩ | ⟨hex, hpending, hstage⟩
  · refine ⟨?_, fun r b hx => h.old r b (hheld _ hx)⟩
    rw [WillStore, hpending, hnone]
    simpa using hlisted
  · rw [hpending, List.mem_cons, not_or] at hlisted
    rcases hstage with hidle | ⟨target, r', hparse, hkey, hbuilt⟩
    · refine ⟨?_, ?_⟩
      · rw [WillStore, hidle]
        simpa [Stage.unstored] using hlisted.2
      · intro r b hx
        rw [hidle] at hx
        cases hx
    · obtain ⟨key, rfl⟩ := hs.canonical hex (by rw [hpending]; exact List.mem_cons_self)
      rw [parseKey_toHex] at hparse
      cases hparse
      have hother : r'.contentKey ≠ content.toKey.toHex := by
        rw [hkey]
        exact Ne.symm hlisted.1
      refine ⟨?_, ?_⟩
      · rw [WillStore, hbuilt]
        simpa [Stage.unstored, hother] using hlisted.2
      · intro r b hx hsame
        rw [hbuilt] at hx
        cases hx
        exact absurd hsame hother

end Publication

namespace DhtService

theorem Valid.put {svc : DhtService} (h : svc.Valid) (r : ProviderRecord) (now : Nat) :
    { svc with providers := (svc.providers.putAt r now).1 }.Valid :=
  h.stored [.putAt r now] (by simp [ProviderStore.marks])

theorem Valid.absorb {svc : DhtService} (h : svc.Valid) (cs : List Contact) :
    (svc.absorbContacts cs).Valid :=
  h.rerouted (tableMoves_absorbContacts svc cs)

/-- Storing a record for another key leaves a retract alone. -/
theorem Retracted.put {content : ContentId} {svc : DhtService} (h : svc.Retracted content)
    {r : ProviderRecord} (hkey : r.contentKey ≠ content.toKey.toHex) (now : Nat) :
    { svc with providers := (svc.providers.putAt r now).1 }.Retracted content where
  valid := h.valid.put r now
  absent := by
    refine ProviderStore.entry_exec_none h.absent [.putAt r now] ?_
    intro q now' hq hsame
    cases List.mem_singleton.mp hq
    exact absurd hsame hkey
  unannounced := by
    rw [ProviderStore.localAnnouncements, ProviderStore.announced_putAt]
    exact h.unannounced

theorem Retracted.absorb {content : ContentId} {svc : DhtService} (h : svc.Retracted content)
    (cs : List Contact) : (svc.absorbContacts cs).Retracted content where
  valid := h.valid.absorb cs
  absent := h.absent
  unannounced := h.unannounced

end DhtService

/-! ## §2 A retract among publications -/

/-- The event neither announces `content` nor admits a record for it in
this node's name. -/
def Event.LeavesRetracted (content : ContentId) (s : Node) : Event → Prop
  | .call x => Undisturbed content s.svc x
  | .startAnnounce content' _ _ _ => content'.toKey ≠ content.toKey
  | _ => True

namespace Node

/-- What holds of a node in every state. -/
structure Sound (s : Node) : Prop where
  valid : s.svc.Valid
  running : ∀ p ∈ s.running, p.Sound s.time
  posted : ∀ m ∈ s.posted, m.builtAt < s.time

/-- The state between a retract of `content` at `since` and the next
announce. -/
structure Clean (content : ContentId) (since : Nat) (s : Node) : Prop where
  retracted : s.svc.Retracted content
  harmless : ∀ p ∈ s.running, p.Harmless content since
  old : ∀ m ∈ s.posted, m.record.contentKey = content.toKey.toHex → m.builtAt < since

theorem sound_start {svc : DhtService} (h : svc.Valid) : (start svc).Sound where
  valid := h
  running := by simp [start]
  posted := by simp [start]

omit [Deps] in
theorem mem_stamped {sent : List Sent} {builtAt : Nat} {m : Posted} (h : m ∈ stamped sent builtAt) :
    m.builtAt = builtAt ∧ (m.peer, DhtRequest.addProvider m.record) ∈ sent := by
  obtain ⟨x, hx, rfl⟩ := List.mem_map.mp h
  obtain ⟨y, hy, heq⟩ := List.mem_filterMap.mp hx
  obtain ⟨peer, request⟩ := y
  cases request <;> cases heq
  exact ⟨rfl, hy⟩

/-- The publications that run after an event: the old ones, one of them
moved by a window, or one more. -/
theorem sound_step {s : Node} (h : s.Sound) (e : Event) : (s.step e).Sound := by
  have hrunning : ∀ p ∈ s.running, p.Sound (s.time + 1) :=
    fun p hp => (h.running p hp).mono (Nat.le_succ _)
  have hposted : ∀ m ∈ s.posted, m.builtAt < s.time + 1 :=
    fun m hm => Nat.lt_succ_of_lt (h.posted m hm)
  cases e with
  | call x =>
    refine ⟨DhtService.valid_step h.valid x.1 x.2, hrunning, ?_⟩
    intro m hm
    rcases List.mem_append.mp hm with hm | hm
    · exact hposted m hm
    · rw [(mem_stamped hm).1]
      exact Nat.lt_succ_self _
  | startRepublish order hperm =>
    refine ⟨h.valid, ?_, hposted⟩
    intro p hp
    rcases List.mem_append.mp hp with hp | hp
    · exact hrunning p hp
    · rw [List.mem_singleton.mp hp]
      exact ⟨fun hex hmem => h.valid.announced hex ((hperm _).mem_iff.mp hmem), by
        simp [Stage.held]⟩
  | startAnnounce content coin now now' =>
    refine ⟨?_, ?_, hposted⟩
    · refine h.valid.stored [.putAt _ now', .markAnnouncedWithCollateral content.toKey.toHex _] ?_
      intro op hop hex hmark
      rcases List.mem_pair.mp hop with rfl | rfl <;> cases hmark
      exact ⟨content.toKey, rfl⟩
    · intro p hp
      rcases List.mem_append.mp hp with hp | hp
      · exact hrunning p hp
      · rw [List.mem_singleton.mp hp]
        refine ⟨by simp, ?_⟩
        intro r b hheld
        cases hheld
        exact Nat.lt_succ_self _
  | advance i now swarm =>
    simp only [step]
    cases hget : s.running[i]? with
    | none => exact ⟨h.valid, hrunning, hposted⟩
    | some p =>
      have hp := h.running p (List.mem_of_getElem? hget)
      refine ⟨?_, ?_, ?_⟩
      · rcases p.window_svc s.svc s.time now swarm with heq | ⟨r, -, heq⟩ | ⟨cs, heq⟩ <;>
          simp only [heq]
        · exact h.valid
        · exact h.valid.put r now
        · exact h.valid.absorb cs
      · intro q hq
        rcases List.mem_or_eq_of_mem_set hq with hq | rfl
        · exact hrunning q hq
        · exact hp.window
      · intro m hm
        rcases List.mem_append.mp hm with hm | hm
        · exact hposted m hm
        · have hheld := p.window_posted s.svc s.time now swarm hm
          exact Nat.lt_succ_of_lt (hp.stamped _ _ hheld)

/-- A node never changes what it was built with. -/
theorem profile_step {s : Node} (h : s.Sound) (e : Event) :
    (s.step e).svc.toNodeProfile = s.svc.toNodeProfile := by
  cases e with
  | call x => exact DhtService.toNodeProfile_step h.valid x.1 x.2
  | startRepublish order hperm => rfl
  | startAnnounce content coin now now' => rfl
  | advance i now swarm =>
    simp only [step]
    cases hget : s.running[i]? with
    | none => rfl
    | some p =>
      rcases p.window_svc s.svc s.time now swarm with heq | ⟨r, -, heq⟩ | ⟨cs, heq⟩ <;>
        simp only [heq]
      rfl

/-- A retracted node sends no announcement of the key. -/
theorem retracted_sent {content : ContentId} {svc : DhtService} (h : svc.Retracted content)
    {x : Input × World} (hx : Undisturbed content svc x) {c : Contact} {r : ProviderRecord}
    (hsent : (c, DhtRequest.addProvider r) ∈ (Service.step svc x.1 x.2).2.sent) :
    r.contentKey ≠ content.toKey.toHex := by
  obtain ⟨-, hself, now, hput⟩ := DhtService.sent_step svc x.1 x.2 hsent
  exact fun hkey => DhtService.not_put_of_undisturbed h hx hput hkey hself

theorem clean_step {content : ContentId} {since : Nat} {s : Node} (hs : s.Sound)
    (h : s.Clean content since) {e : Event} (he : e.LeavesRetracted content s) :
    (s.step e).Clean content since := by
  cases e with
  | call x =>
    refine ⟨DhtService.retracted_step h.retracted he, h.harmless, ?_⟩
    intro m hm hkey
    rcases List.mem_append.mp hm with hm | hm
    · exact h.old m hm hkey
    · exact absurd hkey (retracted_sent h.retracted he (mem_stamped hm).2)
  | startRepublish order hperm =>
    refine ⟨h.retracted, ?_, h.old⟩
    intro p hp
    rcases List.mem_append.mp hp with hp | hp
    · exact h.harmless p hp
    · -- The work list is taken after the key was unmarked.
      rw [List.mem_singleton.mp hp]
      refine ⟨?_, by simp [Stage.held]⟩
      simp [Publication.WillStore, Stage.unstored, (hperm _).mem_iff, h.retracted.unannounced]
  | startAnnounce content' coin now now' =>
    have hkey : ∀ now, (s.svc.announcedRecord content' coin now).contentKey ≠
        content.toKey.toHex := by
      intro now hsame
      refine he (Key.toHex_injective ?_)
      cases coin <;> exact hsame
    refine ⟨?_, ?_, h.old⟩
    · have hput := h.retracted.put (hkey now) now'
      refine ⟨?_, hput.absent, ?_⟩
      · refine hput.valid.stored [.markAnnouncedWithCollateral content'.toKey.toHex _] ?_
        intro op hop hex hmark
        cases List.mem_singleton.mp hop
        cases hmark
        exact ⟨content'.toKey, rfl⟩
      · refine ProviderStore.not_announced_exec hput.unannounced
          [.markAnnouncedWithCollateral content'.toKey.toHex _] ?_
        intro op hop hmark
        cases List.mem_singleton.mp hop
        exact he (Key.toHex_injective (Option.some.inj hmark))
    · intro p hp
      rcases List.mem_append.mp hp with hp | hp
      · exact h.harmless p hp
      · rw [List.mem_singleton.mp hp]
        refine ⟨by simp [Publication.WillStore, Stage.unstored], ?_⟩
        intro r b hheld hsame
        cases hheld
        exact absurd hsame (hkey now)
  | advance i now swarm =>
    simp only [step]
    cases hget : s.running[i]? with
    | none => exact ⟨h.retracted, h.harmless, h.old⟩
    | some p =>
      have hmem := List.mem_of_getElem? hget
      have hp := h.harmless p hmem
      refine ⟨?_, ?_, ?_⟩
      · rcases p.window_svc s.svc s.time now swarm with heq | ⟨r, hunstored, heq⟩ | ⟨cs, heq⟩ <;>
          simp only [heq]
        · exact h.retracted
        · refine h.retracted.put (fun hsame => hp.done (Or.inr ?_)) now
          simpa [hunstored] using hsame
        · exact h.retracted.absorb cs
      · intro q hq
        rcases List.mem_or_eq_of_mem_set hq with hq | rfl
        · exact h.harmless q hq
        · exact hp.window (hs.running p hmem)
      · intro m hm hkey
        rcases List.mem_append.mp hm with hm | hm
        · exact h.old m hm hkey
        · exact hp.old _ _ (p.window_posted s.svc s.time now swarm hm) hkey

/-- **A retract is not undone** when it finds no running publication that
is still going to store the key: whatever is interleaved afterwards, until
the next announce the store has no record of this node for it, and no
AddProvider for it is sent that was built after the retract. -/
theorem retract_not_undone (localId : PeerId) (addresses : List CandidateAddr)
    (config : DhtConfig) (content : ContentId) (before after : List Event)
    (retract : Input × World) (hop : retract.1.op = .retractOwnProvider content)
    (hdone : ∀ p ∈ (exec step (start (.new localId addresses config)) before).running,
      ¬p.WillStore content)
    (hafter : EachStep step (fun s e => e.LeavesRetracted content s)
      ((exec step (start (.new localId addresses config)) before).step (.call retract)) after) :
    Always step
      (fun s => s.svc.providers.entry content.toKey.toHex s.svc.selfId = none ∧
        ∀ m ∈ s.posted, m.record.contentKey = content.toKey.toHex →
          m.builtAt < (exec step (start (.new localId addresses config)) before).time)
      ((exec step (start (.new localId addresses config)) before).step (.call retract)) after := by
  generalize hs₀ : exec step (start (.new localId addresses config)) before = s₀ at *
  have hsound : s₀.Sound := by
    rw [← hs₀]
    exact exec_invariant (Q := Sound) (fun _ e hs => sound_step hs e)
      (sound_start (DhtService.valid_new localId addresses config)) before
  have hclean : (s₀.step (.call retract)).Clean content s₀.time := by
    refine ⟨DhtService.retracted_retract hsound.valid hop, ?_, ?_⟩
    · intro p hp
      exact ⟨hdone p hp, fun r b hheld _ => (hsound.running p hp).stamped r b hheld⟩
    · intro m hm _
      rcases List.mem_append.mp hm with hm | hm
      · exact hsound.posted m hm
      · -- A retract sends nothing.
        have hsent := (mem_stamped hm).2
        simp only [hop] at hsent
        cases hsent
  refine (always_of_eachStep (Q := fun s => s.Sound ∧ s.Clean content s₀.time) ?_
    ⟨sound_step hsound _, hclean⟩ hafter).imp fun s hs => ⟨hs.2.retracted.absent, hs.2.old⟩
  intro s e hinv he
  obtain ⟨hs, hc⟩ := hinv
  exact ⟨sound_step hs e, clean_step hs hc he⟩

/-! ## §3 A publication nobody interrupts -/

/-- What was sent, without the stamps. -/
def sent (s : Node) : List (Contact × ProviderRecord) :=
  s.posted.map fun m => (m.peer, m.record)

/-- `s'` is reached by windows of the `i`-th publication alone. -/
abbrev Advances (i : Nat) : Node → Node → Prop :=
  Reach step fun e => ∃ now swarm, e = .advance i now swarm

theorem exists_advance {s : Node} {others : List Publication} {p : Publication}
    (h : s.running = others ++ [p]) (now : Nat) (swarm : Swarm) :
    ∃ s', Advances others.length s s' ∧ s'.svc = (p.window s.svc s.time now swarm).1 ∧
      s'.running = others ++ [(p.window s.svc s.time now swarm).2.1] ∧
      s'.sent = s.sent ++
        (p.window s.svc s.time now swarm).2.2.map fun m => (m.peer, m.record) := by
  have hget : s.running[others.length]? = some p := by simp [h]
  refine ⟨s.step (.advance others.length now swarm), Reach.single s ⟨now, swarm, rfl⟩, ?_⟩
  simp only [step, hget]
  simp [h, sent]

theorem advances_sending {others : List Publication} {pending : List String} {target : Key}
    {r : ProviderRecord} {b : Nat} (swarm : Swarm) (peers : List Contact) {s : Node}
    (h : s.running = others ++ [⟨pending, .sending target r b peers⟩]) :
    ∃ s', Advances others.length s s' ∧ s'.svc = s.svc ∧
      s'.running = others ++ [⟨pending, .idle⟩] ∧
      s'.sent = s.sent ++ peers.map fun p => (p, r) := by
  induction peers generalizing s with
  | nil =>
    obtain ⟨s₁, hreach, hsvc, hrunning, hsent⟩ := exists_advance h 0 swarm
    exact ⟨s₁, hreach, hsvc, hrunning, hsent⟩
  | cons peer peers ih =>
    obtain ⟨s₁, hreach₁, hsvc₁, hrunning₁, hsent₁⟩ := exists_advance h 0 swarm
    obtain ⟨s₂, hreach₂, hsvc₂, hrunning₂, hsent₂⟩ := ih hrunning₁
    refine ⟨s₂, hreach₁.trans hreach₂, hsvc₂.trans hsvc₁, hrunning₂, ?_⟩
    rw [hsent₂, hsent₁]
    simp [Publication.window]

omit [Deps] in
theorem addProviders_append (a b : List Sent) :
    addProviders (a ++ b) = addProviders a ++ addProviders b :=
  List.filterMap_append

omit [Deps] in
theorem addProviders_lookupRequests (target : Key) (w : Walk) :
    addProviders (DhtService.lookupRequests target w) = [] := by
  simp [addProviders, DhtService.lookupRequests]

theorem addProviders_putRecordAt (svc : DhtService) (swarm : Swarm) (asked peers : List Contact)
    (r : ProviderRecord) :
    addProviders (svc.putRecordAt swarm asked peers r).2 =
      (svc.putTargets peers).map fun p => (p, r) := by
  simp [addProviders, DhtService.putRecordAt, List.filterMap_map, List.filterMap_eq_map']

/-- The networked half of a republish, window by window. -/
theorem advances_publish {others : List Publication} {pending : List String} {target : Key}
    {r : ProviderRecord} {b : Nat} (swarm : Swarm) {s : Node}
    (h : s.running = others ++ [⟨pending, .stored target r b⟩]) :
    ∃ s', Advances others.length s s' ∧ s'.svc = (s.svc.publish swarm target r).1 ∧
      s'.running = others ++ [⟨pending, .idle⟩] ∧
      s'.sent = s.sent ++ addProviders (s.svc.publish swarm target r).2.2 := by
  obtain ⟨s₁, hreach₁, hsvc₁, hrunning₁, hsent₁⟩ := exists_advance h 0 swarm
  unfold DhtService.publish DhtService.searchAndAbsorb
  by_cases hseeds : s.svc.seedContacts target = []
  · simp only [Publication.window, hseeds, if_true] at hsvc₁ hrunning₁ hsent₁
    refine ⟨s₁, hreach₁, ?_, hrunning₁, ?_⟩
    · simp [hsvc₁, hseeds]
    · simp [hsent₁, hseeds, addProviders]
  · simp only [Publication.window, if_neg hseeds] at hsvc₁ hrunning₁ hsent₁
    obtain ⟨s₂, hreach₂, hsvc₂, hrunning₂, hsent₂⟩ := exists_advance hrunning₁ 0 swarm
    obtain ⟨s₃, hreach₃, hsvc₃, hrunning₃, hsent₃⟩ := advances_sending swarm _ hrunning₂
    refine ⟨s₃, (hreach₁.trans hreach₂).trans hreach₃, ?_, hrunning₃, ?_⟩
    · simp only [if_neg hseeds, hsvc₃, hsvc₂, hsvc₁, Publication.window]
    · simp only [if_neg hseeds, addProviders_append, addProviders_lookupRequests,
        addProviders_putRecordAt, hsent₃, hsent₂, hsent₁, hsvc₁, Publication.window, List.map_nil,
        List.append_nil, List.nil_append]
      -- Absorbing contacts leaves the node's id, and so the targets, alone.
      rfl

/-- The loop of `republish`, window by window. -/
theorem advances_republishFrom {others : List Publication} (clock : Nat → Nat)
    (swarms : Nat → Swarm) (i : Nat) (keys : List String) {s : Node}
    (h : s.running = others ++ [⟨keys, .idle⟩]) :
    ∃ s', Advances others.length s s' ∧
      s'.svc = (s.svc.republishFrom clock swarms i keys).1 ∧
      s'.running = others ++ [⟨[], .idle⟩] ∧
      s'.sent = s.sent ++ addProviders (s.svc.republishFrom clock swarms i keys).2.2 := by
  induction keys generalizing i s with
  | nil => exact ⟨s, Reach.refl s, rfl, h, by simp [DhtService.republishFrom, addProviders]⟩
  | cons hex rest ih =>
    obtain ⟨s₁, hreach₁, hsvc₁, hrunning₁, hsent₁⟩ := exists_advance h (clock (2 * i)) (swarms i)
    unfold DhtService.republishFrom
    cases hparse : parseKey hex with
    | none =>
      simp only [Publication.window, hparse, List.map_nil,
        List.append_nil] at hsvc₁ hrunning₁ hsent₁
      obtain ⟨s₂, hreach₂, hsvc₂, hrunning₂, hsent₂⟩ := ih (i + 1) hrunning₁
      rw [hsvc₁] at hsvc₂ hsent₂
      rw [hsent₁] at hsent₂
      exact ⟨s₂, hreach₁.trans hreach₂, hsvc₂, hrunning₂, hsent₂⟩
    | some target =>
      simp only [Publication.window, hparse, List.map_nil,
        List.append_nil] at hsvc₁ hrunning₁ hsent₁
      obtain ⟨s₂, hreach₂, hsvc₂, hrunning₂, hsent₂⟩ :=
        exists_advance hrunning₁ (clock (2 * i + 1)) (swarms i)
      simp only [Publication.window, List.map_nil, List.append_nil] at hsvc₂ hrunning₂ hsent₂
      obtain ⟨s₃, hreach₃, hsvc₃, hrunning₃, hsent₃⟩ := advances_publish (swarms i) hrunning₂
      obtain ⟨s₄, hreach₄, hsvc₄, hrunning₄, hsent₄⟩ := ih (i + 1) hrunning₃
      refine ⟨s₄, ((hreach₁.trans hreach₂).trans hreach₃).trans hreach₄, ?_, hrunning₄, ?_⟩
      · rw [hsvc₄, hsvc₃, hsvc₂, hsvc₁]
      · rw [hsent₄, hsent₃, hsent₂, hsent₁, hsvc₃, hsvc₂, hsvc₁, addProviders_append,
          List.append_assoc]

/-- **Refinement.** `republish` is the schedule in which its publication
is never interrupted. -/
theorem republish_uninterrupted (s : Node) (clock : Nat → Nat) (swarms : Nat → Swarm)
    (order : List String → List String) (hperm : ∀ keys, (order keys).Perm keys) :
    ∃ s', Advances s.running.length (s.step (.startRepublish order hperm)) s' ∧
      s'.svc = (s.svc.republish clock swarms (order s.svc.providers.localAnnouncements)).1 ∧
      s'.sent = s.sent ++ addProviders
        (s.svc.republish clock swarms (order s.svc.providers.localAnnouncements)).2.2.2 := by
  obtain ⟨s', hreach, hsvc, -, hsent⟩ :=
    advances_republishFrom clock swarms 0 (order s.svc.providers.localAnnouncements)
      (s := s.step (.startRepublish order hperm)) rfl
  exact ⟨s', hreach, hsvc, hsent⟩

/-- An announce is its store window and then its publication. -/
theorem announce_uninterrupted (s : Node) (clock : Nat → Nat) (swarm : Swarm)
    (content : ContentId) (coin : Option Bytes32) :
    ∃ s', Advances s.running.length
        (s.step (.startAnnounce content coin (clock 0) (clock 1))) s' ∧
      s'.svc = (s.svc.announceProviderWithCollateral clock swarm content coin).1 ∧
      s'.sent = s.sent ++ addProviders
        (s.svc.announceProviderWithCollateral clock swarm content coin).2.2 := by
  obtain ⟨s', hreach, hsvc, -, hsent⟩ := advances_publish swarm
    (s := s.step (.startAnnounce content coin (clock 0) (clock 1))) rfl
  exact ⟨s', hreach, hsvc, hsent⟩

end Node

end Windows

/-! ## §4 Two schedules -/

section Samples

attribute [local instance] sampleDeps

open Node

/-- The next window of the one publication of the samples below. -/
def nextWindow : Event :=
  .advance 0 101 ((holderWorld []).swarms 0)

/-- Peer 211 met, the content announced, a republish started. -/
def republishingRun : List Event :=
  [.call (.at 100 (.addPeer (samplePeer 211) []), holderWorld []),
    .call (.at 100 (.announceProvider sampleContent), holderWorld []),
    .startRepublish id fun _ => List.Perm.refl _]

def sampleRetract : Input × World :=
  (.at 101 (.retractOwnProvider sampleContent), holderWorld [])

/-- The republish is through with the key when the retract comes; a peer
announces itself and another republish runs afterwards. -/
theorem retract_after_republish :
    Always Node.step
      (fun s => s.svc.providers.entry sampleContent.toKey.toHex s.svc.selfId = none ∧
        ∀ m ∈ s.posted, m.record.contentKey = sampleContent.toKey.toHex →
          m.builtAt < (exec Node.step (start (.new (samplePeer 9) [] .default))
            (republishingRun ++ [nextWindow, nextWindow])).time)
      ((exec Node.step (start (.new (samplePeer 9) [] .default))
        (republishingRun ++ [nextWindow, nextWindow])).step (.call sampleRetract))
      [nextWindow, nextWindow, nextWindow,
        .call (.at 101 (.handleRequestFrom (some (sampleContact 211))
          (.addProvider (sampleRecord 211 200))), holderWorld []),
        .startRepublish id fun _ => List.Perm.refl _] :=
  retract_not_undone (samplePeer 9) [] .default sampleContent
    (republishingRun ++ [nextWindow, nextWindow]) _ sampleRetract rfl (by decide +kernel)
    ⟨trivial, trivial, trivial, (by decide +kernel : (sampleContact 211).peerId ≠ _), trivial,
      trivial⟩

/-- The retract comes before the republish reaches the key: the record is
back in the store, and it is sent. -/
theorem republish_undoes_retract :
    let before := exec Node.step (start (.new (samplePeer 9) [] .default)) republishingRun
    let after := [nextWindow, nextWindow, nextWindow, nextWindow, nextWindow]
    let undone := exec Node.step (before.step (.call sampleRetract)) after
    EachStep Node.step (fun s e => e.LeavesRetracted sampleContent s)
        (before.step (.call sampleRetract)) after ∧
      undone.svc.providers.entry sampleContent.toKey.toHex undone.svc.selfId ≠ none ∧
      ∃ m ∈ undone.posted, m.record.contentKey = sampleContent.toKey.toHex ∧
        before.time < m.builtAt := by
  intro before after undone
  exact ⟨⟨trivial, trivial, trivial, trivial, trivial, trivial⟩, by decide +kernel,
    by decide +kernel⟩

end Samples

end DigDht.Service
