/-
DigDht.Service.PointerTheorems — the collateral pointer of an announced
key.

An announce stores its record and remembers its pointer in ONE lock
window; a republish reads the pointer in one window and puts the record
it built in another. §1 says what keeps the stored record and the
remembered pointer together in the store, §2 that every event does
(`pointed_step`) unless an announce falls between the two windows of a
republish with another pointer. §3 is that schedule.
-/
import DigDht.Service.InterleavingTheorems
import DigDht.Store.AdmissionTheorems

namespace DigDht.Service

open Keyspace Record Routing Lookup Store Wire Content Runs

/-! ## §1 The store -/

/-- Under an announced key the record of `self`, if stored, carries the
pointer remembered for the key. -/
def PointersAgree (self : String) (s : ProviderStore) : Prop :=
  ∀ hex pointer e, s.announced.lookup hex = some pointer → s.entry hex self = some e →
    e.record.unverifiedMirrorCoinId = pointer

/-- A put in the name of `self` carries the pointer remembered. -/
def CarriesPointer (self : String) (s : ProviderStore) (op : StoreOp) : Prop :=
  ∀ r now, op = .putAt r now → r.providerPeerId = self →
    ∀ pointer, s.announced.lookup r.contentKey = some pointer → r.unverifiedMirrorCoinId = pointer

theorem pointersAgree_step {self : String} {s : ProviderStore} (hs : PointersAgree self s)
    {op : StoreOp} (hop : CarriesPointer self s op) (hmark : ProviderStore.marks op = none) :
    PointersAgree self (Store.step s op) := by
  intro hex pointer e hannounced he
  have hold : s.announced.lookup hex = some pointer := by
    rcases ProviderStore.lookup_announced_step hannounced with hold | hmarked
    · exact hold
    · rw [hmark] at hmarked
      cases hmarked
  rcases ProviderStore.entry_step_cases he with ⟨he', -⟩ |
    ⟨_, r, now, rfl, hk, hx, -, rfl, -⟩ | ⟨r, now, rfl, hk, hx, -, rfl, -⟩
  · exact hs hex pointer e hold he'
  · exact hop r now rfl hx pointer (hk ▸ hold)
  · exact hop r now rfl hx pointer (hk ▸ hold)

/-- Operations that mark nothing keep the agreement, and what is still
announced keeps its pointer. -/
theorem pointersAgree_exec {self : String} {s : ProviderStore} (hs : PointersAgree self s)
    {ops : List StoreOp} (hops : ∀ op ∈ ops, CarriesPointer self s op)
    (hmarks : ∀ op ∈ ops, ProviderStore.marks op = none) :
    PointersAgree self (exec Store.step s ops) ∧
      ∀ hex pointer, (exec Store.step s ops).announced.lookup hex = some pointer →
        s.announced.lookup hex = some pointer := by
  refine exec_invariant_mem (Q := fun s' => PointersAgree self s' ∧
    ∀ hex pointer, s'.announced.lookup hex = some pointer →
      s.announced.lookup hex = some pointer) ?_ ⟨hs, fun _ _ h => h⟩
  intro s' op hop h
  obtain ⟨hagree, hkept⟩ := h
  constructor
  · refine pointersAgree_step hagree ?_ (hmarks op hop)
    intro r now hput hself pointer hpointer
    exact hops op hop r now hput hself pointer (hkept _ _ hpointer)
  · intro hex pointer hpointer
    rcases ProviderStore.lookup_announced_step hpointer with hold | hmarked
    · exact hkept hex pointer hold
    · rw [hmarks op hop] at hmarked
      cases hmarked

/-- The store window of an announce: the record and the mark agree,
whether the record was taken or turned away. -/
theorem pointersAgree_announce {self : String} {s : ProviderStore} (hs : PointersAgree self s)
    {r : ProviderRecord} (hself : r.providerPeerId = self) (now : Nat) :
    PointersAgree self ((s.putAt r now).1.markAnnouncedWithCollateral r.contentKey
      r.unverifiedMirrorCoinId) := by
  intro hex pointer e hannounced he
  have he' : (s.putAt r now).1.entry hex self = some e := he
  simp only [ProviderStore.markAnnouncedWithCollateral, ProviderStore.announced_putAt]
    at hannounced
  by_cases hk : hex = r.contentKey
  · subst hk
    rw [AList.lookup_insert] at hannounced
    cases hannounced
    by_cases haccepted : (s.putAt r now).2 = .accepted
    · obtain ⟨e', hput, hrecord⟩ := ProviderStore.entry_putAt_accepted haccepted
      rw [hself, he'] at hput
      cases hput
      rw [hrecord]
    · obtain ⟨hsame, hnone⟩ := ProviderStore.putAt_of_not_accepted haccepted
      rw [hsame, ← hself, hnone] at he'
      cases he'
  · rw [AList.lookup_insert_ne hk] at hannounced
    rw [ProviderStore.entry_putAt_ne hk] at he'
    exact hs hex pointer e hannounced he'

section Pointers

variable [Deps]

/-! ## §2 The events -/

/-- A window that leaves a record to put has just built it, with the
pointer remembered. -/
theorem Publication.window_built (svc : DhtService) (time now : Nat) (swarm : Swarm)
    (p : Publication) {r : ProviderRecord}
    (h : (p.window svc time now swarm).2.1.stage.unstored = some r) :
    (p.window svc time now swarm).1 = svc ∧ ∃ hex rest target, p.pending = hex :: rest ∧
      parseKey hex = some target ∧
      r = svc.republishedRecord (svc.providers.announcedCollateral hex) target now := by
  obtain ⟨pending, stage⟩ := p
  cases stage with
  | idle =>
    cases pending with
    | nil => cases h
    | cons hex rest =>
      simp only [window] at h ⊢
      cases hparse : parseKey hex with
      | none =>
        rw [hparse] at h
        cases h
      | some target =>
        rw [hparse] at h
        cases h
        exact ⟨rfl, hex, rest, target, rfl, hparse, rfl⟩
  | built target r b => cases h
  | stored target r b =>
    simp only [window] at h
    split at h <;> cases h
  | found target r b closest => cases h
  | sending target r b peers => cases peers <;> cases h

namespace Node

/-- No running publication has read another pointer for `content` than
`coin` and not put it yet. -/
def NoneOvertaken (s : Node) (content : ContentId) (coin : Option Bytes32) : Prop :=
  ∀ p ∈ s.running, ∀ r ∈ p.stage.unstored, r.contentKey = content.toKey.toHex →
    r.unverifiedMirrorCoinId = coin.map toHex64

instance (s : Node) (content : ContentId) (coin : Option Bytes32) :
    Decidable (s.NoneOvertaken content coin) :=
  inferInstanceAs (Decidable (∀ p ∈ s.running, ∀ r ∈ p.stage.unstored, _))

/-- If `record` names this node and its key is announced, it carries the
pointer remembered for the key. -/
def OwnPointer (s : Node) (record : ProviderRecord) : Prop :=
  record.providerPeerId = s.svc.selfId →
    ∀ pointer, s.svc.providers.announced.lookup record.contentKey = some pointer →
      normalizeMirrorCoinId record.unverifiedMirrorCoinId = pointer

end Node

/-- An announce overtakes no republish between its read and its put; and
nobody else stores, under an announced key, a record in this node's name
with another pointer. -/
def Event.KeepsPointers (s : Node) : Event → Prop
  | .call x =>
    match x.1.op with
    | .announceProviderWithCollateral content coin => s.NoneOvertaken content coin
    | .ingestVerifiedProvider record => s.OwnPointer record
    | .handleRequestFrom caller (.addProvider record) =>
      DhtService.namesAnother (caller.map Contact.peerId) record = false → s.OwnPointer record
    | _ => True
  | .startAnnounce content coin _ _ => s.NoneOvertaken content coin
  | _ => True

namespace Node

/-- What holds of a node whose announces overtake nothing. -/
structure Pointed (s : Node) : Prop where
  sound : s.Sound
  agree : PointersAgree s.svc.selfId s.svc.providers
  built : ∀ p ∈ s.running, ∀ r ∈ p.stage.unstored, ∀ pointer,
    s.svc.providers.announced.lookup r.contentKey = some pointer →
      r.unverifiedMirrorCoinId = pointer

/-- The store after the store window of an announce. -/
theorem Pointed.announce {s : Node} (h : s.Pointed) {content : ContentId} {coin : Option Bytes32}
    (hnone : s.NoneOvertaken content coin) (now now' : Nat) :
    let providers := (s.svc.storeAnnounced content.toKey.toHex
      (s.svc.announcedRecord content coin now) now').providers
    PointersAgree s.svc.selfId providers ∧
      ∀ p ∈ s.running, ∀ r ∈ p.stage.unstored, ∀ pointer,
        providers.announced.lookup r.contentKey = some pointer →
          r.unverifiedMirrorCoinId = pointer := by
  intro providers
  have hrecord := NodeProfile.announcedRecord_eq s.svc.toNodeProfile content coin now
  constructor
  · have hagree := pointersAgree_announce h.agree
      (s.svc.announcedRecord_names content coin now) now'
    rw [hrecord] at hagree
    simp only [providers, DhtService.storeAnnounced, hrecord]
    exact hagree
  · intro p hp r hr pointer hpointer
    simp only [providers, DhtService.storeAnnounced, ProviderStore.markAnnouncedWithCollateral,
      ProviderStore.announced_putAt, hrecord] at hpointer
    by_cases hk : r.contentKey = content.toKey.toHex
    · rw [hk, AList.lookup_insert] at hpointer
      rw [hnone p hp r hr hk]
      exact Option.some.inj hpointer
    · rw [AList.lookup_insert_ne hk] at hpointer
      exact h.built p hp r hr pointer hpointer

/-- Every put of an operation that is no announce carries the pointer
remembered. -/
theorem Pointed.carries {s : Node} (h : s.Pointed) {x : Input × World}
    (hx : (Event.call x).KeepsPointers s)
    (hop : ∀ content coin, x.1.op ≠ .announceProviderWithCollateral content coin) :
    ∀ op ∈ s.svc.assertionSide.storeOps x.1, CarriesPointer s.svc.selfId s.svc.providers op := by
  intro op hmem r now hput hself pointer hpointer
  subst hput
  cases DhtService.mem_storeOps_putAt hmem with
  | announce content coin hannounce => exact absurd hannounce (hop content coin)
  | ingest record hingest =>
    simp only [Event.KeepsPointers, hingest] at hx
    exact hx hself pointer hpointer
  | republish hex target i _ hlisted hparse =>
    obtain ⟨key, rfl⟩ := h.sound.valid.announced hex hlisted
    rw [parseKey_toHex] at hparse
    cases hparse
    have hlookup : s.svc.providers.announced.lookup target.toHex = some pointer := hpointer
    show s.svc.providers.announcedCollateral target.toHex = pointer
    rw [ProviderStore.announcedCollateral, hlookup]
    rfl
  | serve caller record hserve hown =>
    simp only [Event.KeepsPointers, hserve] at hx
    exact hx hown hself pointer hpointer

theorem pointed_call {s : Node} (h : s.Pointed) {x : Input × World}
    (hx : (Event.call x).KeepsPointers s) : (s.step (.call x)).Pointed := by
  have hself : (Service.step s.svc x.1 x.2).1.selfId = s.svc.selfId := by
    rw [NodeProfile.selfId, DhtService.toNodeProfile_step h.sound.valid]
    rfl
  have hstore : (Service.step s.svc x.1 x.2).1.providers =
      exec Store.step s.svc.providers (s.svc.assertionSide.storeOps x.1) :=
    DhtService.providers_step h.sound.valid x.1 x.2
  have hmoved : PointersAgree s.svc.selfId (Service.step s.svc x.1 x.2).1.providers ∧
      ∀ p ∈ s.running, ∀ r ∈ p.stage.unstored, ∀ pointer,
        (Service.step s.svc x.1 x.2).1.providers.announced.lookup r.contentKey = some pointer →
          r.unverifiedMirrorCoinId = pointer := by
    rw [hstore]
    by_cases hop : ∃ content coin, x.1.op = .announceProviderWithCollateral content coin
    · obtain ⟨content, coin, hop⟩ := hop
      simp only [Event.KeepsPointers, hop] at hx
      have hannounced := h.announce hx (x.1.clock 0) (x.1.clock 1)
      rw [AssertionSide.storeOps, hop]
      exact hannounced
    · have hother : ∀ content coin, x.1.op ≠ .announceProviderWithCollateral content coin :=
        fun content coin heq => hop ⟨content, coin, heq⟩
      obtain ⟨hagree, hkept⟩ := pointersAgree_exec h.agree (h.carries hx hother) (by
        intro op hmem
        by_contra hmark
        obtain ⟨hex, hmark⟩ := Option.ne_none_iff_exists'.mp hmark
        obtain ⟨content, coin, heq, -⟩ := DhtService.marks_storeOps hmem hmark
        exact hother content coin heq)
      exact ⟨hagree, fun p hp r hr pointer hpointer =>
        h.built p hp r hr pointer (hkept _ _ hpointer)⟩
  refine ⟨sound_step h.sound (.call x), ?_, hmoved.2⟩
  show PointersAgree (Service.step s.svc x.1 x.2).1.selfId _
  rw [hself]
  exact hmoved.1

/-- What the window of a publication does to the service: the record it
puts was built with the pointer that is still the one remembered. -/
theorem Pointed.window {s : Node} (h : s.Pointed) {p : Publication} (hp : p ∈ s.running)
    (now : Nat) (swarm : Swarm) :
    (p.window s.svc s.time now swarm).1.selfId = s.svc.selfId ∧
      PointersAgree s.svc.selfId (p.window s.svc s.time now swarm).1.providers ∧
      (p.window s.svc s.time now swarm).1.providers.announced = s.svc.providers.announced := by
  rcases p.window_svc s.svc s.time now swarm with heq | ⟨r, hr, heq⟩ | ⟨cs, heq⟩ <;> rw [heq]
  · exact ⟨rfl, h.agree, rfl⟩
  · refine ⟨rfl, ?_, ProviderStore.announced_putAt _ _ _⟩
    have hput : ∀ r' now', StoreOp.putAt r now = .putAt r' now' →
        r'.providerPeerId = s.svc.selfId → ∀ pointer,
          s.svc.providers.announced.lookup r'.contentKey = some pointer →
            r'.unverifiedMirrorCoinId = pointer := by
      intro r' now' heq' _ pointer hpointer
      cases heq'
      exact h.built p hp r hr pointer hpointer
    exact pointersAgree_step h.agree hput rfl
  · exact ⟨rfl, h.agree, rfl⟩

theorem pointed_advance {s : Node} (h : s.Pointed) (i now : Nat) (swarm : Swarm) :
    (s.step (.advance i now swarm)).Pointed := by
  have hsound := sound_step h.sound (.advance i now swarm)
  simp only [step] at hsound ⊢
  cases hget : s.running[i]? with
  | none =>
    rw [hget] at hsound
    exact ⟨hsound, h.agree, h.built⟩
  | some p =>
    rw [hget] at hsound
    have hp : p ∈ s.running := List.mem_of_getElem? hget
    obtain ⟨hself, hagree, hannounced⟩ := h.window hp now swarm
    refine ⟨hsound, ?_, ?_⟩
    · simp only [hself]
      exact hagree
    · intro q hq r hr pointer hpointer
      simp only [hannounced] at hpointer
      rcases List.mem_or_eq_of_mem_set hq with hq | rfl
      · exact h.built q hq r hr pointer hpointer
      · -- A record built in this window has the pointer just read.
        obtain ⟨-, hex, rest, target, hpending, hparse, rfl⟩ :=
          p.window_built s.svc s.time now swarm hr
        obtain ⟨key, rfl⟩ := (h.sound.running p hp).canonical hex
          (by rw [hpending]; exact List.mem_cons_self)
        rw [parseKey_toHex] at hparse
        cases hparse
        have hlookup : s.svc.providers.announced.lookup target.toHex = some pointer := hpointer
        show s.svc.providers.announcedCollateral target.toHex = pointer
        rw [ProviderStore.announcedCollateral, hlookup]
        rfl

theorem pointed_step {s : Node} (h : s.Pointed) {e : Event} (he : e.KeepsPointers s) :
    (s.step e).Pointed := by
  cases e with
  | call x => exact pointed_call h he
  | startRepublish order hperm =>
    refine ⟨sound_step h.sound _, h.agree, ?_⟩
    intro p hp r hr
    rcases List.mem_append.mp hp with hp | hp
    · exact h.built p hp r hr
    · cases List.mem_singleton.mp hp
      cases hr
  | startAnnounce content coin now now' =>
    obtain ⟨hagree, hbuilt⟩ := h.announce he now now'
    refine ⟨sound_step h.sound _, hagree, ?_⟩
    intro p hp r hr
    rcases List.mem_append.mp hp with hp | hp
    · exact hbuilt p hp r hr
    · cases List.mem_singleton.mp hp
      cases hr
  | advance i now swarm => exact pointed_advance h i now swarm

/-- **Pointer agreement.** In every schedule of a node in which no
announce overtakes a republish of its key with another pointer, and nobody
else stores a record in this node's name with another pointer under an
announced key: whenever a key is announced and this node's own record is
stored under it, the record carries the pointer remembered for the key. -/
theorem pointers_agree (localId : PeerId) (addresses : List CandidateAddr) (config : DhtConfig)
    (events : List Event)
    (h : EachStep step (fun s e => e.KeepsPointers s) (start (.new localId addresses config))
      events) :
    Always step
      (fun s => ∀ hex e, hex ∈ s.svc.providers.localAnnouncements →
        s.svc.providers.entry hex s.svc.selfId = some e →
          e.record.unverifiedMirrorCoinId = s.svc.providers.announcedCollateral hex)
      (start (.new localId addresses config)) events := by
  have hstart : (start (.new localId addresses config)).Pointed := by
    refine ⟨sound_start (DhtService.valid_new localId addresses config), ?_, ?_⟩
    · intro hex pointer e hannounced
      cases hannounced
    · intro p hp
      cases hp
  refine (always_of_eachStep (Q := Pointed) (fun _ _ hs he => pointed_step hs he) hstart h).imp ?_
  intro s hs hex e hlisted he
  obtain ⟨pointer, hpointer⟩ := FMap.mem_keys_iff.mp hlisted
  rw [hs.agree hex pointer e hpointer he, ProviderStore.announcedCollateral, hpointer]
  rfl

end Node

end Pointers

/-! ## §3 Two schedules -/

section Samples

attribute [local instance] sampleDeps

open Node

def sampleCoin (first : UInt8) : Bytes32 :=
  first ::ᵥ List.Vector.replicate 31 0

/-- Announce the sample content with a coin. -/
def announceCoin (first : UInt8) : Event :=
  .startAnnounce sampleContent (some (sampleCoin first)) 100 100

/-- The next window of the `i`-th publication. -/
def windowOf (i : Nat) : Event :=
  .advance i 101 ((holderWorld []).swarms 0)

/-- Announce, republish, and announce with another coin once the record is
put. -/
def rolloverRun : List Event :=
  [announceCoin 1, .startRepublish id List.Perm.refl, windowOf 1, windowOf 1,
    announceCoin 2, windowOf 1]

theorem pointers_agree_rollover :
    Always Node.step
      (fun s => ∀ hex e, hex ∈ s.svc.providers.localAnnouncements →
        s.svc.providers.entry hex s.svc.selfId = some e →
          e.record.unverifiedMirrorCoinId = s.svc.providers.announcedCollateral hex)
      (start (.new (samplePeer 9) [] .default)) rolloverRun := by
  have hfirst : NoneOvertaken (start (.new (samplePeer 9) [] .default)) sampleContent
      (some (sampleCoin 1)) := by
    decide +kernel
  have hsecond : NoneOvertaken (exec Node.step (start (.new (samplePeer 9) [] .default))
      (rolloverRun.take 4)) sampleContent (some (sampleCoin 2)) := by
    decide +kernel
  exact pointers_agree (samplePeer 9) [] .default rolloverRun
    ⟨hfirst, trivial, trivial, trivial, hsecond, trivial, trivial⟩

/-- The announce with the second coin comes between the read and the put
of the republish: nothing is left to be put, and the record stored and
served carries the first coin. -/
theorem republish_overwrites_pointer :
    let s := exec Node.step (start (.new (samplePeer 9) [] .default))
      [announceCoin 1, .startRepublish id List.Perm.refl, windowOf 1,
        announceCoin 2, windowOf 1, windowOf 0, windowOf 1, windowOf 2]
    (∀ p ∈ s.running, p = ⟨[], .idle⟩) ∧
      sampleContent.toKey.toHex ∈ s.svc.providers.localAnnouncements ∧
      s.svc.providers.announcedCollateral sampleContent.toKey.toHex =
        some (toHex64 (sampleCoin 2)) ∧
      (s.svc.providers.entry sampleContent.toKey.toHex s.svc.selfId).map
          (fun e => e.record.unverifiedMirrorCoinId) = some (some (toHex64 (sampleCoin 1))) := by
  decide +kernel

end Samples

end DigDht.Service
