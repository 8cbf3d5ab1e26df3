/-
DigDht.Service.RetractTheorems — after `retract_own_provider`.

A retract removes this node's record from the authoritative store and
takes the key off the republish list; nothing but an announce, or a
caller speaking for this node, puts either back (`retracted_step`). The
answer of `find_providers` is merged from two more sources. The discovery
cache never holds the node's own id. What other peers answer is not
filtered: a copy of the record, PUT earlier and still live at an honest
peer, comes back. §3 says exactly which lookups name this node after a
retract.

A record NAMES this node when its provider field decodes to the local
id. The store and the cache compare text, so a spelling of the id other
than `to_hex` is told apart (`Misspelt`).
-/
import DigDht.Service.FindProvidersTheorems
import DigDht.Service.NonInterference

namespace DigDht.Service

open Keyspace Record Routing Lookup Store Wire Content Runs

section Retract

variable [Deps]

/-! ## §1 What is claimed, and of which runs -/

/-- The reply to a lookup names this node. -/
def Reply.NamesSelf (node : NodeProfile) : Reply → Prop
  | .records rs => ∃ r ∈ rs, r.provider = some node.localId
  | .holders ps => node.localId ∈ ps
  | _ => False

instance (node : NodeProfile) (reply : Reply) : Decidable (reply.NamesSelf node) := by
  cases reply <;> unfold Reply.NamesSelf <;> infer_instance

/-- The operation asks who provides `content`. -/
def Op.AsksFor (content : ContentId) (op : Op) : Prop :=
  op = .findProviders content ∨ op = .holdersOf content

/-- The step does not answer a question about `content` with this node. -/
def QuietAbout (content : ContentId) (svc : DhtService) (x : Input × World) : Prop :=
  x.1.op.AsksFor content → ¬(step svc x.1 x.2).2.reply.NamesSelf svc.toNodeProfile

/-- The record is this node's own, for `content`. -/
def DhtService.Own (svc : DhtService) (content : ContentId) (r : ProviderRecord) : Prop :=
  r.contentKey = content.toKey.toHex ∧ r.providerPeerId = svc.selfId

/-- The step neither announces `content` nor admits a record for it in
this node's name; authenticated callers are other nodes. -/
def Undisturbed (content : ContentId) (svc : DhtService) (x : Input × World) : Prop :=
  match x.1.op with
  | .announceProviderWithCollateral content' _ => content'.toKey ≠ content.toKey
  | .ingestVerifiedProvider record => ¬svc.Own content record
  | .handleRequestFrom none (.addProvider record) => ¬svc.Own content record
  | .handleRequestFrom (some caller) _ => caller.peerId ≠ svc.selfId
  | _ => True

namespace DhtService

/-- The record names this node in another spelling of its id. -/
def Misspelt (svc : DhtService) (r : ProviderRecord) : Prop :=
  r.provider = some svc.localId ∧ r.providerPeerId ≠ svc.selfId

/-- No source of the answer has a live record naming this node: among the
records a lookup folds, none that is the first for its provider; in the
stores, none under another spelling. -/
def Unechoed (svc : DhtService) (clock : Nat → Nat) (swarm : Swarm) (content : ContentId) : Prop :=
  (svc.Searches (clock 0) content →
    (∀ r ∈ svc.folded swarm content, r.provider = some svc.localId →
      ¬svc.FirstLive clock swarm content r.providerPeerId) ∧
    ∀ r ∈ svc.providers.get content.toKey.toHex (clock 0), svc.Misspelt r →
      r.isExpired (clock 2) = true) ∧
  (¬svc.Searches (clock 0) content →
    ∀ r ∈ svc.providers.get content.toKey.toHex (clock 0) ++
      svc.discovered.get content.toKey.toHex (clock 0), ¬svc.Misspelt r)

instance (svc : DhtService) (r : ProviderRecord) : Decidable (svc.Misspelt r) :=
  inferInstanceAs (Decidable (_ ∧ _))

instance (svc : DhtService) (clock : Nat → Nat) (swarm : Swarm) (content : ContentId) :
    Decidable (svc.Unechoed clock swarm content) :=
  inferInstanceAs (Decidable ((_ → _ ∧ _) ∧ (_ → _)))

/-- The state between a retract and the next announce. -/
structure Retracted (content : ContentId) (svc : DhtService) : Prop where
  valid : svc.Valid
  absent : svc.providers.entry content.toKey.toHex svc.selfId = none
  unannounced : content.toKey.toHex ∉ svc.providers.localAnnouncements

end DhtService

/-- A step that asks about `content` meets no echo. -/
def AsksUnechoed (content : ContentId) (svc : DhtService) (x : Input × World) : Prop :=
  x.1.op.AsksFor content → svc.Unechoed x.1.clock (x.2.swarms 0) content

/-! ## §2 The store stays clean -/

namespace DhtService

theorem retracted_retract {svc : DhtService} (h : svc.Valid) {content : ContentId}
    {x : Input × World} (hop : x.1.op = .retractOwnProvider content) :
    (stepState svc x).Retracted content := by
  have hproviders : (stepState svc x).providers =
      ((svc.providers.remove content.toKey.toHex svc.selfId).1.unmarkAnnounced
        content.toKey.toHex).1 := by
    simp only [stepState, step, hop]
    rfl
  have hself : (stepState svc x).selfId = svc.selfId := by
    rw [NodeProfile.selfId, stepState, toNodeProfile_step h]
    rfl
  refine ⟨valid_step h x.1 x.2, ?_, ?_⟩
  · rw [hself, hproviders]
    have hentry := svc.providers.entry_remove content.toKey.toHex svc.selfId
      content.toKey.toHex svc.selfId
    rwa [if_pos ⟨rfl, rfl⟩] at hentry
  · rw [hproviders]
    simp only [ProviderStore.localAnnouncements, ProviderStore.unmarkAnnounced, AList.keys_erase]
    exact (AList.keys_nodup _).not_mem_erase

/-- An undisturbed step puts no record of this node for the key. -/
theorem not_put_of_undisturbed {content : ContentId} {svc : DhtService}
    (h : svc.Retracted content) {x : Input × World} (hx : Undisturbed content svc x)
    {r : ProviderRecord} {now : Nat}
    (hput : StoreOp.putAt r now ∈ svc.assertionSide.storeOps x.1)
    (hkey : r.contentKey = content.toKey.toHex) : r.providerPeerId ≠ svc.selfId := by
  intro hid
  cases mem_storeOps_putAt hput with
  | announce content' coin hop =>
    simp only [Undisturbed, hop] at hx
    cases coin <;> exact hx (Key.toHex_injective hkey)
  | ingest record hop =>
    simp only [Undisturbed, hop] at hx
    exact hx ⟨hkey, hid⟩
  | republish hex target i hop hlisted hparse =>
    obtain ⟨key, rfl⟩ := h.valid.announced hex hlisted
    rw [parseKey_toHex] at hparse
    cases hparse
    have hsame : target.toHex = content.toKey.toHex := hkey
    exact h.unannounced (hsame ▸ hlisted)
  | serve caller record hop hown =>
    simp only [Undisturbed, hop] at hx
    cases caller with
    | none => exact hx ⟨hkey, hid⟩
    | some c =>
      have hcaller : c.peerId = record.providerPeerId := by
        simpa [namesAnother] using hown
      exact hx (hcaller.trans hid)

/-- Nothing but an announce, or somebody speaking for this node, brings
the record or the mark back. -/
theorem retracted_step {content : ContentId} {svc : DhtService} (h : svc.Retracted content)
    {x : Input × World} (hx : Undisturbed content svc x) :
    (stepState svc x).Retracted content := by
  have hself : (stepState svc x).selfId = svc.selfId := by
    rw [NodeProfile.selfId, stepState, toNodeProfile_step h.valid]
    rfl
  refine ⟨valid_step h.valid x.1 x.2, ?_, ?_⟩
  · rw [hself, stepState, providers_step h.valid]
    exact ProviderStore.entry_exec_none h.absent _
      fun r now hput hkey => not_put_of_undisturbed h hx hput hkey
  · rw [stepState, providers_step h.valid]
    refine ProviderStore.not_announced_exec h.unannounced _ ?_
    intro op hop hmark
    obtain ⟨content', coin, hannounce, hkey, -⟩ := marks_storeOps hop hmark
    simp only [Undisturbed, hannounce] at hx
    exact hx (Key.toHex_injective hkey).symm

/-! ## §3 What the answers name -/

theorem namesSelf_iff {svc : DhtService} {content : ContentId} {x : Input × World}
    (hasks : x.1.op.AsksFor content) :
    (step svc x.1 x.2).2.reply.NamesSelf svc.toNodeProfile ↔
      ∃ r ∈ (svc.findProviders x.1.clock (x.2.swarms 0) content).2.1,
        r.provider = some svc.localId := by
  rcases hasks with hop | hop <;> simp only [step, hop]
  · exact Iff.rfl
  · exact List.mem_filterMap

/-- A record naming this node in the authoritative store of a retracted
node is misspelt. -/
theorem misspelt_of_mem_providers {content : ContentId} {svc : DhtService}
    (h : svc.Retracted content) {now : Nat} {r : ProviderRecord}
    (hr : r ∈ svc.providers.get content.toKey.toHex now) (hnames : r.provider = some svc.localId) :
    svc.Misspelt r := by
  refine ⟨hnames, ?_⟩
  intro hid
  obtain ⟨x, e, he, rfl, -⟩ := ProviderStore.mem_get hr
  have hx := (h.valid.providers.key_agrees _ x e he).2
  rw [← hx, hid, h.absent] at he
  cases he

theorem misspelt_of_mem_discovered {svc : DhtService} (h : svc.Valid) {k : String} {now : Nat}
    {r : ProviderRecord} (hr : r ∈ svc.discovered.get k now)
    (hnames : r.provider = some svc.localId) : svc.Misspelt r := by
  refine ⟨hnames, ?_⟩
  intro hid
  obtain ⟨x, e, he, rfl, -⟩ := ProviderStore.mem_get hr
  have hx := (h.discovered.key_agrees _ x e he).2
  exact h.foreign _ x e he (hx.symm.trans hid)

/-- The provider field alone says whom a record names. -/
theorem provider_congr {r q : ProviderRecord} (h : q.providerPeerId = r.providerPeerId) :
    q.provider = r.provider :=
  congrArg Deps.fromHex h

theorem returned_unnamed_iff {content : ContentId} {svc : DhtService} (h : svc.Retracted content)
    (clock : Nat → Nat) (swarm : Swarm) :
    (¬∃ r ∈ (svc.findProviders clock swarm content).2.1, r.provider = some svc.localId) ↔
      svc.Unechoed clock swarm content := by
  unfold Unechoed
  by_cases hsearch : svc.Searches (clock 0) content
  · simp only [hsearch, true_implies, not_true_eq_false, false_implies, and_true]
    have hreturned := searched_returned_iff swarm hsearch
    constructor
    · intro hquiet
      refine ⟨?_, ?_⟩
      · intro r hr hnames hfirst
        obtain ⟨q, hq, hid⟩ := (hreturned _).mpr (Or.inr hfirst)
        exact hquiet ⟨q, hq, (provider_congr hid).trans hnames⟩
      · intro r hr hodd
        by_contra hlive
        rw [Bool.not_eq_true] at hlive
        obtain ⟨q, hq, hid⟩ := (hreturned _).mpr (Or.inl ⟨r, hr, rfl, hlive⟩)
        exact hquiet ⟨q, hq, (provider_congr hid).trans hodd.1⟩
    · intro hunechoed hnamed
      obtain ⟨hfolded, hstored⟩ := hunechoed
      obtain ⟨q, hq, hnames⟩ := hnamed
      rcases (hreturned _).mp ⟨q, hq, rfl⟩ with ⟨r, hr, hid, hlive⟩ | hfirst
      · have hodd := misspelt_of_mem_providers h hr ((provider_congr hid).trans hnames)
        rw [hstored r hr hodd] at hlive
        cases hlive
      · obtain ⟨r, hfind, -⟩ := (Option.any_eq_true _ _).mp hfirst
        have hid : r.providerPeerId = q.providerPeerId := by simpa using List.find?_some hfind
        refine hfolded r (List.mem_of_find?_eq_some hfind) ((provider_congr hid).trans hnames) ?_
        rwa [hid]
  · simp only [hsearch, false_implies, not_false_eq_true, true_implies, true_and]
    have hreturned := unsearched_returned_iff swarm hsearch
    constructor
    · intro hquiet r hr hodd
      obtain ⟨hnames, -⟩ := hodd
      obtain ⟨q, hq, hid⟩ := (hreturned _).mpr ⟨r, hr, rfl⟩
      exact hquiet ⟨q, hq, (provider_congr hid).trans hnames⟩
    · intro hstored hnamed
      obtain ⟨q, hq, hnames⟩ := hnamed
      obtain ⟨r, hr, hid⟩ := (hreturned _).mp ⟨q, hq, rfl⟩
      have hself : r.provider = some svc.localId := (provider_congr hid).trans hnames
      refine hstored r hr ?_
      rcases List.mem_append.mp hr with hmem | hmem
      · exact misspelt_of_mem_providers h hmem hself
      · exact misspelt_of_mem_discovered h.valid hmem hself

theorem quietAbout_iff {content : ContentId} {svc : DhtService} (h : svc.Retracted content)
    (x : Input × World) : QuietAbout content svc x ↔ AsksUnechoed content svc x := by
  refine forall_congr' ?_
  intro hasks
  rw [namesSelf_iff hasks]
  exact returned_unnamed_iff h _ _

/-- **After an own-retract.** In a run that retracts `content` and is not
disturbed afterwards, no answer about `content` names this node if and
only if no lookup for it meets an echo. -/
theorem quiet_after_retract_iff (localId : PeerId) (addresses : List CandidateAddr)
    (config : DhtConfig) (content : ContentId) (before after : List (Input × World))
    (retract : Input × World) (hop : retract.1.op = .retractOwnProvider content)
    (hafter : EachStep stepState (Undisturbed content)
      (stepState (exec stepState (new localId addresses config) before) retract) after) :
    EachStep stepState (QuietAbout content)
        (stepState (exec stepState (new localId addresses config) before) retract) after ↔
      EachStep stepState (AsksUnechoed content)
        (stepState (exec stepState (new localId addresses config) before) retract) after :=
  eachStep_congr (I := Retracted content) (fun _ _ hs hx => retracted_step hs hx)
    (fun _ x hs => quietAbout_iff hs x)
    (retracted_retract (valid_exec localId addresses config before) hop) hafter

end DhtService

end Retract

/-! ## §4 A node that announced, retracted and asked -/

section Samples

attribute [local instance] sampleDeps

/-- One peer that took our record, and now answers with `copies`. -/
def holderWorld (copies : List ProviderRecord) : World where
  swarms _ := {
    rpc := fun _ _ request =>
      match request with
      | .addProvider _ => some .addProviderOk
      | .findProviders _ => some (.providers copies [])
      | _ => none
    arrival := fun _ batch => batch
    arrival_perm := fun _ => List.Perm.refl }
  random _ := List.Vector.replicate 32 0
  nonce := 0

/-- Meet peer 211, announce the content, retract it. -/
def retractedRun : List (Input × World) :=
  [(.at 100 (.addPeer (samplePeer 211) []), holderWorld []),
    (.at 100 (.announceProvider sampleContent), holderWorld []),
    (.at 100 (.retractOwnProvider sampleContent), holderWorld [])]

/-- The record the announce sends, with the default lifetime of two hours. -/
def announcedCopy : ProviderRecord :=
  sampleRecord 9 7300

/-- The peer's copy has run out: the answer is empty. -/
theorem quiet_once_expired :
    EachStep stepState (QuietAbout sampleContent)
      (exec stepState (DhtService.new (samplePeer 9) [] .default) retractedRun)
      [(.at 7300 (.findProviders sampleContent), holderWorld [announcedCopy])] :=
  (DhtService.quiet_after_retract_iff (samplePeer 9) [] .default sampleContent
    (retractedRun.take 2) [(.at 7300 (.findProviders sampleContent), holderWorld [announcedCopy])]
    (.at 100 (.retractOwnProvider sampleContent), holderWorld []) rfl
    ⟨trivial, trivial⟩).mpr ⟨fun _ => by decide +kernel, trivial⟩

/-- The peer got a copy by the announce and the copy still lives: a second
after the retract, this node names itself. -/
theorem echoed_after_retract :
    let met := exec stepState (DhtService.new (samplePeer 9) [] .default) (retractedRun.take 1)
    let retracted := exec stepState (DhtService.new (samplePeer 9) [] .default) retractedRun
    let ask : Input × World :=
      (.at 101 (.findProviders sampleContent), holderWorld [announcedCopy])
    (sampleContact 211, DhtRequest.addProvider announcedCopy) ∈
        (step met (.at 100 (.announceProvider sampleContent)) (holderWorld [])).2.sent ∧
      Undisturbed sampleContent retracted ask ∧
      ¬QuietAbout sampleContent retracted ask ∧
      (step retracted ask.1 ask.2).2.reply = .records [announcedCopy] ∧
      announcedCopy.provider = some retracted.localId := by
  intro met retracted ask
  have hreply : (step retracted ask.1 ask.2).2.reply = .records [announcedCopy] := by
    decide +kernel
  have hnames : announcedCopy.provider = some retracted.localId := by decide +kernel
  refine ⟨by decide +kernel, trivial, ?_, hreply, hnames⟩
  intro hquiet
  have hunnamed := hquiet (Or.inl rfl)
  rw [hreply] at hunnamed
  exact hunnamed ⟨announcedCopy, List.mem_singleton.mpr rfl, hnames⟩

end Samples

end DigDht.Service
