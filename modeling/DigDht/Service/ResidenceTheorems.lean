/-
DigDht.Service.ResidenceTheorems — how long a record can stay.

Every write clamps the expiry with the lifetime of its store at the
instant of the write, and a read rewrites nothing. So an entry is
accounted for by the last accepted write of its pair (`lastWrite`), a
cached one by the last lookup for its key (`lastWalk`): both are ghosts,
read off the run. §1 is one store, §2 one step of the service, §3 a run
under a clock that does not go back.
-/
import DigDht.Service.FindProvidersTheorems
import DigDht.Service.FindableTheorems
import DigDht.Service.RetractTheorems

namespace DigDht.Service

open Keyspace Record Routing Lookup Store Wire Content Runs

/-! ## §1 The writes of a store -/

/-- The instant at which a store operation puts a record of `x` under `k`,
if the put is accepted. -/
def acceptedPut (k x : String) (s : ProviderStore) : StoreOp → Option Nat
  | .putAt r now =>
    if r.contentKey = k ∧ r.providerPeerId = x ∧ (s.putAt r now).2 = .accepted then some now
    else none
  | _ => none

/-- The last accepted put of the pair among `ops`. -/
def lastPut (k x : String) : ProviderStore → List StoreOp → Option Nat :=
  latest Store.step (acceptedPut k x)

/-- An entry of the pair was written at `w`, not after `u`, and expires
within `ttl` of that. -/
def Accounted (ttl u : Nat) (e : Option ProviderEntry) (w : Option Nat) : Prop :=
  ∀ e' ∈ e, ∃ w' ∈ w, w' ≤ u ∧ e'.record.expiresAt ≤ saturatingAdd w' ttl

theorem Accounted.mono {ttl u u' : Nat} {e : Option ProviderEntry} {w : Option Nat}
    (h : Accounted ttl u e w) (hu : u ≤ u') : Accounted ttl u' e w := by
  intro e' he'
  obtain ⟨w', hw', hle, hexpires⟩ := h e' he'
  exact ⟨w', hw', hle.trans hu, hexpires⟩

/-- A put that expires within `ttl` keeps the account. -/
theorem accounted_step {ttl u : Nat} {s : ProviderStore} {k x : String} {w : Option Nat}
    {op : StoreOp}
    (hop : ∀ r now, op = .putAt r now → now ≤ u ∧ r.expiresAt ≤ saturatingAdd now ttl)
    (h : Accounted ttl u (s.entry k x) w) :
    Accounted ttl u ((Store.step s op).entry k x) ((acceptedPut k x s op).or w) := by
  intro e' he'
  by_cases hput : ∃ r now, op = .putAt r now ∧ r.contentKey = k ∧ r.providerPeerId = x ∧
      (s.putAt r now).2 = .accepted
  · obtain ⟨r, now, rfl, hk, hx, haccepted⟩ := hput
    obtain ⟨e, he, hrecord⟩ := ProviderStore.entry_putAt_accepted haccepted
    obtain ⟨hle, hexpires⟩ := hop r now rfl
    simp only [Store.step, ← hk, ← hx] at he'
    rw [he] at he'
    cases he'
    refine ⟨now, ?_, hle, ?_⟩
    · simp [acceptedPut, hk, hx, haccepted]
    · rwa [hrecord]
  · -- No accepted put of the pair: the entry was there before.
    have hnone : acceptedPut k x s op = none := by
      cases op with
      | putAt r now =>
        simp only [acceptedPut]
        rw [if_neg]
        intro haccepted
        exact hput ⟨r, now, rfl, haccepted⟩
      | _ => rfl
    rw [hnone, Option.none_or]
    rcases ProviderStore.entry_step_cases he' with ⟨hold, -⟩ |
      ⟨e, r, now, rfl, hk, hx, he, -, -⟩ | ⟨r, now, rfl, hk, hx, hfresh, -, -⟩
    · exact h e' hold
    · refine absurd ⟨r, now, rfl, hk, hx, ?_⟩ hput
      by_contra hrejected
      have habsent := (ProviderStore.putAt_of_not_accepted hrejected).2
      rw [hk, hx, he] at habsent
      cases habsent
    · refine absurd ⟨r, now, rfl, hk, hx, ?_⟩ hput
      by_contra hrejected
      have hsame := (ProviderStore.putAt_of_not_accepted hrejected).1
      simp only [Store.step, hsame, hfresh] at he'
      cases he'

theorem accounted_exec {ttl u : Nat} {s : ProviderStore} {k x : String} {w : Option Nat}
    {ops : List StoreOp}
    (hops : ∀ r now, StoreOp.putAt r now ∈ ops → now ≤ u ∧ r.expiresAt ≤ saturatingAdd now ttl)
    (h : Accounted ttl u (s.entry k x) w) :
    Accounted ttl u ((exec Store.step s ops).entry k x) ((lastPut k x s ops).or w) := by
  refine latest_rule (Q := fun (s : ProviderStore) w => Accounted ttl u (s.entry k x) w) ?_ h
  intro s w op hop hs
  refine accounted_step ?_ hs
  intro r now heq
  exact hops r now (heq ▸ hop)

theorem saturatingAdd_mono {a b : Nat} (h : a ≤ b) (ttl : Nat) :
    saturatingAdd a ttl ≤ saturatingAdd b ttl := by
  simp only [saturatingAdd]
  omega

/-- An accounted entry is dead once its lifetime is over. -/
theorem Accounted.expired {ttl u : Nat} {e : Option ProviderEntry} {w : Nat}
    (h : Accounted ttl u e (some w)) {now : Nat} (hnow : saturatingAdd w ttl ≤ now) :
    ∀ e' ∈ e, e'.record.isExpired now = true := by
  intro e' he'
  obtain ⟨w', hw', -, hexpires⟩ := h e' he'
  cases hw'
  exact ProviderRecord.isExpired_iff.mpr (hexpires.trans hnow)

/-- A dead entry is in no list that is read. -/
theorem not_mem_get_of_expired {s : ProviderStore} (hs : s.WellFormed) {k x : String} {now : Nat}
    (h : ∀ e ∈ s.entry k x, e.record.isExpired now = true) :
    ∀ r ∈ s.get k now, r.providerPeerId ≠ x := by
  intro r hr hx
  obtain ⟨y, e, he, rfl, hlive⟩ := ProviderStore.mem_get hr
  have hy := (hs.key_agrees _ _ _ he).2
  rw [← hy, hx] at he
  rw [h e he] at hlive
  cases hlive

theorem get_eq_nil_of_expired {s : ProviderStore} {k : String} {now : Nat}
    (h : ∀ x, ∀ e ∈ s.entry k x, e.record.isExpired now = true) : s.get k now = [] := by
  refine List.eq_nil_iff_forall_not_mem.mpr ?_
  intro r hr
  obtain ⟨x, e, he, rfl, hlive⟩ := ProviderStore.mem_get hr
  rw [h x e he] at hlive
  cases hlive

/-- Nor is it counted in a snapshot. -/
theorem snapshot_of_expired {s : ProviderStore} {k x : String} {now : Nat}
    (h : ∀ e ∈ s.entry k x, e.record.isExpired now = true) {maxKeys : Nat}
    {p : ProviderSnapshotEntry} (hp : p ∈ (s.snapshot now maxKeys).entries)
    (hk : p.contentKey = k) :
    p.providers =
      {y | y ≠ x ∧ ∃ e, s.entry k y = some e ∧ e.record.isExpired now = false}.ncard := by
  rw [ProviderStore.mem_snapshot hp, hk]
  congr 1
  ext y
  simp only [Set.mem_ofPred_eq]
  refine (and_iff_right_of_imp ?_).symm
  intro hlive hyx
  obtain ⟨e, he, hfresh⟩ := hlive
  rw [hyx] at he
  rw [h e he] at hfresh
  cases hfresh

theorem entry_gc_of_expired {s : ProviderStore} {k x : String} {now : Nat}
    (h : ∀ e ∈ s.entry k x, e.record.isExpired now = true) : (s.gc now).1.entry k x = none := by
  rw [ProviderStore.entry_gc, Option.filter_eq_none_iff]
  intro e he
  simp [h e he]

section Residence

variable [Deps]

namespace DhtService

/-! ## §2 One step -/

/-- The last accepted write of the pair in a run. -/
def lastWrite (k x : String) : DhtService → List (Input × World) → Option Nat :=
  latest stepState fun svc y => lastPut k x svc.providers (svc.assertionSide.storeOps y.1)

/-- The instant at which a step caches what a lookup for `k` found. -/
def walkedAt (k : String) (svc : DhtService) (y : Input × World) : Option Nat :=
  match y.1.op with
  | .findProviders content | .holdersOf content =>
    if content.toKey.toHex = k ∧ svc.Searches (y.1.clock 0) content then some (y.1.clock 1)
    else none
  | _ => none

/-- The last lookup for `k` in a run. -/
def lastWalk (k : String) : DhtService → List (Input × World) → Option Nat :=
  latest stepState (walkedAt k)

/-- Every record put into the authoritative store expires within the
lifetime of the instant of the put. -/
theorem PutBy.expiry {a : AssertionSide} {input : Input} {r : ProviderRecord} {now : Nat}
    (h : PutBy a input r now) (hclock : Monotone input.clock) :
    (∃ i, now = input.clock i) ∧ r.expiresAt ≤ saturatingAdd now a.config.providerTtlSecs := by
  cases h with
  | announce content coin =>
    refine ⟨⟨1, rfl⟩, ?_⟩
    rw [NodeProfile.announcedRecord_eq]
    exact saturatingAdd_mono (hclock (Nat.zero_le 1)) _
  | ingest record => exact ⟨⟨0, rfl⟩, min_le_right _ _⟩
  | republish hex target i =>
    exact ⟨⟨_, rfl⟩, saturatingAdd_mono (hclock (Nat.le_succ (2 * i))) _⟩
  | serve caller record => exact ⟨⟨0, rfl⟩, min_le_right _ _⟩

/-- Every record cached comes from a lookup for its key, and expires
within the cache lifetime of the instant of the write. -/
theorem cacheOps_expiry {svc : DhtService} {y : Input × World} {r : ProviderRecord} {now : Nat}
    (h : StoreOp.putAt r now ∈ svc.cacheOps y.1 y.2) :
    svc.walkedAt r.contentKey y = some now ∧ (∃ i, now = y.1.clock i) ∧
      r.expiresAt ≤ saturatingAdd now svc.config.discoveryCacheTtlSecs := by
  obtain ⟨content, hop, hput⟩ := mem_cacheOps_putAt h
  have hsearch : svc.Searches (y.1.clock 0) content := by
    unfold cachePuts at hput
    simp only at hput
    split at hput
    · cases hput
    · rename_i hneither
      obtain ⟨hcache, hseeds⟩ := not_or.mp hneither
      exact ⟨not_not.mp hcache, hseeds⟩
  obtain ⟨q, -, entry, hentry, heq⟩ := mem_cachePuts hput
  cases heq
  have hkey := (cacheEntry_spec hentry).1
  refine ⟨?_, ⟨1, rfl⟩, ?_⟩
  · rcases hop with hop | hop <;> simp [walkedAt, hop, hkey, hsearch]
  · unfold NodeProfile.cacheEntry at hentry
    split at hentry
    · cases hentry
    · simp only at hentry
      split at hentry
      · cases hentry
      · cases hentry
        exact min_le_right _ _

/-- What holds of a service at `u`, given the last writes and lookups. -/
structure Resident (u : Nat) (svc : DhtService) (written : String → String → Option Nat)
    (walked : String → Option Nat) : Prop where
  valid : svc.Valid
  stored : ∀ k x, Accounted svc.config.providerTtlSecs u (svc.providers.entry k x) (written k x)
  cached : ∀ k x,
    Accounted svc.config.discoveryCacheTtlSecs u (svc.discovered.entry k x) (walked k)

theorem resident_step {t u : Nat} {svc : DhtService} {written : String → String → Option Nat}
    {walked : String → Option Nat} (h : svc.Resident t written walked) (y : Input × World)
    (hstart : t ≤ y.1.clock 0) (hclock : Monotone y.1.clock) (hend : ∀ i, y.1.clock i ≤ u) :
    (stepState svc y).Resident u
      (fun k x =>
        (lastPut k x svc.providers (svc.assertionSide.storeOps y.1)).or (written k x))
      (fun k => (svc.walkedAt k y).or (walked k)) := by
  have hprofile : (stepState svc y).toNodeProfile = svc.toNodeProfile :=
    toNodeProfile_step h.valid y.1 y.2
  have hconfig : (stepState svc y).config = svc.config := congrArg NodeProfile.config hprofile
  have htu : t ≤ u := hstart.trans (hend 0)
  have hwalked : ∀ k, ∀ w ∈ svc.walkedAt k y, t ≤ w ∧ w ≤ u := by
    intro k w hw
    have hsite : w = y.1.clock 1 := by
      unfold walkedAt at hw
      split at hw
      · exact (Option.some.inj (Option.ite_none_right_eq_some.mp hw).2).symm
      · exact (Option.some.inj (Option.ite_none_right_eq_some.mp hw).2).symm
      · cases hw
    subst hsite
    exact ⟨hstart.trans (hclock (Nat.zero_le 1)), hend 1⟩
  constructor
  · exact valid_step h.valid y.1 y.2
  · intro k x
    rw [hconfig]
    show Accounted _ u ((step svc y.1 y.2).1.providers.entry k x) _
    rw [providers_step h.valid]
    refine accounted_exec ?_ ((h.stored k x).mono htu)
    intro r now hput
    obtain ⟨⟨i, rfl⟩, hexpires⟩ := (mem_storeOps_putAt hput).expiry hclock
    exact ⟨hend i, hexpires⟩
  · intro k x e he
    rw [hconfig]
    have hexec : (exec Store.step svc.discovered (svc.cacheOps y.1 y.2)).entry k x = some e := by
      rw [← discovered_step]
      exact he
    rcases ProviderStore.entry_exec_cases hexec with hold | ⟨r, now, hput, hk, hrecord⟩
    · obtain ⟨w, hw, hle, hexpires⟩ := h.cached k x e hold
      -- A later lookup for the key moves the bound up only.
      cases hnow : svc.walkedAt k y with
      | none => exact ⟨w, by simpa using hw, hle.trans htu, hexpires⟩
      | some w' =>
        obtain ⟨hafter, hbefore⟩ := hwalked k w' hnow
        exact ⟨w', by simp, hbefore,
          hexpires.trans (saturatingAdd_mono (hle.trans hafter) _)⟩
    · obtain ⟨hwalk, ⟨i, hi⟩, hexpires⟩ := cacheOps_expiry hput
      rw [hk] at hwalk
      rw [← hrecord] at hexpires
      exact ⟨now, by simp [hwalk], hi ▸ hend i, hexpires⟩

/-! ## §3 A run -/

/-- The clock does not go back during the run, which is over at `u`. -/
def Ticks : Nat → List (Input × World) → Nat → Prop
  | t, [], u => t ≤ u
  | t, y :: run, u =>
    t ≤ y.1.clock 0 ∧ Monotone y.1.clock ∧ ∃ e, (∀ i, y.1.clock i ≤ e) ∧ Ticks e run u

theorem resident_exec {t u : Nat} {run : List (Input × World)} (hticks : Ticks t run u)
    {svc : DhtService} {written : String → String → Option Nat} {walked : String → Option Nat}
    (h : svc.Resident t written walked) :
    (exec stepState svc run).Resident u (fun k x => (lastWrite k x svc run).or (written k x))
      (fun k => (lastWalk k svc run).or (walked k)) := by
  induction run generalizing t svc written walked with
  | nil =>
    exact ⟨h.valid, fun k x => (h.stored k x).mono hticks, fun k x => (h.cached k x).mono hticks⟩
  | cons y run ih =>
    obtain ⟨hstart, hclock, e, hend, hrest⟩ := hticks
    have hrun := ih hrest (resident_step h y hstart hclock hend)
    simp only [← Option.or_assoc] at hrun
    exact hrun

theorem resident_new (localId : PeerId) (addresses : List CandidateAddr) (config : DhtConfig)
    (t : Nat) : (new localId addresses config).Resident t (fun _ _ => none) fun _ => none where
  valid := valid_new localId addresses config
  stored := by simp [Accounted, new, ProviderStore.withLimits, ProviderStore.entry]
  cached := by simp [Accounted, new, ProviderStore.withLimits, ProviderStore.entry]

/-- With no live entry for the key, `find_providers` does what it does
with an empty cache. -/
theorem findProviders_of_uncached {svc : DhtService} {clock : Nat → Nat} {content : ContentId}
    (h : svc.discovered.get content.toKey.toHex (clock 0) = []) (swarm : Swarm)
    (limits : ProviderStoreLimits) :
    (svc.findProviders clock swarm content).2 =
      (findProviders { svc with discovered := .withLimits limits } clock swarm content).2 := by
  have hempty : (ProviderStore.withLimits limits).get content.toKey.toHex (clock 0) = [] := rfl
  unfold findProviders
  simp only [h, hempty, ne_eq, not_true_eq_false, if_false]
  by_cases hseeds : svc.seedContacts content.toKey = []
  · have hseeds' : seedContacts { svc with discovered := .withLimits limits } content.toKey = [] :=
      hseeds
    rw [if_pos hseeds, if_pos hseeds']
  · have hseeds' : seedContacts { svc with discovered := .withLimits limits } content.toKey ≠ [] :=
      hseeds
    rw [if_neg hseeds, if_neg hseeds']
    rfl

/-- A `FindProviders` answer has what a read of the store has. -/
theorem unserved {svc : DhtService} (hvalid : svc.Valid) {k x : String} {now : Nat}
    (hread : ∀ r ∈ svc.providers.get k now, r.providerPeerId ≠ x) {asker : Option Contact}
    {contentKey : String} {providers : List ProviderRecord} {closer : List Contact}
    (hreply : (svc.handleRequestFrom now asker (.findProviders contentKey)).2 =
      some (.providers providers closer)) :
    ∀ r ∈ providers, r.contentKey = k → r.providerPeerId ≠ x := by
  intro r hr hk
  obtain ⟨-, key, -, hmem⟩ := (finds_iff hvalid).mp ⟨providers, closer, hreply, hr⟩
  obtain ⟨y, e, he, hrecord, -⟩ := ProviderStore.mem_get hmem
  have hkey := (hvalid.providers.key_agrees _ _ _ he).1
  rw [hrecord, hk] at hkey
  rw [← hkey] at hmem
  exact hread r hmem

/-- What is accounted for at the end of a run from a fresh service. -/
theorem accounted_run (localId : PeerId) (addresses : List CandidateAddr) (config : DhtConfig)
    {run : List (Input × World)} {t u : Nat} (hticks : Ticks t run u) :
    let fresh := new localId addresses config
    let svc := exec stepState fresh run
    (∀ k x, Accounted config.providerTtlSecs u (svc.providers.entry k x)
      (lastWrite k x fresh run)) ∧
    ∀ k x, Accounted config.discoveryCacheTtlSecs u (svc.discovered.entry k x)
      (lastWalk k fresh run) := by
  intro fresh svc
  have hresident := resident_exec hticks (resident_new localId addresses config t)
  have hconfig : svc.config = config := config_exec localId addresses config run
  constructor
  · intro k x
    have haccounted := hresident.stored k x
    simp only [Option.or_none] at haccounted
    rwa [← hconfig]
  · intro k x
    have haccounted := hresident.cached k x
    simp only [Option.or_none] at haccounted
    rwa [← hconfig]

/-- **Bounded residence.** In every run under a clock that does not go
back, at `u`: a stored record expires within `provider_ttl`, and from
`provider_ttl` after the last accepted write of a pair on, the pair is in
no answer, no snapshot count and no local read, and `gc` drops it; a
cached record expires within `discovery_cache_ttl`, and from
`discovery_cache_ttl` after the last lookup for a key on, the cache is
empty for it. -/
theorem bounded_residence (localId : PeerId) (addresses : List CandidateAddr) (config : DhtConfig)
    (run : List (Input × World)) (t u : Nat) (hticks : Ticks t run u) :
    let fresh := new localId addresses config
    let svc := exec stepState fresh run
    (∀ k x e, svc.providers.entry k x = some e →
      e.record.expiresAt ≤ saturatingAdd u config.providerTtlSecs) ∧
    (∀ k x w, lastWrite k x fresh run = some w →
      ∀ now, saturatingAdd w config.providerTtlSecs ≤ now →
        (∀ asker contentKey providers closer,
          (svc.handleRequestFrom now asker (.findProviders contentKey)).2 =
              some (.providers providers closer) →
            ∀ r ∈ providers, r.contentKey = k → r.providerPeerId ≠ x) ∧
        (∀ maxKeys, ∀ p ∈ (svc.providers.snapshot now maxKeys).entries, p.contentKey = k →
          p.providers = {y | y ≠ x ∧ ∃ e, svc.providers.entry k y = some e ∧
            e.record.isExpired now = false}.ncard) ∧
        (∀ r ∈ svc.providers.get k now, r.providerPeerId ≠ x) ∧
        (svc.gc now).1.providers.entry k x = none) ∧
    (∀ k x e, svc.discovered.entry k x = some e →
      e.record.expiresAt ≤ saturatingAdd u config.discoveryCacheTtlSecs) ∧
    ∀ content w, lastWalk content.toKey.toHex fresh run = some w →
      ∀ now, saturatingAdd w config.discoveryCacheTtlSecs ≤ now →
        svc.cachedProviders now content = [] ∧
        ∀ clock swarm, clock 0 = now → (svc.findProviders clock swarm content).2 =
          (findProviders { svc with discovered := .withLimits config.discoveryCacheLimits }
            clock swarm content).2 := by
  intro fresh svc
  obtain ⟨hstored, hcached⟩ := accounted_run localId addresses config hticks
  have hvalid : svc.Valid := valid_exec localId addresses config run
  refine ⟨?_, ?_, ?_, ?_⟩
  · intro k x e he
    obtain ⟨w, -, hle, hexpires⟩ := hstored k x e he
    exact hexpires.trans (saturatingAdd_mono hle _)
  · intro k x w hw now hnow
    have haccounted := hstored k x
    rw [hw] at haccounted
    have hdead := haccounted.expired hnow
    have hread := not_mem_get_of_expired hvalid.providers hdead
    refine ⟨?_, ?_, hread, entry_gc_of_expired hdead⟩
    · intro asker contentKey providers closer hreply
      exact unserved hvalid hread hreply
    · intro maxKeys p hp hk
      exact snapshot_of_expired hdead hp hk
  · intro k x e he
    obtain ⟨w, -, hle, hexpires⟩ := hcached k x e he
    exact hexpires.trans (saturatingAdd_mono hle _)
  · intro content w hw now hnow
    have hempty : svc.discovered.get content.toKey.toHex now = [] := by
      refine get_eq_nil_of_expired ?_
      intro x
      have haccounted := hcached content.toKey.toHex x
      rw [hw] at haccounted
      exact haccounted.expired hnow
    refine ⟨hempty, ?_⟩
    intro clock swarm hclock
    subst hclock
    exact findProviders_of_uncached hempty swarm _

end DhtService

end Residence

/-! ### A claim of a distant expiry -/

section Samples

attribute [local instance] sampleDeps

/-- Announce the content, look for it, and read the cached answer again:
the peer asked claims that its record lives for ever. -/
def residenceRun : List (Input × World) :=
  [(.at 100 (.addPeer (samplePeer 211) []), .silent),
    (.at 100 (.announceProvider sampleContent), .silent),
    (.at 100 (.findProviders sampleContent), holderWorld [sampleRecord 50 u64Max]),
    (.at 999 (.findProviders sampleContent), .silent)]

/-- The answer is cached for 900 seconds and not longer, and the node's
own record is served for 7200. -/
theorem bounded_residence_run :
    let svc := exec stepState (DhtService.new (samplePeer 9) [] .default) residenceRun
    svc.cachedProviders 999 sampleContent ≠ [] ∧ svc.cachedProviders 1000 sampleContent = [] ∧
      ∀ r ∈ svc.providers.get sampleContent.toKey.toHex 7300,
        r.providerPeerId ≠ (sampleContact 9).peerId := by
  have hticks : DhtService.Ticks 100 residenceRun 999 :=
    ⟨le_rfl, monotone_const, 100, fun _ => le_rfl, le_rfl, monotone_const, 100, fun _ => le_rfl,
      le_rfl, monotone_const, 100, fun _ => le_rfl, (by decide : 100 ≤ 999), monotone_const, 999,
      fun _ => le_rfl, le_rfl⟩
  obtain ⟨-, hstored, -, hcached⟩ :=
    DhtService.bounded_residence (samplePeer 9) [] .default residenceRun 100 999 hticks
  refine ⟨by decide +kernel, ?_, ?_⟩
  · exact (hcached sampleContent 100 (by decide +kernel) 1000 (by decide)).1
  · exact (hstored sampleContent.toKey.toHex (sampleContact 9).peerId 100 (by decide +kernel) 7300
      (by decide)).2.2.1

end Samples

end DigDht.Service
