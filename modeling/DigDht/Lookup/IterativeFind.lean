/-
DigDht.Lookup.IterativeFind — the iterative Kademlia lookup
(`src/lookup.rs`).

The walk keeps a shortlist sorted by distance to the target. A round
asks the `alpha` nearest entries not asked yet, folds their answers in,
and ends the walk when a provider was collected (if the caller wants
that) or when none of the `k` nearest entries is left to ask.

The peers are the environment. `Peers.query` is given the log of
contacts asked in EARLIER rounds, so a peer may answer differently in
different rounds; `Peers.arrival` is the order in which the answers of
one concurrent round come back, any permutation of the batch. Every task
of a round reports back: a query closure that panics is not modelled.

`Walk.trace` is a ghost: the exchanges so far, in the order they were
folded. `3 * k` and `k + 2 * alpha` are taken to fit a `usize`, without
which the walk panics (`DigDht.Checked.Components`); the `saturating_mul`
of the response ceilings is then plain.
-/
import Mathlib.Data.Finset.Insert
import DigDht.Lib.BoundedLoop
import DigDht.Lib.FiniteMap
import DigDht.Routing.RoutingTable

namespace DigDht.Lookup

open Keyspace Record Routing Selection BoundedLoop

/-- `MAX_LOOKUP_ROUNDS`. -/
def maxLookupRounds : Nat := 64

/-- `MAX_PROVIDERS_PER_RESPONSE`. -/
def maxProvidersPerResponse : Nat := 64

/-- `MAX_CLOSER_PER_RESPONSE`. -/
def maxCloserPerResponse : Nat := 64

/-- One peer's answer. -/
structure QueryOutcome where
  closer : List Contact
  providers : List ProviderRecord
  deriving DecidableEq

structure LookupResult where
  closest : List Contact
  providers : List ProviderRecord
  deriving DecidableEq

structure ShortlistEntry where
  contact : Contact
  distance : Distance
  queried : Bool
  failed : Bool
  deriving DecidableEq

/-- Still to be asked. -/
def ShortlistEntry.unasked (e : ShortlistEntry) : Bool :=
  !e.queried && !e.failed

/-- What the peers do: their answers (`none` is an `Err`), and the order
in which a round's answers arrive. -/
structure Peers where
  query : List Contact → Contact → Option QueryOutcome
  arrival : List Contact → List Contact → List Contact
  arrival_perm : ∀ asked batch, (arrival asked batch).Perm batch

/-- The arguments of `iterative_find` other than the seeds and `query`. -/
structure LookupParams where
  target : Key
  k : Nat
  alpha : Nat
  stopOnProviders : Bool
  deriving DecidableEq

/-- The mutable state of one walk. -/
structure Walk where
  shortlist : List ShortlistEntry
  seen : Finset String
  providers : FMap String ProviderRecord
  trace : List (Contact × Option QueryOutcome)
  deriving DecidableEq

def Walk.empty : Walk where
  shortlist := []
  seen := ∅
  providers := ∅
  trace := []

/-- `closest` and `providers` as read off the last state. -/
def Walk.result (w : Walk) (k : Nat) : LookupResult where
  closest := ((w.shortlist.filter fun e => !e.failed).take k).map ShortlistEntry.contact
  providers := FMap.values w.providers

/-- Why a walk ended. -/
inductive Exit where
  /-- `rounds > MAX_LOOKUP_ROUNDS`. -/
  | guard
  /-- The batch was empty. -/
  | exhausted
  | stoppedOnProviders
  /-- None of the `k` nearest is left to ask. -/
  | converged
  deriving DecidableEq

/-- `mark_queried`: the first entry for `peerId`, if any. -/
def markQueried (peerId : String) (failed : Bool) : List ShortlistEntry → List ShortlistEntry
  | [] => []
  | e :: rest =>
    if e.contact.peerId = peerId then { e with queried := true, failed } :: rest
    else e :: markQueried peerId failed rest

/-- `providers.entry(..).or_insert(p)`: the first record for a provider stays. -/
def orInsert (providers : FMap String ProviderRecord) (p : ProviderRecord) :
    FMap String ProviderRecord :=
  match providers.lookup p.providerPeerId with
  | some _ => providers
  | none => providers.insert p.providerPeerId p

namespace LookupParams

variable (p : LookupParams)

/-- `max_providers_per_response`. -/
def providerCap : Nat :=
  max maxProvidersPerResponse (2 * p.k)

/-- `max_closer_per_response`. -/
def closerCap : Nat :=
  max maxCloserPerResponse (2 * p.k)

def shortlistCap : Nat :=
  max (p.k * 3) (p.k + p.alpha * 2)

def sortAndCap (shortlist : List ShortlistEntry) : List ShortlistEntry :=
  (sortByKey ShortlistEntry.distance shortlist).take p.shortlistCap

/-- The next contacts to ask. -/
def batch (shortlist : List ShortlistEntry) : List Contact :=
  ((shortlist.filter ShortlistEntry.unasked).take p.alpha).map ShortlistEntry.contact

/-- The convergence test: none of the `k` nearest is left to ask. -/
def settled (shortlist : List ShortlistEntry) : Bool :=
  !(shortlist.take p.k).any ShortlistEntry.unasked

variable [Deps]

def mergeContact (w : Walk) (contact : Contact) : Walk :=
  if contact.peerId ∈ w.seen then w
  else
    match contact.key with
    | none => w
    | some key =>
      { w with
        seen := insert contact.peerId w.seen
        shortlist := w.shortlist ++ [{
          contact
          distance := p.target.distance key
          queried := false
          failed := false }] }

/-- Fold one peer's answer in. -/
def foldAnswer (w : Walk) (answer : Contact × Option QueryOutcome) : Walk :=
  let asked := { w with
    shortlist := markQueried answer.1.peerId answer.2.isNone w.shortlist
    trace := w.trace ++ [answer] }
  match answer.2 with
  | none => asked
  | some outcome =>
    let collected := { asked with
      providers := (outcome.providers.take p.providerCap).foldl orInsert asked.providers }
    (outcome.closer.take p.closerCap).foldl p.mergeContact collected

/-- The answers of one round, in arrival order. -/
def answers (peers : Peers) (w : Walk) : List (Contact × Option QueryOutcome) :=
  let asked := w.trace.map Prod.fst
  (peers.arrival asked (p.batch w.shortlist)).map fun c => (c, peers.query asked c)

/-- Ask a batch and fold the answers back in. -/
def round (peers : Peers) (w : Walk) : Walk :=
  let folded := (p.answers peers w).foldl p.foldAnswer w
  { folded with shortlist := p.sortAndCap folded.shortlist }

/-- One pass of the loop. -/
def pass (peers : Peers) (w : Walk) : Pass Walk Exit :=
  if p.batch w.shortlist = [] then .done w .exhausted
  else
    let w' := p.round peers w
    if p.stopOnProviders ∧ 0 < FMap.size w'.providers then .done w' .stoppedOnProviders
    else if p.settled w'.shortlist then .done w' .converged
    else .next w'

/-- The state the loop starts in. -/
def seeded (seeds : List Contact) : Walk :=
  let merged := seeds.foldl p.mergeContact Walk.empty
  { merged with shortlist := p.sortAndCap merged.shortlist }

/-- The walk from the seeds to its end. -/
def walk (peers : Peers) (seeds : List Contact) : Walk × Exit :=
  run (p.pass peers) .guard maxLookupRounds (p.seeded seeds)

def iterativeFind (peers : Peers) (seeds : List Contact) : LookupResult :=
  (p.walk peers seeds).1.result p.k

end LookupParams

end DigDht.Lookup
