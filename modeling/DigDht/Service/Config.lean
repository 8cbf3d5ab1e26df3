/-
DigDht.Service.Config — the tuning parameters a service reads
(`src/config.rs`).

The lifetimes are whole seconds, as `provider_ttl_secs` and
`discovery_cache_ttl_secs` read them. The two maintenance intervals and
the RPC timeout are read by the embedding node only and are left out.
-/
import DigDht.Store.ProviderStore

namespace DigDht.Service

open Store

structure DhtConfig where
  k : Nat
  alpha : Nat
  providerTtlSecs : Nat
  providerStoreLimits : ProviderStoreLimits
  discoveryCacheTtlSecs : Nat
  discoveryCacheLimits : ProviderStoreLimits
  deriving DecidableEq

/-- `DhtConfig::default()`. -/
def DhtConfig.default : DhtConfig where
  k := 20
  alpha := 3
  providerTtlSecs := 2 * 60 * 60
  providerStoreLimits := .default
  discoveryCacheTtlSecs := 15 * 60
  discoveryCacheLimits := { maxProvidersPerKey := 8, maxTotalRecords := 10000 }

end DigDht.Service
