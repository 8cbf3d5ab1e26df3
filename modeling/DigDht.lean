import DigDht.Lib.Runs
import DigDht.Lib.FiniteMap
import DigDht.Lib.Selection
import DigDht.Lib.BoundedLoop
import DigDht.Keyspace.Key
import DigDht.Keyspace.KeyTheorems
import DigDht.Keyspace.Hex
import DigDht.Keyspace.HexTheorems
import DigDht.Lib.BigEndian
import DigDht.Keyspace.MetricTheorems
import DigDht.Keyspace.CodecTheorems
import DigDht.Deps
import DigDht.Record.Record
import DigDht.Record.DialCandidates
import DigDht.Store.ProviderStore
import DigDht.Store.ProviderStoreTheorems
import DigDht.Store.IncumbentTheorems
import DigDht.Store.AdmissionTheorems
import DigDht.Store.PolicyTheorems
import DigDht.Store.LivenessTheorems
import DigDht.Store.SweepTheorems
import DigDht.Store.LedgerTheorems
import DigDht.Routing.RoutingTable
import DigDht.Routing.RoutingTableTheorems
import DigDht.Lib.Recency
import DigDht.Routing.RecencyTheorems
import DigDht.Routing.DistanceTheorems
import DigDht.Record.DialTheorems
import DigDht.Lookup.IterativeFind
import DigDht.Lookup.IterativeFindTheorems
import DigDht.Lookup.RoundTheorems
import DigDht.Lookup.BoundTheorems
import DigDht.Lookup.ArrivalTheorems
import DigDht.Lookup.ConvergenceTheorems
import DigDht.Lookup.CapTheorems
import DigDht.Lookup.FailureTheorems
import DigDht.Content.ContentId
import DigDht.Wire.Message
import DigDht.Service.Config
import DigDht.Service.Service
import DigDht.Service.Machine
import DigDht.Service.AssertionSide
import DigDht.Service.ServiceTheorems
import DigDht.Service.NonInterference
import DigDht.Service.MergeTheorems
import DigDht.Service.FindProvidersTheorems
import DigDht.Service.RetractTheorems
import DigDht.Service.Interleaving
import DigDht.Service.InterleavingTheorems
import DigDht.Service.Routines
import DigDht.Service.RoutineTheorems
import DigDht.Service.ConcurrencyTheorems
import DigDht.Lib.CompactJson
import DigDht.Lib.JsonReading
import DigDht.Wire.Frame
import DigDht.Wire.FrameTheorems
import DigDht.Service.ServingTheorems
import DigDht.Service.IsolationTheorems
import DigDht.Service.FindableTheorems
import DigDht.Service.ResidenceTheorems
import DigDht.Service.PointerTheorems
import DigDht.Service.BindingTheorems
import DigDht.Service.IdentityTheorems
import DigDht.Service.ShapeTheorems
import DigDht.Service.SlotTheorems
import DigDht.Service.SelfTheorems
import DigDht.Service.RefreshTheorems
import DigDht.Wire.Codec
import DigDht.Wire.RoundTripTheorems
import DigDht.Wire.ReadingTheorems
import DigDht.Service.EncodingTheorems
import DigDht.Lib.Routines
import DigDht.Lib.Checked
import DigDht.Checked.Components
import DigDht.Checked.Service
import DigDht.Checked.PanicTheorems
import DigDht.Routing.SaturationTheorems
import DigDht.Lookup.RoutedTheorems
import DigDht.Network.Network
import DigDht.Network.ProvenanceTheorems
import DigDht.Service.RetentionTheorems
import DigDht.Network.FindTheorems
import DigDht.Network.LifetimeTheorems
import DigDht.Network.RoutingTheorems
