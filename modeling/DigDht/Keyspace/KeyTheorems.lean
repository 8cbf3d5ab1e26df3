/-
DigDht.Keyspace.KeyTheorems — the XOR distance and its bucket index.

`bucketIndex` is `none` exactly on the zero distance, and the distance
of a key to itself is zero: a node's own key has no bucket. Distances to
one point tell keys apart, so an order by distance has no ties.
-/
import DigDht.Keyspace.Key

namespace DigDht.Keyspace

theorem getElem?_toList (bytes : Bytes32) (i : Fin 32) :
    bytes.toList[i.val]? = some (bytes.get i) := by
  simp [List.Vector.get_eq_get_toList]

theorem Distance.bucketIndexFrom_eq_none_iff (i : Nat) (bytes : List UInt8) :
    bucketIndexFrom i bytes = none ↔ ∀ byte ∈ bytes, byte = 0 := by
  induction bytes generalizing i with
  | nil => simp [bucketIndexFrom]
  | cons byte rest ih =>
    by_cases hzero : byte = 0
    · simp [bucketIndexFrom, hzero, ih]
    · simp [bucketIndexFrom, hzero]

theorem Distance.bucketIndex_eq_none_iff (d : Distance) :
    d.bucketIndex = none ↔ ∀ byte ∈ d.bytes.toList, byte = 0 :=
  bucketIndexFrom_eq_none_iff 0 _

theorem Key.distance_self_byte (key : Key) :
    ∀ byte ∈ (key.distance key).bytes.toList, byte = 0 := by
  intro byte hbyte
  rw [Key.distance, List.Vector.zipWith_toList] at hbyte
  obtain ⟨i, hi, rfl⟩ := List.mem_iff_getElem.mp hbyte
  rw [List.getElem_zipWith]
  exact UInt8.xor_self

/-- Distinct identities have distinct keys. -/
theorem Key.fromPeerId_injective : Function.Injective Key.fromPeerId := by
  intro p q h
  cases p
  cases q
  exact congrArg PeerId.mk (congrArg Key.bytes h)

/-- From one point, distinct keys are at distinct distances. -/
theorem Key.distance_injective (target : Key) : Function.Injective target.distance := by
  intro a b h
  have hbytes : a.bytes = b.bytes := by
    refine List.Vector.ext ?_
    intro i
    have hi := congrArg (fun d : Distance => d.bytes.get i) h
    simpa [Key.distance] using hi
  cases a
  cases b
  exact congrArg Key.mk hbytes

@[simp] theorem Key.bucketIndex_distance_self (key : Key) :
    (key.distance key).bucketIndex = none :=
  (Distance.bucketIndex_eq_none_iff _).mpr key.distance_self_byte

end DigDht.Keyspace
