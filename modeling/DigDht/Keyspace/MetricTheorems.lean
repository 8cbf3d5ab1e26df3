/-
DigDht.Keyspace.MetricTheorems — keys and distances as 256-bit numbers.

The 32 bytes are big-endian digits in base 256 (`toNat`). Under this
reading the distance of two keys is the XOR of their numbers
(`Key.toNat_distance`), `Distance` is ordered as its numbers are
(`Distance.lt_iff`), and the loop of `bucket_index` computes `log2`
(`bucketIndex_eq_some_iff_log2`). The rest is arithmetic: a bucket index
says how many leading bits two keys share (`bucketIndex_distance_iff`),
and a lower bucket is nearer (`distance_lt_of_bucketIndex_lt`).
-/
import DigDht.Keyspace.KeyTheorems
import DigDht.Lib.BigEndian

namespace DigDht.Keyspace

open BigEndian

/-- The bytes of a key as one number. -/
def Key.toNat (key : Key) : Nat :=
  value 8 (key.bytes.toList.map UInt8.toNat)

/-- The bytes of a distance as one number. -/
def Distance.toNat (d : Distance) : Nat :=
  value 8 d.digits

/-- The bits of a key, the first one the most significant. -/
def Key.bit (key : Key) (j : Nat) : Bool :=
  key.toNat.testBit (255 - j)

/-- The keys agree on their first `n` bits, and not on the next one. -/
def Key.SharesExactly (a b : Key) (n : Nat) : Prop :=
  (∀ j, j < n → a.bit j = b.bit j) ∧ a.bit n ≠ b.bit n

theorem toNat_byte_lt (bytes : List UInt8) : ∀ n ∈ bytes.map UInt8.toNat, n < 2 ^ 8 := by
  intro n hn
  obtain ⟨byte, -, rfl⟩ := List.mem_map.mp hn
  exact byte.toNat_lt

theorem toNat_bytes32_lt (bytes : Bytes32) :
    value 8 (bytes.toList.map UInt8.toNat) < 2 ^ 256 := by
  have hlt := value_lt (by decide : 0 < 8) (toNat_byte_lt bytes.toList)
  simpa using hlt

/-! ## §1 The order -/

namespace Distance

theorem lt_iff (d e : Distance) : d < e ↔ d.toNat < e.toNat := by
  have hlen : d.digits.length = e.digits.length := by simp [digits]
  exact (value_lt_value_iff (by decide) hlen (toNat_byte_lt _) (toNat_byte_lt _)).symm

theorem le_iff (d e : Distance) : d ≤ e ↔ d.toNat ≤ e.toNat := by
  rw [← not_lt, ← Nat.not_lt, lt_iff]

theorem toNat_injective : Function.Injective toNat := by
  intro d e h
  exact le_antisymm ((le_iff d e).mpr h.le) ((le_iff e d).mpr h.ge)

end Distance

namespace Key

theorem toNat_distance (a b : Key) : (a.distance b).toNat = a.toNat ^^^ b.toNat := by
  have hdigits : (a.distance b).digits =
      List.zipWith (· ^^^ ·) (a.bytes.toList.map UInt8.toNat) (b.bytes.toList.map UInt8.toNat) := by
    simp [Distance.digits, distance, List.map_zipWith, List.zipWith_map]
  rw [Distance.toNat, hdigits]
  exact value_zipWith_xor (by decide) (by simp) (toNat_byte_lt _) (toNat_byte_lt _)

theorem distance_comm (a b : Key) : a.distance b = b.distance a := by
  apply Distance.toNat_injective
  rw [toNat_distance, toNat_distance, Nat.xor_comm]

theorem toNat_injective : Function.Injective toNat := by
  intro a b h
  apply distance_injective a
  apply Distance.toNat_injective
  rw [toNat_distance, toNat_distance, h]

theorem toNat_distance_eq_zero_iff (a b : Key) : (a.distance b).toNat = 0 ↔ a = b := by
  rw [toNat_distance, Nat.xor_eq_zero_iff]
  exact toNat_injective.eq_iff

theorem distance_triangle (a b c : Key) :
    (a.distance c).toNat ≤ (a.distance b).toNat + (b.distance c).toNat := by
  simp only [toNat_distance]
  exact xor_triangle _ _ _

end Key

/-! ## §2 The bucket index -/

namespace Distance

theorem log2_toNat_le (b : UInt8) : b.toNat.log2 ≤ 7 := by
  by_cases hzero : b.toNat = 0
  · simp [hzero]
  · have hlt : b.toNat.log2 < 8 := (Nat.log2_lt hzero).mpr b.toNat_lt
    omega

/-- The loop finds the leading non-zero digit. -/
theorem bucketIndexFrom_eq_some_iff {i : Nat} {bytes : List UInt8} {idx : Fin 256}
    (hlen : i + bytes.length = 32) :
    bucketIndexFrom i bytes = some idx ↔
      value 8 (bytes.map UInt8.toNat) ≠ 0 ∧
        (value 8 (bytes.map UInt8.toNat)).log2 = idx.val := by
  induction bytes generalizing i with
  | nil => simp [bucketIndexFrom]
  | cons byte rest ih =>
    by_cases hzero : byte = 0
    · have hvalue : value 8 ((byte :: rest).map UInt8.toNat) = value 8 (rest.map UInt8.toNat) := by
        simp [hzero, value_cons]
      rw [List.length_cons] at hlen
      rw [hvalue, ← ih (by omega : i + 1 + rest.length = 32)]
      simp [bucketIndexFrom, hzero]
    · have hnum : byte.toNat ≠ 0 := fun h => hzero (UInt8.toNat_inj.mp h)
      have hlog := log2_value_cons (by decide : 0 < 8) hnum
        (toNat_byte_lt rest)
      have hpos : value 8 ((byte :: rest).map UInt8.toNat) ≠ 0 := by
        rw [List.map_cons, value_cons]
        have hprod : 0 < 2 ^ (8 * (rest.map UInt8.toNat).length) * byte.toNat :=
          Nat.mul_pos (Nat.two_pow_pos _) (Nat.pos_of_ne_zero hnum)
        omega
      have hbit := log2_toNat_le byte
      rw [List.map_cons] at hpos ⊢
      rw [List.length_cons] at hlen
      rw [List.length_map] at hlog
      simp only [bucketIndexFrom, ne_eq, hzero, not_false_eq_true, if_true, leadingZeros, if_false,
        Option.some.injEq, hlog, hpos, true_and, Fin.ext_iff]
      omega

theorem bucketIndex_eq_some_iff_log2 {d : Distance} {idx : Fin 256} :
    d.bucketIndex = some idx ↔ d.toNat ≠ 0 ∧ d.toNat.log2 = idx.val :=
  bucketIndexFrom_eq_some_iff (by simp)

theorem bucketIndex_eq_none_iff_toNat {d : Distance} : d.bucketIndex = none ↔ d.toNat = 0 := by
  have hlt : d.toNat < 2 ^ 256 := toNat_bytes32_lt d.bytes
  constructor
  · intro hnone
    by_contra hpos
    have hidx : d.toNat.log2 < 256 := (Nat.log2_lt hpos).mpr hlt
    have hsome : d.bucketIndex = some ⟨d.toNat.log2, hidx⟩ :=
      bucketIndex_eq_some_iff_log2.mpr ⟨hpos, rfl⟩
    rw [hnone] at hsome
    cases hsome
  · intro hzero
    cases hidx : d.bucketIndex with
    | none => rfl
    | some idx => exact absurd hzero (bucketIndex_eq_some_iff_log2.mp hidx).1

/-- Bucket `idx` is the distances from `2 ^ idx` up to `2 ^ (idx + 1)`. -/
theorem bucketIndex_eq_some_iff {d : Distance} {idx : Fin 256} :
    d.bucketIndex = some idx ↔ 2 ^ idx.val ≤ d.toNat ∧ d.toNat < 2 ^ (idx.val + 1) := by
  rw [bucketIndex_eq_some_iff_log2]
  constructor
  · rintro ⟨hpos, hlog⟩
    exact (Nat.log2_eq_iff hpos).mp hlog
  · intro h
    have hpos : d.toNat ≠ 0 := (Nat.lt_of_lt_of_le (Nat.two_pow_pos _) h.1).ne'
    exact ⟨hpos, (Nat.log2_eq_iff hpos).mpr h⟩

/-- The same, for any number in the place of the index. -/
theorem bucketIndex_val_eq_some_iff {d : Distance} {n : Nat} :
    d.bucketIndex.map Fin.val = some n ↔ 2 ^ n ≤ d.toNat ∧ d.toNat < 2 ^ (n + 1) := by
  constructor
  · intro h
    obtain ⟨i, hi, rfl⟩ := Option.map_eq_some_iff.mp h
    exact bucketIndex_eq_some_iff.mp hi
  · intro h
    have hlt : 2 ^ n < 2 ^ 256 := Nat.lt_of_le_of_lt h.1 (toNat_bytes32_lt d.bytes)
    have hn : n < 256 := (Nat.pow_lt_pow_iff_right (by decide)).mp hlt
    have hidx : d.bucketIndex = some ⟨n, hn⟩ := bucketIndex_eq_some_iff.mpr h
    rw [hidx]
    rfl

theorem lt_of_bucketIndex_lt {d e : Distance} {i j : Fin 256} (hd : d.bucketIndex = some i)
    (he : e.bucketIndex = some j) (hij : i < j) : d < e := by
  have hlogd := (bucketIndex_eq_some_iff_log2.mp hd).2
  have hloge := (bucketIndex_eq_some_iff_log2.mp he).2
  have hlt : i.val < j.val := hij
  rw [lt_iff]
  exact lt_of_log2_lt (by omega)

end Distance

/-- Two keys are in bucket `idx` of each other exactly when they share
exactly their first `255 - idx` bits. -/
theorem Key.bucketIndex_distance_iff {a b : Key} {idx : Fin 256} :
    (a.distance b).bucketIndex = some idx ↔ a.SharesExactly b (255 - idx.val) := by
  have hidx := idx.isLt
  rw [Distance.bucketIndex_eq_some_iff_log2, Key.toNat_distance, Nat.xor_ne_zero_iff]
  unfold SharesExactly bit
  rw [(by omega : 255 - (255 - idx.val) = idx.val)]
  constructor
  · rintro ⟨hne, hlog⟩
    obtain ⟨hbit, habove⟩ := (log2_xor_eq_iff hne).mp hlog
    exact ⟨fun j hj => habove _ (by omega), hbit⟩
  · rintro ⟨habove, hbit⟩
    have hne : a.toNat ≠ b.toNat := fun h => hbit (by rw [h])
    refine ⟨hne, (log2_xor_eq_iff hne).mpr ⟨hbit, ?_⟩⟩
    intro j hj
    by_cases hlast : j < 256
    · have hbits := habove (255 - j) (by omega)
      rwa [(by omega : 255 - (255 - j) = j)] at hbits
    · -- Above the 256 bits both numbers have none.
      have hpow : 2 ^ 256 ≤ 2 ^ j := Nat.pow_le_pow_right (by decide) (by omega)
      have ha : a.toNat.testBit j = false :=
        Nat.testBit_lt_two_pow (Nat.lt_of_lt_of_le (toNat_bytes32_lt a.bytes) hpow)
      have hb : b.toNat.testBit j = false :=
        Nat.testBit_lt_two_pow (Nat.lt_of_lt_of_le (toNat_bytes32_lt b.bytes) hpow)
      rw [ha, hb]

end DigDht.Keyspace
