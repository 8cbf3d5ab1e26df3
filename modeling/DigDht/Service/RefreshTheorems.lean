/-
DigDht.Service.RefreshTheorems — which keys `random_key_in_bucket` draws.

The distance it builds is zero before the byte of the bucket's bit, that
bit alone in this byte, and random from the next byte on. So it always
has the asked bucket (`bucketIndex_randomKeyInBucket`), but the lower
bits of the bit's OWN byte are never varied: every key of the bucket can
be drawn exactly when there are none (`refresh_covers_iff`).
-/
import DigDht.Keyspace.MetricTheorems
import DigDht.Service.Service

namespace DigDht.Keyspace

/-! ## §1 The bucket index, byte by byte -/

namespace Distance

/-- The loop stops at the first non-zero byte. -/
theorem bucketIndexFrom_eq_some_iff_byte {i : Nat} {bytes : List UInt8} {idx : Fin 256} :
    bucketIndexFrom i bytes = some idx ↔
      ∃ n byte, bytes[n]? = some byte ∧ byte ≠ 0 ∧ (∀ j < n, bytes[j]? = some 0) ∧
        idx.val = 255 - ((i + n) * 8 + leadingZeros byte) := by
  induction bytes generalizing i with
  | nil => simp [bucketIndexFrom]
  | cons byte rest ih =>
    by_cases hzero : byte = 0
    · subst hzero
      simp only [bucketIndexFrom, ne_eq, not_true_eq_false, if_false, ih]
      constructor
      · rintro ⟨n, byte, hbyte, hne, hbefore, hidx⟩
        refine ⟨n + 1, byte, hbyte, hne, ?_, by omega⟩
        intro j hj
        cases j with
        | zero => rfl
        | succ j => exact hbefore j (by omega)
      · rintro ⟨n, byte, hbyte, hne, hbefore, hidx⟩
        cases n with
        | zero => simp_all
        | succ n =>
          refine ⟨n, byte, hbyte, hne, ?_, by omega⟩
          intro j hj
          exact hbefore (j + 1) (by omega)
    · simp only [bucketIndexFrom, ne_eq, hzero, not_false_eq_true, if_true, Option.some.injEq,
        Fin.ext_iff]
      constructor
      · intro hidx
        exact ⟨0, byte, rfl, hzero, by simp, by omega⟩
      · rintro ⟨n, byte', hbyte, hne, hbefore, hidx⟩
        cases n with
        | zero => simp_all
        | succ n => exact absurd (Option.some.inj (hbefore 0 (by omega))) hzero

theorem leadingZeros_lt {byte : UInt8} (h : byte ≠ 0) : leadingZeros byte < 8 := by
  simp only [leadingZeros, h, if_false]
  omega

/-- The bit of bucket `idx` is bit `(255 - idx) % 8` of byte
`(255 - idx) / 8`: that is where the distance starts. -/
theorem bucketIndex_eq_some_iff_byte {d : Distance} {idx : Fin 256} {n : Fin 32}
    (hn : n.val = (255 - idx.val) / 8) :
    d.bucketIndex = some idx ↔
      (∀ i < n, d.bytes.get i = 0) ∧ d.bytes.get n ≠ 0 ∧
        leadingZeros (d.bytes.get n) = (255 - idx.val) % 8 := by
  have hget := getElem?_toList d.bytes
  have hidx := idx.isLt
  rw [bucketIndex, bucketIndexFrom_eq_some_iff_byte]
  constructor
  · rintro ⟨m, byte, hbyte, hne, hbefore, hval⟩
    have hlt : m < 32 := by
      have hlen := (List.getElem?_eq_some_iff.mp hbyte).1
      simpa using hlen
    have hzeros := leadingZeros_lt hne
    obtain rfl : m = n.val := by omega
    rw [hget n, Option.some.injEq] at hbyte
    subst hbyte
    refine ⟨?_, hne, by omega⟩
    intro i hi
    exact Option.some.inj ((hget i).symm.trans (hbefore i.val hi))
  · rintro ⟨hbefore, hne, hzeros⟩
    refine ⟨n.val, d.bytes.get n, hget n, hne, ?_, by omega⟩
    intro j hj
    have hj32 : j < 32 := by omega
    rw [hget ⟨j, hj32⟩, hbefore ⟨j, hj32⟩ hj]

end Distance

end DigDht.Keyspace

namespace DigDht.Service

open Keyspace

/-! ## §2 The byte of the bucket's bit -/

/-- The bit alone has the leading zeros it should have. -/
theorem leadingZeros_bit {r : Nat} (hr : r < 8) :
    (1 <<< UInt8.ofNat (7 - r) : UInt8) ≠ 0 ∧
      Distance.leadingZeros (1 <<< UInt8.ofNat (7 - r)) = r := by
  revert r
  decide

/-- With all lower bits clear and some to vary, it is not the only byte
that has them. -/
theorem leadingZeros_bit_succ {r : Nat} (hr : r < 7) :
    (1 <<< UInt8.ofNat (7 - r) + 1 : UInt8) ≠ 0 ∧
      (1 <<< UInt8.ofNat (7 - r) + 1 : UInt8) ≠ 1 <<< UInt8.ofNat (7 - r) ∧
      Distance.leadingZeros (1 <<< UInt8.ofNat (7 - r) + 1) = r := by
  revert r
  decide

theorem eq_one_of_leadingZeros {byte : UInt8} (hne : byte ≠ 0)
    (h : Distance.leadingZeros byte = 7) : byte = 1 := by
  have hnum : byte.toNat ≠ 0 := fun h => hne (UInt8.toNat_inj.mp h)
  have hlog := Distance.log2_toNat_le byte
  simp only [Distance.leadingZeros, hne, if_false] at h
  have hlt : byte.toNat < 2 ^ 1 := (Nat.log2_lt hnum).mp (by omega)
  have hone : byte.toNat = 1 := by omega
  exact UInt8.toNat_inj.mp hone

/-! ## §3 What the refresh draws -/

namespace DhtService

variable (svc : DhtService) (idx : Fin 256)

/-- The place of the bucket's bit: its byte. -/
def bitByte (idx : Fin 256) : Fin 32 :=
  ⟨(255 - idx.val) / 8, by omega⟩

theorem get_distance_randomKeyInBucket (random : Bytes32) (i : Fin 32) :
    ((Key.fromPeerId svc.localId).distance (svc.randomKeyInBucket idx random)).bytes.get i =
      if i < bitByte idx then (0 : UInt8)
      else if i = bitByte idx then 1 <<< UInt8.ofNat (7 - (255 - idx.val) % 8)
      else random.get i := by
  have hcancel : ∀ a b : UInt8, a ^^^ (a ^^^ b) = b := by
    intro a b
    rw [← UInt8.xor_assoc, UInt8.xor_self, UInt8.zero_xor]
  simp only [Key.distance, Key.fromPeerId, randomKeyInBucket, List.Vector.zipWith_get,
    List.Vector.get_ofFn, hcancel, bitByte, Fin.lt_def, Fin.ext_iff]

/-- Every key it draws is in the bucket it was asked for. -/
theorem bucketIndex_randomKeyInBucket (random : Bytes32) :
    ((Key.fromPeerId svc.localId).distance (svc.randomKeyInBucket idx random)).bucketIndex =
      some idx := by
  have hbit := leadingZeros_bit (Nat.mod_lt (255 - idx.val) (by decide : 0 < 8))
  rw [Distance.bucketIndex_eq_some_iff_byte (n := bitByte idx) rfl]
  simp only [get_distance_randomKeyInBucket, lt_irrefl, if_false, if_true]
  refine ⟨?_, hbit.1, hbit.2⟩
  intro i hi
  rw [if_pos hi]

/-- It can draw a key exactly when the key's distance agrees with what is
not random: the bytes up to the bit's own. -/
theorem exists_randomKeyInBucket_iff (key : Key) :
    (∃ random, svc.randomKeyInBucket idx random = key) ↔
      (∀ i < bitByte idx, ((Key.fromPeerId svc.localId).distance key).bytes.get i = 0) ∧
        ((Key.fromPeerId svc.localId).distance key).bytes.get (bitByte idx) =
          1 <<< UInt8.ofNat (7 - (255 - idx.val) % 8) := by
  constructor
  · rintro ⟨random, rfl⟩
    constructor
    · intro i hi
      rw [get_distance_randomKeyInBucket, if_pos hi]
    · rw [get_distance_randomKeyInBucket, if_neg (lt_irrefl _), if_pos rfl]
  · rintro ⟨hbefore, hat⟩
    let d := (Key.fromPeerId svc.localId).distance key
    refine ⟨d.bytes, Key.distance_injective (Key.fromPeerId svc.localId) ?_⟩
    have hbytes : ((Key.fromPeerId svc.localId).distance
        (svc.randomKeyInBucket idx d.bytes)).bytes = d.bytes := by
      apply List.Vector.ext
      intro i
      rw [get_distance_randomKeyInBucket]
      split
      · rename_i hi
        exact (hbefore i hi).symm
      · split
        · rename_i hi
          rw [hi, hat]
        · rfl
    exact congrArg Distance.mk hbytes

/-- The keys a refresh of bucket `idx` can draw are ALL keys of the bucket
exactly when the bucket's bit is the last one of its byte. -/
theorem refresh_covers_iff :
    Set.range (svc.randomKeyInBucket idx) =
        {key | ((Key.fromPeerId svc.localId).distance key).bucketIndex = some idx} ↔
      idx.val % 8 = 0 := by
  have hidx := idx.isLt
  constructor
  · intro hcover
    by_contra hbits
    -- One more bit set below the bucket's: in the bucket, and never drawn.
    have hother := leadingZeros_bit_succ (by omega : (255 - idx.val) % 8 < 7)
    let far : Bytes32 := List.Vector.ofFn fun i =>
      if i = bitByte idx then 1 <<< UInt8.ofNat (7 - (255 - idx.val) % 8) + 1 else 0
    let key : Key := ⟨List.Vector.zipWith (· ^^^ ·) svc.localId.bytes far⟩
    have hget : ∀ i, ((Key.fromPeerId svc.localId).distance key).bytes.get i = far.get i := by
      intro i
      simp only [key, Key.distance, Key.fromPeerId, List.Vector.zipWith_get, ← UInt8.xor_assoc,
        UInt8.xor_self, UInt8.zero_xor]
    have hmem : key ∈ Set.range (svc.randomKeyInBucket idx) := by
      rw [hcover, Set.mem_ofPred_eq, Distance.bucketIndex_eq_some_iff_byte (n := bitByte idx) rfl]
      simp only [hget, far, List.Vector.get_ofFn, if_true]
      refine ⟨?_, hother.1, hother.2.2⟩
      intro i hi
      rw [if_neg hi.ne]
    have hdrawn := ((svc.exists_randomKeyInBucket_iff idx key).mp hmem).2
    simp only [hget, far, List.Vector.get_ofFn, if_true] at hdrawn
    exact hother.2.1 hdrawn
  · intro hbits
    ext key
    rw [Set.mem_range, exists_randomKeyInBucket_iff, Set.mem_ofPred_eq,
      Distance.bucketIndex_eq_some_iff_byte (n := bitByte idx) rfl]
    have hlast : (255 - idx.val) % 8 = 7 := by omega
    rw [hlast]
    constructor
    · rintro ⟨hbefore, hat⟩
      rw [hat]
      exact ⟨hbefore, by decide, by decide⟩
    · rintro ⟨hbefore, hne, hzeros⟩
      exact ⟨hbefore, eq_one_of_leadingZeros hne hzeros⟩

end DhtService

/-- Node 0 never draws key 3 for its bucket 1, which is {2, 3}. -/
theorem refresh_misses_key :
    let svc := DhtService.new ⟨List.Vector.replicate 32 0⟩ [] .default
    let three : Key := ⟨List.Vector.ofFn fun i => if i = 31 then 3 else 0⟩
    three ∈ {key | ((Key.fromPeerId svc.localId).distance key).bucketIndex = some 1} ∧
      three ∉ Set.range (svc.randomKeyInBucket 1) := by
  intro svc three
  constructor
  · show ((Key.fromPeerId svc.localId).distance three).bucketIndex = some 1
    decide +kernel
  · intro hdrawn
    have hat := ((svc.exists_randomKeyInBucket_iff 1 three).mp hdrawn).2
    revert hat
    decide +kernel

end DigDht.Service
