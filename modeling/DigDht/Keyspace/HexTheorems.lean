/-
DigDht.Keyspace.HexTheorems — the two hex encoders agree, and the one
decoder inverts them.

Both encoders write two ASCII digits a byte, so the question is one
about a single byte (`hexPairs_hexBytes`, decided over the 256 bytes) and
an induction over the byte list (`hexPairs_flatMap`). What an encoder
writes is 64 lowercase digits (`LowerHex64`).
-/
import DigDht.Keyspace.Hex

namespace DigDht.Keyspace

theorem utf8_ofList (cs : List Char) :
    utf8 (String.ofList cs) = cs.flatMap String.utf8EncodeChar := by
  simp [utf8, List.utf8Encode]

/-- A statement about every byte is one about the numbers below 256. -/
theorem forall_uint8 {p : UInt8 → Prop} (h : ∀ n : Fin 256, p (UInt8.ofFin n)) (b : UInt8) :
    p b := by
  simpa using h b.toFin

/-- The bytes `format!("{b:02x}")` writes. -/
def hexBytes (b : UInt8) : List UInt8 :=
  (format02x b).flatMap String.utf8EncodeChar

theorem length_hexBytes (b : UInt8) : (hexBytes b).length = 2 :=
  forall_uint8 (p := fun b => (hexBytes b).length = 2) (by decide +kernel) b

theorem hexPairs_hexBytes (b : UInt8) : hexPairs (hexBytes b) = some [b] :=
  forall_uint8 (p := fun b => hexPairs (hexBytes b) = some [b]) (by decide +kernel) b

theorem hexPairs_hexBytes_append (b : UInt8) (rest : List UInt8) :
    hexPairs (hexBytes b ++ rest) = (hexPairs rest).map (b :: ·) := by
  have hone := hexPairs_hexBytes b
  obtain ⟨hi, lo, hb⟩ := List.length_eq_two.mp (length_hexBytes b)
  rw [hb] at hone ⊢
  simp only [List.cons_append, List.nil_append, hexPairs] at hone ⊢
  cases hhi : toDigit16 hi with
  | none => simp [hhi] at hone
  | some h =>
    cases hlo : toDigit16 lo with
    | none => simp [hhi, hlo] at hone
    | some l =>
      simp only [hhi, hlo, Option.some.injEq, List.cons.injEq, and_true] at hone
      subst hone
      cases hexPairs rest <;> rfl

theorem utf8_toHex64 (bytes : Bytes32) :
    utf8 (toHex64 bytes) = bytes.toList.flatMap hexBytes := by
  rw [toHex64, utf8_ofList, List.flatMap_assoc]
  rfl

theorem hexPairs_flatMap (bs : List UInt8) : hexPairs (bs.flatMap hexBytes) = some bs := by
  induction bs with
  | nil => rfl
  | cons b bs ih => rw [List.flatMap_cons, hexPairs_hexBytes_append, ih]; rfl

theorem length_flatMap_hexBytes (bs : List UInt8) :
    (bs.flatMap hexBytes).length = 2 * bs.length := by
  simp [List.length_flatMap, length_hexBytes, Nat.mul_comm]

@[simp] theorem length_utf8_toHex64 (bytes : Bytes32) : (utf8 (toHex64 bytes)).length = 64 := by
  rw [utf8_toHex64, length_flatMap_hexBytes, List.Vector.toList_length]

theorem hex64ToBytes_eq_some_iff {s : String} {bytes : Bytes32} :
    hex64ToBytes s = some bytes ↔
      (utf8 s).length = 64 ∧ hexPairs (utf8 s) = some bytes.toList := by
  unfold hex64ToBytes
  split
  · rename_i hlen
    split
    · rename_i out hout
      constructor
      · intro h
        cases h
        exact ⟨hlen, hout⟩
      · rintro ⟨-, h⟩
        rw [hout] at h
        exact congrArg some (Subtype.ext (Option.some.inj h))
    · rename_i hnone
      simp [hnone]
  · rename_i hlen
    simp [hlen]

/-- Decoding inverts encoding. -/
@[simp] theorem hex64ToBytes_toHex64 (bytes : Bytes32) :
    hex64ToBytes (toHex64 bytes) = some bytes := by
  have hpairs : hexPairs (utf8 (toHex64 bytes)) = some bytes.toList := by
    rw [utf8_toHex64, hexPairs_flatMap]
  exact hex64ToBytes_eq_some_iff.mpr ⟨length_utf8_toHex64 bytes, hpairs⟩

/-- The crate's two encoders write the same digits. -/
theorem Key.toHex_eq (key : Key) : key.toHex = toHex64 key.bytes := by
  have hbyte : ∀ b : UInt8, [fromDigit16 (b >>> 4), fromDigit16 (b &&& 0x0f)] = format02x b :=
    forall_uint8 (by decide +kernel)
  simp only [Key.toHex, toHex64, hbyte]

@[simp] theorem parseKey_toHex (key : Key) : parseKey key.toHex = some key := by
  rw [parseKey, Key.toHex_eq, hex64ToBytes_toHex64]
  rfl

theorem Key.toHex_injective : Function.Injective Key.toHex := by
  intro a b h
  have ha := parseKey_toHex a
  rw [h, parseKey_toHex] at ha
  exact (Option.some.inj ha).symm

/-! ## Canonical text -/

/-- A digit of lowercase hex. -/
def IsLowerHexDigit (b : UInt8) : Prop :=
  48 ≤ b ∧ b ≤ 57 ∨ 97 ≤ b ∧ b ≤ 102

instance (b : UInt8) : Decidable (IsLowerHexDigit b) :=
  inferInstanceAs (Decidable (_ ∨ _))

/-- Exactly 64 lowercase hex digits. -/
structure LowerHex64 (s : String) : Prop where
  length : (utf8 s).length = 64
  digits : ∀ b ∈ utf8 s, IsLowerHexDigit b

theorem lowerHex64_toHex64 (bytes : Bytes32) : LowerHex64 (toHex64 bytes) where
  length := length_utf8_toHex64 bytes
  digits := by
    -- A Boolean test, so that the kernel evaluates no quantifier over the digits.
    have hbyte : ∀ b : UInt8, (hexBytes b).all (fun d => decide (IsLowerHexDigit d)) = true :=
      forall_uint8 (by decide +kernel)
    intro d hd
    rw [utf8_toHex64] at hd
    obtain ⟨b, -, hd⟩ := List.mem_flatMap.mp hd
    exact of_decide_eq_true (List.all_eq_true.mp (hbyte b) d hd)

theorem toDigit16_of_hexPairs {bs out : List UInt8} (h : hexPairs bs = some out) :
    ∀ b ∈ bs, (toDigit16 b).isSome = true := by
  fun_induction hexPairs bs generalizing out with
  | case1 => simp
  | case2 => cases h
  | case3 hi lo rest hi' lo' out' hrest hlo hhi ih =>
    intro b hb
    rcases List.mem_cons.mp hb with rfl | hb
    · simp [hhi]
    · rcases List.mem_cons.mp hb with rfl | hb
      · simp [hlo]
      · exact ih hrest b hb
  | case4 => cases h

/-- A byte below 128 in the text is a character of its own. -/
theorem mem_utf8EncodeChar {c : Char} {b : UInt8} (h : b ∈ String.utf8EncodeChar c) :
    c.toNat = b.toNat ∨ 128 ≤ b := by
  have hcontinuation : ∀ y : UInt8, 128 ≤ y ||| 0x80 := forall_uint8 (by decide +kernel)
  have htwo : ∀ y : UInt8, 128 ≤ y ||| 0xc0 := forall_uint8 (by decide +kernel)
  have hthree : ∀ y : UInt8, 128 ≤ y ||| 0xe0 := forall_uint8 (by decide +kernel)
  have hfour : ∀ y : UInt8, 128 ≤ y ||| 0xf0 := forall_uint8 (by decide +kernel)
  rw [String.utf8EncodeChar_eq_utf8EncodeCharFast] at h
  unfold String.utf8EncodeCharFast at h
  simp only at h
  split at h
  · rename_i hascii
    left
    rw [List.mem_singleton.mp h]
    have hle : c.toNat ≤ 127 := hascii
    simp only [UInt32.toNat_toUInt8, Char.toNat] at hle ⊢
    omega
  · right
    split at h
    · rcases List.mem_pair.mp h with rfl | rfl
      · exact htwo _
      · exact hcontinuation _
    · split at h
      · simp only [List.mem_cons, List.not_mem_nil, or_false] at h
        rcases h with rfl | rfl | rfl
        · exact hthree _
        · exact hcontinuation _
        · exact hcontinuation _
      · simp only [List.mem_cons, List.not_mem_nil, or_false] at h
        rcases h with rfl | rfl | rfl | rfl
        · exact hfour _
        · exact hcontinuation _
        · exact hcontinuation _
        · exact hcontinuation _

end DigDht.Keyspace
