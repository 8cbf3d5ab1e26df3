/-
DigDht.Keyspace.CodecTheorems — what the hex decoder accepts, and that
decoder, encoders and pointer normalisation agree on it.

The decoder reads bytes; §1 says which CHARACTERS those are. A character
below 128 is one byte of the text, every other one is bytes from 128 on,
and none of these is a hex digit: `hex64_to_bytes` accepts exactly the
texts of 64 ASCII hex digits (`isSome_hex64ToBytes_iff`). §2 is case.
Lowering a text lowers its bytes one by one (`utf8_map_toLower`), which
no digit's value notices, and the lowered text is what the encoder
writes for the decoded bytes (`toHex64_of_hex64ToBytes`).
-/
import DigDht.Keyspace.HexTheorems

namespace DigDht.Keyspace

/-! ## §1 What is accepted -/

/-- `0`–`9`, `a`–`f` or `A`–`F`. -/
def IsHexDigit (c : Char) : Prop :=
  '0' ≤ c ∧ c ≤ '9' ∨ 'a' ≤ c ∧ c ≤ 'f' ∨ 'A' ≤ c ∧ c ≤ 'F'

instance (c : Char) : Decidable (IsHexDigit c) :=
  inferInstanceAs (Decidable (_ ∨ _))

/-- A statement about every ASCII character is one about the numbers
below 128. -/
theorem forall_ascii {p : Char → Prop} (h : ∀ n : Fin 128, p (Char.ofNat n)) {c : Char}
    (hc : c.toNat < 128) : p c := by
  have hp := h ⟨c.toNat, hc⟩
  rwa [Char.ofNat_toNat] at hp

theorem utf8EncodeChar_of_ascii {c : Char} (hc : c.toNat < 128) :
    String.utf8EncodeChar c = [UInt8.ofNat c.toNat] :=
  forall_ascii (p := fun c => String.utf8EncodeChar c = [UInt8.ofNat c.toNat])
    (by decide +kernel) hc

theorem le_of_mem_utf8EncodeChar {c : Char} (hc : 128 ≤ c.toNat) {b : UInt8}
    (hb : b ∈ String.utf8EncodeChar c) : 128 ≤ b := by
  rcases mem_utf8EncodeChar hb with heq | hwide
  · show (128 : UInt8).toNat ≤ b.toNat
    rw [← heq]
    exact hc
  · exact hwide

theorem utf8_eq_flatMap (s : String) : utf8 s = s.toList.flatMap String.utf8EncodeChar := by
  rw [← utf8_ofList, String.ofList_toList]

theorem utf8_injective : Function.Injective utf8 := by
  intro s t h
  have hdata : s.toByteArray.data = t.toByteArray.data := Array.toList_inj.mp h
  exact String.toByteArray_inj.mp (ByteArray.ext hdata)

theorem isHexDigit_iff {c : Char} :
    IsHexDigit c ↔ ∀ b ∈ String.utf8EncodeChar c, (toDigit16 b).isSome = true := by
  by_cases hc : c.toNat < 128
  · rw [utf8EncodeChar_of_ascii hc, List.forall_mem_singleton]
    exact forall_ascii
      (p := fun c => IsHexDigit c ↔ (toDigit16 (UInt8.ofNat c.toNat)).isSome = true)
      (by decide +kernel) hc
  · have hwide : 128 ≤ c.toNat := by omega
    have hdigit : ∀ b : UInt8, 128 ≤ b → ¬(toDigit16 b).isSome = true :=
      forall_uint8 (by decide +kernel)
    constructor
    · intro h
      -- The last hex digit is `f`, 102.
      have hle : c.toNat ≤ 'f'.toNat := by
        rcases h with ⟨-, h⟩ | ⟨-, h⟩ | ⟨-, h⟩
        · exact Nat.le_trans h (by decide)
        · exact h
        · exact Nat.le_trans h (by decide)
      have hf : 'f'.toNat = 102 := rfl
      omega
    · intro h
      obtain ⟨b, hb⟩ := List.exists_mem_of_ne_nil _ (String.utf8EncodeChar_ne_nil (c := c))
      exact absurd (h b hb) (hdigit b (le_of_mem_utf8EncodeChar hwide hb))

theorem isHexDigit_lt {c : Char} (h : IsHexDigit c) : c.toNat < 128 := by
  by_contra hwide
  obtain ⟨b, hb⟩ := List.exists_mem_of_ne_nil _ (String.utf8EncodeChar_ne_nil (c := c))
  have hdigit : ∀ b : UInt8, 128 ≤ b → ¬(toDigit16 b).isSome = true :=
    forall_uint8 (by decide +kernel)
  exact hdigit b (le_of_mem_utf8EncodeChar (by omega) hb) (isHexDigit_iff.mp h b hb)

theorem isSome_hexPairs_iff {bs : List UInt8} :
    (hexPairs bs).isSome = true ↔
      bs.length % 2 = 0 ∧ ∀ b ∈ bs, (toDigit16 b).isSome = true := by
  fun_induction hexPairs bs with
  | case1 => simp
  | case2 => simp
  | case3 hi lo rest hi' lo' out hrest hlo hhi ih =>
    rw [hrest] at ih
    have hlen : (rest.length + 1 + 1) % 2 = rest.length % 2 := by omega
    simpa [hlo, hhi, hlen] using ih
  | case4 hi lo rest h ih =>
    constructor
    · simp
    · rintro ⟨hlen, hdigits⟩
      simp only [List.forall_mem_cons, Option.isSome_iff_exists] at hdigits
      obtain ⟨⟨hi', hhi⟩, ⟨lo', hlo⟩, hdigits⟩ := hdigits
      simp only [List.length_cons] at hlen
      have heven : rest.length % 2 = 0 := by omega
      have hsome := ih.mpr ⟨heven, fun b hb => Option.isSome_iff_exists.mpr (hdigits b hb)⟩
      obtain ⟨out, hout⟩ := Option.isSome_iff_exists.mp hsome
      exact absurd hout (h hi' lo' out hhi hlo)

theorem isSome_hex64ToBytes_iff_bytes {s : String} :
    (hex64ToBytes s).isSome = true ↔
      (utf8 s).length = 64 ∧ ∀ b ∈ utf8 s, (toDigit16 b).isSome = true := by
  constructor
  · intro h
    obtain ⟨bytes, hbytes⟩ := Option.isSome_iff_exists.mp h
    obtain ⟨hlen, hpairs⟩ := hex64ToBytes_eq_some_iff.mp hbytes
    exact ⟨hlen, toDigit16_of_hexPairs hpairs⟩
  · rintro ⟨hlen, hdigits⟩
    have hsome := isSome_hexPairs_iff.mpr ⟨by omega, hdigits⟩
    obtain ⟨out, hout⟩ := Option.isSome_iff_exists.mp hsome
    have hlength := hexPairs_length hout
    refine Option.isSome_iff_exists.mpr ⟨⟨out, by omega⟩, ?_⟩
    exact hex64ToBytes_eq_some_iff.mpr ⟨hlen, hout⟩

/-- Hex digits take one byte each. -/
theorem length_utf8_of_hex {s : String} (h : ∀ c ∈ s.toList, IsHexDigit c) :
    (utf8 s).length = s.toList.length := by
  rw [utf8_eq_flatMap, List.length_flatMap]
  have hone : s.toList.map (fun c => (String.utf8EncodeChar c).length) =
      s.toList.map fun _ => 1 := by
    refine List.map_congr_left ?_
    intro c hc
    rw [utf8EncodeChar_of_ascii (isHexDigit_lt (h c hc))]
    rfl
  rw [hone]
  simp

/-- **What the decoder accepts**: the texts of exactly 64 hex digits. -/
theorem isSome_hex64ToBytes_iff {s : String} :
    (hex64ToBytes s).isSome = true ↔ s.toList.length = 64 ∧ ∀ c ∈ s.toList, IsHexDigit c := by
  have hdigits : (∀ b ∈ utf8 s, (toDigit16 b).isSome = true) ↔ ∀ c ∈ s.toList, IsHexDigit c := by
    simp only [utf8_eq_flatMap, List.mem_flatMap, isHexDigit_iff]
    constructor
    · intro h c hc b hb
      exact h b ⟨c, hc, hb⟩
    · rintro h b ⟨c, hc, hb⟩
      exact h c hc b hb
  rw [isSome_hex64ToBytes_iff_bytes, hdigits]
  refine and_congr_left ?_
  intro h
  rw [length_utf8_of_hex h]

/-! ## §2 Case -/

/-- `u8::to_ascii_lowercase`. -/
def toAsciiLowercase (b : UInt8) : UInt8 :=
  if 65 ≤ b ∧ b ≤ 90 then b + 32 else b

theorem utf8EncodeChar_toLower (c : Char) :
    String.utf8EncodeChar c.toLower = (String.utf8EncodeChar c).map toAsciiLowercase := by
  by_cases hc : c.toNat < 128
  · exact forall_ascii (p := fun c => String.utf8EncodeChar c.toLower =
      (String.utf8EncodeChar c).map toAsciiLowercase) (by decide +kernel) hc
  · have hsame : c.toLower = c := by
      unfold Char.toLower
      refine dif_neg ?_
      rintro ⟨-, hhigh⟩
      have hle : c.toNat ≤ 90 := hhigh
      omega
    have hbyte : ∀ b : UInt8, 128 ≤ b → toAsciiLowercase b = b :=
      forall_uint8 (by decide +kernel)
    have hmap : (String.utf8EncodeChar c).map toAsciiLowercase =
        (String.utf8EncodeChar c).map id :=
      List.map_congr_left fun b hb => hbyte b (le_of_mem_utf8EncodeChar (by omega) hb)
    rw [hsame, hmap, List.map_id]

/-- Lowering a text lowers its bytes. -/
theorem utf8_map_toLower (s : String) :
    utf8 (s.map Char.toLower) = (utf8 s).map toAsciiLowercase := by
  rw [utf8_eq_flatMap, utf8_eq_flatMap, String.toList_map, List.map_flatMap, List.flatMap_map]
  simp only [utf8EncodeChar_toLower]

theorem toDigit16_toAsciiLowercase (b : UInt8) : toDigit16 (toAsciiLowercase b) = toDigit16 b :=
  forall_uint8 (p := fun b => toDigit16 (toAsciiLowercase b) = toDigit16 b) (by decide +kernel) b

theorem hexPairs_map_toAsciiLowercase (bs : List UInt8) :
    hexPairs (bs.map toAsciiLowercase) = hexPairs bs := by
  fun_induction hexPairs bs with
  | case1 => rfl
  | case2 => rfl
  | case3 hi lo rest hi' lo' out hrest hlo hhi ih =>
    simp [hexPairs, toDigit16_toAsciiLowercase, ih, hrest, hlo, hhi]
  | case4 hi lo rest h ih =>
    simp only [List.map_cons, hexPairs, toDigit16_toAsciiLowercase, ih]

theorem hex64ToBytes_map_toLower (s : String) :
    hex64ToBytes (s.map Char.toLower) = hex64ToBytes s := by
  refine Option.ext ?_
  intro bytes
  rw [hex64ToBytes_eq_some_iff, hex64ToBytes_eq_some_iff, utf8_map_toLower, List.length_map,
    hexPairs_map_toAsciiLowercase]

/-- The digit `n` as the encoder writes it. -/
def digitByte (n : UInt8) : UInt8 :=
  if n < 10 then 48 + n else 87 + n

theorem hexBytes_join : ∀ h l : Fin 16,
    hexBytes (UInt8.ofNat h.val <<< 4 ||| UInt8.ofNat l.val) =
      [digitByte (UInt8.ofNat h.val), digitByte (UInt8.ofNat l.val)] := by
  decide +kernel

/-- A digit read and written again is the digit in lowercase. -/
theorem digitByte_of_toDigit16 {x n : UInt8} (h : toDigit16 x = some n) :
    n.toNat < 16 ∧ digitByte n = toAsciiLowercase x := by
  have hall : ∀ x : UInt8, ((toDigit16 x).all fun n =>
      decide (n.toNat < 16 ∧ digitByte n = toAsciiLowercase x)) = true :=
    forall_uint8 (by decide +kernel)
  have hx := hall x
  rw [h] at hx
  simpa using hx

/-- A pair of digits read and written again is the pair in lowercase. -/
theorem hexBytes_of_digits {hi lo h l : UInt8} (hhi : toDigit16 hi = some h)
    (hlo : toDigit16 lo = some l) :
    hexBytes (h <<< 4 ||| l) = [toAsciiLowercase hi, toAsciiLowercase lo] := by
  obtain ⟨hlth, hdigith⟩ := digitByte_of_toDigit16 hhi
  obtain ⟨hltl, hdigitl⟩ := digitByte_of_toDigit16 hlo
  have hjoin := hexBytes_join ⟨h.toNat, hlth⟩ ⟨l.toNat, hltl⟩
  simp only [UInt8.ofNat_toNat] at hjoin
  rw [hjoin, hdigith, hdigitl]

theorem flatMap_hexBytes_of_hexPairs {bs out : List UInt8} (h : hexPairs bs = some out) :
    out.flatMap hexBytes = bs.map toAsciiLowercase := by
  fun_induction hexPairs bs generalizing out with
  | case1 => cases h; rfl
  | case2 => cases h
  | case3 hi lo rest hi' lo' out' hrest hlo hhi ih =>
    cases h
    rw [List.flatMap_cons, hexBytes_of_digits hhi hlo, ih hrest]
    rfl
  | case4 => cases h

/-- Encoding what was decoded gives the text in lowercase. -/
theorem toHex64_of_hex64ToBytes {s : String} {bytes : Bytes32} (h : hex64ToBytes s = some bytes) :
    toHex64 bytes = s.map Char.toLower := by
  obtain ⟨-, hpairs⟩ := hex64ToBytes_eq_some_iff.mp h
  apply utf8_injective
  rw [utf8_toHex64, utf8_map_toLower, flatMap_hexBytes_of_hexPairs hpairs]

/-! ## §3 The pointer normalisation -/

/-- The canonical text of a pointer is the encoding of what it decodes to. -/
theorem normalizeMirrorCoinId_eq (raw : Option String) :
    normalizeMirrorCoinId raw = (raw.bind hex64ToBytes).map toHex64 := by
  cases raw with
  | none => rfl
  | some s =>
    unfold normalizeMirrorCoinId
    rw [Option.map_some, Option.filter_some, hex64ToBytes_map_toLower, Option.bind_some]
    cases hdecode : hex64ToBytes s with
    | none => rfl
    | some bytes => simp [toHex64_of_hex64ToBytes hdecode]

/-- What the normalisation lets through. -/
theorem lowerHex64_of_normalize {raw : Option String} {s : String}
    (h : normalizeMirrorCoinId raw = some s) : LowerHex64 s := by
  rw [normalizeMirrorCoinId_eq] at h
  obtain ⟨bytes, -, rfl⟩ := Option.map_eq_some_iff.mp h
  exact lowerHex64_toHex64 bytes

theorem normalizeMirrorCoinId_idem (raw : Option String) :
    normalizeMirrorCoinId (normalizeMirrorCoinId raw) = normalizeMirrorCoinId raw := by
  simp only [normalizeMirrorCoinId_eq]
  cases raw.bind hex64ToBytes <;> simp

theorem isSome_normalizeMirrorCoinId_iff (s : String) :
    (normalizeMirrorCoinId (some s)).isSome = true ↔ (hex64ToBytes s).isSome = true := by
  simp [normalizeMirrorCoinId_eq]

theorem toHex64_injective : Function.Injective toHex64 := by
  intro a b h
  have ha := hex64ToBytes_toHex64 a
  rw [h, hex64ToBytes_toHex64] at ha
  exact (Option.some.inj ha).symm

/-- Two texts have one canonical form exactly when they decode alike. -/
theorem normalizeMirrorCoinId_eq_iff (s t : String) :
    normalizeMirrorCoinId (some s) = normalizeMirrorCoinId (some t) ↔
      hex64ToBytes s = hex64ToBytes t := by
  simp only [normalizeMirrorCoinId_eq, Option.bind_some]
  exact (Option.map_injective toHex64_injective).eq_iff

/-- A canonical text is left as it is. -/
theorem normalizeMirrorCoinId_of_lowerHex64 {s : String} (h : LowerHex64 s) :
    normalizeMirrorCoinId (some s) = some s := by
  have hdigit : ∀ b : UInt8, IsLowerHexDigit b →
      (toDigit16 b).isSome = true ∧ toAsciiLowercase b = b := forall_uint8 (by decide +kernel)
  have hsome := isSome_hex64ToBytes_iff_bytes.mpr
    ⟨h.length, fun b hb => (hdigit b (h.digits b hb)).1⟩
  obtain ⟨bytes, hbytes⟩ := Option.isSome_iff_exists.mp hsome
  have hlower : (utf8 s).map toAsciiLowercase = (utf8 s).map id :=
    List.map_congr_left fun b hb => (hdigit b (h.digits b hb)).2
  have hsame : s.map Char.toLower = s := by
    apply utf8_injective
    rw [utf8_map_toLower, hlower, List.map_id]
  rw [normalizeMirrorCoinId_eq, Option.bind_some, hbytes, Option.map_some,
    toHex64_of_hex64ToBytes hbytes, hsame]

/-- **The codecs agree.** The decoder accepts exactly the texts of 64 hex
digits, and encoding what it reads gives the text in lowercase; it inverts
the encoder, and both encoders write the same text. The normalisation is
idempotent, keeps exactly the texts the decoder accepts, and identifies
two of them exactly when they decode to the same bytes. -/
theorem codecs_agree :
    (∀ s : String, (∃ bytes, hex64ToBytes s = some bytes) ↔
      s.toList.length = 64 ∧ ∀ c ∈ s.toList, IsHexDigit c) ∧
    (∀ s bytes, hex64ToBytes s = some bytes → toHex64 bytes = s.map Char.toLower) ∧
    (∀ bytes, hex64ToBytes (toHex64 bytes) = some bytes) ∧
    (∀ bytes, (Key.mk bytes).toHex = toHex64 bytes) ∧
    (∀ bytes, parseKey (Key.mk bytes).toHex = some ⟨bytes⟩) ∧
    (∀ raw, normalizeMirrorCoinId (normalizeMirrorCoinId raw) = normalizeMirrorCoinId raw) ∧
    (∀ s, (normalizeMirrorCoinId (some s)).isSome = (hex64ToBytes s).isSome) ∧
    ∀ s t, (hex64ToBytes s).isSome = true → (hex64ToBytes t).isSome = true →
      (normalizeMirrorCoinId (some s) = normalizeMirrorCoinId (some t) ↔
        hex64ToBytes s = hex64ToBytes t) := by
  refine ⟨?_, ?_, hex64ToBytes_toHex64, ?_, ?_, normalizeMirrorCoinId_idem, ?_, ?_⟩
  · intro s
    rw [← Option.isSome_iff_exists]
    exact isSome_hex64ToBytes_iff
  · intro s bytes h
    exact toHex64_of_hex64ToBytes h
  · intro bytes
    exact Key.toHex_eq ⟨bytes⟩
  · intro bytes
    exact parseKey_toHex ⟨bytes⟩
  · intro s
    exact Bool.eq_iff_iff.mpr (isSome_normalizeMirrorCoinId_iff s)
  · intro s t _ _
    exact normalizeMirrorCoinId_eq_iff s t

end DigDht.Keyspace
