/-
DigDht.Keyspace.Hex — the crate's hex codecs and the pointer
normalisation (`src/record.rs`, `src/key.rs`).

A Rust `String` is its UTF-8 bytes, and `hex64_to_bytes` works on those
bytes: `utf8` is that view of a Lean `String`, and every length below is
a BYTE length. The source has one decoder and two encoders, written
separately: `toHex64` goes through `format!("{b:02x}")`, `Key.toHex`
through `char::from_digit` on the two halves of each byte.
-/
import Mathlib.Data.List.Basic
import DigDht.Keyspace.Key

namespace DigDht.Keyspace

/-- The bytes of a string; `utf8 s |>.length` is Rust's `s.len()`. -/
def utf8 (s : String) : List UInt8 :=
  s.toByteArray.data.toList

/-- `(byte as char).to_digit(16)`. -/
def toDigit16 (b : UInt8) : Option UInt8 :=
  if 48 ≤ b ∧ b ≤ 57 then some (b - 48)
  else if 97 ≤ b ∧ b ≤ 102 then some (b - 87)
  else if 65 ≤ b ∧ b ≤ 70 then some (b - 55)
  else none

/-- The loop of `hex64_to_bytes` over `chunks(2)`. -/
def hexPairs : List UInt8 → Option (List UInt8)
  | [] => some []
  | [_] => none
  | hi :: lo :: rest =>
    match toDigit16 hi, toDigit16 lo, hexPairs rest with
    | some hi, some lo, some out => some ((hi <<< 4 ||| lo) :: out)
    | _, _, _ => none

theorem hexPairs_length {bs out : List UInt8} (h : hexPairs bs = some out) :
    bs.length = 2 * out.length := by
  fun_induction hexPairs bs generalizing out with
  | case1 => cases h; rfl
  | case2 => simp at h
  | case3 hi lo rest hi' lo' out' _ _ _ ih =>
    cases h
    have := ih (by assumption)
    simp only [List.length_cons]
    omega
  | case4 => simp at h

/-- Decode 64 hex digits of either case into 32 bytes. -/
def hex64ToBytes (hex : String) : Option Bytes32 :=
  if hlen : (utf8 hex).length = 64 then
    match hout : hexPairs (utf8 hex) with
    | some out => some ⟨out, by have := hexPairs_length hout; omega⟩
    | none => none
  else
    none

/-- `char::from_digit(n, 16)` for `n < 16`. -/
def fromDigit16 (n : UInt8) : Char :=
  if n < 10 then Char.ofNat (48 + n.toNat) else Char.ofNat (87 + n.toNat)

/-- `format!("{b:02x}")`. -/
def format02x (b : UInt8) : List Char :=
  (Nat.toDigits 16 b.toNat).leftpad 2 '0'

/-- `to_hex64`: lowercase, two digits a byte. -/
def toHex64 (bytes : Bytes32) : String :=
  String.ofList (bytes.toList.flatMap format02x)

/-- `Key::to_hex`. -/
def Key.toHex (key : Key) : String :=
  String.ofList (key.bytes.toList.flatMap fun b : UInt8 =>
    [fromDigit16 (b >>> 4), fromDigit16 (b &&& 0x0f)])

/-- Any text to canonical lowercase 64-hex, or to absent. -/
def normalizeMirrorCoinId (raw : Option String) : Option String :=
  (raw.map fun s => s.map Char.toLower).filter fun s => (hex64ToBytes s).isSome

/-- Parse a 64-hex string into a key (serving side). -/
def parseKey (hex : String) : Option Key :=
  (hex64ToBytes hex).map Key.mk

end DigDht.Keyspace
