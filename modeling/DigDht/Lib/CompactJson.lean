/-
DigDht.Lib.CompactJson — JSON text without white space, as bytes.

What a serializer writes for strings, natural numbers, arrays and
objects, in its compact form. A string is the escapes of its UTF-8 bytes
between quotes: `"` and `\` and the five control characters with a letter
of their own take two bytes, every other byte below 0x20 takes six, and
the rest stand for themselves. The lemmas are about LENGTH: that of an
array is the sum over its items with a comma between (`length_arr`), and
an array of at most `n` items is bounded by the bound for one
(`length_arr_map_le`).
-/
import Mathlib.Algebra.Order.BigOperators.Group.List
import Mathlib.Data.Nat.Digits.Defs

namespace CompactJson

/-- JSON text. -/
abbrev Text := List UInt8

/-- `0`–`9`, `a`–`f`. -/
def hexDigit (n : UInt8) : UInt8 :=
  if n < 10 then 48 + n else 87 + n

/-- One byte of a string. -/
def escapeByte (b : UInt8) : Text :=
  if b = 34 ∨ b = 92 then [92, b]
  else if b = 8 then [92, 98]
  else if b = 9 then [92, 116]
  else if b = 10 then [92, 110]
  else if b = 12 then [92, 102]
  else if b = 13 then [92, 114]
  else if b < 32 then [92, 117, 48, 48, hexDigit (b >>> 4), hexDigit (b &&& 15)]
  else [b]

/-- The UTF-8 bytes of a string. -/
def bytesOf (s : String) : List UInt8 :=
  s.toByteArray.data.toList

/-- The inside of a string literal. -/
def escaped (s : String) : Text :=
  (bytesOf s).flatMap escapeByte

def str (s : String) : Text :=
  34 :: escaped s ++ [34]

def num (n : Nat) : Text :=
  (Nat.toDigits 10 n).map fun c => UInt8.ofNat c.toNat

/-- The items with a comma between. -/
def commaSep : List Text → Text
  | [] => []
  | [x] => x
  | x :: y :: rest => x ++ 44 :: commaSep (y :: rest)

def arr (items : List Text) : Text :=
  91 :: commaSep items ++ [93]

/-- A member of an object. -/
def member (name : String) (value : Text) : Text :=
  str name ++ 58 :: value

def obj (members : List Text) : Text :=
  123 :: commaSep members ++ [125]

/-! ## Lengths -/

@[simp] theorem length_str (s : String) : (str s).length = (escaped s).length + 2 := by
  simp [str]

@[simp] theorem length_member (name : String) (value : Text) :
    (member name value).length = (escaped name).length + 3 + value.length := by
  simp [member]
  omega

theorem length_commaSep (items : List Text) :
    (commaSep items).length = (items.map List.length).sum + (items.length - 1) := by
  fun_induction commaSep items with
  | case1 => rfl
  | case2 x => simp
  | case3 x y rest ih =>
    simp only [List.length_append, List.length_cons, ih, List.map_cons, List.sum_cons]
    omega

theorem length_arr (items : List Text) :
    (arr items).length = (items.map List.length).sum + (items.length - 1) + 2 := by
  simp [arr, length_commaSep]

theorem length_obj (members : List Text) :
    (obj members).length = (members.map List.length).sum + (members.length - 1) + 2 := by
  simp [obj, length_commaSep]

theorem length_num_le {n d : Nat} (hd : 0 < d) (h : n < 10 ^ d) : (num n).length ≤ d := by
  rw [num, List.length_map]
  exact Nat.toDigits_length 10 n d hd h

/-- An array of at most `n` items, each of length at most `c` and what is
its own. -/
theorem length_arr_map_le {α : Type*} {f : α → Text} {own : α → Nat} {c n : Nat} {l : List α}
    (hf : ∀ a ∈ l, (f a).length ≤ c + own a) (hl : l.length ≤ n) (hn : 1 ≤ n) :
    (arr (l.map f)).length ≤ n * (c + 1) + 1 + (l.map own).sum := by
  have hsum : ((l.map f).map List.length).sum ≤ l.length * c + (l.map own).sum := by
    rw [List.map_map]
    clear hl
    induction l with
    | nil => simp
    | cons a l ih =>
      have hhead := hf a List.mem_cons_self
      have htail := ih fun b hb => hf b (List.mem_cons_of_mem a hb)
      simp only [List.map_cons, List.sum_cons, List.length_cons, Function.comp_apply]
      rw [Nat.add_one_mul]
      omega
  have hmul : l.length * (c + 1) ≤ n * (c + 1) := Nat.mul_le_mul_right _ hl
  have hpos : c + 1 ≤ n * (c + 1) := Nat.le_mul_of_pos_left _ hn
  rw [length_arr, List.length_map]
  rcases Nat.eq_zero_or_pos l.length with hzero | hsome
  · rw [hzero, Nat.zero_mul] at hsum
    omega
  · rw [Nat.mul_add_one l.length] at hmul
    omega

/-- An array of at most `n` items, each of length at most `c`. -/
theorem length_arr_le {α : Type*} {f : α → Text} {c n : Nat} {l : List α}
    (hf : ∀ a ∈ l, (f a).length ≤ c) (hl : l.length ≤ n) (hn : 1 ≤ n) :
    (arr (l.map f)).length ≤ n * (c + 1) + 1 := by
  have hbound : (arr (l.map f)).length ≤ n * (c + 1) + 1 + (l.map fun _ => 0).sum :=
    length_arr_map_le hf hl hn
  simpa using hbound

/-- An array is at least as long as what its items have of their own. -/
theorem le_length_arr {α : Type*} {f : α → Text} {own : α → Nat} {l : List α}
    (hf : ∀ a ∈ l, own a ≤ (f a).length) : (l.map own).sum ≤ (arr (l.map f)).length := by
  have hsum : (l.map own).sum ≤ (l.map fun a => (f a).length).sum := List.sum_le_sum hf
  rw [length_arr, List.map_map]
  exact le_trans hsum (le_trans (Nat.le_add_right _ _) (Nat.le_add_right _ _))

/-- Fewer items, in any order, and each one no larger. -/
theorem sum_map_mono {α : Type*} {f g : α → Nat} {l l' : List α} (hl : l'.Subperm l)
    (hf : ∀ a ∈ l, f a ≤ g a) : (l'.map f).sum ≤ (l.map g).sum := by
  obtain ⟨kept, hperm, hsub⟩ := hl
  calc (l'.map f).sum
      = (kept.map f).sum := (hperm.symm.map f).sum_eq
    _ ≤ (l.map f).sum := List.Sublist.sum_le_sum (hsub.map f) (by simp)
    _ ≤ (l.map g).sum := List.sum_le_sum hf

theorem length_arr_mono {α : Type*} {f g : α → Text} {l l' : List α} (hl : l'.Subperm l)
    (hf : ∀ a ∈ l, (f a).length ≤ (g a).length) :
    (arr (l'.map f)).length ≤ (arr (l.map g)).length := by
  have hsum : (l'.map fun a => (f a).length).sum ≤ (l.map fun a => (g a).length).sum :=
    sum_map_mono hl hf
  have hlength : l'.length ≤ l.length := hl.length_le
  simp only [length_arr, List.map_map, List.length_map]
  exact Nat.add_le_add_right (Nat.add_le_add hsum (Nat.sub_le_sub_right hlength 1)) 2

theorem length_escapeByte_le (b : UInt8) : (escapeByte b).length ≤ 6 := by
  unfold escapeByte
  repeat' split
  all_goals simp

theorem length_escaped_le (s : String) : (escaped s).length ≤ 6 * (bytesOf s).length := by
  unfold escaped
  induction bytesOf s with
  | nil => simp
  | cons b bs ih =>
    have hhead := length_escapeByte_le b
    simp only [List.flatMap_cons, List.length_append, List.length_cons]
    omega

theorem length_escaped_of_plain {s : String} (h : ∀ b ∈ bytesOf s, escapeByte b = [b]) :
    (escaped s).length = (bytesOf s).length := by
  unfold escaped
  rw [List.flatMap_congr h]
  simp

end CompactJson
