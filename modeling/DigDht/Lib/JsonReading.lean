/-
DigDht.Lib.JsonReading — compact JSON has one reading.

`CompactJson` writes text; this module says that what it writes is
unambiguous. A writer is readable (`Readable`) when text that begins with
what it wrote determines the value AND the text behind it: a string ends
with the first quote that is not escaped, a number with the first byte
that is no digit (`Stops`), an array with its bracket. Strings and
numbers are readable, and an array of what is readable is readable
(`readable_arr`); an object is read member by member
(`Readable.cancel_obj`, then `Readable.cancel_more` for each comma).
-/
import DigDht.Lib.CompactJson

namespace CompactJson

/-! ## §1 Escapes -/

theorem forall_byte {p : UInt8 → Prop} (h : ∀ n : Fin 256, p (UInt8.ofFin n)) (b : UInt8) :
    p b := by
  simpa using h b.toFin

/-- The value of a hexadecimal digit. -/
def unhex (d : UInt8) : UInt8 :=
  if d < 58 then d - 48 else d - 87

/-- The first byte of what was escaped to the text. -/
def unescaped : Text → UInt8
  | 92 :: 117 :: _ :: _ :: high :: low :: _ => (unhex high <<< 4) ||| unhex low
  | 92 :: 98 :: _ => 8
  | 92 :: 116 :: _ => 9
  | 92 :: 110 :: _ => 10
  | 92 :: 102 :: _ => 12
  | 92 :: 114 :: _ => 13
  | 92 :: b :: _ => b
  | b :: _ => b
  | [] => 0

theorem unhex_hexDigit (b : UInt8) :
    b < 32 → (unhex (hexDigit (b >>> 4)) <<< 4) ||| unhex (hexDigit (b &&& 15)) = b :=
  forall_byte
    (p := fun b => b < 32 → (unhex (hexDigit (b >>> 4)) <<< 4) ||| unhex (hexDigit (b &&& 15)) = b)
    (by decide +kernel) b

theorem unescaped_escapeByte (b : UInt8) (s : Text) : unescaped (escapeByte b ++ s) = b := by
  unfold escapeByte
  split_ifs with hquote h8 h9 h10 h12 h13 hcontrol
  · rcases hquote with rfl | rfl <;> rfl
  · exact h8.symm
  · exact h9.symm
  · exact h10.symm
  · exact h12.symm
  · exact h13.symm
  · exact unhex_hexDigit b hcontrol
  · -- A byte that stands for itself is no backslash.
    have hplain : b ≠ 92 := fun h => hquote (Or.inr h)
    simp only [List.cons_append, List.nil_append]
    unfold unescaped
    split <;> simp_all

theorem escapeByte_cancel {b b' : UInt8} {s s' : Text}
    (h : escapeByte b ++ s = escapeByte b' ++ s') : b = b' ∧ s = s' := by
  have hsame : b = b' := by
    rw [← unescaped_escapeByte b s, h, unescaped_escapeByte]
  subst hsame
  exact ⟨rfl, List.append_cancel_left h⟩

/-- No escape begins with a quote. -/
theorem escapeByte_ne_quote (b : UInt8) (s s' : Text) : escapeByte b ++ s ≠ 34 :: s' := by
  unfold escapeByte
  split_ifs with hquote <;> simp_all

theorem escapes_cancel {bs bs' : List UInt8} {s s' : Text}
    (h : bs.flatMap escapeByte ++ 34 :: s = bs'.flatMap escapeByte ++ 34 :: s') :
    bs = bs' ∧ s = s' := by
  induction bs generalizing bs' with
  | nil =>
    cases bs' with
    | nil => simpa using h
    | cons b' bs' =>
      simp only [List.flatMap_nil, List.nil_append, List.flatMap_cons, List.append_assoc] at h
      exact absurd h.symm (escapeByte_ne_quote _ _ _)
  | cons b bs ih =>
    cases bs' with
    | nil =>
      simp only [List.flatMap_nil, List.nil_append, List.flatMap_cons, List.append_assoc] at h
      exact absurd h (escapeByte_ne_quote _ _ _)
    | cons b' bs' =>
      simp only [List.flatMap_cons, List.append_assoc] at h
      obtain ⟨rfl, hrest⟩ := escapeByte_cancel h
      obtain ⟨rfl, htail⟩ := ih hrest
      exact ⟨rfl, htail⟩

theorem bytesOf_injective : Function.Injective bytesOf := by
  intro s t h
  exact String.toByteArray_inj.mp (ByteArray.ext (Array.toList_inj.mp h))

/-! ## §2 Readable writers -/

/-- A byte of a number. -/
def IsDigit (b : UInt8) : Prop := 48 ≤ b ∧ b ≤ 57

instance (b : UInt8) : Decidable (IsDigit b) :=
  inferInstanceAs (Decidable (_ ∧ _))

/-- The text does not go on with a digit. -/
def Stops (s : Text) : Prop :=
  ∀ b ∈ s.head?, ¬ IsDigit b

@[simp] theorem stops_nil : Stops [] := by
  simp [Stops]

@[simp] theorem stops_cons {b : UInt8} {s : Text} : Stops (b :: s) ↔ ¬ IsDigit b := by
  simp [Stops]

/-- What is written is not empty, closes no bracket, and determines the
value and all that follows it. -/
structure Readable {α : Type*} (write : α → Text) : Prop where
  opens : ∀ a s s', write a ++ s ≠ 93 :: s'
  closes : ∀ {a a' s s'}, Stops s → Stops s' → write a ++ s = write a' ++ s' → a = a' ∧ s = s'

namespace Readable

variable {α β : Type*} {write : α → Text}

theorem injective (h : Readable write) : Function.Injective write := by
  intro a a' heq
  exact (h.closes stops_nil stops_nil (congrArg (· ++ []) heq)).1

theorem comp {f : β → α} (h : Readable write) (hf : Function.Injective f) :
    Readable fun b => write (f b) where
  opens b s s' := h.opens (f b) s s'
  closes hs hs' heq := by
    obtain ⟨hvalue, hrest⟩ := h.closes hs hs' heq
    exact ⟨hf hvalue, hrest⟩

end Readable

theorem readable_str : Readable str where
  opens x s s' := by simp [str]
  closes {x x' s s'} _ _ h := by
    simp only [str, List.cons_append, List.append_assoc, List.nil_append, List.cons.injEq,
      true_and] at h
    obtain ⟨hbytes, hrest⟩ := escapes_cancel h
    exact ⟨bytesOf_injective hbytes, hrest⟩

/-! ### Numbers -/

theorem toNat_le_of_mem_toDigits {n : Nat} {c : Char} (hc : c ∈ Nat.toDigits 10 n) :
    48 ≤ c.toNat ∧ c.toNat ≤ 57 := by
  have hdigit := Nat.isDigit_of_mem_toDigits (by decide) (by decide) hc
  simpa [Char.isDigit, UInt32.le_iff_toNat_le] using hdigit

theorem isDigit_of_mem_num {n : Nat} {b : UInt8} (hb : b ∈ num n) : IsDigit b := by
  obtain ⟨c, hc, rfl⟩ := List.mem_map.mp hb
  have hbounds := toNat_le_of_mem_toDigits hc
  simp only [IsDigit, UInt8.le_iff_toNat_le, UInt8.toNat_ofNat']
  simp
  omega

/-- The digits of a number, back as characters. -/
theorem map_num (n : Nat) : (num n).map (fun b => Char.ofNat b.toNat) = Nat.toDigits 10 n := by
  rw [num, List.map_map]
  refine (List.map_congr_left fun c hc => ?_).trans (List.map_id _)
  have hbounds := toNat_le_of_mem_toDigits hc
  have hbyte : (UInt8.ofNat c.toNat).toNat = c.toNat := by
    rw [UInt8.toNat_ofNat']
    omega
  simp [hbyte]

theorem num_injective : Function.Injective num := by
  intro n m h
  rw [← Nat.ofDigitChars_ten_toDigits (n := n), ← map_num, h, map_num,
    Nat.ofDigitChars_ten_toDigits]

/-- Two runs of digits that stop are the same run. -/
theorem digits_cancel {ds ds' s s' : Text} (hds : ∀ b ∈ ds, IsDigit b)
    (hds' : ∀ b ∈ ds', IsDigit b) (hs : Stops s) (hs' : Stops s') (h : ds ++ s = ds' ++ s') :
    ds = ds' ∧ s = s' := by
  induction ds generalizing ds' with
  | nil =>
    cases ds' with
    | nil => exact ⟨rfl, h⟩
    | cons d' ds' =>
      subst h
      exact absurd (hds' d' List.mem_cons_self) (stops_cons.mp hs)
  | cons d ds ih =>
    cases ds' with
    | nil =>
      subst h
      exact absurd (hds d List.mem_cons_self) (stops_cons.mp hs')
    | cons d' ds' =>
      obtain ⟨rfl, hrest⟩ := List.cons.inj h
      obtain ⟨rfl, htail⟩ := ih (fun b hb => hds b (List.mem_cons_of_mem d hb))
        (fun b hb => hds' b (List.mem_cons_of_mem d hb)) hrest
      exact ⟨rfl, htail⟩

theorem readable_num : Readable num where
  opens n s s' h := by
    cases hdigits : num n with
    | nil => exact Nat.toDigits_ne_nil (List.map_eq_nil_iff.mp hdigits)
    | cons d ds =>
      rw [hdigits, List.cons_append] at h
      have hdigit := isDigit_of_mem_num (n := n) (hdigits ▸ List.mem_cons_self)
      rw [(List.cons.inj h).1] at hdigit
      exact absurd hdigit (by decide)
  closes {n n' s s'} hs hs' h := by
    obtain ⟨hdigits, hrest⟩ := digits_cancel (fun b hb => isDigit_of_mem_num hb)
      (fun b hb => isDigit_of_mem_num hb) hs hs' h
    exact ⟨num_injective hdigits, hrest⟩

/-! ## §3 Arrays and objects -/

/-- The items behind the first, a comma before each. -/
def more (items : List Text) : Text :=
  items.flatMap (44 :: ·)

theorem commaSep_cons (item : Text) (items : List Text) :
    commaSep (item :: items) = item ++ more items := by
  induction items generalizing item with
  | nil => simp [commaSep, more]
  | cons next items ih =>
    rw [commaSep, ih]
    simp [more]

/-- Behind an item there is a comma or the end. -/
theorem stops_more {items : List Text} {b : UInt8} {s : Text} (hb : ¬ IsDigit b) :
    Stops (more items ++ b :: s) := by
  cases items with
  | nil => simpa [more] using hb
  | cons item items => simp [more, IsDigit]

theorem Readable.cancel_items {α : Type*} {write : α → Text} (h : Readable write) {l l' : List α}
    {s s' : Text} (heq : more (l.map write) ++ 93 :: s = more (l'.map write) ++ 93 :: s') :
    l = l' ∧ s = s' := by
  induction l generalizing l' with
  | nil =>
    cases l' with
    | nil => simpa [more] using heq
    | cons a' l' => simp [more] at heq
  | cons a l ih =>
    cases l' with
    | nil => simp [more] at heq
    | cons a' l' =>
      simp only [List.map_cons, more, List.flatMap_cons, List.cons_append, List.append_assoc,
        List.cons.injEq, true_and] at heq
      obtain ⟨rfl, hrest⟩ := h.closes (stops_more (by decide)) (stops_more (by decide)) heq
      obtain ⟨rfl, htail⟩ := ih hrest
      exact ⟨rfl, htail⟩

theorem readable_arr {α : Type*} {write : α → Text} (h : Readable write) :
    Readable fun l : List α => arr (l.map write) where
  opens l s s' := by simp [arr]
  closes {l l' s s'} _ _ heq := by
    simp only [arr, List.cons_append, List.append_assoc, List.nil_append, List.cons.injEq,
      true_and] at heq
    cases l with
    | nil =>
      cases l' with
      | nil => simpa [commaSep] using heq
      | cons a' l' =>
        simp only [List.map_nil, commaSep, List.nil_append, List.map_cons, commaSep_cons,
          List.append_assoc] at heq
        exact absurd heq.symm (h.opens a' _ _)
    | cons a l =>
      cases l' with
      | nil =>
        simp only [List.map_nil, commaSep, List.nil_append, List.map_cons, commaSep_cons,
          List.append_assoc] at heq
        exact absurd heq (h.opens a _ _)
      | cons a' l' =>
        simp only [List.map_cons, commaSep_cons, List.append_assoc] at heq
        obtain ⟨rfl, hrest⟩ := h.closes (stops_more (by decide)) (stops_more (by decide)) heq
        obtain ⟨rfl, htail⟩ := h.cancel_items hrest
        exact ⟨rfl, htail⟩

/-! ### Objects -/

namespace Readable

variable {α : Type*} {write : α → Text} {a a' : α} {items items' : List Text} {s s' : Text}

theorem member (h : Readable write) (name : String) :
    Readable fun a => CompactJson.member name (write a) where
  opens a s s' := by simp [CompactJson.member, str]
  closes hs hs' heq := by
    simp only [CompactJson.member, List.append_assoc, List.append_cancel_left_eq,
      List.cons_append, List.cons.injEq, true_and] at heq
    exact h.closes hs hs' heq

/-- The first member of an object. -/
theorem cancel_obj (h : Readable write)
    (heq : obj (write a :: items) ++ s = obj (write a' :: items') ++ s') :
    a = a' ∧ more items ++ 125 :: s = more items' ++ 125 :: s' := by
  simp only [obj, commaSep_cons, List.cons_append, List.append_assoc, List.nil_append,
    List.cons.injEq, true_and] at heq
  exact h.closes (stops_more (by decide)) (stops_more (by decide)) heq

/-- A member behind a comma. -/
theorem cancel_more (h : Readable write)
    (heq : more (write a :: items) ++ 125 :: s = more (write a' :: items') ++ 125 :: s') :
    a = a' ∧ more items ++ 125 :: s = more items' ++ 125 :: s' := by
  simp only [more, List.flatMap_cons, List.cons_append, List.append_assoc, List.cons.injEq,
    true_and] at heq
  exact h.closes (stops_more (by decide)) (stops_more (by decide)) heq

end Readable

/-- The end of an object. -/
theorem cancel_end {s s' : Text} (h : more [] ++ 125 :: s = more [] ++ 125 :: s') : s = s' :=
  (List.cons.inj h).2

end CompactJson
