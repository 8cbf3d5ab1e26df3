/-
DigDht.Lib.BigEndian — numbers by their digits, most significant first,
and the XOR of two of them.

Nothing here names a program. `value w l` is the number with the base
`2 ^ w` digits `l`; Mathlib's `Nat.ofDigits` reads the same digits the
other way round. §1 is what the digits of numbers of one length say: the
lexicographic order of the digits is the order of the numbers, and XOR
goes digit by digit.

§2 is XOR as a distance: it is at most the sum (`xor_le_add`), so it
meets the triangle inequality, and its highest bit is the highest one in
which the two numbers differ (`log2_xor_eq_iff`).
-/
import Mathlib.Data.List.Lex
import Mathlib.Data.Nat.Bitwise
import Mathlib.Data.Nat.Digits.Defs

namespace BigEndian

/-! ## §1 Digits -/

/-- The number with the digits `l` in base `2 ^ w`. -/
def value (w : Nat) (l : List Nat) : Nat :=
  Nat.ofDigits (2 ^ w) l.reverse

variable {w : Nat}

@[simp] theorem value_nil : value w [] = 0 := rfl

theorem value_cons (d : Nat) (l : List Nat) :
    value w (d :: l) = 2 ^ (w * l.length) * d + value w l := by
  unfold value
  rw [Nat.ofDigits_reverse_cons, ← pow_mul, Nat.add_comm]

theorem value_lt (hw : 0 < w) {l : List Nat} (h : ∀ d ∈ l, d < 2 ^ w) :
    value w l < 2 ^ (w * l.length) := by
  have hlt := Nat.ofDigits_lt_base_pow_length (l := l.reverse) (Nat.one_lt_two_pow hw.ne')
    fun d hd => h d (List.mem_reverse.mp hd)
  rwa [List.length_reverse, ← pow_mul] at hlt

/-- A leading digit outweighs all that follow. -/
theorem value_cons_lt_value_cons (hw : 0 < w) {a b : Nat} {l m : List Nat}
    (hlen : l.length = m.length) (hl : ∀ d ∈ l, d < 2 ^ w) (hab : a < b) :
    value w (a :: l) < value w (b :: m) := by
  have hrest := value_lt hw hl
  rw [value_cons, value_cons, ← hlen]
  have hstep : 2 ^ (w * l.length) * (a + 1) ≤ 2 ^ (w * l.length) * b := Nat.mul_le_mul_left _ hab
  rw [Nat.mul_succ] at hstep
  omega

/-- Numbers of one length compare as their digits do. -/
theorem value_lt_value_iff (hw : 0 < w) {l m : List Nat} (hlen : l.length = m.length)
    (hl : ∀ d ∈ l, d < 2 ^ w) (hm : ∀ d ∈ m, d < 2 ^ w) : value w l < value w m ↔ l < m := by
  induction l generalizing m with
  | nil =>
    cases m with
    | nil => simp
    | cons b m => simp at hlen
  | cons a l ih =>
    cases m with
    | nil => simp at hlen
    | cons b m =>
      obtain ⟨-, hl⟩ := List.forall_mem_cons.mp hl
      obtain ⟨-, hm⟩ := List.forall_mem_cons.mp hm
      have hlen : l.length = m.length := by simpa using hlen
      rw [List.cons_lt_cons_iff]
      rcases Nat.lt_trichotomy a b with hab | hab | hab
      · simp [value_cons_lt_value_cons hw hlen hl hab, hab]
      · simp [hab, value_cons, hlen, ih hlen hl hm]
      · have hgt := value_cons_lt_value_cons hw hlen.symm hm hab
        have hne : a ≠ b := by omega
        simp [hgt.not_gt, hab.not_gt, hne]

/-- XOR goes digit by digit. -/
theorem value_zipWith_xor (hw : 0 < w) {l m : List Nat} (hlen : l.length = m.length)
    (hl : ∀ d ∈ l, d < 2 ^ w) (hm : ∀ d ∈ m, d < 2 ^ w) :
    value w (List.zipWith (· ^^^ ·) l m) = value w l ^^^ value w m := by
  induction l generalizing m with
  | nil =>
    cases m with
    | nil => simp
    | cons b m => simp at hlen
  | cons a l ih =>
    cases m with
    | nil => simp at hlen
    | cons b m =>
      obtain ⟨-, hl⟩ := List.forall_mem_cons.mp hl
      obtain ⟨-, hm⟩ := List.forall_mem_cons.mp hm
      have hlen : l.length = m.length := by simpa using hlen
      have hll := value_lt hw hl
      have hmm := value_lt hw hm
      rw [← hlen] at hmm
      have hxor : value w l ^^^ value w m < 2 ^ (w * l.length) := Nat.xor_lt_two_pow hll hmm
      rw [List.zipWith_cons_cons, value_cons, value_cons, value_cons, ih hlen hl hm,
        List.length_zipWith, ← hlen, Nat.min_self]
      -- Bit by bit: below the leading digit, and from it on.
      refine Nat.eq_of_testBit_eq ?_
      intro i
      rw [Nat.testBit_xor, Nat.testBit_two_pow_mul_add _ hll, Nat.testBit_two_pow_mul_add _ hmm,
        Nat.testBit_two_pow_mul_add _ hxor]
      split <;> rw [Nat.testBit_xor]

/-- The highest bit of a number is the one of its leading digit. -/
theorem log2_value_cons (hw : 0 < w) {d : Nat} {l : List Nat} (hd : d ≠ 0)
    (hl : ∀ d ∈ l, d < 2 ^ w) : (value w (d :: l)).log2 = w * l.length + d.log2 := by
  have hrest := value_lt hw hl
  have hlow := Nat.log2_self_le hd
  have hhigh := @Nat.lt_log2_self d
  have hpos : value w (d :: l) ≠ 0 := by
    rw [value_cons]
    have := Nat.two_pow_pos (w * l.length)
    have hprod : 0 < 2 ^ (w * l.length) * d := Nat.mul_pos this (Nat.pos_of_ne_zero hd)
    omega
  rw [Nat.log2_eq_iff hpos, value_cons, Nat.add_assoc, pow_add, pow_add]
  constructor
  · have hle : 2 ^ (w * l.length) * 2 ^ d.log2 ≤ 2 ^ (w * l.length) * d :=
      Nat.mul_le_mul_left _ hlow
    omega
  · have hle : 2 ^ (w * l.length) * (d + 1) ≤ 2 ^ (w * l.length) * 2 ^ (d.log2 + 1) :=
      Nat.mul_le_mul_left _ hhigh
    rw [Nat.mul_succ] at hle
    omega

/-! ## §2 XOR as a distance -/

theorem xor_le_add (a b : Nat) : a ^^^ b ≤ a + b := by
  induction a using Nat.strong_induction_on generalizing b with
  | _ a ih =>
    by_cases hzero : a = 0
    · simp [hzero]
    · have hhalf : a / 2 ^^^ b / 2 ≤ a / 2 + b / 2 := ih (a / 2) (by omega) (b / 2)
      rw [← Nat.xor_div_two] at hhalf
      have hparity : (a ^^^ b) % 2 = (a + b) % 2 := Nat.xor_mod_two_eq
      omega

theorem xor_triangle (a b c : Nat) : a ^^^ c ≤ (a ^^^ b) + (b ^^^ c) := by
  have hsplit : (a ^^^ b) ^^^ (b ^^^ c) = a ^^^ c := by
    rw [Nat.xor_assoc, Nat.xor_xor_cancel_left]
  rw [← hsplit]
  exact xor_le_add _ _

/-- `log2` is the place of the highest bit. -/
theorem log2_eq_iff_testBit {n i : Nat} (hn : n ≠ 0) :
    n.log2 = i ↔ n.testBit i = true ∧ ∀ j, i < j → n.testBit j = false := by
  constructor
  · rintro rfl
    refine ⟨Nat.testBit_log2 hn, ?_⟩
    intro j hj
    exact Nat.testBit_lt_two_pow (Nat.lt_of_lt_of_le Nat.lt_log2_self
      (Nat.pow_le_pow_right (by decide) hj))
  · rintro ⟨hbit, habove⟩
    rw [Nat.log2_eq_iff hn]
    exact ⟨Nat.ge_two_pow_of_testBit hbit, Nat.lt_pow_two_of_testBit n fun j hj => habove j hj⟩

/-- The highest bit of a XOR is the highest one in which the two differ. -/
theorem log2_xor_eq_iff {a b i : Nat} (hne : a ≠ b) :
    (a ^^^ b).log2 = i ↔
      a.testBit i ≠ b.testBit i ∧ ∀ j, i < j → a.testBit j = b.testBit j := by
  have hxor : a ^^^ b ≠ 0 := Nat.xor_ne_zero_iff.mpr hne
  simp [log2_eq_iff_testBit hxor, Nat.testBit_xor]

theorem lt_of_log2_lt {m n : Nat} (h : m.log2 < n.log2) : m < n := by
  have hn : n ≠ 0 := by
    rintro rfl
    simp at h
  calc m < 2 ^ (m.log2 + 1) := Nat.lt_log2_self
    _ ≤ 2 ^ n.log2 := Nat.pow_le_pow_right (by decide) h
    _ ≤ n := Nat.log2_self_le hn

/-- Numbers that differ from `a` first in one bit are all nearer to `t`
than `a` is, or none of them is. -/
theorem xor_lt_of_log2_eq {a x z t : Nat} (hx : a ≠ x) (hz : a ≠ z)
    (hbit : (a ^^^ x).log2 = (a ^^^ z).log2) (hlt : t ^^^ x < t ^^^ a) : t ^^^ z < t ^^^ a := by
  obtain ⟨hxbit, hxabove⟩ := (log2_xor_eq_iff hx).mp rfl
  obtain ⟨hzbit, hzabove⟩ := (log2_xor_eq_iff hz).mp hbit.symm
  -- `x` is nearer, so in the bit where it leaves `a` it agrees with `t`.
  have hagree : t.testBit (a ^^^ x).log2 = x.testBit (a ^^^ x).log2 := by
    by_contra hne
    refine absurd hlt (Nat.not_lt.mpr (Nat.le_of_lt ?_))
    refine Nat.lt_of_testBit (a ^^^ x).log2 ?_ ?_ ?_
    · rw [Nat.testBit_xor]
      revert hne hxbit
      cases t.testBit _ <;> cases a.testBit _ <;> cases x.testBit _ <;> simp
    · rw [Nat.testBit_xor]
      revert hne
      cases t.testBit _ <;> cases x.testBit _ <;> simp
    · intro j hj
      rw [Nat.testBit_xor, Nat.testBit_xor, hxabove j hj]
  refine Nat.lt_of_testBit (a ^^^ x).log2 ?_ ?_ ?_
  · rw [Nat.testBit_xor, hagree]
    revert hxbit hzbit
    cases a.testBit _ <;> cases x.testBit _ <;> cases z.testBit _ <;> simp
  · rw [Nat.testBit_xor, hagree]
    revert hxbit
    cases a.testBit _ <;> cases x.testBit _ <;> simp
  · intro j hj
    rw [Nat.testBit_xor, Nat.testBit_xor, hzabove j hj]

end BigEndian
