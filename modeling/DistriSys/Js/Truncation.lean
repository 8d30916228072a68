import DistriSys.Js.Number
import Mathlib.Algebra.Order.Field.Rat
import Mathlib.Tactic.FieldSimp
import Mathlib.Tactic.Linarith
import Mathlib.Tactic.Positivity

/-!
# Numbers that go through `toString` and `parseInt`

`parseInt` reads the digits up to the first character that is none, so a number that
`toString` prints with a point or an exponent comes back as something else. This
module says for which numbers that is seen by a comparison with a count:
**`lt_parseInt_toString_iff`**.

A decimal fraction loses what follows its point, a number in exponent notation all but its
leading digit; `Survives` names those for which the comparison `n < limit` with an attempt
number `n` comes out the same. The comparison is that of rationals.
-/

namespace DistriSys.Js

namespace JsNumber

/-- A non-negative number in the shape `toString` prints it: no trailing zero in a
fraction, an exponent from `1e21` up and below `1e-6` only. -/
def NonNeg : JsNumber → Prop
  | nan => False
  | infinity => True
  | int z => 0 ≤ z ∧ z < 10 ^ 21
  | frac _ f => ∃ d ∈ f.getLast?, d.val ≠ 0
  | exp d f e => d.val ≠ 0 ∧ (∀ d' ∈ f.getLast?, d'.val ≠ 0) ∧ (21 ≤ e ∨ e ≤ -7)

/-- A number that a comparison with a count does not tell from what `parseInt` makes
of it: an integer, or a number below `1e-6` that starts with a one. -/
def Survives : JsNumber → Prop
  | int _ => True
  | exp d _ e => d.val = 1 ∧ e < 0
  | _ => False

/-! ## The value of a fraction -/

theorem fraction_cons (d : Digit) (f : List Digit) :
    fraction (d :: f) = (fraction f + (d.val : Rat)) / 10 := rfl

theorem fraction_nonneg (f : List Digit) : 0 ≤ fraction f := by
  induction f with
  | nil => exact le_refl _
  | cons d f ih =>
    rw [fraction_cons]
    positivity

theorem fraction_lt_one (f : List Digit) : fraction f < 1 := by
  induction f with
  | nil => exact zero_lt_one
  | cons d f ih =>
    have hd : (d.val : Rat) ≤ 9 := by exact_mod_cast Nat.lt_succ_iff.mp d.isLt
    rw [fraction_cons]
    linarith

theorem fraction_pos {f : List Digit} {d : Digit} (hd : d ∈ f) (hne : d.val ≠ 0) :
    0 < fraction f := by
  induction f with
  | nil => cases hd
  | cons d' f ih =>
    rw [fraction_cons]
    rcases List.mem_cons.mp hd with rfl | hd
    · have hpos : (0 : Rat) < d.val := by exact_mod_cast Nat.pos_of_ne_zero hne
      have hrest := fraction_nonneg f
      linarith
    · have hrest := ih hd
      positivity

/-! ## What `parseInt` reads -/

theorem digits_singleton (d : Digit) : digits [d] = Nat.repr d.val := by
  revert d
  decide

theorem parseInt_toString_frac (i : Nat) (f : List Digit) :
    parseInt (frac i f).toString = .int i := by
  show parseInt (Nat.repr i ++ "." ++ digits f) = _
  rw [String.append_assoc]
  refine parseInt_repr_append i ?_
  rw [String.toList_append]
  exact List.takeWhile_cons_of_neg (by decide)

theorem parseInt_toString_exp (d : Digit) (f : List Digit) (e : Int) :
    parseInt (exp d f e).toString = .int d.val := by
  show parseInt (digits [d] ++ (if f = [] then "" else "." ++ digits f) ++
    (if 0 ≤ e then "e+" else "e-") ++ ToString.toString e.natAbs) = _
  rw [digits_singleton, String.append_assoc, String.append_assoc]
  refine parseInt_repr_append d.val ?_
  -- a point or the letter `e` comes next
  split <;> split <;> simp only [String.toList_append, List.append_assoc] <;>
    exact List.takeWhile_cons_of_neg (by decide)

/-! ## Comparisons with a count -/

theorem lt_frac_self (i : Nat) {f : List Digit} (h : (frac i f).NonNeg) :
    (int i).lt (frac i f) = true := by
  obtain ⟨d, hd, hne⟩ := h
  have hpos := fraction_pos (List.mem_of_getLast? hd) hne
  show decide ((int i).toRat < (frac i f).toRat) = true
  rw [decide_eq_true_iff]
  show ((i : Int) : Rat) < i + fraction f
  push_cast
  linarith

theorem one_le_leading {d : Digit} (hd : d.val ≠ 0) : (1 : Rat) ≤ d.val := by
  exact_mod_cast Nat.one_le_iff_ne_zero.mpr hd

/-- From `1e21` up a number is greater than its leading digit. -/
theorem leading_lt_exp {d : Digit} {f : List Digit} {e : Int} (hd : d.val ≠ 0) (he : 1 ≤ e) :
    (int d.val).lt (exp d f e) = true := by
  show decide (((d.val : Int) : Rat) < (d.val + fraction f) * (10 : Rat) ^ e) = true
  have hone := one_le_leading hd
  have hfraction := fraction_nonneg f
  have hpow : (10 : Rat) ≤ 10 ^ e := by
    calc (10 : Rat) = 10 ^ (1 : Int) := (zpow_one 10).symm
      _ ≤ 10 ^ e := zpow_le_zpow_right₀ (by norm_num) he
  rw [decide_eq_true_iff]
  push_cast
  nlinarith

/-- Below `1e-6` only the count zero is less than a number. -/
theorem lt_exp_of_neg {d : Digit} {f : List Digit} {e : Int} (hd : d.val ≠ 0) (he : e < 0)
    (k : Nat) :
    (int k).lt (exp d f e) = decide (k = 0) := by
  show decide (((k : Int) : Rat) < (d.val + fraction f) * (10 : Rat) ^ e) = _
  have hone := one_le_leading hd
  have hfraction := fraction_nonneg f
  have hfraction' := fraction_lt_one f
  have hnine : (d.val : Rat) ≤ 9 := by exact_mod_cast Nat.lt_succ_iff.mp d.isLt
  have hpos : (0 : Rat) < 10 ^ e := zpow_pos (by norm_num) e
  have hpow : (10 : Rat) ^ e ≤ 1 / 10 := by
    calc (10 : Rat) ^ e ≤ 10 ^ (-1 : Int) := zpow_le_zpow_right₀ (by norm_num) (by omega)
      _ = 1 / 10 := by norm_num
  -- the number is between zero and one, so only zero is below it
  have hbelow : (d.val + fraction f) * (10 : Rat) ^ e < 1 := by nlinarith
  rw [decide_eq_decide]
  constructor
  · intro hk
    have hk : (k : Rat) < 1 := by
      push_cast at hk
      linarith
    exact Nat.lt_one_iff.mp (by exact_mod_cast hk)
  · rintro rfl
    push_cast
    positivity

/-- A number that goes through `toString` and `parseInt` compares with all counts as it
did before if and only if it is an integer, or tiny with a leading one. -/
theorem lt_parseInt_toString_iff {x : JsNumber} (h : x.NonNeg) :
    (∀ k : Nat, (int k).lt (parseInt x.toString) = (int k).lt x) ↔ x.Survives := by
  cases x with
  | nan => exact h.elim
  | infinity =>
    refine iff_of_false ?_ id
    intro hall
    exact absurd (hall 0) (by decide)
  | int z =>
    rw [parseInt_toString]
    exact iff_of_true (fun _ => rfl) trivial
  | frac i f =>
    refine iff_of_false ?_ id
    intro hall
    -- the count `i` tells the fraction from its integer part
    have hat := hall i
    rw [parseInt_toString_frac, lt_frac_self i h, lt_int] at hat
    simp at hat
  | exp d f e =>
    obtain ⟨hd, -, he⟩ := h
    rw [parseInt_toString_exp]
    -- from `1e21` on the leading digit is far too small, below `1e-6` it is one count too large
    -- unless it is one
    rcases he with hlarge | hsmall
    · refine iff_of_false ?_ fun hsurvives => absurd hsurvives.2 (by omega)
      intro hall
      have hat := hall d.val
      rw [leading_lt_exp hd (by omega), lt_int] at hat
      simp at hat
    · constructor
      · intro hall
        have hat := hall 1
        rw [lt_exp_of_neg hd (by omega), lt_int, decide_eq_decide] at hat
        refine ⟨?_, by omega⟩
        omega
      · rintro ⟨hone, -⟩ k
        rw [lt_exp_of_neg hd (by omega), lt_int, decide_eq_decide, hone]
        omega

end JsNumber

end DistriSys.Js
