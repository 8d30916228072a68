import Mathlib.Tactic.Ring
import Mathlib.Tactic.Common

/-!
# Integers as doubles

A JavaScript number is a double, so an integer above `2^53` is rounded to a multiple of the
spacing there. `toDouble` is that rounding, to the nearest and in a tie to the even multiple.

What programs rely on is little, and it is stated for all integers:

- a safe integer is its own double (`toDouble_of_safe`, and `2^53` itself, `toDouble_of_le`);
- rounding keeps the order (`toDouble_mono`), so what is beyond `2^53` stays there
  (`le_toDouble`, `toDouble_le`);
- rounding twice is rounding once (`toDouble_toDouble`).

`printed` is the integer whose digits `Number.prototype.toString` prints for a double below
`10^21`: the shortest ones that read back as the double, filled up with zeros. For a double
from `2^53` on it may be another integer (`2^63` is printed as `9223372036854776000`), but one
on the same side of `2^53` (`printed_cases`), and it fits 64 bits with a sign just when the
double is less than `2^63` (`printed_int64`).
-/

namespace DistriSys.Js

/-! ## Rounding -/

/-- The multiple of `unit` nearest to `n`; of two equally near ones the even multiple. -/
def nearest (unit n : Nat) : Nat :=
  if 2 * (n % unit) < unit ∨ 2 * (n % unit) = unit ∧ n / unit % 2 = 0 then n / unit * unit
  else (n / unit + 1) * unit

/-- The distance of the doubles from `n` on: there are 53 binary digits. -/
def spacing (n : Nat) : Nat := 2 ^ (n.log2 - 52)

/-- The double nearest to a natural number. -/
def roundNat (n : Nat) : Nat := nearest (spacing n) n

/-- The double nearest to an integer. -/
def toDouble (z : Int) : Int := if 0 ≤ z then roundNat z.toNat else -roundNat (-z).toNat

/-- `Number.isSafeInteger`. -/
def Safe (z : Int) : Prop := -2 ^ 53 < z ∧ z < 2 ^ 53

instance (z : Int) : Decidable (Safe z) := inferInstanceAs (Decidable (_ ∧ _))

section Nearest

variable {unit n m : Nat}

theorem nearest_of_dvd (h : unit ∣ n) : nearest unit n = n := by
  obtain ⟨k, rfl⟩ := h
  rcases Nat.eq_zero_or_pos unit with rfl | hunit
  · simp [nearest]
  · rw [nearest, if_pos (.inl (by simpa using hunit)), Nat.div_mul_cancel (Dvd.intro k rfl)]

theorem dvd_nearest (unit n : Nat) : unit ∣ nearest unit n := by
  unfold nearest
  split
  · exact Nat.dvd_mul_left _ _
  · exact Nat.dvd_mul_left _ _

/-- A number is rounded down or up by less than one unit. -/
theorem nearest_bounds (unit n : Nat) :
    n / unit * unit ≤ nearest unit n ∧ nearest unit n ≤ (n / unit + 1) * unit := by
  have hstep : n / unit * unit ≤ (n / unit + 1) * unit := Nat.mul_le_mul_right _ (by omega)
  unfold nearest
  split
  · exact ⟨le_rfl, hstep⟩
  · exact ⟨hstep, le_rfl⟩

theorem nearest_mono (unit : Nat) (h : n ≤ m) : nearest unit n ≤ nearest unit m := by
  have hdiv : n / unit ≤ m / unit := Nat.div_le_div_right h
  by_cases hsame : n / unit = m / unit
  · -- between the same two multiples the remainders decide
    have hn := Nat.div_add_mod n unit
    have hm := Nat.div_add_mod m unit
    rw [hsame] at hn
    have hmod : n % unit ≤ m % unit := by omega
    have hstep : m / unit * unit ≤ (m / unit + 1) * unit := Nat.mul_le_mul_right _ (by omega)
    unfold nearest
    rw [hsame]
    split <;> split
    · exact le_rfl
    · exact hstep
    · next hdown hup => exact absurd (by omega) hdown
    · exact le_rfl
  · calc nearest unit n ≤ (n / unit + 1) * unit := (nearest_bounds unit n).2
      _ ≤ m / unit * unit := Nat.mul_le_mul_right _ (by omega)
      _ ≤ nearest unit m := (nearest_bounds unit m).1

end Nearest

section RoundNat

variable {n m k : Nat}

theorem spacing_dvd_pow (h : n.log2 ≤ k) : spacing n ∣ 2 ^ k :=
  Nat.pow_dvd_pow 2 (by omega)

/-- Up to `2^53` every integer is a double. -/
theorem roundNat_of_le (h : n ≤ 2 ^ 53) : roundNat n = n := by
  rcases Nat.lt_or_eq_of_le h with hlt | rfl
  · have hlog : n.log2 - 52 = 0 := by
      rcases Nat.eq_zero_or_pos n with rfl | hpos
      · simp
      · have hlog : n.log2 < 53 := (Nat.log2_lt hpos.ne').mpr hlt
        omega
    have hunit : spacing n = 1 := by rw [spacing, hlog, pow_zero]
    exact nearest_of_dvd (by rw [hunit]; exact Nat.one_dvd n)
  · exact nearest_of_dvd (spacing_dvd_pow (by rw [Nat.log2_two_pow]))

theorem roundNat_two_pow (k : Nat) : roundNat (2 ^ k) = 2 ^ k :=
  nearest_of_dvd (spacing_dvd_pow (by rw [Nat.log2_two_pow]))

/-- Rounding does not leave the powers of two around a number. -/
theorem roundNat_bounds (hn : n ≠ 0) :
    2 ^ n.log2 ≤ roundNat n ∧ roundNat n ≤ 2 ^ (n.log2 + 1) := by
  have hlow := nearest_mono (spacing n) (Nat.log2_self_le hn)
  have hhigh := nearest_mono (spacing n) (Nat.le_of_lt (Nat.lt_log2_self (n := n)))
  rw [nearest_of_dvd (spacing_dvd_pow le_rfl)] at hlow
  rw [nearest_of_dvd (spacing_dvd_pow (Nat.le_succ _))] at hhigh
  exact ⟨hlow, hhigh⟩

theorem roundNat_mono (h : n ≤ m) : roundNat n ≤ roundNat m := by
  rcases Nat.eq_zero_or_pos n with rfl | hpos
  · rw [roundNat_of_le (Nat.zero_le _)]
    exact Nat.zero_le _
  · have hm : m ≠ 0 := by omega
    rcases Nat.lt_trichotomy n.log2 m.log2 with hlog | hlog | hlog
    · calc roundNat n ≤ 2 ^ (n.log2 + 1) := (roundNat_bounds hpos.ne').2
        _ ≤ 2 ^ m.log2 := Nat.pow_le_pow_right (by decide) hlog
        _ ≤ roundNat m := (roundNat_bounds hm).1
    · have hunit : spacing n = spacing m := by rw [spacing, spacing, hlog]
      rw [roundNat, roundNat, hunit]
      exact nearest_mono _ h
    · -- the smaller number has no more digits
      have hle : 2 ^ n.log2 ≤ m := le_trans (Nat.log2_self_le hpos.ne') h
      have hlt : m < 2 ^ (m.log2 + 1) := Nat.lt_log2_self
      have hpow : 2 ^ (m.log2 + 1) ≤ 2 ^ n.log2 := Nat.pow_le_pow_right (by decide) hlog
      omega

/-- A rounded number is a double. -/
theorem roundNat_roundNat (n : Nat) : roundNat (roundNat n) = roundNat n := by
  rcases Nat.eq_zero_or_pos n with rfl | hpos
  · rfl
  · obtain ⟨hlow, hhigh⟩ := roundNat_bounds hpos.ne'
    rcases Nat.lt_or_eq_of_le hhigh with hlt | heq
    · have hne : roundNat n ≠ 0 := by
        have hpow : 0 < 2 ^ n.log2 := Nat.two_pow_pos _
        omega
      have hlog : (roundNat n).log2 = n.log2 := (Nat.log2_eq_iff hne).mpr ⟨hlow, hlt⟩
      refine nearest_of_dvd ?_
      rw [spacing, hlog]
      exact dvd_nearest _ n
    · rw [heq, roundNat_two_pow]

end RoundNat

section ToDouble

variable {z y : Int}

theorem toDouble_natCast (n : Nat) : toDouble n = roundNat n := by
  rw [toDouble, if_pos (Int.natCast_nonneg n), Int.toNat_natCast]

theorem natAbs_toDouble (z : Int) : (toDouble z).natAbs = roundNat z.natAbs := by
  unfold toDouble
  split
  · next h => rw [Int.natAbs_natCast, show z.toNat = z.natAbs by omega]
  · next h => rw [Int.natAbs_neg, Int.natAbs_natCast, show (-z).toNat = z.natAbs by omega]

theorem toDouble_neg (z : Int) : toDouble (-z) = -toDouble z := by
  unfold toDouble
  split <;> split
  · -- both signs: the number is zero
    obtain rfl : z = 0 := by omega
    rfl
  · rw [neg_neg]
  · rw [neg_neg]
  · omega

theorem toDouble_of_le (h : z.natAbs ≤ 2 ^ 53) : toDouble z = z := by
  unfold toDouble
  split
  · rw [roundNat_of_le (by omega)]
    omega
  · rw [roundNat_of_le (by omega)]
    omega

/-- A safe integer is its own double. -/
theorem toDouble_of_safe (h : Safe z) : toDouble z = z :=
  toDouble_of_le (by unfold Safe at h; omega)

/-- Counting up from a safe integer is exact in doubles. -/
theorem toDouble_add_one (h : Safe z) : toDouble (toDouble z + 1) = z + 1 := by
  rw [toDouble_of_safe h]
  exact toDouble_of_le (by unfold Safe at h; omega)

theorem toDouble_mono (h : z ≤ y) : toDouble z ≤ toDouble y := by
  unfold toDouble
  split <;> split
  · exact Int.ofNat_le.mpr (roundNat_mono (by omega))
  · omega
  · omega
  · have hround : roundNat (-y).toNat ≤ roundNat (-z).toNat := roundNat_mono (by omega)
    omega

/-- Beyond the safe integers there is no way back. -/
theorem le_toDouble (h : 2 ^ 53 ≤ z) : 2 ^ 53 ≤ toDouble z := by
  have hmono := toDouble_mono h
  rwa [toDouble_of_le (z := 2 ^ 53) (by decide)] at hmono

theorem toDouble_le (h : z ≤ -2 ^ 53) : toDouble z ≤ -2 ^ 53 := by
  have hmono := toDouble_mono h
  rwa [toDouble_of_le (z := -2 ^ 53) (by decide)] at hmono

/-- The three ways in which an integer is rounded. -/
theorem toDouble_cases (z : Int) :
    (z.natAbs ≤ 2 ^ 53 → toDouble z = z) ∧ (2 ^ 53 ≤ z → 2 ^ 53 ≤ toDouble z) ∧
      (z ≤ -2 ^ 53 → toDouble z ≤ -2 ^ 53) :=
  ⟨toDouble_of_le, le_toDouble, toDouble_le⟩

theorem toDouble_toDouble (z : Int) : toDouble (toDouble z) = toDouble z := by
  rcases le_total 0 z with h | h
  · lift z to Nat using h
    rw [toDouble_natCast, toDouble_natCast, roundNat_roundNat]
  · obtain ⟨n, rfl⟩ : ∃ n : Nat, z = -n := ⟨z.natAbs, by omega⟩
    rw [toDouble_neg, toDouble_natCast, toDouble_neg, toDouble_natCast, roundNat_roundNat]

end ToDouble

example : toDouble (2 ^ 53 + 1) = 2 ^ 53 := by decide

/-! ## Digits -/

/-- The number with the fewest digits before its trailing zeros that rounds to `n`, of those
with at most so many zeros. -/
def shortest (n : Nat) : Nat → Nat
  | 0 => n
  | zeros + 1 =>
    if roundNat (nearest (10 ^ (zeros + 1)) n) = n then nearest (10 ^ (zeros + 1)) n
    else shortest n zeros

/-- The integer whose digits are printed for the double `z`, if it is below `10^21`. -/
def printed (z : Int) : Int := if 0 ≤ z then shortest z.toNat 21 else -shortest (-z).toNat 21

theorem roundNat_shortest {n : Nat} (h : roundNat n = n) (zeros : Nat) :
    roundNat (shortest n zeros) = n := by
  induction zeros with
  | zero => exact h
  | succ zeros ih =>
    rw [shortest]
    split
    · next hround => exact hround
    · exact ih

section Printed

variable {z : Int}

/-- What is printed reads back as the same double. -/
theorem toDouble_printed (h : toDouble z = z) : toDouble (printed z) = z := by
  have habs := natAbs_toDouble z
  rw [h] at habs
  unfold printed
  split
  · next hz =>
    rw [show z.toNat = z.natAbs by omega, toDouble_natCast, roundNat_shortest habs.symm]
    omega
  · next hz =>
    rw [show (-z).toNat = z.natAbs by omega, toDouble_neg, toDouble_natCast,
      roundNat_shortest habs.symm]
    omega

/-- A safe integer is printed as it is, and what is beyond stays beyond. -/
theorem printed_cases (h : toDouble z = z) :
    (Safe z → printed z = z) ∧ (2 ^ 53 ≤ z → 2 ^ 53 ≤ printed z) ∧
      (z ≤ -2 ^ 53 → printed z ≤ -2 ^ 53) := by
  have hback := toDouble_printed h
  by_cases hsafe : Safe (printed z)
  · rw [toDouble_of_safe hsafe] at hback
    unfold Safe at *
    omega
  · have hlarge : printed z ≤ -2 ^ 53 ∨ 2 ^ 53 ≤ printed z := by
      unfold Safe at hsafe
      omega
    rcases hlarge with hlarge | hlarge
    · have hle := toDouble_le hlarge
      unfold Safe
      omega
    · have hle := le_toDouble hlarge
      unfold Safe
      omega

/-- The digits of a double denote a signed 64-bit integer if and only if the double is one, and
not `-2^63`, whose digits are those of a smaller number. -/
theorem printed_int64 (h : toDouble z = z) :
    (-2 ^ 63 ≤ printed z ∧ printed z < 2 ^ 63) ↔ z.natAbs < 2 ^ 63 := by
  have hround : roundNat z.natAbs = z.natAbs := by rw [← natAbs_toDouble, h]
  have hback := roundNat_shortest hround 21
  have habs : printed z = shortest z.natAbs 21 ∨ printed z = -shortest z.natAbs 21 := by
    unfold printed
    split
    · next hz => exact .inl (by rw [show z.toNat = z.natAbs by omega])
    · next hz => exact .inr (by rw [show (-z).toNat = z.natAbs by omega])
  -- the digits that are printed round back to the double, and `2 ^ 63` is its own double
  have hbelow : z.natAbs < 2 ^ 63 → shortest z.natAbs 21 < 2 ^ 63 := by
    intro hz
    by_contra hle
    have hmono := roundNat_mono (Nat.le_of_not_lt hle)
    rw [roundNat_two_pow, hback] at hmono
    omega
  have habove : 2 ^ 63 ≤ z.natAbs → 2 ^ 63 < shortest z.natAbs 21 := by
    intro hz
    rcases Nat.lt_or_eq_of_le hz with hlt | heq
    · by_contra hle
      have hmono := roundNat_mono (Nat.le_of_not_lt hle)
      rw [roundNat_two_pow, hback] at hmono
      omega
    -- the boundary itself is printed as a larger number
    · rw [← heq]
      decide
  omega

/-- Near `2^63` one less is the same double. -/
theorem natAbs_toDouble_sub_one (h : toDouble z = z) :
    (toDouble (z - 1)).natAbs < 2 ^ 63 ↔ z.natAbs < 2 ^ 63 := by
  -- the doubles next to `2^63` and `-2^63`
  have htop : 2 ^ 63 ≤ z → 2 ^ 63 ≤ toDouble (z - 1) := by
    intro hz
    have hmono : toDouble (2 ^ 63 - 1) ≤ toDouble (z - 1) := toDouble_mono (by omega)
    rwa [show toDouble (2 ^ 63 - 1) = 2 ^ 63 by decide] at hmono
  have hdown : z < 2 ^ 63 → toDouble (z - 1) < 2 ^ 63 := by
    intro hz
    have hmono : toDouble (z - 1) ≤ toDouble z := toDouble_mono (by omega)
    omega
  have hbottom : z ≤ -2 ^ 63 → toDouble (z - 1) ≤ -2 ^ 63 := by
    intro hz
    have hmono : toDouble (z - 1) ≤ toDouble z := toDouble_mono (by omega)
    omega
  have hup : -2 ^ 63 < z → -2 ^ 63 < toDouble (z - 1) := by
    intro hz
    have hgap : -2 ^ 63 + 1024 ≤ z := by
      by_contra hlt
      have hle : z ≤ -2 ^ 63 + 1023 := by omega
      by_cases hhalf : z ≤ -2 ^ 63 + 512
      · have hmono := toDouble_mono hhalf
        rw [show toDouble (-2 ^ 63 + 512) = -2 ^ 63 by decide] at hmono
        omega
      · have hmono : toDouble (-2 ^ 63 + 513) ≤ toDouble z := toDouble_mono (by omega)
        rw [show toDouble (-2 ^ 63 + 513) = -2 ^ 63 + 1024 by decide] at hmono
        omega
    have hmono : toDouble (-2 ^ 63 + 1023) ≤ toDouble (z - 1) := toDouble_mono (by omega)
    rw [show toDouble (-2 ^ 63 + 1023) = -2 ^ 63 + 1024 by decide] at hmono
    omega
  omega

end Printed

end DistriSys.Js
