import Mathlib.Data.List.TakeWhile
import Mathlib.Tactic.Common

/-!
# JavaScript numbers, as far as records carry them

Job records are flat string hashes: numbers go in through `Number.toString` and
come back through `parseInt(_, 10)`. The two are inverse on integers only, so
the model keeps them apart.

`JsNumber` lists the shapes ECMAScript's `Number::toString` prints: integers,
decimal fractions, exponent notation (from `1e21` up and below `1e-6`) and the
two special values.

Integers are exact here, and `parseInt` and `addOne` do not round. For the counts and times
of a record that is what doubles do, since these are safe integers (below `2^53` in absolute
value; `toDouble_of_safe` and `toDouble_add_one` in `Js/Double`): an attempt number is counted
up from zero, one for each run of the job. Where a number comes from outside and may be larger
(the query parameters of a listing, the attempts field of a record nobody vouches for), the
statements say what doubles do with it.
-/

namespace DistriSys.Js

/-- A decimal digit. -/
abbrev Digit := Fin 10

/-- A JavaScript number in the shape `toString` prints it. -/
inductive JsNumber where
  | nan
  | infinity
  /-- An integer printed without exponent. -/
  | int (z : Int)
  /-- `i.f`, a positive number with a fraction part. -/
  | frac (i : Nat) (f : List Digit)
  /-- `d.f` times ten to the `e`, printed with an exponent. -/
  | exp (d : Digit) (f : List Digit) (e : Int)
deriving DecidableEq

namespace JsNumber

instance (n : Nat) : OfNat JsNumber n := ⟨.int n⟩

def digits (f : List Digit) : String := String.ofList (f.map fun d : Digit => d.val.digitChar)

/-- `Number.prototype.toString`. -/
def toString : JsNumber → String
  | nan => "NaN"
  | infinity => "Infinity"
  | int z => ToString.toString z
  | frac i f => ToString.toString i ++ "." ++ digits f
  | exp d f e =>
    digits [d] ++ (if f = [] then "" else "." ++ digits f) ++
      (if 0 ≤ e then "e+" else "e-") ++ ToString.toString e.natAbs

/-- The fraction `0.f`. -/
def fraction (f : List Digit) : Rat := f.foldr (fun d q => (q + (d.val : Rat)) / 10) 0

/-- The value of a finite number. -/
def toRat : JsNumber → Rat
  | nan => 0
  | infinity => 0
  | int z => z
  | frac i f => i + fraction f
  | exp d f e => (d.val + fraction f) * (10 : Rat) ^ e

/-- The operator `<`: false as soon as one side is `NaN`. -/
def lt : JsNumber → JsNumber → Bool
  | nan, _ => false
  | _, nan => false
  | infinity, _ => false
  | _, infinity => true
  | int a, int b => decide (a < b)
  | a, b => decide (a.toRat < b.toRat)

/-- `n + 1`. A number from `1e21` up absorbs the one. -/
def addOne : JsNumber → JsNumber
  | nan => nan
  | infinity => infinity
  | int z => int (z + 1)
  | frac i f => frac (i + 1) f
  | exp d f e => if 0 ≤ e then exp d f e else frac 1 (List.replicate (e.natAbs - 1) 0 ++ d :: f)

/-- The count an attempt number stands for. -/
def toNat : JsNumber → Nat
  | int z => z.toNat
  | _ => 0

@[simp] theorem lt_int (a b : Int) : (int a).lt (int b) = decide (a < b) := rfl

@[simp] theorem addOne_int (z : Int) : (int z).addOne = int (z + 1) := rfl

@[simp] theorem toString_natCast (n : Nat) : (int n).toString = Nat.repr n := rfl

end JsNumber

/-! ## `parseInt` -/

/-- ECMAScript white space and line terminators. -/
def isSpace (c : Char) : Bool :=
  decide (9 ≤ c.toNat ∧ c.toNat ≤ 13 ∨ 0x2000 ≤ c.toNat ∧ c.toNat ≤ 0x200A) ||
    decide (c.toNat ∈ [0x20, 0xA0, 0x1680, 0x2028, 0x2029, 0x202F, 0x205F, 0x3000, 0xFEFF])

/-- The value of the leading digits, `NaN` when there are none. -/
def parseDigits (neg : Bool) (cs : List Char) : JsNumber :=
  match cs.takeWhile Char.isDigit with
  | [] => .nan
  | ds => .int (if neg then -(Nat.ofDigitChars 10 ds 0 : Int) else Nat.ofDigitChars 10 ds 0)

/-- `parseInt(s, 10)`: white space, an optional sign, then as many digits as there are. -/
def parseInt (s : String) : JsNumber :=
  match s.toList.dropWhile isSpace with
  | '-' :: cs => parseDigits true cs
  | '+' :: cs => parseDigits false cs
  | cs => parseDigits false cs

/-- `parseInt` of a hash field; `undefined` has no leading digits. -/
def parseIntField (field : Option String) : JsNumber := field.elim .nan parseInt

theorem takeWhile_isDigit_toDigits (n : Nat) :
    (Nat.toDigits 10 n).takeWhile Char.isDigit = Nat.toDigits 10 n :=
  List.takeWhile_eq_self_iff.mpr fun _ hc =>
    Nat.isDigit_of_mem_toDigits (by decide) (by decide) hc

/-- A digit is neither white space nor a sign. -/
theorem not_isSpace_of_isDigit {c : Char} (h : c.isDigit = true) :
    isSpace c = false ∧ c ≠ '-' ∧ c ≠ '+' := by
  have hval : 48 ≤ c.toNat ∧ c.toNat ≤ 57 := by
    simpa [Char.isDigit, UInt32.le_iff_toNat_le] using h
  refine ⟨?_, ?_, ?_⟩
  · simp only [isSpace, Bool.or_eq_false_iff, decide_eq_false_iff_not, List.mem_cons,
      List.not_mem_nil, or_false]
    omega
  · rintro rfl
    exact absurd h (by decide)
  · rintro rfl
    exact absurd h (by decide)

/-- `parseInt` stops at the first character that is no digit. -/
theorem parseInt_repr_append (n : Nat) {rest : String}
    (h : rest.toList.takeWhile Char.isDigit = []) : parseInt (Nat.repr n ++ rest) = .int n := by
  have hlist : (Nat.repr n ++ rest).toList = Nat.toDigits 10 n ++ rest.toList := by
    rw [String.toList_append, Nat.toList_repr]
  have hdigits : (Nat.toDigits 10 n ++ rest.toList).takeWhile Char.isDigit = Nat.toDigits 10 n := by
    rw [List.takeWhile_append_of_pos, h, List.append_nil]
    exact fun _ hc => Nat.isDigit_of_mem_toDigits (by decide) (by decide) hc
  obtain ⟨c, cs, hcs⟩ : ∃ c cs, Nat.toDigits 10 n = c :: cs :=
    List.exists_cons_of_ne_nil Nat.toDigits_ne_nil
  have hc : c.isDigit = true :=
    Nat.isDigit_of_mem_toDigits (b := 10) (n := n) (by decide) (by decide)
      (hcs ▸ List.mem_cons_self)
  obtain ⟨hspace, hminus, hplus⟩ := not_isSpace_of_isDigit hc
  have hparse : parseDigits false (Nat.toDigits 10 n ++ rest.toList) = .int n := by
    rw [parseDigits, hdigits, hcs, ← hcs]
    simp
  rw [parseInt, hlist, hcs, List.cons_append, List.dropWhile_cons_of_neg (by simp [hspace])]
  split
  · next h => exact absurd (List.cons.inj h).1 hminus
  · next h => exact absurd (List.cons.inj h).1 hplus
  · rw [← List.cons_append, ← hcs, hparse]

/-- `parseInt` undoes `toString` on the natural numbers. -/
@[simp] theorem parseInt_repr (n : Nat) : parseInt (Nat.repr n) = .int n := by
  have h := parseInt_repr_append n (show "".toList.takeWhile Char.isDigit = [] from rfl)
  rwa [String.append_empty] at h

/-- `parseInt` undoes `toString` on all integers. -/
theorem parseInt_toString (z : Int) : parseInt (JsNumber.int z).toString = .int z := by
  cases z with
  | ofNat n => exact parseInt_repr n
  | negSucc n =>
    have hlist : (JsNumber.int (.negSucc n)).toString.toList = '-' :: Nat.toDigits 10 (n + 1) := by
      show ("-" ++ Nat.repr (n + 1)).toList = _
      rw [String.toList_append, Nat.toList_repr]
      rfl
    have hdigits := takeWhile_isDigit_toDigits (n + 1)
    obtain ⟨c, cs, hcs⟩ : ∃ c cs, Nat.toDigits 10 (n + 1) = c :: cs :=
      List.exists_cons_of_ne_nil Nat.toDigits_ne_nil
    rw [parseInt, hlist, List.dropWhile_cons_of_neg (by decide)]
    show parseDigits true (Nat.toDigits 10 (n + 1)) = _
    rw [parseDigits, hdigits, hcs, ← hcs]
    simp [Int.negSucc_eq]

@[simp] theorem parseIntField_repr (n : Nat) : parseIntField (some (Nat.repr n)) = .int n :=
  parseInt_repr n

example : parseInt " 12px" = 12 := by decide
example : parseInt (JsNumber.toString (.exp 1 [] 21)) = 1 := by decide

end DistriSys.Js
