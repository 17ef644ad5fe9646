import Mathlib.Algebra.Order.Floor.Semiring
import Mathlib.Data.Int.Log
import Mathlib.Data.List.DropRight
import Mathlib.Data.Rat.Floor
import Mathlib.Tactic.Linarith

/-!
# Numbers with 53 binary digits

The numbers of ECMAScript that are not negative, as rational numbers: what a sum and a
quotient are rounded to, when they are too large, and how a whole number is written.
Numbers below the normal range do not come up, and are rounded as if there were no end
to it.
-/

namespace Solpg.Std.Double

/-- The nearest whole number, of two equally near ones the even one. -/
def roundHalfEven (value : ℚ) : ℤ :=
  if value < ⌊value⌋ + 1 / 2 then ⌊value⌋
  else if ⌊value⌋ + 1 / 2 < value then ⌊value⌋ + 1
  else if ⌊value⌋ % 2 = 0 then ⌊value⌋ else ⌊value⌋ + 1

/-- The distance between the doubles around a value. -/
def ulp (value : ℚ) : ℚ := 2 ^ (Int.log 2 value - 52)

/-- The nearest number with 53 binary digits. -/
def nearest (value : ℚ) : ℚ := roundHalfEven (value / ulp value) * ulp value

/-- Where the finite doubles end. -/
def overflow : ℚ := 2 ^ 1024

/-- The double of a value, none for `Infinity`. -/
def ofRat (value : ℚ) : Option ℚ := if nearest value < overflow then some (nearest value) else none

/-- `Number.MAX_SAFE_INTEGER`. -/
def maxSafeInteger : Nat := 2 ^ 53 - 1

/-- A whole number that is a double. -/
structure Whole where
  value : Nat
  ofRat_value : ofRat value = some (value : ℚ)
  deriving DecidableEq

/-- The sum of doubles, rounded after each addition. -/
def sumFrom (sum : ℚ) : List Whole → Option ℚ
  | [] => some sum
  | number :: rest => (ofRat (sum + number.value)).bind fun sum => sumFrom sum rest

/-! ## Writing -/

/-- The multiple of the unit that is nearest to a double among those that are read as it. -/
def candidate (number unit : Nat) : Option Nat :=
  let below := number / unit * unit
  let above := below + unit
  let nearer := 2 * (number - below) < unit ∨
    2 * (number - below) = unit ∧ number / unit % 2 = 0
  if nearest below = number ∧ (nearer ∨ nearest above ≠ number) then some below
  else if nearest above = number then some above
  else none

/-- The number of decimal digits. -/
def width (number : Nat) : Nat := (Nat.toDigits 10 number).length

/-- What a double is written as: the number with the fewest digits that is read as it. -/
def written (number : Nat) : Nat :=
  ((List.range (width number)).findSome? fun more =>
    candidate number (10 ^ (width number - 1 - more))).getD number

/-- The decimal point behind the first of several digits. -/
def point : List Char → List Char
  | first :: second :: rest => first :: '.' :: second :: rest
  | digits => digits

/-- The digits without the zeros at their end. -/
def significant (digits : List Char) : List Char := digits.rdropWhile (· == '0')

/-- `Number::toString` of a whole number. -/
def text (number : Nat) : List Char :=
  let digits := Nat.toDigits 10 (written number)
  if digits.length ≤ 21 then digits
  else point (significant digits) ++ 'e' :: '+' :: Nat.toDigits 10 (digits.length - 1)

variable {value other : ℚ} {whole : ℤ}

/-! ## Rounding -/

/-- Rounding goes no further down than the floor. -/
theorem floor_le_roundHalfEven : ⌊value⌋ ≤ roundHalfEven value := by
  unfold roundHalfEven
  split_ifs <;> omega

/-- Rounding goes no further up than the next whole number. -/
theorem roundHalfEven_le_floor_add_one : roundHalfEven value ≤ ⌊value⌋ + 1 := by
  unfold roundHalfEven
  split_ifs <;> omega

/-- Whole numbers are not rounded. -/
@[simp] theorem roundHalfEven_intCast : roundHalfEven (whole : ℚ) = whole := by
  simp [roundHalfEven]

/-- Rounding keeps the order. -/
theorem roundHalfEven_mono (le : value ≤ other) : roundHalfEven value ≤ roundHalfEven other := by
  rcases (Int.floor_mono le).eq_or_lt with same | less
  · unfold roundHalfEven
    rw [same]
    split_ifs <;> first | omega | (exfalso; linarith)
  · exact roundHalfEven_le_floor_add_one.trans (less.trans_le floor_le_roundHalfEven)

/-- The distance of doubles is positive. -/
theorem ulp_pos : 0 < ulp value := zpow_pos (by norm_num) _

/-- What is not negative stays so when it is rounded. -/
theorem nearest_nonneg (nonneg : 0 ≤ value) : 0 ≤ nearest value := by
  have rounded : 0 ≤ roundHalfEven (value / ulp value) := by
    have zero : roundHalfEven ((0 : ℤ) : ℚ) = 0 := roundHalfEven_intCast
    rw [← zero]
    apply roundHalfEven_mono
    simpa using div_nonneg nonneg ulp_pos.le
  exact mul_nonneg (by exact_mod_cast rounded) ulp_pos.le

/-- A multiple of its own distance is a number of 53 digits. -/
theorem nearest_eq_self (whole : ℤ) (multiple : value = whole * ulp value) : nearest value = value := by
  have counted : value / ulp value = whole := by
    rw [div_eq_iff ulp_pos.ne']
    exact multiple
  rw [nearest, counted, roundHalfEven_intCast]
  exact multiple.symm

/-- The distance is the binade over `2 ^ 52`. -/
theorem two_pow_mul_ulp (value : ℚ) (shift : ℤ) :
    (2 : ℚ) ^ (52 + shift) * ulp value = 2 ^ (Int.log 2 value + shift) := by
  rw [ulp, ← zpow_add₀ (by norm_num)]
  congr 1
  omega

/-- What is rounded stays at or above the binade that it is in. -/
theorem pow_log_le_nearest (positive : 0 < value) : (2 : ℚ) ^ Int.log 2 value ≤ nearest value := by
  have scale := two_pow_mul_ulp value 0
  simp only [add_zero] at scale
  have inside : ((2 ^ 52 : ℤ) : ℚ) ≤ value / ulp value := by
    rw [le_div_iff₀ ulp_pos]
    have lower := Int.zpow_log_le_self (b := 2) (by norm_num) positive
    norm_num at lower scale ⊢
    linarith
  have rounded := roundHalfEven_mono inside
  rw [roundHalfEven_intCast] at rounded
  have cast : (2 : ℚ) ^ (52 : ℤ) ≤ roundHalfEven (value / ulp value) := by exact_mod_cast rounded
  rw [← scale]
  exact mul_le_mul_of_nonneg_right cast ulp_pos.le

/-- What is rounded goes no further than the next binade. -/
theorem nearest_le_pow_log : nearest value ≤ (2 : ℚ) ^ (Int.log 2 value + 1) := by
  have scale := two_pow_mul_ulp value 1
  have inside : value / ulp value ≤ ((2 ^ 53 : ℤ) : ℚ) := by
    rw [div_le_iff₀ ulp_pos]
    have upper := Int.lt_zpow_succ_log_self (b := 2) (by norm_num) value
    norm_num at upper scale ⊢
    linarith
  have rounded := roundHalfEven_mono inside
  rw [roundHalfEven_intCast] at rounded
  have cast : (roundHalfEven (value / ulp value) : ℚ) ≤ 2 ^ ((52 : ℤ) + 1) := by
    exact_mod_cast rounded
  rw [← scale]
  exact mul_le_mul_of_nonneg_right cast ulp_pos.le

/-- The double of a larger value is no smaller. -/
theorem nearest_mono (nonneg : 0 ≤ value) (le : value ≤ other) : nearest value ≤ nearest other := by
  rcases nonneg.eq_or_lt with rfl | positive
  · have zero : nearest 0 = 0 := by
      have rounded : roundHalfEven ((0 : ℤ) : ℚ) = 0 := roundHalfEven_intCast
      simpa [nearest] using Or.inl rounded
    rw [zero]
    exact nearest_nonneg le
  · rcases (Int.log_mono_right (b := 2) positive le).eq_or_lt with same | less
    · have distance : ulp value = ulp other := by rw [ulp, ulp, same]
      have scaled : value / ulp other ≤ other / ulp other := by
        rw [div_le_div_iff_of_pos_right ulp_pos]
        exact le
      have rounded : ((roundHalfEven (value / ulp other) : ℤ) : ℚ) ≤
          roundHalfEven (other / ulp other) := by exact_mod_cast roundHalfEven_mono scaled
      rw [nearest, nearest, distance]
      exact mul_le_mul_of_nonneg_right rounded ulp_pos.le
    · calc nearest value ≤ 2 ^ (Int.log 2 value + 1) := nearest_le_pow_log
        _ ≤ 2 ^ Int.log 2 other := zpow_le_zpow_right₀ (by norm_num) (by omega)
        _ ≤ nearest other := pow_log_le_nearest (positive.trans_le le)

/-- Whole numbers below `2 ^ 53` are doubles. -/
theorem nearest_natCast {number : Nat} (small : number < 2 ^ 53) : nearest number = number := by
  have digits : Nat.log 2 number ≤ 52 := by
    rcases Nat.eq_zero_or_pos number with rfl | positive
    · simp
    · exact Nat.le_of_lt_succ (Nat.log_lt_of_lt_pow positive.ne' small)
  have distance : ulp (number : ℚ) * 2 ^ (52 - Nat.log 2 number) = 1 := by
    rw [ulp, Int.log_natCast, ← zpow_natCast, ← zpow_add₀ (by norm_num)]
    rw [show (Nat.log 2 number : ℤ) - 52 + ((52 - Nat.log 2 number : ℕ) : ℤ) = 0 by omega, zpow_zero]
  refine nearest_eq_self (number * 2 ^ (52 - Nat.log 2 number)) ?_
  push_cast
  rw [mul_assoc, mul_comm (2 ^ _ : ℚ), distance, mul_one]

/-- The first whole number behind them is one, too. -/
theorem nearest_two_pow : nearest (2 ^ 53) = 2 ^ 53 := by
  have exponent : Int.log 2 ((2 : ℚ) ^ (53 : ℕ)) = 53 := by
    rw [← zpow_natCast]
    exact Int.log_zpow (by norm_num) 53
  refine nearest_eq_self (2 ^ 52) ?_
  rw [ulp, exponent]
  norm_num

/-- A whole number below `2 ^ 53` is its own double. -/
theorem ofRat_natCast {number : Nat} (small : number < 2 ^ 53) : ofRat number = some (number : ℚ) := by
  have finite : (number : ℚ) < overflow := by
    calc (number : ℚ) < 2 ^ 53 := by exact_mod_cast small
      _ ≤ overflow := pow_le_pow_right₀ (by norm_num) (by norm_num)
  simp [ofRat, nearest_natCast small, finite]

/-- A whole number below `2 ^ 53` as a double. -/
def Whole.ofNat (number : Nat) (small : number < 2 ^ 53) : Whole := ⟨number, ofRat_natCast small⟩

/-- A value has a finite double when what it is rounded to is below the overflow. -/
theorem ofRat_eq_some {double : ℚ} :
    ofRat value = some double ↔ nearest value = double ∧ double < overflow := by
  unfold ofRat
  split_ifs with finite
  · constructor
    · rintro ⟨⟩
      exact ⟨rfl, finite⟩
    · rintro ⟨rfl, -⟩
      rfl
  · simp only [false_iff, not_and]
    rintro rfl
    exact finite

namespace Whole

/-- A double is not rounded. -/
theorem nearest_value (number : Whole) : nearest number.value = number.value :=
  (ofRat_eq_some.mp number.ofRat_value).1

/-- A double is finite. -/
theorem value_lt (number : Whole) : (number.value : ℚ) < overflow :=
  (ofRat_eq_some.mp number.ofRat_value).2

/-- What lies between two doubles is rounded to something between them. -/
theorem nearest_between {least greatest : Whole} (lower : (least.value : ℚ) ≤ value)
    (upper : value ≤ greatest.value) :
    (least.value : ℚ) ≤ nearest value ∧ nearest value ≤ greatest.value := by
  constructor
  · rw [← least.nearest_value]
    exact nearest_mono (Nat.cast_nonneg _) lower
  · rw [← greatest.nearest_value]
    exact nearest_mono ((Nat.cast_nonneg _).trans lower) upper

/-- What lies between two doubles has one. -/
theorem ofRat_between {least greatest : Whole} (lower : (least.value : ℚ) ≤ value)
    (upper : value ≤ greatest.value) : ofRat value = some (nearest value) :=
  ofRat_eq_some.mpr ⟨rfl, (nearest_between lower upper).2.trans_lt greatest.value_lt⟩

end Whole

/-- Sums that stay safe are exact. -/
theorem sumFrom_of_safe {start : Nat} {numbers : List Whole}
    (safe : start + (numbers.map Whole.value).sum ≤ maxSafeInteger) :
    sumFrom start numbers = some ((start + (numbers.map Whole.value).sum : ℕ) : ℚ) := by
  induction numbers generalizing start with
  | nil => simp [sumFrom]
  | cons number rest ih =>
      rw [List.map_cons, List.sum_cons, ← add_assoc] at safe ⊢
      have small : start + number.value < 2 ^ 53 := by
        simp only [maxSafeInteger] at safe
        omega
      rw [sumFrom, ← Nat.cast_add, ofRat_natCast small, Option.bind_some, ih safe]

/-! ## What is written tells the number -/

/-- A candidate is read as the number it is for. -/
theorem nearest_of_candidate {number unit chosen : Nat}
    (found : candidate number unit = some chosen) : nearest chosen = number := by
  simp only [candidate] at found
  split_ifs at found with below above
  · obtain rfl := Option.some.inj found
    exact below.1
  · obtain rfl := Option.some.inj found
    exact above

/-- What a double is written as is read as it. -/
theorem Whole.nearest_written (number : Whole) : nearest (written number.value) = number.value := by
  rw [written]
  cases found : (List.range (width number.value)).findSome? fun more =>
      candidate number.value (10 ^ (width number.value - 1 - more)) with
  | none => exact number.nearest_value
  | some chosen =>
      obtain ⟨more, -, picked⟩ := List.exists_of_findSome?_eq_some found
      exact nearest_of_candidate picked

/-- A whole number that is rounded to one below `2 ^ 53` is that one. -/
theorem eq_of_nearest {number chosen : Nat} (small : number < 2 ^ 53)
    (read : nearest chosen = number) : chosen = number := by
  by_cases below : chosen < 2 ^ 53
  · rw [nearest_natCast below] at read
    exact_mod_cast read
  · have edge : (2 : ℚ) ^ 53 ≤ chosen := by exact_mod_cast not_lt.mp below
    have rounded := nearest_mono (by norm_num) edge
    rw [nearest_two_pow, read] at rounded
    have large : 2 ^ 53 ≤ number := by exact_mod_cast rounded
    omega

/-- Below `2 ^ 53` a number is written with all of its digits. -/
theorem text_of_small {number : Nat} (small : number < 2 ^ 53) :
    text number = Nat.toDigits 10 number := by
  have same : written number = number :=
    eq_of_nearest small (Whole.ofNat number small).nearest_written
  have short : (Nat.toDigits 10 number).length ≤ 21 := by
    rw [Nat.length_toDigits_le_iff (by decide) (by decide)]
    omega
  simp only [text, same, short, if_true]

/-- A number is known by its digits. -/
theorem toDigits_injective : Function.Injective (Nat.toDigits 10) := by
  intro first second same
  simpa using congrArg (Nat.ofDigitChars 10 · 0) same

/-- Digits are nothing but digits. -/
theorem not_mem_toDigits {char : Char} {number : Nat} (other : char.isDigit = false) :
    char ∉ Nat.toDigits 10 number := by
  intro among
  have digit := Nat.isDigit_of_mem_toDigits (by decide) (by decide) among
  simp [other] at digit

/-- The decimal point can be taken out again. -/
theorem point_injective : Function.Injective point := by
  intro first second same
  rcases first with _ | ⟨one, _ | ⟨two, rest⟩⟩ <;> rcases second with _ | ⟨one', _ | ⟨two', rest'⟩⟩ <;>
    simp_all [point]

/-- Besides the digits there is only the point. -/
theorem mem_point {char : Char} {digits : List Char} (among : char ∈ point digits) :
    char = '.' ∨ char ∈ digits := by
  rcases digits with _ | ⟨one, _ | ⟨two, rest⟩⟩
  · exact .inr among
  · exact .inr among
  · simp only [point, List.mem_cons] at among ⊢
    tauto

/-- The exponent has no letter of its own. -/
theorem letter_not_mem_exponent {number : Nat} : 'e' ∉ '+' :: Nat.toDigits 10 number := by
  rw [List.mem_cons, not_or]
  exact ⟨by decide, not_mem_toDigits (by decide)⟩

/-- There is no letter in front of the exponent. -/
theorem letter_not_mem_point {number : Nat} :
    'e' ∉ point (significant (Nat.toDigits 10 number)) := by
  intro among
  rcases mem_point among with dot | digit
  · cases dot
  · exact not_mem_toDigits (by decide) ((List.rdropWhile_prefix _ _).subset digit)

/-- The digits are the significant ones and zeros. -/
theorem significant_append_zeros (digits : List Char) :
    significant digits ++ List.replicate (digits.length - (significant digits).length) '0' =
      digits := by
  obtain ⟨zeros, split⟩ := List.rdropWhile_prefix (· == '0') (l := digits)
  have all : ∀ char ∈ zeros, char = '0' := by
    have reversed : zeros.reverse = digits.reverse.takeWhile (· == '0') := by
      have parts := List.takeWhile_append_dropWhile (p := (· == '0')) (l := digits.reverse)
      have whole := congrArg List.reverse split
      rw [List.reverse_append, ← parts] at whole
      rw [List.rdropWhile, List.reverse_reverse] at whole
      exact List.append_cancel_right whole
    intro char among
    have taken : char ∈ digits.reverse.takeWhile (· == '0') := by
      rw [← reversed]
      exact List.mem_reverse.mpr among
    simpa using List.mem_takeWhile_imp taken
  have length : digits.length - (significant digits).length = zeros.length := by
    have total := congrArg List.length split
    rw [List.length_append] at total
    exact (Nat.sub_eq_of_eq_add' total.symm)
  rw [length, ← List.eq_replicate_of_mem all]
  exact split

/-- Two doubles are not written alike. -/
theorem Whole.eq_of_text {first second : Whole} (same : text first.value = text second.value) :
    first = second := by
  have digits : Nat.toDigits 10 (written first.value) = Nat.toDigits 10 (written second.value) := by
    have plain {number other : Nat} : Nat.toDigits 10 number ≠
        point (significant (Nat.toDigits 10 other)) ++
          'e' :: '+' :: Nat.toDigits 10 ((Nat.toDigits 10 other).length - 1) := by
      intro equal
      have absent : 'e' ∉ Nat.toDigits 10 number := not_mem_toDigits (by decide)
      rw [equal] at absent
      simp at absent
    simp only [text] at same
    split_ifs at same
    · exact same
    · exact absurd same plain
    · exact absurd same.symm plain
    · obtain ⟨mantissa, -, exponent⟩ :=
        (List.append_cons_inj_of_notMem letter_not_mem_point letter_not_mem_exponent).mp same
      have length := toDigits_injective (List.cons.inj exponent).2
      rw [← significant_append_zeros (Nat.toDigits 10 (written first.value)),
        ← significant_append_zeros (Nat.toDigits 10 (written second.value)),
        point_injective mantissa]
      congr 2
      omega
  have read : (first.value : ℚ) = second.value := by
    rw [← first.nearest_written, ← second.nearest_written, toDigits_injective digits]
  cases first
  cases second
  simpa using read

end Solpg.Std.Double
