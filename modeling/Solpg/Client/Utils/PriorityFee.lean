import Mathlib.Algebra.Order.BigOperators.Group.List
import Mathlib.Data.List.Lex
import Mathlib.Data.Char
import Mathlib.Tactic.FieldSimp
import Solpg.Std.Double
import Solpg.Std.Rank
import Solpg.Std.Text

/-!
# Priority fees

The figures that `PgTx` computes from the recent prioritization fees, with sums and
quotients of doubles. The fees are sorted as texts, which is what `sort` does without a
comparison.
-/

namespace Solpg.Client.Utils

open Solpg.Std

/-- A number that comes out of the figures, or `undefined`. -/
inductive Figure where
  | number (value : Nat)
  | infinity
  | minusInfinity
  | notANumber
  | undefined
  deriving DecidableEq, Repr

/-- The figures of the cached value. -/
structure PriorityFee where
  min : Figure
  max : Figure
  average : Figure
  median : Figure
  deriving DecidableEq, Repr

/-- A prioritization fee, as the number that it arrives as. -/
abbrev Fee := Double.Whole

/-- The fees as whole numbers. -/
def feeValues (fees : List Fee) : List Nat := fees.map Double.Whole.value

/-- A fee as text. -/
def decimal (fee : Fee) : Text := Double.text fee.value

/-- `sort` without a comparison. -/
def sortFees (fees : List Fee) : List Fee :=
  fees.insertionSort fun first second => decimal first ≤ decimal second

/-- The sum of the fees over their number, both as doubles; none for `Infinity`. -/
def meanFee (fees : List Fee) : Option ℚ :=
  (Double.sumFrom 0 fees).bind fun sum => Double.ofRat (sum / fees.length)

/-- What `_getPriorityFee` computes. -/
def priorityFee (result : List Fee) : PriorityFee :=
  let fees := sortFees result
  { min := (feeValues fees).min?.elim .infinity .number
    max := (feeValues fees).max?.elim .minusInfinity .number
    average :=
      if fees.length = 0 then .notANumber
      else (meanFee fees).elim .infinity fun quotient => .number ⌈quotient⌉₊
    median := fees[fees.length / 2]?.elim .undefined fun fee => .number fee.value }

/-- At least half of the fees are not above the median, and at least half are not below it. -/
structure IsMedian (fees : List Nat) (median : Nat) : Prop where
  lower : fees.length ≤ 2 * fees.countP (· ≤ median)
  upper : fees.length ≤ 2 * fees.countP (median ≤ ·)

/-- The figures are whole numbers in their order, and the median is one. -/
def Sound (fees : List Nat) (figures : PriorityFee) : Prop :=
  ∃ least greatest average median,
    figures = ⟨.number least, .number greatest, .number average, .number median⟩ ∧
      least ≤ median ∧ median ≤ greatest ∧ least ≤ average ∧ average ≤ greatest ∧
      IsMedian fees median

/-- A median of the fees stands in the middle of their texts. -/
def MedianInMiddle (fees : List Fee) : Prop :=
  ∃ fee ∈ fees, IsMedian (feeValues fees) fee.value ∧ StandsAt decimal fees (fees.length / 2) fee

/-- Rounding does not take the mean out of what the fees span. -/
def MeanStays (fees : List Fee) : Prop :=
  ∃ quotient, meanFee (sortFees fees) = some quotient ∧
    (∃ fee ∈ feeValues fees, (fee : ℚ) < quotient + 1) ∧ ∃ fee ∈ feeValues fees, quotient ≤ fee

variable {fees : List Fee} {fee : Fee} {median : Nat}

/-! ## The sorted fees -/

/-- Sorting keeps the fees. -/
theorem sortFees_perm : (sortFees fees).Perm fees := List.perm_insertionSort _ _

theorem feeValues_sortFees_perm : (feeValues (sortFees fees)).Perm (feeValues fees) := sortFees_perm.map _

/-- Their texts are in order. -/
theorem sortFees_sorted :
    (sortFees fees).Pairwise fun first second => decimal first ≤ decimal second := by
  have total : Std.Total fun first second => decimal first ≤ decimal second :=
    ⟨fun first second => le_total (decimal first) (decimal second)⟩
  have trans : IsTrans Fee fun first second => decimal first ≤ decimal second :=
    ⟨fun _ _ _ => le_trans⟩
  exact List.pairwise_insertionSort _ _

/-- The fee in the middle of the texts. -/
theorem priorityFee_median_iff : (priorityFee fees).median = .number median ↔
    ∃ fee ∈ fees, fee.value = median ∧ StandsAt decimal fees (fees.length / 2) fee := by
  have length : (sortFees fees).length = fees.length := sortFees_perm.length_eq
  have stands : ∀ bound : fees.length / 2 < (sortFees fees).length,
      StandsAt decimal fees (fees.length / 2) (sortFees fees)[fees.length / 2] := fun bound =>
    (StandsAt.congr_perm sortFees_perm).mp (standsAt_getElem sortFees_sorted bound)
  constructor
  · intro computed
    obtain ⟨fee, found, same⟩ : ∃ fee, (sortFees fees)[fees.length / 2]? = some fee ∧
        fee.value = median := by
      simp only [priorityFee, length] at computed
      cases read : (sortFees fees)[fees.length / 2]? with
      | none => simp [read] at computed
      | some fee => exact ⟨fee, rfl, by simpa [read] using computed⟩
    obtain ⟨bound, rfl⟩ := List.getElem?_eq_some_iff.mp found
    exact ⟨_, sortFees_perm.mem_iff.mp (List.getElem_mem bound), same, stands bound⟩
  · rintro ⟨fee, among, rfl, standing⟩
    have bound : fees.length / 2 < (sortFees fees).length := by
      have positive := List.length_pos_of_mem among
      omega
    have same : (sortFees fees)[fees.length / 2] = fee :=
      Double.Whole.eq_of_text ((stands bound).key_eq standing)
    simp only [priorityFee, length, List.getElem?_eq_getElem bound, same]
    rfl

/-! ## The bounds -/

/-- The least fee is one of them, and below all of them. -/
theorem priorityFee_min (nonempty : feeValues fees ≠ []) :
    ∃ least ∈ feeValues fees, (priorityFee fees).min = .number least ∧
      ∀ value ∈ feeValues fees, least ≤ value := by
  have found : (feeValues (sortFees fees)).min? ≠ none := by
    rw [ne_eq, List.min?_eq_none_iff]
    exact fun empty => nonempty (List.Perm.nil_eq (empty ▸ feeValues_sortFees_perm)).symm
  obtain ⟨least, found⟩ := Option.ne_none_iff_exists'.mp found
  obtain ⟨among, lower⟩ := List.min?_eq_some_iff.mp found
  refine ⟨least, feeValues_sortFees_perm.mem_iff.mp among, by simp [priorityFee, found], ?_⟩
  exact fun value member => lower value (feeValues_sortFees_perm.mem_iff.mpr member)

/-- The greatest fee is one of them, and above all of them. -/
theorem priorityFee_max (nonempty : feeValues fees ≠ []) :
    ∃ greatest ∈ feeValues fees, (priorityFee fees).max = .number greatest ∧
      ∀ value ∈ feeValues fees, value ≤ greatest := by
  have found : (feeValues (sortFees fees)).max? ≠ none := by
    rw [ne_eq, List.max?_eq_none_iff]
    exact fun empty => nonempty (List.Perm.nil_eq (empty ▸ feeValues_sortFees_perm)).symm
  obtain ⟨greatest, found⟩ := Option.ne_none_iff_exists'.mp found
  obtain ⟨among, upper⟩ := List.max?_eq_some_iff.mp found
  refine ⟨greatest, feeValues_sortFees_perm.mem_iff.mp among, by simp [priorityFee, found], ?_⟩
  exact fun value member => upper value (feeValues_sortFees_perm.mem_iff.mpr member)

/-! ## The average -/

/-- The average of some fees is the rounded mean, or infinite. -/
theorem priorityFee_average_iff {average : Nat} (nonempty : feeValues fees ≠ []) :
    (priorityFee fees).average = .number average ↔
      ∃ quotient, meanFee (sortFees fees) = some quotient ∧ ⌈quotient⌉₊ = average := by
  have counted : (sortFees fees).length ≠ 0 := by
    rw [sortFees_perm.length_eq, ne_eq, List.length_eq_zero_iff]
    exact fun empty => nonempty (by simp [feeValues, empty])
  simp only [priorityFee, counted, if_false]
  cases meanFee (sortFees fees) <;> simp

/-- A rounded up mean is in between when the mean hardly leaves the bounds. -/
theorem ceil_between_iff {quotient : ℚ} {least greatest : Nat} (leastIn : least ∈ feeValues fees)
    (greatestIn : greatest ∈ feeValues fees) (lower : ∀ value ∈ feeValues fees, least ≤ value)
    (upper : ∀ value ∈ feeValues fees, value ≤ greatest) (nonneg : 0 ≤ quotient) :
    least ≤ ⌈quotient⌉₊ ∧ ⌈quotient⌉₊ ≤ greatest ↔
      (∃ fee ∈ feeValues fees, (fee : ℚ) < quotient + 1) ∧ ∃ fee ∈ feeValues fees, quotient ≤ fee := by
  rw [Nat.ceil_le]
  constructor
  · rintro ⟨above, below⟩
    have next : (⌈quotient⌉₊ : ℚ) < quotient + 1 := Nat.ceil_lt_add_one nonneg
    have cast : (least : ℚ) ≤ ⌈quotient⌉₊ := by exact_mod_cast above
    exact ⟨⟨least, leastIn, cast.trans_lt next⟩, greatest, greatestIn, below⟩
  · rintro ⟨⟨low, lowIn, above⟩, high, highIn, below⟩
    have next : (low : ℚ) < ((⌈quotient⌉₊ + 1 : ℕ) : ℚ) := by
      push_cast
      linarith [Nat.le_ceil quotient]
    have last : low < ⌈quotient⌉₊ + 1 := by exact_mod_cast next
    have top : (high : ℚ) ≤ greatest := by exact_mod_cast upper high highIn
    exact ⟨(lower low lowIn).trans (Nat.le_of_lt_succ last), below.trans top⟩

theorem mean_nonneg {quotient : ℚ} (computed : meanFee fees = some quotient) : 0 ≤ quotient := by
  have sums : ∀ (start sum : ℚ) (fees : List Fee), 0 ≤ start →
      Double.sumFrom start fees = some sum → 0 ≤ sum := by
    intro start sum fees
    induction fees generalizing start with
    | nil =>
        rintro nonneg ⟨⟩
        exact nonneg
    | cons fee rest ih =>
        intro nonneg added
        obtain ⟨next, rounded, added⟩ := Option.bind_eq_some_iff.mp added
        apply ih next _ added
        rw [← (Double.ofRat_eq_some.mp rounded).1]
        exact Double.nearest_nonneg (by positivity)
  obtain ⟨sum, added, divided⟩ := Option.bind_eq_some_iff.mp computed
  rw [← (Double.ofRat_eq_some.mp divided).1]
  exact Double.nearest_nonneg (div_nonneg (sums 0 sum fees le_rfl added) (Nat.cast_nonneg _))

/-- A mean that is not rounded lies between the bounds of what is averaged. -/
theorem mean_between {least greatest : Nat} (nonempty : feeValues fees ≠ [])
    (lower : ∀ value ∈ feeValues fees, least ≤ value) (upper : ∀ value ∈ feeValues fees, value ≤ greatest) :
    (least : ℚ) ≤ (feeValues fees).sum / fees.length ∧
      ((feeValues fees).sum : ℚ) / fees.length ≤ greatest := by
  have count : (feeValues fees).length = fees.length := by simp [feeValues]
  have positive : (0 : ℚ) < fees.length := by
    rw [← count]
    exact_mod_cast List.length_pos_iff.mpr nonempty
  have atLeast : fees.length * least ≤ (feeValues fees).sum := by
    simpa [count] using List.card_nsmul_le_sum (feeValues fees) least lower
  have atMost : (feeValues fees).sum ≤ fees.length * greatest := by
    simpa [count] using List.sum_le_card_nsmul (feeValues fees) greatest upper
  rw [le_div_iff₀ positive, div_le_iff₀ positive, mul_comm, mul_comm (greatest : ℚ)]
  exact ⟨by exact_mod_cast atLeast, by exact_mod_cast atMost⟩

/-- Fees whose sum is a safe integer have a mean that no rounding takes out of their span. -/
theorem meanStays_of_safe (safe : (feeValues fees).sum ≤ Double.maxSafeInteger)
    (nonempty : feeValues fees ≠ []) : MeanStays fees := by
  obtain ⟨least, leastIn, -, lower⟩ := priorityFee_min nonempty
  obtain ⟨greatest, greatestIn, -, upper⟩ := priorityFee_max nonempty
  obtain ⟨low, -, rfl⟩ := List.mem_map.mp leastIn
  obtain ⟨high, -, rfl⟩ := List.mem_map.mp greatestIn
  obtain ⟨above, below⟩ := mean_between nonempty lower upper
  have sorted : (feeValues (sortFees fees)).sum = (feeValues fees).sum := feeValues_sortFees_perm.sum_eq
  have added : Double.sumFrom 0 (sortFees fees) = some ((feeValues fees).sum : ℚ) := by
    have exactly := @Double.sumFrom_of_safe 0 (sortFees fees)
    rw [zero_add, Nat.cast_zero] at exactly
    rw [← sorted]
    exact exactly (sorted ▸ safe)
  have divided : meanFee (sortFees fees) =
      some (Double.nearest ((feeValues fees).sum / fees.length)) := by
    rw [meanFee, added, Option.bind_some, sortFees_perm.length_eq]
    exact Double.Whole.ofRat_between above below
  obtain ⟨stillAbove, stillBelow⟩ := Double.Whole.nearest_between above below
  exact ⟨_, divided, ⟨low.value, leastIn, by linarith⟩, high.value, greatestIn, stillBelow⟩

/-! ## The figures -/

/-- The figures are sound when a median of the fees stands in the middle of their texts and
rounding keeps the mean. -/
theorem sound_iff : Sound (feeValues fees) (priorityFee fees) ↔ MedianInMiddle fees ∧ MeanStays fees := by
  constructor
  · rintro ⟨least, greatest, average, median, computed, -, -, least_le, le_greatest, middle⟩
    obtain ⟨fee, among, rfl, standing⟩ :=
      priorityFee_median_iff.mp (congrArg PriorityFee.median computed)
    have nonempty : feeValues fees ≠ [] := List.ne_nil_of_mem (List.mem_map_of_mem among)
    obtain ⟨least', leastIn, leastEq, lower⟩ := priorityFee_min nonempty
    obtain ⟨greatest', greatestIn, greatestEq, upper⟩ := priorityFee_max nonempty
    obtain rfl : least' = least :=
      Figure.number.inj (leastEq.symm.trans (congrArg PriorityFee.min computed))
    obtain rfl : greatest' = greatest :=
      Figure.number.inj (greatestEq.symm.trans (congrArg PriorityFee.max computed))
    obtain ⟨quotient, divided, rfl⟩ :=
      (priorityFee_average_iff nonempty).mp (congrArg PriorityFee.average computed)
    obtain ⟨above, below⟩ := (ceil_between_iff leastIn greatestIn lower upper
      (mean_nonneg divided)).mp ⟨least_le, le_greatest⟩
    exact ⟨⟨fee, among, middle, standing⟩, quotient, divided, above, below⟩
  · rintro ⟨⟨fee, among, middle, standing⟩, quotient, divided, above, below⟩
    have valueIn : fee.value ∈ feeValues fees := List.mem_map_of_mem among
    have nonempty : feeValues fees ≠ [] := List.ne_nil_of_mem valueIn
    obtain ⟨least, leastIn, leastEq, lower⟩ := priorityFee_min nonempty
    obtain ⟨greatest, greatestIn, greatestEq, upper⟩ := priorityFee_max nonempty
    obtain ⟨least_le, le_greatest⟩ := (ceil_between_iff leastIn greatestIn lower upper
      (mean_nonneg divided)).mpr ⟨above, below⟩
    refine ⟨least, greatest, _, fee.value, ?_, lower _ valueIn, upper _ valueIn, least_le,
      le_greatest, middle⟩
    rw [← leastEq, ← greatestEq,
      ← (priorityFee_average_iff nonempty).mpr ⟨quotient, divided, rfl⟩,
      ← priorityFee_median_iff.mpr ⟨fee, among, rfl, standing⟩]

/-- The figures are sound exactly when a median of the fees stands in the middle of their texts
and rounding keeps the mean; as long as the sum is a safe integer, the median alone decides. -/
theorem priorityFee_sound_iff (fees : List Fee) :
    (Sound (feeValues fees) (priorityFee fees) ↔ MedianInMiddle fees ∧ MeanStays fees) ∧
      ((feeValues fees).sum ≤ Double.maxSafeInteger →
        (Sound (feeValues fees) (priorityFee fees) ↔ MedianInMiddle fees)) := by
  refine ⟨sound_iff, fun safe => ?_⟩
  rw [sound_iff]
  constructor
  · exact And.left
  · rintro ⟨fee, among, rest⟩
    exact ⟨⟨fee, among, rest⟩, meanStays_of_safe safe (List.ne_nil_of_mem (List.mem_map_of_mem among))⟩

/-- Fees of one and of two digits. -/
def shortFees : List Fee := [.ofNat 8 (by decide), .ofNat 9 (by decide), .ofNat 10 (by decide)]

/-- The text of 10 comes before those of 8 and 9, which leaves 8 in the middle. -/
theorem not_always_sound : ¬ ∀ fees, Sound (feeValues fees) (priorityFee fees) := by
  intro sound
  obtain ⟨least, greatest, average, median, computed, -, -, -, -, middle⟩ := sound shortFees
  have value : (priorityFee shortFees).median = .number 8 := by
    refine priorityFee_median_iff.mpr ⟨_, List.mem_cons_self, rfl, ?_⟩
    have texts (number : Nat) (small : number < 2 ^ 53) :
        decimal (.ofNat number small) = Nat.toDigits 10 number := Double.text_of_small small
    simp only [StandsAt, shortFees, List.countP_cons, List.countP_nil, texts]
    decide
  obtain rfl : 8 = median := Figure.number.inj (value.symm.trans (congrArg PriorityFee.median computed))
  have lower := middle.lower
  revert lower
  decide

end Solpg.Client.Utils
