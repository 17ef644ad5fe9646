import Solpg.Client.Utils.ProgramInteraction.IdlPrimitives

/-!
# Which random integers can be drawn

`generateRandomBigInt` draws each byte of the width of an interval for itself, so that it reaches
the whole interval only when nothing is above the bytes that it draws, and all but the highest of
them can be anything.
-/

namespace Solpg.Client.Utils

open Solpg.Std PgCommon

namespace PgCommon

variable {width top count value : Nat}

theorem gives_generateRandomInt {bound draw : Nat} :
    (generateRandomInt 0 bound).Gives (.ok draw) ↔ draw ≤ bound := by
  rw [generateRandomInt, Random.gives_map_ok]
  constructor
  · rintro ⟨drawn, gives, rfl⟩
    have := Random.gives_upTo.mp gives
    omega
  · intro within
    exact ⟨draw, Random.gives_upTo.mpr (by omega), (Nat.zero_add draw).symm⟩

/-- The lowest byte is drawn for itself. -/
theorem gives_drawBytes_cons {byte : Nat} {rest : List Nat} :
    (drawBytes (byte :: rest)).Gives (.ok value) ↔
      ∃ low ≤ byte, ∃ high, (drawBytes rest).Gives (.ok high) ∧ value = low + 256 * high := by
  by_cases zero : byte = 0
  · subst zero
    rw [drawBytes, if_pos rfl, Random.gives_map_ok]
    simp
  · rw [drawBytes, if_neg zero, Random.gives_bind_ok]
    simp only [gives_generateRandomInt, Random.gives_map_ok]

/-- Every number up to the width can be drawn. -/
def Reaches (width : Nat) : Prop :=
  ∀ value ≤ width, (drawBytes (Nat.digits 256 width)).Gives (.ok value)

theorem reaches_of_lt (small : width < 256) : Reaches width := by
  intro value within
  rcases Nat.eq_zero_or_pos width with rfl | positive
  · obtain rfl : value = 0 := by omega
    simp [drawBytes]
  · rw [Nat.digits_of_lt 256 width positive.ne' small, gives_drawBytes_cons]
    exact ⟨value, within, 0, by simp [drawBytes], by omega⟩

/-- Beyond one byte, the lowest byte has to be full. -/
theorem reaches_step (large : 256 ≤ width) :
    Reaches width ↔ width % 256 = 255 ∧ Reaches (width / 256) := by
  have digits : Nat.digits 256 width = width % 256 :: Nat.digits 256 (width / 256) :=
    Nat.digits_def' (by omega) (by omega)
  constructor
  · intro reaches
    constructor
    · have gives := reaches 255 (by omega)
      rw [digits, gives_drawBytes_cons] at gives
      obtain ⟨low, within, high, -, same⟩ := gives
      omega
    · intro value within
      have gives := reaches (256 * value) (by omega)
      rw [digits, gives_drawBytes_cons] at gives
      obtain ⟨low, within, high, gives, same⟩ := gives
      obtain rfl : high = value := by omega
      exact gives
  · rintro ⟨full, reaches⟩ value within
    rw [digits, gives_drawBytes_cons]
    refine ⟨value % 256, by omega, value / 256, reaches _ (by omega), ?_⟩
    omega

/-- The width is a byte with full bytes below it. -/
def FullBelow (width : Nat) : Prop := ∃ top < 256, ∃ count, width + 1 = (top + 1) * 256 ^ count

theorem fullBelow_of_lt (small : width < 256) : FullBelow width := ⟨width, small, 0, by simp⟩

theorem fullBelow_step (large : 256 ≤ width) :
    FullBelow width ↔ width % 256 = 255 ∧ FullBelow (width / 256) := by
  constructor
  · rintro ⟨top, byte, count, same⟩
    cases count with
    | zero =>
        rw [pow_zero, mul_one] at same
        omega
    | succ count =>
        rw [pow_succ, ← mul_assoc] at same
        exact ⟨by omega, top, byte, count, by omega⟩
  · rintro ⟨full, top, byte, count, same⟩
    refine ⟨top, byte, count + 1, ?_⟩
    rw [pow_succ, ← mul_assoc, ← same]
    omega

theorem reaches_iff_fullBelow (width : Nat) : Reaches width ↔ FullBelow width := by
  induction width using Nat.strong_induction_on with
  | h width ih =>
      by_cases small : width < 256
      · exact iff_of_true (reaches_of_lt small) (fullBelow_of_lt small)
      · rw [reaches_step (by omega), fullBelow_step (by omega), ih (width / 256) (by omega)]

/-- In 64 bits there is room for seven full bytes. -/
theorem fullBelow_iff : width < 2 ^ 64 ∧ FullBelow width ↔
    ∃ top count : Nat, top < 256 ∧ count < 8 ∧ width + 1 = (top + 1) * 256 ^ count := by
  have bytes : (2 : Nat) ^ 64 = 256 ^ 8 := by norm_num
  rw [bytes]
  constructor
  · rintro ⟨fits, top, byte, count, same⟩
    have power : 256 ^ count ≤ 256 ^ 8 := by
      calc 256 ^ count ≤ (top + 1) * 256 ^ count := Nat.le_mul_of_pos_left _ (Nat.succ_pos top)
        _ = width + 1 := same.symm
        _ ≤ 256 ^ 8 := fits
    have most : count ≤ 8 := (Nat.pow_le_pow_iff_right (by decide)).mp power
    rcases most.lt_or_eq with below | rfl
    · exact ⟨top, count, byte, below, same⟩
    · have whole : top = 0 := by
        by_contra more
        have double : 2 * 256 ^ 8 ≤ (top + 1) * 256 ^ 8 := Nat.mul_le_mul_right _ (by omega)
        omega
      subst whole
      exact ⟨255, 7, by decide, by decide, same⟩
  · rintro ⟨top, count, byte, below, same⟩
    refine ⟨?_, top, byte, count, same⟩
    calc width < (top + 1) * 256 ^ count := by omega
      _ ≤ 256 * 256 ^ 7 := Nat.mul_le_mul (by omega) (Nat.pow_le_pow_right (by decide) (by omega))

/-- What is drawn byte by byte is at most the number that the bytes make. -/
theorem drawBytes_le {bytes : List Nat} {drawn : Nat} (gives : (drawBytes bytes).Gives (.ok drawn)) :
    drawn ≤ Nat.ofDigits 256 bytes := by
  induction bytes generalizing drawn with
  | nil =>
      obtain rfl : drawn = 0 := by simpa [drawBytes] using gives
      exact Nat.zero_le _
  | cons byte rest ih =>
      rw [Nat.ofDigits_cons]
      by_cases zero : byte = 0
      · rw [drawBytes, if_pos zero, Random.gives_map_ok] at gives
        obtain ⟨high, gives, rfl⟩ := gives
        have := ih gives
        omega
      · rw [drawBytes, if_neg zero, Random.gives_bind_ok] at gives
        obtain ⟨low, first, gives⟩ := gives
        rw [Random.gives_map_ok] at gives
        obtain ⟨high, gives, rfl⟩ := gives
        have := ih gives
        rw [generateRandomInt, Random.gives_map_ok] at first
        obtain ⟨draw, drawn, rfl⟩ := first
        have := Random.gives_upTo.mp drawn
        omega

/-- A random integer is between its bounds. -/
theorem generateRandomBigInt_between {min max : Int} (ordered : min ≤ max)
    {value : Int} (gives : (generateRandomBigInt min max).Gives (.ok value)) : min ≤ value ∧ value ≤ max := by
  rw [generateRandomBigInt, Random.gives_map_ok] at gives
  obtain ⟨drawn, gives, rfl⟩ := gives
  have most := drawBytes_le gives
  rw [Nat.ofDigits_digits] at most
  have wrapped := Nat.mod_le (max - min).toNat (2 ^ 64)
  omega

/-- The integers that can be drawn lie in the interval, and they are all of it. -/
structure Covers (min max : Int) : Prop where
  between : ∀ value, (generateRandomBigInt min max).Gives (.ok value) → min ≤ value ∧ value ≤ max
  all : ∀ value, min ≤ value → value ≤ max → (generateRandomBigInt min max).Gives (.ok value)

theorem gives_generateRandomBigInt {min max value : Int} :
    (generateRandomBigInt min max).Gives (.ok value) ↔
      ∃ drawn, (drawBytes (Nat.digits 256 ((max - min).toNat % 2 ^ 64))).Gives (.ok drawn) ∧
        value = min + (drawn : Int) := by
  rw [generateRandomBigInt, Random.gives_map_ok]

/-- The interval is covered exactly when it has as many integers as one byte with less than eight
full bytes below it has values. -/
theorem covers_iff {min max : Int} (ordered : min ≤ max) : Covers min max ↔
    ∃ top count : Nat, top < 256 ∧ count < 8 ∧ max - min + 1 = (top + 1) * 256 ^ count := by
  obtain ⟨width, rfl⟩ : ∃ width : Nat, max = min + (width : Int) :=
    ⟨(max - min).toNat, by omega⟩
  have difference : (min + (width : Int) - min).toNat = width := by omega
  have sizes : ∀ top count : Nat, min + (width : Int) - min + 1 = (top + 1) * 256 ^ count ↔
      width + 1 = (top + 1) * 256 ^ count := by
    intro top count
    rw [add_sub_cancel_left]
    exact_mod_cast Iff.rfl
  simp only [sizes]
  rw [← fullBelow_iff, ← reaches_iff_fullBelow]
  constructor
  · intro covers
    have fits : width < 2 ^ 64 := by
      obtain ⟨drawn, gives, same⟩ := gives_generateRandomBigInt.mp
        (covers.all (min + (width : Int)) ordered le_rfl)
      have most := drawBytes_le gives
      rw [Nat.ofDigits_digits, difference] at most
      have wrapped := Nat.mod_lt width (show 0 < 2 ^ 64 by positivity)
      omega
    refine ⟨fits, fun value within => ?_⟩
    obtain ⟨drawn, gives, same⟩ := gives_generateRandomBigInt.mp
      (covers.all (min + (value : Int)) (by omega) (by omega))
    rw [difference, Nat.mod_eq_of_lt fits] at gives
    obtain rfl : value = drawn := by omega
    exact gives
  · rintro ⟨fits, reaches⟩
    refine ⟨fun value => generateRandomBigInt_between ordered, fun value least most => ?_⟩
    refine gives_generateRandomBigInt.mpr ⟨(value - min).toNat, ?_, by omega⟩
    rw [difference, Nat.mod_eq_of_lt fits]
    exact reaches _ (by omega)

theorem covers_i64 : Covers (-(maxUint 8 / 2 + 1)) (maxUint 8 / 2) :=
  (covers_iff (by decide)).mpr ⟨255, 7, by decide, by decide, by decide⟩

/-- Of the unsigned integers of 16 bytes, only those of eight bytes are drawn. -/
theorem not_always_covers : ¬ ∀ min max : Int, min ≤ max → Covers min max := by
  intro covers
  obtain ⟨drawn, gives, same⟩ := gives_generateRandomBigInt.mp
    ((covers 0 (maxUint 16) (by decide)).all (2 ^ 64) (by decide) (by decide))
  have most := drawBytes_le gives
  rw [Nat.ofDigits_digits] at most
  have wrapped := Nat.mod_lt (maxUint 16 - 0).toNat (show 0 < 2 ^ 64 by positivity)
  omega

end PgCommon
end Solpg.Client.Utils
