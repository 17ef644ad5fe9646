import Solpg.Client.Frameworks.ConvertJS

/-!
# Generated imports

Each import that the export writes is a line of its own, which the regular expression matches
as a whole, and in which nothing is called.
-/

namespace Solpg.Client.Frameworks

open Solpg.Std CodeUnits

/-- An import on a line of its own, without a call. -/
structure Generated (line : CodeUnits) : Prop where
  importLine : ImportLine line
  noCall : (0x28 : UInt16) ∉ line

/-- Lines in front of a content -/
def front (generated : List CodeUnits) : CodeUnits := generated.flatMap (· ++ [lineFeed])

@[simp] theorem front_nil : front [] = [] := rfl

@[simp] theorem front_cons (line : CodeUnits) (generated : List CodeUnits) :
    front (line :: generated) = line ++ lineFeed :: front generated := by
  simp [front]

@[simp] theorem front_append (first second : List CodeUnits) :
    front (first ++ second) = front first ++ front second := List.flatMap_append

/-! ## Global packages -/

/-- A global package has its own name in the export. -/
theorem mem_globalPackages {content : CodeUnits} {globalPackage : CodeUnits × ImportStyle}
    (used : globalPackage ∈ getGlobalPackages content) : globalPackage ∈ globalPackages := by
  suffices all : ∀ globalPackage ∈ getGlobalPackages content, globalPackage ∈ globalPackages from
    all globalPackage used
  rw [getGlobalPackages]
  refine List.foldlRecOn
    (motive := fun packages => ∀ globalPackage ∈ packages, globalPackage ∈ globalPackages)
    globalPackages _ (fun _ none => absurd none List.not_mem_nil) ?_
  rintro packages known ⟨name, importStyle⟩ among globalPackage used
  simp only at used
  split at used
  next => exact known globalPackage used
  next mapped ignored =>
    have own : (packagesMap.lookup name).join.getD name = name := by
      cases lookup : packagesMap.lookup name with
      | none => rfl
      | some entry =>
          cases entry with
          | none => rfl
          | some other =>
              rw [packagesMap, List.lookup_cons] at lookup
              split at lookup
              · exact absurd lookup nofun
              · exact absurd lookup nofun
    rw [own] at used
    split at used
    next =>
      obtain earlier | last := List.mem_append.mp used
      · exact known globalPackage earlier
      · rwa [List.mem_singleton.mp last]
    next => exact known globalPackage used

theorem generated_importLine {globalPackage : CodeUnits × ImportStyle}
    (among : globalPackage ∈ globalPackages) : Generated (importLine globalPackage) := by
  have plain : ∀ globalPackage ∈ globalPackages,
      (∀ unit ∈ space :: (globalPackage.2.text ++ ofText " from ".toList),
        isQuote unit = false ∧ isLineTerminator unit = false) ∧
      (∀ unit ∈ globalPackage.1, isLineTerminator unit = false) ∧
        (0x28 : UInt16) ∉ importLine globalPackage := by
    decide
  obtain ⟨plainStyle, plainPackage, noCall⟩ := plain globalPackage among
  refine ⟨⟨_, _, ?_, plainStyle, plainPackage⟩, noCall⟩
  have opens : ofText " from \"".toList = ofText " from ".toList ++ [doubleQuote] := rfl
  have closes : ofText "\";".toList = [doubleQuote, semicolon] := rfl
  rw [importLine, opens, closes]
  simp

/-- The imports of the packages that are used, the last one first. -/
def globalImports (content : CodeUnits) : List CodeUnits :=
  (getGlobalPackages content).reverse.map importLine

theorem addImports_eq (content : CodeUnits) :
    addImports content =
      front (globalImports (removeNoImports content)) ++ removeNoImports content := by
  rw [addImports, globalImports]
  generalize removeNoImports content = rest
  generalize getGlobalPackages rest = used
  induction used generalizing rest with
  | nil => rfl
  | cons globalPackage used ih =>
      simp only [List.foldl_cons, List.reverse_cons, List.map_append, List.map_cons, List.map_nil,
        front_append, front_cons, front_nil, List.append_assoc] at ih ⊢
      rw [ih]

/-! ## The type of a program -/

/-- A unit of a name in Pascal case. -/
def IsNameUnit (unit : UInt16) : Prop := isWordUnit unit = true ∨ unit = dash

instance (unit : UInt16) : Decidable (IsNameUnit unit) := inferInstanceAs (Decidable (_ ∨ _))

/-- No quote, no line terminator and no parenthesis -/
def IsPlain (unit : UInt16) : Prop :=
  isQuote unit = false ∧ isLineTerminator unit = false ∧ unit ≠ 0x28

instance (unit : UInt16) : Decidable (IsPlain unit) := inferInstanceAs (Decidable (_ ∧ _ ∧ _))

theorem IsNameUnit.plain {unit : UInt16} (named : IsNameUnit unit) : IsPlain unit := by
  have others : ∀ other ∈ ([doubleQuote, pipe, singleQuote, 0x0a, 0x0d, 0x2028, 0x2029, 0x28] :
      List UInt16), ¬ IsNameUnit other := by
    decide
  have apart : ∀ other ∈ ([doubleQuote, pipe, singleQuote, 0x0a, 0x0d, 0x2028, 0x2029, 0x28] :
      List UInt16), unit ≠ other := by
    rintro other among rfl
    exact others unit among named
  simp only [List.forall_mem_cons] at apart
  obtain ⟨double, bar, single, feed, carriage, line, paragraph, call, -⟩ := apart
  refine ⟨?_, ?_, call⟩
  · simp [isQuote, double, bar, single]
  · simp [isLineTerminator, feed, carriage, line, paragraph]

theorem IsNameUnit.toUpperUnit {unit : UInt16} (named : IsNameUnit unit) :
    IsNameUnit (toUpperUnit unit) := by
  rw [Frameworks.toUpperUnit]
  split
  next lower =>
    have least : 97 ≤ unit.toNat := UInt16.le_iff_toNat_le.mp lower.1
    have most : unit.toNat ≤ 122 := UInt16.le_iff_toNat_le.mp lower.2
    have upper : (unit - 0x20).toNat = unit.toNat - 32 :=
      UInt16.toNat_sub_of_le _ _ (UInt16.le_iff_toNat_le.mpr (Nat.le_trans (by decide) least))
    have within : 0x41 ≤ unit - 0x20 ∧ unit - 0x20 ≤ 0x5a := by
      rw [UInt16.le_iff_toNat_le, UInt16.le_iff_toNat_le, upper]
      exact ⟨Nat.le_sub_of_add_le least, Nat.sub_le_of_le_add most⟩
    exact .inl (by simp [isWordUnit, within])
  next => exact named

theorem isNameUnit_of_mem_joinWords {text : CodeUnits} (named : ∀ unit ∈ text, IsNameUnit unit)
    {unit : UInt16} (among : unit ∈ joinWords text) : IsNameUnit unit := by
  fun_induction joinWords text with
  | case1 first second rest joined ih =>
      obtain rfl | among := List.mem_cons.mp among
      · exact (named second (by simp)).toUpperUnit
      · exact ih (fun other within => named other (by simp [within])) among
  | case2 first second rest plain ih =>
      obtain rfl | among := List.mem_cons.mp among
      · exact named _ List.mem_cons_self
      · exact ih (fun other within => named other (List.mem_cons_of_mem _ within)) among
  | case3 last => exact named unit among
  | case4 => exact absurd among List.not_mem_nil

theorem isNameUnit_of_mem_toPascalFromSnake (programName : ProgramName) {unit : UInt16}
    (among : unit ∈ toPascalFromSnake programName.1) : IsNameUnit unit := by
  rw [toPascalFromSnake] at among
  refine isNameUnit_of_mem_joinWords (fun unit among => ?_) among
  have kebab : ∀ unit ∈ programName.1.map fun unit => if unit = 0x5f then dash else unit,
      IsNameUnit unit := by
    intro unit among
    obtain ⟨other, within, rfl⟩ := List.mem_map.mp among
    split
    · exact .inr rfl
    · exact .inl (programName.2 other within)
  cases text : programName.1.map fun unit => if unit = 0x5f then dash else unit with
  | nil =>
      rw [text] at among
      exact absurd among List.not_mem_nil
  | cons first rest =>
      rw [text] at among kebab
      obtain rfl | later := List.mem_cons.mp among
      · exact (kebab first List.mem_cons_self).toUpperUnit
      · exact kebab unit (List.mem_cons_of_mem _ later)

theorem generated_typeImport (programName : ProgramName) :
    Generated (Anchor.typeImport programName.1 (toPascalFromSnake programName.1)) := by
  have pascal : ∀ unit ∈ toPascalFromSnake programName.1, IsPlain unit :=
    fun unit among => (isNameUnit_of_mem_toPascalFromSnake programName among).plain
  have name : ∀ unit ∈ programName.1, IsPlain unit :=
    fun unit among => IsNameUnit.plain (.inl (programName.2 unit among))
  generalize toPascalFromSnake programName.1 = pascalCaseProgramName at pascal ⊢
  have middle : ∀ unit ∈ ofText " type \x7b ".toList ++
      (pascalCaseProgramName ++ ofText " \x7d from ".toList), IsPlain unit :=
    List.forall_mem_append.mpr ⟨by decide, List.forall_mem_append.mpr ⟨pascal, by decide⟩⟩
  have package : ∀ unit ∈ ofText "../target/types/".toList ++ programName.1, IsPlain unit :=
    List.forall_mem_append.mpr ⟨by decide, name⟩
  have line : Anchor.typeImport programName.1 pascalCaseProgramName =
      importKeyword ++ (ofText " type \x7b ".toList ++
        (pascalCaseProgramName ++ ofText " \x7d from ".toList) ++ doubleQuote ::
          (ofText "../target/types/".toList ++ programName.1 ++ [doubleQuote, semicolon])) := by
    have source : ofText " \x7d from \"../target/types/".toList =
        ofText " \x7d from ".toList ++ doubleQuote :: ofText "../target/types/".toList := rfl
    have closes : ofText "\";".toList = [doubleQuote, semicolon] := rfl
    rw [Anchor.typeImport, source, closes]
    simp
  refine ⟨⟨_, _, line, fun unit among => ?_, fun unit among => (package unit among).2.1⟩, ?_⟩
  · exact ⟨(middle unit among).1, (middle unit among).2.1⟩
  · intro among
    rw [line] at among
    obtain keyword | among := List.mem_append.mp among
    · exact absurd keyword (by decide)
    obtain inMiddle | among := List.mem_append.mp among
    · exact (middle _ inMiddle).2.2 rfl
    obtain quote | among := List.mem_cons.mp among
    · exact absurd quote (by decide)
    obtain inPackage | ends := List.mem_append.mp among
    · exact (package _ inPackage).2.2 rfl
    · exact absurd ends (by decide)

end Solpg.Client.Frameworks
