import Mathlib.Data.List.Nodup
import Mathlib.Data.List.Perm.Subperm
import Solpg.Client.Learning.WorkspaceState
import Solpg.Std.Machine

/-!
# Library of the learner's programs

`library-state.ts` keeps a list of the programs that a learner has started. The hooks
of the page change it as workspaces are created, edited, renamed and deleted, and write
it after each change; the storage may refuse a write and may hold anything when the page
is loaded. What the list has is well formed in any case, and it is what a reload finds
if no write was refused.
-/

namespace Solpg.Client.Learning.LibraryState

open Solpg.Std
open Solpg.Std.Text (isSpace trim startsWith isLineTerminator)

/-! ## Names of programs -/

/-- `[A-Za-z_]`. -/
def isIdentifierStart (char : Char) : Bool := char.isAlpha || char = '_'

/-- `[A-Za-z0-9_]`. -/
def isIdentifierChar (char : Char) : Bool := char.isAlphanum || char = '_'

/-- `/^[A-Za-z_][A-Za-z0-9_]*$/` -/
def isProgramName : Text → Bool
  | [] => false
  | char :: rest => isIdentifierStart char && rest.all isIdentifierChar

/-- What is left of a text after a start that is literally there. -/
def afterLiteral (start text : Text) : Option Text :=
  if startsWith text start then some (text.drop start.length) else none

/-- `\s+` -/
def afterSpaces : Text → Option Text
  | [] => none
  | char :: rest => if isSpace char then some (rest.dropWhile isSpace) else none

/-- `([A-Za-z_][A-Za-z0-9_]*)\b`, which is a boundary wherever no letter can follow. -/
def identifier : Text → Option Text
  | [] => none
  | char :: rest =>
      if isIdentifierStart char then some (char :: rest.takeWhile isIdentifierChar) else none

/-- `mod\s+(?:r#)?([A-Za-z_][A-Za-z0-9_]*)\b` -/
def moduleName (text : Text) : Option Text := do
  let rest ← (afterLiteral "mod".toList text).bind afterSpaces
  ((afterLiteral "r#".toList rest).bind identifier).or (identifier rest)

/-- `\s*\([^)\r\n]+\)` -/
def afterRestriction (text : Text) : Option Text := do
  let inside ← afterLiteral "(".toList (text.dropWhile isSpace)
  let rest := inside.dropWhile fun char => char ≠ ')' && char ≠ '\r' && char ≠ '\n'
  if rest.length < inside.length then afterLiteral ")".toList rest else none

/-- `pub(?:\s*\([^)\r\n]+\))?\s+` and the module. -/
def publicModuleName (text : Text) : Option Text := do
  let rest ← afterLiteral "pub".toList text
  (((afterRestriction rest).bind afterSpaces).bind moduleName).or
    ((afterSpaces rest).bind moduleName)

/-- The expression from the start of a line on. No part that may repeat can take what
the next part needs, so only the optional parts are tried both ways. -/
def programOfLine (text : Text) : Option Text := do
  let rest ← afterLiteral "#".toList (text.dropWhile fun char => char = '\t' || char = ' ')
  let rest ← afterLiteral "[".toList (rest.dropWhile isSpace)
  let rest ← afterLiteral "program".toList (rest.dropWhile isSpace)
  let rest ← afterLiteral "]".toList (rest.dropWhile isSpace)
  let module_ := rest.dropWhile isSpace
  (publicModuleName module_).or (moduleName module_)

/-- The first line from which the expression matches. -/
def findProgram (lineStart : Bool) : Text → Option Text
  | [] => none
  | char :: rest =>
      (if lineStart then programOfLine (char :: rest) else none).or
        (findProgram (isLineTerminator char) rest)

/-- An empty source has no match either. -/
def getAnchorProgramName (source : Option Text) : Option Text := source.bind (findProgram true)

/-- `src/lib.rs` of `NEW_PROGRAM_FILES`. -/
def newProgramSource : Text :=
  ("use anchor_lang::prelude::*;\n\ndeclare_id!(\"11111111111111111111111111111111\");\n\n" ++
    "#[program]\npub mod my_program \x7b\n    use super::*;\n\n" ++
    "    pub fn start(_ctx: Context<Start>) -> Result<()> \x7b\n" ++
    "        msg!(\"My first instruction ran!\");\n        Ok(())\n    \x7d\n\x7d\n\n" ++
    "#[derive(Accounts)]\npub struct Start \x7b\x7d\n").toList

/-! ## Storage -/

/-- A custom program as it is listed. -/
structure CustomProgramEntry where
  createdAt : Text
  programName : Option Text
  workspaceName : Text
  deriving DecidableEq, Repr

/-- `JSON.stringify` leaves out what is undefined. -/
def CustomProgramEntry.toJson (program : CustomProgramEntry) : Json :=
  .object ([("workspaceName".toList, .string program.workspaceName),
    ("createdAt".toList, .number program.createdAt)] ++
      (program.programName.map fun name => ("programName".toList, Json.string name)).toList)

/-- An entry whose name is not blank. What is no object has no properties. -/
def readCustomProgram (value : Json) : Option CustomProgramEntry :=
  match Json.property value "workspaceName", Json.property value "createdAt" with
  | some (.string workspaceName), some (.number createdAt) =>
      if (trim workspaceName).isEmpty then none
      else some {
        workspaceName := workspaceName
        createdAt := createdAt
        programName := match Json.property value "programName" with
          | some (.string name) => if isProgramName name then some name else none
          | _ => none }
  | _, _ => none

/-- The entries whose names were not seen before. -/
def readEntries (seen : List Text) : List Json → List CustomProgramEntry
  | [] => []
  | value :: rest =>
      match readCustomProgram value with
      | none => readEntries seen rest
      | some program =>
          if program.workspaceName ∈ seen then readEntries seen rest
          else program :: readEntries (program.workspaceName :: seen) rest

/-- `readCustomPrograms`. -/
def readCustomPrograms : Stored → List CustomProgramEntry
  | .json (.array values) => readEntries [] values
  | _ => []

/-- `writeCustomPrograms`. -/
def writeCustomPrograms (programs : List CustomProgramEntry) : Stored :=
  .json (.array (programs.map CustomProgramEntry.toJson))

/-- `renameCustomProgram`. -/
def renameCustomProgram (programs : List CustomProgramEntry)
    (previousWorkspaceName workspaceName : Text) : List CustomProgramEntry :=
  (programs.filter fun program => program.workspaceName ≠ workspaceName).map fun program =>
    if program.workspaceName = previousWorkspaceName then
      { program with workspaceName := workspaceName }
    else program

/-! ## Changes of the list -/

/-- The name of a new program's workspace. -/
def newProgramName (index : Nat) : Text := "learn-my-program-".toList ++ (toString index).toList

/-- The loop over indices, which needs no more turns than there are names. -/
def freeIndex (existing : List Text) : Nat → Nat → Nat
  | 0, index => index
  | turns + 1, index =>
      if newProgramName index ∈ existing then freeIndex existing turns (index + 1) else index

/-- The first new name that is free. -/
def startedName (existing : List Text) : Text :=
  newProgramName (freeIndex existing existing.length 1)

/-- The list of the page, as it was rendered last (`customProgramsRef`) and with the
updates since, and the storage. -/
structure Library where
  customPrograms : List CustomProgramEntry
  customProgramsRef : List CustomProgramEntry
  /-- An effect that writes the list is due. -/
  changed : Bool
  stored : Stored

/-- `useLearningLibrary` when the page is loaded. -/
def Library.load (stored : Stored) : Library :=
  ⟨readCustomPrograms stored, readCustomPrograms stored, true, stored⟩

/-- `setCustomPrograms`, which makes the effect write. -/
def Library.setCustomPrograms (self : Library) (next : List CustomProgramEntry) : Library :=
  { self with customPrograms := next, changed := true }

/-- An update that returns the same list is none. -/
def Library.update (self : Library) (next : List CustomProgramEntry) : Library :=
  if next.length = self.customPrograms.length then self else self.setCustomPrograms next

/-- The programs whose workspaces exist. -/
def availablePrograms (available : List Text) (programs : List CustomProgramEntry) :
    List CustomProgramEntry :=
  programs.filter fun program => program.workspaceName ∈ available

/-- What changes the list: the first update after the explorer is initialized, the timer
that reads the name of the program from the open source, the deletion of a workspace, the
switch to another one, the choice of a program that is gone, and a new program. -/
inductive LibraryEvent where
  | initialized (available : List Text) (savedCustom : Option Text) (now : Text)
  | syncActiveCustomProgramName (workspaceName : Text) (source : Option Text)
  | removeDeletedCustomPrograms (available : List Text)
  | syncWorkspace (previous workspaceName : Text) (available : List Text)
  | selectCustomProgram (workspaceName : Text) (available : List Text)
  | startNewProgram (existing : List Text) (now : Text)
  | effect (accepted : Bool)
  | reload

/-- The saved workspace is added if it is a new program that the list lacks. -/
def Library.initialized (self : Library) (available : List Text) (savedCustom : Option Text)
    (now : Text) : Library :=
  let programs := availablePrograms available self.customPrograms
  match savedCustom with
  | none => self.update programs
  | some saved =>
      if startsWith saved "learn-my-program-".toList = true ∧ saved ∈ available ∧
          saved ∉ programs.map CustomProgramEntry.workspaceName then
        self.setCustomPrograms (programs ++ [⟨now, none, saved⟩])
      else self.update programs

/-- One event on the library. -/
def Library.step (self : Library) : LibraryEvent → Option Library
  | .initialized available savedCustom now => some (self.initialized available savedCustom now)
  | .syncActiveCustomProgramName workspaceName source =>
      if workspaceName = [] then some self
      else some (self.setCustomPrograms (self.customPrograms.map fun program =>
        if program.workspaceName = workspaceName then
          { program with programName := getAnchorProgramName source }
        else program))
  | .removeDeletedCustomPrograms available =>
      some (self.update (availablePrograms available self.customPrograms))
  | .syncWorkspace previous workspaceName available =>
      if workspaceName ≠ [] ∧ workspaceName ≠ previous ∧
          previous ∈ self.customProgramsRef.map CustomProgramEntry.workspaceName ∧
          previous ∉ available then
        some (self.setCustomPrograms
          (renameCustomProgram self.customPrograms previous workspaceName))
      else some self
  | .selectCustomProgram workspaceName available =>
      if workspaceName ∈ available then some self
      else some (self.setCustomPrograms
        (self.customPrograms.filter fun program => program.workspaceName ≠ workspaceName))
  | .startNewProgram existing now =>
      let workspaceName := startedName existing
      some (self.setCustomPrograms
        ((self.customPrograms.filter fun program => program.workspaceName ≠ workspaceName) ++
          [⟨now, getAnchorProgramName (some newProgramSource), workspaceName⟩]))
  | .effect accepted =>
      if self.changed then
        some { self with
          customProgramsRef := self.customPrograms
          changed := false
          stored := if accepted then writeCustomPrograms self.customPrograms else self.stored }
      else none
  | .reload => some (Library.load self.stored)

example : getAnchorProgramName (some newProgramSource) = some "my_program".toList := by decide +kernel

/-! ## Programs that are found -/

section Names

variable {text name : Text}

/-- An identifier is a program name. -/
theorem isProgramName_identifier (found : identifier text = some name) :
    isProgramName name = true := by
  cases text with
  | nil => cases found
  | cons char rest =>
      by_cases start : isIdentifierStart char = true
      · rw [identifier, if_pos start] at found
        obtain rfl := Option.some.inj found
        rw [isProgramName, start, Bool.true_and]
        exact List.all_takeWhile
      · rw [identifier, if_neg start] at found
        cases found

/-- The name of a module is a program name. -/
theorem isProgramName_moduleName (found : moduleName text = some name) :
    isProgramName name = true := by
  obtain ⟨rest, -, found⟩ := Option.bind_eq_some_iff.mp found
  obtain raw | ⟨-, plain⟩ := Option.or_eq_some_iff.mp found
  · obtain ⟨afterRaw, -, found⟩ := Option.bind_eq_some_iff.mp raw
    exact isProgramName_identifier found
  · exact isProgramName_identifier plain

/-- The name of a public module is a program name. -/
theorem isProgramName_publicModuleName (found : publicModuleName text = some name) :
    isProgramName name = true := by
  obtain ⟨rest, -, found⟩ := Option.bind_eq_some_iff.mp found
  obtain restricted | ⟨-, plain⟩ := Option.or_eq_some_iff.mp found
  · obtain ⟨module_, -, found⟩ := Option.bind_eq_some_iff.mp restricted
    exact isProgramName_moduleName found
  · obtain ⟨module_, -, found⟩ := Option.bind_eq_some_iff.mp plain
    exact isProgramName_moduleName found

/-- The name found in a line is a program name. -/
theorem isProgramName_programOfLine (found : programOfLine text = some name) :
    isProgramName name = true := by
  obtain ⟨hash, -, found⟩ := Option.bind_eq_some_iff.mp found
  obtain ⟨bracket, -, found⟩ := Option.bind_eq_some_iff.mp found
  obtain ⟨word, -, found⟩ := Option.bind_eq_some_iff.mp found
  obtain ⟨attribute_, -, found⟩ := Option.bind_eq_some_iff.mp found
  obtain public_ | ⟨-, plain⟩ := Option.or_eq_some_iff.mp found
  · exact isProgramName_publicModuleName public_
  · exact isProgramName_moduleName plain

/-- The name found in a source is a program name. -/
theorem isProgramName_findProgram {lineStart : Bool} (found : findProgram lineStart text = some name) :
    isProgramName name = true := by
  induction text generalizing lineStart with
  | nil => cases found
  | cons char rest ih =>
      obtain here | ⟨-, later⟩ := Option.or_eq_some_iff.mp found
      · cases lineStart with
        | false => cases here
        | true => exact isProgramName_programOfLine here
      · exact ih later

/-- What is taken for the name of a program can be one. -/
theorem isProgramName_getAnchorProgramName {source : Option Text}
    (found : getAnchorProgramName source = some name) : isProgramName name = true := by
  obtain ⟨text, -, found⟩ := Option.bind_eq_some_iff.mp found
  exact isProgramName_findProgram found

end Names

/-! ## Names of new programs -/

/-- The entries are of different workspaces, and what is stored as the name of a program
can be one. -/
structure Listed (programs : List CustomProgramEntry) : Prop where
  distinct : (programs.map CustomProgramEntry.workspaceName).Nodup
  named : ∀ program ∈ programs, ∀ name, program.programName = some name →
    isProgramName name = true

/-- A workspace name that the storage keeps. -/
def notBlank (program : CustomProgramEntry) : Bool := !(trim program.workspaceName).isEmpty

variable {programs : List CustomProgramEntry} {program : CustomProgramEntry}

/-- A program that is read has a program name or none. -/
theorem readCustomProgram_named {value : Json} (read : readCustomProgram value = some program)
    {name : Text} (has : program.programName = some name) : isProgramName name = true := by
  rw [readCustomProgram] at read
  split at read
  next =>
    split at read
    · cases read
    · obtain rfl := Option.some.inj read
      simp only at has
      split at has
      next stored =>
        split at has
        next valid =>
          obtain rfl := Option.some.inj has
          exact valid
        next => cases has
      next => cases has
  next => cases read

/-- Entries that are read are listed, each workspace once. -/
theorem readEntries_listed (seen : List Text) (values : List Json) :
    Listed (readEntries seen values) ∧
      ∀ program ∈ readEntries seen values, program.workspaceName ∉ seen := by
  induction values generalizing seen with
  | nil =>
      refine ⟨⟨List.nodup_nil, fun program member => ?_⟩, fun program member => ?_⟩ <;>
        cases member
  | cons value rest ih =>
      cases read : readCustomProgram value with
      | none =>
          rw [readEntries, read]
          exact ih seen
      | some program =>
          rw [readEntries, read]
          by_cases known : program.workspaceName ∈ seen
          · simp only [if_pos known]
            exact ih seen
          · simp only [if_neg known]
            obtain ⟨listed, unseen⟩ := ih (program.workspaceName :: seen)
            have fresh : program.workspaceName ∉
                (readEntries (program.workspaceName :: seen) rest).map
                  CustomProgramEntry.workspaceName := by
              intro member
              obtain ⟨other, among, same⟩ := List.mem_map.mp member
              exact unseen other among (same ▸ List.mem_cons_self)
            refine ⟨⟨List.nodup_cons.mpr ⟨fresh, listed.distinct⟩, fun other member => ?_⟩,
              fun other member => ?_⟩
            · rcases List.mem_cons.mp member with rfl | member
              · exact fun name has => readCustomProgram_named read has
              · exact listed.named other member
            · rcases List.mem_cons.mp member with rfl | member
              · exact known
              · exact fun old => unseen other member (List.mem_cons_of_mem _ old)

/-- Whatever the storage holds, what is read from it is well formed. -/
theorem readCustomPrograms_listed (stored : Stored) : Listed (readCustomPrograms stored) := by
  unfold readCustomPrograms
  split
  · exact (readEntries_listed [] _).1
  · exact ⟨List.nodup_nil, fun program member => by cases member⟩

/-- An entry is read as it was written, unless its name is blank. -/
theorem readCustomProgram_toJson (valid : ∀ name, program.programName = some name →
    isProgramName name = true) :
    readCustomProgram program.toJson = if notBlank program then some program else none := by
  obtain ⟨createdAt, programName, workspaceName⟩ := program
  have readName : Json.property (CustomProgramEntry.toJson ⟨createdAt, programName, workspaceName⟩)
      "programName" = programName.map Json.string := by cases programName <;> rfl
  have workspace : Json.property (CustomProgramEntry.toJson ⟨createdAt, programName, workspaceName⟩)
      "workspaceName" = some (.string workspaceName) := rfl
  have created : Json.property (CustomProgramEntry.toJson ⟨createdAt, programName, workspaceName⟩)
      "createdAt" = some (.number createdAt) := rfl
  simp only [readCustomProgram, workspace, created, readName, notBlank]
  by_cases blank : (trim workspaceName).isEmpty = true
  · simp [blank]
  · cases programName with
    | none => simp [blank]
    | some name => simp [blank, valid name rfl]

/-- Listed programs are read back. -/
theorem readEntries_toJson (listed : Listed programs) {seen : List Text}
    (unseen : ∀ program ∈ programs, program.workspaceName ∉ seen) :
    readEntries seen (programs.map CustomProgramEntry.toJson) = programs.filter notBlank := by
  induction programs generalizing seen with
  | nil => rfl
  | cons program rest ih =>
      obtain ⟨fresh, distinct⟩ := List.nodup_cons.mp listed.distinct
      have tail : Listed rest :=
        ⟨distinct, fun other member => listed.named other (List.mem_cons_of_mem _ member)⟩
      have unseenTail : ∀ other ∈ rest, other.workspaceName ∉ seen := fun other member =>
        unseen other (List.mem_cons_of_mem _ member)
      rw [List.map_cons, readEntries,
        readCustomProgram_toJson (listed.named program List.mem_cons_self)]
      by_cases kept : notBlank program = true
      · rw [if_pos kept, List.filter_cons_of_pos kept]
        simp only [if_neg (unseen program List.mem_cons_self)]
        refine congrArg (program :: ·) (ih tail fun other member => ?_)
        rintro old
        rcases List.mem_cons.mp old with same | old
        · exact fresh (same ▸ List.mem_map_of_mem member)
        · exact unseenTail other member old
      · rw [if_neg kept, List.filter_cons_of_neg kept]
        exact ih tail unseenTail

/-- What was written is read back without the blank names. -/
theorem readCustomPrograms_write (listed : Listed programs) :
    readCustomPrograms (writeCustomPrograms programs) = programs.filter notBlank :=
  readEntries_toJson listed fun _ _ => List.not_mem_nil

/-! ## Every change -/

/-- Fewer programs are still listed. -/
theorem Listed.filter (listed : Listed programs) (keep : CustomProgramEntry → Bool) :
    Listed (programs.filter keep) where
  distinct := listed.distinct.sublist (List.filter_sublist.map _)
  named program member := listed.named program (List.mem_of_mem_filter member)

/-- A program of a fresh workspace may be listed as well. -/
theorem Listed.concat (listed : Listed programs)
    (fresh : program.workspaceName ∉ programs.map CustomProgramEntry.workspaceName)
    (valid : ∀ name, program.programName = some name → isProgramName name = true) :
    Listed (programs ++ [program]) where
  distinct := by
    rw [List.map_append, List.map_singleton, ← List.concat_eq_append]
    exact List.Nodup.concat fresh listed.distinct
  named other member := by
    rcases List.mem_append.mp member with old | new
    · exact listed.named other old
    · exact List.mem_singleton.mp new ▸ valid

/-- A new program is listed. -/
theorem Listed.started (listed : Listed programs) (now : Text) {workspaceName : Text}
    (fresh : workspaceName ∉ programs.map CustomProgramEntry.workspaceName) :
    Listed (programs ++
      [⟨now, getAnchorProgramName (some newProgramSource), workspaceName⟩]) := by
  generalize some newProgramSource = source
  exact listed.concat fresh fun name found => isProgramName_getAnchorProgramName found

/-- An entry takes the place of the one whose name it gets. -/
theorem Listed.rename (listed : Listed programs) (previous workspaceName : Text) :
    Listed (renameCustomProgram programs previous workspaceName) where
  distinct := by
    have filtered := listed.filter fun program => program.workspaceName ≠ workspaceName
    have absent : ∀ program ∈ programs.filter (fun program => program.workspaceName ≠ workspaceName),
        program.workspaceName ≠ workspaceName := fun program member => by
      simpa using (List.mem_filter.mp member).2
    rw [renameCustomProgram, List.map_map]
    refine List.Nodup.map_on ?_ (List.Nodup.of_map _ filtered.distinct)
    intro first memberFirst second memberSecond same
    have apart := List.inj_on_of_nodup_map filtered.distinct memberFirst memberSecond
    have away := absent first memberFirst
    have away' := absent second memberSecond
    simp only [Function.comp_apply] at same
    split at same <;> split at same
    next isFirst isSecond => exact apart (isFirst.trans isSecond.symm)
    next => exact absurd same.symm away'
    next => exact absurd same away
    next => exact apart same
  named program member := by
    obtain ⟨before, among, rfl⟩ := List.mem_map.mp member
    have valid := listed.named before (List.mem_of_mem_filter among)
    split <;> exact valid

/-- A program may get a valid name. -/
theorem Listed.setName (listed : Listed programs) (workspaceName : Text) {programName : Option Text}
    (valid : ∀ name, programName = some name → isProgramName name = true) :
    Listed (programs.map fun program =>
      if program.workspaceName = workspaceName then { program with programName := programName }
      else program) where
  distinct := by
    have names : (programs.map fun program =>
        if program.workspaceName = workspaceName then { program with programName := programName }
        else program).map CustomProgramEntry.workspaceName =
          programs.map CustomProgramEntry.workspaceName := by
      rw [List.map_map]
      refine List.map_congr_left fun program _ => ?_
      simp only [Function.comp_apply]
      split <;> rfl
    rw [names]
    exact listed.distinct
  named program member := by
    obtain ⟨before, among, rfl⟩ := List.mem_map.mp member
    split
    · exact valid
    · exact listed.named before among

/-- An update changes nothing or sets the programs. -/
theorem Library.update_cases (self : Library) (next : List CustomProgramEntry) :
    self.update next = self ∨ self.update next = self.setCustomPrograms next := by
  unfold Library.update
  split
  · exact .inl rfl
  · exact .inr rfl

/-- Apart from an effect and a reload, a step leaves everything or sets a well-formed list. -/
theorem Library.step_cases {self next : Library} {event : LibraryEvent}
    (listed : Listed self.customPrograms) (stepped : self.step event = some next) :
    next = self ∨ (∃ programs, Listed programs ∧ next = self.setCustomPrograms programs) ∨
      (∃ accepted, event = .effect accepted ∧ next = { self with
        customProgramsRef := self.customPrograms
        changed := false
        stored := if accepted then writeCustomPrograms self.customPrograms else self.stored }) ∨
      next = Library.load self.stored := by
  have updates : ∀ programs, Listed programs → self.update programs = self ∨
      ∃ programs', Listed programs' ∧ self.update programs = self.setCustomPrograms programs' :=
    fun programs valid => (self.update_cases programs).imp_right fun updated =>
      ⟨programs, valid, updated⟩
  cases event with
  | initialized available savedCustom now =>
      obtain rfl := Option.some.inj stepped
      have available_ := listed.filter fun program => program.workspaceName ∈ available
      cases savedCustom with
      | none => exact (updates _ available_).imp_right .inl
      | some saved =>
          simp only [Library.initialized]
          split
          next missing =>
            refine .inr (.inl ⟨_, available_.concat missing.2.2 ?_, rfl⟩)
            exact fun name has => by cases has
          next => exact (updates _ available_).imp_right .inl
  | syncActiveCustomProgramName workspaceName source =>
      simp only [Library.step] at stepped
      split at stepped <;> obtain rfl := Option.some.inj stepped
      · exact .inl rfl
      · exact .inr (.inl ⟨_, listed.setName workspaceName fun name found =>
          isProgramName_getAnchorProgramName found, rfl⟩)
  | removeDeletedCustomPrograms available =>
      obtain rfl := Option.some.inj stepped
      exact (updates _ (listed.filter _)).imp_right .inl
  | syncWorkspace previous workspaceName available =>
      simp only [Library.step] at stepped
      split at stepped <;> obtain rfl := Option.some.inj stepped
      · exact .inr (.inl ⟨_, listed.rename previous workspaceName, rfl⟩)
      · exact .inl rfl
  | selectCustomProgram workspaceName available =>
      simp only [Library.step] at stepped
      split at stepped <;> obtain rfl := Option.some.inj stepped
      · exact .inl rfl
      · exact .inr (.inl ⟨_, listed.filter _, rfl⟩)
  | startNewProgram existing now =>
      obtain rfl := Option.some.inj stepped
      have absent : startedName existing ∉ (self.customPrograms.filter fun program =>
          program.workspaceName ≠ startedName existing).map CustomProgramEntry.workspaceName := by
        intro member
        obtain ⟨program, among, same⟩ := List.mem_map.mp member
        exact absurd same (by simpa using (List.mem_filter.mp among).2)
      exact .inr (.inl ⟨_, (listed.filter _).started now absent, rfl⟩)
  | effect accepted =>
      simp only [Library.step] at stepped
      split at stepped
      · exact .inr (.inr (.inl ⟨accepted, rfl, (Option.some.inj stepped).symm⟩))
      · cases stepped
  | reload => exact .inr (.inr (.inr (Option.some.inj stepped).symm))

/-- The storage takes every write. -/
def Accepted (_ : Library) : LibraryEvent → Prop
  | .effect accepted => accepted = true
  | _ => True

/-- With no effect due, a reload finds the list, apart from blank names. -/
def Saved (self : Library) : Prop :=
  self.changed = false → readCustomPrograms self.stored = self.customPrograms.filter notBlank

/-- Every event keeps the programs listed. -/
theorem Listed.step {self next : Library} {event : LibraryEvent}
    (listed : Listed self.customPrograms) (stepped : self.step event = some next) :
    Listed next.customPrograms := by
  obtain rfl | ⟨programs, valid, rfl⟩ | ⟨accepted, -, rfl⟩ | rfl :=
    Library.step_cases listed stepped
  · exact listed
  · exact valid
  · exact listed
  · exact readCustomPrograms_listed self.stored

/-- Every accepted event keeps the programs saved. -/
theorem Saved.step {self next : Library} {event : LibraryEvent}
    (listed : Listed self.customPrograms) (saved : Saved self) (accepts : Accepted self event)
    (stepped : self.step event = some next) : Saved next := by
  obtain rfl | ⟨programs, -, rfl⟩ | ⟨accepted, rfl, rfl⟩ | rfl :=
    Library.step_cases listed stepped
  · exact saved
  · exact fun unchanged => by cases unchanged
  · obtain rfl : accepted = true := accepts
    exact fun _ => readCustomPrograms_write listed
  · exact fun unchanged => by cases unchanged

end Solpg.Client.Learning.LibraryState
