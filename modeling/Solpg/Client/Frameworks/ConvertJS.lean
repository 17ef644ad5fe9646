import Solpg.Client.Frameworks.ImportStatement

/-!
# Scripts of an exported project

`convertJS` of native projects and of Anchor: imports and variables that a script has in the
playground without a word of its own are written into it. Where they are written follows from
the matches of two regular expressions.
-/

namespace Solpg.Client.Frameworks

open Solpg.Std CodeUnits

/-! ## Imports of what is global in the playground -/

/-- The ways to import a package. -/
inductive ImportStyle where
  | as (name : CodeUnits)
  | named (name : CodeUnits)
  | default (name : CodeUnits)
  deriving DecidableEq, Repr

namespace ImportStyle

/-- The name that is imported. -/
def name : ImportStyle → CodeUnits
  | as name | named name | default name => name

/-- An import as it is written between `import` and `from`. -/
def text : ImportStyle → CodeUnits
  | as name => ofText "* as ".toList ++ name
  | named name => ofText "\x7b ".toList ++ name ++ ofText " \x7d".toList
  | default name => name

end ImportStyle

/-- `PACKAGES.global` -/
def globalPackages : List (CodeUnits × ImportStyle) :=
  [(ofText "@coral-xyz/anchor".toList, .as (ofText "anchor".toList)),
    (ofText "@solana/buffer-layout".toList, .as (ofText "BufferLayout".toList)),
    (ofText "@solana/web3.js".toList, .as (ofText "web3".toList)),
    (ofText "assert".toList, .default (ofText "assert".toList)),
    (ofText "bn.js".toList, .default (ofText "BN".toList)),
    (ofText "borsh".toList, .as (ofText "borsh".toList)),
    (ofText "buffer".toList, .named (ofText "Buffer".toList)),
    (ofText "mocha".toList, .as (ofText "mocha".toList))]

/-- Map packages to a different package on exports or completely ignore them -/
def packagesMap : List (CodeUnits × Option CodeUnits) :=
  [(ofText "buffer".toList, none)] -- No need to import

/-- Get global packages that are used in the given content. -/
def getGlobalPackages (content : CodeUnits) : List (CodeUnits × ImportStyle) :=
  globalPackages.foldl (fun packages (name, importStyle) =>
    match packagesMap.lookup name with
    | some none => packages
    | mapped =>
        let packageName := mapped.join.getD name
        let accessors := [importStyle.name ++ ofText ['.'], importStyle.name ++ ofText ['(']]
        if (packages.lookup packageName).isNone ∧ accessors.any content.includes
        then packages ++ [(packageName, importStyle)]
        else packages) []

/-- `import ${importStyleText} from "${packageName}";`, without the line break -/
def importLine : CodeUnits × ImportStyle → CodeUnits
  | (packageName, importStyle) =>
      importKeyword ++ space :: importStyle.text ++ ofText " from \"".toList ++ packageName ++
        ofText "\";".toList

/-- The comment in place of imports. -/
def noImportsNeeded : CodeUnits := ofText "// No imports needed".toList

/-- Remove the "No imports needed:..." comment. Without a line break after it, its end is the
index before its start. -/
def removeNoImports (content : CodeUnits) : CodeUnits :=
  match indexOf noImportsNeeded content with
  | none => content
  | some noImportsStartIndex =>
      let rest := content.drop noImportsStartIndex
      match indexOf [lineFeed] rest with
      | none => content.take noImportsStartIndex ++ rest
      | some length =>
          content.take noImportsStartIndex ++ content.drop (noImportsStartIndex + length + 1)

/-- Add imports for files that use Playground globals. -/
def addImports (content : CodeUnits) : CodeUnits :=
  let content := removeNoImports content
  (getGlobalPackages content).foldl
    (fun content globalPackage => importLine globalPackage ++ [lineFeed] ++ content) content

/-! ## Content after a match -/

/-- A match of the regular expression, the last one by default. -/
def occurance (regex : Matcher UInt16) (firstOccurance : Bool) (content : CodeUnits) :
    Option (Matched UInt16) :=
  if firstOccurance then (regex.matchAll content).head? else (regex.matchAll content).getLast?

/-- One after the end of the match, and 1 without one. -/
def afterStartIndex (regex : Matcher UInt16) (firstOccurance : Bool) (content : CodeUnits) : Nat :=
  ((occurance regex firstOccurance content).map Matched.finish).getD 0 + 1

/-- Add the given content after the regular expression. -/
def addAfter (content : CodeUnits) (afterRegex : Matcher UInt16) (newContent : CodeUnits)
    (firstOccurance : Bool) : CodeUnits :=
  let afterStartIndex := afterStartIndex afterRegex firstOccurance content
  content.take afterStartIndex ++ newContent ++ [lineFeed] ++ content.drop afterStartIndex

/-! ## The conversions -/

/-- The name of a program: a name of a module, or a text in snake case. -/
abbrev ProgramName := { name : CodeUnits // ∀ unit ∈ name, isWordUnit unit = true }

/-- `toUpperCase` of a unit of a name -/
def toUpperUnit (unit : UInt16) : UInt16 :=
  if 0x61 ≤ unit ∧ unit ≤ 0x7a then unit - 0x20 else unit

/-- What separates the words of a package. -/
def dash : UInt16 := 0x2d

/-- A dash before a unit of a word is removed, and the unit is in upper case. -/
def joinWords : CodeUnits → CodeUnits
  | first :: second :: rest =>
      if first = dash ∧ isWordUnit second then toUpperUnit second :: joinWords rest
      else first :: joinWords (second :: rest)
  | [unit] => [unit]
  | [] => []

/-- The first unit in upper case. -/
def capitalize : CodeUnits → CodeUnits
  | [] => []
  | unit :: rest => toUpperUnit unit :: rest

/-- PascalCase converted version of the snake_case string -/
def toPascalFromSnake (str : CodeUnits) : CodeUnits :=
  let kebab := str.map fun unit => if unit = 0x5f then dash else unit
  joinWords (capitalize kebab)

/-- The playground's properties are replaced one after another. -/
def replacePg (replacements : List (CodeUnits × CodeUnits)) (content : CodeUnits) : CodeUnits :=
  replacements.foldl (fun content (pattern, replacement) => content.replaceAll pattern replacement)
    content

namespace Native

/-- What the program and the connection are at the time of the export. -/
structure PgGlobals where
  programPk : Option CodeUnits
  rpcEndpoint : CodeUnits
  commitment : CodeUnits
  deriving DecidableEq, Repr

/-- The definitions that a native program needs. -/
def definitions (globals : PgGlobals) : CodeUnits :=
  let programId :=
    match globals.programPk with
    | some pk => doubleQuote :: pk ++ [doubleQuote]
    | none => ofText "/* Program id */".toList
  ofText ("// Manually initialize variables that are automatically defined in Playground\n" ++
    "const PROGRAM_ID = new web3.PublicKey(").toList ++ programId ++
    ofText (");\nconst connection = new web3.Connection(\"").toList ++ globals.rpcEndpoint ++
    ofText "\", \"".toList ++ globals.commitment ++
    ofText "\");\nconst wallet = \x7b keypair: web3.Keypair.generate() \x7d;\n".toList

/-- What replaces the globals of the playground in a native script. -/
def pgReplacements : List (CodeUnits × CodeUnits) :=
  [(ofText "pg.PROGRAM_ID".toList, ofText "PROGRAM_ID".toList),
    (ofText "pg.connection".toList, ofText "connection".toList),
    (ofText "pg.wallet.keypair".toList, ofText "wallet.keypair".toList),
    (ofText "pg.wallet.publicKey".toList, ofText "wallet.keypair.publicKey".toList)]

/-- Try to make the JS/TS file work in a local `node` environment by making the necessary
conversions. -/
def convertJS (globals : PgGlobals) (content : CodeUnits) : CodeUnits :=
  let content := addImports content
  let content := addAfter content importStatement.toMatcher (definitions globals) false
  replacePg pgReplacements content

end Native

namespace Anchor

/-- The package of Anchor. -/
def anchorPackage : CodeUnits × ImportStyle :=
  (ofText "@coral-xyz/anchor".toList, .as (ofText "anchor".toList))

/-- Handle imports. -/
def handleImports (content : CodeUnits) : CodeUnits :=
  let content := addImports content
  if content.includes (ofText "anchor".toList) then content
  else importLine anchorPackage ++ [lineFeed] ++ content

/-- The import of the type of a program. -/
def typeImport (programName pascalCaseProgramName : CodeUnits) : CodeUnits :=
  importKeyword ++ ofText " type \x7b ".toList ++ pascalCaseProgramName ++
    ofText " \x7d from \"../target/types/".toList ++ programName ++ ofText "\";".toList

/-- The definitions of a test. -/
def testProgram (pascalCaseProgramName : CodeUnits) : CodeUnits :=
  ofText ("  // Configure the client to use the local cluster\n" ++
    "  anchor.setProvider(anchor.AnchorProvider.env());\n\n" ++
    "  const program = anchor.workspace.").toList ++ pascalCaseProgramName ++
    ofText " as anchor.Program<".toList ++ pascalCaseProgramName ++ ofText ">;\n  ".toList

/-- The definitions of a client. -/
def clientProgram (pascalCaseProgramName : CodeUnits) : CodeUnits :=
  ofText ("\n// Configure the client to use the local cluster\n" ++
    "anchor.setProvider(anchor.AnchorProvider.env());\n\n" ++
    "const program = anchor.workspace.").toList ++ pascalCaseProgramName ++
    ofText " as anchor.Program<".toList ++ pascalCaseProgramName ++ ofText ">;\n".toList

/-- What replaces the globals of the playground in an Anchor script. -/
def pgReplacements : List (CodeUnits × CodeUnits) :=
  [(ofText "pg.program".toList, ofText "program".toList),
    (ofText "pg.PROGRAM_ID".toList, ofText "program.programId".toList),
    (ofText "pg.connection".toList, ofText "program.provider.connection".toList),
    (ofText "pg.wallet.publicKey".toList, ofText "program.provider.publicKey".toList),
    (ofText "pg.wallet.keypair".toList, ofText "program.provider.wallet.payer".toList)]

/-- Try to make the JS/TS file work in a local `node` environment by making the necessary
conversions. -/
def convertJS (content : CodeUnits) (programName : ProgramName) (isTest : Bool) : CodeUnits :=
  let content := handleImports content
  let pascalCaseProgramName := toPascalFromSnake programName.1
  let content := addAfter content importStatement.toMatcher
    (typeImport programName.1 pascalCaseProgramName) false
  let content :=
    if isTest then addAfter content describe (testProgram pascalCaseProgramName) true
    else addAfter content importStatement.toMatcher (clientProgram pascalCaseProgramName) false
  replacePg pgReplacements content

end Anchor
end Solpg.Client.Frameworks
