import Solpg.Std.Text

/-!
# Comments and strings of Rust

Where the characters of a Rust source stand: in code, in a comment or in a literal. Block
comments nest, and a string goes on over the ends of lines.
-/

namespace Solpg.Std.RustSource

/-- What the characters so far have left open. -/
inductive Mode where
  /-- Code, with the identifier that ends here. -/
  | code (word : Text)
  | slash
  | lineComment
  /-- A block comment, and how many are open around it. -/
  | comment (depth : Nat)
  | commentSlash (depth : Nat)
  | commentStar (depth : Nat)
  | string
  | stringEscape
  /-- `r##`, before the quotation mark. -/
  | rawStart (hashes : Nat)
  | raw (hashes : Nat)
  /-- A quotation mark in a raw string, and how many hashes are missing after it. -/
  | rawEnd (hashes missing : Nat)
  | quote
  /-- A quote and one character: a literal if another quote comes now, and a lifetime if not. -/
  | character
  | characterEscape
  | characterEnd
  deriving DecidableEq, Repr

/-- A character of an identifier. -/
def isIdentifier (char : Char) : Bool := char.isAlphanum || char = '_' || 128 ≤ char.toNat

/-- What can stand before a raw string. -/
def rawPrefixes : List Text := ["r".toList, "br".toList, "cr".toList]

/-- One more character of code. -/
def codeStep (word : Text) (char : Char) : Mode :=
  if char = '/' then .slash
  else if char = '"' then if word ∈ rawPrefixes then .raw 0 else .string
  else if char = '#' ∧ word ∈ rawPrefixes then .rawStart 1
  else if char = '\'' then .quote
  else if isIdentifier char then .code (word ++ [char])
  else .code []

/-- One more character of the source. -/
def step (mode : Mode) (char : Char) : Mode :=
  match mode with
  | .code word => codeStep word char
  | .slash =>
      if char = '/' then .lineComment else if char = '*' then .comment 0 else codeStep [] char
  | .lineComment => if char = '\n' then .code [] else .lineComment
  | .comment depth =>
      if char = '/' then .commentSlash depth
      else if char = '*' then .commentStar depth
      else .comment depth
  | .commentSlash depth =>
      if char = '*' then .comment (depth + 1)
      else if char = '/' then .commentSlash depth
      else .comment depth
  | .commentStar depth =>
      if char = '/' then if depth = 0 then .code [] else .comment (depth - 1)
      else if char = '*' then .commentStar depth
      else .comment depth
  | .string => if char = '"' then .code [] else if char = '\\' then .stringEscape else .string
  | .stringEscape => .string
  | .rawStart hashes =>
      if char = '#' then .rawStart (hashes + 1)
      else if char = '"' then .raw hashes
      else codeStep [] char
  | .raw hashes =>
      if char = '"' then if hashes = 0 then .code [] else .rawEnd hashes hashes else .raw hashes
  | .rawEnd hashes missing =>
      if char = '#' then if missing = 1 then .code [] else .rawEnd hashes (missing - 1)
      else if char = '"' then .rawEnd hashes hashes
      else .raw hashes
  | .quote => if char = '\\' then .characterEscape else if char = '\n' then .code [] else .character
  | .character => if char = '\'' then .code [] else codeStep ['\''] char
  | .characterEscape => .characterEnd
  | .characterEnd => if char = '\'' then .code [] else .characterEnd

/-- The mode after a text. -/
def run (mode : Mode) (text : Text) : Mode := text.foldl step mode

/-- The reader is in code. -/
def Mode.isCode : Mode → Bool
  | .code _ | .slash | .rawStart _ | .quote | .character => true
  | _ => false

/-- What comes after this text is code. -/
def endsInCode (text : Text) : Bool := (run (.code []) text).isCode

end Solpg.Std.RustSource
