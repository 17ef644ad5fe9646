import Solpg.Std.Text
import Solpg.Std.Words

/-!
# Formatting a list for the terminal

`formatList` puts the words of each column into chunks that are not longer than a line. A
word that it cannot put into a chunk, because it is empty or too long on its own, keeps all
later ones of its column out.
-/

namespace Solpg.Client.Utils.PgTerminal

open Solpg.Std Words

/-- The columns of an item, the first of which the list is sorted by. -/
structure Row where
  name : Text
  others : List Text
  deriving DecidableEq, Repr

/-- The columns of a row, its name first. -/
def Row.columns (row : Row) : List Text := row.name :: row.others

/-- An item of the list. The values of an object that are not strings are `none`. -/
inductive ListItem where
  | columns (row : Row)
  | object (name : Text) (values : List (Option Text))
  deriving DecidableEq, Repr

/-- The row of an item: an object gives its values that are there. -/
def ListItem.row : ListItem → Row
  | .columns row => row
  | .object name values => ⟨name, values.filterMap id⟩

/-- Whether columns are aligned, or rows. -/
inductive Align where
  | x
  | y
  deriving DecidableEq, Repr

/-- `/^[a-zA-Z-]+$/` -/
def isAllowed (name : Text) : Bool :=
  name ≠ [] ∧ name.all fun char => char.isAlpha || char = '-'

/-- The order of the rows. -/
def compareRows (localeCompare : Text → Text → Int) (a b : Row) : Int :=
  if ¬ isAllowed a.name then 1
  else if ¬ isAllowed b.name then -1
  else localeCompare a.name b.name

/-- The greatest width of a column. -/
def maxChars : Nat := 80

/-- Words with single spaces between them. -/
def joinWords (words : List Text) : Text := [' '].intercalate words

/-- The `while` loop: the chunk with the words that still fit, and the words that are left. -/
def fillChunk : List Text → List Text → List Text × List Text
  | chunk, [] => (chunk, [])
  | chunk, word :: rest =>
      if word ≠ [] ∧ Text.utf16Length (joinWords (chunk ++ [word])) ≤ maxChars then
        fillChunk (chunk ++ [word]) rest
      else (chunk, word :: rest)

/-- The `for` loop. A chunk that no word is put into is not in the list. -/
def fillChunks : Nat → List Text → List (List Text)
  | 0, _ => []
  | turns + 1, words =>
      match fillChunk [] words with
      | ([], rest) => fillChunks turns rest
      | (chunk, rest) => chunk :: fillChunks turns rest

/-- An item divided at its spaces into lines that fit. -/
def chunksOf (item : Text) : List (List Text) :=
  let words := item.splitOn ' '
  fillChunks words.length words

/-- The lines of an item. -/
def joinChunks (indent : Text) (chunks : List (List Text)) : Text :=
  indent.intercalate (chunks.map joinWords)

/-- What a further line of an item starts with. -/
def indent : Text := ['\n', '\t']

/-- The space between columns. -/
def spaces (count : Nat) : Text := List.replicate count ' '

/-- What a column adds to its row: `none` is that a row has no column before it to be
aligned with. -/
def formatColumn (align : Align) (rows : List Row) (row : Row) (i : Nat) (item : Text) :
    Option Text :=
  match align, i with
  | .x, 0 => some (joinChunks indent (chunksOf item))
  | .x, previous + 1 => do
      let lengths ← rows.mapM fun items => items.columns[previous]?.map Text.utf16Length
      let previousRowLen ← row.columns[previous]?.map Text.utf16Length
      let longestPreviousRowLen := lengths.foldl max 0
      let missingWhitespace := longestPreviousRowLen - previousRowLen
      let whitespace := spaces (24 + missingWhitespace)
      let nextIndent := indent ++ spaces previousRowLen ++ whitespace
      some (whitespace ++ joinChunks nextIndent (chunksOf item))
  | .y, 0 => some (joinChunks indent (chunksOf item))
  | .y, _ + 1 => some (indent ++ joinChunks indent (chunksOf item))

/-- The row from its column `i` on. -/
def formatColumns (align : Align) (rows : List Row) (row : Row) : Nat → List Text → Text → Option Text
  | _, [], acc => some acc
  | i, item :: rest, acc => do
      let text ← formatColumn align rows row i item
      formatColumns align rows row (i + 1) rest (acc ++ text)

/-- The loop over the rows. -/
def formatRows (align : Align) (rows : List Row) : List Row → Text → Option Text
  | [], acc => some acc
  | row :: rest, acc => do
      let output ← formatColumns align rows row 0 row.columns []
      formatRows align rows rest (acc ++ ('\t' :: output ++ ['\n']))

/-- Format the given list for terminal view. -/
def formatList (sort : (Row → Row → Int) → List Row → List Row)
    (localeCompare : Text → Text → Int) (align : Align) (list : List ListItem) : Option Text :=
  let rows := sort (compareRows localeCompare) (list.map ListItem.row)
  formatRows align rows rows []

/-- What separates words. -/
def isBreak (char : Char) : Bool := char = ' ' ∨ char = '\t' ∨ char = '\n'

/-- A word that the chunks can have. -/
def Fits (word : Text) : Bool := word ≠ [] ∧ Text.utf16Length word ≤ maxChars

/-- Only blank pieces are left after the first one that no chunk can have. -/
def Wraps (column : Text) : Prop :=
  ∀ piece ∈ (column.splitOn ' ').dropWhile Fits, words isBreak piece = []

instance (column : Text) : Decidable (Wraps column) := inferInstanceAs (Decidable (∀ _ ∈ _, _))

section Chunks

/-- The length of two texts together. -/
theorem utf16Length_append (first second : Text) :
    Text.utf16Length (first ++ second) = Text.utf16Length first + Text.utf16Length second := by
  simp [Text.utf16Length]

/-- A word is not longer than the chunk that it ends. -/
theorem utf16Length_le_joinWords (chunk : List Text) (word : Text) :
    Text.utf16Length word ≤ Text.utf16Length (joinWords (chunk ++ [word])) := by
  induction chunk with
  | nil => simp [joinWords]
  | cons first rest ih =>
      obtain ⟨next, others, more⟩ := List.exists_cons_of_ne_nil
        (List.append_ne_nil_of_right_ne_nil rest (List.cons_ne_nil word []))
      have joined : joinWords (first :: rest ++ [word]) =
          first ++ ([' '] ++ joinWords (rest ++ [word])) := by
        simp [joinWords, List.intercalate, more]
      rw [joined, utf16Length_append, utf16Length_append]
      omega

/-- The first word of a chunk only has to fit alone. -/
theorem fillChunk_nil (word : Text) (rest : List Text) :
    fillChunk [] (word :: rest) =
      if Fits word then fillChunk [word] rest else ([], word :: rest) := by
  simp [fillChunk, Fits, joinWords]

/-- What fits is taken from the words in order. -/
theorem fillChunk_spec (chunk words : List Text) : ∃ taken,
    (fillChunk chunk words).1 = chunk ++ taken ∧ taken ++ (fillChunk chunk words).2 = words ∧
      ∀ word ∈ taken, Fits word = true := by
  induction words generalizing chunk with
  | nil => exact ⟨[], by simp [fillChunk], by simp [fillChunk], nofun⟩
  | cons word rest ih =>
      rw [fillChunk]
      split
      next fits =>
        obtain ⟨taken, filled, left, all⟩ := ih (chunk ++ [word])
        refine ⟨word :: taken, by simp [filled], by simp [left], ?_⟩
        intro other among
        obtain rfl | later := List.mem_cons.mp among
        · have short := utf16Length_le_joinWords chunk other
          simp only [Fits, decide_eq_true_eq]
          exact ⟨fits.1, Nat.le_trans short fits.2⟩
        · exact all other later
      next => exact ⟨[], by simp, by simp, nofun⟩

/-- A word that no chunk can have stays, with all that follow. -/
theorem fillChunks_stuck {word : Text} (long : Fits word = false) (rest : List Text) (turns : Nat) :
    fillChunks turns (word :: rest) = [] := by
  induction turns with
  | zero => rfl
  | succ turns ih =>
      rw [fillChunks, fillChunk_nil, if_neg (by simp [long])]
      exact ih

/-- The chunks have the words before the first one that no chunk can have. -/
theorem flatten_fillChunks {turns : Nat} {words : List Text} (enough : words.length ≤ turns) :
    (fillChunks turns words).flatten = words.takeWhile Fits := by
  induction turns generalizing words with
  | zero =>
      obtain rfl := List.eq_nil_of_length_eq_zero (Nat.le_zero.mp enough)
      rfl
  | succ turns ih =>
      cases words with
      | nil =>
          rw [fillChunks, fillChunk]
          exact ih (Nat.zero_le turns)
      | cons word rest =>
          cases fits : Fits word with
          | false =>
              rw [fillChunks_stuck fits, List.takeWhile_cons_of_neg (by simp [fits])]
              rfl
          | true =>
              obtain ⟨taken, filled, left, all⟩ := fillChunk_spec [word] rest
              have turn : fillChunk [] (word :: rest) =
                  (word :: taken, (fillChunk [word] rest).2) := by
                rw [fillChunk_nil, if_pos fits]
                exact Prod.ext filled rfl
              have shorter : (fillChunk [word] rest).2.length ≤ turns := by
                have lengths := congrArg List.length left
                rw [List.length_append] at lengths
                rw [List.length_cons] at enough
                omega
              rw [fillChunks, turn, List.flatten_cons, ih shorter, List.takeWhile_cons_of_pos fits,
                List.cons_append, ← List.takeWhile_append_of_pos all, left]

end Chunks

/-- Spaces have no words. -/
theorem blank_spaces (count : Nat) : Blank isBreak (spaces count) := by
  intro char among
  obtain rfl := List.eq_of_mem_replicate among
  rfl

/-- The indent has no words. -/
theorem blank_indent : Blank isBreak indent := by
  intro char among
  obtain rfl | rfl : char = '\n' ∨ char = '\t' := by simpa [indent] using among
  · rfl
  · rfl

/-- The words of the chunks, whatever the lines are indented by. -/
theorem words_joinChunks {gap : Text} (blank : Blank isBreak gap) (some : gap ≠ [])
    (item : Text) : words isBreak (joinChunks gap (chunksOf item)) =
      ((item.splitOn ' ').takeWhile Fits).flatMap (words isBreak) := by
  have blankSpace : Blank isBreak [' '] := by
    intro char among
    obtain rfl := List.mem_singleton.mp among
    rfl
  rw [joinChunks, words_intercalate blank some, List.flatMap_map, chunksOf,
    ← flatten_fillChunks (Nat.le_refl _), List.flatten_eq_flatMap, List.flatMap_assoc]
  congr 1
  funext chunk
  exact words_intercalate blankSpace (List.cons_ne_nil _ _) chunk

/-- The words of a column that are shown. -/
def shown (item : Text) : List Text := ((item.splitOn ' ').takeWhile Fits).flatMap (words isBreak)

/-- The words of a column that are not. -/
def lost (item : Text) : List Text := ((item.splitOn ' ').dropWhile Fits).flatMap (words isBreak)

/-- The words of an item are shown or lost. -/
theorem shown_append_lost (item : Text) : shown item ++ lost item = words isBreak item := by
  rw [shown, lost, ← List.flatMap_append, List.takeWhile_append_dropWhile,
    flatMap_words_splitOn rfl]

/-- An item loses nothing when it wraps. -/
theorem lost_eq_nil_iff (item : Text) : lost item = [] ↔ Wraps item := List.flatMap_eq_nil_iff

variable {align : Align} {rows : List Row} {row : Row} {i : Nat} {item acc text : Text}

/-- A column adds a gap, unless it is the first one, and its chunks with gaps in between. -/
theorem formatColumn_gaps (formats : formatColumn align rows row i item = some text) :
    ∃ gap nextIndent, text = gap ++ joinChunks nextIndent (chunksOf item) ∧
      Blank isBreak gap ∧ (gap = [] ↔ i = 0) ∧ Blank isBreak nextIndent ∧ nextIndent ≠ [] := by
  cases align with
  | x =>
      cases i with
      | zero => exact ⟨[], indent, (Option.some.inj formats).symm, nofun, by simp, blank_indent, nofun⟩
      | succ previous =>
          obtain ⟨lengths, _, formats⟩ := Option.bind_eq_some_iff.mp formats
          obtain ⟨previousRowLen, _, formats⟩ := Option.bind_eq_some_iff.mp formats
          refine ⟨_, _, (Option.some.inj formats).symm, blank_spaces _, ?_, ?_, ?_⟩
          · simp [spaces]
          · exact (blank_indent.append (blank_spaces _)).append (blank_spaces _)
          · simp [indent]
  | y =>
      cases i with
      | zero => exact ⟨[], indent, (Option.some.inj formats).symm, nofun, by simp, blank_indent, nofun⟩
      | succ previous =>
          exact ⟨indent, indent, (Option.some.inj formats).symm, blank_indent, by simp [indent],
            blank_indent, nofun⟩

/-- A column adds its words that are shown. -/
theorem words_append_formatColumn (formats : formatColumn align rows row i item = some text)
    (first : i = 0 → acc = []) :
    words isBreak (acc ++ text) = words isBreak acc ++ shown item := by
  obtain ⟨gap, nextIndent, rfl, blankGap, empty, blank, some⟩ := formatColumn_gaps formats
  rw [shown, ← words_joinChunks blank some item]
  by_cases start : i = 0
  · rw [empty.mpr start, first start, words_nil]
    rfl
  · exact words_append_gap blankGap (mt empty.mp start)

/-- A row shows what its columns show. -/
theorem words_formatColumns {items : List Text}
    (formats : formatColumns align rows row i items acc = some text) (first : i = 0 → acc = []) :
    words isBreak text = words isBreak acc ++ items.flatMap shown := by
  induction items generalizing i acc with
  | nil =>
      obtain rfl := Option.some.inj formats
      simp
  | cons item rest ih =>
      obtain ⟨added, column, formats⟩ := Option.bind_eq_some_iff.mp formats
      rw [ih formats nofun, words_append_formatColumn column first, List.flatMap_cons,
        List.append_assoc]

/-- The rows show what their columns show. -/
theorem words_formatRows {list : List Row} (formats : formatRows align rows list acc = some text) :
    words isBreak text = words isBreak acc ++ list.flatMap fun row => row.columns.flatMap shown := by
  induction list generalizing acc with
  | nil =>
      obtain rfl := Option.some.inj formats
      simp
  | cons row rest ih =>
      obtain ⟨output, columns, formats⟩ := Option.bind_eq_some_iff.mp formats
      have line : words isBreak (acc ++ ('\t' :: output ++ ['\n'])) =
          words isBreak acc ++ words isBreak output := by
        rw [List.cons_append, words_append_cons rfl, words_append_cons rfl, words_nil,
          List.append_nil]
      rw [ih formats, line, words_formatColumns columns fun _ => rfl, words_nil, List.flatMap_cons,
        List.append_assoc]
      rfl

/-- Each row has the columns before the last one of each other row. -/
def Aligned (rows : List Row) : Prop :=
  ∀ row ∈ rows, ∀ other ∈ rows, row.columns.length ≤ other.columns.length + 1

instance (rows : List Row) : Decidable (Aligned rows) :=
  inferInstanceAs (Decidable (∀ _ ∈ _, _))

/-- Where no value of the first computation decides whether the second one has a value. -/
theorem isSome_bind_iff {α β : Type} {x : Option α} {f : α → Option β} {P : Prop}
    (every : ∀ value, (f value).isSome = true ↔ P) :
    (x >>= f).isSome = true ↔ x.isSome = true ∧ P := by
  cases x with
  | none => simp
  | some value => simp [every]

/-- A loop ends with a value when each turn does. -/
theorem isSome_mapM_iff {α β : Type} (f : α → Option β) (items : List α) :
    (items.mapM f).isSome = true ↔ ∀ item ∈ items, (f item).isSome = true := by
  induction items with
  | nil => simp
  | cons first rest ih =>
      rw [List.mapM_cons, List.forall_mem_cons, ← ih]
      refine isSome_bind_iff fun value => ?_
      rw [isSome_bind_iff (P := True) fun _ => iff_of_true rfl trivial, and_true]

/-- A column is formatted when every row has it. -/
theorem isSome_formatColumn_iff (among : row ∈ rows) :
    (formatColumn align rows row i item).isSome = true ↔
      (align = .x → ∀ other ∈ rows, i ≤ other.columns.length) := by
  have there : ∀ (other : Row) previous,
      (other.columns[previous]?.map Text.utf16Length).isSome = true ↔
        previous + 1 ≤ other.columns.length := by
    intro other previous
    rw [Option.isSome_map, isSome_getElem?, Nat.succ_le_iff]
  cases align with
  | x =>
      rw [imp_iff_right rfl]
      cases i with
      | zero => exact iff_of_true rfl fun _ _ => Nat.zero_le _
      | succ previous =>
          rw [formatColumn, isSome_bind_iff fun _ => isSome_bind_iff (P := True) fun _ =>
            iff_of_true rfl trivial, isSome_mapM_iff, and_true]
          simp only [there]
          exact ⟨And.left, fun all => ⟨all, all row among⟩⟩
  | y =>
      refine iff_of_true ?_ nofun
      cases i with
      | zero => rfl
      | succ previous => rfl

/-- A row is formatted when every row is as long. -/
theorem isSome_formatColumns_iff (among : row ∈ rows) (i : Nat) (items : List Text) (acc : Text) :
    (formatColumns align rows row i items acc).isSome = true ↔
      (align = .x → items ≠ [] → ∀ other ∈ rows, i + items.length ≤ other.columns.length + 1) := by
  induction items generalizing i acc with
  | nil => exact iff_of_true rfl fun _ some => absurd rfl some
  | cons item rest ih =>
      rw [formatColumns, isSome_bind_iff fun _ => ih _ _, isSome_formatColumn_iff among]
      constructor
      · rintro ⟨here, later⟩ aligned _ other member
        have first := here aligned other member
        rw [List.length_cons]
        by_cases last : rest = []
        · rw [last, List.length_nil]
          omega
        · have more := later aligned last other member
          omega
      · intro all
        refine ⟨fun aligned other member => ?_, fun aligned _ other member => ?_⟩
        · have enough := all aligned (List.cons_ne_nil _ _) other member
          rw [List.length_cons] at enough
          omega
        · have enough := all aligned (List.cons_ne_nil _ _) other member
          rw [List.length_cons] at enough
          omega

/-- The rows are formatted when all are equally long. -/
theorem isSome_formatRows_iff {list : List Row} (among : ∀ row ∈ list, row ∈ rows) (acc : Text) :
    (formatRows align rows list acc).isSome = true ↔
      (align = .x → ∀ row ∈ list, ∀ other ∈ rows,
        row.columns.length ≤ other.columns.length + 1) := by
  induction list generalizing acc with
  | nil => exact iff_of_true rfl fun _ => nofun
  | cons row rest ih =>
      have later := ih fun row member => among row (List.mem_cons_of_mem _ member)
      rw [formatRows, isSome_bind_iff fun _ => later _,
        isSome_formatColumns_iff (among row List.mem_cons_self)]
      simp only [List.forall_mem_cons, Nat.zero_add]
      constructor
      · rintro ⟨first, others⟩ aligned
        exact ⟨first aligned (List.cons_ne_nil _ _), others aligned⟩
      · intro all
        exact ⟨fun aligned _ => (all aligned).1, fun aligned => (all aligned).2⟩

section

variable (sort : (Row → Row → Int) → List Row → List Row) (localeCompare : Text → Text → Int)

/-- The list is formatted, and the words of the text are those of the items in their order. -/
def KeepsWords (align : Align) (list : List ListItem) : Prop :=
  ∃ text, formatList sort localeCompare align list = some text ∧
    words isBreak text = (sort (compareRows localeCompare) (list.map ListItem.row)).flatMap
      fun row => row.columns.flatMap (words isBreak)

variable {sort} {localeCompare}

/-- Every word is kept exactly when no column has a word after an empty piece or one that is
longer than a line, and, where the columns are aligned, no row lacks one to be aligned with. -/
theorem keepsWords_iff (permutes : ∀ compare rows, (sort compare rows).Perm rows) (align : Align)
    (list : List ListItem) :
    KeepsWords sort localeCompare align list ↔
      (∀ item ∈ list, ∀ column ∈ item.row.columns, Wraps column) ∧
        (align = .x → Aligned (list.map ListItem.row)) := by
  have sorted := permutes (compareRows localeCompare) (list.map ListItem.row)
  rw [KeepsWords, formatList]
  generalize sort (compareRows localeCompare) (list.map ListItem.row) = rows at sorted
  have wraps : (∀ item ∈ list, ∀ column ∈ item.row.columns, Wraps column) ↔
      ∀ column ∈ rows.flatMap Row.columns, lost column = [] := by
    simp only [lost_eq_nil_iff, List.mem_flatMap, sorted.mem_iff, List.mem_map]
    constructor
    · rintro all column ⟨_, ⟨item, member, rfl⟩, there⟩
      exact all item member column there
    · intro all item member column there
      exact all column ⟨item.row, ⟨item, member, rfl⟩, there⟩
  have aligned : Aligned (list.map ListItem.row) ↔ Aligned rows := by
    simp only [Aligned, sorted.mem_iff]
  have keeps : ∀ text, formatRows align rows rows [] = some text →
      (words isBreak text = rows.flatMap (fun row => row.columns.flatMap (words isBreak)) ↔
        ∀ column ∈ rows.flatMap Row.columns, lost column = []) := by
    intro text formats
    rw [words_formatRows formats, words_nil, List.nil_append,
      ← flatMap_eq_append_iff _ shown lost]
    simp only [shown_append_lost, List.flatMap_assoc]
  rw [wraps, aligned, Aligned, ← isSome_formatRows_iff (fun _ => id) []]
  constructor
  · rintro ⟨text, formats, all⟩
    exact ⟨(keeps text formats).mp all, Option.isSome_of_eq_some formats⟩
  · rintro ⟨none, formatted⟩
    obtain ⟨text, formats⟩ := Option.isSome_iff_exists.mp formatted
    exact ⟨text, formats, (keeps text formats).mpr none⟩

/-- Two commands, one of them with a description. -/
theorem keepsWords_two_commands :
    KeepsWords (fun _ rows => rows) (fun _ _ => -1) .x
      [.object ['b', 'u', 'i', 'l', 'd'] [some ['B', 'u', 'i', 'l', 'd', ' ', 'i', 't']],
        .columns ⟨['c', 'l', 'e', 'a', 'r'], []⟩] :=
  (keepsWords_iff (fun _ _ => .refl _) _ _).mpr (by decide)

/-- A double space ends the description. -/
theorem not_keepsWords_double_space :
    ¬ KeepsWords (fun _ rows => rows) (fun _ _ => 0) .x
      [.columns ⟨['b', 'u', 'i', 'l', 'd'], [['B', 'u', 'i', 'l', 'd', ' ', ' ', 'i', 't']]⟩] := by
  rintro ⟨text, formats, keeps⟩
  obtain rfl := Option.some.inj formats
  exact absurd keeps (by decide)

end

end Solpg.Client.Utils.PgTerminal
