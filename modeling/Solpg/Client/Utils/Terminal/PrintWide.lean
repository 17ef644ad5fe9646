import Solpg.Std.Chunks
import Solpg.Std.CodeUnits
import Solpg.Std.ForLoop
import Mathlib.Data.List.Flatten

/-!
# Printing a list in wide format

`printWide` divides the width of the terminal by the width of its items, and the number of
items by that quotient. An item that is wider than the terminal makes the first quotient
zero and the second infinite.
-/

namespace Solpg.Client.Utils.PgTty

open Solpg.Std Looping CodeUnits

/-- `" ".repeat` of a negative count. -/
inductive RangeError where
  | invalidCountValue (count : Int)
  deriving DecidableEq, Repr

/-- `" ".repeat(count)` -/
def repeatSpace (count : Int) : Looping RangeError CodeUnits :=
  if count < 0 then throw (.invalidCountValue count) else ok (List.replicate count.toNat space)

section

variable (items : List CodeUnits) (itemWidth : Int)

/-- A turn of the inner loop: the state is the index of the next item and the row. -/
def printColumn (_col : Nat) : Nat × CodeUnits → Looping RangeError (Nat × CodeUnits)
  | (i, rowStr) =>
    match items[i]? with
    | some item => do
        let rest ← repeatSpace (itemWidth - item.length)
        ok (i + 1, rowStr ++ (item ++ rest))
    | none => ok (i, rowStr)

/-- A turn of the outer loop: the state is the index of the next item and what has been
printed, line by line. -/
def printRow (wideCols : Count) (fuel : Nat) (_row : Nat) :
    Nat × List CodeUnits → Looping RangeError (Nat × List CodeUnits)
  | (i, printed) => do
    let (i, rowStr) ← forLoop wideCols (printColumn items itemWidth) fuel 0 (i, [])
    ok (i, printed ++ [rowStr])

end

/-- The length of the longest item. -/
def longest (items : List CodeUnits) : Nat :=
  items.foldl (fun width item => max width item.length) 0

/-- Print a list of items using a wide-format. -/
def printWide (fuel cols : Nat) (items : List CodeUnits) (padding : Int) :
    Looping RangeError (List CodeUnits) :=
  if items = [] then ok [[]]
  else do
    let itemWidth := longest items + padding
    let wideCols := Count.floorDiv cols itemWidth
    let wideRows := Count.ceilDiv items.length wideCols
    let (_, printed) ← forLoop wideRows (printRow items itemWidth wideCols fuel) fuel 0 (0, [])
    ok printed

/-- The line of a row: each item is filled up to the width with spaces. -/
def rowText (itemWidth : Int) (row : List CodeUnits) : CodeUnits :=
  row.flatMap fun item => item ++ List.replicate (itemWidth - item.length).toNat space

variable {items : List CodeUnits} {itemWidth : Int} {start col row size fuel cols : Nat}

/-- The items that a row has when so many of its columns are prepared. -/
structure Prepares (items : List CodeUnits) (itemWidth : Int) (start col : Nat)
    (state : Nat × CodeUnits) : Prop where
  next : state.1 = min items.length (start + col)
  text : state.2 = rowText itemWidth ((items.drop start).take col)
  fits : ∀ item ∈ (items.drop start).take col, (item.length : Int) ≤ itemWidth

theorem repeatSpace_eq_ok {count : Int} {spaces : CodeUnits} :
    repeatSpace count = ok spaces ↔ 0 ≤ count ∧ List.replicate count.toNat space = spaces := by
  rw [repeatSpace]
  split
  next negative =>
    constructor
    · exact nofun
    · exact fun both => absurd both.1 (Int.not_le.mpr negative)
  next counts =>
    constructor
    · intro same
      cases same
      exact ⟨Int.not_lt.mp counts, rfl⟩
    · rintro ⟨_, rfl⟩
      rfl

theorem rowText_concat (earlier : List CodeUnits) (item : CodeUnits) :
    rowText itemWidth (earlier ++ [item]) = rowText itemWidth earlier ++
      (item ++ List.replicate (itemWidth - item.length).toNat space) := by
  rw [rowText, List.flatMap_append, List.flatMap_singleton]
  rfl

/-- A turn of the inner loop prepares one more column. -/
theorem printColumn_prepares {state next : Nat × CodeUnits}
    (prepares : Prepares items itemWidth start col state)
    (turned : printColumn items itemWidth col state = ok next) :
    Prepares items itemWidth start (col + 1) next := by
  obtain ⟨i, rowStr⟩ := state
  obtain ⟨rfl, rfl, fits⟩ := prepares
  rw [printColumn] at turned
  by_cases more : start + col < items.length
  · have there : items[min items.length (start + col)]? = some items[start + col] := by
      rw [Nat.min_eq_right (Nat.le_of_lt more), List.getElem?_eq_getElem more]
    have taken : (items.drop start).take (col + 1) =
        (items.drop start).take col ++ [items[start + col]] := by
      rw [List.take_succ_eq_append_getElem (by rw [List.length_drop]; omega), List.getElem_drop]
    simp only [there] at turned
    obtain ⟨rest, repeated, same⟩ := bind_eq_ok.mp turned
    obtain ⟨room, rfl⟩ := repeatSpace_eq_ok.mp repeated
    obtain rfl := ok_inj.mp same
    refine ⟨?_, ?_, ?_⟩
    · simp only
      omega
    · rw [taken, rowText_concat]
    · rw [taken]
      intro item among
      obtain before | new := List.mem_append.mp among
      · exact fits item before
      · obtain rfl := List.mem_singleton.mp new
        omega
  · have none : items[min items.length (start + col)]? = none :=
      List.getElem?_eq_none (by omega)
    have whole : (items.drop start).take (col + 1) = (items.drop start).take col := by
      rw [List.take_of_length_le, List.take_of_length_le]
      · rw [List.length_drop]
        omega
      · rw [List.length_drop]
        omega
    simp only [none] at turned
    obtain rfl := ok_inj.mp turned
    refine ⟨?_, ?_, ?_⟩
    · simp only
      omega
    · rw [whole]
    · rwa [whole]

/-- The items that are printed after so many rows of `size` columns. -/
structure Prints (items : List CodeUnits) (itemWidth : Int) (size row : Nat)
    (state : Nat × List CodeUnits) : Prop where
  next : state.1 = min items.length (row * size)
  lines : state.2 = (List.range row).map fun index => rowText itemWidth (Chunks.chunk items size index)
  fits : ∀ item ∈ items.take (row * size), (item.length : Int) ≤ itemWidth

/-- The columns of a row are prepared one after another. -/
theorem forLoop_prepares {state finish : Nat × CodeUnits}
    (begun : Prepares items itemWidth start 0 state)
    (returns : forLoop (.finite size) (printColumn items itemWidth) fuel 0 state = ok finish) :
    Prepares items itemWidth start size finish := by
  obtain ⟨last, ⟨prepares, least⟩, ends⟩ := forLoop_returns
    (fun col state => Prepares items itemWidth start col state ∧ col ≤ size)
    (fun holds goes turned => ⟨printColumn_prepares holds.1 turned, by
      have below := of_decide_eq_true goes
      omega⟩)
    ⟨begun, Nat.zero_le size⟩ returns
  obtain rfl : last = size := by
    have reached := of_decide_eq_false ends
    omega
  exact prepares

/-- A turn of the outer loop prints one more row. -/
theorem printRow_prints {state next : Nat × List CodeUnits}
    (prints : Prints items itemWidth size row state)
    (turned : printRow items itemWidth (.finite size) fuel row state = ok next) :
    Prints items itemWidth size (row + 1) next := by
  obtain ⟨i, printed⟩ := state
  obtain ⟨rfl, rfl, fits⟩ := prints
  obtain ⟨⟨i, rowStr⟩, looped, same⟩ := bind_eq_ok.mp turned
  obtain rfl := ok_inj.mp same
  have begun : Prepares items itemWidth (row * size) 0 (min items.length (row * size), []) :=
    ⟨rfl, rfl, fun item among => nomatch (List.take_zero (l := _) ▸ among)⟩
  obtain ⟨rfl, rfl, fitsRow⟩ := forLoop_prepares begun looped
  refine ⟨by rw [Nat.succ_mul], ?_, ?_⟩
  · rw [List.range_succ, List.map_append, List.map_singleton, Chunks.chunk, Chunks.slice,
      Nat.add_sub_cancel_left]
  · rw [Nat.succ_mul, List.take_add]
    intro item among
    obtain before | new := List.mem_append.mp among
    · exact fits item before
    · exact fitsRow item new

/-- Items that fit never make `repeat` throw, and a row ends after its columns. -/
theorem printRow_turns (fitting : ∀ item ∈ items, (item.length : Int) ≤ itemWidth)
    (enough : size < fuel) (row : Nat) (state : Nat × List CodeUnits) :
    ∃ next, printRow items itemWidth (.finite size) fuel row state = ok next := by
  obtain ⟨i, printed⟩ := state
  have turns : ∀ col (state : Nat × CodeUnits),
      ∃ next, printColumn items itemWidth col state = ok next := by
    rintro col ⟨i, rowStr⟩
    rw [printColumn]
    cases there : items[i]? with
    | none => exact ⟨_, rfl⟩
    | some item =>
        have room := fitting item (List.mem_of_getElem? there)
        exact ⟨_, bind_eq_ok.mpr ⟨_, repeatSpace_eq_ok.mpr ⟨by omega, rfl⟩, rfl⟩⟩
  have bounded : ∀ index, (Count.finite size).above index = true → index < size := by
    intro index goes
    have below := of_decide_eq_true goes
    omega
  obtain ⟨finish, looped⟩ := forLoop_ends (fun _ _ => True) (fun _ _ _ => trivial)
    (fun {col state} _ _ => turns col state) bounded trivial (by rwa [Nat.sub_zero])
  exact ⟨_, bind_eq_ok.mpr ⟨finish, looped, rfl⟩⟩

theorem longest_eq (items : List CodeUnits) : longest items = (items.map List.length).max?.getD 0 := by
  rw [longest, ← List.foldl_map (f := List.length) (g := max), List.foldl_max]
  exact Nat.max_eq_right (Nat.zero_le _)

theorem length_le_longest {item : CodeUnits} (among : item ∈ items) : item.length ≤ longest items := by
  rw [longest_eq]
  exact List.le_max?_getD_of_mem (List.mem_map_of_mem among)

theorem exists_longest (some : items ≠ []) : ∃ item ∈ items, item.length = longest items := by
  rw [longest_eq]
  cases most : (items.map List.length).max? with
  | none =>
      rw [List.max?_eq_none_iff, List.map_eq_nil_iff] at most
      exact absurd most some
  | some length => exact List.mem_map.mp (List.max?_mem most)

/-- It ends, and the lines have every item once and in order. -/
def PrintsItems (cols : Nat) (items : List CodeUnits) (padding : Int) : Prop :=
  ∃ (fuel : Nat) (rows : List (List CodeUnits)),
    printWide fuel cols items padding = ok (rows.map (rowText (longest items + padding))) ∧
      rows.flatten = items

theorem printWide_eq (some : items ≠ []) (fuel cols : Nat) (padding : Int) (lines : List CodeUnits) :
    printWide fuel cols items padding = ok lines ↔
      ∃ i, forLoop (.ceilDiv items.length (.floorDiv cols (longest items + padding)))
        (printRow items (longest items + padding) (.floorDiv cols (longest items + padding)) fuel)
        fuel 0 (0, []) = ok (i, lines) := by
  rw [printWide, if_neg some, bind_eq_ok]
  constructor
  · rintro ⟨⟨i, printed⟩, looped, same⟩
    obtain rfl := ok_inj.mp same
    exact ⟨i, looped⟩
  · rintro ⟨i, looped⟩
    exact ⟨⟨i, lines⟩, looped, rfl⟩

section

variable {padding : Int} {lines : List CodeUnits}

/-- Without a width there is no row. -/
theorem printWide_narrow (positive : 0 < cols) (some : items ≠ [])
    (narrow : longest items + padding ≤ 0) (prints : printWide fuel cols items padding = ok lines) :
    lines = [] := by
  obtain ⟨i, looped⟩ := (printWide_eq some fuel cols padding lines).mp prints
  have none := Count.above_ceilDiv_floorDiv (Int.natCast_pos.mpr positive) narrow items.length 0
  exact (Prod.mk.inj (forLoop_none none looped)).2

/-- Without a column there is no last row. -/
theorem printWide_endless (some : items ≠ []) (wide : cols < longest items + padding) :
    printWide fuel cols items padding ≠ ok lines := by
  intro prints
  obtain ⟨i, looped⟩ := (printWide_eq some fuel cols padding lines).mp prints
  have columns : Count.floorDiv cols (longest items + padding) = .finite 0 := by
    rw [Count.floorDiv, if_neg (by omega), Int.fdiv_eq_ediv_of_nonneg _ (by omega),
      Int.ediv_eq_zero_of_lt (by omega) (by omega)]
  obtain ⟨last, -, ends⟩ := forLoop_returns (fun _ _ => True) (fun _ _ _ => trivial) trivial looped
  rw [columns] at ends
  exact absurd ends (by simp [Count.ceilDiv, Count.above])

/-- The number of columns, where there is one. -/
theorem exists_columns (some : 0 < longest items + padding) (wide : longest items + padding ≤ cols) :
    ∃ size : Nat, 0 < size ∧ Count.floorDiv cols (longest items + padding) = .finite size := by
  obtain ⟨width, same⟩ := Int.eq_ofNat_of_zero_le (Int.le_of_lt some)
  rw [same] at some wide ⊢
  refine ⟨cols / width, Nat.div_pos (by omega) (by omega), ?_⟩
  rw [Count.floorDiv, if_neg (by omega), Int.fdiv_eq_ediv_of_nonneg _ (by omega), Int.natCast_ediv]

/-- Rows that are printed to the end have all items, and these are not wider than a column. -/
theorem printWide_prints (some : items ≠ []) (positive : 0 < size)
    (columns : Count.floorDiv cols (longest items + padding) = .finite size)
    (prints : printWide fuel cols items padding = ok lines) :
    (∃ rows : List (List CodeUnits), lines = rows.map (rowText (longest items + padding)) ∧
      rows.flatten = items) ∧
      ∀ item ∈ items, (item.length : Int) ≤ longest items + padding := by
  obtain ⟨i, looped⟩ := (printWide_eq some fuel cols padding lines).mp prints
  rw [columns] at looped
  have begun : Prints items (longest items + padding) size 0 (0, []) := by
    refine ⟨by simp, rfl, ?_⟩
    rw [Nat.zero_mul, List.take_zero]
    exact nofun
  obtain ⟨last, ⟨-, text, fits⟩, ends⟩ := forLoop_returns (Prints items (longest items + padding) size)
    (fun holds _ turned => printRow_prints holds turned) begun looped
  have enough : items.length ≤ last * size := by
    by_contra more
    rw [(Count.above_ceilDiv positive last).mpr (Nat.lt_of_not_le more)] at ends
    exact absurd ends nofun
  rw [List.take_of_length_le enough] at fits
  refine ⟨⟨(List.range last).map (Chunks.chunk items size), ?_, ?_⟩, fits⟩
  · rw [List.map_map]
    exact text
  · rw [Chunks.flatten_take, List.take_of_length_le enough]

/-- Items that are not wider than a column are printed to the end. -/
theorem printWide_ends (some : items ≠ []) (positive : 0 < size)
    (columns : Count.floorDiv cols (longest items + padding) = .finite size)
    (fitting : ∀ item ∈ items, (item.length : Int) ≤ longest items + padding) :
    ∃ fuel lines, printWide fuel cols items padding = ok lines := by
  have bounded : ∀ row, (Count.ceilDiv items.length (.finite size)).above row = true →
      row < items.length := by
    intro row goes
    have more := (Count.above_ceilDiv positive row).mp goes
    exact Nat.lt_of_le_of_lt (Nat.le_mul_of_pos_right row positive) more
  have looped : ∃ finish, forLoop (.ceilDiv items.length (.finite size))
      (printRow items (longest items + padding) (.finite size) (size + items.length + 1))
      (size + items.length + 1) 0 (0, []) = ok finish :=
    forLoop_ends (fun _ _ => True) (fun _ _ _ => trivial)
      (fun {row state} _ _ => printRow_turns fitting (by omega) row state) bounded trivial (by omega)
  obtain ⟨⟨i, lines⟩, looped⟩ := looped
  refine ⟨size + items.length + 1, lines, (printWide_eq some _ cols padding lines).mpr ⟨i, ?_⟩⟩
  rw [columns]
  exact looped

end

/-- Every item is printed exactly when there is none, or when the padding is not negative and
the longest item, with it, is not empty and fits into the terminal. -/
theorem printsItems_iff (positive : 0 < cols) (items : List CodeUnits) (padding : Int) :
    PrintsItems cols items padding ↔
      items = [] ∨ (0 ≤ padding ∧ 0 < longest items + padding ∧ longest items + padding ≤ cols) := by
  by_cases some : items = []
  · subst some
    exact ⟨fun _ => .inl rfl, fun _ => ⟨0, [[]], rfl, rfl⟩⟩
  · rw [or_iff_right some]
    constructor
    · rintro ⟨fuel, rows, prints, all⟩
      have begun : 0 < longest items + padding := by
        by_contra narrow
        have none := printWide_narrow positive some (Int.not_lt.mp narrow) prints
        rw [List.map_eq_nil_iff.mp none, List.flatten_nil] at all
        exact some all.symm
      have wide : longest items + padding ≤ cols := by
        by_contra endless
        exact printWide_endless some (Int.not_le.mp endless) prints
      obtain ⟨size, columns, same⟩ := exists_columns begun wide
      obtain ⟨item, among, length⟩ := exists_longest some
      have fits := (printWide_prints some columns same prints).2 item among
      exact ⟨by omega, begun, wide⟩
    · rintro ⟨padded, begun, wide⟩
      obtain ⟨size, columns, same⟩ := exists_columns begun wide
      obtain ⟨fuel, lines, prints⟩ := printWide_ends some columns same fun item among => by
        have most := length_le_longest among
        omega
      obtain ⟨⟨rows, rfl, all⟩, -⟩ := printWide_prints some columns same prints
      exact ⟨fuel, rows, prints, all⟩

/-- Three items in two columns. -/
theorem printsItems_two_columns :
    PrintsItems 10 [CodeUnits.ofText ['l', 's'], CodeUnits.ofText ['r', 'm'],
      CodeUnits.ofText ['c', 'd']] 2 :=
  (printsItems_iff (by decide) _ _).mpr (by decide)

/-- On a terminal of two columns an item of three units makes the loop endless. -/
theorem not_printsItems_wide : ¬ PrintsItems 2 [CodeUnits.ofText ['a', 'b', 'c']] 2 := by
  rintro ⟨fuel, rows, prints, -⟩
  exact printWide_endless (by decide) (by decide) prints

end Solpg.Client.Utils.PgTty
