import Mathlib.Data.List.Basic

/-!
# Chunks of a list

Slices of a list by position, the division of a list into chunks of one size, and
writing a stretch of a list in place. What two slices agree on is said position by
position, so that `omega` finishes a comparison.
-/

namespace Solpg.Std.Chunks

universe u

variable {α : Type u} {list other bytes : List α} {start stop size offset position : Nat}

/-- The elements from one position up to another. -/
def slice (list : List α) (start stop : Nat) : List α := (list.drop start).take (stop - start)

/-- The elements of a slice are those of the list from its start on. -/
theorem getElem?_slice : (slice list start stop)[position]? =
    if position < stop - start then list[start + position]? else none := by
  simp [slice, List.getElem?_take]

/-- A slice is no longer than its bounds allow. -/
theorem length_slice_le : (slice list start stop).length ≤ stop - start :=
  List.length_take_le ..

/-- Slices are equal when the lists agree between the positions. -/
theorem slice_eq_iff : slice list start stop = slice other start stop ↔
    ∀ position, start ≤ position → position < stop → list[position]? = other[position]? := by
  constructor
  · intro same position above below
    have there := congrArg (fun slice => slice[position - start]?) same
    have inside : position - start < stop - start := by omega
    have index : start + (position - start) = position := by omega
    simpa [getElem?_slice, inside, index] using there
  · intro agree
    refine List.ext_getElem? fun index => ?_
    rw [getElem?_slice, getElem?_slice]
    by_cases inside : index < stop - start
    · simp only [inside, if_true]
      exact agree (start + index) (by omega) (by omega)
    · simp [inside]

/-! ## Chunks -/

/-- The chunk with a number. The last one can be shorter. -/
def chunk (list : List α) (size index : Nat) : List α := slice list (index * size) (index * size + size)

/-- The number of chunks, rounded up. -/
def count (size length : Nat) : Nat := (length + size - 1) / size

/-- A number counts when its chunk begins inside the list. -/
theorem lt_count_iff (positive : 0 < size) {length index : Nat} :
    index < count size length ↔ index * size < length := by
  rw [count, Nat.lt_iff_add_one_le, Nat.le_div_iff_mul_le positive, Nat.succ_mul]
  omega

/-- The first chunks together are the beginning of the list. -/
theorem flatten_take (list : List α) (size chunks : Nat) :
    ((List.range chunks).map (chunk list size)).flatten = list.take (chunks * size) := by
  induction chunks with
  | zero => simp
  | succ chunks ih =>
      rw [List.range_succ, List.map_append, List.flatten_append, ih, Nat.succ_mul, List.take_add]
      simp [chunk, slice]

/-- The chunks in order are the list. -/
theorem flatten_chunks (positive : 0 < size) (list : List α) :
    ((List.range (count size list.length)).map (chunk list size)).flatten = list := by
  rw [flatten_take]
  refine List.take_of_length_le ?_
  have last : ¬ count size list.length * size < list.length := by
    rw [← lt_count_iff positive]
    omega
  omega

/-- Every position is in exactly one chunk. -/
theorem existsUnique_chunk (positive : 0 < size) {length position : Nat} (inside : position < length) :
    ∃! index, index < count size length ∧ index * size ≤ position ∧ position < index * size + size := by
  have below : position / size * size ≤ position := Nat.div_mul_le_self _ _
  have above : position < position / size * size + size := Nat.lt_div_mul_add positive
  refine ⟨position / size, ⟨(lt_count_iff positive).mpr (by omega), below, above⟩, ?_⟩
  rintro index ⟨-, least, most⟩
  exact (Nat.div_eq_of_lt_le least (by rw [Nat.succ_mul]; exact most)).symm

/-- No chunk is empty. -/
theorem chunk_ne_nil (positive : 0 < size) {index : Nat} (counts : index < count size list.length) :
    chunk list size index ≠ [] := by
  intro empty
  have first := congrArg List.head? empty
  have begins := (lt_count_iff positive).mp counts
  simp [chunk, slice, List.head?_take, List.head?_drop] at first
  omega

/-! ## Writing in place -/

/-- The list with a stretch of it replaced, where the stretch fits into it. -/
def overlay (list : List α) (offset : Nat) (bytes : List α) : List α :=
  if offset + bytes.length ≤ list.length then
    list.take offset ++ bytes ++ list.drop (offset + bytes.length)
  else list

/-- The laid bytes stand in their places, and the list's own in the others. -/
theorem getElem?_overlay (fits : offset + bytes.length ≤ list.length) :
    (overlay list offset bytes)[position]? =
      if offset ≤ position ∧ position < offset + bytes.length then bytes[position - offset]?
      else list[position]? := by
  have kept : (list.take offset).length = offset := by simp; omega
  rw [overlay, if_pos fits, List.append_assoc]
  by_cases before : position < offset
  · rw [List.getElem?_append_left (by omega), List.getElem?_take_of_lt before]
    simp [Nat.not_le.mpr before]
  · rw [List.getElem?_append_right (by omega), kept]
    by_cases inside : position < offset + bytes.length
    · rw [List.getElem?_append_left (by omega), if_pos ⟨by omega, inside⟩]
    · rw [List.getElem?_append_right (by omega), List.getElem?_drop, if_neg (fun both => inside both.2)]
      congr 1
      omega

/-- Writing what a list has there makes no position differ from the list that did not. -/
theorem overlay_agrees {shift : Nat} (agrees : other[shift + position]? = list[position]?) :
    (overlay other (shift + offset) (slice list offset (offset + size)))[shift + position]? =
      list[position]? := by
  by_cases fits : shift + offset + (slice list offset (offset + size)).length ≤ other.length
  · rw [getElem?_overlay fits]
    split
    case isTrue inside =>
      have short : (slice list offset (offset + size)).length ≤ offset + size - offset :=
        length_slice_le
      have index : offset + (shift + position - (shift + offset)) = position := by omega
      rw [getElem?_slice, if_pos (by omega), index]
    case isFalse outside => exact agrees
  · rw [overlay, if_neg fits]
    exact agrees

end Solpg.Std.Chunks
