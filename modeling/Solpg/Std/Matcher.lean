import Mathlib.Data.List.Infix

/-!
# All matches of an expression

An engine finds the matches of an expression from left to right, each one after the end of
the one before. What it finds in the first part of a text does not depend on the rest where
the last match ends before a mark that no match goes on from.
-/

namespace Solpg.Std

universe u

/-- What an expression matches at the start of a text. -/
structure Matcher (α : Type u) where
  matchAt : List α → Option (List α)
  isPrefix : ∀ {text found}, matchAt text = some found → found <+: text
  nonempty : ∀ {text found}, matchAt text = some found → found ≠ []

/-- A match and where it is in a text. -/
structure Matched (α : Type u) where
  index : Nat
  text : List α
  deriving DecidableEq, Repr

namespace Matched

variable {α : Type u}

/-- Where the match ends. -/
def finish (matched : Matched α) : Nat := matched.index + matched.text.length

/-- The match in a text with so many units more in front. -/
def shift (distance : Nat) (matched : Matched α) : Matched α :=
  { matched with index := matched.index + distance }

@[simp] theorem shift_zero (matched : Matched α) : matched.shift 0 = matched := rfl

@[simp] theorem shift_shift (first second : Nat) (matched : Matched α) :
    (matched.shift first).shift second = matched.shift (second + first) := by
  rw [shift, shift, shift, Nat.add_assoc, Nat.add_comm first]

@[simp] theorem finish_shift (distance : Nat) (matched : Matched α) :
    (matched.shift distance).finish = matched.finish + distance := Nat.add_right_comm _ _ _

end Matched

namespace Matcher

variable {α : Type u} {matcher : Matcher α} {unit : α} {text found rest head tail : List α}

/-- The matches in a text from an index on. So many units belong to the match before. -/
def matchesFrom (matcher : Matcher α) : (index skipped : Nat) → List α → List (Matched α)
  | _, _, [] => []
  | index, skipped + 1, _ :: rest => matcher.matchesFrom (index + 1) skipped rest
  | index, 0, unit :: rest =>
      match matcher.matchAt (unit :: rest) with
      | some found => ⟨index, found⟩ :: matcher.matchesFrom (index + 1) (found.length - 1) rest
      | none => matcher.matchesFrom (index + 1) 0 rest

/-- `String.prototype.matchAll` -/
def matchAll (matcher : Matcher α) (text : List α) : List (Matched α) := matcher.matchesFrom 0 0 text

/-- Matches that are counted from further on are shifted. -/
theorem matchesFrom_shift (index skipped distance : Nat) (text : List α) :
    matcher.matchesFrom (index + distance) skipped text =
      (matcher.matchesFrom index skipped text).map (Matched.shift distance) := by
  induction text generalizing index skipped with
  | nil =>
      cases skipped with
      | zero => rfl
      | succ skipped => rfl
  | cons unit rest ih =>
      cases skipped with
      | succ skipped => rw [matchesFrom, matchesFrom, Nat.add_right_comm, ih]
      | zero =>
          rw [matchesFrom, matchesFrom, Nat.add_right_comm, ih]
          cases matcher.matchAt (unit :: rest) with
          | none => rfl
          | some found =>
              simp only
              rw [ih]
              rfl

/-- Skipping units is looking at the rest. -/
theorem matchesFrom_skip (index skipped : Nat) (text : List α) :
    matcher.matchesFrom index skipped text =
      matcher.matchesFrom (index + skipped) 0 (text.drop skipped) := by
  induction text generalizing index skipped with
  | nil =>
      rw [List.drop_nil]
      cases skipped with
      | zero => rfl
      | succ skipped => rfl
  | cons unit rest ih =>
      cases skipped with
      | zero => rfl
      | succ skipped =>
          rw [matchesFrom, ih, List.drop_succ_cons, Nat.add_right_comm, Nat.add_assoc]

@[simp] theorem matchAll_nil : matcher.matchAll [] = [] := rfl

/-- Where nothing matches, the matches are those of the rest. -/
theorem matchAll_cons_of_none (misses : matcher.matchAt (unit :: rest) = none) :
    matcher.matchAll (unit :: rest) = (matcher.matchAll rest).map (Matched.shift 1) := by
  rw [matchAll, matchesFrom, misses]
  exact matchesFrom_shift 0 0 1 rest

/-- A match in front is followed by the matches of the rest. -/
theorem matchAll_append_of_some (matched : matcher.matchAt (found ++ rest) = some found) :
    matcher.matchAll (found ++ rest) =
      ⟨0, found⟩ :: (matcher.matchAll rest).map (Matched.shift found.length) := by
  obtain ⟨unit, others, rfl⟩ := List.exists_cons_of_ne_nil (matcher.nonempty matched)
  rw [List.cons_append] at matched ⊢
  rw [matchAll, matchesFrom, matched]
  simp only [List.length_cons, Nat.add_sub_cancel, List.cons.injEq, true_and]
  have index : 0 + 1 + others.length = 0 + (others.length + 1) := by omega
  rw [matchesFrom_skip, List.drop_left, index, matchesFrom_shift]
  rfl

/-- By what is at the start of the text: nothing, a unit that no match starts with, or a match. -/
theorem scanInduction {motive : List α → Prop} (nil : motive [])
    (misses : ∀ unit rest, matcher.matchAt (unit :: rest) = none → motive rest →
      motive (unit :: rest))
    (finds : ∀ found rest, matcher.matchAt (found ++ rest) = some found → motive rest →
      motive (found ++ rest)) (text : List α) : motive text := by
  induction length : text.length using Nat.strong_induction_on generalizing text with
  | _ length ih =>
      subst length
      cases text with
      | nil => exact nil
      | cons unit rest =>
          cases matched : matcher.matchAt (unit :: rest) with
          | none => exact misses unit rest matched (ih _ (Nat.lt_succ_self _) rest rfl)
          | some found =>
              obtain ⟨after, whole⟩ := matcher.isPrefix matched
              have some := List.length_pos_iff.mpr (matcher.nonempty matched)
              rw [← whole] at matched ⊢
              refine finds found after matched (ih after.length ?_ after rfl)
              rw [← whole, List.length_append]
              omega

/-- A match is what the expression matches at its index. -/
theorem exists_of_mem_matchAll {matched : Matched α} (among : matched ∈ matcher.matchAll text) :
    ∃ before after, text = before ++ (matched.text ++ after) ∧ matched.index = before.length ∧
      matcher.matchAt (matched.text ++ after) = some matched.text := by
  induction text using matcher.scanInduction generalizing matched with
  | nil => exact absurd among List.not_mem_nil
  | misses unit rest none ih =>
      rw [matchAll_cons_of_none none] at among
      obtain ⟨other, inRest, rfl⟩ := List.mem_map.mp among
      obtain ⟨before, after, rfl, index, here⟩ := ih inRest
      exact ⟨unit :: before, after, rfl, congrArg (· + 1) index, here⟩
  | finds found rest here ih =>
      rw [matchAll_append_of_some here] at among
      obtain rfl | among := List.mem_cons.mp among
      · exact ⟨[], rest, rfl, rfl, here⟩
      · obtain ⟨other, inRest, rfl⟩ := List.mem_map.mp among
        obtain ⟨before, after, rfl, index, here⟩ := ih inRest
        refine ⟨found ++ before, after, (List.append_assoc _ _ _).symm, ?_, here⟩
        rw [List.length_append, Nat.add_comm, ← index]
        rfl

/-! ## Parts of a text -/

/-- Whatever comes after it, the matches in the first part of a text are these, and the
matches in the rest are its own. -/
def Passes (matcher : Matcher α) (head : List α) (matched : List (Matched α)) : Prop :=
  ∀ rest, matcher.matchAll (head ++ rest) =
    matched ++ (matcher.matchAll rest).map (Matched.shift head.length)

/-- The empty text can be passed over. -/
theorem passes_nil : matcher.Passes [] [] := by
  intro rest
  exact (List.map_id'' Matched.shift_zero _).symm

/-- Two texts that can be passed over can be passed over together. -/
theorem Passes.append {first second : List α} {inFirst inSecond : List (Matched α)}
    (passesFirst : matcher.Passes first inFirst) (passesSecond : matcher.Passes second inSecond) :
    matcher.Passes (first ++ second) (inFirst ++ inSecond.map (Matched.shift first.length)) := by
  intro rest
  rw [List.append_assoc, passesFirst, passesSecond, List.map_append, List.map_map,
    List.append_assoc, List.length_append]
  congr 3
  funext matched
  exact Matched.shift_shift _ _ _

end Matcher

/-- The matches of the expression end before the marks that end lines, or go on over them.
Where one ends before a mark, what is found from any place before it does not depend on what
comes after the mark. -/
structure LineMatcher (α : Type u) (mark : α) extends Matcher α where
  mark_none : ∀ rest, matchAt (mark :: rest) = none
  getLast?_ne : ∀ {text found}, matchAt text = some found → found.getLast? ≠ some mark
  settled : ∀ {found tail} (before : List α), matchAt (found ++ mark :: tail) = some found →
    (∃ other, other.length ≤ (before ++ found).length ∧
        ∀ rest, matchAt (before ++ found ++ mark :: rest) = some other) ∨
      ∀ rest, matchAt (before ++ found ++ mark :: rest) = none

namespace LineMatcher

variable {α : Type u} {mark : α} {matcher : LineMatcher α mark} {head tail text : List α}

/-- No match starts at the mark. -/
theorem matchAll_mark_cons (rest : List α) :
    matcher.matchAll (mark :: rest) = (matcher.matchAll rest).map (Matched.shift 1) :=
  Matcher.matchAll_cons_of_none (matcher.mark_none rest)

/-- A line that is matched as a whole. -/
theorem passes_line {line : List α}
    (matched : ∀ rest, matcher.matchAt (line ++ mark :: rest) = some line) :
    matcher.Passes (line ++ [mark]) [⟨0, line⟩] := by
  intro rest
  rw [List.append_assoc, List.singleton_append, Matcher.matchAll_append_of_some (matched rest),
    matchAll_mark_cons, List.map_map, List.length_append, List.length_singleton]
  congr 2
  funext matched
  exact (Matched.shift_shift _ _ _).trans (by rw [Nat.add_comm])

/-- The last match is found again from any place before it, or none is, whatever comes after
the mark where it ends. -/
theorem settled_of_getLast? {last : Matched α}
    (found : (matcher.matchAll (head ++ mark :: tail)).getLast? = some last)
    (ends : last.finish = head.length) :
    (∃ other, other.length ≤ head.length ∧
        ∀ rest, matcher.matchAt (head ++ mark :: rest) = some other) ∨
      ∀ rest, matcher.matchAt (head ++ mark :: rest) = none := by
  obtain ⟨before, after, whole, index, matched⟩ :=
    Matcher.exists_of_mem_matchAll (List.mem_of_getLast? found)
  have length : (before ++ last.text).length = head.length := by
    rw [List.length_append, ← index]
    exact ends
  rw [← List.append_assoc] at whole
  obtain ⟨rfl, rfl⟩ := List.append_inj whole.symm length
  exact matcher.settled before matched

/-- The mark can be passed over. -/
theorem passes_mark : matcher.Passes [mark] [] := matchAll_mark_cons

/-- Without a match from the mark on there is none behind it. -/
theorem matchAll_eq_nil_of_mark (none : matcher.matchAll (mark :: tail) = []) :
    matcher.matchAll tail = [] := by
  rwa [matchAll_mark_cons, List.map_eq_nil_iff] at none

/-- A unit that no match starts with, whatever comes after the mark. -/
theorem passes_cons {unit : α} {inHead : List (Matched α)}
    (misses : ∀ rest, matcher.matchAt (unit :: (head ++ mark :: rest)) = none)
    (passes : matcher.Passes (head ++ [mark]) inHead) :
    matcher.Passes (unit :: head ++ [mark]) (inHead.map (Matched.shift 1)) := by
  intro rest
  have after := passes rest
  rw [List.append_assoc, List.singleton_append] at after
  rw [List.append_assoc, List.cons_append, List.singleton_append,
    Matcher.matchAll_cons_of_none (misses rest), after, List.map_append, List.map_map]
  congr 2

/-- A match that is found whatever comes after the mark. -/
theorem passes_append {first : List α} {inHead : List (Matched α)}
    (finds : ∀ rest, matcher.matchAt (first ++ (head ++ mark :: rest)) = some first)
    (passes : matcher.Passes (head ++ [mark]) inHead) :
    matcher.Passes (first ++ head ++ [mark])
      (⟨0, first⟩ :: inHead.map (Matched.shift first.length)) := by
  intro rest
  have after := passes rest
  rw [List.append_assoc, List.singleton_append] at after
  rw [List.append_assoc, List.append_assoc, List.singleton_append,
    Matcher.matchAll_append_of_some (finds rest), after, List.map_append, List.map_map,
    List.length_append, List.length_append, List.cons_append]
  congr 3
  funext matched
  exact (Matched.shift_shift _ _ _).trans (by rw [List.length_append, Nat.add_assoc])

/-- Where the last match ends before a mark, what comes after the mark has its own matches,
and has none now. -/
theorem passes_of_getLast? {last : Matched α}
    (found : (matcher.matchAll (head ++ mark :: tail)).getLast? = some last)
    (ends : last.finish = head.length) :
    matcher.Passes (head ++ [mark]) (matcher.matchAll (head ++ mark :: tail)) ∧
      matcher.matchAll tail = [] := by
  have settled := settled_of_getLast? found ends
  generalize whole : head ++ mark :: tail = text at found
  induction text using matcher.scanInduction generalizing head last with
  | nil => exact absurd whole (by simp)
  | misses unit rest misses ih =>
      rw [Matcher.matchAll_cons_of_none misses, List.getLast?_map, Option.map_eq_some_iff] at found
      obtain ⟨other, found, rfl⟩ := found
      rw [Matched.finish_shift] at ends
      cases head with
      | nil => exact absurd ends (Nat.succ_ne_zero _)
      | cons first head =>
          obtain ⟨rfl, rfl⟩ := List.cons.inj whole
          have finish : other.finish = head.length := Nat.succ.inj ends
          obtain ⟨passes, none⟩ := ih finish (settled_of_getLast? found finish) rfl found
          obtain ⟨other, -, finds⟩ | misses := settled
          · exact absurd (misses.symm.trans (finds tail)) nofun
          · rw [Matcher.matchAll_cons_of_none (misses tail)]
            exact ⟨passes_cons misses passes, none⟩
  | finds first rest matched ih =>
      obtain ⟨between, rfl, rfl, finds⟩ : ∃ between, head = first ++ between ∧
          rest = between ++ mark :: tail ∧
            ∀ rest, matcher.matchAt (first ++ (between ++ mark :: rest)) = some first := by
        obtain ⟨other, least, finds⟩ | misses := settled
        · obtain rfl : other = first := by
            have here := finds tail
            rw [whole, matched] at here
            exact (Option.some.inj here).symm
          obtain ⟨between, rfl⟩ : other <+: head :=
            List.prefix_of_prefix_length_le ⟨rest, whole.symm⟩ ⟨_, rfl⟩ least
          rw [List.append_assoc] at whole
          refine ⟨between, rfl, (List.append_cancel_left whole).symm, fun rest => ?_⟩
          rw [← List.append_assoc]
          exact finds rest
        · have none := misses tail
          rw [whole, matched] at none
          exact absurd none nofun
      have matchedRest := Matcher.matchAll_append_of_some matched
      have inRest : matcher.Passes (between ++ [mark]) (matcher.matchAll (between ++ mark :: tail)) ∧
          matcher.matchAll tail = [] := by
        rw [matchedRest, List.getLast?_cons, List.getLast?_map, Option.some.injEq] at found
        rw [List.length_append] at ends
        cases lastInRest : (matcher.matchAll (between ++ mark :: tail)).getLast? with
        | none =>
            have none := List.getLast?_eq_none_iff.mp lastInRest
            rw [lastInRest] at found
            obtain rfl : last = ⟨0, first⟩ := found.symm
            obtain rfl : between = [] := by
              have finish : 0 + first.length = first.length + between.length := ends
              exact List.length_eq_zero_iff.mp (by omega)
            simp only [List.nil_append] at none ⊢
            rw [none]
            exact ⟨passes_mark, matchAll_eq_nil_of_mark none⟩
        | some other =>
            rw [lastInRest] at found
            obtain rfl : last = other.shift first.length := found.symm
            rw [Matched.finish_shift] at ends
            have finish : other.finish = between.length := by omega
            exact ih finish (settled_of_getLast? lastInRest finish) rfl lastInRest
      rw [matchedRest]
      exact ⟨passes_append finds inRest.1, inRest.2⟩

/-! ## The last match -/

/-- The last match of a text ends where its first part does, before a mark. -/
structure LastEnds (matcher : LineMatcher α mark) (head tail : List α) : Prop where
  passes : ∃ found last, matcher.Passes (head ++ [mark]) (found ++ [last]) ∧
    last.finish = head.length
  rest : matcher.matchAll tail = []

/-- The last match is found, and ends where the head ends. -/
theorem LastEnds.getLast? (ends : matcher.LastEnds head tail) : ∃ last,
    (matcher.matchAll (head ++ mark :: tail)).getLast? = some last ∧
      last.finish = head.length := by
  obtain ⟨⟨found, last, passes, finish⟩, rest⟩ := ends
  have whole := passes tail
  rw [List.append_assoc, List.singleton_append, rest, List.map_nil, List.append_nil] at whole
  exact ⟨last, by rw [whole, List.getLast?_concat], finish⟩

/-- The last match ends the head when it is where the head ends. -/
theorem lastEnds_of_getLast? {last : Matched α}
    (found : (matcher.matchAll (head ++ mark :: tail)).getLast? = some last)
    (finish : last.finish = head.length) : matcher.LastEnds head tail := by
  obtain ⟨passes, rest⟩ := passes_of_getLast? found finish
  obtain ⟨others, whole⟩ := List.getLast?_eq_some_iff.mp found
  rw [whole] at passes
  exact ⟨⟨others, last, passes, finish⟩, rest⟩

/-- The mark after the last match is the last of its text that ends a part so. -/
theorem exists_lastEnds {last : Matched α} (found : (matcher.matchAll text).getLast? = some last)
    (marked : text[last.finish]? = some mark) :
    ∃ head tail, text = head ++ mark :: tail ∧ head.length = last.finish ∧
      matcher.LastEnds head tail := by
  obtain ⟨within, here⟩ := List.getElem?_eq_some_iff.mp marked
  have whole : text = text.take last.finish ++ mark :: text.drop (last.finish + 1) := by
    rw [← here, List.getElem_cons_drop, List.take_append_drop]
  have length : (text.take last.finish).length = last.finish :=
    List.length_take_of_le (Nat.le_of_lt within)
  refine ⟨_, _, whole, length, ?_⟩
  rw [whole] at found
  exact lastEnds_of_getLast? found length.symm

/-- A text that can be passed over may stand in front. -/
theorem LastEnds.prepend {front : List α} {inFront : List (Matched α)}
    (ends : matcher.LastEnds head tail) (passesFront : matcher.Passes front inFront) :
    matcher.LastEnds (front ++ head) tail := by
  obtain ⟨⟨found, last, passes, finish⟩, rest⟩ := ends
  have both := passesFront.append passes
  rw [List.map_append, ← List.append_assoc, ← List.append_assoc] at both
  refine ⟨⟨_, last.shift front.length, both, ?_⟩, rest⟩
  rw [Matched.finish_shift, finish, List.length_append, Nat.add_comm]

/-- A line that is matched as a whole and after which there is no match. -/
theorem lastEnds_line {line : List α}
    (matched : ∀ rest, matcher.matchAt (line ++ mark :: rest) = some line)
    (none : matcher.matchAll tail = []) : matcher.LastEnds line tail :=
  ⟨⟨[], _, passes_line matched, Nat.zero_add _⟩, none⟩

/-- A line that is matched as a whole comes after the last match. -/
theorem LastEnds.insert {line : List α} (ends : matcher.LastEnds head tail)
    (matched : ∀ rest, matcher.matchAt (line ++ mark :: rest) = some line) :
    matcher.LastEnds (head ++ mark :: line) tail := by
  obtain ⟨⟨found, last, passes, -⟩, rest⟩ := ends
  have inserted := (lastEnds_line matched rest).prepend passes
  rwa [List.append_assoc, List.singleton_append] at inserted

end LineMatcher

/-! ## The first match -/

namespace Matcher

variable {α : Type u} {mark : α} {matcher : Matcher α} {head tail text : List α}

/-- What comes after the first match. -/
def afterFirst (matcher : Matcher α) : List α → Option (List α)
  | [] => none
  | unit :: rest =>
      match matcher.matchAt (unit :: rest) with
      | some found => some ((unit :: rest).drop found.length)
      | none => matcher.afterFirst rest

/-- What stands behind the first match is what is found by looking for it. -/
theorem head?_matchAll (text : List α) :
    (matcher.matchAll text).head?.map (fun first => text.drop first.finish) =
      matcher.afterFirst text := by
  induction text with
  | nil => rfl
  | cons unit rest ih =>
      rw [afterFirst]
      cases matched : matcher.matchAt (unit :: rest) with
      | some found =>
          obtain ⟨after, whole⟩ := matcher.isPrefix matched
          rw [← whole] at matched ⊢
          rw [matchAll_append_of_some matched]
          simp [Matched.finish]
      | none =>
          rw [matchAll_cons_of_none matched, List.head?_map, Option.map_map]
          refine Eq.trans ?_ ih
          congr 1
          funext first
          rw [Function.comp_apply, Matched.finish_shift, List.drop_succ_cons]

/-- Matches that end with their line are found in each line of its own. -/
theorem afterFirst_append
    (inLine : ∀ text rest, matcher.matchAt (text ++ mark :: rest) = matcher.matchAt text)
    (empty : matcher.matchAt [] = none) (head tail : List α) :
    matcher.afterFirst (head ++ mark :: tail) =
      ((matcher.afterFirst head).map (· ++ mark :: tail)).or (matcher.afterFirst tail) := by
  induction head with
  | nil =>
      have misses := inLine [] tail
      rw [List.nil_append, empty] at misses
      simp only [List.nil_append, afterFirst, misses]
      rfl
  | cons unit rest ih =>
      rw [List.cons_append, afterFirst, afterFirst, ← List.cons_append, inLine]
      cases matched : matcher.matchAt (unit :: rest) with
      | some found =>
          have least := (matcher.isPrefix matched).length_le
          simp only [Option.map_some, Option.some_or]
          rw [List.drop_append_of_le_length least]
      | none => exact ih

end Matcher
end Solpg.Std
