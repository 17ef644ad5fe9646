import Solpg.Client.Utils.Explorer.Paths
import Solpg.Std.OrderedMap

/-!
# Parameters of a route

`getParamsFromPath` walks over the characters of a route and a path, from one parameter of
the route to the next. Where the parameters are whole segments it can be walked segment by
segment, which `walk` does.
-/

namespace Solpg.Client.Utils.PgRouter

open Solpg.Std PgCommon

/-- The errors of a route. -/
inductive RouteError where
  | doesNotMatch
  | noClosingCurly
  deriving DecidableEq, Repr

/-- The parameters of a path by their names. -/
abbrev PathParameter := OrderedMap Text Text

/-- What is left of the last value without a slash at its end. -/
def withoutEndSlash (subPath : Text) : Text :=
  if subPath.endsWith slash then subPath.dropLast else subPath

/-- `recursivelyMapValues`, with the part of the route from its index on. -/
def mapValues (templatePath subPath : Text) (result : PathParameter) :
    Except RouteError PathParameter :=
  if _nonempty : templatePath = [] then .ok result
  else
    match templatePath.idxOf? '{' with
    | none => if isPathsEqual templatePath subPath then .ok result else .error .doesNotMatch
    | some startIndex =>
        if (subPath.take startIndex).isPrefixOf (templatePath.take startIndex) then
          let subPath := subPath.drop startIndex
          match (templatePath.drop startIndex).idxOf? '}' with
          | none => .error .noClosingCurly
          | some relativeEndIndex =>
              let endIndex := startIndex + relativeEndIndex
              let prop := (templatePath.take endIndex).drop (startIndex + 1)
              if endIndex = templatePath.length - 1 then
                if Text.startsWith subPath slash then .error .doesNotMatch
                else .ok (result.set prop (withoutEndSlash subPath))
              else
                match templatePath[endIndex + 1]? with
                | none => .ok result
                | some nextTemplateCharacter =>
                    let value := match subPath.idxOf? nextTemplateCharacter with
                      | none => subPath
                      | some nextIndex => subPath.take nextIndex
                    mapValues (templatePath.drop (endIndex + 1)) (subPath.drop value.length)
                      (result.set prop value)
        else .error .doesNotMatch
termination_by templatePath.length
decreasing_by
  have some := List.length_pos_of_ne_nil _nonempty
  rw [List.length_drop]
  omega

/-- Get the custom parameters from the given path. -/
def getParamsFromPath (routePath path : Text) : Except RouteError PathParameter :=
  mapValues routePath path .empty

/-! ## Routes by their segments -/

/-- A segment of a route: a text, or a parameter that takes a whole segment. `__proto__` is
not a name of a property of its own. -/
inductive Segment where
  | fixed (text : { text : Text // '/' ∉ text ∧ '{' ∉ text })
  | param (name : { name : Text // '/' ∉ name ∧ '}' ∉ name ∧ name ≠ "__proto__".toList })

namespace Segment

/-- A segment as it is written in a route. -/
def text : Segment → Text
  | fixed text => text.1
  | param name => '{' :: name.1 ++ ['}']

/-- Whether a segment is a parameter. -/
def isParam : Segment → Bool
  | fixed _ => false
  | param _ => true

end Segment

/-- The pathname of a route, with a slash before each segment. -/
def routePath (segments : List Segment) : Text := UnixPath.text (segments.map Segment.text)

/-- The value of a parameter. -/
abbrev Value : Type := { value : Text // value ≠ [] ∧ '/' ∉ value }

/-- The path that a route is with values for its parameters. -/
def substitute (values : Text → Value) (segments : List Segment) : Text :=
  UnixPath.text (segments.map fun
    | .fixed text => text.1
    | .param name => (values name.1).1)

/-- The route walked segment by segment. -/
def walk : List Segment → Text → PathParameter → Except RouteError PathParameter
  | [], _, result => .ok result
  | .fixed text :: rest, path, result =>
      if rest.any Segment.isParam then
        if path.take (text.1.length + 1) <+: '/' :: text.1 then
          walk rest (path.drop (text.1.length + 1)) result
        else .error .doesNotMatch
      else if isPathsEqual (routePath (.fixed text :: rest)) path then .ok result
      else .error .doesNotMatch
  | .param name :: rest, path, result =>
      if path.take 1 <+: slash then
        let path := path.drop 1
        if rest = [] then
          if Text.startsWith path slash then .error .doesNotMatch
          else .ok (result.set name.1 (withoutEndSlash path))
        else
          walk rest (path.dropWhile (· ≠ '/')) (result.set name.1 (path.takeWhile (· ≠ '/')))
      else .error .doesNotMatch

/-! ### The walk of the code -/

section

variable {fixed template subPath : Text} {result : PathParameter}

/-- What is before a place in a text and what is after it are compared apart. -/
theorem take_isPrefix_append_iff {α : Type} (first second other : List α) :
    other.take (first ++ second).length <+: first ++ second ↔
      other.take first.length <+: first ∧
        (other.drop first.length).take second.length <+: second := by
  induction first generalizing other with
  | nil => simp
  | cons item rest ih =>
      cases other with
      | nil => simp
      | cons head tail =>
          simp only [List.cons_append, List.length_cons, List.take_succ_cons, List.cons_prefix_cons,
            List.drop_succ_cons, ih tail, and_assoc]

/-- A character is found behind a text without it. -/
theorem idxOf?_append_of_not_mem {before : Text} {char : Char} (absent : char ∉ before)
    (after : Text) : (before ++ after).idxOf? char = (after.idxOf? char).map (before.length + ·) := by
  induction before with
  | nil => simp
  | cons first rest ih =>
      have other : (first == char) = false := by
        rw [beq_eq_false_iff_ne]
        rintro rfl
        exact absent List.mem_cons_self
      rw [List.cons_append, List.idxOf?_cons, other, ih fun among => absent (List.mem_cons_of_mem _ among),
        if_neg Bool.false_ne_true, Option.map_map]
      congr 1
      funext index
      simp only [Function.comp_apply, List.length_cons]
      omega

/-- A text before the first parameter is compared, and the walk goes on after it. -/
theorem mapValues_append (plain : '{' ∉ fixed) (opens : '{' ∈ template) (subPath : Text)
    (result : PathParameter) :
    mapValues (fixed ++ template) subPath result =
      if subPath.take fixed.length <+: fixed then
        mapValues template (subPath.drop fixed.length) result
      else .error .doesNotMatch := by
  obtain ⟨startIndex, found⟩ := Option.isSome_iff_exists.mp (List.isSome_idxOf?.mpr opens)
  have within : startIndex ≤ template.length := by
    obtain ⟨inside, -⟩ := List.idxOf?_eq_some_iff.mp found
    exact Nat.le_of_lt inside
  have found' : (fixed ++ template).idxOf? '{' = some (fixed.length + startIndex) := by
    rw [idxOf?_append_of_not_mem plain, found]
    rfl
  have some : template ≠ [] := List.ne_nil_of_mem opens
  have some' : fixed ++ template ≠ [] := List.append_ne_nil_of_right_ne_nil _ some
  have compares : (subPath.take (fixed.length + startIndex)).isPrefixOf
      ((fixed ++ template).take (fixed.length + startIndex)) = true ↔
      subPath.take fixed.length <+: fixed ∧
        ((subPath.drop fixed.length).take startIndex).isPrefixOf (template.take startIndex) = true := by
    have apart := take_isPrefix_append_iff fixed (template.take startIndex) subPath
    rw [List.length_append, List.length_take_of_le within] at apart
    rw [List.take_length_add_append, List.isPrefixOf_iff_prefix, List.isPrefixOf_iff_prefix, apart]
  have skipped : subPath.drop (fixed.length + startIndex) =
      (subPath.drop fixed.length).drop startIndex := by rw [List.drop_drop]
  have same : (fixed ++ template).drop (fixed.length + startIndex) = template.drop startIndex :=
    List.drop_length_add_append startIndex
  rw [mapValues, dif_neg some', found']
  simp only [compares, skipped, same]
  by_cases fits : subPath.take fixed.length <+: fixed
  · rw [if_pos fits, mapValues, dif_neg some, found]
    simp only [fits, true_and]
    refine if_congr Iff.rfl ?_ rfl
    cases closes : (template.drop startIndex).idxOf? '}' with
    | none => rfl
    | some relativeEndIndex =>
        -- every index is that in the template, moved by the length of the text before it
        have ends : fixed.length + startIndex + relativeEndIndex =
            fixed.length + (startIndex + relativeEndIndex) := Nat.add_assoc ..
        have last : fixed.length + (startIndex + relativeEndIndex) = (fixed ++ template).length - 1 ↔
            startIndex + relativeEndIndex = template.length - 1 := by
          have positive := List.length_pos_of_ne_nil some
          rw [List.length_append]
          omega
        have next : (fixed ++ template)[fixed.length + (startIndex + relativeEndIndex) + 1]? =
            template[startIndex + relativeEndIndex + 1]? := by
          rw [Nat.add_assoc, List.getElem?_append_right (Nat.le_add_right _ _), Nat.add_sub_cancel_left]
        have tail : (fixed ++ template).drop (fixed.length + (startIndex + relativeEndIndex) + 1) =
            template.drop (startIndex + relativeEndIndex + 1) := by
          rw [Nat.add_assoc, List.drop_length_add_append]
        have prop : ((fixed ++ template).take (fixed.length + (startIndex + relativeEndIndex))).drop
            (fixed.length + startIndex + 1) =
            (template.take (startIndex + relativeEndIndex)).drop (startIndex + 1) := by
          rw [List.take_length_add_append, Nat.add_assoc, List.drop_length_add_append]
        simp only [ends, last, next, tail, prop]
  · rw [if_neg fits]
    exact if_neg fun both => fits both.1

/-- The text up to a character, or all of it. -/
theorem take_idxOf? (text : Text) (char : Char) :
    (match text.idxOf? char with
     | none => text
     | some index => text.take index) = text.takeWhile (· ≠ char) := by
  induction text with
  | nil => rfl
  | cons first rest ih =>
      rw [List.idxOf?_cons]
      by_cases here : first = char
      · simp [here]
      · have other : (first == char) = false := beq_eq_false_iff_ne.mpr here
        rw [other, if_neg Bool.false_ne_true, List.takeWhile_cons_of_pos (by simpa using here), ← ih]
        cases rest.idxOf? char <;> rfl

/-- What is left behind the longest start. -/
theorem drop_length_takeWhile (text : Text) (p : Char → Bool) :
    text.drop (text.takeWhile p).length = text.dropWhile p := by
  have split : (text.takeWhile p ++ text.dropWhile p).drop (text.takeWhile p).length =
      text.dropWhile p := List.drop_left
  rwa [List.takeWhile_append_dropWhile] at split

/-- A route is its first segment and the others. -/
theorem routePath_cons (segment : Segment) (rest : List Segment) :
    routePath (segment :: rest) = '/' :: (segment.text ++ routePath rest) := rfl

/-- Only the empty route is empty. -/
theorem routePath_eq_nil {segments : List Segment} : routePath segments = [] ↔ segments = [] := by
  cases segments with
  | nil => exact iff_of_true rfl rfl
  | cons segment rest => simp [routePath_cons]

/-- A parameter that is a segment. -/
theorem mapValues_param {name : Text} (closes : '}' ∉ name) {rest : List Segment} :
    mapValues ('/' :: ('{' :: name ++ ['}'] ++ routePath rest)) subPath result =
      if subPath.take 1 <+: slash then
        if rest = [] then
          if Text.startsWith (subPath.drop 1) slash then .error .doesNotMatch
          else .ok (result.set name (withoutEndSlash (subPath.drop 1)))
        else
          mapValues (routePath rest) ((subPath.drop 1).dropWhile (· ≠ '/'))
            (result.set name ((subPath.drop 1).takeWhile (· ≠ '/')))
      else .error .doesNotMatch := by
  have opens : '{' ∈ '{' :: name ++ ['}'] ++ routePath rest := by simp
  have plain : '{' ∉ slash := by decide
  refine (mapValues_append plain opens subPath result).trans (if_congr Iff.rfl ?_ rfl)
  have starts : ('{' :: name ++ ['}'] ++ routePath rest).idxOf? '{' = some 0 := by
    simp [List.idxOf?_cons]
  have ends : ('{' :: name ++ ['}'] ++ routePath rest).idxOf? '}' = some (name.length + 1) := by
    have absent : '}' ∉ '{' :: name := by simp [closes]
    rw [List.append_assoc, idxOf?_append_of_not_mem absent]
    simp [List.idxOf?_cons]
  have prop : (('{' :: name ++ ['}'] ++ routePath rest).take (name.length + 1)).drop 1 = name := by
    simp
  have tail : ('{' :: name ++ ['}'] ++ routePath rest).drop (name.length + 1 + 1) =
      routePath rest := by
    simp
  have last : name.length + 1 = ('{' :: name ++ ['}'] ++ routePath rest).length - 1 ↔ rest = [] := by
    rw [← routePath_eq_nil, ← List.length_eq_zero_iff]
    simp only [List.length_append, List.length_cons, List.length_nil]
    omega
  rw [mapValues, dif_neg (by simp), starts]
  simp only [List.take_zero, List.isPrefixOf, if_true, List.drop_zero, ends, Nat.zero_add, last,
    prop, tail]
  split
  next => rfl
  next more =>
    obtain ⟨segment, others, rfl⟩ := List.exists_cons_of_ne_nil more
    have next : ('{' :: name ++ ['}'] ++ routePath (segment :: others))[name.length + 1 + 1]? =
        some '/' := by
      rw [List.getElem?_append_right (by simp)]
      simp [routePath_cons]
    simp only [next, take_idxOf?, drop_length_takeWhile]
    rfl

/-- A route without a parameter is compared as a whole. -/
theorem mapValues_fixed (plain : '{' ∉ template) (nonempty : template ≠ []) :
    mapValues template subPath result =
      if isPathsEqual template subPath then .ok result else .error .doesNotMatch := by
  rw [mapValues, dif_neg nonempty, List.idxOf?_eq_none_iff.mpr plain]

/-- A route with a curly bracket has a parameter. -/
theorem mem_routePath {segments : List Segment} :
    '{' ∈ routePath segments ↔ segments.any Segment.isParam = true := by
  induction segments with
  | nil => exact iff_of_false nofun nofun
  | cons segment rest ih =>
      rw [routePath_cons, List.any_cons, Bool.or_eq_true, ← ih, List.mem_cons, List.mem_append]
      cases segment with
      | fixed text => simp [Segment.text, Segment.isParam, text.2.2]
      | param name => simp [Segment.text, Segment.isParam]

/-- The code walks a route segment by segment. -/
theorem mapValues_eq_walk (segments : List Segment) (path : Text) (result : PathParameter) :
    mapValues (routePath segments) path result = walk segments path result := by
  induction segments generalizing path result with
  | nil => rw [routePath_eq_nil.mpr rfl, mapValues, dif_pos rfl, walk]
  | cons segment rest ih =>
      cases segment with
      | fixed text =>
          rw [walk]
          split
          next more =>
            have whole : routePath (.fixed text :: rest) = ('/' :: text.1) ++ routePath rest := rfl
            have plain : '{' ∉ '/' :: text.1 := by simp [text.2.2]
            rw [whole, mapValues_append plain (mem_routePath.mpr more), ih]
            rfl
          next none =>
            have plain : '{' ∉ routePath (.fixed text :: rest) := by
              rw [mem_routePath]
              simpa [Segment.isParam] using none
            exact mapValues_fixed plain (by simp [routePath_cons])
      | param name =>
          rw [walk, routePath_cons]
          exact (mapValues_param name.2.2.1).trans (by simp only [ih])

/-! ### Values for the parameters -/

/-- A value without a slash ends at the next name. -/
theorem takeWhile_append_text {value : Text} (plain : '/' ∉ value) (names : List Text) :
    (value ++ UnixPath.text names).takeWhile (· ≠ '/') = value ∧
      (value ++ UnixPath.text names).dropWhile (· ≠ '/') = UnixPath.text names := by
  have inside : ∀ char ∈ value, decide (char ≠ '/') = true := by
    intro char among
    rw [decide_eq_true_eq]
    rintro rfl
    exact plain among
  rw [List.takeWhile_append_of_pos inside, List.dropWhile_append_of_pos inside]
  cases names with
  | nil => simp
  | cons name rest => simp

/-- A value without a slash has none at its end. -/
theorem withoutEndSlash_of_not_mem {value : Text} (plain : '/' ∉ value) :
    withoutEndSlash value = value := by
  rw [withoutEndSlash, if_neg]
  rw [endsWith_iff]
  exact fun ends => plain (ends.subset (List.mem_singleton.mpr rfl))

/-- A value without a slash has none in front. -/
theorem startsWith_of_not_mem {value : Text} (plain : '/' ∉ value) :
    Text.startsWith value slash = false := by
  rw [Bool.eq_false_iff, Ne, startsWith_iff]
  exact fun starts => plain (starts.subset (List.mem_singleton.mpr rfl))

variable {segments : List Segment}

/-- The names of the parameters. -/
def paramNames (segments : List Segment) : List Text :=
  segments.filterMap fun
    | .fixed _ => none
    | .param name => some name.1

/-- A route without parameters is itself. -/
theorem substitute_of_plain (values : Text → Value) (none : segments.any Segment.isParam = false) :
    substitute values segments = routePath segments ∧ paramNames segments = [] := by
  induction segments with
  | nil => exact ⟨rfl, rfl⟩
  | cons segment rest ih =>
      rw [List.any_cons, Bool.or_eq_false_iff] at none
      obtain ⟨path, names⟩ := ih none.2
      cases segment with
      | fixed text =>
          exact ⟨congrArg (fun path => '/' :: (text.1 ++ path)) path, names⟩
      | param name => exact absurd none.1 Bool.noConfusion

/-- The values are read back from the path that has them. -/
theorem walk_substitute (values : Text → Value) (segments : List Segment) (result : PathParameter) :
    ∃ params, walk segments (substitute values segments) result = .ok params ∧
      ∀ name, params.get name =
        if name ∈ paramNames segments then some (values name).1 else result.get name := by
  induction segments generalizing result with
  | nil => exact ⟨result, rfl, fun _ => rfl⟩
  | cons segment rest ih =>
      cases segment with
      | fixed text =>
          rw [walk]
          split
          next more =>
            have path : substitute values (.fixed text :: rest) =
                ('/' :: text.1) ++ substitute values rest := rfl
            obtain ⟨params, walks, gets⟩ := ih result
            refine ⟨params, ?_, gets⟩
            have length : text.1.length + 1 = ('/' :: text.1).length := rfl
            rw [path, length, List.take_left, List.drop_left, if_pos List.prefix_rfl, walks]
          next none =>
            have plain : (Segment.fixed text :: rest).any Segment.isParam = false := by
              rw [List.any_cons, Bool.or_eq_false_iff]
              exact ⟨rfl, by simpa using none⟩
            obtain ⟨path, names⟩ := substitute_of_plain values plain
            refine ⟨result, ?_, fun name => ?_⟩
            · rw [path, isPathsEqual, decide_eq_true rfl, if_pos rfl]
            · rw [names, if_neg List.not_mem_nil]
      | param name =>
          have plain : '/' ∉ (values name.1).1 := (values name.1).2.2
          have path : substitute values (.param name :: rest) =
              '/' :: ((values name.1).1 ++ substitute values rest) := rfl
          have starts : ['/'] <+: slash := List.prefix_rfl
          have mentioned (other : Text) : other ∈ paramNames (.param name :: rest) ↔
              other = name.1 ∨ other ∈ paramNames rest := List.mem_cons
          rw [walk, path, List.take_succ_cons, List.take_zero, if_pos starts]
          by_cases last : rest = []
          · subst last
            refine ⟨result.set name.1 (values name.1).1, ?_, fun other => ?_⟩
            · have value : (values name.1).1 ++ substitute values [] = (values name.1).1 :=
                List.append_nil _
              simp only [if_true, List.drop_succ_cons, List.drop_zero, value,
                startsWith_of_not_mem plain, withoutEndSlash_of_not_mem plain]
              rfl
            · rw [OrderedMap.get_set]
              by_cases here : other = name.1
              · subst here
                rw [if_pos rfl, if_pos ((mentioned name.1).mpr (.inl rfl))]
              · have absent : other ∉ paramNames [.param name] :=
                  fun among => (mentioned other).mp among |>.elim here List.not_mem_nil
                rw [if_neg here, if_neg absent]
          · obtain ⟨takes, leaves⟩ := takeWhile_append_text plain (rest.map fun
              | .fixed text => text.1
              | .param name => (values name.1).1)
            obtain ⟨params, walks, gets⟩ := ih (result.set name.1 (values name.1).1)
            refine ⟨params, ?_, fun other => ?_⟩
            · simp only [if_neg last, List.drop_succ_cons, List.drop_zero]
              rw [← substitute] at takes leaves
              rw [takes, leaves]
              exact walks
            · rw [gets, OrderedMap.get_set]
              by_cases later : other ∈ paramNames rest
              · rw [if_pos later, if_pos ((mentioned other).mpr (.inr later))]
              · by_cases here : other = name.1
                · subst here
                  rw [if_neg later, if_pos rfl, if_pos ((mentioned name.1).mpr (.inl rfl))]
                · have absent : other ∉ paramNames (.param name :: rest) :=
                    fun among => (mentioned other).mp among |>.elim here later
                  rw [if_neg later, if_neg here, if_neg absent]

end

end Solpg.Client.Utils.PgRouter
