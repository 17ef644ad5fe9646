import Solpg.Client.Utils.Router

/-!
# Paths that match a route

A path that matches a route may end before it does. It agrees with the route on each fixed
segment that it reaches, unless it ends inside of one: a part of a fixed segment is taken for
the whole of it where only parameters have to follow.
-/

namespace Solpg.Client.Utils.PgRouter

open Solpg.Std PgCommon

/-- The names that a path reaches: after a slash at its end there is none. -/
def reached (names : List Text) : List Text :=
  if names.getLast? = some [] then names.dropLast else names

/-- The path has the text of a fixed segment at its place. -/
def Segment.Agrees : Segment → Text → Prop
  | .fixed text, name => name = text.1
  | .param _, _ => True

/-- The names agree with the segments at their places. -/
def AgreeAt (segments : List Segment) (names : List Text) : Prop :=
  ∀ pair ∈ segments.zip names, pair.1.Agrees pair.2

/-- A path has parameters for a route. -/
def Matches (segments : List Segment) (path : Text) : Prop :=
  ∃ params, getParamsFromPath (routePath segments) path = .ok params

/-- The path agrees with the route on every fixed segment that it reaches. -/
def Agrees (segments : List Segment) (path : Text) : Prop :=
  AgreeAt segments (reached (path.splitOn '/').tail)

/-- The route ends with a parameter, up to a slash at its end. -/
def OpenEnded (segments : List Segment) : Prop :=
  ∃ others name finish, segments = others ++ .param name :: finish ∧
    (finish = [] ∨ finish.map Segment.text = [[]])

/-- The names agree with the route up to a fixed segment of which the last name is only a
part, and the route ends with a parameter later. -/
inductive StopsAt : List Segment → List Text → Prop where
  | inside {text after last} (some : last ≠ []) (part : last <+: text.1) (proper : last ≠ text.1)
      (ended : OpenEnded after) : StopsAt (.fixed text :: after) [last]
  | later {segment : Segment} {name rest names} (agrees : segment.Agrees name)
      (stops : StopsAt rest names) : StopsAt (segment :: rest) (name :: names)

/-- A path stops before the end of a route. -/
def StopsInside (segments : List Segment) (path : Text) : Prop :=
  ∃ names, path.splitOn '/' = [] :: names ∧ StopsAt segments names

section

variable {segments rest : List Segment} {segment : Segment} {names : List Text}
  {name path : Text} {result params : PathParameter}

/-- Without names there is nothing to agree on. -/
theorem agreeAt_nil : AgreeAt segments [] := by
  simp [AgreeAt]

/-- A path agrees when each name does. -/
theorem agreeAt_cons : AgreeAt (segment :: rest) (name :: names) ↔
    segment.Agrees name ∧ AgreeAt rest names := by
  simp [AgreeAt]

/-- A segment before an open end keeps it open. -/
theorem OpenEnded.cons (ended : OpenEnded rest) (segment : Segment) :
    OpenEnded (segment :: rest) := by
  obtain ⟨others, name, finish, rfl, ends⟩ := ended
  exact ⟨segment :: others, name, finish, rfl, ends⟩

/-- An open end has a parameter. -/
theorem OpenEnded.any (ended : OpenEnded segments) : segments.any Segment.isParam = true := by
  obtain ⟨others, name, finish, rfl, -⟩ := ended
  simp [Segment.isParam]

/-- What is before the last parameter makes no difference. -/
theorem openEnded_cons_iff (some : rest.any Segment.isParam = true) :
    OpenEnded (segment :: rest) ↔ OpenEnded rest := by
  refine ⟨?_, fun ended => ended.cons segment⟩
  rintro ⟨others, name, finish, route, ends⟩
  cases others with
  | nil =>
      obtain ⟨-, rfl⟩ := List.cons_eq_cons.mp route
      obtain rfl | single := ends
      · exact absurd some nofun
      · obtain ⟨only, rfl, empty⟩ := List.map_eq_singleton_iff.mp single
        cases only with
        | fixed text => exact absurd some nofun
        | param other => exact absurd empty nofun
  | cons first others => exact ⟨others, name, finish, (List.cons_eq_cons.mp route).2, ends⟩

/-- The last parameter is open when nothing follows it. -/
theorem openEnded_param_iff {parameter} (none : rest.any Segment.isParam = false) :
    OpenEnded (.param parameter :: rest) ↔ rest = [] ∨ rest.map Segment.text = [[]] := by
  constructor
  · rintro ⟨others, name, finish, route, ends⟩
    cases others with
    | nil =>
        obtain ⟨-, rfl⟩ := List.cons_eq_cons.mp route
        exact ends
    | cons first others =>
        have later : OpenEnded rest := ⟨others, name, finish, (List.cons_eq_cons.mp route).2, ends⟩
        rw [later.any] at none
        exact absurd none nofun
  · exact fun ends => ⟨[], parameter, rest, rfl, ends⟩

/-- A route without a parameter is compared as a whole. -/
theorem walk_plain (nonempty : segments ≠ []) (none : segments.any Segment.isParam = false)
    (path : Text) (result : PathParameter) : (∃ params, walk segments path result = .ok params) ↔
      isPathsEqual (routePath segments) path = true := by
  obtain ⟨segment, rest, rfl⟩ := List.exists_cons_of_ne_nil nonempty
  rw [List.any_cons, Bool.or_eq_false_iff] at none
  cases segment with
  | fixed text =>
      rw [walk, if_neg (by simp [none.2])]
      split
      next same => exact iff_of_true ⟨result, rfl⟩ same
      next other => exact iff_of_false (by rintro ⟨_, failed⟩; cases failed) other
  | param name => cases none.1

/-- A slash at the end reaches no further. -/
theorem reached_concat (names : List Text) (last : Text) :
    reached (names ++ [last]) = if last = [] then names else names ++ [last] := by
  simp [reached]

/-- Nothing is reached by an empty path or a slash. -/
theorem reached_eq_nil_iff : reached names = [] ↔ names = [] ∨ names = [[]] := by
  obtain rfl | ⟨others, last, rfl⟩ := List.eq_nil_or_concat' names
  · exact iff_of_true rfl (.inl rfl)
  · rw [reached_concat]
    split
    next empty => simp [empty]
    next some =>
      have single : others ++ [last] ≠ [[]] := by
        intro same
        have ends := List.append_inj_right' (show others ++ [last] = [] ++ [[]] from same) rfl
        exact some (List.head_eq_of_cons_eq ends)
      simp [single]

/-- The first name is reached before the others. -/
theorem reached_cons (nonempty : names ≠ []) (name : Text) :
    reached (name :: names) = name :: reached names := by
  obtain ⟨others, last, rfl⟩ := (List.eq_nil_or_concat' names).resolve_left nonempty
  rw [← List.cons_append, reached_concat, reached_concat]
  split <;> rfl

/-- Paths with a slash at the end, as they are compared. -/
theorem appendSlash_text (slashless : UnixPath.Slashless names) :
    appendSlash (UnixPath.text names) = UnixPath.text (reached names ++ [[]]) := by
  obtain rfl | ⟨others, last, rfl⟩ := List.eq_nil_or_concat' names
  · rfl
  · rw [reached_concat]
    split
    next empty =>
      subst empty
      rw [UnixPath.text_concat]
      exact appendSlash_of_endsWith (endsWith_slash _)
    next some =>
      have plain : '/' ∉ last := slashless last (by simp)
      rw [appendSlash, text_endsWith_slash_of_slashless some plain, UnixPath.text_concat _ []]
      rfl

/-- The names that are reached have no slash. -/
theorem slashless_reached (slashless : UnixPath.Slashless names) :
    UnixPath.Slashless (reached names ++ [[]]) := by
  intro name among
  obtain there | empty := List.mem_append.mp among
  · rw [reached] at there
    split at there
    · exact slashless name (List.dropLast_subset names there)
    · exact slashless name there
  · rw [List.mem_singleton.mp empty]
    exact List.not_mem_nil

/-- The segments of a route have no slash. -/
theorem slashless_texts (segments : List Segment) :
    UnixPath.Slashless (segments.map Segment.text) := by
  intro name among
  obtain ⟨segment, -, rfl⟩ := List.mem_map.mp among
  cases segment with
  | fixed text => exact text.2.1
  | param name => simp [Segment.text, name.2.1]

/-- Paths are the same that reach the same names. -/
theorem isPathsEqual_routePath_iff (segments : List Segment)
    (slashless : UnixPath.Slashless names) :
    isPathsEqual (routePath segments) (UnixPath.text names) = true ↔
      reached (segments.map Segment.text) = reached names := by
  rw [isPathsEqual, decide_eq_true_eq, routePath, appendSlash_text (slashless_texts segments),
    appendSlash_text slashless]
  constructor
  · intro same
    exact List.append_cancel_right (UnixPath.text_injective (slashless_reached (slashless_texts segments))
      (slashless_reached slashless) same)
  · intro same
    rw [same]

/-- Where nothing is left of a path, the route has to end with a parameter. -/
theorem walk_nil_iff (some : segments.any Segment.isParam = true) (result : PathParameter) :
    (∃ params, walk segments [] result = .ok params) ↔ OpenEnded segments := by
  induction segments generalizing result with
  | nil => cases some
  | cons segment rest ih =>
      by_cases more : rest.any Segment.isParam = true
      · rw [openEnded_cons_iff more]
        cases segment with
        | fixed text => rw [walk, if_pos more, List.take_nil, List.drop_nil, if_pos List.nil_prefix, ih more]
        | param name =>
            have nonempty : rest ≠ [] := by
              rintro rfl
              cases more
            rw [walk, List.take_nil, if_pos List.nil_prefix]
            simp only [if_neg nonempty]
            exact ih more _
      · have none : rest.any Segment.isParam = false := by simpa using more
        cases segment with
        | fixed text => exact absurd some (by simp [Segment.isParam, none])
        | param name =>
            rw [openEnded_param_iff none, walk, List.take_nil, if_pos List.nil_prefix]
            by_cases last : rest = []
            · subst last
              exact iff_of_true ⟨_, rfl⟩ (.inl rfl)
            · simp only [if_neg last, or_iff_right last]
              have empty : UnixPath.Slashless [] := List.forall_mem_nil _
              have nonempty : rest.map Segment.text ≠ [] := mt List.map_eq_nil_iff.mp last
              refine (walk_plain last none [] _).trans ?_
              rw [← UnixPath.text_nil, isPathsEqual_routePath_iff rest empty]
              exact reached_eq_nil_iff.trans (or_iff_right nonempty)

/-- A slash is appended, or nothing. -/
theorem exists_appendSlash (path : Text) : ∃ ending, appendSlash path = path ++ ending := by
  rw [appendSlash]
  split
  · exact ⟨[], (List.append_nil path).symm⟩
  · exact ⟨slash, rfl⟩

/-- A path that matches begins with a slash, if it is not empty. -/
theorem starts_of_walk (nonempty : segments ≠ [])
    (walks : walk segments path result = .ok params) : path.take 1 <+: slash := by
  obtain ⟨segment, rest, rfl⟩ := List.exists_cons_of_ne_nil nonempty
  cases segment with
  | fixed text =>
      rw [walk] at walks
      split at walks
      next more =>
        split at walks
        next fits =>
          cases path with
          | nil => exact List.nil_prefix
          | cons first others =>
              obtain ⟨rfl, -⟩ := List.cons_prefix_cons.mp fits
              exact List.prefix_rfl
        next => cases walks
      next =>
        split at walks
        next same =>
          rw [isPathsEqual, decide_eq_true_eq] at same
          obtain ⟨finish, route⟩ := exists_appendSlash (routePath (.fixed text :: rest))
          obtain ⟨ending, whole⟩ := exists_appendSlash path
          rw [route, whole] at same
          cases path with
          | nil => exact List.nil_prefix
          | cons first others =>
              obtain rfl : '/' = first := List.head_eq_of_cons_eq same
              exact List.prefix_rfl
        next => cases walks
  | param name =>
      rw [walk] at walks
      split at walks
      next starts => exact starts
      next => cases walks

/-- A parameter takes the first name of a path. -/
theorem walk_param {parameter} (nonempty : rest ≠ []) (plain : '/' ∉ name) :
    walk (.param parameter :: rest) (UnixPath.text (name :: names)) result =
      walk rest (UnixPath.text names) (result.set parameter.1 name) := by
  obtain ⟨takes, leaves⟩ := takeWhile_append_text plain names
  have starts : (UnixPath.text (name :: names)).take 1 <+: slash := List.prefix_rfl
  rw [walk, if_pos starts]
  simp only [if_neg nonempty, UnixPath.text_cons, List.drop_succ_cons, List.drop_zero, takes, leaves]

/-- A fixed segment is skipped where the path has it. -/
theorem walk_fixed {text} (more : rest.any Segment.isParam = true) (remaining : Text) :
    walk (.fixed text :: rest) ('/' :: (text.1 ++ remaining)) result =
      walk rest remaining result := by
  have length : text.1.length + 1 = ('/' :: text.1).length := rfl
  rw [walk, if_pos more, length, ← List.cons_append, List.take_left, List.drop_left,
    if_pos List.prefix_rfl]

/-- A path stops at a parameter. -/
theorem StopsAt.any (stops : StopsAt segments names) : segments.any Segment.isParam = true := by
  induction stops with
  | inside some part proper ended => simp [ended.any]
  | later agrees stops ih => simp [ih]

/-- A path that stops has a name. -/
theorem StopsAt.nonempty (stops : StopsAt segments names) : names ≠ [] := by
  cases stops with
  | inside => exact List.cons_ne_nil _ _
  | later => exact List.cons_ne_nil _ _

/-- A path that stops inside of a segment matches. -/
theorem StopsAt.matches (stops : StopsAt segments names) (slashless : UnixPath.Slashless names)
    (result : PathParameter) :
    ∃ params, walk segments (UnixPath.text names) result = .ok params := by
  induction stops generalizing result with
  | @inside text after last some part proper ended =>
      have short : last.length ≤ text.1.length := part.length_le
      have starts : (UnixPath.text [last]).take (text.1.length + 1) <+: '/' :: text.1 := by
        refine (List.take_prefix _ _).trans ?_
        simpa using part
      have nothing : (UnixPath.text [last]).drop (text.1.length + 1) = [] := by
        simpa using short
      rw [walk, if_pos ended.any, if_pos starts, nothing]
      exact (walk_nil_iff ended.any result).mpr ended
  | @later segment name rest names agrees stops ih =>
      have plain : '/' ∉ name := slashless name List.mem_cons_self
      cases segment with
      | fixed text =>
          obtain rfl : name = text.1 := agrees
          rw [UnixPath.text_cons, walk_fixed stops.any]
          exact ih slashless.tail result
      | param parameter =>
          have nonempty : rest ≠ [] := by
            rintro rfl
            cases stops
          rw [walk_param nonempty plain]
          exact ih slashless.tail _

/-- A path that stops does not agree with the route. -/
theorem StopsAt.not_agreeAt (stops : StopsAt segments names) :
    ¬ AgreeAt segments (reached names) := by
  induction stops with
  | @inside text after last some part proper ended =>
      intro agrees
      rw [← List.nil_append [last], reached_concat, if_neg some, List.nil_append] at agrees
      exact proper (agreeAt_cons.mp agrees).1
  | later _ stops ih =>
      intro agrees
      rw [reached_cons stops.nonempty] at agrees
      exact ih (agreeAt_cons.mp agrees).2

/-- The segments themselves agree with a route without parameters. -/
theorem agreeAt_of_isPrefix (starts : names <+: segments.map Segment.text)
    (none : segments.any Segment.isParam = false) : AgreeAt segments names := by
  induction segments generalizing names with
  | nil => simp [AgreeAt]
  | cons segment rest ih =>
      rw [List.any_cons, Bool.or_eq_false_iff] at none
      cases names with
      | nil => exact agreeAt_nil
      | cons name others =>
          rw [List.map_cons, List.cons_prefix_cons] at starts
          refine agreeAt_cons.mpr ⟨?_, ih starts.2 none.2⟩
          cases segment with
          | fixed text => exact starts.1
          | param parameter => trivial

/-- What is reached is the start of the names. -/
theorem reached_isPrefix (names : List Text) : reached names <+: names := by
  rw [reached]
  split
  · exact List.dropLast_prefix names
  · exact List.prefix_rfl

/-- A name that passes for a fixed segment is the segment, or a part of it at the end. -/
theorem fixed_of_walk {text : { text : Text // '/' ∉ text ∧ '{' ∉ text }}
    (more : rest.any Segment.isParam = true) (plain : '/' ∉ name)
    (walks : walk (.fixed text :: rest) (UnixPath.text (name :: names)) result = .ok params) :
    (name = text.1 ∧ walk rest (UnixPath.text names) result = .ok params) ∨
      (names = [] ∧ name <+: text.1 ∧ name ≠ text.1 ∧ walk rest [] result = .ok params) := by
  have nonempty : rest ≠ [] := by
    rintro rfl
    exact absurd more nofun
  rw [walk, if_pos more] at walks
  split at walks
  next fits =>
    rw [UnixPath.text_cons, List.take_succ_cons, List.cons_prefix_cons] at fits
    rw [UnixPath.text_cons, List.drop_succ_cons] at walks
    obtain ⟨-, fits⟩ := fits
    obtain short | long := Nat.lt_or_ge name.length text.1.length
    · right
      have parts : (name ++ UnixPath.text names).take text.1.length =
          name ++ (UnixPath.text names).take (text.1.length - name.length) := by
        rw [List.take_append, List.take_of_length_le (Nat.le_of_lt short)]
      rw [parts] at fits
      obtain rfl : names = [] := by
        by_contra some
        obtain ⟨next, others, rfl⟩ := List.exists_cons_of_ne_nil some
        obtain ⟨room, size⟩ := Nat.exists_eq_succ_of_ne_zero (Nat.sub_ne_zero_of_lt short)
        rw [size, UnixPath.text_cons, List.take_succ_cons] at fits
        exact text.2.1 (fits.subset (by simp))
      rw [UnixPath.text_nil, List.append_nil, List.drop_of_length_le (Nat.le_of_lt short)] at walks
      rw [UnixPath.text_nil, List.take_nil, List.append_nil] at fits
      refine ⟨rfl, fits, ?_, walks⟩
      rintro rfl
      exact Nat.lt_irrefl _ short
    · left
      rw [List.take_append_of_le_length long] at fits
      rw [List.drop_append_of_le_length long] at walks
      have whole : name.take text.1.length = text.1 :=
        fits.eq_of_length (List.length_take_of_le long)
      have none : name.drop text.1.length = [] := by
        cases left : name.drop text.1.length with
        | nil => rfl
        | cons first others =>
            have starts := starts_of_walk nonempty walks
            rw [left, List.cons_append, List.take_succ_cons] at starts
            obtain ⟨rfl, -⟩ := List.cons_prefix_cons.mp starts
            exact absurd (List.mem_of_mem_drop (left ▸ List.mem_cons_self)) plain
      have same : name = text.1 := by
        rw [← List.take_append_drop text.1.length name, whole, none, List.append_nil]
      rw [none, List.nil_append] at walks
      exact ⟨same, walks⟩
  next => cases walks

/-- A path that matches and does not stop inside of a segment agrees with the route. -/
theorem agreeAt_of_walk (slashless : UnixPath.Slashless names)
    (walks : walk segments (UnixPath.text names) result = .ok params)
    (whole : ¬ StopsAt segments names) : AgreeAt segments (reached names) := by
  induction segments generalizing names result with
  | nil => simp [AgreeAt]
  | cons segment rest ih =>
      cases names with
      | nil => exact agreeAt_nil
      | cons name others =>
          have plain : '/' ∉ name := slashless name List.mem_cons_self
          -- the rest of the path by the rest of the route
          have later : ∀ {result}, segment.Agrees name →
              walk rest (UnixPath.text others) result = .ok params →
              AgreeAt (segment :: rest) (reached (name :: others)) := by
            intro result here walksRest
            have agrees := ih slashless.tail walksRest fun stops => whole (.later here stops)
            by_cases last : others = []
            · subst last
              rw [← List.nil_append [name], reached_concat]
              split
              · exact agreeAt_nil
              · exact agreeAt_cons.mpr ⟨here, agreeAt_nil⟩
            · rw [reached_cons last]
              exact agreeAt_cons.mpr ⟨here, agrees⟩
          cases segment with
          | fixed text =>
              by_cases more : rest.any Segment.isParam = true
              · obtain ⟨same, walksRest⟩ | ⟨rfl, part, proper, walksRest⟩ :=
                  fixed_of_walk more plain walks
                · exact later same walksRest
                · by_cases empty : name = []
                  · subst empty
                    exact agreeAt_nil
                  · have ended := (walk_nil_iff more result).mp ⟨params, walksRest⟩
                    exact absurd (.inside empty part proper ended) whole
              · have none : (Segment.fixed text :: rest).any Segment.isParam = false := by
                  simpa [Segment.isParam] using more
                have same := (walk_plain (List.cons_ne_nil _ _) none _ result).mp ⟨params, walks⟩
                rw [isPathsEqual_routePath_iff _ slashless] at same
                rw [← same]
                exact agreeAt_of_isPrefix (reached_isPrefix _) none
          | param parameter =>
              by_cases last : rest = []
              · subst last
                cases reached (name :: others) with
                | nil => exact agreeAt_nil
                | cons first names => simp [AgreeAt, Segment.Agrees]
              · rw [walk_param last plain] at walks
                exact later trivial walks

/-- Only a path that begins with a slash, or an empty one, can match. -/
theorem text_of_matches (nonempty : segments ≠ []) (matching : Matches segments path) :
    ∃ names, path.splitOn '/' = [] :: names ∧ path = UnixPath.text names := by
  obtain ⟨params, walks⟩ := matching
  rw [getParamsFromPath, mapValues_eq_walk] at walks
  have starts := starts_of_walk nonempty walks
  cases path with
  | nil => exact ⟨[], rfl, rfl⟩
  | cons first rest =>
      obtain ⟨rfl, -⟩ := List.cons_prefix_cons.mp starts
      refine ⟨rest.splitOn '/', ?_, (UnixPath.text_splitOn rest).symm⟩
      exact UnixPath.splitOn_append_slash [] rest

end

/-- The values of the parameters are read back from the path that has them, whatever they are.
A path that matches agrees with the route on the fixed segments that it reaches exactly when it
does not stop inside of one that only parameters have to follow. -/
theorem substitute_inverted_and_agrees_iff (values : Text → Value) (segments : List Segment)
    (path : Text) :
    (∃ params, getParamsFromPath (routePath segments) (substitute values segments) = .ok params ∧
      ∀ name, params.get name =
        if name ∈ paramNames segments then some (values name).1 else none) ∧
      ((Matches segments path → Agrees segments path) ↔ ¬ StopsInside segments path) := by
  constructor
  · rw [getParamsFromPath, mapValues_eq_walk]
    exact walk_substitute values segments .empty
  · constructor
    · rintro agrees ⟨names, split, stops⟩
      have slashless : UnixPath.Slashless names := fun name among =>
        UnixPath.slashless_splitOn path name (split ▸ List.mem_cons_of_mem _ among)
      have whole : path = UnixPath.text names := by
        have joined := UnixPath.text_splitOn path
        rw [split] at joined
        exact (List.cons_eq_cons.mp joined).2.symm
      have matching : Matches segments path := by
        rw [Matches, getParamsFromPath, mapValues_eq_walk, whole]
        exact stops.matches slashless _
      have there := agrees matching
      rw [Agrees, split] at there
      exact stops.not_agreeAt there
    · intro whole matching
      by_cases nonempty : segments = []
      · subst nonempty
        simp [Agrees, AgreeAt]
      · obtain ⟨names, split, rfl⟩ := text_of_matches nonempty matching
        have slashless : UnixPath.Slashless names := fun name among =>
          UnixPath.slashless_splitOn _ name (split ▸ List.mem_cons_of_mem _ among)
        obtain ⟨params, walks⟩ := matching
        rw [getParamsFromPath, mapValues_eq_walk] at walks
        rw [Agrees, split]
        exact agreeAt_of_walk slashless walks fun stops => whole ⟨names, split, stops⟩

/-- `/tut` is taken for `/tutorials/{name}` without a name. -/
theorem matches_part_of_tutorials :
    let segments : List Segment := [.fixed ⟨"tutorials".toList, by decide⟩,
      .param ⟨"name".toList, by decide⟩]
    Matches segments "/tut".toList ∧ ¬ Agrees segments "/tut".toList := by
  intro segments
  constructor
  · rw [Matches, getParamsFromPath, mapValues_eq_walk]
    exact ⟨_, rfl⟩
  · intro agrees
    have split : ("/tut".toList.splitOn '/').tail = ["tut".toList] := by decide
    rw [Agrees, split] at agrees
    have first : "tut".toList = "tutorials".toList := (agreeAt_cons.mp agrees).1
    exact absurd first (by decide)

end Solpg.Client.Utils.PgRouter
