import Solpg.Std.UnixPath

/-!
# The text of an absolute path

`text names` writes the names with a slash before each. Such a text is split
back into its names, and one text that ends with a slash starts another exactly
when its names do.
-/

namespace Solpg.Std.UnixPath

/-- The text of a path: a slash in front of each name. -/
def text (names : List Text) : Text := names.flatMap fun name => '/' :: name

/-- The names that can be read back from a text. -/
def Slashless (names : List Text) : Prop := ∀ name ∈ names, '/' ∉ name

variable {names first second rest : List Text} {name : Text}

@[simp] theorem text_nil : text [] = [] := rfl

@[simp] theorem text_cons (name : Text) (rest : List Text) :
    text (name :: rest) = '/' :: (name ++ text rest) := rfl

@[simp] theorem text_append (first second : List Text) :
    text (first ++ second) = text first ++ text second := List.flatMap_append

/-- The text of an entry ends with its name. -/
theorem text_concat (names : List Text) (name : Text) :
    text (names ++ [name]) = text names ++ '/' :: name := by simp

/-- Fewer names have no slashes either. -/
theorem Slashless.tail (slashless : Slashless (name :: rest)) : Slashless rest :=
  fun other member => slashless other (List.mem_cons_of_mem _ member)

/-- Every name stands for an entry of a directory. -/
def AreNames (names : List Text) : Prop := ∀ name ∈ names, IsName name

instance (names : List Text) : Decidable (AreNames names) :=
  inferInstanceAs (Decidable (∀ name ∈ names, _))

/-- Names of entries have no slashes. -/
theorem AreNames.slashless (areNames : AreNames names) : Slashless names :=
  fun name member => (areNames name member).2.1

/-- A path has proper names when both of its parts have. -/
theorem areNames_append : AreNames (first ++ second) ↔ AreNames first ∧ AreNames second :=
  List.forall_mem_append

/-- The last of proper names is one. -/
theorem AreNames.last (areNames : AreNames (names ++ [name])) : IsName name :=
  areNames name (by simp)

/-- The directory of an entry has proper names. -/
theorem AreNames.parent (areNames : AreNames (names ++ [name])) : AreNames names :=
  (areNames_append.mp areNames).1

/-- A name and a path behind it split into the name and the names of the path. -/
theorem splitOn_name_text (noSlash : '/' ∉ name) (slashless : Slashless names) :
    (name ++ text names).splitOn '/' = name :: names := by
  induction names generalizing name with
  | nil => rw [text_nil, List.append_nil, List.splitOn_eq_singleton noSlash]
  | cons next rest ih =>
      rw [text_cons, List.splitOn_append_cons_self_of_not_mem noSlash,
        ih (slashless next List.mem_cons_self) slashless.tail]

/-- The text of a path splits into an empty piece and its names. -/
theorem splitOn_text (slashless : Slashless names) : (text names).splitOn '/' = [] :: names :=
  splitOn_name_text List.not_mem_nil slashless

/-- With a slash at the end there is an empty name more. -/
theorem splitOn_text_slash (slashless : Slashless names) :
    (text names ++ ['/']).splitOn '/' = [] :: (names ++ [[]]) := by
  have more : Slashless (names ++ [[]]) := by
    intro name member
    rcases List.mem_append.mp member with before | last
    · exact slashless name before
    · obtain rfl := List.mem_singleton.mp last
      simp
  rw [← splitOn_text more, text_concat]

/-- The text of a path is a slash and its names with slashes between them. -/
theorem text_eq_intercalate (name : Text) (rest : List Text) :
    text (name :: rest) = '/' :: ['/'].intercalate (name :: rest) := by
  induction rest generalizing name with
  | nil => simp
  | cons next rest ih =>
      rw [text_cons, ih next, List.intercalate_cons_cons]
      simp

/-- Any text is the text of its pieces. -/
theorem text_splitOn (path : Text) : text (path.splitOn '/') = '/' :: path := by
  cases pieces : path.splitOn '/' with
  | nil => exact absurd pieces (List.splitOn_ne_nil '/' path)
  | cons name rest => rw [text_eq_intercalate, ← pieces, List.intercalate_splitOn]

/-- All characters of the text meet what a slash meets when those of the names do. -/
theorem forall_mem_text {P : Char → Prop} (slash : P '/') :
    (∀ char ∈ text names, P char) ↔ ∀ name ∈ names, ∀ char ∈ name, P char := by
  simp only [text, List.mem_flatMap, List.mem_cons]
  constructor
  · exact fun all name member char inside => all char ⟨name, member, .inr inside⟩
  · rintro all char ⟨name, member, rfl | inside⟩
    · exact slash
    · exact all name member char inside

/-- All characters of joined names meet what a slash meets when those of the names do. -/
theorem forall_mem_intercalate {P : Char → Prop} (slash : P '/') :
    (∀ char ∈ ['/'].intercalate names, P char) ↔ ∀ name ∈ names, ∀ char ∈ name, P char := by
  cases names with
  | nil => exact ⟨fun _ => List.forall_mem_nil _, fun _ => List.forall_mem_nil _⟩
  | cons name rest =>
      rw [← forall_mem_text slash, text_eq_intercalate, List.forall_mem_cons]
      exact (and_iff_right slash).symm

/-- Names without slashes are told by the text of their path. -/
theorem text_injective (slashlessFirst : Slashless first) (slashlessSecond : Slashless second)
    (same : text first = text second) : first = second := by
  have split := congrArg (List.splitOn '/') same
  rw [splitOn_text slashlessFirst, splitOn_text slashlessSecond] at split
  exact List.tail_eq_of_cons_eq split

/-- Proper names lead to themselves. -/
theorem follow_isName (areNames : AreNames names) : follow [] names = names :=
  follow_of_names (fun name member => (areNames name member).2.2.2) []

/-! ## Pieces of a path

What stands between the slashes of a path that never goes up.
-/

/-- Pieces between slashes, none of which leads up. -/
def Pieces (names : List Text) : Prop := ∀ name ∈ names, '/' ∉ name ∧ name ≠ dotDot

instance (names : List Text) : Decidable (Pieces names) :=
  inferInstanceAs (Decidable (∀ name ∈ names, _))

/-- The pieces that lead somewhere. -/
def entered (names : List Text) : List Text :=
  names.filter fun name => !(name.isEmpty || name = ['.'])

/-- Pieces have no slashes. -/
theorem Pieces.slashless (pieces : Pieces names) : Slashless names :=
  fun name member => (pieces name member).1

/-- Proper names are such pieces. -/
theorem AreNames.pieces (areNames : AreNames names) : Pieces names :=
  fun name member => ⟨(areNames name member).2.1, (areNames name member).2.2.2⟩

/-- All proper names are entered. -/
theorem entered_eq_self (areNames : AreNames names) : entered names = names := by
  refine List.filter_eq_self.mpr fun name member => ?_
  obtain ⟨nonempty, -, notDot, -⟩ := areNames name member
  simp [nonempty, notDot]

/-- The pieces that are entered are proper names. -/
theorem Pieces.areNames_entered (pieces : Pieces names) : AreNames (entered names) := by
  intro name member
  obtain ⟨piece, enters⟩ := List.mem_filter.mp member
  simp only [Bool.not_eq_true', Bool.or_eq_false_iff, List.isEmpty_eq_false_iff,
    decide_eq_false_iff_not] at enters
  exact ⟨enters.1, (pieces name piece).1, enters.2, (pieces name piece).2⟩

/-- The text of pieces leads to those that are entered. -/
theorem location_text_pieces (pieces : Pieces names) (cwd : List Text) (inside : names ≠ []) :
    (ofText (text names)).location cwd = entered names := by
  have absolute : (text names).head? = some '/' := by
    obtain ⟨name, rest, rfl⟩ := List.exists_cons_of_ne_nil inside
    rfl
  have components : (ofText (text names)).components = entered names := by
    simp only [ofText, splitOn_text pieces.slashless]
    rw [List.filter_cons_of_neg (by simp), entered]
  rw [location, components]
  simp [ofText, absolute, follow_isName pieces.areNames_entered]

/-- A slash at the end of the text leads nowhere else. -/
theorem location_text_slash_pieces (pieces : Pieces names) (cwd : List Text) :
    (ofText (text names ++ ['/'])).location cwd = entered names := by
  have absolute : (text names ++ ['/']).head? = some '/' := by
    cases names <;> rfl
  have components : (ofText (text names ++ ['/'])).components = entered names := by
    simp only [ofText, splitOn_text_slash pieces.slashless]
    rw [List.filter_cons_of_neg (by simp), List.filter_append]
    simp [entered]
  rw [location, components]
  simp [ofText, absolute, follow_isName pieces.areNames_entered]

/-- The text leads where its names say. -/
theorem location_text (areNames : AreNames names) (cwd : List Text)
    (inside : names ≠ []) : (ofText (text names)).location cwd = names := by
  rw [location_text_pieces areNames.pieces cwd inside, entered_eq_self areNames]

/-- The text of proper names with a slash behind it leads to them. -/
theorem location_text_slash (areNames : AreNames names) (cwd : List Text) :
    (ofText (text names ++ ['/'])).location cwd = names := by
  rw [location_text_slash_pieces areNames.pieces, entered_eq_self areNames]

/-! ## Names and dots -/

/-- Names with dots for the directory itself between them. -/
def Rough (names : List Text) : Prop := ∀ name ∈ names, name ≠ [] ∧ '/' ∉ name ∧ name ≠ dotDot

instance (names : List Text) : Decidable (Rough names) :=
  inferInstanceAs (Decidable (∀ name ∈ names, _))

/-- The names without the dots. -/
def plain (names : List Text) : List Text := names.filter (· ≠ ['.'])

/-- Proper names are rough ones. -/
theorem AreNames.rough (areNames : AreNames names) : Rough names := by
  intro name member
  obtain ⟨nonempty, noSlash, -, notUp⟩ := areNames name member
  exact ⟨nonempty, noSlash, notUp⟩

/-- Proper names are plain. -/
theorem plain_eq_self (areNames : AreNames names) : plain names = names := by
  refine List.filter_eq_self.mpr fun name member => ?_
  simpa using (areNames name member).2.2.1

/-- Rough names have no slashes. -/
theorem Rough.slashless (rough : Rough names) : Slashless names :=
  fun name member => (rough name member).2.1

/-- A path is rough when both of its parts are. -/
theorem rough_append : Rough (first ++ second) ↔ Rough first ∧ Rough second := List.forall_mem_append

@[simp] theorem plain_append (first second : List Text) :
    plain (first ++ second) = plain first ++ plain second := List.filter_append ..

/-- Rough names are pieces that do not lead up. -/
theorem Rough.pieces (rough : Rough names) : Pieces names :=
  fun name member => (rough name member).2

/-- Of rough names the plain ones are entered. -/
theorem Rough.entered (rough : Rough names) : entered names = plain names := by
  refine List.filter_congr fun name member => ?_
  simp [(rough name member).1]

/-- Dots lead nowhere. -/
theorem location_text_rough (rough : Rough names) (cwd : List Text) (inside : names ≠ []) :
    (ofText (text names)).location cwd = plain names := by
  rw [location_text_pieces rough.pieces cwd inside, rough.entered]

/-! ## Any text -/

/-- The pieces of a text split at slashes have none. -/
theorem slashless_splitOn (path : Text) : Slashless (path.splitOn '/') :=
  fun _ member => Text.not_mem_of_mem_splitOn member

/-- A slash between two texts separates their pieces. -/
theorem splitOn_append_slash (first second : Text) :
    (first ++ '/' :: second).splitOn '/' = first.splitOn '/' ++ second.splitOn '/' := by
  have slashless : Slashless (first.splitOn '/' ++ second.splitOn '/') := by
    intro name member
    rcases List.mem_append.mp member with before | after
    · exact slashless_splitOn first name before
    · exact slashless_splitOn second name after
  have whole := splitOn_text slashless
  have absolute := splitOn_text (slashless_splitOn (first ++ '/' :: second))
  rw [text_append, text_splitOn, text_splitOn] at whole
  rw [text_splitOn] at absolute
  exact List.tail_eq_of_cons_eq (absolute.symm.trans whole)

/-- A slash between two texts separates their components. -/
theorem components_append_slash (first second : Text) :
    (ofText (first ++ '/' :: second)).components =
      (ofText first).components ++ (ofText second).components := by
  simp only [ofText, splitOn_append_slash, List.filter_append]

/-- What stands behind a slash is followed from where the rest leads. -/
theorem location_append_slash (first second : Text) :
    (ofText (first ++ '/' :: second)).location [] =
      follow ((ofText first).location []) (ofText second).components := by
  simp only [location, components_append_slash, ite_self, follow_append]

/-- A place consists of names. -/
theorem areNames_location (path : Text) : AreNames ((ofText path).location []) := by
  have place : (ofText path).location [] = follow [] (ofText path).components := by simp [location]
  have pieces : ∀ name ∈ (ofText path).components, name ≠ dotDot → IsName name := by
    intro name member notUp
    obtain ⟨piece, kept⟩ := List.mem_filter.mp member
    have noSlash := slashless_splitOn path name piece
    simp only [Bool.not_eq_true', Bool.or_eq_false_iff, List.isEmpty_eq_false_iff,
      decide_eq_false_iff_not] at kept
    exact ⟨kept.1, noSlash, kept.2, notUp⟩
  rw [place]
  suffices steps : ∀ components start, AreNames start →
      (∀ name ∈ components, name ≠ dotDot → IsName name) → AreNames (follow start components) from
    steps _ _ (fun _ member => by cases member) pieces
  intro components
  induction components with
  | nil => exact fun start areNames _ => areNames
  | cons name rest ih =>
      intro start areNames pieces
      have later := fun other member => pieces other (List.mem_cons_of_mem _ member)
      refine ih _ ?_ later
      by_cases up : name = dotDot
      · simp only [if_pos up]
        exact fun other member => areNames other (List.mem_of_mem_dropLast member)
      · simp only [if_neg up]
        refine areNames_append.mpr ⟨areNames, fun other member => ?_⟩
        rw [List.mem_singleton.mp member]
        exact pieces name List.mem_cons_self up

/-! ## Prefixes -/

/-- What is at a path or below it has its text for a start. -/
theorem text_prefix (below : first <+: second) : text first <+: text second := by
  obtain ⟨rest, rfl⟩ := below
  rw [text_append]
  exact List.prefix_append _ _

/-- A first name is delimited by the slash behind it. -/
theorem name_slash_prefix {other : Text} {front back : Text} (noSlash : '/' ∉ name)
    (noSlashOther : '/' ∉ other) (ended : back = [] ∨ back.head? = some '/')
    (starts : name ++ '/' :: front <+: other ++ back) : name = other ∧ '/' :: front <+: back := by
  induction name generalizing other with
  | nil =>
      cases other with
      | nil => exact ⟨rfl, starts⟩
      | cons char rest =>
          obtain ⟨rfl, -⟩ := List.cons_prefix_cons.mp starts
          simp at noSlashOther
  | cons char name ih =>
      cases other with
      | nil =>
          obtain rfl | ended := ended
          · simpa using List.IsPrefix.length_le starts
          · cases back with
            | nil => cases ended
            | cons next rest =>
                obtain ⟨rfl, -⟩ := List.cons_prefix_cons.mp starts
                cases ended
                simp at noSlash
      | cons next rest =>
          rw [List.cons_append, List.cons_append, List.cons_prefix_cons] at starts
          obtain ⟨rfl, starts⟩ := starts
          obtain ⟨rfl, within⟩ := ih (fun member => noSlash (List.mem_cons_of_mem _ member))
            (fun member => noSlashOther (List.mem_cons_of_mem _ member)) starts
          exact ⟨rfl, within⟩

/-- A text that ends with a slash starts the texts of what is below it. -/
theorem text_slash_prefix (slashlessFirst : Slashless first) (slashlessSecond : Slashless second) :
    text first ++ ['/'] <+: text second ↔ first <+: second ∧ first ≠ second := by
  induction first generalizing second with
  | nil =>
      cases second with
      | nil => simp
      | cons name rest => simp [List.cons_prefix_cons]
  | cons name first ih =>
      cases second with
      | nil => simp
      | cons other second =>
          have tails := ih slashlessFirst.tail slashlessSecond.tail
          have ended : text second = [] ∨ (text second).head? = some '/' := by
            cases second with
            | nil => exact .inl rfl
            | cons name rest => exact .inr rfl
          have step : text (name :: first) ++ ['/'] <+: text (other :: second) ↔
              name = other ∧ text first ++ ['/'] <+: text second := by
            obtain ⟨front, shape⟩ : ∃ front, text first ++ ['/'] = '/' :: front := by
              cases first with
              | nil => exact ⟨[], rfl⟩
              | cons name rest => exact ⟨_, rfl⟩
            simp only [text_cons, List.cons_append, List.append_assoc, List.cons_prefix_cons,
              true_and, shape]
            constructor
            · exact name_slash_prefix (slashlessFirst name List.mem_cons_self)
                (slashlessSecond other List.mem_cons_self) ended
            · rintro ⟨rfl, within⟩
              exact (List.prefix_append_right_inj _).mpr within
          rw [step, tails, List.cons_prefix_cons, ne_eq, ne_eq, List.cons.injEq]
          tauto

/-- With a slash behind each, one text begins another exactly when the path leads through it. -/
theorem text_slash_prefix_slash (slashlessFirst : Slashless first)
    (slashlessSecond : Slashless second) :
    text first ++ ['/'] <+: text second ++ ['/'] ↔ first <+: second := by
  have more : Slashless (second ++ [[]]) := by
    intro name member
    rcases List.mem_append.mp member with before | last
    · exact slashlessSecond name before
    · obtain rfl := List.mem_singleton.mp last
      exact List.not_mem_nil
  have whole := text_slash_prefix slashlessFirst more
  rw [text_concat] at whole
  rw [whole, List.prefix_concat_iff]
  constructor
  · rintro ⟨same | within, different⟩
    · exact absurd same different
    · exact within
  · intro within
    refine ⟨.inr within, ?_⟩
    rintro rfl
    exact absurd within.length_le (by simp)

end Solpg.Std.UnixPath
