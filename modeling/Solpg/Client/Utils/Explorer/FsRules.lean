import Solpg.Client.Utils.Explorer.Paths

/-!
# What the file system calls do

A program of `PgFs` reads of the state only its context and changes only the
store. `Acts` says what it does to a store while others work on the tabs, and
`Outcome` counts the faults that may come from outside the model.
-/

namespace Solpg.Client.Utils

open Solpg.Std

/-- What others may do to the state while a program waits. -/
structure Interference where
  Rel : PgExplorer → PgExplorer → Prop
  refl : ∀ self, Rel self self
  trans : ∀ {first second third}, Rel first second → Rel second third → Rel first third
  context : ∀ {first second}, Rel first second → second.context = first.context

namespace Interference

/-- The others leave the store alone. -/
def setting (others : Interference) (fs : LightningFs) (cutOff : Prop) :
    Setting PgExplorer FsCall FsCall.Answer (Disk fs) where
  serve := Disk.serve
  rely self disk self' disk' := others.Rel self self' ∧ disk' = disk
  cutOff := cutOff

/-- No other party touches the explorer while a call is away. -/
def nobody : Interference where
  Rel self self' := self' = self
  refl _ := rfl
  trans first second := second.trans first
  context same := congrArg PgExplorer.context same

/-- Without other parties a call is served by the disk alone. -/
theorem nobody_setting (fs : LightningFs) (cutOff : Prop) :
    nobody.setting fs cutOff = alone Disk.serve cutOff := rfl

end Interference

variable {fs : LightningFs} {others : Interference} {cutOff : Prop} {context : Context}
  {α β : Type} {disk : Disk fs} {outcome : Except JsError α → Disk fs → Prop}

/-- A synchronous step ensures what its result says. -/
theorem PgM.ensures_sync {setting : Setting PgExplorer FsCall FsCall.Answer (Disk fs)}
    {self : PgExplorer} {f : PgExplorer → Except JsError α}
    {post : Except JsError α → PgExplorer → Disk fs → Prop} :
    (PgM.sync f).Ensures setting self disk post ↔ post (f self) self disk := Iff.rfl

/-- A change of the explorer ensures what holds of the changed one. -/
theorem PgM.ensures_change {setting : Setting PgExplorer FsCall FsCall.Answer (Disk fs)}
    {self : PgExplorer} {f : PgExplorer → Except JsError PgExplorer}
    {post : Except JsError Unit → PgExplorer → Disk fs → Prop} :
    (PgM.change f).Ensures setting self disk post ↔
      match f self with
      | .ok changed => post (.ok ()) changed disk
      | .error error => post (.error error) self disk := by
  rw [Async.Ensures, PgM.change]
  cases f self <;> rfl

/-- What a program does to the store, in a state of the given context. -/
def Acts (others : Interference) (cutOff : Prop) (context : Context) (program : PgM α)
    (disk : Disk fs) (outcome : Except JsError α → Disk fs → Prop) : Prop :=
  ∀ self, self.context = context →
    program.Ensures (others.setting fs cutOff) self disk fun result self' disk' =>
      others.Rel self self' ∧ outcome result disk'

/-- A returned value acts without a call. -/
theorem acts_pure {value : α}
    (holds : outcome (.ok value) disk) : Acts others cutOff context (pure value) disk outcome :=
  fun self _ => ⟨others.refl self, holds⟩

/-- A thrown error acts without a call. -/
theorem acts_throw {error : JsError}
    (holds : outcome (.error error) disk) :
    Acts others cutOff context (throw error : PgM α) disk outcome :=
  fun self _ => ⟨others.refl self, holds⟩

/-- A weaker outcome holds as well. -/
theorem Acts.mono {program : PgM α} {outcome weaker : Except JsError α → Disk fs → Prop}
    (acts : Acts others cutOff context program disk outcome)
    (weakens : ∀ result disk, outcome result disk → weaker result disk) :
    Acts others cutOff context program disk weaker := by
  intro self here
  refine (acts self here).mono ?_
  rintro result self' disk' ⟨moved, holds⟩
  exact ⟨moved, weakens result disk' holds⟩

/-- Two programs act one after the other, or fail with the first. -/
theorem Acts.bind {first : PgM α} {next : α → PgM β} {outcome : Except JsError β → Disk fs → Prop}
    (middle : Except JsError α → Disk fs → Prop)
    (acts : Acts others cutOff context first disk middle)
    (rest : ∀ value disk, middle (.ok value) disk →
      Acts others cutOff context (next value) disk outcome)
    (failed : ∀ error disk, middle (.error error) disk → outcome (.error error) disk) :
    Acts others cutOff context (first >>= next) disk outcome := by
  intro self here
  refine (acts self here).bind ?_ ?_
  · rintro value self' disk' ⟨moved, holds⟩
    refine (rest value disk' holds self' ((others.context moved).trans here)).mono ?_
    rintro result self'' disk'' ⟨later, finally_⟩
    exact ⟨others.trans moved later, finally_⟩
  · rintro error self' disk' ⟨moved, holds⟩
    exact ⟨moved, failed error disk' holds⟩

/-- A handler acts from the state in which the error was thrown. -/
theorem Acts.tryCatch {program : PgM α} {handler : JsError → PgM α}
    (middle : Except JsError α → Disk fs → Prop)
    (acts : Acts others cutOff context program disk middle)
    (value : ∀ value disk, middle (.ok value) disk → outcome (.ok value) disk)
    (caught : ∀ error disk, middle (.error error) disk →
      Acts others cutOff context (handler error) disk outcome) :
    Acts others cutOff context (tryCatch program handler) disk outcome := by
  intro self here
  rw [Async.ensures_tryCatch]
  refine (acts self here).mono ?_
  rintro (error | result) self' disk' ⟨moved, holds⟩
  · refine (caught error disk' holds self' ((others.context moved).trans here)).mono ?_
    rintro result self'' disk'' ⟨later, finally_⟩
    exact ⟨others.trans moved later, finally_⟩
  · exact ⟨moved, value result disk' holds⟩

/-- A synchronous step leaves the disk alone. -/
theorem acts_sync {f : PgExplorer → Except JsError α}
    (holds : ∀ self, self.context = context → outcome (f self) disk) :
    Acts others cutOff context (PgM.sync f) disk outcome :=
  fun self here => ⟨others.refl self, holds self here⟩

/-- Continue with the value of a step without await. -/
theorem acts_sync_bind {f : PgExplorer → Except JsError α} {next : α → PgM β} {value : α}
    {outcome : Except JsError β → Disk fs → Prop}
    (known : ∀ self, self.context = context → f self = .ok value)
    (rest : Acts others cutOff context (next value) disk outcome) :
    Acts others cutOff context (PgM.sync f >>= next) disk outcome := by
  refine Acts.bind (fun result disk' => result = .ok value ∧ disk' = disk) ?_ ?_ ?_
  · exact acts_sync fun self here => ⟨known self here, rfl⟩
  · rintro _ _ ⟨⟨⟩, rfl⟩
    exact rest
  · rintro _ _ ⟨⟨⟩, -⟩

/-- A single call acts as the disk answers it. -/
theorem acts_request {call : FsCall} {outcome : Except JsError call.Payload → Disk fs → Prop}
    (holds : outcome (disk.serve call).1 (disk.serve call).2) :
    Acts others cutOff context (PgFs.request call) disk outcome := by
  intro self here
  simp only [PgFs.request, Async.ensures_bind, Async.ensures_perform]
  intro self₁ disk₁ before self₂ disk₂ after
  have moved := others.trans before.1 after.1
  rw [after.2, before.2]
  have served : (others.setting fs cutOff).serve call disk = disk.serve call := rfl
  rw [either_ok, served]
  cases answer : (disk.serve call).1 with
  | ok value => exact ⟨moved, answer ▸ holds⟩
  | error error => exact ⟨moved, answer ▸ holds⟩

/-- Alone a program of `PgFs` leaves the state as it is. -/
theorem Acts.nobody {program : PgM α}
    (acts : ∀ context, Acts .nobody cutOff context program disk outcome) (self : PgExplorer) :
    program.Ensures (Interference.nobody.setting fs cutOff) self disk fun result self' disk' =>
      self' = self ∧ outcome result disk' := acts self.context self rfl

/-! ## Faults -/

/-- At most `count` calls to come fail from outside, and these leave the tree as
it is. -/
structure Disk.Tolerable (disk : Disk fs) (count : Nat) : Prop where
  few : (disk.faults.filter Option.isSome).length ≤ count
  harmless : ∀ interrupted, some interrupted ∈ disk.faults →
    ∀ db, fs.tree (interrupted db) = fs.tree db

/-- A sound disk is one that tolerates no fault. -/
theorem Disk.sound_iff : disk.Sound ↔ disk.Tolerable 0 := by
  constructor
  · intro sound
    constructor
    · rw [Nat.le_zero, List.length_eq_zero_iff, List.filter_eq_nil_iff]
      intro fault member
      simp [sound fault member]
    · intro interrupted member
      cases sound _ member
  · intro tolerable fault member
    have none_ := List.filter_eq_nil_iff.mp
      (List.length_eq_zero_iff.mp (Nat.le_zero.mp tolerable.few)) fault member
    simpa using none_

/-- A call is answered by the package, or one of the faults is used up. -/
theorem Disk.Tolerable.serve {count : Nat} (tolerable : disk.Tolerable count) (call : FsCall) :
    (disk.serve call).1 = (fs.call call disk.db).1 ∧
        (disk.serve call).2.tree = fs.tree (fs.call call disk.db).2 ∧
        (disk.serve call).2.Tolerable count ∨
      (∃ error, (disk.serve call).1 = .error error ∧ error.code = none) ∧
        (disk.serve call).2.tree = disk.tree ∧ ∃ fewer < count, (disk.serve call).2.Tolerable fewer := by
  obtain ⟨db, faults⟩ := disk
  obtain ⟨few, harmless⟩ := tolerable
  cases faults with
  | nil => exact .inl ⟨rfl, rfl, few, harmless⟩
  | cons fault rest =>
      have later := fun interrupted member =>
        harmless interrupted (List.mem_cons_of_mem fault member)
      cases fault with
      | none => exact .inl ⟨rfl, rfl, few, later⟩
      | some interrupted =>
          refine .inr ⟨⟨_, rfl, rfl⟩, harmless interrupted List.mem_cons_self db, ?_⟩
          exact ⟨count - 1, by simp at few; omega, by simp at few; simpa [Disk.serve] using by omega,
            later⟩

/-- The outcome of a program under at most `count` faults: it fails only by one
of them. -/
def Outcome (count : Nat) (done : α → Tree → Prop) (failed : Tree → Prop) :
    Except JsError α → Disk fs → Prop
  | .ok value, disk => disk.Tolerable count ∧ done value disk.tree
  | .error _, disk => (∃ fewer < count, disk.Tolerable fewer) ∧ failed disk.tree

/-- An outcome may be weakened in both of its cases. -/
theorem Outcome.mono {count : Nat} {done done' : α → Tree → Prop} {failed failed' : Tree → Prop}
    {result : Except JsError α} (outcome : Outcome count done failed result disk)
    (onDone : ∀ value tree, done value tree → done' value tree)
    (onFailed : ∀ tree, failed tree → failed' tree) : Outcome count done' failed' result disk := by
  cases result with
  | ok value => exact ⟨outcome.1, onDone value _ outcome.2⟩
  | error error => exact ⟨outcome.1, onFailed _ outcome.2⟩

variable {count : Nat} {path full data : Text} {names : List Text}

/-- In the context the path leads to the full path. -/
def LeadsTo (context : Context) (path full : Text) : Prop :=
  ∀ self : PgExplorer, self.context = context → self.convertToFullPath path = .ok full

/-- A call on a tolerable disk is answered, or is the one that fails. -/
theorem acts_call {call : FsCall} (done : call.Payload → Tree → Prop) (failed : Tree → Prop)
    (tolerable : disk.Tolerable count)
    (answer : ∃ value, (fs.call call disk.db).1 = .ok value ∧
      done value (fs.tree (fs.call call disk.db).2))
    (faulty : failed disk.tree) :
    Acts others cutOff context (PgFs.request call) disk (Outcome count done failed) := by
  refine acts_request ?_
  obtain ⟨same, tree, left⟩ | ⟨⟨error, same, -⟩, tree, left⟩ := tolerable.serve call
  · obtain ⟨value, answer, holds⟩ := answer
    rw [same, answer]
    exact ⟨left, tree ▸ holds⟩
  · rw [same]
    exact ⟨left, tree ▸ faulty⟩

/-- A path that starts with a slash leads to itself. -/
theorem leadsTo_full (full : path.startsWith slash = true) : LeadsTo context path path :=
  fun _ _ => if_pos full

/-- `exists` of a full path, when no more than the tolerated faults occur. -/
theorem exists_acts (tolerable : disk.Tolerable count) (full : path.startsWith slash = true) :
    Acts others cutOff context (PgFs.exists_ path) disk (Outcome count
      (fun found tree => found = (disk.tree.node (locate path)).isSome ∧ tree = disk.tree)
      fun tree => tree = disk.tree) := by
  refine acts_sync_bind (leadsTo_full full) ?_
  refine Acts.tryCatch
    (fun result disk' => match result with
      | .ok found => found = true ∧ (disk.tree.node (locate path)).isSome = true ∧
          disk'.tree = disk.tree ∧ disk'.Tolerable count
      | .error error => disk'.tree = disk.tree ∧
          (error.code = some .ENOENT ∧ disk.tree.node (locate path) = none ∧ disk'.Tolerable count ∨
            error.code = none ∧ ∃ fewer < count, disk'.Tolerable fewer)) ?_ ?_ ?_
  · refine Acts.bind (fun result disk' => match result with
      | .ok _ => (disk.tree.node (locate path)).isSome = true ∧ disk'.tree = disk.tree ∧
          disk'.Tolerable count
      | .error error => disk'.tree = disk.tree ∧
          (error.code = some .ENOENT ∧ disk.tree.node (locate path) = none ∧ disk'.Tolerable count ∨
            error.code = none ∧ ∃ fewer < count, disk'.Tolerable fewer)) ?_ ?_ ?_
    · refine acts_sync_bind (leadsTo_full full) (acts_request ?_)
      have unchanged : fs.tree (fs.call (.stat path) disk.db).2 = disk.tree := fs.stat_same _ _
      obtain ⟨same, tree, left⟩ | ⟨⟨error, same, code⟩, tree, left⟩ := tolerable.serve (.stat path)
      · rw [same]
        cases found : disk.tree.node (locate path) with
        | some node =>
            rw [fs.stat_found found]
            exact ⟨rfl, tree.trans unchanged, left⟩
        | none =>
            obtain ⟨message, answer⟩ := fs.stat_missing found
            rw [answer]
            exact ⟨tree.trans unchanged, .inl ⟨rfl, rfl, left⟩⟩
      · rw [same]
        exact ⟨tree, .inr ⟨code, left⟩⟩
    · rintro _ disk' ⟨found, tree, left⟩
      exact acts_pure ⟨rfl, found, tree, left⟩
    · rintro error disk' outcome
      exact outcome
  · rintro found disk' ⟨rfl, isSome, tree, left⟩
    exact ⟨left, isSome.symm, tree⟩
  · rintro error disk' ⟨tree, ⟨code, missing, left⟩ | ⟨code, left⟩⟩
    · rw [if_pos (.inl code)]
      refine acts_pure ⟨left, ?_, tree⟩
      rw [missing]
      rfl
    · rw [if_neg (by simp [code])]
      exact acts_throw ⟨left, tree⟩

/-! ## Writing -/

/-- The directories above a path that are made before it is written. -/
def Grown (path : List Text) (old new : Tree) : Prop :=
  ∃ part, part <+: path ∧ new.node = DirectoryTree.grow old.node part

/-- Growing towards a place and then further towards a longer one is growing towards the longer
one. -/
theorem Grown.trans {old middle new : Tree} {short long : List Text}
    (first : middle.node = DirectoryTree.grow old.node short) (above : short <+: long)
    (second : Grown long middle new) : ∃ part, part <+: long ∧
      (new.node = DirectoryTree.grow old.node part ∨ new.node = middle.node) := by
  obtain ⟨part, within, grown⟩ := second
  rcases List.prefix_or_prefix_of_prefix above within with longer | shorter
  · exact ⟨part, within, .inl (by rw [grown, first, DirectoryTree.grow_grow longer])⟩
  · exact ⟨part, within, .inr (by rw [grown, first, DirectoryTree.grow_of_prefix shorter])⟩

/-- A path followed by a slash and a name is the path of one more name. -/
theorem text_slash_concat (names : List Text) (name : Text) :
    UnixPath.text names ++ slash ++ name = UnixPath.text (names ++ [name]) := by
  rw [UnixPath.text_concat, slash, List.append_assoc]
  rfl

/-- No file is in the way to a path. -/
def Passable (tree : Tree) (path : List Text) : Prop :=
  ∀ place, place <+: path → tree.content place = none

instance (tree : Tree) (path : List Text) : Decidable (Passable tree path) :=
  decidable_of_iff (∀ place ∈ path.inits, tree.content place = none) (by simp [Passable])

/-- On a passable way there are only directories and free places. -/
theorem Passable.directory_or_none {tree : Tree} (passable : Passable tree names) {place : List Text}
    (above : place <+: names) : tree.node place = some .directory ∨ tree.node place = none := by
  cases found : tree.node place with
  | none => exact .inr rfl
  | some node =>
      cases node with
      | directory => exact .inl rfl
      | file content =>
          have content := passable place above
          simp [DirectoryTree.content, found] at content

/-- Growing directories changes no file's content. -/
theorem content_of_node {old new : Tree} {part : List Text}
    (grown : new.node = DirectoryTree.grow old.node part) (place : List Text) :
    new.content place = old.content place := by
  refine Option.ext fun content => ?_
  rw [DirectoryTree.content_eq_some, grown, DirectoryTree.grow_eq_file,
    ← DirectoryTree.content_eq_some]

/-- The loop of `createDir` creates the missing folders one below the other. -/
theorem createFolders_acts {rest : List Text} (tolerable : disk.Tolerable count)
    (rough : UnixPath.Rough (names ++ rest))
    (here : disk.tree.node (UnixPath.plain names) = some .directory)
    (passable : Passable disk.tree (UnixPath.plain (names ++ rest))) :
    Acts others cutOff context (PgFs.createFolders (UnixPath.text names) rest) disk (Outcome count
      (fun _ tree => tree.node = DirectoryTree.grow disk.tree.node (UnixPath.plain (names ++ rest)))
      (Grown (UnixPath.plain (names ++ rest)) disk.tree)) := by
  induction rest generalizing names disk with
  | nil =>
      refine acts_pure ⟨tolerable, ?_⟩
      rw [List.append_nil, DirectoryTree.grow_of_directory here]
  | cons folder rest ih =>
      have whole : names ++ folder :: rest = names ++ [folder] ++ rest := by simp
      have above : UnixPath.plain names <+: UnixPath.plain (names ++ folder :: rest) := by
        rw [UnixPath.plain_append]
        exact List.prefix_append _ _
      have next : UnixPath.plain (names ++ [folder]) <+: UnixPath.plain (names ++ folder :: rest) := by
        rw [whole, UnixPath.plain_append (names ++ [folder])]
        exact List.prefix_append _ _
      have inside : names ++ [folder] ≠ [] := by simp
      have place : locate (UnixPath.text (names ++ [folder])) = UnixPath.plain (names ++ [folder]) :=
        UnixPath.location_text_rough (UnixPath.rough_append.mp (whole ▸ rough)).1 [] inside
      rw [PgFs.createFolders, text_slash_concat]
      refine Acts.bind _ (exists_acts tolerable (text_startsWith_slash inside)) ?_ ?_
      · rintro found disk' ⟨left, rfl, tree⟩
        rw [place]
        obtain directory | missing := passable.directory_or_none next
        · -- The folder is there, as it is when its name is a dot.
          simp only [directory, Option.isSome_some, Bool.not_true, Bool.false_eq_true, if_false]
          have later := ih left (whole ▸ rough) (tree ▸ directory) (whole ▸ tree ▸ passable)
          rw [tree] at later
          exact whole ▸ later
        · simp only [missing, Option.isSome_none, Bool.not_false, if_true]
          have notDot : folder ≠ ['.'] := by
            rintro rfl
            have same : UnixPath.plain (names ++ [['.']]) = UnixPath.plain names := by
              simp [UnixPath.plain]
            rw [same, here] at missing
            cases missing
          have shape : UnixPath.plain (names ++ [folder]) = UnixPath.plain names ++ [folder] := by
            simp [UnixPath.plain, notDot]
          rw [← tree] at here missing
          have made := @LightningFs.mkdir_new fs disk'.db (UnixPath.text (names ++ [folder]))
            (by rw [place, shape, List.dropLast_concat]; exact here) (by rw [place]; exact missing)
          rw [place] at made
          have grown : (fs.tree (fs.call (.mkdir (UnixPath.text (names ++ [folder]))) disk'.db).2).node
              = DirectoryTree.grow disk.tree.node (UnixPath.plain (names ++ [folder])) := by
            rw [← tree, shape, DirectoryTree.grow_concat here (shape ▸ missing), ← shape]
            exact made.2
          refine Acts.bind _ (acts_call
            (fun _ tree => tree.node =
              DirectoryTree.grow disk.tree.node (UnixPath.plain (names ++ [folder])))
            (· = disk'.tree) left ⟨(), made.1, grown⟩ rfl) ?_ ?_
          · rintro _ disk'' ⟨left, grown⟩
            have directory : disk''.tree.node (UnixPath.plain (names ++ [folder])) =
                some .directory := by
              rw [grown, DirectoryTree.grow_eq_directory]
              exact .inr ⟨tree ▸ missing, List.prefix_rfl⟩
            have still : Passable disk''.tree (UnixPath.plain (names ++ [folder] ++ rest)) := by
              intro place' above
              rw [content_of_node grown]
              exact passable place' (whole ▸ above)
            refine (ih left (whole ▸ rough) directory still).mono ?_
            intro result last outcome
            have within : UnixPath.plain (names ++ [folder]) <+:
                UnixPath.plain (names ++ [folder] ++ rest) := whole ▸ next
            refine outcome.mono ?_ ?_
            · rintro _ tree final
              rw [final, grown, DirectoryTree.grow_grow within, whole]
            · intro tree final
              obtain ⟨part, inPart, final⟩ := Grown.trans grown within final
              obtain final | final := final
              · exact ⟨part, whole ▸ inPart, final⟩
              · exact ⟨_, next, final.trans grown⟩
          · rintro error disk'' ⟨left, same⟩
            refine ⟨left, _, above, ?_⟩
            rw [same, DirectoryTree.grow_of_directory (tree ▸ here), tree]
      · rintro error disk' ⟨left, tree⟩
        refine ⟨left, _, above, ?_⟩
        rw [tree, DirectoryTree.grow_of_directory here]

/-- The path of an item whose parent path is its parent folder. -/
def ItemPath (parent : List Text) (name path : Text) : Prop :=
  path = UnixPath.text (parent ++ [name]) ∨
    path = UnixPath.text (parent ++ [name]) ++ slash ∧ getItemTypeFromName name = .folder

variable {parent : List Text} {name : Text}

/-- An item's path leads to the item. -/
theorem ItemPath.pathTo (itemPath : ItemPath parent name path) : PathTo (parent ++ [name]) path :=
  itemPath.imp_right And.left

/-- An item's path is located at the item. -/
theorem ItemPath.locate (itemPath : ItemPath parent name path)
    (areNames : UnixPath.AreNames (parent ++ [name])) : locate path = parent ++ [name] :=
  locate_of_pathTo areNames (by simp) itemPath.pathTo

/-- An item's path is absolute. -/
theorem ItemPath.startsWith_slash (itemPath : ItemPath parent name path) : path.startsWith slash = true :=
  itemPath.pathTo.startsWith_slash (by simp)

/-- `createDir` with parents grows the tree towards the directory. -/
theorem createParents_acts (tolerable : disk.Tolerable count) (rough : UnixPath.Rough names)
    (passable : Passable disk.tree (UnixPath.plain names)) :
    Acts others cutOff context (PgFs.createDir (UnixPath.text names ++ slash) true) disk
      (Outcome count
        (fun _ tree => tree.node = DirectoryTree.grow disk.tree.node (UnixPath.plain names))
        (Grown (UnixPath.plain names) disk.tree)) := by
  have full : (UnixPath.text names ++ slash).startsWith slash = true := by cases names <;> rfl
  have split : (((UnixPath.text names ++ slash).splitOn '/').drop 1).dropLast = names := by
    have pieces : (UnixPath.text names ++ slash).splitOn '/' = [] :: (names ++ [[]]) :=
      UnixPath.splitOn_text_slash rough.slashless
    simp [pieces]
  refine acts_sync_bind (leadsTo_full full) ?_
  have acts : Acts others cutOff context (PgFs.createFolders (UnixPath.text []) names) disk
      (Outcome count
        (fun _ tree => tree.node = DirectoryTree.grow disk.tree.node (UnixPath.plain ([] ++ names)))
        (Grown (UnixPath.plain ([] ++ names)) disk.tree)) :=
    createFolders_acts tolerable rough disk.tree.root passable
  simp only [split]
  exact acts

/-- `writeFile` with `createParents`, by the names of the parent path. -/
theorem writeRough_acts (tolerable : disk.Tolerable count) (rough : UnixPath.Rough names)
    (leads : LeadsTo context path full)
    (parentPath : getParentPathFromPath full = UnixPath.text names ++ slash)
    (place : locate full = UnixPath.plain names ++ [name])
    (passable : Passable disk.tree (UnixPath.plain names))
    (free : disk.tree.node (UnixPath.plain names ++ [name]) ≠ some .directory) :
    Acts others cutOff context (PgFs.writeFile path data true) disk (Outcome count
      (fun _ tree => tree.node =
        Function.update (DirectoryTree.grow disk.tree.node (UnixPath.plain names))
          (UnixPath.plain names ++ [name]) (some (.file data)))
      (Grown (UnixPath.plain names) disk.tree)) := by
  refine acts_sync_bind leads ?_
  simp only [parentPath]
  refine Acts.bind _ (createParents_acts tolerable rough passable) ?_ ?_
  · rintro _ disk' ⟨left, grown⟩
    have directory : disk'.tree.node (UnixPath.plain names) = some .directory := by
      rw [grown, DirectoryTree.grow_eq_directory]
      exact (passable.directory_or_none List.prefix_rfl).imp_right fun missing =>
        ⟨missing, List.prefix_rfl⟩
    have still : disk'.tree.node (UnixPath.plain names ++ [name]) ≠ some .directory := by
      rw [grown, Ne, DirectoryTree.grow_eq_directory, not_or]
      refine ⟨free, fun both => ?_⟩
      exact absurd both.2.length_le (by simp)
    have written := @LightningFs.writeFile_put fs disk'.db full data
      (by rw [place, List.dropLast_concat]; exact directory) (by simp [place])
      (by rw [place]; exact still)
    rw [place] at written
    refine acts_call _ _ left ⟨(), written.1, ?_⟩ ⟨_, List.prefix_rfl, grown⟩
    rw [written.2]
    exact congrArg (Function.update · _ _) grown
  · rintro error disk' outcome
    exact outcome

/-- `writeFile` with `createParents`. -/
theorem writeFile_acts (tolerable : disk.Tolerable count)
    (areNames : UnixPath.AreNames (parent ++ [name])) (leads : LeadsTo context path full)
    (itemPath : ItemPath parent name full)
    (passable : Passable disk.tree parent)
    (free : disk.tree.node (parent ++ [name]) ≠ some .directory) :
    Acts others cutOff context (PgFs.writeFile path data true) disk (Outcome count
      (fun _ tree => tree.node = Function.update (DirectoryTree.grow disk.tree.node parent)
        (parent ++ [name]) (some (.file data)))
      (Grown parent disk.tree)) := by
  have plain := UnixPath.plain_eq_self areNames.parent
  have acts := @writeRough_acts fs others cutOff context disk count path full data parent name
    tolerable areNames.parent.rough leads (getParentPathFromPath_of_pathTo areNames itemPath)
    (by rw [plain]; exact itemPath.locate areNames) (by rwa [plain]) (by rwa [plain])
  rwa [plain] at acts

/-- `getMetadata` of an existing place tells what is there and changes nothing. -/
theorem getMetadata_acts (tolerable : disk.Tolerable count) (full : path.startsWith slash = true)
    {node : Node Text} (found : disk.tree.node (locate path) = some node) :
    Acts others cutOff context (PgFs.getMetadata path) disk (Outcome count
      (fun metadata tree => metadata = Metadata.ofNode node ∧ tree = disk.tree)
      fun tree => tree = disk.tree) := by
  refine acts_sync_bind (leadsTo_full full) ?_
  exact acts_call _ _ tolerable ⟨_, fs.stat_found found, rfl, fs.stat_same _ _⟩ rfl

/-- `readToString` of a file returns its content and changes nothing. -/
theorem readToString_acts (tolerable : disk.Tolerable count) (leads : LeadsTo context path full)
    {content : Text} (found : disk.tree.node (locate full) = some (.file content)) :
    Acts others cutOff context (PgFs.readToString path) disk (Outcome count
      (fun text tree => text = content ∧ tree = disk.tree) fun tree => tree = disk.tree) := by
  refine acts_sync_bind leads ?_
  exact acts_call _ _ tolerable ⟨_, fs.readFile_found found, rfl, fs.readFile_same _ _⟩ rfl

/-- `readDir` lists the children of a directory once each and changes nothing. -/
theorem readDir_acts (tolerable : disk.Tolerable count) (full : path.startsWith slash = true)
    (found : disk.tree.node (locate path) = some .directory) :
    Acts others cutOff context (PgFs.readDir path) disk (Outcome count
      (fun names tree => tree = disk.tree ∧ names.Nodup ∧
        ∀ name, name ∈ names ↔ (disk.tree.node (locate path ++ [name])).isSome = true)
      fun tree => tree = disk.tree) := by
  refine acts_sync_bind (leadsTo_full full) ?_
  obtain ⟨names, answer, distinct, members⟩ := fs.readdir_found found
  exact acts_call _ _ tolerable ⟨names, answer, fs.readdir_same _ _, distinct, members⟩ rfl

/-! ## Frames

On any store, documented or not, writing below a path leaves alone what is not
below it.
-/

/-- A disk that tolerates few faults tolerates more. -/
theorem Disk.Tolerable.mono {fewer : Nat} (tolerable : disk.Tolerable fewer) (less : fewer ≤ count) :
    disk.Tolerable count := ⟨tolerable.few.trans less, tolerable.harmless⟩

/-- The trees differ at `top` and below it only. -/
def SameOutside (top : List Text) (old new : Tree) : Prop :=
  ∀ place, ¬ top <+: place → new.node place = old.node place

/-- Two changes inside a place are a change inside it. -/
theorem SameOutside.trans {top : List Text} {first second third : Tree}
    (before : SameOutside top first second) (after : SameOutside top second third) :
    SameOutside top first third :=
  fun place outside => (after place outside).trans (before place outside)

/-- What is left of the faults and of the tree after any end of a program. -/
def Framed (count : Nat) (top : List Text) (tree : Tree) (disk : Disk fs) : Prop :=
  disk.Tolerable count ∧ SameOutside top tree disk.tree

/-- A call on places below the top changes nothing outside it. -/
theorem acts_framed {call : FsCall} {top : List Text} (tolerable : disk.Tolerable count)
    (below : ∀ place ∈ call.places, top <+: place) :
    Acts others cutOff context (PgFs.request call) disk fun _ => Framed count top disk.tree := by
  refine acts_request ?_
  obtain ⟨-, tree, left⟩ | ⟨-, tree, fewer, less, left⟩ := tolerable.serve call
  · refine ⟨left, fun place outside => ?_⟩
    rw [tree]
    exact fs.frame fun target member within => outside ((below target member).trans within)
  · exact ⟨left.mono less.le, fun place _ => by rw [tree]⟩

/-- Creating folders changes nothing outside the top when all above it exists. -/
theorem createFolders_framed {rest top : List Text} (tolerable : disk.Tolerable count)
    (areNames : UnixPath.AreNames (names ++ rest))
    (existing : ∀ place, place <+: names ++ rest → ¬ top <+: place →
      (disk.tree.node place).isSome = true) :
    Acts others cutOff context (PgFs.createFolders (UnixPath.text names) rest) disk
      fun _ => Framed count top disk.tree := by
  induction rest generalizing names disk with
  | nil => exact acts_pure ⟨tolerable, fun _ _ => rfl⟩
  | cons folder rest ih =>
      have whole : names ++ folder :: rest = names ++ [folder] ++ rest := by simp
      have next : names ++ [folder] <+: names ++ folder :: rest := whole ▸ List.prefix_append _ _
      have areNext : UnixPath.AreNames (names ++ [folder]) :=
        (UnixPath.areNames_append.mp (whole ▸ areNames)).1
      have inside : names ++ [folder] ≠ [] := by simp
      have place : locate (UnixPath.text (names ++ [folder])) = names ++ [folder] :=
        UnixPath.location_text areNext [] inside
      have later : ∀ {disk' : Disk fs}, Framed count top disk.tree disk' →
          Acts others cutOff context (PgFs.createFolders (UnixPath.text (names ++ [folder])) rest)
            disk' fun _ => Framed count top disk.tree := by
        rintro disk' ⟨left, same⟩
        refine (ih left (whole ▸ areNames) ?_).mono ?_
        · intro other above outside
          rw [same other outside]
          exact existing other (whole ▸ above) outside
        · rintro _ disk'' ⟨left, more⟩
          exact ⟨left, same.trans more⟩
      rw [PgFs.createFolders, text_slash_concat]
      refine Acts.bind _ (exists_acts tolerable (text_startsWith_slash inside)) ?_ ?_
      · rintro found disk' ⟨left, rfl, tree⟩
        have framed : Framed count top disk.tree disk' := ⟨left, fun place _ => by rw [tree]⟩
        rw [place]
        by_cases missing : (disk.tree.node (names ++ [folder])).isSome = true
        · simp only [missing, Bool.not_true, Bool.false_eq_true, if_false]
          exact later framed
        · -- Only what is at `top` or below it can be missing.
          have below : top <+: names ++ [folder] := by
            by_contra outside
            exact missing (existing _ next outside)
          simp only [missing, Bool.not_false, if_true]
          refine Acts.bind (fun _ => Framed count top disk'.tree) (acts_framed left ?_) ?_ ?_
          · intro target member
            rw [List.mem_singleton.mp member, place]
            exact below
          · rintro _ disk'' ⟨left, same⟩
            exact later ⟨left, tree ▸ same⟩
          · rintro _ disk'' ⟨left, same⟩
            exact ⟨left, tree ▸ same⟩
      · rintro error disk' ⟨⟨fewer, less, left⟩, tree⟩
        exact ⟨left.mono less.le, fun place _ => by rw [tree]⟩

/-- Writing a file below the top changes nothing outside it. -/
theorem writeFile_framed {top : List Text} (tolerable : disk.Tolerable count)
    (areNames : UnixPath.AreNames (parent ++ [name])) (leads : LeadsTo context path full)
    (itemPath : ItemPath parent name full)
    (above : top <+: parent ++ [name])
    (existing : ∀ place, place <+: parent → ¬ top <+: place →
      (disk.tree.node place).isSome = true) :
    Acts others cutOff context (PgFs.writeFile path data true) disk fun result disk' =>
      Framed count top disk.tree disk' ∧
        (result = .ok () → disk'.tree.node (parent ++ [name]) = some (.file data)) := by
  have place := itemPath.locate areNames
  refine acts_sync_bind leads ?_
  simp only [getParentPathFromPath_of_pathTo areNames itemPath]
  refine Acts.bind (fun _ => Framed count top disk.tree) ?_ ?_ ?_
  · have full : (UnixPath.text parent ++ slash).startsWith slash = true := by cases parent <;> rfl
    have split : (((UnixPath.text parent ++ slash).splitOn '/').drop 1).dropLast = parent := by
      have pieces : (UnixPath.text parent ++ slash).splitOn '/' = [] :: (parent ++ [[]]) :=
        UnixPath.splitOn_text_slash areNames.parent.slashless
      simp [pieces]
    have acts : Acts others cutOff context (PgFs.createFolders (UnixPath.text []) parent) disk
        fun _ => Framed count top disk.tree :=
      createFolders_framed tolerable areNames.parent existing
    refine acts_sync_bind (leadsTo_full full) ?_
    simp only [split]
    exact acts
  · rintro _ disk' ⟨left, same⟩
    refine acts_request ?_
    obtain ⟨answer, tree, left⟩ | ⟨⟨error, answer, -⟩, tree, fewer, less, left⟩ :=
      left.serve (.writeFile full data)
    · refine ⟨⟨left, same.trans fun other outside => ?_⟩, fun done => ?_⟩
      · rw [tree]
        refine fs.frame fun target member within => outside ?_
        rw [List.mem_singleton.mp member, place] at within
        exact above.trans within
      · rw [answer] at done
        rw [tree, ← place]
        exact fs.writeFile_done done
    · refine ⟨⟨left.mono less.le, same.trans fun _ _ => by rw [tree]⟩, fun done => ?_⟩
      rw [answer] at done
      cases done
  · rintro error disk' framed
    exact ⟨framed, nofun⟩

/-! ## Programs that leave the state alone

Whatever the store does.
-/

/-- The program ends normally or with an error, whatever the disk answers. -/
def Quiet (program : PgM α) : Prop :=
  ∀ (fs : LightningFs) (context : Context) (disk : Disk fs),
    Acts .nobody True context program disk fun _ _ => True

/-- A returned value is quiet. -/
theorem quiet_pure (value : α) : Quiet (pure value) := fun _ _ _ => acts_pure trivial

/-- A program that never ends asks for nothing. -/
theorem quiet_endless : Quiet (Async.endless : PgM α) := fun _ _ _ _ _ => trivial

/-- A single call is quiet. -/
theorem quiet_request (call : FsCall) : Quiet (PgFs.request call) :=
  fun _ _ _ => acts_request trivial

/-- A synchronous step is quiet. -/
theorem quiet_sync (f : PgExplorer → Except JsError α) : Quiet (PgM.sync f) :=
  fun _ _ _ => acts_sync fun _ _ => trivial

/-- Quiet programs follow one another. -/
theorem Quiet.bind {first : PgM α} {next : α → PgM β} (quiet : Quiet first)
    (rest : ∀ value, Quiet (next value)) : Quiet (first >>= next) :=
  fun fs context disk => Acts.bind _ (quiet fs context disk)
    (fun value disk _ => rest value fs context disk) fun _ _ _ => trivial

/-- A loop of quiet bodies is quiet. -/
theorem Quiet.forM {body : α → PgM Unit} (quiet : ∀ item, Quiet (body item)) (items : List α) :
    Quiet (items.forM body) := by
  induction items with
  | nil => exact quiet_pure _
  | cons item rest ih => exact (quiet item).bind fun _ => ih

/-- Both branches of a condition are quiet. -/
theorem Quiet.ite {condition : Prop} [Decidable condition] {first second : PgM α}
    (quiet : Quiet first) (other : Quiet second) :
    Quiet (if condition then first else second) := by
  by_cases holds : condition
  · rwa [if_pos holds]
  · rwa [if_neg holds]

/-- `getMetadata` is quiet. -/
theorem quiet_getMetadata (path : Text) : Quiet (PgFs.getMetadata path) :=
  (quiet_sync _).bind fun _ => quiet_request _

/-- `exists` is quiet. -/
theorem quiet_exists (path : Text) : Quiet (PgFs.exists_ path) := by
  refine (quiet_sync _).bind fun path => fun fs context disk => ?_
  refine Acts.tryCatch (fun _ _ => True) ?_ (fun _ _ _ => trivial) ?_
  · exact ((quiet_getMetadata path).bind fun _ => quiet_pure _) fs context disk
  · intro error disk' _
    split
    · exact acts_pure trivial
    · exact acts_throw trivial

/-- The loop of `createDir` is quiet. -/
theorem quiet_createFolders (currentPath : Text) (folders : List Text) :
    Quiet (PgFs.createFolders currentPath folders) := by
  induction folders generalizing currentPath with
  | nil => exact quiet_pure _
  | cons folder rest ih =>
      refine (quiet_exists _).bind fun found => ?_
      cases found
      · exact (quiet_request _).bind fun _ => ih _
      · exact ih _

/-- `createDir` is quiet. -/
theorem quiet_createDir (path : Text) (createParents : Bool) :
    Quiet (PgFs.createDir path createParents) := by
  refine (quiet_sync _).bind fun path => ?_
  cases createParents
  · exact quiet_request _
  · exact quiet_createFolders _ _

/-- `writeFile` is quiet. -/
theorem quiet_writeFile (path data : Text) (createParents : Bool) :
    Quiet (PgFs.writeFile path data createParents) := by
  refine (quiet_sync _).bind fun path => ?_
  cases createParents
  · exact quiet_request _
  · exact (quiet_createDir _ _).bind fun _ => quiet_request _

/-- `rename` is quiet. -/
theorem quiet_rename (oldPath newPath : Text) : Quiet (PgFs.rename oldPath newPath) :=
  (quiet_sync _).bind fun _ => (quiet_sync _).bind fun _ => quiet_request _

/-- `removeFile` is quiet. -/
theorem quiet_removeFile (path : Text) : Quiet (PgFs.removeFile path) :=
  (quiet_sync _).bind fun _ => quiet_request _

/-- `readToString` is quiet. -/
theorem quiet_readToString (path : Text) : Quiet (PgFs.readToString path) :=
  (quiet_sync _).bind fun _ => quiet_request _

/-- `readDir` is quiet. -/
theorem quiet_readDir (path : Text) : Quiet (PgFs.readDir path) :=
  (quiet_sync _).bind fun _ => quiet_request _

/-- The recursion of `removeDir` is quiet. -/
theorem quiet_recursivelyRmdir (fuel : Nat) (dir : List Text) (currentPath : Text) :
    Quiet (PgFs.recursivelyRmdir fuel dir currentPath) := by
  induction fuel generalizing dir currentPath with
  | zero => exact quiet_endless
  | succ fuel ih =>
      refine (quiet_request _).ite ((Quiet.forM (fun childName => ?_) dir).bind fun _ => ?_)
      · refine (quiet_getMetadata _).bind fun metadata => ?_
        cases metadata with
        | file => exact quiet_removeFile _
        | directory => exact (quiet_readDir _).bind fun childDir => (ih _ _).ite (quiet_request _)
      · exact (quiet_readDir _).bind fun dir => (quiet_request _).ite (quiet_pure _)

/-- `removeDir` is quiet. -/
theorem quiet_removeDir (fuel : Nat) (path : Text) : Quiet (PgFs.removeDir fuel path) :=
  (quiet_sync _).bind fun _ => (quiet_readDir _).bind fun _ => quiet_recursivelyRmdir _ _ _

end Solpg.Client.Utils
