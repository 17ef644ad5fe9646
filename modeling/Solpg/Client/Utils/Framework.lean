import Solpg.Client.Frameworks.Projects
import Solpg.Client.Utils.Explorer.Session
import Solpg.Client.Utils.Explorer.TabRuns
import Solpg.Client.Utils.Explorer.Workspaces

/-!
# Export of a workspace

`PgFramework.exportWorkspace` walks the directory of the workspace and makes an
archive of what it reads. The walk is a recursion over directories with a loop
over the entries of each; `Lists` says which files such a walk has to find. The
archive is what `JSZip` is told to put into it, and the name of the archive is
read from the context, which nobody changes meanwhile.
-/

namespace Solpg.Client.Frameworks

open Solpg.Std

/-- A file whose path ends like this has one of these texts in it. -/
def hasIn (ending marker : Text) (files : TupleFiles) : Bool :=
  files.any fun file => Text.endsWith file.1 ending && Text.includes file.2 marker

/-- `getIsCurrent` of Anchor: a project of Seahorse is not one of Anchor. -/
def Anchor.getIsCurrent (files : TupleFiles) : Bool :=
  !(files.any fun file => Text.endsWith file.1 ".py".toList) &&
    hasIn "lib.rs".toList "#[program]".toList files

/-- `getIsCurrent` of the native framework. -/
def Native.getIsCurrent : TupleFiles → Bool := hasIn ".rs".toList "entrypoint!".toList

/-- `getIsCurrent` of Seahorse. -/
def Seahorse.getIsCurrent : TupleFiles → Bool := hasIn ".py".toList "seahorse.prelude".toList

/-- No project is taken both for one of Seahorse and for one of Anchor, whichever
is asked first. -/
theorem not_anchor_of_seahorse {files : TupleFiles} (seahorse : Seahorse.getIsCurrent files = true) :
    Anchor.getIsCurrent files = false := by
  obtain ⟨file, member, python⟩ := List.any_eq_true.mp seahorse
  have hasPython : (files.any fun file => Text.endsWith file.1 ".py".toList) = true :=
    List.any_eq_true.mpr ⟨file, member, (Bool.and_eq_true_iff.mp python).1⟩
  rw [Anchor.getIsCurrent, hasPython]
  rfl

end Solpg.Client.Frameworks

namespace Solpg.Client.Utils

open Solpg.Std PgCommon PgExplorer

/-! ## Frameworks -/

/-- What the export uses of a framework. -/
structure Framework where
  name : Text
  getIsCurrent : TupleFiles → Bool
  convertFromPlayground : TupleFiles → Except JsError TupleFiles
  readme : Text

namespace PgFramework

/-- The first framework that knows the files as its own. -/
def getFromFiles (all : List Framework) (files : TupleFiles) : Option Framework :=
  all.find? (·.getIsCurrent files)

/-! ## The archive -/

/-- A call on the archive. -/
inductive ZipEntry where
  | file (path content : Text)
  | folder (path : Text)
  deriving DecidableEq, Repr

/-- A file or a folder of the archive. -/
def zipEntry : Text × Text → ZipEntry
  | (path, content) =>
      match getItemTypeFromName path with
      | .file => .file path content
      | .folder => .folder path

/-- What an export saves. -/
structure Exported where
  archive : Text
  entries : List ZipEntry
  readme : Option Text
  deriving DecidableEq, Repr

/-- Convert from playground layout to framework layout. -/
def layout (all : List Framework) (convert : Bool) (files : TupleFiles) :
    Except JsError (TupleFiles × Option Text) :=
  if convert then
    match getFromFiles all files with
    | none => .error (.ofMessage "Could not identify framework")
    | some framework =>
        (framework.convertFromPlayground files).map fun files => (files, some framework.readme)
  else .ok (files, none)

/-- A turn of the loop of `recursivelyGetItems`. -/
def getItem (recurse : Text → TupleFiles → PgM TupleFiles) (files : TupleFiles)
    (subItemPath : Text) : PgM TupleFiles := do
  match ← PgFs.getMetadata subItemPath with
  | .file => do
      let relativePath ← PgM.sync (·.getRelativePath subItemPath)
      let content ← PgFs.readToString subItemPath
      pure (files ++ [(relativePath, content)])
  | .directory => recurse subItemPath files

/-- Names with a dot in front are not exported. -/
def isHidden (itemName : Text) : Bool := itemName.startsWith ['.']

/-- `recursivelyGetItems`, to a depth of `fuel` directories. -/
def recursivelyGetItems : Nat → Text → TupleFiles → PgM TupleFiles
  | 0, _, _ => Async.endless
  | fuel + 1, path, files => do
      let itemNames ← PgFs.readDir path
      let subItemPaths := (itemNames.filter (!isHidden ·)).map (appendSlash path ++ ·)
      subItemPaths.foldlM (getItem (recursivelyGetItems fuel)) files

/-- The name of the archive and what is put into it. -/
def exported (self : PgExplorer) (files : TupleFiles) (readme : Option Text) : Exported :=
  ⟨self.currentWorkspaceName.getD "undefined".toList ++ ".zip".toList, files.map zipEntry, readme⟩

/-- `exportWorkspace`. -/
def exportWorkspace (all : List Framework) (fuel : Nat) (convert : Bool) : PgM Exported := do
  let workspacePath ← PgM.sync PgExplorer.getRequiredCurrentWorkspacePath
  let files ← recursivelyGetItems fuel workspacePath []
  let laid ← PgM.sync fun _ => layout all convert files
  let self ← get
  pure (exported self laid.1 laid.2)

/-! ## What a walk finds -/

/-- No name is hidden. -/
def Unhidden (names : List Text) : Prop := ∀ name ∈ names, isHidden name = false

instance (names : List Text) : Decidable (Unhidden names) :=
  inferInstanceAs (Decidable (∀ name ∈ names, _))

/-- The path of what has these names below the workspace. -/
def relativePath (names : List Text) : Text := (UnixPath.text names).drop 1

/-- The files are those below some names of the workspace at a place that are not
hidden, each of them once. -/
structure Lists (tree : Tree) (place names : List Text) (files : TupleFiles) : Prop where
  distinct : (files.map Prod.fst).Nodup
  mem : ∀ path content, (path, content) ∈ files ↔ ∃ rest, Unhidden rest ∧
    path = relativePath (names ++ rest) ∧
    tree.node (place ++ names ++ rest) = some (.file content)

/-- The same for the entries of a directory that have had their turn. -/
structure ListsEntries (tree : Tree) (place names passed : List Text) (files : TupleFiles) :
    Prop where
  distinct : (files.map Prod.fst).Nodup
  mem : ∀ path content, (path, content) ∈ files ↔ ∃ name ∈ passed, ∃ rest,
    Unhidden (name :: rest) ∧ path = relativePath (names ++ name :: rest) ∧
    tree.node (place ++ names ++ name :: rest) = some (.file content)

variable {tree : Tree} {place names passed rest : List Text} {name path content : Text}
  {files more : TupleFiles}

/-- The path below the workspace is written behind the one of the workspace. -/
theorem text_relativePath (inside : rest ≠ []) : UnixPath.text (place ++ rest) =
    UnixPath.text place ++ slash ++ relativePath rest := by
  obtain ⟨first, rest, rfl⟩ := List.exists_cons_of_ne_nil inside
  rw [UnixPath.text_append, relativePath, UnixPath.text_cons, List.append_assoc]
  rfl

/-- Different items have different relative paths. -/
theorem relativePath_injective {other : List Text} (slashless : UnixPath.Slashless rest)
    (slashlessOther : UnixPath.Slashless other) (inside : rest ≠ []) (insideOther : other ≠ [])
    (same : relativePath rest = relativePath other) : rest = other := by
  refine UnixPath.text_injective slashless slashlessOther ?_
  have first := @text_relativePath [] rest inside
  have second := @text_relativePath [] other insideOther
  rw [List.nil_append] at first second
  rw [first, second, same]

/-- One name more is one further below. -/
theorem below_concat : place ++ (names ++ [name]) ++ rest = place ++ names ++ name :: rest := by
  rw [← List.append_assoc, List.append_assoc, List.singleton_append]

/-- A walk into a file finds the file. -/
theorem lists_file (found : tree.node (place ++ names) = some (.file content)) :
    Lists tree place names [(relativePath names, content)] where
  distinct := List.nodup_singleton _
  mem path other := by
    rw [List.mem_singleton, Prod.mk.injEq]
    constructor
    · rintro ⟨rfl, rfl⟩
      exact ⟨[], fun _ none_ => absurd none_ List.not_mem_nil, by rw [List.append_nil],
        by rw [List.append_nil, found]⟩
    · rintro ⟨rest, -, rfl, here⟩
      have last : rest = [] := by
        by_contra proper
        rw [tree.node_below_eq_none (by simp [found]) proper] at here
        cases here
      subst last
      rw [List.append_nil, found] at here
      cases here
      exact ⟨by rw [List.append_nil], rfl⟩

/-- At first nothing is listed. -/
theorem ListsEntries.start : ListsEntries tree place names [] [] where
  distinct := List.nodup_nil
  mem path content := by simp

/-- The files of one more entry. -/
theorem ListsEntries.next (entries : ListsEntries tree place names passed files)
    (areNames : ∀ names, (tree.node names).isSome = true → UnixPath.AreNames names)
    (lists : Lists tree place (names ++ [name]) more) (new : name ∉ passed)
    (shown : isHidden name = false) :
    ListsEntries tree place names (passed ++ [name]) (files ++ more) where
  distinct := by
    rw [List.map_append, List.nodup_append]
    refine ⟨entries.distinct, lists.distinct, ?_⟩
    rintro path before other after rfl
    obtain ⟨⟨_, content⟩, member, rfl⟩ := List.mem_map.mp before
    obtain ⟨⟨_, content'⟩, member', same⟩ := List.mem_map.mp after
    obtain ⟨other, was, rest, -, path, found⟩ := (entries.mem _ _).mp member
    obtain ⟨rest', -, path', found'⟩ := (lists.mem _ _).mp member'
    have slashless := (areNames _ (by rw [found]; rfl)).slashless
    have slashless' := (areNames _ (by rw [found']; rfl)).slashless
    rw [List.append_assoc] at slashless slashless'
    have equal : names ++ other :: rest = names ++ [name] ++ rest' := by
      refine relativePath_injective (fun name member => slashless name ?_)
        (fun name member => slashless' name ?_) (by simp) (by simp) ?_
      · exact List.mem_append_right place member
      · exact List.mem_append_right place member
      · rw [← path, ← path']
        exact same.symm
    rw [List.append_assoc, List.append_cancel_left_eq, List.singleton_append, List.cons.injEq]
      at equal
    exact new (equal.1 ▸ was)
  mem path content := by
    rw [List.mem_append, entries.mem, lists.mem]
    constructor
    · rintro (⟨other, was, rest, found⟩ | ⟨rest, unhidden, path, found⟩)
      · exact ⟨other, List.mem_append_left _ was, rest, found⟩
      · refine ⟨name, List.mem_append_right _ List.mem_cons_self, rest, ?_, ?_, ?_⟩
        · exact List.forall_mem_cons.mpr ⟨shown, unhidden⟩
        · rw [path, List.append_assoc, List.singleton_append]
        · rw [← below_concat, found]
    · rintro ⟨other, was, rest, unhidden, path, found⟩
      obtain was | here := List.mem_append.mp was
      · exact .inl ⟨other, was, rest, unhidden, path, found⟩
      · obtain rfl := List.mem_singleton.mp here
        refine .inr ⟨rest, (List.forall_mem_cons.mp unhidden).2, ?_, ?_⟩
        · rw [path, List.append_assoc, List.singleton_append]
        · rw [below_concat, found]

/-- All entries together are the directory. -/
theorem ListsEntries.lists (entries : ListsEntries tree place names passed files)
    (directory : tree.node (place ++ names) = some .directory)
    (all : ∀ name, name ∈ passed ↔ (tree.node (place ++ names ++ [name])).isSome = true ∧
      isHidden name = false) : Lists tree place names files where
  distinct := entries.distinct
  mem path content := by
    rw [entries.mem]
    constructor
    · rintro ⟨name, -, rest, found⟩
      exact ⟨name :: rest, found⟩
    · rintro ⟨rest, unhidden, path, found⟩
      cases rest with
      | nil =>
          rw [List.append_nil, directory] at found
          cases found
      | cons name rest =>
          refine ⟨name, (all name).mpr ⟨?_, unhidden name List.mem_cons_self⟩, rest, unhidden, path,
            found⟩
          rw [← below_concat, ← List.append_assoc] at found
          by_cases last : rest = []
          · rw [last, List.append_nil] at found
            rw [found]
            rfl
          · rw [tree.node_of_below (by rw [found]; rfl) last]
            rfl

/-! ## The walk -/

section Walk

variable {fs : LightningFs} {disk : Disk fs} {others : Interference} {cutOff : Prop}
  {context : Context} {count : Nat}

/-- The rule for a loop that accumulates in a program that leaves the state alone. -/
theorem Acts.foldlM {α β : Type} {body : β → α → PgM β} {items : List α} {acc : β}
    {outcome : Except JsError β → Disk fs → Prop} (Inv : List α → β → Disk fs → Prop)
    (start : Inv items acc disk)
    (turn : ∀ acc item rest disk, Inv (item :: rest) acc disk →
      Acts others cutOff context (body acc item) disk fun result disk' =>
        (∀ acc, result = .ok acc → Inv rest acc disk') ∧
          ∀ error, result = .error error → outcome (.error error) disk')
    (finish : ∀ acc disk, Inv [] acc disk → outcome (.ok acc) disk) :
    Acts others cutOff context (items.foldlM body acc) disk outcome := by
  induction items generalizing acc disk with
  | nil => exact acts_pure (finish acc disk start)
  | cons item rest ih =>
      rw [List.foldlM_cons]
      exact Acts.bind _ (turn acc item rest disk start)
        (fun acc disk' holds => ih (holds.1 acc rfl)) fun error _ failed => failed.2 error rfl

/-- What the walk has done when it ends: the files before it, and those that it
has found. -/
def Found (tree : Tree) (place names : List Text) (files all : TupleFiles) (after : Tree) : Prop :=
  after = tree ∧ ∃ more, Lists tree place names more ∧ all = files ++ more

/-- Between two turns of the loop over the entries. -/
structure Between (tree : Tree) (place names shown : List Text) (base : Text) (count : Nat)
    (files : TupleFiles) (left : List Text) (all : TupleFiles) (disk : Disk fs) : Prop where
  tolerable : disk.Tolerable count
  same : disk.tree = tree
  listed : ∃ passed rest more, shown = passed ++ rest ∧ left = rest.map (base ++ ·) ∧
    ListsEntries tree place names passed more ∧ all = files ++ more

/-- A turn of the loop, by what it finds of its entry. -/
theorem Between.turn {shown left : List Text} {base item : Text} {all : TupleFiles}
    {program : PgM TupleFiles} (areNames : ∀ names, (tree.node names).isSome = true →
      UnixPath.AreNames names) (distinct : shown.Nodup)
    (unhidden : Unhidden shown)
    (between : Between tree place names shown base count files (item :: left) all disk)
    (finds : ∀ name, name ∈ shown → item = base ++ name →
      Acts others cutOff context program disk
        (Outcome count (Found tree place (names ++ [name]) all) fun after => after = tree)) :
    Acts others cutOff context program disk fun result disk' =>
      (∀ all, result = .ok all → Between tree place names shown base count files left all disk') ∧
        ∀ error, result = .error error → Outcome count (Found tree place names files)
          (fun after => after = tree) (.error error) disk' := by
  obtain ⟨-, -, passed, rest, more, rfl, items, entries, rfl⟩ := between
  cases rest with
  | nil => cases items
  | cons name rest =>
      obtain ⟨rfl, rfl⟩ := List.cons.inj items
      have member : name ∈ passed ++ name :: rest :=
        List.mem_append_right passed List.mem_cons_self
      refine (finds name member rfl).mono ?_
      rintro (error | all) disk' outcome
      · exact ⟨fun _ never => (by cases never), fun _ _ => outcome⟩
      · obtain ⟨tolerable, same, found, lists, rfl⟩ := outcome
        refine ⟨fun _ is => ?_, fun _ never => (by cases never)⟩
        cases is
        have new : name ∉ passed := fun was =>
          (List.nodup_append.mp distinct).2.2 name was name List.mem_cons_self rfl
        refine ⟨tolerable, same, passed ++ [name], rest, more ++ found, ?_, rfl, ?_, ?_⟩
        · rw [List.append_assoc, List.singleton_append]
        · exact entries.next areNames lists new (unhidden name member)
        · rw [List.append_assoc]

/-- The relative path of an item of the workspace. -/
theorem getRelativePath_text {self : PgExplorer} (here : self.context.In place)
    (inside : names ≠ []) :
    self.getRelativePath (UnixPath.text (place ++ names)) = .ok (relativePath names) := by
  rw [getRelativePath_of_in here, text_relativePath inside,
    relativeTo_append]

/-- A turn of the loop at something that is there. -/
theorem getItem_acts {recurse : Text → TupleFiles → PgM TupleFiles} {node : Node Text}
    (here : context.In place) (tolerable : disk.Tolerable count) (inside : names ≠ [])
    (found : disk.tree.node (place ++ names) = some node)
    (files : TupleFiles) (walks : ∀ {disk' : Disk fs}, disk'.Tolerable count →
      disk'.tree = disk.tree → node = .directory →
      Acts others cutOff context (recurse (UnixPath.text (place ++ names)) files) disk'
        (Outcome count (Found disk.tree place names files) fun after => after = disk.tree)) :
    Acts others cutOff context (getItem recurse files (UnixPath.text (place ++ names))) disk
      (Outcome count (Found disk.tree place names files) fun after => after = disk.tree) := by
  have areNames : UnixPath.AreNames (place ++ names) := fs.named (Option.isSome_iff_exists.mpr ⟨node, found⟩)
  have proper : place ++ names ≠ [] := List.append_ne_nil_of_right_ne_nil place inside
  have full := text_startsWith_slash proper
  have located := locate_of_pathTo areNames proper (.inl rfl)
  rw [getItem]
  refine Acts.bind _ (getMetadata_acts tolerable full (by rw [located]; exact found)) ?_
    fun _ _ failed => failed
  rintro metadata disk₁ ⟨tolerable₁, rfl, same₁⟩
  cases node with
  | file content =>
      refine acts_sync_bind (fun self is => getRelativePath_text (is ▸ here) inside) ?_
      refine Acts.bind _ (readToString_acts tolerable₁ (leadsTo_full full)
        (by rw [located, same₁]; exact found)) ?_ fun _ _ failed => ⟨failed.1, failed.2.trans same₁⟩
      rintro text disk₂ ⟨tolerable₂, rfl, same₂⟩
      exact acts_pure ⟨tolerable₂, same₂.trans same₁, _, lists_file found, rfl⟩
  | directory => exact walks tolerable₁ same₁ rfl

/-- The walk over a directory of the workspace, with at most `count` faults. It
comes to an end unless the tree is deeper than the model follows. -/
theorem recursivelyGetItems_acts {fuel : Nat} (here : context.In place)
    (tolerable : disk.Tolerable count) (pathTo : PathTo (place ++ names) path)
    (directory : disk.tree.node (place ++ names) = some .directory)
    (deep : cutOff ∨ ∀ other, (disk.tree.node other).isSome = true →
      other.length < (place ++ names).length + fuel) (files : TupleFiles) :
    Acts others cutOff context (recursivelyGetItems fuel path files) disk
      (Outcome count (Found disk.tree place names files) fun after => after = disk.tree) := by
  induction fuel generalizing names path files disk with
  | zero =>
      obtain granted | bounded := deep
      · exact fun _ _ => granted
      · exact absurd (bounded _ (by rw [directory]; rfl)) (by omega)
  | succ fuel ih =>
      have areNames : ∀ names, (disk.tree.node names).isSome = true → UnixPath.AreNames names :=
        fun _ => fs.named
      have areHere := areNames _ (by rw [directory]; rfl)
      have inside : place ++ names ≠ [] := List.append_ne_nil_of_left_ne_nil here.inside names
      have full := pathTo.startsWith_slash inside
      have located := locate_of_pathTo areHere inside pathTo
      have base : appendSlash path = UnixPath.text (place ++ names) ++ slash :=
        appendSlash_of_pathTo areHere pathTo
      rw [recursivelyGetItems]
      refine Acts.bind _ (readDir_acts tolerable full (by rw [located]; exact directory)) ?_
        fun _ _ failed => failed
      rintro itemNames disk₁ ⟨tolerable₁, same₁, distinct, members⟩
      rw [located] at members
      let shown := itemNames.filter (!isHidden ·)
      have present : ∀ name, name ∈ shown ↔
          (disk.tree.node (place ++ names ++ [name])).isSome = true ∧ isHidden name = false := by
        intro name
        rw [List.mem_filter, members, Bool.not_eq_true']
      refine Acts.foldlM (Between disk.tree place names shown (appendSlash path) count files)
        ?_ ?_ ?_
      · exact ⟨tolerable₁, same₁, [], shown, [], rfl, rfl, .start, by rw [List.append_nil]⟩
      · intro all item left disk₂ between
        refine between.turn areNames (distinct.filter _) (fun name member => ((present name).mp member).2)
          fun name member item_ => ?_
        obtain ⟨isSome, -⟩ := (present name).mp member
        obtain ⟨node, found⟩ := Option.isSome_iff_exists.mp isSome
        rw [item_, base, text_slash_concat, List.append_assoc]
        rw [List.append_assoc, ← between.same] at found
        rw [← between.same]
        refine getItem_acts here between.tolerable (by simp) found all ?_
        rintro disk₃ tolerable₃ same₃ rfl
        rw [← same₃] at found ⊢
        refine ih tolerable₃ (.inl rfl) found (deep.imp_right fun bounded other exists_ => ?_) all
        have short := bounded other (between.same ▸ same₃ ▸ exists_)
        simp only [List.length_append, List.length_singleton] at short ⊢
        omega
      · rintro all disk₂ ⟨tolerable₂, same₂, passed, rest, more, split, none_, entries, rfl⟩
        obtain rfl : rest = [] := List.map_eq_nil_iff.mp none_.symm
        rw [List.append_nil] at split
        refine ⟨tolerable₂, same₂, more, entries.lists directory fun name => ?_, rfl⟩
        rw [← split, present]

/-! ## The export -/

/-- The archive of a workspace that is laid out. -/
def Exports (tree : Tree) (place : List Text) (self : PgExplorer) (all : List Framework)
    (convert : Bool) (result : Except JsError Exported) : Prop :=
  ∃ files, Lists tree place [] files ∧ result =
    (layout all convert files).map fun laid => exported self laid.1 laid.2

/-- What is exported depends on the context alone. -/
theorem exported_of_context {self self' : PgExplorer} (same : self'.context = self.context)
    (files : TupleFiles) (readme : Option Text) :
    exported self' files readme = exported self files readme := by
  have has : self'.hasWorkspace = self.hasWorkspace := congrArg Context.hasWorkspace same
  have workspaces : self'.workspaces = self.workspaces := congrArg Context.workspaces same
  rw [exported, exported, PgExplorer.currentWorkspaceName, PgExplorer.currentWorkspaceName, has,
    workspaces]

/-- While others work on the tabs and at most `count` calls of the store fail, an
export comes to an end. It fails by one of these, or it is the layout of exactly
the files of the workspace that are not hidden: it is never one of a part of
them. The store stays as it is. -/
theorem exportWorkspace_exports {self : PgExplorer} {fuel : Nat} (all : List Framework)
    (convert : Bool) (here : self.context.In place) (tolerable : disk.Tolerable count)
    (directory : disk.tree.node place = some .directory)
    (deep : ∀ other, (disk.tree.node other).isSome = true → other.length < place.length + fuel) :
    (exportWorkspace all fuel convert).Ensures (others.setting fs False) self disk
      fun result self' disk' => others.Rel self self' ∧ disk'.tree = disk.tree ∧
        ((∃ error, result = .error error ∧ ∃ fewer < count, disk'.Tolerable fewer) ∨
          Exports disk.tree place self all convert result) := by
  have walks : Acts others False self.context
      (recursivelyGetItems fuel (UnixPath.text place ++ slash) []) disk
      (Outcome count (Found disk.tree place [] []) fun after => after = disk.tree) := by
    refine recursivelyGetItems_acts here tolerable ?_ ?_ (.inr ?_) []
    · rw [List.append_nil]
      exact .inr rfl
    · rw [List.append_nil]
      exact directory
    · rw [List.append_nil]
      exact deep
  rw [exportWorkspace, Async.ensures_bind, PgM.ensures_sync, requiredPath_of_in here, either_ok]
  refine (walks self rfl).bind ?_ ?_
  · rintro files self' disk' ⟨moved, -, same, found, lists, whole⟩
    rw [List.nil_append] at whole
    subst whole
    rw [Async.ensures_bind, PgM.ensures_sync]
    cases laid : layout all convert files with
    | error error =>
        refine ⟨moved, same, .inr ⟨files, lists, ?_⟩⟩
        rw [laid]
        rfl
    | ok laidOut =>
        refine ⟨moved, same, .inr ⟨files, lists, ?_⟩⟩
        rw [laid, exported_of_context (others.context moved)]
        rfl
  · rintro error self' disk' ⟨moved, fewer, same⟩
    exact ⟨moved, same, .inl ⟨error, rfl, fewer⟩⟩

end Walk

/-! ## An Anchor project -/

/-- The frameworks, where nothing is known of the rest of the client. -/
def native : Framework where
  name := "Native".toList
  getIsCurrent := Frameworks.Native.getIsCurrent
  convertFromPlayground files := .ok (Frameworks.Native.convertFromPlayground Frameworks.nowhere files)
  readme := []

/-- The framework Anchor. -/
def anchor : Framework where
  name := "Anchor".toList
  getIsCurrent := Frameworks.Anchor.getIsCurrent
  convertFromPlayground files :=
    (Frameworks.Anchor.convertFromPlayground Frameworks.nowhere files).mapError (⟨·, none⟩)
  readme := []

/-- A program with its metadata, in a store that may fail once. -/
def anchorDisk : Disk memoryFs where
  db := emptyWorkspace.2.db.after
    [.writeFile "/w/src/lib.rs".toList "#[program]".toList, .mkdir "/w/.workspace".toList,
      .writeFile "/w/.workspace/metadata.json".toList []]
  faults := [none, none, none, some id]

/-- The export of an Anchor project, run. -/
theorem anchorDisk_exports :
    (exportWorkspace [native, anchor] 3 true).Ensures (Interference.nobody.setting memoryFs False)
      emptyWorkspace.1 anchorDisk
      fun result self' disk' => Interference.nobody.Rel emptyWorkspace.1 self' ∧
        disk'.tree = anchorDisk.tree ∧
        ((∃ error, result = .error error ∧ ∃ fewer < 1, disk'.Tolerable fewer) ∨
          Exports anchorDisk.tree ["w".toList] emptyWorkspace.1 [native, anchor] true result) := by
  have here : emptyWorkspace.1.context.In ["w".toList] :=
    ⟨rfl, rfl, ⟨"w".toList, rfl, by decide, by decide⟩, by decide, by decide⟩
  have tolerable : anchorDisk.Tolerable 1 := by
    refine ⟨by decide, fun interrupted member db => ?_⟩
    have same : interrupted = id := by simpa [anchorDisk] using member
    rw [same, id]
  have directory : anchorDisk.tree.node ["w".toList] = some .directory := by decide +kernel
  refine exportWorkspace_exports [native, anchor] true here tolerable directory fun other exists_ => ?_
  have all : ∀ path ∈ anchorDisk.db.paths, path.length < ["w".toList].length + 3 := by
    decide +kernel
  exact all other (anchorDisk.db.complete other exists_)

end PgFramework
end Solpg.Client.Utils
