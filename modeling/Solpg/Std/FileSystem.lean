import Mathlib.Data.List.Basic
import Mathlib.Data.List.Infix
import Mathlib.Logic.Function.Basic

/-!
# A file system with injected failures

Programs over a tree of files, as a state monad with errors. Any call may also
fail for a reason outside the model (a full disk, a lost mount): the fault then
says how far the call got. `Within` bounds the paths that a program can change,
`Ensures` says what holds when it succeeds.
-/

namespace Solpg.Std

/-- Path components below the working directory. -/
abbrev Path := List String

/-- What stands at a path. -/
inductive Node (Content : Type) where
  | file (content : Content)
  | directory

/-- A tree of files: whatever exists stands in a directory. -/
structure FileTree (Content : Type) where
  node : Path → Option (Node Content)
  closed : ∀ path name, (node (path ++ [name])).isSome = true →
    path = [] ∨ node path = some .directory

namespace FileTree

variable {Content : Type} {tree : FileTree Content} {path : Path}

/-- The tree without files. -/
def empty : FileTree Content where
  node _ := none
  closed _ _ exists_ := by cases exists_

/-- The root and what is a directory. -/
def isDirectory (tree : FileTree Content) (path : Path) : Bool :=
  path.isEmpty || match tree.node path with
    | some .directory => true
    | _ => false

/-- A file stands there. -/
def isFile (tree : FileTree Content) (path : Path) : Bool :=
  match tree.node path with
  | some (.file _) => true
  | _ => false

/-- The content of the file at a path. -/
def content (tree : FileTree Content) (path : Path) : Option Content :=
  match tree.node path with
  | some (.file content) => some content
  | _ => none

/-- A path leads to a directory when it is the root or one stands there. -/
theorem isDirectory_iff : tree.isDirectory path = true ↔
    path = [] ∨ tree.node path = some .directory := by
  simp only [isDirectory, Bool.or_eq_true, List.isEmpty_iff]
  split <;> simp_all

/-- Nothing stands below a path at which nothing stands. -/
theorem node_append_of_none (missing : tree.node path = none) (inside : path ≠ []) (rest : Path) :
    tree.node (path ++ rest) = none := by
  induction rest using List.reverseRecOn with
  | nil => simpa using missing
  | append_singleton rest name ih =>
      cases found : tree.node (path ++ (rest ++ [name])) with
      | none => rfl
      | some node =>
          rw [← List.append_assoc] at found
          obtain root | directory := tree.closed (path ++ rest) name (by rw [found]; rfl)
          · exact absurd (List.append_eq_nil_iff.mp root).1 inside
          · rw [ih] at directory
            cases directory

/-- Remove everything at or below the paths in `gone`. -/
def remove (tree : FileTree Content) (gone : Path → Bool) : FileTree Content where
  node path := if path.inits.any gone then none else tree.node path
  closed path name exists_ := by
    by_cases removed : (path ++ [name]).inits.any gone
    · rw [if_pos removed] at exists_
      cases exists_
    · have parent : ¬ path.inits.any gone := by
        intro above
        obtain ⟨ancestor, prefix_, selected⟩ := List.any_eq_true.mp above
        refine removed (List.any_eq_true.mpr ⟨ancestor, ?_, selected⟩)
        rw [List.mem_inits] at prefix_ ⊢
        exact prefix_.trans (List.prefix_append path [name])
      rw [if_neg removed] at exists_
      rw [if_neg parent]
      exact tree.closed path name exists_

/-- Make the first `depth` components of a path directories. -/
def makeDirectories (tree : FileTree Content) (path : Path) (depth : Nat) : FileTree Content where
  node other := if other.isPrefixOf path && other.length ≤ depth then some .directory
    else tree.node other
  closed other name exists_ := by
    by_cases made : other.isPrefixOf path && other.length ≤ depth
    · simp [made]
    · have child : ¬ ((other ++ [name]).isPrefixOf path && (other ++ [name]).length ≤ depth) := by
        simp only [Bool.and_eq_true, List.isPrefixOf_iff_prefix, decide_eq_true_eq] at made ⊢
        rintro ⟨prefix_, short⟩
        refine made ⟨(List.prefix_append other [name]).trans prefix_, ?_⟩
        simp at short
        omega
      rw [if_neg child] at exists_
      rw [if_neg made]
      exact tree.closed other name exists_

/-- Put a file into a directory, in the place of another file or of nothing. -/
def put (tree : FileTree Content) (path : Path) (content : Content)
    (parent : tree.isDirectory path.dropLast = true) (free : ¬ tree.isDirectory path = true) :
    FileTree Content where
  node := Function.update tree.node path (some (.file content))
  closed other name exists_ := by
    rw [isDirectory_iff] at parent free
    push Not at free
    have unchanged : path ≠ other → tree.node other = some .directory →
        Function.update tree.node path (some (.file content)) other = some .directory := by
      intro different directory
      rwa [Function.update_of_ne different.symm]
    by_cases target : other ++ [name] = path
    · subst target
      rw [List.dropLast_concat] at parent
      exact parent.imp_right (unchanged (by simp))
    · rw [Function.update_of_ne target] at exists_
      refine (tree.closed other name exists_).imp_right fun directory => unchanged ?_ directory
      rintro rfl
      exact free.2 directory

end FileTree

/-- How an I/O call fails: nothing is there, or otherwise. -/
inductive IoErrorKind where
  | notFound
  | other
  deriving DecidableEq, Repr

/-- A failure from outside, and how far the call got: how many directories it
had made, what it had written, which entries it had removed. -/
structure Fault (Content : Type) where
  made : Nat
  written : Option Content
  removed : Path → Bool

/-- The files, and for each call to come whether it fails from outside. -/
structure World (Content : Type) where
  files : FileTree Content
  faults : List (Option (Fault Content))

/-- A program with file calls and errors. -/
def FileM (Content ε α : Type) : Type :=
  World Content → Except ε α × World Content

namespace FileM

variable {Content ε ε' α β : Type}
variable {program : FileM Content ε α} {next : α → FileM Content ε β} {f : ε → ε'}

instance : Monad (FileM Content ε) where
  pure value := fun world => (.ok value, world)
  bind program next := fun world =>
    match program world with
    | (.ok value, after) => next value after
    | (.error error, after) => (.error error, after)

/-- End with an error. -/
def fail (error : ε) : FileM Content ε α := fun world => (.error error, world)

/-- `?` into another error type. -/
def mapError (f : ε → ε') (program : FileM Content ε α) : FileM Content ε' α := fun world =>
  match program world with
  | (.ok value, after) => (.ok value, after)
  | (.error error, after) => (.error (f error), after)

/-- The outcome of a program as a value. -/
def attempt (program : FileM Content ε α) : FileM Content ε' (Except ε α) := fun world =>
  ((.ok (program world).1), (program world).2)

/-- Look at the files without a call that can fail. -/
def inspect (f : FileTree Content → α) : FileM Content ε α := fun world =>
  (.ok (f world.files), world)

/-- One call on the files. A failure from outside is never `NotFound`. -/
def call (interrupted : Fault Content → FileTree Content → FileTree Content)
    (operation : FileTree Content → Except IoErrorKind (α × FileTree Content)) :
    FileM Content IoErrorKind α := fun world =>
  match world.faults with
  | some fault :: faults => (.error .other, ⟨interrupted fault world.files, faults⟩)
  | faults =>
      match operation world.files with
      | .ok (value, files) => (.ok value, ⟨files, faults.tail⟩)
      | .error kind => (.error kind, ⟨world.files, faults.tail⟩)

/-! ## Calls -/

/-- `fs::exists`. -/
def exists_ (path : Path) : FileM Content IoErrorKind Bool :=
  call (fun _ files => files) fun files => .ok ((files.node path).isSome, files)

/-- `fs::read`. -/
def read (path : Path) : FileM Content IoErrorKind Content :=
  call (fun _ files => files) fun files =>
    match files.node path with
    | some (.file content) => .ok (content, files)
    | some .directory => .error .other
    | none => .error .notFound

/-- Put a file at a path whose directory exists and where no directory stands. -/
def putFile (path : Path) (content : Content) (files : FileTree Content) :
    Except IoErrorKind (FileTree Content) :=
  if occupied : files.isDirectory path = true then .error .other
  else if parent : files.isDirectory path.dropLast = true then
    .ok (files.put path content parent occupied)
  else .error .notFound

/-- `fs::write`: the parent must be a directory. -/
def write (path : Path) (content : Content) : FileM Content IoErrorKind Unit :=
  call
    (fun fault files =>
      match fault.written with
      | some content => (putFile path content files).toOption.getD files
      | none => files)
    fun files => (putFile path content files).map fun files => ((), files)

/-- `fs::create_dir_all`: no prefix may be a file. -/
def createDirAll (path : Path) : FileM Content IoErrorKind Unit :=
  call
    (fun fault files =>
      if path.inits.any files.isFile then files else files.makeDirectories path fault.made)
    fun files =>
      if path.inits.any files.isFile then .error .other
      else .ok ((), files.makeDirectories path path.length)

/-- `fs::remove_dir_all`. -/
def removeDirAll (path : Path) : FileM Content IoErrorKind Unit :=
  call (fun fault files => files.remove fun other => path.isPrefixOf other && fault.removed other)
    fun files =>
      match files.node path with
      | some .directory => .ok ((), files.remove (· == path))
      | some (.file _) => .error .other
      | none => .error .notFound

/-- `fs::copy`. -/
def copy (source target : Path) : FileM Content IoErrorKind Unit := do
  let content ← read source
  write target content

/-- How a sequence is bracketed makes no difference. -/
theorem bind_assoc {γ : Type} (program : FileM Content ε α) (next : α → FileM Content ε β)
    (last : β → FileM Content ε γ) :
    (program >>= next) >>= last = program >>= fun value => next value >>= last := by
  funext world
  simp only [Bind.bind]
  cases program world with
  | mk result after => cases result <;> rfl

/-! ## Inversion of successful runs -/

/-- A sequence that succeeds ran both of its parts. -/
theorem bind_ok {world after : World Content} {result : β}
    (ran : (program >>= next) world = (.ok result, after)) :
    ∃ value between, program world = (.ok value, between) ∧
      next value between = (.ok result, after) := by
  simp only [Bind.bind] at ran
  cases outcome : program world with
  | mk value between =>
      rw [outcome] at ran
      cases value with
      | ok value => exact ⟨value, between, rfl, ran⟩
      | error error => cases ran

/-- A program whose errors are renamed succeeds when the program does. -/
theorem mapError_ok {world after : World Content}
    {result : α} (ran : program.mapError f world = (.ok result, after)) :
    program world = (.ok result, after) := by
  simp only [mapError] at ran
  split at ran <;> cases ran
  next succeeded => exact succeeded

/-- A successful read finds the file and changes nothing. -/
theorem read_ok {path : Path} {world after : World Content} {content : Content}
    (ran : read path world = (.ok content, after)) :
    after.files = world.files ∧ world.files.node path = some (.file content) := by
  simp only [read, call] at ran
  split at ran
  · cases ran
  · cases found : world.files.node path with
    | none => simp [found] at ran
    | some node =>
        cases node with
        | directory => simp [found] at ran
        | file stored =>
            simp only [found, Prod.mk.injEq, Except.ok.injEq] at ran
            obtain ⟨rfl, rfl⟩ := ran
            exact ⟨rfl, rfl⟩

/-! ## Footprints -/

/-- The program changes no path outside `touched`, whether it succeeds or not. -/
def Within (touched : Path → Prop) (program : FileM Content ε α) : Prop :=
  ∀ world path, ¬ touched path → (program world).2.files.node path = world.files.node path

section Footprints

variable {touched : Path → Prop}

/-- Doing nothing touches nothing. -/
theorem Within.pure (value : α) : Within touched (pure value : FileM Content ε α) :=
  fun _ _ _ => rfl

/-- Failing touches nothing. -/
theorem Within.fail (error : ε) : Within touched (fail error : FileM Content ε α) :=
  fun _ _ _ => rfl

/-- Looking touches nothing. -/
theorem Within.inspect (f : FileTree Content → α) :
    Within touched (inspect f : FileM Content ε α) :=
  fun _ _ _ => rfl

/-- A sequence stays within what both parts may touch. -/
theorem Within.bind (first : program.Within touched) (rest : ∀ value, (next value).Within touched) :
    (program >>= next).Within touched := by
  intro world path outside
  have before := first world path outside
  simp only [Bind.bind]
  cases outcome : program world with
  | mk result after =>
      rw [outcome] at before
      cases result with
      | ok value => exact (rest value after path outside).trans before
      | error error => exact before

/-- Renaming errors touches nothing else. -/
theorem Within.mapError
    (within : program.Within touched) : (program.mapError f).Within touched := by
  intro world path outside
  have before := within world path outside
  simp only [FileM.mapError]
  split <;> simp_all

/-- Catching errors touches nothing else. -/
theorem Within.attempt (within : program.Within touched) :
    (program.attempt : FileM Content ε' _).Within touched :=
  fun world path outside => within world path outside

/-- A program may be allowed to touch more. -/
theorem Within.mono {wider : Path → Prop}
    (within : program.Within touched) (subset : ∀ path, touched path → wider path) :
    program.Within wider :=
  fun world path outside => within world path fun inside => outside (subset path inside)

/-- A call touches what its success and its failures touch. -/
theorem Within.call {interrupted : Fault Content → FileTree Content → FileTree Content}
    {operation : FileTree Content → Except IoErrorKind (α × FileTree Content)}
    (onFault : ∀ fault files path, ¬ touched path →
      (interrupted fault files).node path = files.node path)
    (onSuccess : ∀ files value after path, operation files = .ok (value, after) →
      ¬ touched path → after.node path = files.node path) :
    (call interrupted operation).Within touched := by
  intro world path outside
  simp only [FileM.call]
  split
  · exact onFault _ _ path outside
  · split
    next succeeded => exact onSuccess _ _ _ path succeeded outside
    next => rfl

/-- A loop touches what its body does. -/
theorem Within.forM {items : List α} {body : α → FileM Content ε Unit}
    (each : ∀ item ∈ items, (body item).Within touched) : (items.forM body).Within touched := by
  induction items with
  | nil => exact Within.pure _
  | cons item items ih =>
      simp only [List.forM]
      refine (each item List.mem_cons_self).bind fun _ => ih ?_
      exact fun other member => each other (List.mem_cons_of_mem item member)

/-- Asking whether a path exists touches nothing. -/
theorem exists_within (path : Path) : (exists_ path : FileM Content _ _).Within fun _ => False := by
  refine Within.call (fun _ _ _ _ => rfl) ?_
  rintro files value after other ⟨⟩ -
  rfl

/-- Reading touches nothing. -/
theorem read_within (path : Path) : (read path : FileM Content _ _).Within fun _ => False := by
  refine Within.call (fun _ _ _ _ => rfl) ?_
  intro files value after other succeeded _
  split at succeeded <;> cases succeeded
  rfl

/-- Putting a file changes its own place only. -/
theorem putFile_node {path : Path} {content : Content} {files after : FileTree Content}
    (succeeded : putFile path content files = .ok after) :
    after.node = Function.update files.node path (some (.file content)) := by
  simp only [putFile] at succeeded
  split at succeeded
  · cases succeeded
  · split at succeeded <;> cases succeeded
    rfl

/-- Whether or not it succeeds, putting a file changes no other place. -/
theorem putFile_getD {path other : Path} {content : Content} {files : FileTree Content}
    (different : other ≠ path) :
    ((putFile path content files).toOption.getD files).node other = files.node other := by
  cases result : putFile path content files with
  | ok after =>
      have put := putFile_node result
      simp only [Except.toOption, Option.getD_some, put]
      exact Function.update_of_ne different _ _
  | error kind => rfl

/-- Writing touches the file only. -/
theorem write_within (path : Path) (content : Content) : (write path content).Within (· = path) := by
  apply Within.call
  · intro fault files other outside
    split
    · exact putFile_getD outside
    · rfl
  · intro files value after other succeeded outside
    cases result : putFile path content files with
    | ok put =>
        rw [result] at succeeded
        cases succeeded
        rw [putFile_node result]
        exact Function.update_of_ne outside _ _
    | error kind =>
        rw [result] at succeeded
        cases succeeded

/-- Making directories changes no place off the path. -/
theorem makeDirectories_node {files : FileTree Content} {path other : Path} {depth : Nat}
    (outside : ¬ other <+: path) :
    (files.makeDirectories path depth).node other = files.node other := by
  simp [FileTree.makeDirectories, outside]

/-- Making directories touches the path and what is above it. -/
theorem createDirAll_within (path : Path) :
    (createDirAll path : FileM Content _ _).Within (· <+: path) := by
  apply Within.call
  · intro fault files other outside
    split
    · rfl
    · exact makeDirectories_node outside
  · intro files value after other succeeded outside
    split at succeeded <;> cases succeeded
    exact makeDirectories_node outside

/-- Removing changes no place off the path. -/
theorem remove_node {files : FileTree Content} {gone : Path → Bool} {path other : Path}
    (below : ∀ ancestor, gone ancestor = true → path <+: ancestor) (outside : ¬ path <+: other) :
    (files.remove gone).node other = files.node other := by
  have kept : ¬ other.inits.any gone := by
    intro removed
    obtain ⟨ancestor, prefix_, selected⟩ := List.any_eq_true.mp removed
    exact outside ((below ancestor selected).trans ((List.mem_inits _ _).mp prefix_))
  simp [FileTree.remove, kept]

/-- Removing a directory touches what is at it and below it. -/
theorem removeDirAll_within (path : Path) :
    (removeDirAll path : FileM Content _ _).Within (path <+: ·) := by
  apply Within.call
  · intro fault files other outside
    apply remove_node _ outside
    intro ancestor selected
    simp only [Bool.and_eq_true, List.isPrefixOf_iff_prefix] at selected
    exact selected.1
  · intro files value after other succeeded outside
    split at succeeded <;> cases succeeded
    apply remove_node _ outside
    intro ancestor selected
    simp only [beq_iff_eq] at selected
    exact selected ▸ List.prefix_rfl

/-- Copying touches the target only. -/
theorem copy_within (source target : Path) :
    (copy source target : FileM Content _ _).Within (· = target) :=
  ((read_within source).mono (by simp)).bind fun content => write_within target content

end Footprints

/-! ## What a successful run leaves -/

/-- If the program succeeds on files that meet `pre`, its result and the files
it leaves meet `post`. -/
def Ensures (pre : FileTree Content → Prop) (program : FileM Content ε α)
    (post : α → FileTree Content → Prop) : Prop :=
  ∀ world value after, pre world.files → program world = (.ok value, after) →
    post value after.files

section Results

variable {pre : FileTree Content → Prop}

/-- Doing nothing keeps what holds of the files. -/
theorem Ensures.pure (value : α) {post : α → FileTree Content → Prop}
    (holds : ∀ files, pre files → post value files) :
    Ensures pre (pure value : FileM Content ε α) post := by
  rintro world result after met ⟨⟩
  exact holds _ met

/-- Of a program that never succeeds everything is ensured. -/
theorem Ensures.fail (error : ε) {post : α → FileTree Content → Prop} :
    Ensures pre (fail error : FileM Content ε α) post := by
  rintro world result after met ⟨⟩

/-- A sequence ensures what its second part does from where the first part ends. -/
theorem Ensures.bind {middle : α → FileTree Content → Prop} {post : β → FileTree Content → Prop}
    (first : Ensures pre program middle)
    (rest : ∀ value, Ensures (middle value) (next value) post) :
    Ensures pre (program >>= next) post := by
  intro world result after met ran
  simp only [Bind.bind] at ran
  cases outcome : program world with
  | mk value between =>
      rw [outcome] at ran
      cases value with
      | ok value => exact rest value between result after (first world value between met outcome) ran
      | error error => cases ran

/-- Renaming errors ensures the same. -/
theorem Ensures.mapError {post : α → FileTree Content → Prop} (ensures : Ensures pre program post) :
    Ensures pre (program.mapError f) post := by
  intro world result after met ran
  simp only [FileM.mapError] at ran
  split at ran <;> cases ran
  next outcome => exact ensures world _ _ met outcome

/-- A call that succeeds did what its operation says. -/
theorem Ensures.call {interrupted : Fault Content → FileTree Content → FileTree Content}
    {operation : FileTree Content → Except IoErrorKind (α × FileTree Content)}
    {post : α → FileTree Content → Prop}
    (holds : ∀ files value after, pre files → operation files = .ok (value, after) →
      post value after) :
    Ensures pre (call interrupted operation) post := by
  intro world value after met ran
  simp only [FileM.call] at ran
  split at ran
  · cases ran
  · split at ran <;> cases ran
    next succeeded => exact holds world.files value _ met succeeded

/-- A successful `write` changes the content of its file. -/
theorem write_ensures (path : Path) (content : Content) (before : Path → Option Content) :
    Ensures (fun files => files.content = before) (write path content) fun _ files =>
      files.content = Function.update before path (some content) := by
  apply Ensures.call
  rintro files value after rfl succeeded
  cases result : putFile path content files with
  | error kind =>
      rw [result] at succeeded
      cases succeeded
  | ok put =>
      rw [result] at succeeded
      cases succeeded
      funext other
      by_cases same : other = path
      · subst same
        simp [FileTree.content, putFile_node result]
      · simp [FileTree.content, putFile_node result, same]

/-- A successful `create_dir_all` changes no content. -/
theorem createDirAll_ensures (path : Path) (before : Path → Option Content) :
    Ensures (fun files => files.content = before) (createDirAll path) fun _ files =>
      files.content = before := by
  apply Ensures.call
  rintro files value after rfl succeeded
  split at succeeded <;> cases succeeded
  next noFile =>
    funext other
    by_cases made : other <+: path
    · have short : other.length ≤ path.length := made.length_le
      have notFile : ¬ files.isFile other = true := by
        intro file
        exact noFile (List.any_eq_true.mpr ⟨other, (List.mem_inits _ _).mpr made, file⟩)
      simp only [FileTree.content, FileTree.makeDirectories, List.isPrefixOf_iff_prefix.mpr made,
        short, decide_true, Bool.and_self, if_true]
      simp only [FileTree.isFile] at notFile
      split <;> simp_all
    · simp only [FileTree.content, makeDirectories_node made]

/-- What a call can do: succeed, be refused, or fail from outside. -/
theorem call_cases (interrupted : Fault Content → FileTree Content → FileTree Content)
    (operation : FileTree Content → Except IoErrorKind (α × FileTree Content))
    (world : World Content) :
    (∃ value files after, operation world.files = .ok (value, files) ∧
      call interrupted operation world = (.ok value, after) ∧ after.files = files) ∨
    (∃ kind after, call interrupted operation world = (.error kind, after) ∧
      (after.files = world.files ∨ ∃ fault, after.files = interrupted fault world.files)) := by
  simp only [call]
  split
  next fault faults _ => exact .inr ⟨_, _, rfl, .inr ⟨fault, rfl⟩⟩
  next =>
    split
    next value files succeeded => exact .inl ⟨value, files, _, succeeded, rfl, rfl⟩
    next kind refused => exact .inr ⟨kind, _, rfl, .inl rfl⟩

/-- Without a failure from outside, directories are made where no file is in the way. -/
theorem createDirAll_completes {path : Path} {world : World Content} (noFaults : world.faults = [])
    (clear : path.inits.any world.files.isFile = false) :
    createDirAll path world = (.ok (), ⟨world.files.makeDirectories path path.length, []⟩) := by
  simp [createDirAll, call, noFaults, clear]

/-- Without a failure from outside, a file is written where it can be put. -/
theorem write_completes {path : Path} {content : Content} {world : World Content}
    {after : FileTree Content} (noFaults : world.faults = [])
    (puts : putFile path content world.files = .ok after) :
    write path content world = (.ok (), ⟨after, []⟩) := by
  simp [write, call, noFaults, puts, Except.map]

/-- `remove_dir_all` fails otherwise, removes everything, or finds nothing. -/
theorem removeDirAll_cases (path : Path) (world : World Content) :
    (removeDirAll path world).1 = .error .other ∨
      (removeDirAll path world).2.files = world.files.remove (· == path) ∨
      (world.files.node path = none ∧ (removeDirAll path world).2.files = world.files) := by
  simp only [removeDirAll, call]
  split
  · exact .inl rfl
  · cases found : world.files.node path with
    | none => exact .inr (.inr ⟨rfl, rfl⟩)
    | some node =>
        cases node with
        | directory => exact .inr (.inl rfl)
        | file content => exact .inl rfl

/-- After `remove_dir_all` has succeeded, or found nothing, nothing is left. -/
theorem removeDirAll_ensures {path : Path} (inside : path ≠ []) :
    Ensures (fun _ => True) ((removeDirAll path).attempt : FileM Content ε' _) fun result files =>
      result = .ok () ∨ result = .error .notFound →
        ∀ other, path <+: other → files.content other = none := by
  rintro world result after - ⟨⟩ finished other ⟨rest, rfl⟩
  obtain failed | removed | ⟨missing, same⟩ := removeDirAll_cases path world
  · simp [failed] at finished
  · have gone : (path ++ rest).inits.any (· == path) = true := by
      rw [List.any_eq_true]
      exact ⟨path, (List.mem_inits _ _).mpr (List.prefix_append path rest), by simp⟩
    simp only [removed, FileTree.content, FileTree.remove, gone, if_true]
  · simp only [same, FileTree.content, FileTree.node_append_of_none missing inside]

end Results

/-! ## Without failures from outside -/

section Calm

variable {world : World Content}

/-- Where no failure from outside is to come, none is to come after the program. -/
def Calm (program : FileM Content ε α) : Prop :=
  ∀ world, world.faults = [] → (program world).2.faults = []

/-- Doing nothing calls for no failure. -/
theorem Calm.pure (value : α) : Calm (pure value : FileM Content ε α) := fun _ noFaults => noFaults

/-- A call takes its failure from those to come. -/
theorem Calm.call {interrupted : Fault Content → FileTree Content → FileTree Content}
    {operation : FileTree Content → Except IoErrorKind (α × FileTree Content)} :
    Calm (call interrupted operation) := by
  intro world noFaults
  simp only [FileM.call, noFaults]
  split <;> rfl

/-- A sequence calls for none when its parts do not. -/
theorem Calm.bind
    (first : Calm program) (rest : ∀ value, Calm (next value)) : Calm (program >>= next) := by
  intro world noFaults
  have between := first world noFaults
  simp only [Bind.bind]
  cases outcome : program world with
  | mk result after =>
      rw [outcome] at between
      cases result with
      | ok value => exact rest value after between
      | error error => exact between

/-- Renaming errors calls for none. -/
theorem Calm.mapError (calm : Calm program) :
    Calm (program.mapError f) := by
  intro world noFaults
  have after := calm world noFaults
  simp only [FileM.mapError]
  split <;> simp_all

/-- `fs::copy` is a read and a write. -/
theorem copy_calm (source target : Path) : Calm (copy source target : FileM Content _ _) :=
  Calm.call.bind fun _ => Calm.call

/-- A place that a program does not touch stays without a file. -/
theorem Within.isFile {touched : Path → Prop}
    (within : program.Within touched) {path : Path} (outside : ¬ touched path) :
    Ensures (fun files => files.isFile path = false) program fun _ files =>
      files.isFile path = false := by
  intro world value after noFile ran
  have same : after.files.node path = world.files.node path := by
    simpa only [ran] using within world path outside
  rw [FileTree.isFile, same]
  exact noFile

/-- Making directories makes no file. -/
theorem isFile_makeDirectories {files : FileTree Content} {path other : Path}
    (noFile : files.isFile other = false) (depth : Nat) :
    (files.makeDirectories path depth).isFile other = false := by
  simp only [FileTree.isFile, FileTree.makeDirectories]
  split_ifs
  · rfl
  · exact noFile

/-- `fs::create_dir_all` makes no file. -/
theorem createDirAll_isFile (path other : Path) :
    Ensures (fun files => files.isFile other = false) (createDirAll path : FileM Content _ _)
      fun _ files => files.isFile other = false := by
  apply Ensures.call
  intro files value after noFile succeeded
  split at succeeded <;> cases succeeded
  exact isFile_makeDirectories noFile _

/-- Without a failure from outside, a directory is removed or was not there. -/
theorem removeDirAll_completes {path : Path} (inside : path ≠ []) (noFaults : world.faults = [])
    (noFile : world.files.isFile path = false) :
    ∃ result after, removeDirAll path world = (result, ⟨after, []⟩) ∧
      (result = .ok () ∨ result = .error .notFound) ∧
      (∀ rest, after.node (path ++ rest) = none) ∧
      ∀ other, world.files.isFile other = false → after.isFile other = false := by
  cases found : world.files.node path with
  | none =>
      refine ⟨.error .notFound, world.files, by simp [removeDirAll, call, noFaults, found],
        .inr rfl, fun rest => FileTree.node_append_of_none found inside rest, fun _ same => same⟩
  | some node =>
      cases node with
      | file content => simp [FileTree.isFile, found] at noFile
      | directory =>
          refine ⟨.ok (), world.files.remove (· == path),
            by simp [removeDirAll, call, noFaults, found], .inl rfl, fun rest => ?_, ?_⟩
          · have gone : (path ++ rest).inits.any (· == path) = true := by
              rw [List.any_eq_true]
              exact ⟨path, (List.mem_inits _ _).mpr (List.prefix_append path rest), by simp⟩
            simp only [FileTree.remove, gone, if_true]
          · intro other same
            simp only [FileTree.isFile, FileTree.remove]
            split_ifs
            · rfl
            · exact same

end Calm

end FileM
end Solpg.Std
