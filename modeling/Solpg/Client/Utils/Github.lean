import Mathlib.Data.Bool.AllAny
import Solpg.Std.Pattern
import Solpg.Std.PathText

/-!
# The parts of a GitHub URL

`PgGithub.parseUrl` splits a URL with one regular expression. The URLs that GitHub has
are those of a repository and of the files and directories in it.
-/

namespace Solpg.Client.Utils.PgGithub

open Solpg.Std

/-- `[\w-]` -/
def isNameChar (char : Char) : Bool := Text.isWord char || char = '-'

/-- `[\w-.]` -/
def isRefChar (char : Char) : Bool := isNameChar char || char = '.'

/-- Also slashes, in the last group. -/
def isPathChar (char : Char) : Bool := isNameChar char || char = '/' || char = '.'

/-- `((tree|blob)\/([\w-.]+))` -/
def refPattern : Pattern Char :=
  .group 6 (.sequence [
    .group 7 (.alt (.literal "tree".toList) (.literal "blob".toList)),
    .literal "/".toList,
    .group 8 (.plus isRefChar)])

/-- What follows the owner and the repository in the expression. -/
def itemPatterns : List (Pattern Char) :=
  [.optional (.group 5 (.literal "/".toList)),
    .optional refPattern,
    .optional (.group 9 (.literal "/".toList)),
    .group 10 (.many isPathChar)]

/-- The expression that a URL is matched with. -/
def regex : Pattern Char :=
  .sequence ([.optional (.group 1 (.literal "https://".toList)),
    .group 2 (.literal "github.com/".toList),
    .group 3 (.plus isNameChar),
    .literal "/".toList,
    .group 4 (.plus isNameChar)] ++ itemPatterns)

/-- What a URL is parsed to. -/
structure ParsedUrl where
  owner : Text
  repo : Text
  ref : Option Text
  path : Text
  deriving DecidableEq, Repr

/-- `parseUrl`. -/
def parseUrl (url : Text) : Except Text ParsedUrl :=
  match regex.exec url with
  | none => .error "Invalid program url".toList
  | some res => .ok {
      owner := (res 3).getD []
      repo := (res 4).getD []
      ref := res 8
      path := (res 10).getD [] }

/-! ## The URLs that GitHub has -/

/-- The digits of an escape. -/
def isHexDigit (char : Char) : Bool :=
  char.isDigit || ('a' ≤ char && char ≤ 'f') || ('A' ≤ char && char ≤ 'F')

/-- A character that a URL path can hold as it is. -/
def isUrlChar (char : Char) : Bool :=
  char.isAlphanum || char ∈ "-._~!$&'()*+,;=:@".toList

/-- Each character of a segment stands for itself or is percent-encoded. -/
def isSegment : Text → Bool
  | [] => true
  | '%' :: high :: low :: rest => isHexDigit high && isHexDigit low && isSegment rest
  | char :: rest => isUrlChar char && isSegment rest

/-- A name between two slashes: a ref without slashes, a directory or a file. -/
structure Segment where
  text : Text
  nonempty : text ≠ []
  encoded : isSegment text

/-- A repository by the names that GitHub allows. -/
structure Repository where
  owner : Text
  repo : Text
  owner_ne : owner ≠ []
  owner_chars : ∀ char ∈ owner, char.isAlphanum ∨ char = '-'
  repo_ne : repo ≠ []
  repo_chars : ∀ char ∈ repo, char.isAlphanum ∨ char ∈ "-_.".toList

/-- Whether a URL is of a directory or a file. -/
inductive ItemKind where
  | tree
  | blob
  deriving DecidableEq, Repr

/-- The kind as it is written. -/
def ItemKind.text : ItemKind → Text
  | .tree => "tree".toList
  | .blob => "blob".toList

/-- The URLs of a repository and of what is in it. -/
inductive GithubUrl where
  | root (repository : Repository) (slash : Bool)
  | item (repository : Repository) (kind : ItemKind) (ref : Segment) (path : List Segment)

namespace GithubUrl

/-- What follows the owner and the repository in the URL. -/
def itemText : GithubUrl → Text
  | .root _ slash => if slash then "/".toList else []
  | .item _ kind ref path => "/".toList ++ ((kind.text ++ ("/".toList ++ ref.text)) ++
      UnixPath.text (path.map Segment.text))

/-- The repository of a URL. -/
def repository : GithubUrl → Repository
  | .root repository _ | .item repository _ _ _ => repository

/-- The URL itself. -/
def text (url : GithubUrl) : Text :=
  "https://".toList ++ ("github.com/".toList ++ (url.repository.owner ++ ("/".toList ++
    (url.repository.repo ++ url.itemText))))

/-- The parts that the URL has been put together from. -/
def parts (url : GithubUrl) : ParsedUrl where
  owner := url.repository.owner
  repo := url.repository.repo
  ref := match url with
    | .root _ _ => none
    | .item _ _ ref _ => some ref.text
  path := match url with
    | .root _ _ => []
    | .item _ _ _ path => ['/'].intercalate (path.map Segment.text)

/-- The repository, the ref and the path have only characters of the classes. -/
def Plain (url : GithubUrl) : Prop :=
  (∀ char ∈ url.repository.repo, isNameChar char) ∧
    match url with
    | .root _ _ => True
    | .item _ _ ref path => (∀ char ∈ ref.text, isRefChar char) ∧
        ∀ segment ∈ path, ∀ char ∈ segment.text, isPathChar char

end GithubUrl

/-! ## What is parsed -/

variable {url : Text} {parsed : ParsedUrl}

/-- What is parsed has only characters of the classes. -/
theorem chars_of_parseUrl (found : parseUrl url = .ok parsed) :
    (∀ char ∈ parsed.repo, isNameChar char) ∧
      (∀ ref, parsed.ref = some ref → ∀ char ∈ ref, isRefChar char) ∧
      ∀ char ∈ parsed.path, isPathChar char := by
  rw [parseUrl] at found
  split at found
  next => cases found
  next res ran =>
    obtain rfl := Except.ok.inj found
    have named : regex.Captured 4 fun text => ∀ char ∈ text, isNameChar char := by
      simpa [regex, itemPatterns, refPattern] using fun _ _ _ matched => (Pattern.matches_plus matched).2
    have refs : regex.Captured 8 fun text => ∀ char ∈ text, isRefChar char := by
      simpa [regex, itemPatterns, refPattern] using fun _ _ _ matched => (Pattern.matches_plus matched).2
    have paths : regex.Captured 10 fun text => ∀ char ∈ text, isPathChar char := by
      simpa [regex, itemPatterns, refPattern] using fun _ _ _ matched => Pattern.matches_many matched
    refine ⟨?_, ?_, ?_⟩
    · cases inside : res 4 with
      | none => exact List.forall_mem_nil _
      | some repo => exact Pattern.captured_of_exec ran named inside
    · exact fun ref inside => Pattern.captured_of_exec ran refs inside
    · cases inside : res 10 with
      | none => exact List.forall_mem_nil _
      | some path => exact Pattern.captured_of_exec ran paths inside

/-! ## What is parsed of a URL that GitHub has -/

open Pattern in
/-- The captures of the owner and the repository. -/
def repositoryCaptures (owner repo : Text) : Captures Char :=
  Function.update (Function.update (Function.update (Function.update (fun _ => none)
    1 (some "https://".toList)) 2 (some "github.com/".toList)) 3 (some owner)) 4 (some repo)

/-- The owner and the repository end where their characters do. -/
theorem takes_repository {owner repo item : Text} {after : Pattern.Captures Char}
    (owner_ne : owner ≠ []) (owner_chars : ∀ char ∈ owner, isNameChar char)
    (repo_ne : repo ≠ []) (repo_chars : ∀ char ∈ repo, isNameChar char)
    (stops : ∀ char ∈ item.head?, isNameChar char = false)
    (takes : (Pattern.sequence itemPatterns).Takes (repositoryCaptures owner repo) item after []) :
    regex.Takes (fun _ => none) ("https://".toList ++ ("github.com/".toList ++ (owner ++
      ("/".toList ++ (repo ++ item))))) after [] := by
  apply Pattern.Takes.cons (Pattern.Takes.optional (Pattern.Takes.group (.literal _)))
  apply Pattern.Takes.cons (Pattern.Takes.group (.literal _))
  apply Pattern.Takes.cons (Pattern.Takes.group (.plus owner_ne owner_chars ?_))
  apply Pattern.Takes.cons (.literal _)
  apply Pattern.Takes.cons (Pattern.Takes.group (.plus repo_ne repo_chars ?_))
  · exact takes
  · simpa using stops
  · rintro char ⟨⟩
    rfl

/-- What follows the owner and the repository leads to the ref and the path. -/
def Reads (owner repo item : Text) (ref : Option Text) (path : Text) : Prop :=
  ∃ after : Pattern.Captures Char,
    (Pattern.sequence itemPatterns).Takes (repositoryCaptures owner repo) item after [] ∧
      after 3 = some owner ∧ after 4 = some repo ∧ after 8 = ref ∧ after 10 = some path

/-- What a URL is parsed to when it is read so. -/
theorem parseUrl_of_reads {owner repo item path : Text} {ref : Option Text}
    (owner_ne : owner ≠ []) (owner_chars : ∀ char ∈ owner, isNameChar char)
    (repo_ne : repo ≠ []) (repo_chars : ∀ char ∈ repo, isNameChar char)
    (stops : ∀ char ∈ item.head?, isNameChar char = false)
    (reads : Reads owner repo item ref path) :
    parseUrl ("https://".toList ++ ("github.com/".toList ++ (owner ++ ("/".toList ++
      (repo ++ item))))) = .ok ⟨owner, repo, ref, path⟩ := by
  obtain ⟨after, takes, ownerCaptured, repoCaptured, refCaptured, pathCaptured⟩ := reads
  have found := Pattern.exec_of_takes
    (takes_repository owner_ne owner_chars repo_ne repo_chars stops takes)
  rw [List.append_nil] at found
  simp only [parseUrl, found, ownerCaptured, repoCaptured, refCaptured, pathCaptured,
    Option.getD_some]

/-- The expression takes either kind. -/
theorem takes_kind (kind : ItemKind) (captures : Pattern.Captures Char) (rest : Text) :
    (Pattern.alt (.literal "tree".toList) (.literal "blob".toList)).Takes captures kind.text
      captures rest := by
  cases kind with
  | tree => exact .altFirst (.literal _)
  | blob =>
      apply Pattern.Takes.altSecond _ (.literal _)
      apply Pattern.Refuses.literal
      rintro ⟨⟩

/-- The URL of a repository is read. -/
theorem reads_root (owner repo : Text) (slash : Bool) :
    Reads owner repo (if slash then "/".toList else []) none [] := by
  have noSlash : (Pattern.literal "/".toList).Refuses ([] ++ []) := .literal nofun
  have noRef : refPattern.Refuses ([] ++ []) :=
    .group (.sequence (.group (.alt (.literal nofun) (.literal nofun))))
  have noPath (captures : Pattern.Captures Char) :
      (Pattern.sequence [.group 10 (.many isPathChar)]).Takes captures []
        (Function.update captures 10 (some [])) [] :=
    .single (.group (.many (List.forall_mem_nil _) nofun))
  cases slash with
  | false =>
      exact ⟨_, .skipCons (.group noSlash) (.skipCons noRef (.skipCons (.group noSlash)
        (noPath _))), rfl, rfl, rfl, rfl⟩
  | true =>
      exact ⟨_, .cons (.optional (.group (.literal _))) (.skipCons noRef
        (.skipCons (.group noSlash) (noPath _))), rfl, rfl, rfl, rfl⟩

/-- The ref ends where its characters do. -/
theorem takes_ref (kind : ItemKind) {ref rest : Text} (captures : Pattern.Captures Char)
    (ref_ne : ref ≠ []) (ref_chars : ∀ char ∈ ref, isRefChar char)
    (stops : ∀ char ∈ rest.head?, isRefChar char = false) :
    refPattern.Takes captures (kind.text ++ ("/".toList ++ ref))
      (Function.update (Function.update (Function.update captures 7 (some kind.text))
        8 (some ref)) 6 (some (kind.text ++ ("/".toList ++ ref)))) rest := by
  apply Pattern.Takes.group
  apply Pattern.Takes.cons (.group (takes_kind kind captures _))
  apply Pattern.Takes.cons (.literal "/".toList)
  exact .single (.group (.plus ref_ne ref_chars stops))

/-- The path is what follows the slash after the ref. -/
theorem reads_item (owner repo : Text) (kind : ItemKind) {ref : Text} {names : List Text}
    (ref_ne : ref ≠ []) (ref_chars : ∀ char ∈ ref, isRefChar char)
    (path_chars : ∀ char ∈ ['/'].intercalate names, isPathChar char) :
    Reads owner repo ("/".toList ++ ((kind.text ++ ("/".toList ++ ref)) ++ UnixPath.text names))
      (some ref) (['/'].intercalate names) := by
  have ends : ∀ char ∈ ([] : Text).head?, isPathChar char = false := nofun
  cases names with
  | nil =>
      have noSlash : (Pattern.literal "/".toList).Refuses ([] ++ []) := .literal nofun
      exact ⟨_, .cons (.optional (.group (.literal _)))
        (.cons (.optional (takes_ref kind _ ref_ne ref_chars nofun))
          (.skipCons (.group noSlash) (.single (.group (.many (List.forall_mem_nil _) ends))))),
        rfl, rfl, rfl, rfl⟩
  | cons name rest =>
      rw [UnixPath.text_eq_intercalate]
      have stops : ∀ char ∈ ('/' :: ['/'].intercalate (name :: rest) ++ []).head?,
          isRefChar char = false := by
        rintro char ⟨⟩
        rfl
      exact ⟨_, .cons (.optional (.group (.literal _)))
        (.cons (.optional (takes_ref kind _ ref_ne ref_chars stops))
          (.cons (.optional (.group (.literal "/".toList)))
            (.single (.group (.many path_chars ends))))),
        rfl, rfl, rfl, rfl⟩

/-- The owner has the characters of a name. -/
theorem Repository.isNameChar_owner (repository : Repository) :
    ∀ char ∈ repository.owner, isNameChar char := by
  intro char member
  obtain alphanumeric | rfl := repository.owner_chars char member
  · simp [isNameChar, Text.isWord, alphanumeric]
  · rfl

namespace GithubUrl

/-- The characters of a path are those of its segments. -/
theorem forall_mem_path (path : List Segment) :
    (∀ char ∈ ['/'].intercalate (path.map Segment.text), isPathChar char) ↔
      ∀ segment ∈ path, ∀ char ∈ segment.text, isPathChar char := by
  rw [UnixPath.forall_mem_intercalate (by rfl)]
  exact List.forall_mem_map

/-- A URL that GitHub has is parsed into its parts exactly when they have only characters
of the classes. -/
theorem parseUrl_text_iff (url : GithubUrl) : parseUrl url.text = .ok url.parts ↔ url.Plain := by
  constructor
  · intro parsed
    obtain ⟨repo, ref, path⟩ := chars_of_parseUrl parsed
    cases url with
    | root repository slash => exact ⟨repo, trivial⟩
    | item repository kind itemRef names =>
        exact ⟨repo, ref _ rfl, (forall_mem_path names).mp path⟩
  · rintro ⟨repo_chars, item_chars⟩
    apply parseUrl_of_reads url.repository.owner_ne url.repository.isNameChar_owner
      url.repository.repo_ne repo_chars
    · cases url with
      | root repository slash =>
          cases slash with
          | false => exact nofun
          | true =>
              rintro char ⟨⟩
              rfl
      | item repository kind ref names =>
          rintro char ⟨⟩
          rfl
    · cases url with
      | root repository slash => exact reads_root _ _ slash
      | item repository kind ref names =>
          exact reads_item _ _ kind ref.nonempty item_chars.1
            ((forall_mem_path names).mpr item_chars.2)

/-- The repository of a library with a dot in its name, by the URL of its page. -/
def dotted : GithubUrl :=
  .root ⟨"socketio".toList, "socket.io".toList, nofun, List.all_iff_forall_prop.mp (by decide),
    nofun, List.all_iff_forall_prop.mp (by decide)⟩ false

/-- What follows the dot of a repository is taken for its path. -/
theorem not_always_parsed : ¬ ∀ url : GithubUrl, parseUrl url.text = .ok url.parts := by
  intro parses
  have repo_chars := (chars_of_parseUrl (parses dotted)).1
  exact absurd (repo_chars '.' (by decide)) (by decide)

example : parseUrl dotted.text =
    .ok ⟨"socketio".toList, "socket".toList, none, ".io".toList⟩ := by decide

end GithubUrl

end Solpg.Client.Utils.PgGithub
