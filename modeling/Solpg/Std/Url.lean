import Solpg.Std.Text

/-!
# URLs

The parser and the serializer of the URL Standard for `http` and `https` URLs
without a base. The host parser (IDNA, IPv4 and IPv6) is a parameter: it gives the
serialized host.
-/

namespace Solpg.Std

/-- The parts of a URL. -/
structure Url where
  scheme : Text
  username : Text
  password : Text
  host : Text
  port : Option Nat
  path : List Text
  query : Option Text
  fragment : Option Text
  deriving DecidableEq, Repr

namespace Url

/-! ## Percent-encode sets -/

/-- The C0 control percent-encode set, for what is no code point of its own. -/
def c0Control (char : Char) : Bool := char.toNat ≤ 0x1f || 0x7e < char.toNat

/-- What is encoded in a fragment. -/
def fragmentSet (char : Char) : Bool := c0Control char || " \"<>\x60".toList.contains char

/-- What is encoded in a query. -/
def querySet (char : Char) : Bool := c0Control char || " \"#<>".toList.contains char

/-- What is encoded in a query of http and https. -/
def specialQuerySet (char : Char) : Bool := querySet char || char = '\x27'

/-- What is encoded in a path. -/
def pathSet (char : Char) : Bool := querySet char || "?^\x60\x7b\x7d".toList.contains char

/-- What is encoded in a user name and a password. -/
def userinfoSet (char : Char) : Bool := pathSet char || "/:;=@[\\]|".toList.contains char

/-- A hexadecimal digit, in upper case. -/
def hexDigit (value : Nat) : Char := (Nat.digitChar value).toUpper

/-- A byte as a percent sign and two digits. -/
def percentEncodeByte (byte : UInt8) : Text :=
  ['%', hexDigit (byte.toNat / 16), hexDigit (byte.toNat % 16)]

/-- "UTF-8 percent-encode". -/
def percentEncode (inSet : Char → Bool) (text : Text) : Text :=
  text.flatMap fun char =>
    if inSet char then (String.utf8EncodeChar char).flatMap percentEncodeByte else [char]

/-! ## Authority -/

/-- A slash of a special URL. -/
def isSlash (char : Char) : Bool := char = '/' || char = '\\'

/-- The authority ends before the path, the query or the fragment. -/
def endsAuthority (char : Char) : Bool := isSlash char || char = '?' || char = '#'

/-- What stands before the last `@`, and what follows it. -/
def splitCredentials (authority : Text) : Option Text × Text :=
  let host := (authority.reverse.takeWhile (· ≠ '@')).reverse
  if '@' ∈ authority then (some (authority.take (authority.length - host.length - 1)), host)
  else (none, authority)

/-- The host ends at the first colon outside of brackets. -/
def splitPort (insideBrackets : Bool) : Text → Text × Text
  | [] => ([], [])
  | char :: rest =>
      if char = ':' && !insideBrackets then ([], rest)
      else
        let insideBrackets := char = '[' || (insideBrackets && char ≠ ']')
        let (host, port) := splitPort insideBrackets rest
        (char :: host, port)

/-- The port that need not be written. -/
def defaultPort (scheme : Text) : Nat := if scheme = "http".toList then 80 else 443

/-- Digits up to 65535. The default port counts as none. -/
def parsePort (scheme port : Text) : Option (Option Nat) :=
  if port = [] then some none
  else if port.all Char.isDigit then
    let value := port.foldl (fun value digit => 10 * value + (digit.toNat - '0'.toNat)) 0
    if 65535 < value then none
    else some (if value = defaultPort scheme then none else some value)
  else none

/-! ## Path -/

/-- The segment stays. -/
def isSingleDot (segment : Text) : Bool :=
  [".".toList, "%2e".toList].contains (segment.map Char.toLower)

/-- The segment leads up. -/
def isDoubleDot (segment : Text) : Bool :=
  ["..".toList, ".%2e".toList, "%2e.".toList, "%2e%2e".toList].contains
    (segment.map Char.toLower)

/-- The segments of a path, from those that have been read on. -/
def parseSegments (path : List Text) : List Text → List Text
  | [] => path
  | [last] =>
      if isDoubleDot last then path.dropLast ++ [[]]
      else if isSingleDot last then path ++ [[]]
      else path ++ [percentEncode pathSet last]
  | segment :: rest =>
      parseSegments
        (if isDoubleDot segment then path.dropLast
          else if isSingleDot segment then path
          else path ++ [percentEncode pathSet segment])
        rest

/-- A slash that starts a path is not part of its first segment. -/
def parsePath (text : Text) : List Text :=
  match text with
  | [] => parseSegments [] [[]]
  | first :: rest =>
      parseSegments [] ((if isSlash first then rest else first :: rest).splitOnP isSlash)

/-! ## Parser -/

/-- Leading and trailing controls and spaces go, and tabs and newlines everywhere. -/
def clean (input : Text) : Text :=
  let isC0OrSpace (char : Char) : Bool := char.toNat ≤ 0x20
  ((((input.dropWhile isC0OrSpace).reverse.dropWhile isC0OrSpace).reverse).filter
    fun char => !"\t\n\r".toList.contains char)

/-- A character of a scheme behind its first. -/
def isSchemeChar (char : Char) : Bool := char.isAlphanum || "+-.".toList.contains char

/-- What follows the authority. -/
def parseRest (url : Url) (text : Text) : Url :=
  let path := text.takeWhile fun char => char ≠ '?' && char ≠ '#'
  let text := text.drop path.length
  let (query, text) := match text with
    | '?' :: text =>
        let query := text.takeWhile (· ≠ '#')
        (some query, text.drop query.length)
    | _ => (none, text)
  let fragment := match text with
    | '#' :: fragment => some fragment
    | _ => none
  { url with
    path := parsePath path
    query := query.map (percentEncode specialQuerySet)
    fragment := fragment.map (percentEncode fragmentSet) }

/-- The parser after the scheme. A host is required. -/
def parseSpecial (parseHost : Text → Option Text) (scheme text : Text) : Option Url := do
  let text := text.dropWhile isSlash
  let authority := text.takeWhile fun char => !endsAuthority char
  let (credentials, hostAndPort) := splitCredentials authority
  let credentials := credentials.getD []
  let username := credentials.takeWhile (· ≠ ':')
  let password := credentials.drop (username.length + 1)
  let (host, port) := splitPort false hostAndPort
  if host = [] then none
  let host ← parseHost host
  let port ← parsePort scheme port
  return parseRest
    { scheme := scheme
      username := percentEncode userinfoSet username
      password := percentEncode userinfoSet password
      host := host
      port := port
      path := []
      query := none
      fragment := none }
    (text.drop authority.length)

/-- `new URL(input)`, as far as it gives an `http` or `https` URL. -/
def parse (parseHost : Text → Option Text) (input : Text) : Option Url :=
  let text := clean input
  let scheme := text.takeWhile isSchemeChar
  match text.drop scheme.length with
  | ':' :: rest =>
      let scheme := scheme.map Char.toLower
      if scheme = "http".toList ∨ scheme = "https".toList then parseSpecial parseHost scheme rest
      else none
  | _ => none

/-! ## Serializer -/

variable (url : Url)

/-- The user name and the password, as they are written. -/
def credentials : Text :=
  if url.username = [] ∧ url.password = [] then []
  else url.username ++ (if url.password = [] then [] else ':' :: url.password) ++ ['@']

/-- The URL without credentials, query and fragment. -/
def location : Text :=
  url.host ++ (match url.port with
    | some port => ':' :: Nat.toDigits 10 port
    | none => []) ++ url.path.flatMap ('/' :: ·)

/-- The query and the fragment, as they are written. -/
def afterPath : Text :=
  (match url.query with
    | some query => '?' :: query
    | none => []) ++
  (match url.fragment with
    | some fragment => '#' :: fragment
    | none => [])

/-- `toString`. -/
def serialize : Text :=
  url.scheme ++ "://".toList ++ url.credentials ++ url.location ++ url.afterPath

/-- Nothing but scheme, host, port and path. -/
structure Plain : Prop where
  username : url.username = []
  password : url.password = []
  query : url.query = none
  fragment : url.fragment = none

variable {url}

/-- What the serializer writes besides the location is nothing exactly for a plain URL. -/
theorem plain_iff : url.Plain ↔ url.credentials = [] ∧ url.afterPath = [] := by
  constructor
  · rintro ⟨username, password, query, fragment⟩
    exact ⟨by simp [credentials, username, password], by simp [afterPath, query, fragment]⟩
  · rintro ⟨noCredentials, nothing⟩
    have unnamed : url.username = [] ∧ url.password = [] := by
      by_contra named
      rw [credentials, if_neg named] at noCredentials
      simp at noCredentials
    rw [afterPath, List.append_eq_nil_iff] at nothing
    refine ⟨unnamed.1, unnamed.2, ?_, ?_⟩
    · cases query : url.query with
      | none => rfl
      | some text => simp [query] at nothing
    · cases fragment : url.fragment with
      | none => rfl
      | some text => simp [fragment] at nothing

/-- A URL is as long as its location and the rest. -/
theorem length_serialize : url.serialize.length =
    (url.scheme ++ "://".toList ++ url.location).length +
      (url.credentials.length + url.afterPath.length) := by
  simp only [serialize, List.length_append]
  omega

/-- A plain URL is written as its location, and any other one is longer. -/
theorem serialize_eq_iff :
    url.serialize = url.scheme ++ "://".toList ++ url.location ↔ url.Plain := by
  rw [plain_iff]
  constructor
  · intro same
    have lengths := congrArg List.length same
    rw [length_serialize] at lengths
    exact ⟨List.length_eq_zero_iff.mp (by omega), List.length_eq_zero_iff.mp (by omega)⟩
  · rintro ⟨noCredentials, nothing⟩
    rw [serialize, noCredentials, nothing, List.append_nil, List.append_nil]

/-! ## URLs that the parser gives -/

/-- A character that ends a host. -/
def endsHost (char : Char) : Bool := char = ':' || char = '/'

/-- A serialized host has no delimiter, unless it stands in brackets. -/
def IsHost (host : Text) : Prop :=
  host.head? = some '[' ∨ ∀ char ∈ host, endsHost char = false

/-- What every parsed URL is like. -/
structure Parsed (parseHost : Text → Option Text) (url : Url) : Prop where
  scheme : url.scheme = "http".toList ∨ url.scheme = "https".toList
  host : ∃ text, parseHost text = some url.host
  path : url.path ≠ []

/-- Segments make a path. -/
theorem parseSegments_ne_nil (path : List Text) {segments : List Text} (nonempty : segments ≠ []) :
    parseSegments path segments ≠ [] := by
  induction segments generalizing path with
  | nil => exact absurd rfl nonempty
  | cons segment rest ih =>
      cases rest with
      | nil =>
          rw [parseSegments]
          split
          · simp
          · split <;> simp
      | cons next rest =>
          rw [parseSegments]
          · exact ih _ (List.cons_ne_nil next rest)
          · nofun

/-- No path is empty. -/
theorem parsePath_ne_nil (text : Text) : parsePath text ≠ [] := by
  unfold parsePath
  split
  · exact parseSegments_ne_nil [] (List.cons_ne_nil _ _)
  · exact parseSegments_ne_nil [] (List.splitOnP_ne_nil _ _)

/-- What is known of a URL that was parsed. -/
theorem parsed_of_parse {parseHost : Text → Option Text} {input : Text}
    (parsed : parse parseHost input = some url) : Parsed parseHost url := by
  unfold parse at parsed
  dsimp only at parsed
  split at parsed
  case h_2 => cases parsed
  case h_1 rest _ =>
    split at parsed
    case isFalse => cases parsed
    case isTrue http =>
      unfold parseSpecial at parsed
      dsimp only at parsed
      split at parsed
      case isTrue => cases parsed
      case isFalse =>
        simp only [Option.bind_eq_bind, Option.bind_eq_some_iff, Option.pure_def, Option.some.injEq]
          at parsed
        obtain ⟨host, hosted, port, -, rfl⟩ := parsed
        exact ⟨http, ⟨_, hosted⟩, parsePath_ne_nil _⟩

/-- A path is written with a slash at its front. -/
theorem exists_path_eq (absolute : url.path ≠ []) :
    ∃ rest, url.path.flatMap ('/' :: ·) = '/' :: rest := by
  obtain ⟨first, rest, path⟩ := List.exists_cons_of_ne_nil absolute
  exact ⟨first ++ rest.flatMap ('/' :: ·), by rw [path]; rfl⟩

/-- Two slashes stand after the scheme and another one before the path. -/
theorem three_le_count_slash (absolute : url.path ≠ []) : 3 ≤ url.serialize.count '/' := by
  obtain ⟨rest, path⟩ := exists_path_eq absolute
  have slashes : "://".toList.count '/' = 2 := by simp
  simp only [serialize, location, path, List.count_append, slashes, List.count_cons_self]
  omega

/-- A URL with a host without brackets, a port, the root path and nothing else. -/
structure Root (url : Url) : Prop where
  plain : url.Plain
  scheme : url.scheme = "http".toList ∨ url.scheme = "https".toList
  host : url.host.head? ≠ some '[' ∧ url.host ≠ [] ∧ ∀ char ∈ url.host, endsHost char = false
  port : url.port ≠ none
  path : url.path = [[]]
  /-- Nothing in it looks like credentials, a query or a fragment. -/
  unmarked : ∀ mark ∈ "@?#".toList, mark ∉ url.serialize

/-- Nothing but the location is written without its marks. -/
theorem plain_of_unmarked (unmarked : ∀ mark ∈ "@?#".toList, mark ∉ url.serialize) :
    url.Plain := by
  rw [plain_iff]
  constructor
  · by_contra named
    apply unmarked '@' (by simp)
    have written : url.credentials =
        url.username ++ (if url.password = [] then [] else ':' :: url.password) ++ ['@'] := by
      rw [credentials] at named ⊢
      split
      case isTrue unnamed => exact absurd (if_pos unnamed) named
      case isFalse => rfl
    simp [serialize, written]
  · rw [afterPath, List.append_eq_nil_iff]
    constructor
    · cases query : url.query with
      | none => rfl
      | some text => exact absurd (by simp [serialize, afterPath, query]) (unmarked '?' (by simp))
    · cases fragment : url.fragment with
      | none => rfl
      | some text => exact absurd (by simp [serialize, afterPath, fragment]) (unmarked '#' (by simp))

/-- What follows the host starts with its end. -/
theorem exists_afterHost (absolute : url.path ≠ []) :
    ∃ char rest, endsHost char = true ∧ url.location = url.host ++ char :: rest := by
  obtain ⟨rest, path⟩ := exists_path_eq absolute
  cases port : url.port with
  | none => exact ⟨'/', rest, rfl, by simp [location, port, path]⟩
  | some number =>
      exact ⟨':', Nat.toDigits 10 number ++ '/' :: rest, rfl, by simp [location, port, path]⟩

/-- A host without delimiters is read back from the location. -/
theorem takeWhile_location (absolute : url.path ≠ [])
    (free : ∀ char ∈ url.host, endsHost char = false) :
    url.location.takeWhile (fun char => !endsHost char) = url.host := by
  obtain ⟨char, rest, ends, location⟩ := exists_afterHost absolute
  rw [location, List.takeWhile_append_of_pos (by simpa using free)]
  simp [ends]

/-- A port is read back from what follows the host. -/
theorem port_eq_of_append {port other : Nat} {path rest : Text}
    (same : Nat.toDigits 10 port ++ '/' :: path = Nat.toDigits 10 other ++ '/' :: rest) :
    port = other ∧ path = rest := by
  have digits : ∀ (number : Nat) (path : Text),
      (Nat.toDigits 10 number ++ '/' :: path).takeWhile Char.isDigit = Nat.toDigits 10 number := by
    intro number path
    rw [List.takeWhile_append_of_pos fun char member =>
      Nat.isDigit_of_mem_toDigits (by decide) (by decide) member]
    simp
  have written := congrArg (List.takeWhile Char.isDigit) same
  rw [digits, digits] at written
  refine ⟨?_, ?_⟩
  · rw [← Nat.ofDigitChars_toDigits (b := 10) (n := port) (by decide) (by decide), written,
      Nat.ofDigitChars_toDigits (by decide) (by decide)]
  · rw [written] at same
    exact (List.cons.inj (List.append_cancel_left same)).2

/-- A path that is written as a slash is the root. -/
theorem path_eq_root {path : List Text} (written : path.flatMap ('/' :: ·) = ['/']) :
    path = [[]] := by
  cases path with
  | nil => cases written
  | cons first rest =>
      simp only [List.flatMap_cons, List.cons_append, List.cons.injEq, true_and,
        List.append_eq_nil_iff] at written
      obtain ⟨rfl, nothing⟩ := written
      cases rest with
      | nil => rfl
      | cons second rest => cases nothing

/-- A URL at the place of a root has its host, its port and its path. -/
theorem Root.location_eq {root : Url} (isRoot : Root root) (absolute : url.path ≠ [])
    (isHost : IsHost url.host) (same : url.location = root.location) :
    url.host = root.host ∧ url.port = root.port ∧ url.path = root.path := by
  have free := isRoot.host.2.2
  have rootAbsolute : root.path ≠ [] := by simp [isRoot.path]
  have hosts : url.host = root.host := by
    obtain bracket | free' := isHost
    · obtain ⟨char, rest, -, written⟩ := exists_afterHost rootAbsolute
      obtain ⟨char', rest', -, written'⟩ := exists_afterHost absolute
      have heads := congrArg List.head? same
      rw [written, written', List.head?_append, List.head?_append, bracket, Option.some_or] at heads
      cases host : root.host with
      | nil => exact absurd host isRoot.host.2.1
      | cons first rest =>
          rw [host] at heads
          exact absurd (by simpa [host] using heads.symm) isRoot.host.1
    · rw [← takeWhile_location absolute free', same, takeWhile_location rootAbsolute free]
  have rest := same
  simp only [location, hosts, List.append_assoc] at rest
  have after := List.append_cancel_left rest
  obtain ⟨tail, path⟩ := exists_path_eq absolute
  rw [path, isRoot.path] at after
  cases rootPort : root.port with
  | none => exact absurd rootPort isRoot.port
  | some number =>
      cases port : url.port with
      | none => simp [port, rootPort] at after
      | some other =>
          simp only [port, rootPort, List.cons_append, List.cons.injEq, true_and] at after
          obtain ⟨rfl, rfl⟩ := port_eq_of_append after
          exact ⟨hosts, rfl, (path_eq_root path).trans isRoot.path.symm⟩

/-- No other URL is written like a root. -/
theorem Root.eq_of_serialize_eq {root : Url} {parseHost : Text → Option Text} (isRoot : Root root)
    (parsed : Parsed parseHost url) (isHost : IsHost url.host)
    (same : url.serialize = root.serialize) : url = root := by
  have plain : url.Plain := plain_of_unmarked (by rw [same]; exact isRoot.unmarked)
  have written := same
  rw [serialize_eq_iff.mpr plain, serialize_eq_iff.mpr isRoot.plain] at written
  have schemes : url.scheme = root.scheme := by
    obtain http | https := parsed.scheme <;> obtain rootHttp | rootHttps := isRoot.scheme <;>
      simp_all
  rw [schemes] at written
  obtain ⟨host, port, path⟩ :=
    isRoot.location_eq parsed.path isHost (List.append_cancel_left written)
  obtain ⟨username, password, query, fragment⟩ := plain
  obtain ⟨rootUsername, rootPassword, rootQuery, rootFragment⟩ := isRoot.plain
  cases url
  cases root
  simp_all

end Url
end Solpg.Std
