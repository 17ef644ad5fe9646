import Solpg.Server.Routes.Learning.ClientIp
import Solpg.Std.Base64
import Solpg.Std.Uuid

/-!
# Session tokens

`sign_session` and `verify_session` of `routes/learning/session.rs`. HMAC-SHA256 is any function of
a secret and a message with 32 bytes; a key of any length is fine with it.
-/

namespace Solpg.Server.Routes.Learning

open Solpg.Std

/-- Bytes of a header or a signature. -/
abbrev Bytes := List UInt8

/-- A message authentication code by its key and message. -/
abbrev Hmac := Bytes → Bytes → Vector UInt8 32

/-- The header of a session. -/
def sessionHeader : String := "x-solpg-session"

/-- The bytes of an ASCII text. -/
def asBytes (text : Text) : Bytes := text.map fun char => UInt8.ofNat char.toNat

/-- `str::split_once`. -/
def splitOnce (separator : Char) : Text → Option (Text × Text)
  | [] => none
  | char :: rest =>
      if char = separator then some ([], rest)
      else (splitOnce separator rest).map fun (before, after) => (char :: before, after)

variable (hmac : Hmac) (secret : Bytes)

/-- The signature of a payload. -/
def signature (payload : Text) : Text := Base64.encode (hmac secret (asBytes payload)).toList

/-- The token of a session: its id and the signature of it. -/
def signSession (id : Uuid) : Text := id.simple ++ '.' :: signature hmac secret id.simple

/-- The session of a token. -/
def verifyToken (token : Text) : Except Text Uuid := do
  let (payload, signature) ← (splitOnce '.' token).elim
    (.error "Invalid learning session".toList) .ok
  let id ← (Uuid.parseStr payload).elim (.error "Invalid learning session".toList) .ok
  let supplied ← (Base64.decode signature).elim (.error "Invalid learning session".toList) .ok
  if supplied = (hmac secret (asBytes payload)).toList then .ok id
  else .error "Invalid learning session".toList

/-- The session of a request. -/
def verifySession (headers : HeaderMap) : Except Text Uuid := do
  let token ← ((headers.get sessionHeader).bind toStr).elim
    (.error "Missing learning session".toList) .ok
  verifyToken hmac secret token

variable {hmac secret} {headers : HeaderMap} {payload after token : Text} {id : Uuid}

/-! ## Splitting -/

/-- A text is split at its first separator. -/
theorem splitOnce_append {separator : Char} (free : separator ∉ payload) :
    splitOnce separator (payload ++ separator :: after) = some (payload, after) := by
  induction payload with
  | nil => exact if_pos rfl
  | cons char rest ih =>
      obtain ⟨other, others⟩ := not_or.mp (mt List.mem_cons.mpr free)
      rw [List.cons_append, splitOnce, if_neg (Ne.symm other), ih others]
      rfl

/-- Where a text was split. -/
theorem splitOnce_eq_some {separator : Char}
    (split : splitOnce separator token = some (payload, after)) :
    token = payload ++ separator :: after ∧ separator ∉ payload := by
  induction token generalizing payload with
  | nil => cases split
  | cons char rest ih =>
      rw [splitOnce] at split
      split at split
      · next same =>
          cases split
          exact ⟨by rw [same]; rfl, List.not_mem_nil⟩
      · next other =>
          obtain ⟨⟨before, behind⟩, later, same⟩ := Option.map_eq_some_iff.mp split
          cases same
          obtain ⟨rfl, free⟩ := ih later
          exact ⟨rfl, mt List.mem_cons.mp (not_or.mpr ⟨Ne.symm other, free⟩)⟩

/-! ## Tokens -/

/-- A token is accepted exactly when its signature is the one of its payload. -/
theorem verifyToken_ok_iff : verifyToken hmac secret token = .ok id ↔
    ∃ payload, token = payload ++ '.' :: signature hmac secret payload ∧ '.' ∉ payload ∧
      Uuid.parseStr payload = some id := by
  constructor
  · intro accepted
    rw [verifyToken] at accepted
    cases split : splitOnce '.' token with
    | none =>
        rw [split] at accepted
        cases accepted
    | some parts =>
        obtain ⟨payload, supplied⟩ := parts
        rw [split] at accepted
        cases parsed : Uuid.parseStr payload with
        | none =>
            simp only [Option.elim, parsed, bind, Except.bind] at accepted
            cases accepted
        | some found =>
            cases decoded : Base64.decode supplied with
            | none =>
                simp only [Option.elim, parsed, decoded, bind, Except.bind] at accepted
                cases accepted
            | some bytes =>
                simp only [Option.elim, parsed, decoded, bind, Except.bind] at accepted
                split at accepted
                · next same =>
                    cases accepted
                    obtain ⟨rfl, free⟩ := splitOnce_eq_some split
                    refine ⟨payload, ?_, free, parsed⟩
                    rw [signature, ← same, Base64.encode_of_decode decoded]
                · cases accepted
  · rintro ⟨payload, rfl, free, parsed⟩
    rw [verifyToken, splitOnce_append free, signature]
    simp only [Option.elim, parsed, Base64.decode_encode, bind, Except.bind, if_true]

/-- No character of a token is a dot before the one that separates the parts. -/
theorem dot_not_mem_simple (id : Uuid) : '.' ∉ id.simple := fun among =>
  absurd (Uuid.mem_digits_of_mem_simple among) (by decide)

/-- A token that was signed is verified. -/
theorem verifyToken_signSession (id : Uuid) : verifyToken hmac secret (signSession hmac secret id) = .ok id :=
  verifyToken_ok_iff.mpr ⟨id.simple, rfl, dot_not_mem_simple id, Uuid.parseStr_simple id⟩

/-! ## Headers -/

/-- A character that a header holds as it is. -/
def isHeld (char : Char) : Bool :=
  Char.ofNat (UInt8.ofNat char.toNat).toNat == char && isVisibleAscii (UInt8.ofNat char.toNat)

/-- What a header can hold is read back. -/
theorem toStr_asBytes (held : ∀ char ∈ token, isHeld char = true) : toStr (asBytes token) = some token := by
  have visible : (asBytes token).all isVisibleAscii = true := by
    rw [asBytes, List.all_map, List.all_eq_true]
    intro char among
    exact (Bool.and_eq_true_iff.mp (held char among)).2
  have same : asciiText (asBytes token) = token := by
    rw [asciiText, asBytes, List.map_map]
    refine (List.map_congr_left fun char among => ?_).trans (List.map_id token)
    exact beq_iff_eq.mp (Bool.and_eq_true_iff.mp (held char among)).1
  rw [toStr, if_pos visible, same]

/-- A header can hold a token. -/
theorem isHeld_of_mem_signSession {char : Char} (among : char ∈ signSession hmac secret id) :
    isHeld char = true := by
  have digits : ("0123456789abcdef".toList).all isHeld = true := by decide
  have letters : Base64.letters.all isHeld = true := by decide
  rcases List.mem_append.mp among with digit | later
  · exact List.all_eq_true.mp digits char (Uuid.mem_digits_of_mem_simple digit)
  · rcases List.mem_cons.mp later with rfl | letter
    · rfl
    · exact List.all_eq_true.mp letters char (Base64.mem_letters_of_mem_encode letter)

/-- Which requests have a session. -/
theorem verifySession_ok_iff : verifySession hmac secret headers = .ok id ↔
    ∃ value token, headers.get sessionHeader = some value ∧ toStr value = some token ∧
      verifyToken hmac secret token = .ok id := by
  rw [verifySession]
  cases found : (headers.get sessionHeader).bind toStr with
  | none =>
      constructor
      · intro accepted
        cases accepted
      · rintro ⟨value, token, held, read, -⟩
        rw [held, Option.bind_some, read] at found
        cases found
  | some token =>
      obtain ⟨value, held, read⟩ := Option.bind_eq_some_iff.mp found
      constructor
      · exact fun accepted => ⟨value, token, held, read, accepted⟩
      · rintro ⟨other, text, heldToo, readToo, accepted⟩
        rw [held] at heldToo
        cases heldToo
        rw [read] at readToo
        cases readToo
        exact accepted

/-- Bytes are read back from their characters. -/
theorem asBytes_asciiText (value : Bytes) : asBytes (asciiText value) = value := by
  rw [asBytes, asciiText, List.map_map]
  refine List.map_id'' (fun byte => ?_) value
  have small := byte.toNat_lt
  have valid : byte.toNat.isValidChar := .inl (by omega)
  have same : (Char.ofNat byte.toNat).toNat = byte.toNat := by
    rw [Char.ofNat, dif_pos valid]
    exact UInt32.toNat_ofNatLT
  rw [Function.comp_apply, same, UInt8.ofNat_toNat]

/-- The byte of a dot. -/
def dot : UInt8 := 46

/-- The header has these bytes before its first dot and those behind it. -/
structure SplitsAt (headers : HeaderMap) (before after : Bytes) : Prop where
  holds : headers.get sessionHeader = some (before ++ dot :: after)
  first : dot ∉ before

/-- Without the byte there is no such character. -/
theorem not_mem_asciiText {value : Bytes} (free : dot ∉ value) : '.' ∉ asciiText value := by
  intro among
  have bytes : UInt8.ofNat '.'.toNat ∈ asBytes (asciiText value) := List.mem_map_of_mem among
  rw [asBytes_asciiText] at bytes
  exact free bytes

/-- What the header has to be for a session to be accepted. -/
theorem accepted_of_splitsAt {before after : Bytes} (splits : SplitsAt headers before after)
    (accepted : verifySession hmac secret headers = .ok id) :
    Uuid.parseStr (asciiText before) = some id ∧
      asciiText after = Base64.encode (hmac secret before).toList := by
  obtain ⟨value, token, held, read, verified⟩ := verifySession_ok_iff.mp accepted
  rw [splits.holds] at held
  cases held
  have isText : token = asciiText before ++ '.' :: asciiText after := by
    rw [toStr] at read
    split at read
    · cases read
      rw [asciiText, List.map_append, List.map_cons]
      rfl
    · cases read
  obtain ⟨payload, same, free, parsed⟩ := verifyToken_ok_iff.mp verified
  have parts : splitOnce '.' (asciiText before ++ '.' :: asciiText after) =
      some (asciiText before, asciiText after) := splitOnce_append (not_mem_asciiText splits.first)
  rw [← isText, same, splitOnce_append free] at parts
  obtain ⟨sameBefore, sameAfter⟩ := Prod.mk.inj (Option.some.inj parts)
  subst sameBefore
  refine ⟨parsed, ?_⟩
  rw [← sameAfter, signature, asBytes_asciiText]

/-- The header of a session has a dot. -/
theorem exists_splitsAt (accepted : verifySession hmac secret headers = .ok id) :
    ∃ before after, SplitsAt headers before after := by
  obtain ⟨value, token, held, read, verified⟩ := verifySession_ok_iff.mp accepted
  have among : dot ∈ value := by
    obtain ⟨payload, same, -, -⟩ := verifyToken_ok_iff.mp verified
    rw [toStr] at read
    split at read
    · cases read
      rw [← asBytes_asciiText value, same, asBytes, List.map_append, List.map_cons]
      exact List.mem_append_right _ List.mem_cons_self
    · cases read
  obtain ⟨before, after, rfl, first⟩ := List.eq_append_cons_of_mem among
  exact ⟨before, after, held, first⟩

/-- A signed session is verified, and a header is accepted only with the one signature of what is
before its first dot: with any other text behind the dot it is rejected. -/
theorem sessions_verified (hmac : Hmac) (secret : Bytes) :
    (∀ id headers, headers.get sessionHeader = some (asBytes (signSession hmac secret id)) →
      verifySession hmac secret headers = .ok id) ∧
    (∀ headers id, verifySession hmac secret headers = .ok id → ∃ before after,
      SplitsAt headers before after ∧ Uuid.parseStr (asciiText before) = some id ∧
        asciiText after = Base64.encode (hmac secret before).toList) ∧
    ∀ headers id before after, verifySession hmac secret headers = .ok id →
      SplitsAt headers before after → ∀ changed other, SplitsAt changed before other →
        other ≠ after → ∃ error, verifySession hmac secret changed = .error error := by
  refine ⟨fun id headers held => ?_, fun headers id accepted => ?_, ?_⟩
  · exact verifySession_ok_iff.mpr ⟨_, _, held, toStr_asBytes fun _ => isHeld_of_mem_signSession,
      verifyToken_signSession id⟩
  · obtain ⟨before, after, splits⟩ := exists_splitsAt accepted
    exact ⟨before, after, splits, accepted_of_splitsAt splits accepted⟩
  · intro headers id before after accepted splits changed other splitsToo different
    cases verified : verifySession hmac secret changed with
    | error error => exact ⟨error, rfl⟩
    | ok found =>
        have one := (accepted_of_splitsAt splits accepted).2
        have two := (accepted_of_splitsAt splitsToo verified).2
        have same : asBytes (asciiText other) = asBytes (asciiText after) := by rw [one, two]
        rw [asBytes_asciiText, asBytes_asciiText] at same
        exact absurd same different

/-- A function with 32 bytes. -/
def someHmac : Hmac := fun secret message =>
  .replicate 32 (UInt8.ofNat (secret.length + message.length))

/-- A session that is signed with an empty secret. -/
theorem sessions_verified_nil : verifySession someHmac []
    [(sessionHeader, asBytes (signSession someHmac [] ⟨List.replicate 16 7, rfl⟩))] =
      .ok ⟨List.replicate 16 7, rfl⟩ :=
  (sessions_verified someHmac []).1 _ _ rfl

end Solpg.Server.Routes.Learning
