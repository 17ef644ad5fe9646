import Mathlib.Data.List.Perm.Subperm
import Solpg.Client.Utils.ProgramInteraction.IdlComposites
import Solpg.Std.Outcome

/-!
# Struct arguments

A struct is parsed by the pieces of the input and serialized by the properties of the object that
they make, neither by its declaration. The pieces are as many as the fields and every piece has the
key of a field, but a key may come twice, and the bytes come in the order of the object.
-/

namespace Solpg.Client.Utils

open Solpg.Std PgCommon

/-! ## Objects -/

/-- A key among the own keys of an object. -/
def insertKey (key : Text) : List Text → List Text
  | [] => [key]
  | other :: rest =>
      if other = key then key :: rest
      else if precedes key other then key :: other :: rest
      else other :: insertKey key rest

def addKey (own : List Text) (key : Text) : List Text :=
  if key = protoKey then own else insertKey key own

/-- The keys of an object to which the keys are assigned one after the other, in the order of
`Object.entries`. -/
def ownKeys (keys : List Text) : List Text := keys.foldl addKey []

section

variable {key : Text} {own keys : List Text} {value : Value} {values : List (Text × Value)}
  {held : Text → Value}

theorem assign_map (same : held key = value) :
    assign key value (own.map fun key => (key, held key)) =
      (insertKey key own).map fun key => (key, held key) := by
  induction own with
  | nil => simp [assign, insertKey, same]
  | cons other rest ih =>
      simp only [List.map_cons, assign, insertKey]
      split
      · simp [same]
      · split
        · simp [same]
        · rw [ih, List.map_cons]

/-- The object has the values that were assigned, in the order of its keys. -/
theorem foldl_setProperty (own : List Text) (same : ∀ entry ∈ values, held entry.1 = entry.2) :
    values.foldl (fun result entry => setProperty entry.1 entry.2 result)
        (own.map fun key => (key, held key)) =
      ((values.map Prod.fst).foldl addKey own).map fun key => (key, held key) := by
  induction values generalizing own with
  | nil => rfl
  | cons entry rest ih =>
      obtain ⟨first, others⟩ := List.forall_mem_cons.mp same
      simp only [List.foldl_cons, List.map_cons, setProperty, addKey]
      split
      · exact ih own others
      · rw [assign_map first]
        exact ih _ others

theorem mem_addKey {other : Text} (among : other ∈ addKey own key) : other = key ∨ other ∈ own := by
  unfold addKey at among
  split at among
  · exact .inr among
  · induction own with
    | nil => exact .inl (List.mem_singleton.mp among)
    | cons first rest ih =>
        unfold insertKey at among
        split at among
        · exact (List.mem_cons.mp among).imp_right (List.mem_cons_of_mem first)
        · split at among
          · exact List.mem_cons.mp among
          · rcases List.mem_cons.mp among with rfl | among
            · exact .inr List.mem_cons_self
            · exact (ih among).imp_right (List.mem_cons_of_mem first)

/-- An object has no other keys than those that were assigned. -/
theorem mem_of_mem_foldl_addKey (among : key ∈ keys.foldl addKey own) : key ∈ own ∨ key ∈ keys := by
  induction keys generalizing own with
  | nil => exact .inl among
  | cons first rest ih =>
      rcases ih among with before | later
      · rcases mem_addKey before with rfl | there
        · exact .inr List.mem_cons_self
        · exact .inl there
      · exact .inr (List.mem_cons_of_mem first later)

theorem insertKey_eq_append (notIndex : arrayIndex key = none)
    (new : key ∉ own) : insertKey key own = own ++ [key] := by
  induction own with
  | nil => rfl
  | cons other rest ih =>
      obtain ⟨different, absent⟩ := not_or.mp (List.mem_cons.not.mp new)
      have behind : precedes key other = false := by simp [precedes, notIndex]
      rw [insertKey, if_neg (Ne.symm different), behind, ih absent]
      rfl

/-- Keys that are no array indices stay in the order in which they were assigned. -/
theorem ownKeys_eq_self (nodup : keys.Nodup)
    (plain : ∀ key ∈ keys, arrayIndex key = none ∧ key ≠ protoKey) : ownKeys keys = keys := by
  have folded : ∀ own, (∀ key ∈ keys, key ∉ own) → keys.foldl addKey own = own ++ keys := by
    induction keys with
    | nil => simp
    | cons key rest ih =>
        intro own new
        obtain ⟨notIndex, notProto⟩ := plain key List.mem_cons_self
        obtain ⟨absent, others⟩ := List.nodup_cons.mp nodup
        rw [List.foldl_cons, addKey, if_neg notProto,
          insertKey_eq_append notIndex (new key List.mem_cons_self),
          ih others (fun other among => plain other (List.mem_cons_of_mem _ among)),
          List.append_assoc]
        · rfl
        · intro other among there
          rcases List.mem_append.mp there with before | last
          · exact new other (List.mem_cons_of_mem _ among) before
          · exact absent (List.mem_singleton.mp last ▸ among)
  exact folded [] fun _ _ => List.not_mem_nil

end

/-! ## What is accepted -/

/-- The pieces of an input: their keys and what stands behind these. -/
def pieces (text : Text) : List (Text × Option Text) := ((inside text).splitOn ',').map splitField

def keys (text : Text) : List Text := (pieces text).map Prod.fst

/-- The bytes of what the input has for a field. -/
def fieldEncoding (idl : Idl) (resolve : ResolveIdlType) (text : Text) (field : Text × IdlType) :
    Except Text Bytes :=
  match (pieces text).find? fun piece => piece.1 = field.1 with
  | none => .error ("Field \x60".toList ++ field.1 ++ "\x60 not listed".toList)
  | some piece => do
      let type ← resolve field.2 idl
      type.toBuffer (← parsePiece type piece.2)

/-- Encodings one after the other, unless one fails. -/
def concatenation (encodings : Except Text (List Bytes)) : Option Bytes :=
  (encodings.map List.flatten).toOption

/-- What is accepted lists each field once and nothing else, and its bytes are those of the fields
in declared order. -/
def ReadsStruct (name : Text) (fields : List (Text × IdlType)) (idl : Idl)
    (resolve : ResolveIdlType) (text : Text) : Prop :=
  ∀ value, (createStructType name fields idl resolve).parse text = .ok value →
    (∀ field ∈ fields, (keys text).count field.1 = 1) ∧
    (∀ key ∈ keys text, ∃ field ∈ fields, field.1 = key) ∧
    ((createStructType name fields idl resolve).toBuffer value).toOption =
      concatenation (fields.mapM (fieldEncoding idl resolve text))

/-- An object with a piece for each field, each with a key that is declared and a value of its
type. -/
structure Listing (fields : List (Text × IdlType)) (idl : Idl) (resolve : ResolveIdlType)
    (text : Text) : Prop where
  braces : isBetween '\x7b' '\x7d' text = true
  count : (pieces text).length = fields.length
  accepts : ∀ piece ∈ pieces text, ∃ field type value, findField fields piece.1 = .ok field ∧
    resolve field.2 idl = .ok type ∧ parsePiece type piece.2 = .ok value

/-- No key comes twice, and the encodings come to the same bytes in the order of the object and in
declared order. -/
structure Ordered (fields : List (Text × IdlType)) (idl : Idl) (resolve : ResolveIdlType)
    (text : Text) : Prop where
  nodup : (keys text).Nodup
  bytes : concatenation ((ownKeys (keys text)).mapM fun key => do
      fieldEncoding idl resolve text (← findField fields key)) =
    concatenation (fields.mapM (fieldEncoding idl resolve text))

/-! ## The object -/

section

variable {name text : Text} {fields : List (Text × IdlType)} {idl : Idl} {resolve : ResolveIdlType}
  {value : Value}

/-- The property that a piece makes. -/
def pieceEntry (fields : List (Text × IdlType)) (idl : Idl) (resolve : ResolveIdlType)
    (piece : Text × Option Text) : Except Text (Text × Value) := do
  let field ← findField fields piece.1
  let value ← parsePiece (← resolve field.2 idl) piece.2
  .ok (piece.1, value)

theorem pieceEntry_eq_ok {piece : Text × Option Text} {entry : Text × Value} :
    pieceEntry fields idl resolve piece = .ok entry ↔ ∃ field type value,
      findField fields piece.1 = .ok field ∧ resolve field.2 idl = .ok type ∧
        parsePiece type piece.2 = .ok value ∧ entry = (piece.1, value) := by
  simp only [pieceEntry, Outcome.bind_ok_iff, Except.ok.injEq]
  constructor
  · rintro ⟨field, found, type, resolved, value, parsed, rfl⟩
    exact ⟨field, type, value, found, resolved, parsed, rfl⟩
  · rintro ⟨field, type, value, found, resolved, parsed, rfl⟩
    exact ⟨field, found, type, resolved, value, parsed, rfl⟩

theorem parseField_eq (result : List (Text × Value)) (input : Text) :
    parseField fields idl resolve result input =
      (pieceEntry fields idl resolve (splitField input)).map fun entry =>
        setProperty entry.1 entry.2 result := by
  simp only [parseField, pieceEntry]
  cases findField fields (splitField input).1 with
  | error error => rfl
  | ok field =>
      simp only [Bind.bind, Except.bind]
      cases resolve field.2 idl with
      | error error => rfl
      | ok type =>
          simp only
          cases parsePiece type (splitField input).2 <;> rfl

theorem foldlM_parseField : ((inside text).splitOn ',').foldlM (parseField fields idl resolve) [] =
    ((pieces text).mapM (pieceEntry fields idl resolve)).map fun entries =>
      entries.foldl (fun result entry => setProperty entry.1 entry.2 result) [] := by
  have steps : parseField fields idl resolve = fun result input =>
      (pieceEntry fields idl resolve (splitField input)).map
        ((fun result entry => setProperty entry.1 entry.2 result) result) := by
    funext result input
    exact parseField_eq result input
  rw [steps, Outcome.foldlM_map_eq, pieces, List.mapM_map]
  rfl

theorem parse_ok_iff : (createStructType name fields idl resolve).parse text = .ok value ↔
    isBetween '\x7b' '\x7d' text = true ∧ (pieces text).length = fields.length ∧
      ∃ entries, (pieces text).mapM (pieceEntry fields idl resolve) = .ok entries ∧
        value = .object (entries.foldl (fun result entry => setProperty entry.1 entry.2 result) []) := by
  have read : (createStructType name fields idl resolve).parse text =
      if !isBetween '\x7b' '\x7d' text then .error "Not an object".toList
      else if ((inside text).splitOn ',').length ≠ fields.length then
        .error "Struct fields do not match".toList
      else (((inside text).splitOn ',').foldlM (parseField fields idl resolve) []).map .object := rfl
  have count : (pieces text).length = ((inside text).splitOn ',').length := List.length_map _
  rw [read, foldlM_parseField, count]
  cases isBetween '\x7b' '\x7d' text with
  | false => simp
  | true =>
      by_cases match_ : ((inside text).splitOn ',').length = fields.length
      · cases (pieces text).mapM (pieceEntry fields idl resolve) with
        | error error => simp [match_, Except.map]
        | ok entries => simp [match_, Except.map, eq_comm]
      · simp [match_]

/-- What is accepted is a listing. -/
theorem listing_iff (name : Text) : Listing fields idl resolve text ↔
    ∃ value, (createStructType name fields idl resolve).parse text = .ok value := by
  simp only [parse_ok_iff]
  constructor
  · intro listing
    obtain ⟨entries, all⟩ := Outcome.exists_mapM_ok.mpr fun piece among => by
      obtain ⟨field, type, value, both⟩ := listing.accepts piece among
      exact ⟨_, pieceEntry_eq_ok.mpr ⟨field, type, value, both.1, both.2.1, both.2.2, rfl⟩⟩
    exact ⟨_, listing.braces, listing.count, entries, all, rfl⟩
  · rintro ⟨_, braces, count, entries, all, -⟩
    refine ⟨braces, count, fun piece among => ?_⟩
    obtain ⟨entry, made⟩ := Outcome.exists_mapM_ok.mp ⟨entries, all⟩ piece among
    obtain ⟨field, type, value, found, resolved, parsed, -⟩ := pieceEntry_eq_ok.mp made
    exact ⟨field, type, value, found, resolved, parsed⟩

theorem findField_eq_ok {key : Text} {field : Text × IdlType}
    (found : findField fields key = .ok field) : field ∈ fields ∧ field.1 = key := by
  unfold findField at found
  split at found
  · cases found
  · next candidate among =>
    cases found
    exact ⟨List.mem_of_find?_eq_some among, by simpa using List.find?_some among⟩

/-- Each key is declared. -/
theorem Listing.declared (listing : Listing fields idl resolve text) :
    ∀ key ∈ keys text, ∃ field ∈ fields, field.1 = key := by
  intro key among
  obtain ⟨piece, member, rfl⟩ := List.mem_map.mp among
  obtain ⟨field, -, -, found, -⟩ := listing.accepts piece member
  exact ⟨field, findField_eq_ok found⟩

/-- As many keys as fields, and all of them declared: none comes twice exactly when each field is
listed once. -/
theorem Listing.nodup_iff (listing : Listing fields idl resolve text) :
    (keys text).Nodup ↔ ∀ field ∈ fields, (keys text).count field.1 = 1 := by
  constructor
  · intro nodup field among
    have subset : keys text ⊆ fields.map Prod.fst := by
      intro key member
      obtain ⟨declared, there, rfl⟩ := listing.declared key member
      exact List.mem_map_of_mem there
    have length : (fields.map Prod.fst).length ≤ (keys text).length := by
      rw [List.length_map, keys, List.length_map, listing.count]
    have same := (nodup.subperm subset).perm_of_length_le length
    exact List.count_eq_one_of_mem nodup (same.mem_iff.mpr (List.mem_map_of_mem among))
  · intro once
    rw [List.nodup_iff_count_le_one]
    intro key
    by_cases among : key ∈ keys text
    · obtain ⟨field, member, rfl⟩ := listing.declared key among
      exact (once field member).le
    · simp [List.count_eq_zero_of_not_mem among]

/-- Where no key comes twice, each entry is found by its key. -/
theorem find?_of_mem {α : Type} {entries : List (Text × α)} {entry : Text × α}
    (distinct : (entries.map Prod.fst).Nodup) (among : entry ∈ entries) :
    entries.find? (fun other => other.1 = entry.1) = some entry := by
  induction entries with
  | nil => cases among
  | cons first rest ih =>
      obtain ⟨new, others⟩ := List.nodup_cons.mp distinct
      rcases List.mem_cons.mp among with rfl | among
      · exact List.find?_cons_of_pos (by simp)
      · have other : ¬ first.1 = entry.1 := fun same => new (same ▸ List.mem_map_of_mem among)
        rw [List.find?_cons_of_neg (by simpa using other), ih others among]

theorem keys_of_mapM {entries : List (Text × Value)}
    (all : (pieces text).mapM (pieceEntry fields idl resolve) = .ok entries) :
    entries.map Prod.fst = keys text := by
  have paired := Outcome.mapM_eq_ok_iff.mp all
  rw [keys]
  generalize pieces text = listed at paired
  clear all
  induction paired with
  | nil => rfl
  | cons made _ ih =>
      obtain ⟨_, _, _, -, -, -, rfl⟩ := pieceEntry_eq_ok.mp made
      rw [List.map_cons, List.map_cons, ih]

/-- What is serialized under a key is what the piece with this key says. -/
theorem fieldToBuffer_eq {entries : List (Text × Value)} {key : Text} {held : Text → Value}
    (nodup : (keys text).Nodup)
    (all : (pieces text).mapM (pieceEntry fields idl resolve) = .ok entries)
    (same : ∀ entry ∈ entries, held entry.1 = entry.2) (among : key ∈ keys text) :
    fieldToBuffer fields idl resolve (key, held key) = (do
      fieldEncoding idl resolve text (← findField fields key)) := by
  obtain ⟨piece, member, rfl⟩ := List.mem_map.mp among
  obtain ⟨entry, made, there⟩ := Outcome.exists_of_mapM_ok all member
  obtain ⟨field, type, value, found, resolved, parsed, rfl⟩ := pieceEntry_eq_ok.mp there
  have listed : (pieces text).find? (fun other => other.1 = field.1) = some piece := by
    rw [(findField_eq_ok found).2]
    exact find?_of_mem nodup member
  have serialized : held piece.1 = value := same _ made
  calc fieldToBuffer fields idl resolve (piece.1, held piece.1)
      = type.toBuffer value := by
        simp only [fieldToBuffer, found, Bind.bind, Except.bind, resolved, serialized]
    _ = _ := by
        simp only [found, Bind.bind, Except.bind, fieldEncoding, listed, resolved, parsed]

/-- The bytes of the object that a listing without a repetition makes are the encodings of its
fields in the order of its keys. -/
theorem toBuffer_toOption (nodup : (keys text).Nodup)
    (parsed : (createStructType name fields idl resolve).parse text = .ok value) :
    ((createStructType name fields idl resolve).toBuffer value).toOption =
      concatenation ((ownKeys (keys text)).mapM fun key => do
        fieldEncoding idl resolve text (← findField fields key)) := by
  obtain ⟨-, -, entries, all, rfl⟩ := parse_ok_iff.mp parsed
  let held (key : Text) : Value := ((entries.find? fun entry => entry.1 = key).map Prod.snd).getD .null
  have same : ∀ entry ∈ entries, held entry.1 = entry.2 := by
    intro entry among
    have distinct : (entries.map Prod.fst).Nodup := by rwa [keys_of_mapM all]
    simp only [held, find?_of_mem distinct among, Option.map_some, Option.getD_some]
  have object : entries.foldl (fun result entry => setProperty entry.1 entry.2 result) [] =
      (ownKeys (keys text)).map fun key => (key, held key) := by
    rw [← keys_of_mapM all]
    exact foldl_setProperty [] same
  have bytes : ((ownKeys (keys text)).map fun key => (key, held key)).mapM
      (fieldToBuffer fields idl resolve) = (ownKeys (keys text)).mapM (fun key => do
        fieldEncoding idl resolve text (← findField fields key)) := by
    rw [List.mapM_map]
    refine Outcome.mapM_congr fun key among => ?_
    have member := (mem_of_mem_foldl_addKey among).resolve_left List.not_mem_nil
    exact fieldToBuffer_eq nodup all same member
  rw [object, ← bytes]
  rfl

theorem findField_of_mem {field : Text × IdlType} (distinct : (fields.map Prod.fst).Nodup)
    (among : field ∈ fields) : findField fields field.1 = .ok field := by
  rw [findField, find?_of_mem distinct among]

/-- Fields that are listed as they are declared are read as they should be. -/
theorem ordered_of_declared (same : keys text = fields.map Prod.fst) (nodup : (keys text).Nodup)
    (plain : ∀ key ∈ keys text, arrayIndex key = none ∧ key ≠ protoKey) :
    Ordered fields idl resolve text where
  nodup := nodup
  bytes := by
    rw [ownKeys_eq_self nodup plain, same, List.mapM_map]
    refine congrArg concatenation (Outcome.mapM_congr fun field among => ?_)
    rw [Function.comp_apply, findField_of_mem (same ▸ nodup) among]
    rfl

/-- A struct reads an input as it should exactly when an input that it accepts repeats no key and
lists the fields in an order that comes to the declared one. -/
theorem readsStruct_iff : ReadsStruct name fields idl resolve text ↔
    (Listing fields idl resolve text → Ordered fields idl resolve text) := by
  constructor
  · intro reads listing
    obtain ⟨value, parsed⟩ := (listing_iff name).mp listing
    obtain ⟨once, -, bytes⟩ := reads value parsed
    have nodup := listing.nodup_iff.mpr once
    exact ⟨nodup, (toBuffer_toOption nodup parsed).symm.trans bytes⟩
  · intro ordered value parsed
    have listing := (listing_iff name).mpr ⟨value, parsed⟩
    obtain ⟨nodup, bytes⟩ := ordered listing
    exact ⟨listing.nodup_iff.mp nodup, listing.declared,
      (toBuffer_toOption nodup parsed).trans bytes⟩

end

/-- Two bytes that are listed in the other order are serialized in that order. -/
theorem not_always_readsStruct :
    ¬ ∀ (name : Text) (fields : List (Text × IdlType)) (idl : Idl) (resolve : ResolveIdlType)
      (text : Text), ReadsStruct name fields idl resolve text := by
  intro reads
  obtain ⟨-, -, bytes⟩ := reads "Pair".toList
    [("a".toList, .primitive "u8".toList), ("b".toList, .primitive "u8".toList)] []
    (fun _ _ => .ok u8) "\x7b b: 1, a: 2 \x7d".toList
    (.object [("b".toList, .number (some 1)), ("a".toList, .number (some 2))]) rfl
  exact absurd bytes (by decide)

end Solpg.Client.Utils
