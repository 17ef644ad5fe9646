import Solpg.Playnet.Reload

/-!
# Restoring from any text

`PgBank::new` is given whatever text the browser has kept. `serde_json` reads it
member by member and the visitor that is derived for `PgBank` takes each member
up at once, so what comes later in the text is not looked at before the custom
functions of `serde.rs` have run.
-/

namespace Solpg.Playnet.Runtime

open Solpg.Std

/-! ## The text -/

/-- What a value of the text reads as, for each of the types that it can be asked
for. A reading that fails is `none`. -/
structure JsonValue where
  /-- `HashMap<String, Account>`. -/
  accounts : Option (List (String × Account))
  /-- `u64`. -/
  number : Option Nat
  hash : Option Hash
  /-- `Vec<u8>`. -/
  bytes : Option (List UInt8)
  /-- `IgnoredAny`. -/
  ignored : Bool

/-- A text up to the first place that is no JSON. `closed` says that there is none
and that nothing follows. -/
inductive JsonText where
  | object (members : List (String × JsonValue)) (closed : Bool)
  | array (items : List JsonValue) (closed : Bool)
  | other

/-! ## The derived visitor -/

/-- The fields of `PgBank` that are not skipped. -/
inductive Field where
  | accounts
  | slot
  | blockHeight
  | genesisHash
  | latestBlockhash
  | airdropKp
  deriving DecidableEq

namespace Field

/-- In the order of the struct. -/
def all : List Field := [accounts, slot, blockHeight, genesisHash, latestBlockhash, airdropKp]

/-- The name of a field in the saved text. -/
def name : Field → String
  | accounts => "accounts"
  | slot => "slot"
  | blockHeight => "block_height"
  | genesisHash => "genesis_hash"
  | latestBlockhash => "latest_blockhash"
  | airdropKp => "airdrop_kp"

/-- The field that a key stands for. Every other key is ignored. -/
def ofName (key : String) : Option Field := all.find? fun field => field.name = key

/-- The type of a field. -/
abbrev Value : Field → Type
  | accounts => BankAccounts
  | slot => Nat
  | blockHeight => Nat
  | genesisHash => Hash
  | latestBlockhash => Hash
  | airdropKp => Keypair

end Field

/-- The fields that have been read. -/
abbrev Fields := (field : Field) → Option field.Value

/-- No field has been read. -/
def Fields.none : Fields := fun _ => Option.none

/-- A missing field is an error. -/
def Fields.complete (fields : Fields) : Option SaveData := do
  return {
    accounts := ← fields .accounts
    slot := ← fields .slot
    blockHeight := ← fields .blockHeight
    genesisHash := ← fields .genesisHash
    latestBlockhash := ← fields .latestBlockhash
    airdropKp := ← fields .airdropKp }

namespace SaveFormat

variable (format : SaveFormat)

/-- A value that is read with a custom function, which may panic. -/
def readWith {α β : Type} (read : α → Call β) : Option α → Call (Option β)
  | some value =>
      match read value with
      | .returned result => .returned (some result)
      | .panicked => .panicked
  | none => .returned none

/-- `next_value` for a field. `returned none` is an error. -/
def readField : (field : Field) → JsonValue → Call (Option field.Value)
  | .accounts, value => readWith format.deserializeAccounts value.accounts
  | .slot, value => .returned value.number
  | .blockHeight, value => .returned value.number
  | .genesisHash, value => .returned value.hash
  | .latestBlockhash, value => .returned value.hash
  | .airdropKp, value => readWith format.deserializeKeypair value.bytes

/-- One member. A field that was read before is a duplicate. -/
def visitMember (fields : Fields) (member : String × JsonValue) : Call (Option Fields) :=
  match Field.ofName member.1 with
  | none => .returned (if member.2.ignored then some fields else none)
  | some field =>
      if (fields field).isSome then .returned none
      else
        match format.readField field member.2 with
        | .returned (some value) => .returned (some (Function.update fields field (some value)))
        | .returned none => .returned none
        | .panicked => .panicked

/-- The loop over the members of the saved object. -/
def visitMembers (fields : Fields) : List (String × JsonValue) → Call (Option Fields)
  | [] => .returned (some fields)
  | member :: rest =>
      match format.visitMember fields member with
      | .returned (some fields) => visitMembers fields rest
      | .returned none => .returned none
      | .panicked => .panicked

end SaveFormat

namespace JsonText

/-- The members that the visitor is handed. The items of an array are the fields in
the order of the struct, and items past the last field are left over. -/
def members : JsonText → List (String × JsonValue)
  | object members _ => members
  | array items _ => (Field.all.map Field.name).zip items
  | other => []

/-- Whether reading ends without an error once every field is there. -/
def ends : JsonText → Bool
  | object _ closed => closed
  | array items closed => closed && items.length ≤ Field.all.length
  | other => false

end JsonText

namespace SaveFormat

variable (format : SaveFormat)

/-- `serde_json::from_str::<PgBank>`. -/
def fromStr (text : JsonText) : Call (Option SaveData) :=
  match format.visitMembers Fields.none text.members with
  | .returned (some fields) => .returned (if text.ends then fields.complete else none)
  | .returned none => .returned none
  | .panicked => .panicked

/-- `PgBank::new` with a text, which is read by `serde_json`. -/
def restore (parse : String → JsonText) (sdk : Sdk) (keypair : Keypair) (text : String) :
    Call PgBank :=
  match format.fromStr (parse text) with
  | .returned saved => .returned (PgBank.new sdk keypair saved)
  | .panicked => .panicked

/-! ## Where a reading panics -/

/-- A value whose custom function panics: accounts under a text that is no key, or
bytes that are no keypair. -/
def Undecodable : Field → JsonValue → Prop
  | .accounts, value => ∃ accounts, value.accounts = some accounts ∧
      ∃ member ∈ accounts, format.pubkeyFromStr member.1 = none
  | .airdropKp, value => ∃ bytes, value.bytes = some bytes ∧ format.keypairFromBytes bytes = none
  | _, _ => False

variable {format}

/-- The accounts panic on a key that cannot be decoded. -/
theorem insertMembers_panicked {members : List (String × Account)} {accounts : BankAccounts} :
    format.insertMembers accounts members = .panicked ↔
      ∃ member ∈ members, format.pubkeyFromStr member.1 = none := by
  induction members generalizing accounts with
  | nil => simp [insertMembers]
  | cons member rest ih =>
      cases key : format.pubkeyFromStr member.1 <;> simp [insertMembers, key, ih]

/-- The hash map in between keeps every text. -/
theorem deserializeAccounts_panicked {members : List (String × Account)} :
    format.deserializeAccounts members = .panicked ↔
      ∃ member ∈ members, format.pubkeyFromStr member.1 = none := by
  rw [deserializeAccounts, insertMembers_panicked]
  have texts : ∀ text, text ∈ (format.memberOrder.entries
      (FiniteMap.insertAll ∅ members)).map Prod.fst ↔ text ∈ members.map Prod.fst := by
    intro text
    rw [FiniteMap.Iteration.mem_keys, FiniteMap.isSome_lookup_insertAll]
  constructor
  · rintro ⟨member, visited, undecodable⟩
    obtain ⟨other, written, same⟩ :=
      List.mem_map.mp ((texts member.1).mp (List.mem_map_of_mem visited))
    exact ⟨other, written, same ▸ undecodable⟩
  · rintro ⟨member, written, undecodable⟩
    obtain ⟨other, visited, same⟩ :=
      List.mem_map.mp ((texts member.1).mpr (List.mem_map_of_mem written))
    exact ⟨other, visited, same ▸ undecodable⟩

/-- The keypair panics on bytes that are none. -/
theorem deserializeKeypair_panicked {bytes : List UInt8} :
    format.deserializeKeypair bytes = .panicked ↔ format.keypairFromBytes bytes = none := by
  cases keypair : format.keypairFromBytes bytes <;> simp [deserializeKeypair, keypair]

/-- A field panics where its value does. -/
theorem readWith_panicked {α β : Type} {read : α → Call β} {value : Option α} :
    readWith read value = .panicked ↔ ∃ found, value = some found ∧ read found = .panicked := by
  cases value with
  | none => simp [readWith]
  | some found => cases result : read found <;> simp [readWith, result]

/-- A field panics on what cannot be decoded. -/
theorem readField_panicked {field : Field} {value : JsonValue} :
    format.readField field value = .panicked ↔ format.Undecodable field value := by
  cases field with
  | accounts => simp only [readField, readWith_panicked, deserializeAccounts_panicked, Undecodable]
  | airdropKp => simp only [readField, readWith_panicked, deserializeKeypair_panicked, Undecodable]
  | _ => simp [readField, Undecodable]

/-! ## What the members give -/

/-- The values of a field among the members. -/
def occurrences (field : Field) (members : List (String × JsonValue)) : List JsonValue :=
  (members.filter fun member => Field.ofName member.1 = some field).map Prod.snd

variable (format) in
/-- What a field has after its values were read: at most one, and none if it was
there before. -/
def Holds (field : Field) (before : Option field.Value) : List JsonValue → Option field.Value → Prop
  | [], after => after = before
  | [value], after => before = none ∧ after.isSome ∧ format.readField field value = .returned after
  | _ :: _ :: _, _ => False

/-- Members that nothing is read from are well formed. -/
def OthersIgnored (members : List (String × JsonValue)) : Prop :=
  ∀ member ∈ members, Field.ofName member.1 = none → member.2.ignored = true

/-- A member is ignored, or fills a field that was empty. -/
theorem visitMember_some {fields after : Fields} {member : String × JsonValue} :
    format.visitMember fields member = .returned (some after) ↔
      (Field.ofName member.1 = none ∧ member.2.ignored = true ∧ after = fields) ∨
      ∃ field value, Field.ofName member.1 = some field ∧ fields field = none ∧
        format.readField field member.2 = .returned (some value) ∧
        after = Function.update fields field (some value) := by
  cases known : Field.ofName member.1 with
  | none =>
      by_cases ignored : member.2.ignored
      · simp [visitMember, known, ignored, Eq.comm (a := after)]
      · simp [visitMember, known, ignored]
  | some field =>
      cases held : fields field with
      | some value => simp [visitMember, known, held]
      | none =>
          rcases read : format.readField field member.2 with (_ | value) | _ <;>
            simp [visitMember, known, held, read, Eq.comm (a := after)]

/-- A member panics where it fills an empty field with what cannot be decoded. -/
theorem visitMember_panicked {fields : Fields} {member : String × JsonValue} :
    format.visitMember fields member = .panicked ↔
      ∃ field, Field.ofName member.1 = some field ∧ fields field = none ∧
        format.Undecodable field member.2 := by
  cases known : Field.ofName member.1 with
  | none => simp [visitMember, known]
  | some field =>
      cases held : fields field with
      | some value => simp [visitMember, known, held]
      | none =>
          rw [visitMember, known]
          simp only [held, Option.isSome_none, Bool.false_eq_true, if_false, Option.some.injEq,
            exists_eq_left', true_and, ← readField_panicked]
          rcases read : format.readField field member.2 with (_ | value) | _ <;> simp

/-- The occurrences of a field among the members. -/
theorem occurrences_cons (field : Field) (member : String × JsonValue)
    (rest : List (String × JsonValue)) :
    occurrences field (member :: rest) =
      if Field.ofName member.1 = some field then member.2 :: occurrences field rest
      else occurrences field rest := by
  by_cases here : Field.ofName member.1 = some field <;> simp [occurrences, here]

/-- A field is filled by one occurrence. -/
theorem holds_cons {field : Field} {before after : Option field.Value} {value : JsonValue}
    {rest : List JsonValue} :
    format.Holds field before (value :: rest) after ↔ before = none ∧
      ∃ found, format.readField field value = .returned (some found) ∧
        format.Holds field (some found) rest after := by
  match rest with
  | [] =>
      simp only [Holds]
      constructor
      · rintro ⟨fresh, present, read⟩
        obtain ⟨found, rfl⟩ := Option.isSome_iff_exists.mp present
        exact ⟨fresh, found, read, rfl⟩
      · rintro ⟨fresh, found, read, rfl⟩
        exact ⟨fresh, rfl, read⟩
  | [_] => simp [Holds]
  | _ :: _ :: _ => simp [Holds]

/-- The loop visits the first member and then the others. -/
theorem visitMembers_cons {fields after : Fields} {member : String × JsonValue}
    {rest : List (String × JsonValue)} :
    format.visitMembers fields (member :: rest) = .returned (some after) ↔
      ∃ next, format.visitMember fields member = .returned (some next) ∧
        format.visitMembers next rest = .returned (some after) := by
  rw [visitMembers]
  rcases format.visitMember fields member with (_ | next) | _ <;> simp

/-- The visitor gets through the members exactly when each field occurs at most once
and can be read. -/
theorem visitMembers_some {fields after : Fields} {members : List (String × JsonValue)} :
    format.visitMembers fields members = .returned (some after) ↔
      OthersIgnored members ∧
        ∀ field, format.Holds field (fields field) (occurrences field members) (after field) := by
  induction members generalizing fields with
  | nil =>
      simp only [visitMembers, OthersIgnored, occurrences, Holds, Call.returned.injEq,
        Option.some.injEq, List.not_mem_nil, false_imp_iff, implies_true, true_and, List.filter_nil,
        List.map_nil]
      exact ⟨fun same field => same ▸ rfl, fun same => funext fun field => (same field).symm⟩
  | cons member rest ih =>
      simp only [visitMembers_cons, visitMember_some, ih]
      cases known : Field.ofName member.1 with
      | none =>
          have same : ∀ field, occurrences field (member :: rest) = occurrences field rest := by
            intro field
            rw [occurrences_cons, known, if_neg nofun]
          simp [OthersIgnored, known, same, and_assoc]
      | some field =>
          have here : occurrences field (member :: rest) =
              member.2 :: occurrences field rest := by
            rw [occurrences_cons, if_pos known]
          have elsewhere : ∀ other, other ≠ field →
              occurrences other (member :: rest) = occurrences other rest := by
            intro other different
            rw [occurrences_cons, known, if_neg (fun same => different (Option.some.inj same).symm)]
          have others : OthersIgnored (member :: rest) ↔ OthersIgnored rest := by
            simp [OthersIgnored, known]
          rw [others]
          constructor
          · rintro ⟨_, ⟨⟨⟩, -⟩ | ⟨_, value, ⟨⟩, fresh, read, rfl⟩, ignored, holds⟩
            refine ⟨ignored, fun other => ?_⟩
            by_cases same : other = field
            · subst same
              rw [here, holds_cons]
              have later := holds other
              rw [Function.update_self] at later
              exact ⟨fresh, value, read, later⟩
            · have later := holds other
              rw [Function.update_of_ne same] at later
              rw [elsewhere other same]
              exact later
          · rintro ⟨ignored, holds⟩
            have first := holds field
            rw [here, holds_cons] at first
            obtain ⟨fresh, value, read, later⟩ := first
            refine ⟨_, .inr ⟨field, value, rfl, fresh, read, rfl⟩, ignored, fun other => ?_⟩
            by_cases same : other = field
            · subst same
              rw [Function.update_self]
              exact later
            · rw [Function.update_of_ne same, ← elsewhere other same]
              exact holds other

/-- The first member whose value panics, if the members before it can be read. -/
theorem visitMembers_panicked {fields : Fields} {members : List (String × JsonValue)} :
    format.visitMembers fields members = .panicked ↔
      ∃ before member rest next, members = before ++ member :: rest ∧
        format.visitMembers fields before = .returned (some next) ∧
        format.visitMember next member = .panicked := by
  induction members generalizing fields with
  | nil => simp [visitMembers]
  | cons first others ih =>
      constructor
      · intro panics
        rw [visitMembers] at panics
        rcases step : format.visitMember fields first with (_ | next) | _
        · simp [step] at panics
        · rw [step] at panics
          obtain ⟨before, member, rest, after, rfl, gets, here⟩ := ih.mp panics
          exact ⟨first :: before, member, rest, after, rfl,
            visitMembers_cons.mpr ⟨next, step, gets⟩, here⟩
        · exact ⟨[], first, others, fields, rfl, rfl, step⟩
      · rintro ⟨before, member, rest, after, split, gets, here⟩
        rw [visitMembers]
        cases before with
        | nil =>
            obtain ⟨rfl, -⟩ := List.cons.inj split
            cases gets
            rw [here]
        | cons other before =>
            obtain ⟨rfl, rfl⟩ := List.cons.inj split
            obtain ⟨next, step, later⟩ := visitMembers_cons.mp gets
            rw [step]
            exact ih.mpr ⟨before, member, rest, after, rfl, later, here⟩

/-! ## Restoring -/

end SaveFormat

/-- The field of the save data. -/
def SaveData.get (data : SaveData) : (field : Field) → field.Value
  | .accounts => data.accounts
  | .slot => data.slot
  | .blockHeight => data.blockHeight
  | .genesisHash => data.genesisHash
  | .latestBlockhash => data.latestBlockhash
  | .airdropKp => data.airdropKp

/-- All fields together are the saved data. -/
theorem Fields.complete_some {fields : Fields} {data : SaveData} :
    fields.complete = some data ↔ ∀ field, fields field = some (data.get field) := by
  constructor
  · intro complete field
    simp only [Fields.complete, Option.bind_eq_bind, Option.pure_def, Option.bind_eq_some_iff,
      Option.some.injEq] at complete
    obtain ⟨accounts, hasAccounts, slot, hasSlot, blockHeight, hasHeight, genesisHash, hasGenesis,
      latestBlockhash, hasLatest, airdropKp, hasKeypair, rfl⟩ := complete
    cases field
    · exact hasAccounts
    · exact hasSlot
    · exact hasHeight
    · exact hasGenesis
    · exact hasLatest
    · exact hasKeypair
  · intro has
    rw [Fields.complete, has .accounts, has .slot, has .blockHeight, has .genesisHash,
      has .latestBlockhash, has .airdropKp]
    rfl

namespace SaveFormat

variable (format : SaveFormat)

/-- A valid save: JSON with each field once, read as the data has it, and nothing
malformed besides. -/
structure ValidSave (text : JsonText) (data : SaveData) : Prop where
  ends : text.ends = true
  fields : ∀ field, ∃ value, occurrences field text.members = [value] ∧
    format.readField field value = .returned (some (data.get field))
  others : OthersIgnored text.members

/-- A field that the visitor reaches: all members before it can be read, and none of
them is that field. -/
def Reaches (text : JsonText) (field : Field) (value : JsonValue) : Prop :=
  ∃ before name rest, text.members = before ++ (name, value) :: rest ∧
    Field.ofName name = some field ∧ occurrences field before = [] ∧ OthersIgnored before ∧
    ∀ other, occurrences other before = [] ∨
      ∃ read found, occurrences other before = [read] ∧
        format.readField other read = .returned (some found)

/-- The bank of a valid save is restored, and any other text gives the default bank. -/
def Robust (parse : String → JsonText) (sdk : Sdk) (keypair : Keypair) (text : String) : Prop :=
  (∀ data, format.ValidSave (parse text) data →
      format.restore parse sdk keypair text = .returned (PgBank.new sdk keypair (some data))) ∧
    ((∀ data, ¬format.ValidSave (parse text) data) →
      format.restore parse sdk keypair text = .returned (PgBank.new sdk keypair none))

variable {format}

/-- An empty field stays so or is filled once. -/
theorem holds_none {field : Field} {values : List JsonValue} {after : Option field.Value} :
    format.Holds field none values after ↔ (values = [] ∧ after = none) ∨
      ∃ value found, values = [value] ∧ format.readField field value = .returned (some found) ∧
        after = some found := by
  match values with
  | [] => simp [Holds]
  | [value] =>
      rw [holds_cons]
      simp [Holds]
  | _ :: _ :: _ => simp [Holds]

/-- What is restored are the valid saves. -/
theorem fromStr_some {text : JsonText} {data : SaveData} :
    format.fromStr text = .returned (some data) ↔ format.ValidSave text data := by
  constructor
  · intro read
    rw [fromStr] at read
    rcases visited : format.visitMembers Fields.none text.members with (_ | fields) | _
    · simp [visited] at read
    · rw [visited] at read
      by_cases ends : text.ends = true
      · have complete : fields.complete = some data := by simpa [ends] using read
        obtain ⟨others, holds⟩ := visitMembers_some.mp visited
        refine ⟨ends, fun field => ?_, others⟩
        have here := holds field
        rw [Fields.none, Fields.complete_some.mp complete field, holds_none] at here
        rcases here with ⟨-, ⟨⟩⟩ | ⟨value, _, once, reads, ⟨⟩⟩
        exact ⟨value, once, reads⟩
      · simp [ends] at read
    · simp [visited] at read
  · rintro ⟨ends, fields, others⟩
    have visited : format.visitMembers Fields.none text.members =
        .returned (some fun field => some (data.get field)) := by
      refine visitMembers_some.mpr ⟨others, fun field => ?_⟩
      obtain ⟨value, once, reads⟩ := fields field
      exact holds_none.mpr (.inr ⟨value, data.get field, once, reads, rfl⟩)
    rw [fromStr, visited]
    simp only [ends, if_true]
    rw [Fields.complete_some.mpr fun _ => rfl]

/-- The text panics where it reaches a field that cannot be decoded. -/
theorem fromStr_panicked {text : JsonText} :
    format.fromStr text = .panicked ↔
      ∃ field value, format.Reaches text field value ∧ format.Undecodable field value := by
  have panics : format.fromStr text = .panicked ↔
      format.visitMembers Fields.none text.members = .panicked := by
    rw [fromStr]
    rcases format.visitMembers Fields.none text.members with (_ | fields) | _ <;> simp
  rw [panics, visitMembers_panicked]
  constructor
  · rintro ⟨before, ⟨name, value⟩, rest, fields, split, visited, here⟩
    obtain ⟨field, known, fresh, undecodable⟩ := visitMember_panicked.mp here
    obtain ⟨others, holds⟩ := visitMembers_some.mp visited
    refine ⟨field, value, ⟨before, name, rest, split, known, ?_, others, ?_⟩, undecodable⟩
    · rcases holds_none.mp (holds field) with ⟨absent, -⟩ | ⟨_, _, -, -, held⟩
      · exact absent
      · rw [fresh] at held
        cases held
    · intro other
      rcases holds_none.mp (holds other) with ⟨absent, -⟩ | ⟨read, found, once, reads, -⟩
      · exact .inl absent
      · exact .inr ⟨read, found, once, reads⟩
  · rintro ⟨field, value, ⟨before, name, rest, split, known, absent, others, once⟩, undecodable⟩
    have values : ∀ other : Field, ∃ after : Option other.Value,
        format.Holds other none (occurrences other before) after := by
      intro other
      rcases once other with none | ⟨read, found, one, reads⟩
      · exact ⟨_, holds_none.mpr (.inl ⟨none, rfl⟩)⟩
      · exact ⟨_, holds_none.mpr (.inr ⟨read, found, one, reads, rfl⟩)⟩
    choose fields holds using values
    refine ⟨before, (name, value), rest, fields, split,
      visitMembers_some.mpr ⟨others, holds⟩, visitMember_panicked.mpr ⟨field, known, ?_, undecodable⟩⟩
    have here := holds field
    rw [absent] at here
    exact here

/-- Restoring is robust unless the visitor reaches a key or a keypair that cannot be
decoded. -/
theorem robust_iff (format : SaveFormat) (parse : String → JsonText) (sdk : Sdk)
    (keypair : Keypair) (text : String) :
    format.Robust parse sdk keypair text ↔
      ∀ field value, format.Reaches (parse text) field value →
        ¬format.Undecodable field value := by
  constructor
  · rintro ⟨-, default⟩ field value reaches undecodable
    have panics : format.fromStr (parse text) = .panicked :=
      fromStr_panicked.mpr ⟨field, value, reaches, undecodable⟩
    have invalid : ∀ data, ¬format.ValidSave (parse text) data := by
      intro data valid
      rw [fromStr_some.mpr valid] at panics
      cases panics
    have returned := default invalid
    rw [restore, panics] at returned
    cases returned
  · intro decodable
    refine ⟨fun data valid => ?_, fun invalid => ?_⟩
    · rw [restore, fromStr_some.mpr valid]
    · cases read : format.fromStr (parse text) with
      | returned saved =>
          cases saved with
          | none => rw [restore, read]
          | some data => exact absurd (fromStr_some.mp read) (invalid data)
      | panicked =>
          obtain ⟨field, value, reaches, undecodable⟩ := fromStr_panicked.mp read
          exact absurd undecodable (decodable field value reaches)

/-- No bytes at all are no keypair. -/
theorem exists_saveFormat_nil : ∃ format : SaveFormat, format.keypairFromBytes [] = none := by
  obtain ⟨format⟩ := PgBank.exists_saveFormat
  exact ⟨{ format with
    keypairToBytes := fun keypair => 0 :: format.keypairToBytes keypair
    keypairFromBytes := fun bytes =>
      if bytes = [] then none else format.keypairFromBytes bytes.tail
    keypairFromBytes_toBytes := format.keypairFromBytes_toBytes }, rfl⟩

/-- An empty array is no map, no number and no hash. -/
def emptyArray : JsonValue where
  accounts := none
  number := none
  hash := none
  bytes := some []
  ignored := true

/-- The text of `not_always_robust`, as `serde_json` reads it. -/
def emptyKeypair : JsonText := .object [("airdrop_kp", emptyArray)] true

/-- A keypair of no bytes makes `PgBank::new` panic. -/
theorem not_always_robust :
    ¬∀ (format : SaveFormat) (parse : String → JsonText) (sdk : Sdk) (keypair : Keypair),
      parse "\x7b\"airdrop_kp\":[]\x7d" = emptyKeypair → format.keypairFromBytes [] = none →
        format.Robust parse sdk keypair "\x7b\"airdrop_kp\":[]\x7d" := by
  intro robust
  obtain ⟨format, undecodable⟩ := exists_saveFormat_nil
  have holds := robust format (fun _ => emptyKeypair) transferSdk ⟨sampleKey 1, []⟩ rfl undecodable
  have reached : format.Reaches emptyKeypair .airdropKp emptyArray :=
    ⟨[], "airdrop_kp", [], rfl, rfl, rfl, nofun, fun _ => .inl rfl⟩
  exact (robust_iff ..).mp holds .airdropKp emptyArray reached ⟨[], rfl, undecodable⟩

end SaveFormat
end Solpg.Playnet.Runtime
