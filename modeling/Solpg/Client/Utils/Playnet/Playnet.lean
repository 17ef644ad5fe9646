import Solpg.Client.Utils.Playnet.RpcResponse
import Solpg.Std.Table

/-!
# Lifecycle of the playnet

`init` creates an instance from the save file, `destroy` saves and frees it, and an
interval saves it in between. Nobody waits for `init` or `destroy`, so other calls
run at each of their awaits, and a caller may use the RPC of an instance for longer
than it lives. A bank that comes out of this is that of a ledger: created once,
changed by requests alone, and saved and created again between two of them.
-/

namespace Solpg.Client.Utils

open Solpg.Std
open Solpg.Playnet
open Solpg.Playnet.Runtime

/-! ## Initializing, saving and destroying -/

/-- Where `init` waits: for the save file, or for the package with what it read. -/
inductive PgPlaynet.Init where
  | reading
  | importing (saveData : Option SaveData)

/-- A `_save` that waits for its write, and whether `destroy` waits for it. -/
structure PgPlaynet.Save where
  data : SaveData
  destroys : Bool

/-- An instance is named by the place of its bank. Its RPC shares the bank, which
`free` does not take from a caller who still has the RPC. An interval has the name
of the instance whose `init` set it. -/
structure PgPlaynet where
  saveFile : Option SaveData
  banks : List PgBank := []
  playnet : Option Nat := none
  connection : Option Nat := none
  intervals : List Nat := []
  saveIntervalId : Option Nat := none
  inits : List PgPlaynet.Init := []
  saves : List PgPlaynet.Save := []
  /-- What was requested of any instance. The code keeps no such list. -/
  requests : List RpcRequest := []

namespace PgPlaynet

variable (runtime : ProgramRuntime) (self : PgPlaynet)

/-- `_save` until its write. -/
def save (destroys : Bool) : PgPlaynet :=
  match self.playnet.bind fun index => self.banks[index]? with
  | none => self
  | some bank => { self with saves := self.saves ++ [⟨bank.getSaveData, destroys⟩] }

/-- `clearInterval`, which ignores what is no interval. -/
def clearInterval (interval : Option Nat) : PgPlaynet :=
  { self with intervals := self.intervals.filter fun other => some other ≠ interval }

/-- `destroy` until its save is answered. -/
def destroy : PgPlaynet :=
  if self.playnet.isNone then self else (self.clearInterval self.saveIntervalId).save true

/-- The rest of `destroy`. It throws when there is no instance to free, and then
nothing is left to change. -/
def free : PgPlaynet := { self with connection := none, playnet := none }

/-- `init` until it waits for the save file. -/
def init : PgPlaynet :=
  if self.playnet.isSome then self else { self with inits := self.inits ++ [.reading] }

/-- The rest of `init`. A listener of the event it dispatches may destroy the instance
before the interval is set. -/
def create (keypair : Keypair) (saveData : Option SaveData) (leaves : Bool) : PgPlaynet :=
  let index := self.banks.length
  let created :=
    { self with
      banks := self.banks ++ [PgBank.new runtime.sdk keypair saveData]
      playnet := some index
      connection := some index }
  let heard := if leaves then created.destroy else created
  { heard with intervals := heard.intervals ++ [index], saveIntervalId := some index }

end PgPlaynet

/-- What can happen: a call starts, or what a call waits for is answered. -/
inductive PlaynetEvent where
  | init
  | read (index : Nat) (succeeds : Bool)
  | imported (index : Nat) (keypair : Keypair) (leaves : Bool)
  | importFailed (index : Nat)
  | request (instanceIndex : Nat) (request : RpcRequest)
  | tick (interval : Nat)
  | destroy
  | saved (index : Nat) (succeeds : Bool)

/-- The request that an event makes. -/
def PlaynetEvent.requested : PlaynetEvent → Option RpcRequest
  | .request _ made => some made
  | _ => none

namespace PgPlaynet

/-- A read or a write that fails is only logged. -/
def step (runtime : ProgramRuntime) (self : PgPlaynet) : PlaynetEvent → Option PgPlaynet
  | .init => some self.init
  | .read index succeeds =>
      match self.inits[index]? with
      | some .reading =>
          let saveData := if succeeds then self.saveFile else none
          some { self with inits := self.inits.set index (.importing saveData) }
      | _ => none
  | .imported index keypair leaves =>
      match self.inits[index]? with
      | some (.importing saveData) =>
          some ({ self with inits := self.inits.eraseIdx index }.create runtime keypair saveData
            leaves)
      | _ => none
  | .importFailed index =>
      match self.inits[index]? with
      | some (.importing _) => some { self with inits := self.inits.eraseIdx index }
      | _ => none
  | .request instanceIndex request =>
      match self.banks[instanceIndex]? with
      | some bank =>
          some { self with
            banks := self.banks.set instanceIndex (request.step runtime bank)
            requests := self.requests ++ [request] }
      | none => none
  | .tick interval => if interval ∈ self.intervals then some (self.save false) else none
  | .destroy => some self.destroy
  | .saved index succeeds =>
      match self.saves[index]? with
      | some save =>
          let written := { self with
            saveFile := if succeeds then some save.data else self.saveFile
            saves := self.saves.eraseIdx index }
          some (if save.destroys then written.free else written)
      | none => none

/-- The application starts without an instance and with any save file. -/
def machine (runtime : ProgramRuntime) : Machine PgPlaynet PlaynetEvent where
  Initial self := ∃ saved, self = { saveFile := saved }
  next := step runtime

end PgPlaynet

/-! ## Ledgers -/

/-- A bank on which exactly these requests were made since it was created. It may have
been saved and created again between two of them. -/
inductive Ledger (runtime : ProgramRuntime) (saved : Option SaveData) :
    List RpcRequest → PgBank → Prop
  | created (keypair : Keypair) : Ledger runtime saved [] (PgBank.new runtime.sdk keypair saved)
  | requested {requests : List RpcRequest} {bank : PgBank} (request : RpcRequest)
      (ledger : Ledger runtime saved requests bank) :
      Ledger runtime saved (requests ++ [request]) (request.step runtime bank)
  | restored {requests : List RpcRequest} {bank : PgBank} (keypair : Keypair)
      (ledger : Ledger runtime saved requests bank) :
      Ledger runtime saved requests (PgBank.new runtime.sdk keypair (some bank.getSaveData))

/-- The bank of a ledger that starts from the save file, or from nothing where the file
could not be read, and of whose requests none was made up or made twice. -/
def Accounted (runtime : ProgramRuntime) (saved : Option SaveData) (requests : List RpcRequest)
    (bank : PgBank) : Prop :=
  ∃ source made, (source = none ∨ source = saved) ∧ Ledger runtime source made bank ∧
    made.Sublist requests

/-- What may stand in the save file: what was there, or the data of such a bank. -/
def AccountedData (runtime : ProgramRuntime) (saved : Option SaveData)
    (requests : List RpcRequest) (data : SaveData) : Prop :=
  saved = some data ∨ ∃ bank, Accounted runtime saved requests bank ∧ data = bank.getSaveData

section Ledgers

variable {runtime : ProgramRuntime} {saved : Option SaveData} {requests : List RpcRequest}
  {bank : PgBank} {data : SaveData}

/-- A bank accounted for by some requests is accounted for by more. -/
theorem Accounted.later (accounted : Accounted runtime saved requests bank)
    (request : RpcRequest) : Accounted runtime saved (requests ++ [request]) bank := by
  obtain ⟨source, made, origin, ledger, within⟩ := accounted
  exact ⟨source, made, origin, ledger, within.trans (List.sublist_append_left _ _)⟩

/-- Answering a request keeps the bank accounted for. -/
theorem Accounted.requested (accounted : Accounted runtime saved requests bank)
    (request : RpcRequest) :
    Accounted runtime saved (requests ++ [request]) (request.step runtime bank) := by
  obtain ⟨source, made, origin, ledger, within⟩ := accounted
  exact ⟨source, made ++ [request], origin, ledger.requested request,
    within.append (List.Sublist.refl _)⟩

/-- Save data accounted for by some requests are accounted for by more. -/
theorem AccountedData.later (accounted : AccountedData runtime saved requests data)
    (request : RpcRequest) : AccountedData runtime saved (requests ++ [request]) data := by
  obtain there | ⟨bank, accounted, rfl⟩ := accounted
  · exact .inl there
  · exact .inr ⟨bank, accounted.later request, rfl⟩

/-- Whatever is restored is accounted for again. -/
theorem AccountedData.restored (keypair : Keypair)
    (accounted : AccountedData runtime saved requests data) :
    Accounted runtime saved requests (PgBank.new runtime.sdk keypair (some data)) := by
  obtain there | ⟨bank, ⟨source, made, origin, ledger, within⟩, rfl⟩ := accounted
  · exact ⟨saved, [], .inr rfl, there ▸ Ledger.created keypair, List.nil_sublist _⟩
  · exact ⟨source, made, origin, ledger.restored keypair, within⟩

/-- A new bank needs no request. -/
theorem accounted_created (keypair : Keypair) :
    Accounted runtime saved requests (PgBank.new runtime.sdk keypair none) :=
  ⟨none, [], .inl rfl, .created keypair, List.nil_sublist _⟩

end Ledgers

/-! ## No update is made up -/

namespace PgPlaynet

variable {runtime : ProgramRuntime} {saved : Option SaveData} {self next : PgPlaynet}

/-- Every bank and every save data is accounted for, and the instance is the newest one
and has the connection. -/
structure Accounts (runtime : ProgramRuntime) (saved : Option SaveData) (state : PgPlaynet) :
    Prop where
  connection : state.connection = state.playnet
  newest : ∀ index, state.playnet = some index → index + 1 = state.banks.length
  banks : ∀ bank ∈ state.banks, Accounted runtime saved state.requests bank
  saveFile : ∀ data, state.saveFile = some data → AccountedData runtime saved state.requests data
  saves : ∀ save ∈ state.saves, AccountedData runtime saved state.requests save.data
  inits : ∀ data, Init.importing (some data) ∈ state.inits →
    AccountedData runtime saved state.requests data

/-- `_save` does nothing, or it adds the data of the instance's bank to what is written. -/
theorem save_cases (self : PgPlaynet) (destroys : Bool) :
    self.save destroys = self ∨ ∃ index bank, self.playnet = some index ∧
      self.banks[index]? = some bank ∧
      self.save destroys = { self with saves := self.saves ++ [⟨bank.getSaveData, destroys⟩] } := by
  cases current : self.playnet with
  | none => exact .inl (by simp [save, current])
  | some index =>
      cases found : self.banks[index]? with
      | none => exact .inl (by simp [save, current, found])
      | some bank => exact .inr ⟨index, bank, rfl, found, by simp [save, current, found]⟩

/-- A save keeps the account of all requests. -/
theorem Accounts.save (accounts : Accounts runtime saved self) (destroys : Bool) :
    Accounts runtime saved (self.save destroys) := by
  obtain unchanged | ⟨index, bank, -, found, saving⟩ := save_cases self destroys
  · rw [unchanged]
    exact accounts
  · rw [saving]
    refine { accounts with saves := fun save member => ?_ }
    rcases List.mem_append.mp member with before | last
    · exact accounts.saves save before
    · obtain rfl := List.mem_singleton.mp last
      exact .inr ⟨bank, accounts.banks bank (List.mem_of_getElem? found), rfl⟩

/-- `destroy` keeps the account of all requests. -/
theorem Accounts.destroy (accounts : Accounts runtime saved self) :
    Accounts runtime saved self.destroy := by
  unfold PgPlaynet.destroy
  split
  · exact accounts
  · refine Accounts.save ?_ true
    exact { accounts with }

/-- Dropping the bank keeps the account of all requests. -/
theorem Accounts.free (accounts : Accounts runtime saved self) : Accounts runtime saved self.free :=
  { accounts with
    connection := rfl
    newest := fun index current => by cases current }

/-- The start of `init` keeps the account of all requests. -/
theorem Accounts.init (accounts : Accounts runtime saved self) : Accounts runtime saved self.init := by
  unfold PgPlaynet.init
  split
  · exact accounts
  · refine { accounts with inits := fun data member => accounts.inits data ?_ }
    simpa using member

/-- A bank created from accounted data keeps the account of all requests. -/
theorem Accounts.create (accounts : Accounts runtime saved self) (keypair : Keypair)
    {saveData : Option SaveData} (leaves : Bool)
    (read : ∀ data, saveData = some data → AccountedData runtime saved self.requests data) :
    Accounts runtime saved (self.create runtime keypair saveData leaves) := by
  have opened : Accounted runtime saved self.requests
      (PgBank.new runtime.sdk keypair saveData) := by
    cases saveData with
    | none => exact accounted_created keypair
    | some data => exact (read data rfl).restored keypair
  have created : Accounts runtime saved
      { self with
        banks := self.banks ++ [PgBank.new runtime.sdk keypair saveData]
        playnet := some self.banks.length
        connection := some self.banks.length } := by
    refine { accounts with
      connection := rfl
      newest := fun index current => ?_
      banks := fun bank member => ?_ }
    · obtain rfl := Option.some.inj current
      simp
    · rcases List.mem_append.mp member with old | new
      · exact accounts.banks bank old
      · exact List.mem_singleton.mp new ▸ opened
  cases leaves with
  | false => exact { created with }
  | true => exact { created.destroy with }

/-- A request to a bank keeps the account of all requests. -/
theorem Accounts.request (accounts : Accounts runtime saved self) {index : Nat} {bank : PgBank}
    (request : RpcRequest) (found : self.banks[index]? = some bank) :
    Accounts runtime saved
      { self with
        banks := self.banks.set index (request.step runtime bank)
        requests := self.requests ++ [request] } where
  connection := accounts.connection
  newest current there := (accounts.newest current there).trans List.length_set.symm
  banks other member := by
    rcases List.mem_or_eq_of_mem_set member with old | rfl
    · exact (accounts.banks other old).later request
    · exact (accounts.banks bank (List.mem_of_getElem? found)).requested request
  saveFile data stored := (accounts.saveFile data stored).later request
  saves save member := (accounts.saves save member).later request
  inits data member := (accounts.inits data member).later request

/-- A finished write keeps the account of all requests. -/
theorem Accounts.writeSave (accounts : Accounts runtime saved self) {index : Nat} {save : Save}
    (succeeds : Bool) (found : self.saves[index]? = some save) :
    Accounts runtime saved
      { self with
        saveFile := if succeeds then some save.data else self.saveFile
        saves := self.saves.eraseIdx index } := by
  refine { accounts with
    saveFile := fun data stored => ?_
    saves := fun other member => accounts.saves other (List.mem_of_mem_eraseIdx member) }
  cases succeeds with
  | false => exact accounts.saveFile data stored
  | true =>
      obtain rfl := Option.some.inj stored
      exact accounts.saves save (List.mem_of_getElem? found)

/-- Every event keeps the account of all requests. -/
theorem Accounts.step (accounts : Accounts runtime saved self) {event : PlaynetEvent}
    (stepped : self.step runtime event = some next) : Accounts runtime saved next := by
  cases event with
  | init => exact Option.some.inj stepped ▸ accounts.init
  | read index succeeds =>
      simp only [PgPlaynet.step] at stepped
      split at stepped
      next found =>
        obtain rfl := Option.some.inj stepped
        refine { accounts with inits := fun data member => ?_ }
        rcases List.mem_or_eq_of_mem_set member with old | new
        · exact accounts.inits data old
        · cases succeeds with
          | false => cases new
          | true => exact accounts.saveFile data (Init.importing.inj new).symm
      next => cases stepped
  | imported index keypair leaves =>
      simp only [PgPlaynet.step] at stepped
      split at stepped
      next saveData found =>
        obtain rfl := Option.some.inj stepped
        have member := List.mem_of_getElem? found
        have without : Accounts runtime saved { self with inits := self.inits.eraseIdx index } :=
          { accounts with
            inits := fun data other => accounts.inits data (List.mem_of_mem_eraseIdx other) }
        exact without.create keypair leaves fun data read =>
          accounts.inits data (read ▸ member)
      next => cases stepped
  | importFailed index =>
      simp only [PgPlaynet.step] at stepped
      split at stepped
      next =>
        obtain rfl := Option.some.inj stepped
        exact { accounts with
          inits := fun data other => accounts.inits data (List.mem_of_mem_eraseIdx other) }
      next => cases stepped
  | request index request =>
      simp only [PgPlaynet.step] at stepped
      split at stepped
      next bank found => exact Option.some.inj stepped ▸ accounts.request request found
      next => cases stepped
  | tick interval =>
      simp only [PgPlaynet.step] at stepped
      split at stepped
      next => exact Option.some.inj stepped ▸ accounts.save false
      next => cases stepped
  | destroy => exact Option.some.inj stepped ▸ accounts.destroy
  | saved index succeeds =>
      simp only [PgPlaynet.step] at stepped
      split at stepped
      next save found =>
        obtain rfl := Option.some.inj stepped
        have written := accounts.writeSave succeeds found
        split
        · exact written.free
        · exact written
      next => cases stepped

/-- Before the first event all requests are accounted for. -/
theorem accounts_start (runtime : ProgramRuntime) (saved : Option SaveData) :
    Accounts runtime saved { saveFile := saved } where
  connection := rfl
  newest index current := by cases current
  banks bank member := by cases member
  saveFile data stored := .inl stored
  saves save member := by cases member
  inits data member := by cases member

@[simp] theorem requests_save (self : PgPlaynet) (destroys : Bool) :
    (self.save destroys).requests = self.requests := by
  obtain unchanged | ⟨index, bank, -, -, saving⟩ := save_cases self destroys
  · rw [unchanged]
  · rw [saving]

@[simp] theorem requests_destroy (self : PgPlaynet) : self.destroy.requests = self.requests := by
  unfold PgPlaynet.destroy
  split
  · rfl
  · rw [requests_save, clearInterval]

@[simp] theorem requests_create (runtime : ProgramRuntime) (self : PgPlaynet) (keypair : Keypair)
    (saveData : Option SaveData) (leaves : Bool) :
    (self.create runtime keypair saveData leaves).requests = self.requests := by
  cases leaves <;> simp [create]

/-- The list of requests is that of the events. -/
theorem requests_step {event : PlaynetEvent} (stepped : self.step runtime event = some next) :
    next.requests = self.requests ++ event.requested.toList := by
  cases event with
  | init =>
      obtain rfl := Option.some.inj stepped
      simp only [PgPlaynet.init, PlaynetEvent.requested, Option.toList_none, List.append_nil]
      split <;> rfl
  | read index succeeds =>
      simp only [PgPlaynet.step] at stepped
      split at stepped
      next =>
        obtain rfl := Option.some.inj stepped
        exact (List.append_nil _).symm
      next => cases stepped
  | imported index keypair leaves =>
      simp only [PgPlaynet.step] at stepped
      split at stepped
      next =>
        obtain rfl := Option.some.inj stepped
        simp [PlaynetEvent.requested]
      next => cases stepped
  | importFailed index =>
      simp only [PgPlaynet.step] at stepped
      split at stepped
      next =>
        obtain rfl := Option.some.inj stepped
        exact (List.append_nil _).symm
      next => cases stepped
  | request index request =>
      simp only [PgPlaynet.step] at stepped
      split at stepped
      next => exact Option.some.inj stepped ▸ rfl
      next => cases stepped
  | tick interval =>
      simp only [PgPlaynet.step] at stepped
      split at stepped
      next =>
        obtain rfl := Option.some.inj stepped
        simp [PlaynetEvent.requested]
      next => cases stepped
  | destroy =>
      obtain rfl := Option.some.inj stepped
      simp [PlaynetEvent.requested]
  | saved index succeeds =>
      simp only [PgPlaynet.step] at stepped
      split at stepped
      next =>
        obtain rfl := Option.some.inj stepped
        simp only [PlaynetEvent.requested, Option.toList_none, List.append_nil, PgPlaynet.free]
        split <;> rfl
      next => cases stepped

/-- The requests of a run are those of its events, in their order. -/
theorem requests_run {events : List PlaynetEvent} {finish : PgPlaynet}
    (ran : (machine runtime).run self events = some finish) :
    finish.requests = self.requests ++ events.filterMap PlaynetEvent.requested := by
  induction events generalizing self with
  | nil =>
      obtain rfl := Option.some.inj ran
      exact (List.append_nil _).symm
  | cons event rest ih =>
      obtain ⟨next, stepped, tail⟩ := Machine.run_cons_eq_some.mp ran
      rw [ih tail, requests_step stepped, List.append_assoc]
      cases requested : event.requested <;> simp [requested]

end PgPlaynet

/-- The bank of a ledger is one of the bank's own runs, so whatever holds along these holds
of every instance. -/
theorem Ledger.reachable {runtime : ProgramRuntime} {saved : Option SaveData}
    {requests : List RpcRequest} {bank : PgBank} (ledger : Ledger runtime saved requests bank) :
    (PgBank.machine runtime).Reachable bank := by
  induction ledger with
  | created keypair => exact ⟨_, [], ⟨keypair, saved, rfl⟩, rfl⟩
  | @requested requests bank request ledger ih =>
      obtain same | ⟨tx, processed⟩ := step_cases runtime bank request
      · rwa [same]
      · have stepped : (PgBank.machine runtime).next bank (.processTx tx) =
            some (bank.processTx runtime tx).2 := rfl
        rw [processed]
        exact ih.next stepped
  | @restored requests bank keypair ledger ih =>
      have stepped : (PgBank.machine runtime).next bank (.reload keypair) =
          some (PgBank.new runtime.sdk keypair (some bank.getSaveData)) := rfl
      exact ih.next stepped

namespace PgPlaynet

variable {runtime : ProgramRuntime} {saved : Option SaveData} {self next : PgPlaynet}

/-- In whichever order calls start and are answered, every bank and whatever is saved
results from requests that were made, each at most once and in their order, and from
what was saved first. -/
theorem banks_accounted (runtime : ProgramRuntime) (saved : Option SaveData)
    {events : List PlaynetEvent} {state : PgPlaynet}
    (ran : (machine runtime).run { saveFile := saved } events = some state) :
    state.connection = state.playnet ∧
    (∀ index, state.playnet = some index → index + 1 = state.banks.length) ∧
    (∀ bank ∈ state.banks,
      Accounted runtime saved (events.filterMap PlaynetEvent.requested) bank ∧
        (PgBank.machine runtime).Reachable bank) ∧
    ∀ data, state.saveFile = some data →
      AccountedData runtime saved (events.filterMap PlaynetEvent.requested) data := by
  have accounts : Accounts runtime saved state :=
    Machine.run_preserves (Accounts runtime saved) (fun holds stepped => holds.step stepped)
      (accounts_start runtime saved) ran
  have requests : state.requests = events.filterMap PlaynetEvent.requested := requests_run ran
  rw [← requests]
  refine ⟨accounts.connection, accounts.newest, fun bank member => ?_, accounts.saveFile⟩
  have accounted := accounts.banks bank member
  refine ⟨accounted, ?_⟩
  obtain ⟨source, made, -, ledger, -⟩ := accounted
  exact ledger.reachable

/-- An airdrop to a wallet. -/
def sampleAirdrop : RpcRequest := .requestAirdrop (sampleKey 3) 5

/-- Two calls of `init` overlap, and the instance that is replaced is used and lost. -/
def twoInits : List PlaynetEvent :=
  [.init, .init, .read 0 true, .imported 0 ⟨sampleKey 1, []⟩ false, .read 0 true,
    .imported 0 ⟨sampleKey 1, []⟩ false, .request 0 sampleAirdrop, .destroy, .saved 0 true]

/-- Two overlapping calls of `init`, with the requests still accounted for. -/
theorem twoInits_accounted : ∃ state,
    (machine PgBank.transferRuntime).run { saveFile := none } twoInits = some state ∧
    ∀ bank ∈ state.banks, Accounted PgBank.transferRuntime none [sampleAirdrop] bank ∧
      (PgBank.machine PgBank.transferRuntime).Reachable bank := by
  have ran : ∃ state,
      (machine PgBank.transferRuntime).run { saveFile := none } twoInits = some state := ⟨_, rfl⟩
  obtain ⟨state, ran⟩ := ran
  exact ⟨state, ran, (banks_accounted PgBank.transferRuntime none ran).2.2.1⟩

/-! ## No update is lost -/

end PgPlaynet

/-- A request that panics leaves the bank locked. -/
def RpcRequest.Panics (runtime : ProgramRuntime) (bank : PgBank) : RpcRequest → Prop
  | .requestAirdrop target lamports =>
      (PgRpc.requestAirdrop bank runtime target lamports).1 = .panicked
  | .sendTransaction tx verified => (PgRpc.sendTransaction bank runtime tx verified).1 = .panicked
  | _ => False

namespace PgPlaynet

variable {runtime : ProgramRuntime} {saved : Option SaveData} {self next : PgPlaynet}
  {index : Nat} {bank : PgBank}

/-- No save that `destroy` waits for is left. -/
def Staying (saves : List Save) : Prop := ∀ save ∈ saves, save.destroys = false

/-- `destroy` waits for the data of the bank, and later saves have the same. -/
def Leaving (bank : PgBank) (saves : List Save) : Prop :=
  ∃ before after, saves = before ++ ⟨bank.getSaveData, true⟩ :: after ∧ Staying before ∧
    ∀ save ∈ after, save = ⟨bank.getSaveData, false⟩

/-- Calls that do not get in each other's way: one `init` at a time, one `destroy` at a
time, and requests to the connection that is set, none of them while it is closed. The
store answers in order and does not fail. -/
def Orderly (runtime : ProgramRuntime) (self : PgPlaynet) : PlaynetEvent → Prop
  | .init => self.playnet = none → self.inits = []
  | .read _ succeeds => succeeds = true
  | .imported _ _ _ => True
  | .importFailed _ => True
  | .request index request => self.connection = some index ∧ Staying self.saves ∧
      ∀ bank, self.banks[index]? = some bank → ¬ request.Panics runtime bank
  | .tick _ => True
  | .destroy => Staying self.saves
  | .saved index succeeds => index = 0 ∧ succeeds = true

/-- What the save file holds while there is no instance: what was there before the
first one, or the data of the one ledger. -/
def Stored (runtime : ProgramRuntime) (saved : Option SaveData) (requests : List RpcRequest)
    (saveFile : Option SaveData) : Prop :=
  (requests = [] ∧ saveFile = saved) ∨
    ∃ bank, Ledger runtime saved requests bank ∧ saveFile = some bank.getSaveData

/-- The one ledger is that of the instance, and without one it is in the save file. -/
structure KeepsAll (runtime : ProgramRuntime) (saved : Option SaveData) (state : PgPlaynet) :
    Prop where
  connection : state.connection = state.playnet
  alone : state.inits = [] ∨ (state.playnet = none ∧ ∃ init, state.inits = [init])
  importing : ∀ data, Init.importing data ∈ state.inits → data = state.saveFile
  away : state.playnet = none → Stored runtime saved state.requests state.saveFile ∧
    ∀ save ∈ state.saves, save.destroys = false ∧ state.saveFile = some save.data
  here : ∀ index, state.playnet = some index → ∃ bank, state.banks[index]? = some bank ∧
    Ledger runtime saved state.requests bank ∧ (Staying state.saves ∨ Leaving bank state.saves)

/-- The saved ledger, or a new one, goes on in a new bank. -/
theorem Stored.restored {requests : List RpcRequest} {saveFile : Option SaveData}
    (stored : Stored runtime saved requests saveFile) (keypair : Keypair) :
    Ledger runtime saved requests (PgBank.new runtime.sdk keypair saveFile) := by
  obtain ⟨rfl, rfl⟩ | ⟨bank, ledger, rfl⟩ := stored
  · exact .created keypair
  · exact ledger.restored keypair

/-- A save of a bank that stays keeps all banks staying. -/
theorem Staying.concat {saves : List Save} (staying : Staying saves) (data : SaveData) :
    Staying (saves ++ [⟨data, false⟩]) := by
  intro save member
  rcases List.mem_append.mp member with before | last
  · exact staying save before
  · exact List.mem_singleton.mp last ▸ rfl

/-- The save of `destroy` makes its bank the leaving one. -/
theorem Staying.leaving {saves : List Save} (staying : Staying saves) (bank : PgBank) :
    Leaving bank (saves ++ [⟨bank.getSaveData, true⟩]) :=
  ⟨saves, [], rfl, staying, List.forall_mem_nil _⟩

/-- A later save of another bank keeps the leaving one. -/
theorem Leaving.concat {saves : List Save} (leaving : Leaving bank saves) :
    Leaving bank (saves ++ [⟨bank.getSaveData, false⟩]) := by
  obtain ⟨before, after, rfl, staying, same⟩ := leaving
  refine ⟨before, after ++ [⟨bank.getSaveData, false⟩], by simp, staying, fun save member => ?_⟩
  rcases List.mem_append.mp member with earlier | last
  · exact same save earlier
  · exact List.mem_singleton.mp last

/-- `_save` with the bank of the instance. -/
theorem save_of_here (self : PgPlaynet)
    (current : self.playnet = some index) (found : self.banks[index]? = some bank)
    (destroys : Bool) :
    self.save destroys = { self with saves := self.saves ++ [⟨bank.getSaveData, destroys⟩] } := by
  simp [save, current, found]

/-- While a playnet runs no `init` is under way. -/
theorem KeepsAll.noInit (keeps : KeepsAll runtime saved self)
    (current : self.playnet = some index) : self.inits = [] :=
  keeps.alone.resolve_right fun waits => by cases current.symm.trans waits.1

/-- While there is an instance, all that counts is its ledger and what `destroy` waits for. -/
theorem keepsAll_of_here (current : self.playnet = some index)
    (connection : self.connection = some index) (alone : self.inits = [])
    (found : self.banks[index]? = some bank) (ledger : Ledger runtime saved self.requests bank)
    (last : Staying self.saves ∨ Leaving bank self.saves) : KeepsAll runtime saved self where
  connection := connection.trans current.symm
  alone := .inl alone
  importing data member := by simp [alone] at member
  away absent := by cases current.symm.trans absent
  here other there := by
    obtain rfl := Option.some.inj (current.symm.trans there)
    exact ⟨bank, found, ledger, last⟩

/-- `destroy` keeps every request. -/
theorem KeepsAll.destroy (keeps : KeepsAll runtime saved self) (staying : Staying self.saves) :
    KeepsAll runtime saved self.destroy := by
  obtain absent | ⟨index, current⟩ := Option.eq_none_or_eq_some self.playnet
  · rw [PgPlaynet.destroy, absent, if_pos Option.isNone_none]
    exact keeps
  · obtain ⟨bank, found, ledger, -⟩ := keeps.here index current
    rw [PgPlaynet.destroy, current, if_neg (by simp),
      save_of_here (self.clearInterval self.saveIntervalId) current found]
    exact keepsAll_of_here current (keeps.connection.trans current) (keeps.noInit current) found
      ledger (.inr (staying.leaving bank))

/-- The save of the interval keeps every request. -/
theorem KeepsAll.tick (keeps : KeepsAll runtime saved self) :
    KeepsAll runtime saved (self.save false) := by
  obtain unchanged | ⟨index, bank, current, found, saving⟩ := save_cases self false
  · rw [unchanged]
    exact keeps
  · obtain ⟨other, found', ledger, last⟩ := keeps.here index current
    obtain rfl := Option.some.inj (found.symm.trans found')
    rw [saving]
    exact keepsAll_of_here current (keeps.connection.trans current) (keeps.noInit current) found
      ledger (last.imp (·.concat _) (·.concat))

/-- A bank created alone keeps every request. -/
theorem KeepsAll.create (keeps : KeepsAll runtime saved self) (keypair : Keypair) (leaves : Bool)
    (absent : self.playnet = none) (alone : self.inits = []) :
    KeepsAll runtime saved (self.create runtime keypair self.saveFile leaves) := by
  obtain ⟨stored, unwritten⟩ := keeps.away absent
  have staying : Staying self.saves := fun save member => (unwritten save member).1
  have created : KeepsAll runtime saved
      { self with
        banks := self.banks ++ [PgBank.new runtime.sdk keypair self.saveFile]
        playnet := some self.banks.length
        connection := some self.banks.length } :=
    keepsAll_of_here rfl rfl alone List.getElem?_concat_length (stored.restored keypair)
      (.inl staying)
  cases leaves with
  | false => exact { created with }
  | true => exact { created.destroy staying with }

/-- A request to the running playnet is kept. -/
theorem KeepsAll.request (keeps : KeepsAll runtime saved self)
    (request : RpcRequest) (current : self.playnet = some index) (staying : Staying self.saves)
    (found : self.banks[index]? = some bank) :
    KeepsAll runtime saved
      { self with
        banks := self.banks.set index (request.step runtime bank)
        requests := self.requests ++ [request] } := by
  obtain ⟨other, found', ledger, -⟩ := keeps.here index current
  obtain rfl := Option.some.inj (found.symm.trans found')
  have inside := Table.lt_length_of_getElem? found
  exact keepsAll_of_here current (keeps.connection.trans current) (keeps.noInit current)
    (List.getElem?_set_self inside) (ledger.requested request) (.inl staying)

/-- The first save is written. If `destroy` waits for it, the ledger is in the file and
the instance is freed. -/
theorem KeepsAll.writeSave (keeps : KeepsAll runtime saved self) {save : Save} {rest : List Save}
    (pending : self.saves = save :: rest) :
    KeepsAll runtime saved
      (if save.destroys then { self with saveFile := some save.data, saves := rest }.free
        else { self with saveFile := some save.data, saves := rest }) := by
  obtain absent | ⟨index, current⟩ := Option.eq_none_or_eq_some self.playnet
  · obtain ⟨stored, unwritten⟩ := keeps.away absent
    rw [pending] at unwritten
    obtain ⟨⟨stays, same⟩, others⟩ := List.forall_mem_cons.mp unwritten
    rw [stays, if_neg Bool.false_ne_true, ← same]
    exact { keeps with
      away := fun _ => ⟨stored, others⟩
      here := fun index there => by cases absent.symm.trans there }
  · obtain ⟨bank, found, ledger, last⟩ := keeps.here index current
    have connected := keeps.connection.trans current
    have noInit := keeps.noInit current
    rw [pending] at last
    obtain staying | ⟨before, after, split, staying, same⟩ := last
    · obtain ⟨stays, others⟩ := List.forall_mem_cons.mp staying
      rw [stays, if_neg Bool.false_ne_true]
      exact keepsAll_of_here current connected noInit found ledger (.inl others)
    · cases before with
      | nil =>
          obtain ⟨rfl, rfl⟩ := List.cons.inj split
          rw [if_pos rfl]
          exact {
            connection := rfl
            alone := .inl noInit
            importing := fun data member => by simp [free, noInit] at member
            away := fun _ => ⟨.inr ⟨bank, ledger, rfl⟩, fun save member => by
              rw [same save member]
              exact ⟨rfl, rfl⟩⟩
            here := fun other there => by cases there }
      | cons first before =>
          obtain ⟨rfl, rfl⟩ := List.cons.inj split
          obtain ⟨stays, others⟩ := List.forall_mem_cons.mp staying
          rw [stays, if_neg Bool.false_ne_true]
          exact keepsAll_of_here current connected noInit found ledger
            (.inr ⟨before, after, rfl, others, same⟩)

/-- The `init` that waits is the only one, and there is no instance. -/
theorem KeepsAll.single (keeps : KeepsAll runtime saved self) {init : Init}
    (found : self.inits[index]? = some init) :
    self.playnet = none ∧ self.inits = [init] ∧ index = 0 := by
  obtain none_ | ⟨absent, only, alone⟩ := keeps.alone
  · rw [none_] at found
    cases found
  · rw [alone] at found ⊢
    have first : index = 0 := by
      have inside := Table.lt_length_of_getElem? found
      simpa using inside
    subst first
    obtain rfl := Option.some.inj found
    exact ⟨absent, rfl, rfl⟩

/-- Every orderly event keeps every request. -/
theorem KeepsAll.step (keeps : KeepsAll runtime saved self) {event : PlaynetEvent}
    (orderly : Orderly runtime self event) (stepped : self.step runtime event = some next) :
    KeepsAll runtime saved next := by
  cases event with
  | init =>
      obtain rfl := Option.some.inj stepped
      unfold PgPlaynet.init
      split
      · exact keeps
      next absent =>
        have absent : self.playnet = none := by simpa using absent
        have none_ : self.inits = [] := orderly absent
        exact { keeps with
          alone := .inr ⟨absent, .reading, by simp [none_]⟩
          importing := fun data member => by simp [none_] at member }
  | read index succeeds =>
      obtain rfl : succeeds = true := orderly
      simp only [PgPlaynet.step] at stepped
      split at stepped
      next found =>
        obtain rfl := Option.some.inj stepped
        obtain ⟨absent, alone, rfl⟩ := keeps.single found
        refine { keeps with
          alone := .inr ⟨absent, .importing self.saveFile, by rw [alone]; rfl⟩
          importing := fun data member => ?_ }
        rw [alone] at member
        exact Init.importing.inj (List.mem_singleton.mp member)
      next => cases stepped
  | imported index keypair leaves =>
      simp only [PgPlaynet.step] at stepped
      split at stepped
      next saveData found =>
        obtain rfl := Option.some.inj stepped
        obtain ⟨absent, alone, rfl⟩ := keeps.single found
        obtain rfl := keeps.importing saveData (List.mem_of_getElem? found)
        have taken : self.inits.eraseIdx 0 = [] := by rw [alone]; rfl
        have without : KeepsAll runtime saved { self with inits := self.inits.eraseIdx 0 } :=
          { keeps with
            alone := .inl taken
            importing := fun data member => keeps.importing data (List.mem_of_mem_eraseIdx member) }
        exact without.create keypair leaves absent taken
      next => cases stepped
  | importFailed index =>
      simp only [PgPlaynet.step] at stepped
      split at stepped
      next saveData found =>
        obtain rfl := Option.some.inj stepped
        obtain ⟨absent, alone, rfl⟩ := keeps.single found
        exact { keeps with
          alone := .inl (by rw [alone]; rfl)
          importing := fun data member => keeps.importing data (List.mem_of_mem_eraseIdx member) }
      next => cases stepped
  | request index request =>
      obtain ⟨connected, staying, -⟩ := orderly
      simp only [PgPlaynet.step] at stepped
      split at stepped
      next bank found =>
        obtain rfl := Option.some.inj stepped
        exact keeps.request request (keeps.connection.symm.trans connected) staying found
      next => cases stepped
  | tick interval =>
      simp only [PgPlaynet.step] at stepped
      split at stepped
      next => exact Option.some.inj stepped ▸ keeps.tick
      next => cases stepped
  | destroy => exact Option.some.inj stepped ▸ keeps.destroy orderly
  | saved index succeeds =>
      obtain ⟨rfl, rfl⟩ := orderly
      simp only [PgPlaynet.step] at stepped
      split at stepped
      next save found =>
        obtain rfl := Option.some.inj stepped
        cases pending : self.saves with
        | nil =>
            rw [pending] at found
            cases found
        | cons first rest =>
            rw [pending] at found
            obtain rfl := Option.some.inj found
            exact keeps.writeSave pending
      next => cases stepped

/-- Before the first event there is nothing to keep. -/
theorem keepsAll_start (runtime : ProgramRuntime) (saved : Option SaveData) :
    KeepsAll runtime saved { saveFile := saved } where
  connection := rfl
  alone := .inl rfl
  importing data member := by cases member
  away _ := ⟨.inl ⟨rfl, rfl⟩, List.forall_mem_nil _⟩
  here index current := by cases current

/-- In an orderly run the instance is one ledger of all requests from what was saved
first, through however many instances, and while there is none that ledger is in the
save file. -/
theorem requests_kept (runtime : ProgramRuntime) (saved : Option SaveData)
    {events : List PlaynetEvent} {state : PgPlaynet}
    (orderly : (machine runtime).Meets (Orderly runtime) { saveFile := saved } events)
    (ran : (machine runtime).run { saveFile := saved } events = some state) :
    (∀ index, state.playnet = some index → ∃ bank, state.banks[index]? = some bank ∧
      Ledger runtime saved (events.filterMap PlaynetEvent.requested) bank) ∧
    (state.playnet = none →
      Stored runtime saved (events.filterMap PlaynetEvent.requested) state.saveFile) := by
  have keeps : KeepsAll runtime saved state :=
    Machine.run_preserves_of_meets (KeepsAll runtime saved)
      (fun holds met stepped => holds.step met stepped) (keepsAll_start runtime saved) orderly ran
  have requests : state.requests = events.filterMap PlaynetEvent.requested := requests_run ran
  rw [← requests]
  refine ⟨fun index current => ?_, fun absent => (keeps.away absent).1⟩
  obtain ⟨bank, found, ledger, -⟩ := keeps.here index current
  exact ⟨bank, found, ledger⟩

/-- An airdrop, after which the playnet is left. -/
def oneAirdrop : List PlaynetEvent :=
  [.init, .read 0 true, .imported 0 ⟨sampleKey 1, []⟩ false, .request 0 sampleAirdrop, .destroy,
    .saved 0 true]

/-- The airdrop is answered. -/
theorem sampleAirdrop_answers : ¬ sampleAirdrop.Panics PgBank.transferRuntime PgBank.newBank := by
  have answers : (PgRpc.requestAirdrop PgBank.newBank PgBank.transferRuntime (sampleKey 3) 5).1 ≠
      .panicked := by decide +kernel
  exact answers

/-- A run with one airdrop in which each event is orderly. -/
theorem oneAirdrop_orderly : (machine PgBank.transferRuntime).Meets
    (Orderly PgBank.transferRuntime) { saveFile := none } oneAirdrop := by
  refine ⟨fun _ => rfl, fun reading stepped => ⟨rfl, fun importing read => ?_⟩⟩
  obtain rfl := Option.some.inj stepped
  obtain rfl := Option.some.inj read
  refine ⟨trivial, fun created imported => ?_⟩
  obtain rfl := Option.some.inj imported
  refine ⟨⟨rfl, List.forall_mem_nil _, fun bank found => ?_⟩, fun used requested => ?_⟩
  · obtain rfl := Option.some.inj found
    exact sampleAirdrop_answers
  · obtain rfl := Option.some.inj requested
    exact ⟨List.forall_mem_nil _, fun left destroyed => ⟨⟨rfl, rfl⟩, fun _ _ => trivial⟩⟩

/-- The airdrop is in the save file after the playnet is gone. -/
theorem oneAirdrop_kept : ∃ state,
    (machine PgBank.transferRuntime).run { saveFile := none } oneAirdrop = some state ∧
    state.playnet = none ∧
    Stored PgBank.transferRuntime none [sampleAirdrop] state.saveFile := by
  have ran : ∃ state, (machine PgBank.transferRuntime).run { saveFile := none } oneAirdrop =
      some state ∧ state.playnet = none := ⟨_, rfl, rfl⟩
  obtain ⟨state, ran, absent⟩ := ran
  exact ⟨state, ran, absent,
    (requests_kept PgBank.transferRuntime none oneAirdrop_orderly ran).2 absent⟩

end PgPlaynet
end Solpg.Client.Utils
