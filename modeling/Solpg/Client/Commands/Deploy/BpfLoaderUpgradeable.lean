import Solpg.Std.Chunks
import Solpg.Std.Machine
import Solpg.Std.Text

/-!
# Loading a buffer

`BpfLoaderUpgradeable.loadBuffer`: rounds of concurrent workers that share an index into
the chunks that the buffer account lacks. A step is what runs between two awaits. What
was sent lands at any later time, any number of times, or not at all.
-/

namespace Solpg.Client.Commands.Deploy

open Solpg.Std Solpg.Std.Chunks

/-- `Option<Pubkey>`. -/
def BUFFER_METADATA_SIZE : Nat := 37

/-! ## Rate limits -/

namespace Json

/-- `value?.[key]` of a value that is not `null`: a member that is written twice has its
last value. -/
def get (key : Text) : Json → Option Json
  | .object fields => (fields.reverse.find? fun field => field.1 = key).map Prod.snd
  | _ => none

/-- `response.error?.code === 429`, or nothing where reading `error` throws. -/
def tooManyRequests : Json → Option Bool
  | .null => none
  | response =>
      match get "error".toList response with
      | none | some .null => some false
      | some error =>
          match get "code".toList error with
          | some (.number text) => some (text = "429".toList)
          | _ => some false

end Json

/-- `String.prototype.indexOf` for a character. -/
def indexOf (text : Text) (char : Char) : Int :=
  match text.findIdx? (· = char) with
  | some index => index
  | none => -1

/-- `String.prototype.lastIndexOf` for a character. -/
def lastIndexOf (text : Text) (char : Char) : Int :=
  match text.reverse.findIdx? (· = char) with
  | some index => text.length - 1 - index
  | none => -1

/-- `String.prototype.substring`: what is negative counts as zero, and the ends are put in
order. -/
def substring (text : Text) (start stop : Int) : Text :=
  slice text (min start.toNat stop.toNat) (max start.toNat stop.toNat)

/-- The check of the message of an error for a rate limit. `parse` is `JSON.parse`, with
numbers as they are printed. -/
def isRateLimit (parse : Text → Option Json) (message : Text) : Bool :=
  let msg := message.trim
  let maybeResponseStr := substring msg (indexOf msg '\x7b') (lastIndexOf msg '\x7d' + 1)
  match parse maybeResponseStr with
  | none => false
  | some response => (Json.tooManyRequests response).getD false

/-! ## State -/

/-- The data of one write instruction. -/
structure Write where
  offset : Nat
  bytes : List UInt8
  deriving DecidableEq, Repr

/-- How a send ends. -/
inductive SendOutcome where
  | sent
  /-- What is thrown is not an `Error`. -/
  | thrown
  | failed (message : Text)

/-- A call of the inner `loadBuffer`. A worker is the chunk that it is sending, or has ended.
`attempted` lists the chunks for which a transaction was sent. -/
structure Round where
  indices : List Nat
  i : Nat
  isRateLimited : Bool
  lastTxHash : Bool
  workers : List (Option Nat)
  attempted : List Nat
  deriving DecidableEq, Repr

/-- Where `loadBuffer` awaits. -/
inductive Phase where
  | simulating
  /-- `tryUntilSuccess` of the account. -/
  | fetching
  | loading (round : Round)
  /-- Sleeping after a rate limit. -/
  | limited (lastTxHash : Bool)
  | confirming
  /-- Sleeping after the confirmation has thrown. -/
  | unconfirmed
  | resolved (loaded : Bool)
  | rejected
  deriving DecidableEq, Repr

/-- `account` is the data of the buffer account, and `snapshots` all that it has been: a
node that is behind answers with one of these. -/
structure Uploading where
  phase : Phase
  aborted : Bool
  account : List UInt8
  snapshots : List (List UInt8)
  sent : List Write
  deriving DecidableEq, Repr

/-- The answers and ends that an upload waits for. -/
inductive UploadEvent where
  | simulated (succeeded : Bool)
  | fetched (snapshot : Nat)
  | sendEnds (worker : Nat) (outcome : SendOutcome)
  /-- All workers have ended, and `Promise.all` goes on. -/
  | joined
  | slept
  | confirmed (succeeded : Bool)
  | landed (write : Nat)
  | abort

/-- What `loadBuffer` is called with. -/
structure Upload where
  programBytes : List UInt8
  writeChunkSize : Nat
  loadConcurrency : Nat
  parse : Text → Option Json

namespace Upload

variable (upload : Upload)

/-- The number of write transactions. -/
def txCount : Nat := count upload.writeChunkSize upload.programBytes.length

/-- The indices of the write transactions. -/
def indices : List Nat := List.range upload.txCount

/-- The bytes of one write transaction. -/
def slice (index : Nat) : List UInt8 := chunk upload.programBytes upload.writeChunkSize index

/-- The write of one transaction. -/
def write (index : Nat) : Write := ⟨index * upload.writeChunkSize, upload.slice index⟩

/-- The program in the data of the account. -/
def onChainProgramBytes (account : List UInt8) : List UInt8 :=
  Chunks.slice account BUFFER_METADATA_SIZE (BUFFER_METADATA_SIZE + upload.programBytes.length)

/-- The chunks that the account lacks. -/
def missingIndices (account : List UInt8) : List Nat :=
  upload.indices.filter fun index =>
    upload.slice index ≠ chunk (upload.onChainProgramBytes account) upload.writeChunkSize index

/-- A turn of a worker's loop up to the send. An index past the end has no slice. -/
def turn (aborted : Bool) (round : Round) : Round × Option Nat :=
  if aborted || round.isRateLimited then (round, none)
  else
    let next := { round with i := round.i + 1 }
    match round.indices[round.i]? with
    | none => (next, none)
    | some index =>
        if (upload.slice index).isEmpty then (next, none)
        else ({ next with attempted := round.attempted ++ [index] }, some index)

/-- The workers start one after the other, each up to its first send. -/
def startWorkers (aborted : Bool) : Nat → Round → Round
  | 0, round => round
  | workers + 1, round =>
      let (round, worker) := upload.turn aborted round
      startWorkers aborted workers { round with workers := round.workers ++ [worker] }

/-- `Promise.all` of a round starts its workers. -/
def startRound (aborted : Bool) (indices : List Nat) : Round :=
  upload.startWorkers aborted upload.loadConcurrency ⟨indices, 0, false, false, [], []⟩

/-- What the worker makes of the end of its send, up to its next one. -/
def resume (aborted : Bool) (round : Round) : SendOutcome → Round × Option Nat
  | .sent => upload.turn aborted { round with lastTxHash := true }
  | .thrown => if round.isRateLimited then (round, none) else upload.turn aborted round
  | .failed message =>
      if round.isRateLimited then (round, none)
      else if isRateLimit upload.parse message then ({ round with isRateLimited := true }, none)
      else upload.turn aborted round

end Upload

namespace Uploading

variable (uploading : Uploading)

/-- The top of the outer loop. -/
def top : Uploading :=
  { uploading with phase := if uploading.aborted then .resolved false else .fetching }

/-- The end of a round, after the rate limit. -/
def awaitLast (lastTxHash : Bool) : Uploading :=
  if lastTxHash then { uploading with phase := .confirming } else uploading.top

/-- The on-chain program writes what fits into the account. -/
def land (write : Write) : Uploading :=
  let account := overlay uploading.account (BUFFER_METADATA_SIZE + write.offset) write.bytes
  { uploading with account, snapshots := uploading.snapshots ++ [account] }

end Uploading

namespace Upload

variable (upload : Upload)

/-- The outer loop with the data that the node has answered with. -/
def compare (uploading : Uploading) (data : List UInt8) : Uploading :=
  if upload.onChainProgramBytes data = upload.programBytes then
    { uploading with phase := .resolved true }
  else
    let round := upload.startRound uploading.aborted (upload.missingIndices data)
    { uploading with
      phase := .loading round
      sent := uploading.sent ++ round.attempted.map upload.write }

/-- The upload goes on at an event. -/
def next (uploading : Uploading) : UploadEvent → Option Uploading
  | .simulated succeeded =>
      match uploading.phase with
      | .simulating => some (if succeeded then uploading.top else { uploading with phase := .rejected })
      | _ => none
  | .fetched snapshot =>
      match uploading.phase with
      | .fetching => uploading.snapshots[snapshot]?.map (upload.compare uploading)
      | _ => none
  | .sendEnds worker outcome =>
      match uploading.phase with
      | .loading round =>
          match round.workers[worker]? with
          | some (some _) =>
              let (after, sending) := upload.resume uploading.aborted round outcome
              some { uploading with
                phase := .loading { after with workers := after.workers.set worker sending }
                sent := uploading.sent ++ sending.toList.map upload.write }
          | _ => none
      | _ => none
  | .joined =>
      match uploading.phase with
      | .loading round =>
          if round.workers.all Option.isNone then
            some (if uploading.aborted then uploading.top
              else if round.isRateLimited then { uploading with phase := .limited round.lastTxHash }
              else uploading.awaitLast round.lastTxHash)
          else none
      | _ => none
  | .slept =>
      match uploading.phase with
      | .limited lastTxHash => some (uploading.awaitLast lastTxHash)
      | .unconfirmed => some uploading.top
      | _ => none
  | .confirmed succeeded =>
      match uploading.phase with
      | .confirming =>
          some (if succeeded then uploading.top else { uploading with phase := .unconfirmed })
      | _ => none
  | .landed write => uploading.sent[write]?.map uploading.land
  | .abort =>
      -- The sleep after a rate limit rejects when it is aborted.
      match uploading.phase with
      | .limited _ => some { uploading with phase := .rejected, aborted := true }
      | _ => some { uploading with aborted := true }

/-- Nothing has been sent, and the account has any data. -/
def machine : Machine Uploading UploadEvent where
  Initial uploading := uploading.phase = .simulating ∧ uploading.sent = [] ∧
    uploading.snapshots = [uploading.account]
  next := upload.next

end Upload

/-! ## What an upload is to do -/

/-- Every round without rate limit or abort ends with the attempts that it was started for. -/
def Round.Complete (round : Round) : Prop :=
  round.workers.all Option.isNone = true → round.isRateLimited = false →
    round.attempted = round.indices

namespace Upload

variable (upload : Upload)

/-- The chunks have no gap and no overlap. -/
structure Partitions : Prop where
  whole : (upload.indices.map upload.slice).flatten = upload.programBytes
  once : ∀ position < upload.programBytes.length, ∃! index, index ∈ upload.indices ∧
    index * upload.writeChunkSize ≤ position ∧
    position < index * upload.writeChunkSize + upload.writeChunkSize

/-- What holds in each state of an upload. The indices of a round are those of the chunks that
are wrong in what the node answered, and so of all that are wrong on chain. -/
structure Correct (uploading : Uploading) : Prop where
  exact : ∀ write ∈ uploading.sent, ∃ index ∈ upload.indices, write = upload.write index
  shrinks : ∀ event after, upload.next uploading event = some after →
    upload.missingIndices after.account ⊆ upload.missingIndices uploading.account
  rounds : ∀ round, uploading.phase = .loading round → uploading.aborted = false →
    (∃ data ∈ uploading.snapshots, round.indices = upload.missingIndices data) ∧
      upload.missingIndices uploading.account ⊆ round.indices ∧ round.indices.Nodup ∧ round.Complete
  loaded : ∀ found, uploading.phase = .resolved found → uploading.aborted = false ∨ found = true →
    upload.onChainProgramBytes uploading.account = upload.programBytes

/-! ## Data -/

section Data

variable {upload} {data before after : List UInt8} {position index : Nat}

/-- The data has the byte of the program at the position. -/
def Agrees (upload : Upload) (data : List UInt8) (position : Nat) : Prop :=
  (upload.onChainProgramBytes data)[position]? = upload.programBytes[position]?

/-- The buffer agrees at a position when its byte there is the program's. -/
theorem agrees_iff : upload.Agrees data position ↔ position < upload.programBytes.length →
    data[BUFFER_METADATA_SIZE + position]? = upload.programBytes[position]? := by
  rw [Agrees, onChainProgramBytes, getElem?_slice]
  by_cases inside : position < upload.programBytes.length
  · simp [inside]
  · simp [inside]

/-- What is right before is right after. -/
def Covers (upload : Upload) (before after : List UInt8) : Prop :=
  ∀ position, upload.Agrees before position → upload.Agrees after position

/-- The comparison succeeds exactly when the buffer agrees everywhere. -/
theorem loaded_iff : upload.onChainProgramBytes data = upload.programBytes ↔
    ∀ position, upload.Agrees data position :=
  List.ext_getElem?_iff

/-- An index is missing when the buffer disagrees within its slice. -/
theorem mem_missingIndices : index ∈ upload.missingIndices data ↔
    index ∈ upload.indices ∧ ¬ ∀ position, index * upload.writeChunkSize ≤ position →
      position < index * upload.writeChunkSize + upload.writeChunkSize →
        upload.Agrees data position := by
  rw [missingIndices, List.mem_filter, decide_eq_true_iff, slice, chunk, chunk, Ne, slice_eq_iff]
  simp only [Agrees, eq_comm]

/-- What later data cover is missing no more. -/
theorem missingIndices_subset (covers : upload.Covers before after) :
    upload.missingIndices after ⊆ upload.missingIndices before := by
  intro index missing
  rw [mem_missingIndices] at missing ⊢
  refine ⟨missing.1, fun right => missing.2 fun position above below => ?_⟩
  exact covers position (right position above below)

/-- No index is missing twice. -/
theorem missingIndices_nodup : (upload.missingIndices data).Nodup :=
  List.nodup_range.filter _

/-- A write of a slice of the program makes nothing wrong. -/
theorem covers_overlay (index : Nat) : upload.Covers data
    (overlay data (BUFFER_METADATA_SIZE + (upload.write index).offset) (upload.write index).bytes) := by
  intro position agrees
  rw [agrees_iff] at agrees ⊢
  intro inside
  exact overlay_agrees (agrees inside)

end Data

/-- The chunks of a program, in their order. -/
theorem partitions (positive : 0 < upload.writeChunkSize) : upload.Partitions where
  whole := flatten_chunks positive upload.programBytes
  once position inside := by
    simpa only [indices, List.mem_range, txCount] using existsUnique_chunk positive inside

/-! ## Rounds -/

section Rounds

variable {upload} {aborted : Bool} {round after : Round} {worker : Option Nat}

/-- A turn goes on in the indices, and ends only for a reason. -/
structure Advances (aborted : Bool) (round after : Round) (worker : Option Nat) : Prop where
  indices : after.indices = round.indices
  workers : after.workers = round.workers
  limited : round.isRateLimited = true → after.isRateLimited = true
  later : round.i ≤ after.i
  taken : after.attempted = after.indices.take after.i
  sends : worker.toList ⊆ after.attempted
  ends : worker = none → aborted = true ∨ after.isRateLimited = true ∨ after.indices.length ≤ after.i

/-- A turn of a worker advances the round. -/
theorem turn_advances (full : ∀ index ∈ round.indices, upload.slice index ≠ [])
    (taken : round.attempted = round.indices.take round.i) :
    Advances aborted round (upload.turn aborted round).1 (upload.turn aborted round).2 := by
  unfold turn
  by_cases stops : (aborted || round.isRateLimited) = true
  · rw [if_pos stops]
    refine ⟨rfl, rfl, id, le_rfl, taken, by simp, fun _ => ?_⟩
    rcases Bool.or_eq_true_iff.mp stops with is | is
    · exact .inl is
    · exact .inr (.inl is)
  · rw [if_neg stops]
    cases found : round.indices[round.i]? with
    | none =>
        have past : round.indices.length ≤ round.i := List.getElem?_eq_none_iff.mp found
        refine ⟨rfl, rfl, id, Nat.le_succ _, ?_, by simp, fun _ => .inr (.inr (by simp; omega))⟩
        simp only [taken, List.take_of_length_le past]
        rw [List.take_of_length_le (by omega)]
    | some index =>
        have inside := List.getElem?_eq_some_iff.mp found
        have nonempty : (upload.slice index).isEmpty = false :=
          List.isEmpty_eq_false_iff.mpr (full index (List.mem_of_getElem? found))
        simp only [nonempty, Bool.false_eq_true, if_false]
        refine ⟨rfl, rfl, id, Nat.le_succ _, ?_, by simp, nofun⟩
        simp only [taken, List.take_add_one, found, Option.toList_some]

/-- A worker that goes on advances the round. -/
theorem resume_advances (full : ∀ index ∈ round.indices, upload.slice index ≠ [])
    (taken : round.attempted = round.indices.take round.i) (outcome : SendOutcome) :
    Advances aborted round (upload.resume aborted round outcome).1
      (upload.resume aborted round outcome).2 := by
  have limitedEnd : ∀ after : Round, after.indices = round.indices → after.workers = round.workers →
      after.i = round.i → after.attempted = round.attempted → after.isRateLimited = true →
      Advances aborted round after none := by
    intro after indices workers i attempted limited
    refine ⟨indices, workers, fun _ => limited, i.ge, ?_, by simp, fun _ => .inr (.inl limited)⟩
    rw [attempted, taken, indices, i]
  cases outcome with
  | sent =>
      have turned : Advances aborted { round with lastTxHash := true } _ _ := turn_advances full taken
      exact ⟨turned.1, turned.2, turned.3, turned.4, turned.5, turned.6, turned.7⟩
  | thrown =>
      unfold resume
      by_cases limited : round.isRateLimited
      · simpa [limited] using limitedEnd round rfl rfl rfl rfl limited
      · simpa [limited] using turn_advances full taken
  | failed message =>
      unfold resume
      by_cases limited : round.isRateLimited
      · simpa [limited] using limitedEnd round rfl rfl rfl rfl limited
      · by_cases now : isRateLimit upload.parse message
        · simpa [limited, now] using
            limitedEnd { round with isRateLimited := true } rfl rfl rfl rfl rfl
        · simpa [limited, now] using turn_advances full taken

/-- The attempts are those of the indices so far, and a worker has ended only for a reason. -/
structure RoundInv (aborted : Bool) (round : Round) : Prop where
  taken : round.attempted = round.indices.take round.i
  ended : none ∈ round.workers →
    aborted = true ∨ round.isRateLimited = true ∨ round.indices.length ≤ round.i

/-- The invariant of a round survives an abort. -/
theorem RoundInv.abort (inv : RoundInv aborted round) : RoundInv true round :=
  ⟨inv.taken, fun _ => .inl rfl⟩

/-- A worker that advances keeps what was known of the others. -/
theorem RoundInv.advance (inv : RoundInv aborted round) (advances : Advances aborted round after worker)
    {workers : List (Option Nat)} (others : none ∈ workers → none ∈ round.workers ∨ worker = none) :
    RoundInv aborted { after with workers := workers } := by
  refine ⟨advances.taken, fun ended => ?_⟩
  rcases others ended with before | now
  · rcases inv.ended before with abort | limited | past
    · exact .inl abort
    · exact .inr (.inl (advances.limited limited))
    · refine .inr (.inr ?_)
      have later := advances.later
      simp only [advances.indices]
      omega
  · exact advances.ends now

/-- Starting the workers keeps the invariant of the round. -/
theorem startWorkers_inv (full : ∀ index ∈ round.indices, upload.slice index ≠ [])
    (inv : RoundInv aborted round) (count : Nat) :
    RoundInv aborted (upload.startWorkers aborted count round) ∧
      (upload.startWorkers aborted count round).indices = round.indices ∧
      (upload.startWorkers aborted count round).workers.length = round.workers.length + count := by
  induction count generalizing round with
  | zero => exact ⟨inv, rfl, rfl⟩
  | succ count ih =>
      have advances : Advances aborted round _ _ := turn_advances full inv.taken
      have started : RoundInv aborted { (upload.turn aborted round).1 with
          workers := (upload.turn aborted round).1.workers ++ [(upload.turn aborted round).2] } := by
        refine inv.advance advances fun ended => ?_
        rw [advances.workers, List.mem_append, List.mem_singleton] at ended
        exact ended.imp_right Eq.symm
      have sameIndices := advances.indices
      obtain ⟨keeps, indices, length⟩ := ih (by simpa only [sameIndices] using full) started
      refine ⟨keeps, indices.trans sameIndices, length.trans ?_⟩
      rw [List.length_append, advances.workers, List.length_singleton]
      omega

/-- A started round has its invariant. -/
theorem startRound_inv {indices : List Nat} (full : ∀ index ∈ indices, upload.slice index ≠ []) :
    RoundInv aborted (upload.startRound aborted indices) ∧
      (upload.startRound aborted indices).indices = indices ∧
      (upload.startRound aborted indices).workers.length = upload.loadConcurrency := by
  have start : RoundInv aborted ⟨indices, 0, false, false, [], []⟩ := ⟨rfl, nofun⟩
  simpa [startRound] using startWorkers_inv full start upload.loadConcurrency

/-- When all workers have ended without a rate limit or an abort, all is attempted. -/
theorem RoundInv.complete (inv : RoundInv false round) (some_ : round.workers ≠ []) :
    round.Complete := by
  intro allEnded unlimited
  obtain ⟨worker, member⟩ := List.exists_mem_of_ne_nil _ some_
  have ended : worker = none := Option.isNone_iff_eq_none.mp (List.all_eq_true.mp allEnded worker member)
  rcases inv.ended (ended ▸ member) with abort | limited | past
  · cases abort
  · cases unlimited.symm.trans limited
  · rw [inv.taken, List.take_of_length_le past]

end Rounds

/-! ## Runs -/

section Runs

variable {upload} {uploading after : Uploading}

/-- What was sent is of the program, a round is for what is wrong in some snapshot, and the
account is right wherever a snapshot is. -/
structure Inv (upload : Upload) (uploading : Uploading) : Prop where
  sent : ∀ write ∈ uploading.sent, ∃ index ∈ upload.indices, write = upload.write index
  covers : ∀ data ∈ uploading.snapshots, upload.Covers data uploading.account
  rounds : ∀ round, uploading.phase = .loading round → RoundInv uploading.aborted round ∧
    round.workers ≠ [] ∧ ∃ data ∈ uploading.snapshots, round.indices = upload.missingIndices data
  loaded : uploading.phase = .resolved true → ∀ position, upload.Agrees uploading.account position
  cancelled : uploading.phase = .resolved false → uploading.aborted = true

/-- A phase without a round, from a state with the invariant. -/
theorem Inv.move (inv : upload.Inv uploading) {phase : Phase} {aborted : Bool}
    (unloading : ∀ round, phase ≠ .loading round) (unresolved : phase ≠ .resolved true)
    (cancelled : phase = .resolved false → aborted = true) :
    upload.Inv { uploading with phase := phase, aborted := aborted } where
  sent := inv.sent
  covers := inv.covers
  rounds round loading := absurd loading (unloading round)
  loaded resolved := absurd resolved unresolved
  cancelled := cancelled

/-- Going back to the top of the loop keeps the invariant. -/
theorem Inv.top (inv : upload.Inv uploading) : upload.Inv uploading.top := by
  refine inv.move ?_ ?_ ?_
  · intro round
    split <;> exact nofun
  · split <;> exact nofun
  · split
    case isTrue aborted => exact fun _ => aborted
    case isFalse => exact nofun

/-- Waiting for the last transaction keeps the invariant. -/
theorem Inv.awaitLast (inv : upload.Inv uploading) (lastTxHash : Bool) :
    upload.Inv (uploading.awaitLast lastTxHash) := by
  unfold Uploading.awaitLast
  split
  · exact inv.move nofun nofun nofun
  · exact inv.top

/-- Every transaction writes something. -/
theorem slice_ne_nil (positive : 0 < upload.writeChunkSize) {index : Nat}
    (counts : index ∈ upload.indices) : upload.slice index ≠ [] :=
  chunk_ne_nil positive (List.mem_range.mp counts)

/-- A missing index is one of the upload's. -/
theorem missingIndices_sublist {data : List UInt8} {index : Nat}
    (missing : index ∈ upload.missingIndices data) : index ∈ upload.indices :=
  List.mem_of_mem_filter missing

/-- Comparing an answered snapshot keeps the invariant. -/
theorem Inv.compare (inv : upload.Inv uploading) (positive : 0 < upload.writeChunkSize)
    (workers : 0 < upload.loadConcurrency) {data : List UInt8} (answered : data ∈ uploading.snapshots) :
    upload.Inv (upload.compare uploading data) := by
  unfold Upload.compare
  by_cases equal : upload.onChainProgramBytes data = upload.programBytes
  · rw [if_pos equal]
    refine ⟨inv.sent, inv.covers, nofun, fun _ position => ?_, nofun⟩
    exact inv.covers data answered position (loaded_iff.mp equal position)
  · rw [if_neg equal]
    have full : ∀ index ∈ upload.missingIndices data, upload.slice index ≠ [] :=
      fun index missing => slice_ne_nil positive (missingIndices_sublist missing)
    obtain ⟨keeps, indices, length⟩ : RoundInv uploading.aborted
      (upload.startRound uploading.aborted (upload.missingIndices data)) ∧ _ ∧ _ := startRound_inv full
    refine ⟨?_, inv.covers, ?_, nofun, nofun⟩
    · intro write member
      rcases List.mem_append.mp member with before | now
      · exact inv.sent write before
      · obtain ⟨index, attempted, rfl⟩ := List.mem_map.mp now
        have taken := keeps.taken ▸ attempted
        rw [indices] at taken
        exact ⟨index, missingIndices_sublist (List.mem_of_mem_take taken), rfl⟩
    · rintro round ⟨⟩
      refine ⟨keeps, ?_, data, answered, indices⟩
      rw [← List.length_pos_iff, length]
      exact workers

/-- A send ends, and its worker goes on. -/
theorem Inv.resume (inv : upload.Inv uploading) (positive : 0 < upload.writeChunkSize) {round : Round}
    (loading : uploading.phase = .loading round) (worker : Nat) (outcome : SendOutcome) :
    upload.Inv { uploading with
      phase := .loading { (upload.resume uploading.aborted round outcome).1 with
        workers := (upload.resume uploading.aborted round outcome).1.workers.set worker
          (upload.resume uploading.aborted round outcome).2 }
      sent := uploading.sent ++
        (upload.resume uploading.aborted round outcome).2.toList.map upload.write } := by
  obtain ⟨keeps, some_, data, answered, indices⟩ := inv.rounds round loading
  have counts : ∀ index ∈ round.indices, index ∈ upload.indices := by
    intro index member
    exact missingIndices_sublist (indices ▸ member)
  have advances : Advances uploading.aborted round _ _ := resume_advances
    (fun index member => slice_ne_nil positive (counts index member)) keeps.taken outcome
  refine ⟨?_, inv.covers, ?_, nofun, nofun⟩
  · intro write member
    rcases List.mem_append.mp member with before | now
    · exact inv.sent write before
    · obtain ⟨index, sending, rfl⟩ := List.mem_map.mp now
      have attempted := advances.taken ▸ advances.sends sending
      rw [advances.indices] at attempted
      exact ⟨index, counts index (List.mem_of_mem_take attempted), rfl⟩
  · rintro _ ⟨⟩
    refine ⟨keeps.advance advances fun ended => ?_, ?_, data, answered, ?_⟩
    · rw [advances.workers] at ended
      exact (List.mem_or_eq_of_mem_set ended).imp_right Eq.symm
    · rw [advances.workers]
      simpa using some_
    · exact advances.indices.trans indices

/-- What was sent lands. -/
theorem Inv.land (inv : upload.Inv uploading) {write : Write} (sent : write ∈ uploading.sent) :
    upload.Inv (uploading.land write) ∧ upload.Covers uploading.account (uploading.land write).account := by
  obtain ⟨index, -, rfl⟩ := inv.sent write sent
  have right : upload.Covers uploading.account (uploading.land (upload.write index)).account :=
    covers_overlay index
  refine ⟨⟨inv.sent, ?_, ?_, ?_, inv.cancelled⟩, right⟩
  · intro data member
    rcases List.mem_append.mp member with before | now
    · exact fun position agrees => right position (inv.covers data before position agrees)
    · rw [List.mem_singleton.mp now]
      exact fun position agrees => agrees
  · intro round loading
    obtain ⟨keeps, some_, data, answered, indices⟩ := inv.rounds round loading
    exact ⟨keeps, some_, data, List.mem_append_left _ answered, indices⟩
  · exact fun resolved position => right position (inv.loaded resolved position)

/-- A step keeps the invariant, and what is right in the account stays so. -/
theorem step_inv (inv : upload.Inv uploading) (positive : 0 < upload.writeChunkSize)
    (workers : 0 < upload.loadConcurrency) {event : UploadEvent}
    (stepped : upload.next uploading event = some after) :
    upload.Inv after ∧ upload.Covers uploading.account after.account := by
  have same : upload.Covers uploading.account uploading.account := fun _ agrees => agrees
  cases event with
  | simulated succeeded =>
      simp only [next] at stepped
      split at stepped
      · cases stepped
        split
        · exact ⟨inv.top, same⟩
        · exact ⟨inv.move nofun nofun nofun, same⟩
      · cases stepped
  | fetched snapshot =>
      simp only [next] at stepped
      split at stepped
      · obtain ⟨data, found, rfl⟩ := Option.map_eq_some_iff.mp stepped
        refine ⟨inv.compare positive workers (List.mem_of_getElem? found), ?_⟩
        unfold Upload.compare
        split <;> exact same
      · cases stepped
  | sendEnds worker outcome =>
      simp only [next] at stepped
      split at stepped
      case h_1 round loading =>
        split at stepped
        · cases stepped
          exact ⟨inv.resume positive loading worker outcome, same⟩
        · cases stepped
      case h_2 => cases stepped
  | joined =>
      simp only [next] at stepped
      split at stepped
      · split at stepped
        · cases stepped
          split
          · exact ⟨inv.top, same⟩
          · split
            · exact ⟨inv.move nofun nofun nofun, same⟩
            · refine ⟨inv.awaitLast _, ?_⟩
              unfold Uploading.awaitLast
              split <;> exact same
        · cases stepped
      · cases stepped
  | slept =>
      simp only [next] at stepped
      split at stepped
      · cases stepped
        refine ⟨inv.awaitLast _, ?_⟩
        unfold Uploading.awaitLast
        split <;> exact same
      · cases stepped
        exact ⟨inv.top, same⟩
      · cases stepped
  | confirmed succeeded =>
      simp only [next] at stepped
      split at stepped
      · cases stepped
        split
        · exact ⟨inv.top, same⟩
        · exact ⟨inv.move nofun nofun nofun, same⟩
      · cases stepped
  | landed write =>
      obtain ⟨landed, found, rfl⟩ := Option.map_eq_some_iff.mp stepped
      exact inv.land (List.mem_of_getElem? found)
  | abort =>
      simp only [next] at stepped
      split at stepped
      · cases stepped
        exact ⟨inv.move nofun nofun nofun, same⟩
      · cases stepped
        refine ⟨⟨inv.sent, inv.covers, fun round loading => ?_, inv.loaded, fun _ => rfl⟩, same⟩
        obtain ⟨keeps, rest⟩ := inv.rounds round loading
        exact ⟨keeps.abort, rest⟩

/-- The invariant holds at the start. -/
theorem initial_inv (initial : upload.machine.Initial uploading) : upload.Inv uploading := by
  obtain ⟨simulating, sent, snapshots⟩ := initial
  refine ⟨?_, ?_, ?_, ?_, ?_⟩
  · simp [sent]
  · intro data member
    rw [snapshots, List.mem_singleton] at member
    exact fun position agrees => member ▸ agrees
  · exact fun round loading => nomatch simulating.symm.trans loading
  · exact fun resolved => nomatch simulating.symm.trans resolved
  · exact fun resolved => nomatch simulating.symm.trans resolved

/-- The claims about a state follow from the invariant. -/
theorem Inv.correct (inv : upload.Inv uploading) (positive : 0 < upload.writeChunkSize)
    (workers : 0 < upload.loadConcurrency) : upload.Correct uploading where
  exact := inv.sent
  shrinks event after stepped := missingIndices_subset (step_inv inv positive workers stepped).2
  rounds round loading unaborted := by
    obtain ⟨keeps, some_, data, answered, indices⟩ := inv.rounds round loading
    refine ⟨⟨data, answered, indices⟩, ?_, ?_, ?_⟩
    · rw [indices]
      exact missingIndices_subset (inv.covers data answered)
    · rw [indices]
      exact missingIndices_nodup
    · exact (unaborted ▸ keeps).complete some_
  loaded found resolved regular := by
    cases found with
    | true => exact loaded_iff.mpr (inv.loaded resolved)
    | false =>
        rcases regular with unaborted | impossible
        · cases (inv.cancelled resolved).symm.trans unaborted
        · cases impossible

end Runs

/-- With at least one worker, an upload divides the program into its chunks, sends each where
it belongs, attempts in each round what is wrong, and is not done before the program is on
chain. -/
theorem correct_of_reachable (upload : Upload) (positive : 0 < upload.writeChunkSize)
    (workers : 0 < upload.loadConcurrency) :
    upload.Partitions ∧ ∀ uploading, upload.machine.Reachable uploading → upload.Correct uploading := by
  refine ⟨partitions upload positive, fun uploading reachable => ?_⟩
  let invariant : upload.machine.Invariant :=
    ⟨upload.Inv, initial_inv, fun inv stepped => (step_inv inv positive workers stepped).1⟩
  exact (invariant.of_reachable reachable).correct positive workers

/-- Three bytes in chunks of two, and one worker. -/
def threeBytes (loadConcurrency : Nat) : Upload :=
  ⟨[1, 2, 3], 2, loadConcurrency, fun _ => none⟩

/-- The account of the three bytes before anything is written. -/
def emptyBuffer : Uploading :=
  ⟨.simulating, false, List.replicate 40 0, [List.replicate 40 0], []⟩

/-- An upload of three bytes with one worker is correct. -/
theorem threeBytes_correct : (threeBytes 1).Partitions ∧
    ∀ uploading, (threeBytes 1).machine.Reachable uploading → (threeBytes 1).Correct uploading :=
  correct_of_reachable (threeBytes 1) (by decide) (by decide)

/-- Without workers a round ends with nothing attempted. -/
theorem not_always_correct : ¬ ∀ upload : Upload, 0 < upload.writeChunkSize →
    upload.Partitions ∧ ∀ uploading, upload.machine.Reachable uploading → upload.Correct uploading := by
  intro always
  obtain ⟨reached, ran, unaborted, round, loading, ended, unlimited, different⟩ : ∃ reached,
      (threeBytes 0).machine.run emptyBuffer [.simulated true, .fetched 0] = some reached ∧
        reached.aborted = false ∧ ∃ round, reached.phase = .loading round ∧
          round.workers.all Option.isNone = true ∧ round.isRateLimited = false ∧
          round.attempted ≠ round.indices :=
    ⟨_, rfl, rfl, _, rfl, rfl, rfl, by decide⟩
  have correct := (always (threeBytes 0) (by decide)).2 reached
    ⟨emptyBuffer, _, ⟨rfl, rfl, rfl⟩, ran⟩
  exact different ((correct.rounds round loading unaborted).2.2.2 ended unlimited)

end Upload

end Solpg.Client.Commands.Deploy
