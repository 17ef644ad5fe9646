import Mathlib.Logic.Function.Basic
import Solpg.Std.Machine
import Solpg.Std.Table

/-!
# The daily tutor quota

`LearningState::consume_ai_turn` of `routes/learning/session.rs`. A call reads
the UTC day, awaits the usage lock and then checks and counts its turn without
releasing it, so the critical section is one action. `quotaMachine` interleaves
any number of calls with a clock that only moves forward.
-/

namespace Solpg.Server.Routes.Learning

open Solpg.Std

variable {κ Session Ip : Type}

/-- The turns of a day. -/
structure DailyUsage where
  day : Nat
  aiTurns : Nat
  deriving DecidableEq, Repr

/-- A `HashMap` of usages, as the partial function that `get` computes. -/
abbrev UsageMap (κ : Type) := κ → Option DailyUsage

/-- The turns of sessions, of addresses and of all. -/
structure UsageCounters (Session Ip : Type) where
  sessions : UsageMap Session
  ips : UsageMap Ip
  global : DailyUsage

/-- `UsageCounters::default`. -/
def UsageCounters.default : UsageCounters Session Ip where
  sessions _ := none
  ips _ := none
  global := ⟨0, 0⟩

/-- The `u32` limits of a `LearningState`. -/
structure Limits where
  aiDailyLimit : Nat
  aiGlobalDailyLimit : Nat
  daily_lt : aiDailyLimit < 2 ^ 32
  global_lt : aiGlobalDailyLimit < 2 ^ 32

/-- What one call returns: the remaining turns, or the limit error. Rust's
arithmetic check fails in the third case. -/
inductive TurnResult where
  | remaining (turns : Nat)
  | limitReached
  | overflowed
  deriving DecidableEq, Repr

/-- `ai_turns += 1` on a `u32`. -/
def DailyUsage.addTurn (usage : DailyUsage) : Option DailyUsage :=
  if usage.aiTurns + 1 < 2 ^ 32 then some { usage with aiTurns := usage.aiTurns + 1 } else none

/-- `HashMap::retain`. -/
def UsageMap.retain (usages : UsageMap κ) (keep : DailyUsage → Bool) : UsageMap κ :=
  fun key => (usages key).filter keep

/-- Forget every counter that is not of `day`. -/
def UsageCounters.retainDay (usage : UsageCounters Session Ip) (day : Nat) :
    UsageCounters Session Ip where
  sessions := usage.sessions.retain fun value => value.day == day
  ips := usage.ips.retain fun value => value.day == day
  global := if usage.global.day ≠ day then ⟨day, 0⟩ else usage.global

variable [DecidableEq Session] [DecidableEq Ip]

/-- The part of `consume_ai_turn` that runs under the usage lock. -/
def consumeAiTurn (limits : Limits) (usage : UsageCounters Session Ip) (owner : Session)
    (peerIp : Ip) (day : Nat) : TurnResult × UsageCounters Session Ip :=
  let usage := usage.retainDay day
  let sessionUsage := (usage.sessions owner).getD ⟨day, 0⟩
  let ipUsage := (usage.ips peerIp).getD ⟨day, 0⟩
  let inserted : UsageCounters Session Ip :=
    { sessions := Function.update usage.sessions owner (some sessionUsage)
      ips := Function.update usage.ips peerIp (some ipUsage)
      global := usage.global }
  if sessionUsage.aiTurns ≥ limits.aiDailyLimit ∨ ipUsage.aiTurns ≥ limits.aiDailyLimit ∨
      usage.global.aiTurns ≥ limits.aiGlobalDailyLimit then
    (.limitReached, inserted)
  else
    match sessionUsage.addTurn, ipUsage.addTurn, usage.global.addTurn with
    | some sessionUsage, some ipUsage, some global =>
        let counted : UsageCounters Session Ip :=
          { sessions := Function.update inserted.sessions owner (some sessionUsage)
            ips := Function.update inserted.ips peerIp (some ipUsage)
            global := global }
        if sessionUsage.aiTurns ≤ limits.aiDailyLimit then
          (.remaining (limits.aiDailyLimit - sessionUsage.aiTurns), counted)
        else (.overflowed, counted)
    | _, _, _ => (.overflowed, inserted)

/-- The turns one usage counts for `day`. -/
def DailyUsage.turnsOn (usage : DailyUsage) (day : Nat) : Nat :=
  if usage.day = day then usage.aiTurns else 0

/-- The turns a map counts for `day` under one key. -/
def UsageMap.turnsOn (usages : UsageMap κ) (day : Nat) (key : κ) : Nat :=
  match usages key with
  | some usage => usage.turnsOn day
  | none => 0

/-- Every counter of the map is of `day`. -/
def UsageMap.Of (usages : UsageMap κ) (day : Nat) : Prop :=
  ∀ key usage, usages key = some usage → usage.day = day

/-- Every counter is of `day`. -/
structure UsageCounters.Of (usage : UsageCounters Session Ip) (day : Nat) : Prop where
  sessions : usage.sessions.Of day
  ips : usage.ips.Of day
  global : usage.global.day = day

section Counters

variable {usages : UsageMap κ} {day : Nat}

/-- Of another day there are no turns. -/
theorem UsageMap.Of.turnsOn_ne (ofDay : usages.Of day) {other : Nat} (different : other ≠ day)
    (key : κ) : usages.turnsOn other key = 0 := by
  simp only [UsageMap.turnsOn]
  split
  next usage found =>
    have same := ofDay key usage found
    simp [DailyUsage.turnsOn, same, Ne.symm different]
  next => rfl

/-- The entry that `retain` and `or_insert` leave counts the turns of `day`. -/
theorem UsageMap.retain_getD (usages : UsageMap κ) (day : Nat) (key : κ) :
    ((usages.retain fun value => value.day == day) key).getD ⟨day, 0⟩ =
      ⟨day, usages.turnsOn day key⟩ := by
  simp only [UsageMap.retain, UsageMap.turnsOn]
  cases found : usages key with
  | none => rfl
  | some usage =>
      by_cases same : usage.day = day
      · subst same
        simp [Option.filter, DailyUsage.turnsOn]
      · simp [Option.filter, DailyUsage.turnsOn, same]

/-- After `retain`, adding `extra` turns of `day` under one key leaves a map of
`day` that counts them there and the old turns everywhere. -/
theorem UsageMap.update_retain [DecidableEq κ] (usages : UsageMap κ) (day : Nat) (key : κ)
    (extra : Nat) :
    let updated : UsageMap κ := Function.update (usages.retain fun value => value.day == day) key
      (some ⟨day, usages.turnsOn day key + extra⟩)
    updated.Of day ∧
      ∀ other, updated.turnsOn day other =
        usages.turnsOn day other + if other = key then extra else 0 := by
  constructor
  · intro other usage found
    by_cases same : other = key
    · subst same
      simp at found
      rw [← found]
    · rw [Function.update_of_ne same] at found
      simp only [UsageMap.retain, Option.filter_eq_some_iff] at found
      simpa using found.2
  · intro other
    by_cases same : other = key
    · subst same
      simp [UsageMap.turnsOn, DailyUsage.turnsOn]
    · have kept := UsageMap.retain_getD usages day other
      simp only [UsageMap.turnsOn, Function.update_of_ne same, if_neg same] at kept ⊢
      cases found : usages.retain (fun value => value.day == day) other with
      | none => simpa [found] using congrArg DailyUsage.aiTurns kept
      | some usage =>
          simp only [found, Option.getD_some] at kept
          simp [kept, DailyUsage.turnsOn]

end Counters

/-- What the critical section can do, in terms of the turns counted for the
call's day: it refuses and counts nothing, or it counts one turn everywhere. -/
theorem consumeAiTurn_cases (limits : Limits) (usage : UsageCounters Session Ip) (owner : Session)
    (peerIp : Ip) (day : Nat) :
    let after := (consumeAiTurn limits usage owner peerIp day).2
    after.Of day ∧
    (((consumeAiTurn limits usage owner peerIp day).1 = .limitReached ∧
        (∀ key, after.sessions.turnsOn day key = usage.sessions.turnsOn day key) ∧
        (∀ key, after.ips.turnsOn day key = usage.ips.turnsOn day key) ∧
        after.global.aiTurns = usage.global.turnsOn day) ∨
      (usage.sessions.turnsOn day owner < limits.aiDailyLimit ∧
        usage.ips.turnsOn day peerIp < limits.aiDailyLimit ∧
        usage.global.turnsOn day < limits.aiGlobalDailyLimit ∧
        (consumeAiTurn limits usage owner peerIp day).1 =
          .remaining (limits.aiDailyLimit - (usage.sessions.turnsOn day owner + 1)) ∧
        (∀ key, after.sessions.turnsOn day key =
          usage.sessions.turnsOn day key + if key = owner then 1 else 0) ∧
        (∀ key, after.ips.turnsOn day key =
          usage.ips.turnsOn day key + if key = peerIp then 1 else 0) ∧
        after.global.aiTurns = usage.global.turnsOn day + 1)) := by
  have session := UsageMap.retain_getD usage.sessions day owner
  have ip := UsageMap.retain_getD usage.ips day peerIp
  have global : (usage.retainDay day).global = ⟨day, usage.global.turnsOn day⟩ := by
    by_cases same : usage.global.day = day
    · subst same
      simp [UsageCounters.retainDay, DailyUsage.turnsOn]
    · simp [UsageCounters.retainDay, DailyUsage.turnsOn, same]
  simp only [consumeAiTurn, global]
  simp only [UsageCounters.retainDay, session, ip]
  by_cases limited : usage.sessions.turnsOn day owner ≥ limits.aiDailyLimit ∨
      usage.ips.turnsOn day peerIp ≥ limits.aiDailyLimit ∨
      usage.global.turnsOn day ≥ limits.aiGlobalDailyLimit
  · obtain ⟨sessionsOf, sessionTurns⟩ := UsageMap.update_retain usage.sessions day owner 0
    obtain ⟨ipsOf, ipTurns⟩ := UsageMap.update_retain usage.ips day peerIp 0
    rw [if_pos limited]
    refine ⟨⟨sessionsOf, ipsOf, rfl⟩, .inl ⟨rfl, fun key => ?_, fun key => ?_, rfl⟩⟩
    · simpa using sessionTurns key
    · simpa using ipTurns key
  · obtain ⟨sessionsOf, sessionTurns⟩ := UsageMap.update_retain usage.sessions day owner 1
    obtain ⟨ipsOf, ipTurns⟩ := UsageMap.update_retain usage.ips day peerIp 1
    rw [if_neg limited]
    push Not at limited
    obtain ⟨sessionFree, ipFree, globalFree⟩ := limited
    have dailyLt := limits.daily_lt
    have globalLt := limits.global_lt
    have sessionFits : usage.sessions.turnsOn day owner + 1 < 2 ^ 32 := by omega
    have ipFits : usage.ips.turnsOn day peerIp + 1 < 2 ^ 32 := by omega
    have globalFits : usage.global.turnsOn day + 1 < 2 ^ 32 := by omega
    have remains : usage.sessions.turnsOn day owner + 1 ≤ limits.aiDailyLimit := sessionFree
    simp only [DailyUsage.addTurn, if_pos sessionFits, if_pos ipFits, if_pos globalFits,
      Function.update_idem, if_pos remains]
    exact ⟨⟨sessionsOf, ipsOf, rfl⟩,
      .inr ⟨sessionFree, ipFree, globalFree, trivial, sessionTurns, ipTurns, trivial⟩⟩

/-- `after` counts no more turns than `before`, on any day. -/
structure UsageCounters.CountsNoMore (after before : UsageCounters Session Ip) : Prop where
  sessions : ∀ day key, after.sessions.turnsOn day key ≤ before.sessions.turnsOn day key
  ips : ∀ day key, after.ips.turnsOn day key ≤ before.ips.turnsOn day key
  global : ∀ day, after.global.turnsOn day ≤ before.global.turnsOn day

/-- A rejected call increases no counter: it counts nothing on its own day and
forgets the other ones. -/
theorem consumeAiTurn_limitReached {limits : Limits} {usage : UsageCounters Session Ip}
    {owner : Session} {peerIp : Ip} {day : Nat}
    (rejected : (consumeAiTurn limits usage owner peerIp day).1 = .limitReached) :
    (consumeAiTurn limits usage owner peerIp day).2.CountsNoMore usage := by
  obtain ⟨counters, ⟨-, sessions, ips, global⟩ | ⟨-, -, -, remains, -⟩⟩ :=
    consumeAiTurn_cases limits usage owner peerIp day
  · constructor
    case sessions =>
      intro other key
      obtain rfl | different := eq_or_ne other day
      · exact Nat.le_of_eq (sessions key)
      · simp [counters.sessions.turnsOn_ne different]
    case ips =>
      intro other key
      obtain rfl | different := eq_or_ne other day
      · exact Nat.le_of_eq (ips key)
      · simp [counters.ips.turnsOn_ne different]
    case global =>
      intro other
      obtain rfl | different := eq_or_ne other day
      · simpa [DailyUsage.turnsOn, counters.global] using Nat.le_of_eq global
      · simp [DailyUsage.turnsOn, counters.global, different.symm]
  · rw [remains] at rejected
    cases rejected

/-- Neither the counters nor the remaining turns leave their type. -/
theorem consumeAiTurn_ne_overflowed (limits : Limits) (usage : UsageCounters Session Ip)
    (owner : Session) (peerIp : Ip) (day : Nat) :
    (consumeAiTurn limits usage owner peerIp day).1 ≠ .overflowed := by
  obtain ⟨-, ⟨refused, -⟩ | ⟨-, -, -, remains, -⟩⟩ :=
    consumeAiTurn_cases limits usage owner peerIp day
  · simp [refused]
  · simp [remains]

/-- Where one call of `consume_ai_turn` is: it has read its day and waits for
the usage lock, it has returned, or its future was dropped while it waited. -/
inductive CallStatus where
  | waiting
  | returned (result : TurnResult)
  | cancelled
  deriving DecidableEq, Repr

/-- A request for a turn. -/
structure Call (Session Ip : Type) where
  owner : Session
  peerIp : Ip
  day : Nat
  status : CallStatus
  deriving DecidableEq, Repr

/-- The call returned `Ok`. -/
def Call.accepted (call : Call Session Ip) : Bool :=
  match call.status with
  | .returned (.remaining _) => true
  | _ => false

/-- The wall clock in Unix seconds, the locked counters and all calls so far. -/
structure QuotaState (Session Ip : Type) where
  clock : Nat
  usage : UsageCounters Session Ip
  calls : List (Call Session Ip)

/-- Time passes, or a call takes a step. -/
inductive QuotaAction (Session Ip : Type) where
  | tick (seconds : Nat)
  /-- A call starts: it reads the UTC day and awaits the lock. -/
  | begin (owner : Session) (peerIp : Ip)
  /-- A waiting call gets the lock and runs to its end. -/
  | lock (call : Nat)
  | cancel (call : Nat)

namespace QuotaState

/-- A call takes a step. -/
def setStatus (state : QuotaState Session Ip) (index : Nat) (call : Call Session Ip)
    (status : CallStatus) (usage : UsageCounters Session Ip) : QuotaState Session Ip :=
  { state with usage, calls := state.calls.set index { call with status } }

/-- What an action makes of the state; `none` is an action that cannot be taken. -/
def next (limits : Limits) (state : QuotaState Session Ip) :
    QuotaAction Session Ip → Option (QuotaState Session Ip)
  | .tick seconds => some { state with clock := state.clock + seconds }
  | .begin owner peerIp =>
      some { state with
        calls := state.calls ++ [⟨owner, peerIp, state.clock / 86400, .waiting⟩] }
  | .lock index =>
      match state.calls[index]? with
      | some call =>
          if call.status = .waiting then
            let (result, usage) :=
              consumeAiTurn limits state.usage call.owner call.peerIp call.day
            some (state.setStatus index call (.returned result) usage)
          else none
      | none => none
  | .cancel index =>
      match state.calls[index]? with
      | some call =>
          if call.status = .waiting then
            some (state.setStatus index call .cancelled state.usage)
          else none
      | none => none

/-- The calls that returned `Ok`, among those that `select` chooses. -/
def accepted (state : QuotaState Session Ip) (select : Call Session Ip → Bool) : Nat :=
  state.calls.countP fun call => call.accepted && select call

/-- The calls of a session on a day. -/
def ofSession (day : Nat) (owner : Session) (call : Call Session Ip) : Bool :=
  call.day == day && call.owner == owner

/-- The calls of an address on a day. -/
def ofIp (day : Nat) (peerIp : Ip) (call : Call Session Ip) : Bool :=
  call.day == day && call.peerIp == peerIp

/-- The calls of a day. -/
def ofDay (day : Nat) (call : Call Session Ip) : Bool := call.day == day

/-- The daily limits, over the day that each call read. -/
structure WithinLimits (limits : Limits) (state : QuotaState Session Ip) : Prop where
  session : ∀ day owner, state.accepted (ofSession day owner) ≤ limits.aiDailyLimit
  ip : ∀ day peerIp, state.accepted (ofIp day peerIp) ≤ limits.aiDailyLimit
  global : ∀ day, state.accepted (ofDay day) ≤ limits.aiGlobalDailyLimit

/-- The call that gets the lock read its day no earlier than the counters' day:
it was not overtaken across midnight. -/
def inOrder (state : QuotaState Session Ip) : QuotaAction Session Ip → Bool
  | .lock index =>
      match state.calls[index]? with
      | some call => decide (state.usage.global.day ≤ call.day)
      | none => true
  | _ => true

end QuotaState

/-- Every interleaving of `consume_ai_turn` calls with the clock. -/
def quotaMachine (limits : Limits) :
    Machine (QuotaState Session Ip) (QuotaAction Session Ip) where
  Initial state := state.usage = UsageCounters.default ∧ state.calls = []
  next := QuotaState.next limits

namespace QuotaState

variable {limits : Limits} {current after : QuotaState Session Ip}
  {action : QuotaAction Session Ip}

/-- The counters are of one day, count the accepted calls of that day, and no
accepted call is of a later day. -/
structure Counted (limits : Limits) (state : QuotaState Session Ip) : Prop where
  counters : state.usage.Of state.usage.global.day
  past : ∀ call ∈ state.calls, call.accepted = true → call.day ≤ state.usage.global.day
  sessions : ∀ owner, state.accepted (QuotaState.ofSession state.usage.global.day owner) =
    state.usage.sessions.turnsOn state.usage.global.day owner
  ips : ∀ peerIp, state.accepted (QuotaState.ofIp state.usage.global.day peerIp) =
    state.usage.ips.turnsOn state.usage.global.day peerIp
  global : state.accepted (QuotaState.ofDay state.usage.global.day) = state.usage.global.aiTurns
  within : state.WithinLimits limits

omit [DecidableEq Session] [DecidableEq Ip] in
/-- Settling a waiting call adds it to the accepted ones if it returned `Ok`. -/
theorem accepted_setStatus {index : Nat} {call : Call Session Ip} {status : CallStatus}
    {usage : UsageCounters Session Ip} {select : Call Session Ip → Bool}
    (found : current.calls[index]? = some call) (waiting : call.status = .waiting)
    (stable : select { call with status } = select call) :
    (current.setStatus index call status usage).accepted select =
      current.accepted select +
        (({ call with status } : Call Session Ip).accepted && select call).toNat := by
  have counted := Table.countP_set_add (fun entry => entry.accepted && select entry)
    { call with status } found
  have idle : call.accepted = false := by simp [Call.accepted, waiting]
  simp only [idle, Bool.false_and, Bool.toNat_false, Nat.add_zero, stable] at counted
  exact counted

/-- No accepted call of a day later than the counters'. -/
theorem Counted.accepted_later (counted : current.Counted limits) {day : Nat}
    (later : current.usage.global.day < day) {select : Call Session Ip → Bool}
    (selects : ∀ call, select call = true → call.day = day) : current.accepted select = 0 := by
  rw [accepted, List.countP_eq_zero]
  intro call member
  simp only [Bool.and_eq_true, not_and]
  intro isAccepted selected
  have notLater := counted.past call member isAccepted
  have same := selects call selected
  omega

/-- From the counters' day on, the session counters count the accepted calls. -/
theorem Counted.accepted_session (counted : current.Counted limits) {day : Nat}
    (notPast : current.usage.global.day ≤ day) (owner : Session) :
    current.accepted (ofSession day owner) = current.usage.sessions.turnsOn day owner := by
  obtain later | rfl := Nat.lt_or_eq_of_le notPast
  · rw [counted.counters.sessions.turnsOn_ne (Nat.ne_of_gt later)]
    apply counted.accepted_later later
    intro call selected
    simp only [ofSession, Bool.and_eq_true, beq_iff_eq] at selected
    exact selected.1
  · exact counted.sessions owner

/-- The turns of an address are its accepted calls. -/
theorem Counted.accepted_ip (counted : current.Counted limits) {day : Nat}
    (notPast : current.usage.global.day ≤ day) (peerIp : Ip) :
    current.accepted (ofIp day peerIp) = current.usage.ips.turnsOn day peerIp := by
  obtain later | rfl := Nat.lt_or_eq_of_le notPast
  · rw [counted.counters.ips.turnsOn_ne (Nat.ne_of_gt later)]
    apply counted.accepted_later later
    intro call selected
    simp only [ofIp, Bool.and_eq_true, beq_iff_eq] at selected
    exact selected.1
  · exact counted.ips peerIp

/-- The turns of a day are its accepted calls. -/
theorem Counted.accepted_day (counted : current.Counted limits) {day : Nat}
    (notPast : current.usage.global.day ≤ day) :
    current.accepted (ofDay day) = current.usage.global.turnsOn day := by
  obtain later | rfl := Nat.lt_or_eq_of_le notPast
  · rw [counted.accepted_later later (by simp [ofDay])]
    simp [DailyUsage.turnsOn, Nat.ne_of_lt later]
  · simpa [DailyUsage.turnsOn] using counted.global

/-- A call that gets the lock in order and counts `turn` turns everywhere, below
the limits, leaves a state of the same kind. -/
theorem Counted.settle (counted : current.Counted limits) {index : Nat} {call : Call Session Ip}
    {status : CallStatus} {usage : UsageCounters Session Ip} (turn : Bool)
    (found : current.calls[index]? = some call) (waiting : call.status = .waiting)
    (notPast : current.usage.global.day ≤ call.day)
    (result : ({ call with status } : Call Session Ip).accepted = turn)
    (counters : usage.Of call.day)
    (sessions : ∀ key, usage.sessions.turnsOn call.day key =
      current.usage.sessions.turnsOn call.day key + if key = call.owner then turn.toNat else 0)
    (ips : ∀ key, usage.ips.turnsOn call.day key =
      current.usage.ips.turnsOn call.day key + if key = call.peerIp then turn.toNat else 0)
    (global : usage.global.aiTurns = current.usage.global.turnsOn call.day + turn.toNat)
    (fits : turn = true → current.usage.sessions.turnsOn call.day call.owner < limits.aiDailyLimit ∧
      current.usage.ips.turnsOn call.day call.peerIp < limits.aiDailyLimit ∧
      current.usage.global.turnsOn call.day < limits.aiGlobalDailyLimit) :
    (current.setStatus index call status usage).Counted limits := by
  have settled : ∀ select : Call Session Ip → Bool, select { call with status } = select call →
      (current.setStatus index call status usage).accepted select =
        current.accepted select + (turn && select call).toNat := by
    intro select stable
    rw [accepted_setStatus found waiting stable, result]
  have session := counted.accepted_session notPast
  have ip := counted.accepted_ip notPast
  have day := counted.accepted_day notPast
  have sameDay : usage.global.day = call.day := counters.global
  constructor
  case counters => simpa [setStatus, sameDay] using counters
  case past =>
    intro entry member isAccepted
    simp only [setStatus, sameDay] at member ⊢
    obtain ⟨position, foundEntry⟩ := List.mem_iff_getElem?.mp member
    obtain ⟨-, rfl⟩ | ⟨-, old⟩ := Table.getElem?_set_cases foundEntry
    · exact Nat.le_refl _
    · exact (counted.past entry (List.mem_of_getElem? old) isAccepted).trans notPast
  case sessions =>
    intro owner
    simp only [setStatus, sameDay] at settled ⊢
    rw [settled _ rfl, session, sessions owner]
    obtain rfl | different := eq_or_ne owner call.owner
    · simp [ofSession]
    · simp [ofSession, different, different.symm]
  case ips =>
    intro peerIp
    simp only [setStatus, sameDay] at settled ⊢
    rw [settled _ rfl, ip, ips peerIp]
    obtain rfl | different := eq_or_ne peerIp call.peerIp
    · simp [ofIp]
    · simp [ofIp, different, different.symm]
  case global =>
    simp only [setStatus, sameDay] at settled ⊢
    rw [settled _ rfl, day, global]
    simp [ofDay]
  case within =>
    have bounded : ∀ (select : Call Session Ip → Bool) (limit : Nat),
        select { call with status } = select call → current.accepted select ≤ limit →
        (turn = true → select call = true → current.accepted select < limit) →
        (current.setStatus index call status usage).accepted select ≤ limit := by
      intro select limit stable before room
      rw [settled select stable]
      cases taken : turn && select call with
      | false => simpa using before
      | true =>
          obtain ⟨turned, selected⟩ := Bool.and_eq_true_iff.mp taken
          exact room turned selected
    constructor
    · intro other owner
      refine bounded _ _ rfl (counted.within.session other owner) fun turned selected => ?_
      simp only [ofSession, Bool.and_eq_true, beq_iff_eq] at selected
      obtain ⟨rfl, rfl⟩ := selected
      exact session call.owner ▸ (fits turned).1
    · intro other peerIp
      refine bounded _ _ rfl (counted.within.ip other peerIp) fun turned selected => ?_
      simp only [ofIp, Bool.and_eq_true, beq_iff_eq] at selected
      obtain ⟨rfl, rfl⟩ := selected
      exact ip call.peerIp ▸ (fits turned).2.1
    · intro other
      refine bounded _ _ rfl (counted.within.global other) fun turned selected => ?_
      obtain rfl : call.day = other := by simpa [ofDay] using selected
      exact day ▸ (fits turned).2.2

/-- The critical section settles its call. -/
theorem Counted.lock (counted : current.Counted limits) {index : Nat} {call : Call Session Ip}
    (found : current.calls[index]? = some call) (waiting : call.status = .waiting)
    (notPast : current.usage.global.day ≤ call.day) :
    (current.setStatus index call
      (.returned (consumeAiTurn limits current.usage call.owner call.peerIp call.day).1)
      (consumeAiTurn limits current.usage call.owner call.peerIp call.day).2).Counted limits := by
  obtain ⟨counters, ⟨refused, sessions, ips, global⟩ |
    ⟨sessionFree, ipFree, globalFree, remains, sessions, ips, global⟩⟩ :=
    consumeAiTurn_cases limits current.usage call.owner call.peerIp call.day
  · refine counted.settle false found waiting notPast ?_ counters ?_ ?_ global (by simp)
    · simp [Call.accepted, refused]
    · simpa using sessions
    · simpa using ips
  · refine counted.settle true found waiting notPast ?_ counters sessions ips global ?_
    · simp [Call.accepted, remains]
    · exact fun _ => ⟨sessionFree, ipFree, globalFree⟩

/-- A change of the calls that accepts none and leaves the counters is harmless. -/
theorem Counted.of_same (counted : current.Counted limits) (usage : after.usage = current.usage)
    (members : ∀ call ∈ after.calls, call.accepted = true → call ∈ current.calls)
    (same : ∀ select : Call Session Ip → Bool,
      (∀ call status, select { call with status } = select call) →
      after.accepted select = current.accepted select) : after.Counted limits where
  counters := usage ▸ counted.counters
  past call member isAccepted := by
    rw [usage]
    exact counted.past call (members call member isAccepted) isAccepted
  sessions owner := by
    rw [same _ fun _ _ => rfl, usage]
    exact counted.sessions owner
  ips peerIp := by
    rw [same _ fun _ _ => rfl, usage]
    exact counted.ips peerIp
  global := by
    rw [same _ fun _ _ => rfl, usage]
    exact counted.global
  within := by
    constructor
    · intro day owner
      rw [same _ fun _ _ => rfl]
      exact counted.within.session day owner
    · intro day peerIp
      rw [same _ fun _ _ => rfl]
      exact counted.within.ip day peerIp
    · intro day
      rw [same _ fun _ _ => rfl]
      exact counted.within.global day

/-- Every action in order keeps the counters exact and the quotas. -/
theorem Counted.step (counted : current.Counted limits) (ordered : current.inOrder action = true)
    (stepped : current.next limits action = some after) : after.Counted limits := by
  cases action with
  | tick seconds =>
      cases stepped
      exact counted.of_same rfl (fun _ member _ => member) fun _ _ => rfl
  | begin owner peerIp =>
      cases stepped
      refine counted.of_same rfl ?_ fun select _ => by simp [accepted, Call.accepted]
      intro call member isAccepted
      obtain old | rfl := by simpa using member
      · exact old
      · simp [Call.accepted] at isAccepted
  | lock index =>
      simp only [next] at stepped
      split at stepped
      next call found =>
        split at stepped <;> cases stepped
        next waiting =>
          have notPast : current.usage.global.day ≤ call.day := by
            simpa [inOrder, found] using ordered
          exact counted.lock found waiting notPast
      next => cases stepped
  | cancel index =>
      simp only [next] at stepped
      split at stepped
      next call found =>
        split at stepped <;> cases stepped
        next waiting =>
          refine counted.of_same rfl ?_ fun select stable => ?_
          · intro entry member isAccepted
            obtain ⟨position, foundEntry⟩ := List.mem_iff_getElem?.mp member
            obtain ⟨-, rfl⟩ | ⟨-, old⟩ := Table.getElem?_set_cases foundEntry
            · simp [Call.accepted] at isAccepted
            · exact List.mem_of_getElem? old
          · rw [accepted_setStatus found waiting (stable call .cancelled)]
            simp [Call.accepted]
      next => cases stepped

/-- Before the first call nothing is counted. -/
theorem Counted.initial (unused : current.usage = UsageCounters.default)
    (noCalls : current.calls = []) : current.Counted limits := by
  have none : ∀ select, current.accepted select = 0 := by simp [accepted, noCalls]
  constructor
  case counters => exact ⟨by simp [unused, UsageCounters.default, UsageMap.Of],
    by simp [unused, UsageCounters.default, UsageMap.Of], rfl⟩
  case past => simp [noCalls]
  case within => exact ⟨by simp [none], by simp [none], by simp [none]⟩
  all_goals simp [none, unused, UsageCounters.default, UsageMap.turnsOn]

/-- In runs in order the turns are counted. -/
def countedInvariant (limits : Limits) :
    ((quotaMachine limits : Machine (QuotaState Session Ip) (QuotaAction Session Ip)).restrict
      inOrder).Invariant where
  Inv := Counted limits
  initial := by
    rintro state ⟨unused, noCalls⟩
    exact Counted.initial unused noCalls
  preserved := by
    intro state action after counted stepped
    obtain ⟨ordered, moved⟩ := Machine.restrict_next_eq_some.mp stepped
    exact counted.step ordered moved

/-- In every run in which no call gets the lock after the counters moved past
the day it read, the calls that returned `Ok` respect all three daily limits;
and in each state a rejected call would increase no counter and no call would
overflow one. -/
theorem within_limits_of_reachable (limits : Limits) {state : QuotaState Session Ip}
    (reachable : ((quotaMachine limits).restrict inOrder).Reachable state) :
    state.WithinLimits limits ∧ ∀ owner peerIp day,
      ((consumeAiTurn limits state.usage owner peerIp day).1 = .limitReached →
        (consumeAiTurn limits state.usage owner peerIp day).2.CountsNoMore state.usage) ∧
      (consumeAiTurn limits state.usage owner peerIp day).1 ≠ .overflowed :=
  ⟨((countedInvariant limits).of_reachable reachable).within, fun owner peerIp day =>
    ⟨consumeAiTurn_limitReached, consumeAiTurn_ne_overflowed limits state.usage owner peerIp day⟩⟩

/-- One turn a day. -/
def oneTurn : Limits := ⟨1, 1, by decide, by decide⟩

/-- Two calls on each of two days; the second call of a day is refused. -/
theorem within_limits_of_two_days : ∃ state : QuotaState Nat Nat,
    state.accepted (ofDay 0) = 1 ∧ state.accepted (ofDay 1) = 1 ∧ state.WithinLimits oneTurn := by
  have ran : ∃ state : QuotaState Nat Nat, ((quotaMachine oneTurn).restrict inOrder).run
      ⟨0, UsageCounters.default, []⟩ [.begin 7 8, .begin 7 9, .lock 1, .lock 0, .tick 86400,
        .begin 7 8, .begin 6 8, .lock 2, .lock 3] = some state ∧
      state.accepted (ofDay 0) = 1 ∧ state.accepted (ofDay 1) = 1 := ⟨_, rfl, by decide, by decide⟩
  obtain ⟨state, ran, first, second⟩ := ran
  exact ⟨state, first, second,
    (within_limits_of_reachable oneTurn ⟨_, _, ⟨rfl, rfl⟩, ran⟩).1⟩

/-- A call that waits for the lock over midnight while a call of the new day
overtakes it resets the counters to its own day, which then grants a second
turn. -/
theorem not_within_limits : ¬ ∀ (limits : Limits) (state : QuotaState Nat Nat),
    (quotaMachine limits).Reachable state → state.WithinLimits limits := by
  intro within
  have ran : ∃ state : QuotaState Nat Nat, (quotaMachine oneTurn).run
      ⟨0, UsageCounters.default, []⟩ [.begin 7 8, .begin 7 8, .lock 0, .tick 86400,
        .begin 7 8, .lock 2, .lock 1] = some state ∧ state.accepted (ofDay 0) = 2 :=
    ⟨_, rfl, by decide⟩
  obtain ⟨state, ran, twice⟩ := ran
  have limited := (within oneTurn state ⟨_, _, ⟨rfl, rfl⟩, ran⟩).global 0
  rw [twice] at limited
  exact absurd limited (by decide)

end QuotaState
end Solpg.Server.Routes.Learning
