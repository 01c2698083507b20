import Delego.Data.Text
import Delego.Process.Returned

/-! The gas tank (`wallet/src/sponsorship`): who is eligible (`eligibility.ts`), what has been spent (`gasTankManager.ts`), and how a transaction is sponsored (`sponsoredSubmitter.ts`).

The counters are keys of Redis: one for each UTC day, and one for each account. They are read before a transaction is
submitted, and go up when the RPC has acknowledged it. -/
namespace Delego.GasTank
open Delego.Process Delego.Data

/-- The budget of a day is a whole number of ledgers. -/
structure GasSponsorshipPolicy where
  maxDailySponsoredLedgers : Int
  maxSpendPerAccountStroops : String
  authorizedContracts : List String

inductive Reason where
  | accountNotEligible | contractNotAuthorized | accountBudgetExceeded | dailyLedgerBudgetExceeded | invalidRequest
  | sponsorNotConfigured | submitFailed

structure SponsorshipDecision where
  eligible : Bool
  reason : Option Reason := none
  detail : Option String := none
  dailyRemaining : Option Int := none
  accountRemainingStroops : Option String := none

structure SponsorshipLedgerEntry where
  (account contractId feeStroops txHash : String)
  sponsoredAt : Int

structure SponsoredSubmitRequest where
  (buyerAccount txXdr contractId feeStroops : String)

structure SponsoredSubmitResult where
  success : Bool
  txHash : Option String := none
  reason : Option Reason := none
  detail : Option String := none

/-- The configuration, and what the SDK and the language do. -/
structure Settings where
  policy : GasSponsorshipPolicy
  sponsorSecret : String
  /-- The transaction with the signature of the sponsor, as XDR. -/
  sign : String → Except String String
  hash : String → String
  /-- `Number(fee)` as it is written in a command, if that is an integer to Redis. -/
  written : Nat → Option Int
  /-- `BigInt(s)`, where that does not throw. -/
  bigInt : String → Option Int

/-- `/^G[A-Z2-7]{55}$/`, and with `C` in the place of `G`. -/
def isKey (first : Char) (s : String) : Bool :=
  match s.toList with
  | [] => false
  | c :: rest => decide (c = first) && decide (rest.length = 55) &&
    rest.all fun c => decide ('A' ≤ c ∧ c ≤ 'Z') || decide ('2' ≤ c ∧ c ≤ '7')

def isValidStellarAccount (addr : String) : Bool := isKey 'G' (trim addr)

def isValidSorobanContract (id : String) : Bool := isKey 'C' (trim id)

def parseStroops (s : String) : Option Nat := if s = "" then none else readDigits 0 s.toList

/-! ### Operations -/

inductive RpcStatus where
  | pending | duplicate | tryAgainLater | error
  deriving DecidableEq

def RpcStatus.text : RpcStatus → String
  | .pending => "PENDING"
  | .duplicate => "DUPLICATE"
  | .tryAgainLater => "TRY_AGAIN_LATER"
  | .error => "ERROR"

def RpcStatus.acknowledges : RpcStatus → Bool
  | .pending => true
  | .duplicate => true
  | _ => false

structure RpcResponse where
  hash : String
  status : RpcStatus

/-- The counters as a call has read them, and for which day. -/
structure Seen where
  (day ledgers spent : Int)
  deriving DecidableEq

inductive Op where
  | now
  | getDailyLedgers (utcDay : Int)
  | getAccountSpend (account : String)
  /-- The counters that have been read are noted beside. -/
  | sendTransaction (request : SponsoredSubmitRequest) (seen : Seen) (signedXdr : String)
  | incr (utcDay : Int)
  | expire (utcDay seconds : Int)
  | incrby (account : String) (fee : Nat)
  | lpush (entry : SponsorshipLedgerEntry)
  | ltrim

@[reducible] def Op.Reply : Op → Type
  | .now => Int
  | .getDailyLedgers _ => Option Int
  | .getAccountSpend _ => Option Int
  | .sendTransaction .. => RpcResponse
  | .incr _ => Int
  | _ => Unit

@[reducible] def tankSignature : Signature := ⟨Op, Op.Reply, String⟩

abbrev TankM := Program tankSignature

def op (o : Op) : TankM o.Reply := Program.perform (S := tankSignature) o

/-- A key that counts, with the time at which it goes away. -/
structure Counter where
  value : Int
  expiresAt : Option Int

def Counter.live (clock : Int) (counter : Counter) : Bool := counter.expiresAt.all fun t => decide (clock < t)

/-- A submission that the network has taken. -/
structure Acknowledgement where
  (hash account : String)
  fee : Nat
  time : Int

structure World where
  clock : Int
  daily : Int → Option Counter
  spend : String → Option Int
  ledgerLog : List SponsorshipLedgerEntry
  /-- What the RPC has acknowledged, the latest first. -/
  acknowledged : List Acknowledgement

/-- What the environment decides about an operation. -/
structure Choice where
  fate : Fate := .done
  status : RpcStatus := .pending

def utcDay (ms : Int) : Int := ms / 86400000

def World.today (w : World) : Int := utcDay w.clock

def World.dailyCounter (w : World) (day : Int) : Option Counter := (w.daily day).filter (Counter.live w.clock)

def World.dailyLedgers (w : World) (day : Int) : Int := ((w.dailyCounter day).map Counter.value).getD 0

def World.spent (w : World) (account : String) : Int := (w.spend account).getD 0

def int64 (value : Int) : Except String Int :=
  if -9223372036854775808 ≤ value ∧ value ≤ 9223372036854775807 then .ok value
  else .error "ERR increment or decrement would overflow"

def World.status (w : World) (hash : String) (status : RpcStatus) : RpcStatus :=
  if status = .duplicate ∧ hash ∉ w.acknowledged.map Acknowledgement.hash then .pending else status

def answer (cfg : Settings) (o : Op) (ch : Choice) (w : World) : Except String (o.Reply × World) :=
  match o with
  | .now => .ok (w.clock, w)
  | .getDailyLedgers day => .ok ((w.dailyCounter day).map Counter.value, w)
  | .getAccountSpend account => .ok (w.spend account, w)
  | .sendTransaction request _ signedXdr =>
    let response : RpcResponse := ⟨cfg.hash signedXdr, w.status (cfg.hash signedXdr) ch.status⟩
    .ok (response, if response.status.acknowledges then
      { w with
        acknowledged := ⟨response.hash, request.buyerAccount, (parseStroops request.feeStroops).getD 0, w.clock⟩ ::
          w.acknowledged }
      else w)
  | .incr day => do
    let next ← int64 (w.dailyLedgers day + 1)
    return (next, { w with
      daily := Function.update w.daily day (some ⟨next, (w.dailyCounter day).bind Counter.expiresAt⟩) })
  | .expire day seconds => .ok ((), { w with
      daily := Function.update w.daily day
        ((w.dailyCounter day).map fun counter => { counter with expiresAt := some (w.clock + seconds * 1000) }) })
  | .incrby account fee => match cfg.written fee with
    | none => .error "ERR value is not an integer or out of range"
    | some amount => do
      let next ← int64 (w.spent account + amount)
      return ((), { w with spend := Function.update w.spend account (some next) })
  | .lpush entry => .ok ((), { w with ledgerLog := entry :: w.ledgerLog })
  | .ltrim => .ok ((), { w with ledgerLog := w.ledgerLog.take 1000 })

/-- Redis and the RPC may throw. An answer of the RPC that does not come is none. -/
def fateOf (o : Op) (ch : Choice) : Fate :=
  match o, ch.fate with
  | .now, _ => .done
  | .sendTransaction .., .lost message => .refused message
  | _, fate => fate

def perform (cfg : Settings) (o : Op) (ch : Choice) (w : World) : Except String o.Reply × World :=
  (fateOf o ch).deliver (answer cfg o ch w) w

section
variable (cfg : Settings)

def getDailyLedgers : TankM (Int × Int) := do
  let now ← op .now
  let raw ← op (.getDailyLedgers (utcDay now))
  return (utcDay now, raw.getD 0)

def getAccountSpendStroops (account : String) : TankM Int := do
  let raw ← op (.getAccountSpend account)
  return raw.getD 0

def remainingLedgers (used : Int) : Int := max 0 (cfg.policy.maxDailySponsoredLedgers - used)

def remainingStroops (spent : Int) : Except String Int :=
  match cfg.bigInt cfg.policy.maxSpendPerAccountStroops with
  | none => .error s!"Cannot convert {cfg.policy.maxSpendPerAccountStroops} to a BigInt"
  | some cap => .ok (if cap ≤ spent then 0 else cap - spent)

def validate (request : SponsoredSubmitRequest) : Except SponsorshipDecision Nat :=
  let denied (reason : Reason) (detail : String) : Except SponsorshipDecision Nat :=
    .error { eligible := false, reason := some reason, detail := some detail }
  if cfg.sponsorSecret = "" then denied .sponsorNotConfigured "No sponsor secret configured on this replica."
  else if isValidStellarAccount request.buyerAccount = false then
    denied .invalidRequest s!"Invalid buyer account: {request.buyerAccount}"
  else if isValidSorobanContract request.contractId = false then
    denied .invalidRequest s!"Invalid contract ID: {request.contractId}"
  else match parseStroops request.feeStroops with
    | none => denied .invalidRequest s!"Invalid fee stroops: {request.feeStroops}"
    | some fee =>
      if fee = 0 then denied .invalidRequest s!"Invalid fee stroops: {request.feeStroops}"
      else if request.contractId ∉ cfg.policy.authorizedContracts then
        denied .contractNotAuthorized s!"Contract {request.contractId} is not in the sponsorship allowlist."
      else .ok fee

def checkEligibility (request : SponsoredSubmitRequest) : TankM (SponsorshipDecision × Option Seen) :=
  match validate cfg request with
  | .error decision => return (decision, none)
  | .ok fee => do
    let (day, ledgers) ← getDailyLedgers
    if remainingLedgers cfg ledgers ≤ 0 then
      return ({
        eligible := false
        reason := some .dailyLedgerBudgetExceeded
        detail := some s!"Daily ledger budget exhausted ({cfg.policy.maxDailySponsoredLedgers})."
        dailyRemaining := some 0 }, none)
    else do
      let spent ← getAccountSpendStroops request.buyerAccount
      match remainingStroops cfg spent with
      | .error message => .fail message
      | .ok remaining =>
        if remaining < fee then
          return ({
            eligible := false
            reason := some .accountBudgetExceeded
            detail := some s!"Account {request.buyerAccount} has {remaining} stroops remaining, needs {fee}."
            accountRemainingStroops := some s!"{remaining}" }, none)
        else
          return ({
            eligible := true
            dailyRemaining := some (remainingLedgers cfg ledgers - 1)
            accountRemainingStroops := some s!"{remaining - fee}" }, some ⟨day, ledgers, spent⟩)

def DAY_SECONDS : Int := 24 * 60 * 60

def recordSponsored (entry : SponsorshipLedgerEntry) : TankM Unit := do
  let now ← op .now
  let next ← op (.incr (utcDay now))
  if next = 1 then op (.expire (utcDay now) (DAY_SECONDS + 3600)) else pure ()
  op (.incrby entry.account ((parseStroops entry.feeStroops).getD 0))
  op (.lpush entry)
  op .ltrim

def recordSpend (request : SponsoredSubmitRequest) (txHash : String) : TankM SponsoredSubmitResult := do
  let sponsoredAt ← op .now
  (recordSponsored ⟨request.buyerAccount, request.contractId, request.feeStroops, txHash, sponsoredAt⟩).tryCatch
    fun _ => return ()
  return { success := true, txHash := some txHash }

def submit (request : SponsoredSubmitRequest) : TankM SponsoredSubmitResult := do
  let (decision, seen) ← checkEligibility cfg request
  match seen with
  | none => return { success := false, reason := decision.reason, detail := decision.detail }
  | some seen => match cfg.sign request.txXdr with
    | .error message => return { success := false, reason := some .submitFailed, detail := some message }
    | .ok signedXdr => do
      let sent ← (op (.sendTransaction request seen signedXdr)).attempt
      match sent with
      | .error message => return { success := false, reason := some .submitFailed, detail := some message }
      | .ok response =>
        if response.status.acknowledges then recordSpend request response.hash
        else return {
          success := false
          reason := some .submitFailed
          detail := some s!"RPC returned status {response.status.text}"
          txHash := some response.hash }

end

/-! ### Calls -/

inductive Event where
  | passes (ms : Nat)

def system (cfg : Settings) : System tankSignature World where
  Choice := Choice
  Event := Event
  Call := SponsoredSubmitRequest
  perform := perform cfg
  drift := fun e w => match e with
    | .passes ms => { w with clock := w.clock + ms }
  arrive := fun _ w => some w
  body := fun request => do
    let _ ← submit cfg request
    return ()

abbrev TankPool := Pool tankSignature World

abbrev TankTrace := List (Entry tankSignature)

/-! ### What a call of the gas tank still has to record

From the acknowledgement of its transaction on a call owes the counters: one to the day's until it has
counted, and the fee to the account's until it has added it. -/

/-- How far a submission has come. -/
inductive Stage where
  | idle
  /-- The day is that of the budgets it has been checked against. -/
  | acknowledged (account : String) (fee : Nat) (day : Int)
  | dated (account : String) (fee : Nat) (day time : Int)
  | counted (account : String) (fee : Nat)
  deriving DecidableEq

/-- A request is within the budgets that have been read. -/
structure Eligible (cfg : Settings) (request : SponsoredSubmitRequest) (seen : Seen) : Prop where
  valid : ∃ fee, validate cfg request = .ok fee ∧ parseStroops request.feeStroops = some fee ∧ 0 < fee
  ledgers : seen.ledgers < cfg.policy.maxDailySponsoredLedgers
  stroops : ∃ remaining, remainingStroops cfg seen.spent = .ok remaining ∧
    ((parseStroops request.feeStroops).getD 0 : Int) ≤ remaining

namespace Stage

def next : Stage → (o : Op) → tankSignature.Result o → Stage
  | .idle, .sendTransaction request seen _, .ok response =>
    if response.status.acknowledges then
      .acknowledged request.buyerAccount ((parseStroops request.feeStroops).getD 0) seen.day
    else .idle
  | .acknowledged account fee day, .now, .ok time => .dated account fee day time
  | .dated account fee day _, .now, .ok time => .dated account fee day time
  | .dated account fee _ _, .incr _, .ok _ => .counted account fee
  | .counted _ _, .incrby _ _, .ok _ => .idle
  | φ, _, _ => φ

def Allows (cfg : Settings) : Stage → Op → Prop
  | .idle, .now => True
  | .idle, .getDailyLedgers _ => True
  | .idle, .getAccountSpend _ => True
  | .idle, .sendTransaction request seen _ => Eligible cfg request seen
  | .idle, .lpush _ => True
  | .idle, .ltrim => True
  | .acknowledged _ _ _, .now => True
  | .dated _ _ _ _, .now => True
  | .dated _ _ _ time, .incr day => day = utcDay time
  | .counted _ _, .expire _ seconds => seconds = DAY_SECONDS + 3600
  | .counted account fee, .incrby account' fee' => account' = account ∧ fee' = fee
  | _, _ => False

def uncounted : Stage → Int
  | .acknowledged _ _ _ => 1
  | .dated _ _ _ _ => 1
  | _ => 0

def uncountedOn (day : Int) : Stage → Int
  | .acknowledged _ _ day' => if day' = day then 1 else 0
  | .dated _ _ day' _ => if day' = day then 1 else 0
  | _ => 0

def owed (account : String) : Stage → Int
  | .idle => 0
  | .acknowledged account' fee _ => if account' = account then fee else 0
  | .dated account' fee _ _ => if account' = account then fee else 0
  | .counted account' fee => if account' = account then fee else 0

end Stage

def stage (i : Nat) : TankTrace → Stage
  | [] => .idle
  | ⟨j, o, r⟩ :: tr => if j = i then (stage i tr).next o r else stage i tr

theorem stage_performed {i : Nat} {tr : TankTrace} (h : stage i tr ≠ .idle) : ∃ e ∈ tr, e.runner = i := by
  induction tr with
  | nil => exact absurd rfl h
  | cons e tr ih =>
    obtain ⟨j, o, r⟩ := e
    simp only [stage] at h
    split at h
    · rename_i hj
      exact ⟨_, List.mem_cons_self, hj⟩
    · obtain ⟨e, he, hrun⟩ := ih h
      exact ⟨e, List.mem_cons_of_mem _ he, hrun⟩

def Op.records : Op → Bool
  | .now => true
  | .incr _ => true
  | .expire .. => true
  | .incrby .. => true
  | _ => false

def sponsoring (cfg : Settings) : Protocol tankSignature Stage where
  Allowed := Stage.Allows cfg
  Moves := fun φ o r φ' => (o.records = true → ∃ a, r = .ok a) ∧ φ' = φ.next o r
  Ends := fun φ => φ = .idle

section
variable {cfg : Settings} {request : SponsoredSubmitRequest} {φ : Stage}
  {o : Op}

theorem follows_op {Q : Except String o.Reply → Stage → Prop} (ha : φ.Allows cfg o)
    (hm : ∀ r, (o.records = true → ∃ a, r = .ok a) → Q r (φ.next o r)) : Follows (sponsoring cfg) φ (op o) Q := by
  apply follows_perform ha
  rintro r φ' ⟨hansd, rfl⟩
  exact hm r hansd

theorem follows_answered {α : Type} {f : o.Reply → TankM α} {Q : Except String α → Stage → Prop}
    (ha : φ.Allows cfg o) (hrecs : o.records = true)
    (hf : ∀ a, Follows (sponsoring cfg) (φ.next o (.ok a)) (f a) Q) :
    Follows (sponsoring cfg) φ (op o >>= f) Q := by
  apply follows_bind
  refine follows_op ha ?_
  intro r hansd
  obtain ⟨a, rfl⟩ := hansd hrecs
  exact hf a

theorem follows_idle {α : Type} {f : o.Reply → TankM α} {Q : Except String α → Stage → Prop}
    (ha : Stage.Allows cfg .idle o) (hnext : ∀ r, Stage.next .idle o r = .idle)
    (herror : ∀ message, Q (.error message) .idle) (hf : ∀ a, Follows (sponsoring cfg) .idle (f a) Q) :
    Follows (sponsoring cfg) .idle (op o >>= f) Q := by
  apply follows_bind
  refine follows_op ha ?_
  intro r _
  rw [hnext]
  cases r with
  | error message => exact herror message
  | ok a => exact hf a

theorem validate_fee {fee : Nat} (h : validate cfg request = .ok fee) :
    parseStroops request.feeStroops = some fee ∧ 0 < fee := by
  simp only [validate] at h
  split at h
  · cases h
  · split at h
    · cases h
    · split at h
      · cases h
      · split at h
        · cases h
        · rename_i value hfee
          split at h
          · cases h
          · rename_i hpos
            split at h
            · cases h
            · cases h
              exact ⟨hfee, Nat.pos_of_ne_zero hpos⟩

theorem follows_getDailyLedgers : Follows (sponsoring cfg) .idle getDailyLedgers fun _ φ' => φ' = .idle :=
  follows_answered trivial rfl fun _ => follows_idle trivial (fun r => by cases r <;> rfl) (fun _ => rfl) fun _ => rfl

theorem follows_getAccountSpendStroops (account : String) :
    Follows (sponsoring cfg) .idle (getAccountSpendStroops account) fun _ φ' => φ' = .idle :=
  follows_idle trivial (fun r => by cases r <;> rfl) (fun _ => rfl) fun _ => rfl

def Grants (cfg : Settings) (request : SponsoredSubmitRequest) :
    Except String (SponsorshipDecision × Option Seen) → Prop
  | .ok (_, some seen) => Eligible cfg request seen
  | _ => True

theorem follows_checkEligibility : Follows (sponsoring cfg) .idle (checkEligibility cfg request) fun r φ' =>
    φ' = .idle ∧ Grants cfg request r := by
  simp only [checkEligibility]
  split
  · exact ⟨rfl, trivial⟩
  · rename_i fee hvalid
    obtain ⟨hfee, hpos⟩ := validate_fee hvalid
    refine follows_bind (follows_mono follows_getDailyLedgers (forall_except (fun _ _ rfl => ⟨rfl, trivial⟩) ?_))
    rintro read _ rfl
    simp only [Then]
    split
    · exact ⟨rfl, trivial⟩
    · rename_i hledgers
      refine follows_bind (follows_mono (follows_getAccountSpendStroops request.buyerAccount)
        (forall_except (fun _ _ rfl => ⟨rfl, trivial⟩) ?_))
      rintro spent _ rfl
      simp only [Then]
      split
      · exact ⟨rfl, trivial⟩
      · rename_i remaining hrem
        split
        · exact ⟨rfl, trivial⟩
        · rename_i hstroops
          refine ⟨rfl, ⟨fee, hvalid, hfee, hpos⟩, ?_, remaining, hrem, ?_⟩
          · change read.2 < cfg.policy.maxDailySponsoredLedgers
            simp only [remainingLedgers] at hledgers
            omega
          · rw [hfee]
            exact Int.not_lt.mp hstroops

theorem follows_recordSponsored {day time : Int} (entry : SponsorshipLedgerEntry) :
    Follows (sponsoring cfg) (.dated entry.account ((parseStroops entry.feeStroops).getD 0) day time)
      (recordSponsored entry) fun _ φ' => φ' = .idle := by
  have hspend : Follows (sponsoring cfg) (.counted entry.account ((parseStroops entry.feeStroops).getD 0)) (do
      op (.incrby entry.account ((parseStroops entry.feeStroops).getD 0))
      op (.lpush entry)
      op .ltrim) fun _ φ' => φ' = .idle := by
    refine follows_answered ⟨rfl, rfl⟩ rfl fun _ => ?_
    refine follows_idle trivial (fun r => by cases r <;> rfl) (fun _ => rfl) fun _ => ?_
    exact follows_op trivial fun r _ => by cases r <;> rfl
  refine follows_answered trivial rfl fun now => follows_answered rfl rfl fun next => ?_
  split
  · exact follows_answered rfl rfl fun _ => hspend
  · exact hspend

theorem follows_submit : Follows (sponsoring cfg) .idle (submit cfg request) fun _ φ' => φ' = .idle := by
  refine follows_bind (follows_mono follows_checkEligibility (forall_except (fun _ _ ⟨rfl, heligible⟩ => rfl) ?_))
  rintro decided _ ⟨rfl, heligible⟩
  obtain ⟨decision, seen⟩ := decided
  cases seen with
  | none => rfl
  | some seen =>
    simp only [Then]
    split
    · rfl
    · rename_i signedXdr hsig
      apply follows_bind
      refine follows_attempt (follows_op heligible ?_)
      intro r _
      cases r with
      | error message => rfl
      | ok response =>
        simp only [Then, Stage.next]
        split
        · refine follows_answered trivial rfl fun sponsoredAt => ?_
          apply follows_bind
          apply follows_tryCatch
          refine follows_mono (follows_recordSponsored ⟨request.buyerAccount, request.contractId,
            request.feeStroops, response.hash, sponsoredAt⟩) ?_
          rintro r _ rfl
          cases r <;> rfl
        · rfl

theorem follows_body : Follows (sponsoring cfg) .idle ((system cfg).body request) fun _ φ' =>
    (sponsoring cfg).Ends φ' := by
  refine follows_bind (follows_mono follows_submit ?_)
  rintro r _ rfl
  cases r <;> rfl

end

end Delego.GasTank
