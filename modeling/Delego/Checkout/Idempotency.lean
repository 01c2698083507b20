import Delego.Checkout.Fingerprint
import Delego.Data.Bytes
import Delego.Data.Text
import Delego.Process.Pool

/-! Checkout idempotency (`orchestrator/src/idempotency/preHandler.ts` and `store.ts`).

A request to check out passes a pre-handler, which replays the recorded response of an earlier request, waits for one
that is under way, or lets the handler run. Two Redis keys stand behind an id: the lock, held by a token, and the
record. A Redis command is one operation. The handler is outside: it starts, and at some later time ends with a response. -/
namespace Delego.Checkout
open Delego.Process Delego.Data Function

inductive RecordStatus where
  | inProgress | completed
  deriving DecidableEq

structure IdempotencyRecord where
  fingerprint : String
  status : RecordStatus
  statusCode : Option Nat := none
  responseBody : Option String := none
  createdAt : Int
  requestHash : Option String
  deriving DecidableEq

/-- `record?.status === "completed"` -/
def completed (record : Option IdempotencyRecord) : Option IdempotencyRecord :=
  record.filter fun record => decide (record.status = .completed)

structure Response where
  statusCode : Nat
  body : String
  deriving DecidableEq

/-- What a handler writes at a time: a text, with the bytes that it is sent as in its encoding, or bytes. -/
inductive Chunk where
  | string (text : String) (sent : List UInt8)
  | buffer (sent : List UInt8)

namespace Chunk

def sent : Chunk → List UInt8
  | .string _ sent => sent
  | .buffer sent => sent

def chunkToString : Chunk → String
  | .string text _ => text
  | .buffer sent => decodeUtf8 sent

/-- The text of the chunk stands for its bytes. -/
def kept (chunk : Chunk) : Bool := decide (utf8 chunk.chunkToString = chunk.sent)

end Chunk

/-- What a handler has given when it ends its response: the status, and what it wrote, the argument of `end` last. -/
structure Output where
  statusCode : Nat
  chunks : List Chunk

/-- The body that the client receives. -/
def Output.sent (output : Output) : List UInt8 := output.chunks.flatMap Chunk.sent

/-- `written.join("") + finalChunk` -/
def Output.captured (output : Output) : Response :=
  ⟨output.statusCode, String.join (output.chunks.map Chunk.chunkToString)⟩

def IdempotencyRecord.response (record : IdempotencyRecord) : Response :=
  ⟨record.statusCode.getD 200, record.responseBody.getD ""⟩

inductive Op where
  | getRecord (id : String)
  | acquireLease (id : String)
  | releaseLease (id : String) (token : Nat)
  | markInProgress (id fingerprint requestHash : String)
  | complete (id fingerprint requestHash : String) (response : Response)
  | discard (id : String)
  /-- `Date.now()` -/
  | now
  | sleep (ms : Nat)
  /-- The pre-handler answers the request, if it has got an id for it. -/
  | reply (id : Option String) (response : Response) (headers : List (String × String))
  /-- The handler starts to execute the request. -/
  | start (id : String)
  /-- The handler ends its response. -/
  | finish (id : String)
  /-- The response of the handler reaches the client. -/
  | flush (id : String) (output : Output)

@[reducible] def Op.Reply : Op → Type
  | .getRecord _ => Option IdempotencyRecord
  | .acquireLease _ => Option Nat
  | .now => Int
  | .finish _ => Output
  | _ => Unit

@[reducible] def checkoutSignature : Signature := ⟨Op, Op.Reply, String⟩

abbrev CheckoutM := Program checkoutSignature

def op (o : Op) : CheckoutM o.Reply := Program.perform (S := checkoutSignature) o

structure World where
  locks : String → Option Nat
  records : String → Option IdempotencyRecord
  /-- `randomUUID()` has been drawn so often; no token comes twice. -/
  issued : Nat

/-- What the environment decides about an operation. -/
structure Choice where
  fate : Fate := .done
  time : Int := 0
  output : Output := ⟨200, []⟩

def answer (o : Op) (ch : Choice) (w : World) : o.Reply × World :=
  match o with
  | .getRecord id => (w.records id, w)
  | .acquireLease id =>
    -- `SET key token EX ttl NX`
    match w.locks id with
    | some _ => (none, { w with issued := w.issued + 1 })
    | none => (some w.issued, { w with
        locks := update w.locks id (some w.issued)
        issued := w.issued + 1 })
  | .releaseLease id token =>
    if w.locks id = some token then ((), { w with locks := update w.locks id none }) else ((), w)
  | .markInProgress id fingerprint requestHash =>
    ((), { w with records := update w.records id (some
      { fingerprint := fingerprint, status := .inProgress, createdAt := ch.time
        requestHash := some requestHash }) })
  | .complete id fingerprint requestHash response =>
    ((), { w with records := update w.records id (some
      { fingerprint := fingerprint, status := .completed, statusCode := some response.statusCode
        responseBody := some response.body, createdAt := ch.time
        requestHash := some requestHash }) })
  | .discard id => ((), { w with records := update w.records id none })
  | .now => (ch.time, w)
  | .finish _ => (ch.output, w)
  | .sleep _ => ((), w)
  | .reply _ _ _ => ((), w)
  | .start _ => ((), w)
  | .flush _ _ => ((), w)

def Op.command : Op → Bool
  | .getRecord _ => true
  | .acquireLease _ => true
  | .releaseLease _ _ => true
  | .markInProgress _ _ _ => true
  | .complete _ _ _ _ => true
  | .discard _ => true
  | _ => false

def perform (o : Op) (ch : Choice) (w : World) : Except String o.Reply × World :=
  (if o.command then ch.fate else Fate.done).carry (answer o ch w) w

/-! ### The pre-handler -/

structure Settings where
  sha256 : String → String
  waitForCompletionMs : Nat := 5000
  pollIntervalMs : Nat := 50

structure Request where
  userId : String
  /-- The `Idempotency-Key` header. -/
  idempotencyKey : Option String
  input : Fingerprint.CheckoutFingerprintInput

def computeHeaderKeyFingerprint (cfg : Settings) (userId idempotencyKey : String) : String :=
  cfg.sha256 s!"idempotency-key|{userId}|{idempotencyKey}"

/-- `s.length`, in UTF-16 units. -/
def utf16Length (s : String) : Nat := s.toList.foldl (fun length c => length + if c.toNat < 65536 then 1 else 2) 0

def MAX_KEY_LENGTH : Nat := 255

/-- The header, trimmed; an empty one counts as none. -/
def Request.headerKey (request : Request) : Option String :=
  (request.idempotencyKey.map trim).filter fun key => decide (key ≠ "")

def Request.fingerprint (cfg : Settings) (request : Request) : String :=
  match request.headerKey with
  | some key => computeHeaderKeyFingerprint cfg request.userId key
  | none => Fingerprint.computeCheckoutFingerprint cfg.sha256 request.input

def Request.id (cfg : Settings) (request : Request) : String :=
  let userId := request.userId
  let fingerprint := request.fingerprint cfg
  s!"{userId}:{fingerprint}"

structure Lease where
  (id fingerprint requestHash : String)
  token : Nat

inductive PreHandlerResult where
  /-- Run the handler, with its response captured under a lease or not. -/
  | proceed (lease : Option Lease)
  | replied
  /-- Still waiting when the pre-handler was last looked at. -/
  | waiting

/-- `JSON.stringify({ data: null, error: { code, message } })` -/
def errorBody (code message : String) : String :=
  "\x7b\"data\":null,\"error\":\x7b\"code\":\"" ++ code ++ "\",\"message\":\"" ++ message ++ "\"\x7d\x7d"

def reply (id : Option String) (response : Response) (headers : List (String × String)) :
    CheckoutM PreHandlerResult := do
  op (.reply id response (("Content-Type", "application/json") :: headers))
  return .replied

def replayOrReject (id : String) (record : IdempotencyRecord) (requestHash : String) :
    CheckoutM PreHandlerResult :=
  if record.requestHash.any fun hash => decide (hash ≠ "" ∧ hash ≠ requestHash) then
    reply (some id) ⟨422, errorBody "IDEMPOTENCY_KEY_REUSED"
      "This Idempotency-Key was already used for a different checkout request."⟩ []
  else reply (some id) record.response [("Idempotency-Replayed", "true")]

section
variable (cfg : Settings) (id fingerprint requestHash : String) (deadline : Int)

/-- The request has got the lease: the previous holder may have completed between the read and
the lock. -/
def enter (token : Nat) : CheckoutM PreHandlerResult := do
  let raced ← op (.getRecord id)
  match completed raced with
  | some record => do
    let _ ← (op (.releaseLease id token)).attempt
    replayOrReject id record requestHash
  | none => do
    op (.markInProgress id fingerprint requestHash)
    return .proceed (some ⟨id, fingerprint, requestHash, token⟩)

/-- The loop. How often it goes round depends on the clock; it is followed for as many rounds
as are given. -/
def await : Nat → CheckoutM PreHandlerResult
  | 0 => return .waiting
  | rounds + 1 => do
    let existing ← op (.getRecord id)
    match completed existing with
    | some record => replayOrReject id record requestHash
    | none => do
      let token ← op (.acquireLease id)
      match token with
      | some token => enter id fingerprint requestHash token
      | none => do
        let now ← op .now
        if deadline ≤ now then
          reply (some id) ⟨409, errorBody "IDEMPOTENCY_REQUEST_IN_PROGRESS"
            "An identical checkout is still being processed. Retry shortly."⟩ [("Retry-After", "1")]
        else do
          op (.sleep cfg.pollIntervalMs)
          await rounds

end

def checkoutIdempotencyPreHandler (cfg : Settings) (request : Request) (rounds : Nat) :
    CheckoutM PreHandlerResult :=
  if request.headerKey.any fun key => decide (MAX_KEY_LENGTH < utf16Length key) then
    let length := MAX_KEY_LENGTH
    reply none ⟨400, errorBody "INVALID_IDEMPOTENCY_KEY" s!"Idempotency-Key header must be at most {length} characters."⟩ []
  else do
    let started ← op .now
    -- Redis outages fail open: the checkout is processed without deduplication
    (await cfg (request.id cfg) (request.fingerprint cfg)
      (Fingerprint.computeCheckoutFingerprint cfg.sha256 request.input) (started + cfg.waitForCompletionMs) rounds).tryCatch
      fun _ => return .proceed none

/-- `captureResponse`: what was written is persisted as a text, then flushed, then the lease is released. -/
def captureResponse (lease : Lease) (output : Output) : CheckoutM Unit := do
  let response := output.captured
  -- a record that cannot be persisted is logged
  let _ ← (if 500 ≤ response.statusCode then op (.discard lease.id)
    else op (.complete lease.id lease.fingerprint lease.requestHash response)).attempt
  op (.flush lease.id output)
  let _ ← (op (.releaseLease lease.id lease.token)).attempt
  return ()

/-- A request, from the pre-handler to its answer. -/
def checkout (cfg : Settings) (request : Request) (rounds : Nat) : CheckoutM Unit := do
  let result ← checkoutIdempotencyPreHandler cfg request rounds
  match result with
  | .proceed (some lease) => do
    op (.start lease.id)
    let output ← op (.finish lease.id)
    captureResponse lease output
  | .proceed none => do
    op (.start (request.id cfg))
    let output ← op (.finish (request.id cfg))
    op (.flush (request.id cfg) output)
  | .replied => return ()
  | .waiting => return ()

/-! ### Requests that interleave -/

inductive Expiry where
  | lock (id : String)
  | record (id : String)

def expire (e : Expiry) (w : World) : World :=
  match e with
  | .lock id => { w with locks := update w.locks id none }
  | .record id => { w with records := update w.records id none }

structure Call where
  request : Request
  rounds : Nat

def system (cfg : Settings) : System checkoutSignature World where
  Choice := Choice
  Event := Expiry
  Call := Call
  perform := perform
  drift := expire
  arrive := fun _ w => some w
  body := fun call => checkout cfg call.request call.rounds

abbrev CheckoutPool := Pool checkoutSignature World

abbrev CheckoutTrace := List (Entry checkoutSignature)

/-! ### The phases of a request on its way through checkout

A request that has got the lease carries its token through the second look at the record, the mark, the execution and
the record of the response, to the release. -/

inductive Stage where
  /-- The record is still to be looked at again. -/
  | acquired
  /-- A record was found: the lease is given back. -/
  | yielding (record : IdempotencyRecord)
  | cleared
  /-- The record is marked as in progress. -/
  | leased
  | running
  /-- The handler has ended its response, which was captured as this one. -/
  | ended (response : Response)
  /-- The response is recorded, or discarded. -/
  | stored

inductive Phase where
  | free
  | holding (id : String) (token : Nat) (stage : Stage)
  | replaying (id : String) (record : IdempotencyRecord)
  /-- A command has thrown: the handler runs without a lease. -/
  | failedOpen

namespace Phase

def reach (stage : Stage) : Phase → Phase
  | .holding id token _ => .holding id token stage
  | φ => φ

def look (id : String) (record : Option IdempotencyRecord) : Phase → Phase
  | .holding id token _ => .holding id token ((completed record).elim .cleared .yielding)
  | φ => (completed record).elim φ (.replaying id)

def acquire (id : String) (token : Option Nat) (φ : Phase) : Phase := token.elim φ fun token => .holding id token .acquired

def release : Phase → Phase
  | .holding id _ (.yielding record) => .replaying id record
  | _ => .free

def next (φ : Phase) : (o : Op) → checkoutSignature.Result o → Phase
  | .getRecord id, .ok record => φ.look id record
  | .getRecord _, .error _ => .failedOpen
  | .acquireLease id, .ok token => φ.acquire id token
  | .acquireLease _, .error _ => .failedOpen
  | .markInProgress _ _ _, .ok _ => φ.reach .leased
  | .markInProgress _ _ _, .error _ => .failedOpen
  | .releaseLease _ _, _ => φ.release
  | .complete _ _ _ _, _ => φ.reach .stored
  | .discard _, _ => φ.reach .stored
  | .start _, _ => φ.reach .running
  | .finish _, .ok output => φ.reach (.ended output.captured)
  | _, _ => φ

def Allows : Phase → Op → Prop
  | .free, .getRecord _ => True
  | .free, .acquireLease _ => True
  | .free, .now => True
  | .free, .sleep _ => True
  | .free, .reply id response _ => id = none ∨ response.statusCode = 409
  | .holding id _ .acquired, .getRecord id' => id' = id
  | .holding id token (.yielding _), .releaseLease id' token' => id' = id ∧ token' = token
  | .holding id _ .cleared, .markInProgress id' _ _ => id' = id
  | .holding id _ .leased, .start id' => id' = id
  | .holding id _ .running, .finish id' => id' = id
  | .holding id _ (.ended response), .complete id' _ _ response' =>
    id' = id ∧ response' = response ∧ response.statusCode < 500
  | .holding id _ (.ended response), .discard id' => id' = id ∧ 500 ≤ response.statusCode
  | .holding _ _ .stored, .flush _ _ => True
  | .holding id token .stored, .releaseLease id' token' => id' = id ∧ token' = token
  | .replaying id record, .reply id' response _ => id' = some id ∧ (response.statusCode = 422 ∨ response = record.response)
  | .failedOpen, .start _ => True
  | .failedOpen, .finish _ => True
  | .failedOpen, .flush _ _ => True
  | _, _ => False

end Phase

def requesting : Protocol checkoutSignature Phase where
  Allowed := Phase.Allows
  Moves := fun φ o r φ' => (o.command = false → ∃ a, r = .ok a) ∧ φ' = φ.next o r

section
variable {cfg : Settings} {id fingerprint requestHash : String} {token : Nat} {record : IdempotencyRecord}

theorem follows_op {o : Op} {φ : Phase} {Q : Except String o.Reply → Phase → Prop} (ha : φ.Allows o)
    (hm : ∀ r, (o.command = false → ∃ a, r = .ok a) → Q r (φ.next o r)) : Follows requesting φ (op o) Q := by
  apply follows_perform ha
  rintro r φ' ⟨hansd, rfl⟩
  exact hm r hansd

/-- How the pre-handler leaves a request that it has let through. -/
def Admitted : Except String PreHandlerResult → Phase → Prop
  | .ok (.proceed (some lease)), φ => φ = .holding lease.id lease.token .leased
  | .ok (.proceed none), φ => φ = .failedOpen
  | .error _, φ => φ = .failedOpen
  | _, _ => True

theorem follows_reply {id : Option String} {response : Response} {headers : List (String × String)} {φ : Phase}
    (h : ∀ headers, φ.Allows (.reply id response headers)) :
    Follows requesting φ (reply id response headers) Admitted := by
  apply follows_bind
  refine follows_op (h _) ?_
  intro r hansd
  obtain ⟨a, rfl⟩ := hansd rfl
  trivial

theorem follows_replayOrReject :
    Follows requesting (.replaying id record) (replayOrReject id record requestHash) Admitted := by
  unfold replayOrReject
  split
  · exact follows_reply fun _ => ⟨rfl, .inl rfl⟩
  · exact follows_reply fun _ => ⟨rfl, .inr rfl⟩

theorem follows_enter :
    Follows requesting (.holding id token .acquired) (enter id fingerprint requestHash token) Admitted := by
  refine follows_bind (follows_op rfl (forall_except (fun _ _ => rfl) fun raced _ => ?_))
  simp only [Then, Phase.next, Phase.look]
  cases completed raced with
  | some record =>
    apply follows_bind
    apply follows_attempt
    refine follows_op ⟨rfl, rfl⟩ ?_
    intro r _
    exact follows_replayOrReject
  | none =>
    exact follows_bind (follows_op rfl (forall_except (fun _ _ => rfl) fun _ _ => rfl))

theorem follows_await (deadline : Int) (rounds : Nat) :
    Follows requesting .free (await cfg id fingerprint requestHash deadline rounds) Admitted := by
  induction rounds with
  | zero => trivial
  | succ rounds ih =>
    refine follows_bind (follows_op trivial (forall_except (fun _ _ => rfl) fun existing _ => ?_))
    simp only [Then, Phase.next, Phase.look]
    cases completed existing with
    | some record => exact follows_replayOrReject
    | none =>
      refine follows_bind (follows_op trivial (forall_except (fun _ _ => rfl) fun token _ => ?_))
      cases token with
      | some token => exact follows_enter
      | none =>
        apply follows_bind
        refine follows_op trivial ?_
        intro r hansd
        obtain ⟨now, rfl⟩ := hansd rfl
        simp only [Then]
        split
        · exact follows_reply fun _ => .inr rfl
        · apply follows_bind
          refine follows_op trivial ?_
          intro r hansd
          obtain ⟨a, rfl⟩ := hansd rfl
          exact ih

theorem follows_preHandler (request : Request) (rounds : Nat) :
    Follows requesting .free (checkoutIdempotencyPreHandler cfg request rounds) Admitted := by
  unfold checkoutIdempotencyPreHandler
  split
  · exact follows_reply fun _ => .inl rfl
  · apply follows_bind
    refine follows_op trivial ?_
    intro r hansd
    obtain ⟨started, rfl⟩ := hansd rfl
    refine follows_tryCatch (follows_mono (follows_await _ rounds) ?_)
    intro r φ hadmitted
    cases r with
    | ok result => exact hadmitted
    | error message => exact hadmitted

theorem follows_captureResponse {lease : Lease} {output : Output} :
    Follows requesting (.holding lease.id lease.token (.ended output.captured)) (captureResponse lease output)
      fun _ _ => True := by
  have hrest : Follows requesting (.holding lease.id lease.token .stored)
      (do
        op (.flush lease.id output)
        let _ ← (op (.releaseLease lease.id lease.token)).attempt
        return ()) fun _ _ => True := by
    apply follows_bind
    refine follows_op trivial ?_
    intro r hansd
    obtain ⟨a, rfl⟩ := hansd rfl
    apply follows_bind
    apply follows_attempt
    refine follows_op ⟨rfl, rfl⟩ ?_
    intro r _
    trivial
  apply follows_bind
  apply follows_attempt
  split
  · rename_i hstat
    refine follows_op ⟨rfl, hstat⟩ ?_
    intro r _
    exact hrest
  · rename_i hstat
    refine follows_op ⟨rfl, rfl, Nat.lt_of_not_le hstat⟩ ?_
    intro r _
    exact hrest

theorem follows_checkout (request : Request) (rounds : Nat) :
    Follows requesting .free (checkout cfg request rounds) fun _ _ => True := by
  refine follows_bind (follows_mono (follows_preHandler request rounds)
    (forall_except (fun _ _ _ => trivial) fun result _ hadmitted => ?_))
  cases result with
  | replied => trivial
  | waiting => trivial
  | proceed lease =>
    cases lease with
    | some lease =>
      obtain rfl := hadmitted
      apply follows_bind
      refine follows_op rfl ?_
      intro r hansd
      obtain ⟨a, rfl⟩ := hansd rfl
      apply follows_bind
      refine follows_op rfl ?_
      intro r hansd
      obtain ⟨output, rfl⟩ := hansd rfl
      exact follows_captureResponse
    | none =>
      obtain rfl := hadmitted
      apply follows_bind
      refine follows_op trivial ?_
      intro r hansd
      obtain ⟨a, rfl⟩ := hansd rfl
      apply follows_bind
      refine follows_op trivial ?_
      intro r hansd
      obtain ⟨output, rfl⟩ := hansd rfl
      refine follows_op trivial ?_
      intro r _
      trivial

end

end Delego.Checkout
