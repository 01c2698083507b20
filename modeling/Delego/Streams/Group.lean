import Delego.Data.Calendar
import Delego.Data.Json
import Delego.Data.Table
import Delego.Process.Stepping

/-! A Redis stream that the consumers of a group process.

Each command is one step, and so is a handler's return. A command may fail with nothing done, or with its answer lost; what
a handler does is decided by the environment, as is the clock. Messages may be published at any time. -/
namespace Delego.Streams
open Delego.Data Delego.Process

structure StreamMessage where
  id : String
  fields : List (String × String)

structure ParsedStreamMessage (V : Type) where
  id : Option String
  stream : String
  type : Option String
  (payload metadata : V)
  timestamp : Option String

/-- A message that was delivered and is not acknowledged. -/
structure PendingEntry where
  (id consumer : String)
  deliveredAt : Int
  deliveryCount : Nat

/-- What `XPENDING` tells of it. -/
structure PendingMessage where
  (id consumer : String)
  idleTime : Int
  deliveryCount : Nat

/-- An entry of `<stream>:poison`. -/
structure PoisonEntry where
  (originalId originalStream rawFields error deliveryCount quarantinedAt : String)

structure World where
  entries : List StreamMessage
  /-- How many of the entries the group has been given. -/
  delivered : Nat
  pending : List PendingEntry
  poison : List PoisonEntry

structure StreamProcessingResult where
  (stream groupName consumerName : String)
  (processed failed retried poisoned : Nat)
  processingTimes : List Int
  lag : Int

structure Options where
  batchSize : Option Nat
  blockMs : Option Int
  count : Option Nat
  claimMinIdleMs : Option Int

/-- A stream, and how the texts in its messages are read. -/
structure Manager (V : Type) where
  streamName : String
  deserializer : Option String → Except String V

inductive Op (V : Type) where
  | now
  | xPending
  | xPendingRange (count : Nat)
  | xClaim (consumerName : String) (minIdle : Int) (id : String)
  | xReadGroup (consumerName : String) (count : Nat) (block : Int)
  /-- The handler, on the message of the id. -/
  | handle (id : String) (event : ParsedStreamMessage V)
  | xAddPoison (entry : PoisonEntry)
  | xAck (id : String)
  | xInfoStream

@[reducible] def Op.Reply {V : Type} : Op V → Type
  | .now => Instant
  | .xPending => Nat
  | .xPendingRange _ => List PendingMessage
  | .xClaim _ _ _ => List StreamMessage
  | .xReadGroup _ _ _ => List StreamMessage
  | .handle _ _ => Unit
  | .xAddPoison _ => Unit
  | .xAck _ => Unit
  | .xInfoStream => Int

@[reducible] def streamSignature (V : Type) : Signature := ⟨Op V, Op.Reply, String⟩

abbrev StreamM (V α : Type) := Program (streamSignature V) α

section
variable {V : Type}

def stream (o : Op V) : StreamM V o.Reply := Program.perform (S := streamSignature V) o

/-- What the environment decides: what becomes of a command, the time, and what a handler does. -/
structure Choice where
  fate : Fate
  now : Instant
  handled : Except String Unit
  entriesRead : Int

def undelivered (w : World) (count : Nat) : List StreamMessage :=
  if count = 0 then w.entries.drop w.delivered else (w.entries.drop w.delivered).take count

def PendingEntry.claimed (consumer : String) (now : Int) (entry : PendingEntry) : PendingEntry :=
  { entry with consumer := consumer, deliveredAt := now, deliveryCount := entry.deliveryCount + 1 }

def claimable (w : World) (now minIdle : Int) (id : String) : Option StreamMessage :=
  match lookup PendingEntry.id w.pending id with
  | none => none
  | some entry => if minIdle ≤ now - entry.deliveredAt then lookup StreamMessage.id w.entries id else none

def answer (ch : Choice) (w : World) : (o : Op V) → o.Reply × World
  | .now => (ch.now, w)
  | .xPending => (w.pending.length, w)
  | .xPendingRange count =>
    ((w.pending.take count).map fun entry =>
      ⟨entry.id, entry.consumer, ch.now.val - entry.deliveredAt, entry.deliveryCount⟩, w)
  | .xClaim consumerName minIdle id =>
    match claimable w ch.now.val minIdle id with
    | none => ([], w)
    | some message =>
      ([message], { w with pending := update PendingEntry.id w.pending id (.claimed consumerName ch.now.val) })
  | .xReadGroup consumerName count _ =>
    let messages := undelivered w count
    (messages, { w with
      delivered := w.delivered + messages.length
      pending := w.pending ++ messages.map fun message => ⟨message.id, consumerName, ch.now.val, 1⟩ })
  | .handle _ _ => ((), w)
  | .xAddPoison entry => ((), { w with poison := w.poison ++ [entry] })
  | .xAck id => ((), { w with pending := w.pending.filter fun entry => decide (entry.id ≠ id) })
  | .xInfoStream => (ch.entriesRead, w)

def perform (o : Op V) (ch : Choice) (w : World) : Except String o.Reply × World :=
  match o with
  | .now => (.ok ch.now, w)
  | .handle _ _ => (ch.handled, w)
  | o => ch.fate.carry (answer ch w o) w

def publish (message : StreamMessage) (w : World) : World :=
  match lookup StreamMessage.id w.entries message.id with
  | none => { w with entries := w.entries ++ [message] }
  | some _ => w

end

section
variable {V : Type}

def Manager.parseMessage (manager : Manager V) (message : StreamMessage) : Option (ParsedStreamMessage V) :=
  match manager.deserializer (message.fields.lookup "payload"), manager.deserializer (message.fields.lookup "metadata") with
  | .ok payload, .ok metadata =>
    some ⟨message.fields.lookup "id", manager.streamName, message.fields.lookup "type", payload, metadata,
      message.fields.lookup "timestamp"⟩
  | _, _ => none

def Manager.describeParseFailure (manager : Manager V) (message : StreamMessage) : String :=
  match manager.deserializer (message.fields.lookup "payload") with
  | .error error => error
  | .ok _ =>
    match manager.deserializer (message.fields.lookup "metadata") with
    | .error error => error
    | .ok _ => "missing or invalid schema headers"

def Manager.quarantine (manager : Manager V) (message : StreamMessage) (id : String) (deliveryCount : Nat) :
    StreamM V Unit := do
  let quarantinedAt ← stream .now
  let _ ← (stream (.xAddPoison ⟨message.id, manager.streamName,
    (Json.object (message.fields.map fun field => (field.1, .string field.2))).stringify,
    manager.describeParseFailure message, toString deliveryCount, String.ofList (isoChars quarantinedAt.val)⟩)).attempt
  let _ ← (stream (.xAck id)).attempt
  return ()

def handleMessage (id : String) (parsed : ParsedStreamMessage V) (failed : StreamProcessingResult → StreamProcessingResult)
    (result : StreamProcessingResult) : StreamM V StreamProcessingResult := do
  let start ← stream .now
  match ← (stream (.handle id parsed)).attempt with
  | .error _ => return failed result
  | .ok _ => do
    let stop ← stream .now
    let result := { result with processingTimes := result.processingTimes ++ [stop.val - start.val] }
    match ← (stream (.xAck id)).attempt with
    | .error _ => return failed result
    | .ok _ => return { result with processed := result.processed + 1 }

def Manager.processMessage (manager : Manager V) (id : String) (message : StreamMessage) (deliveryCount : Nat)
    (failed : StreamProcessingResult → StreamProcessingResult) (result : StreamProcessingResult) :
    StreamM V StreamProcessingResult :=
  match manager.parseMessage message with
  | some parsed => handleMessage id parsed failed result
  | none => do
    manager.quarantine message id deliveryCount
    return { result with poisoned := result.poisoned + 1 }

def Manager.processPending (manager : Manager V) (consumerName : String) (minIdle : Int) :
    List PendingMessage → StreamProcessingResult → StreamM V StreamProcessingResult
  | [], result => return result
  | msg :: rest, result =>
    if msg.idleTime > minIdle ∨ msg.deliveryCount > 1 then do
      match ← stream (.xClaim consumerName minIdle msg.id) with
      | [] => manager.processPending consumerName minIdle rest result
      | message :: _ => do
        let result ← manager.processMessage msg.id message msg.deliveryCount
          (fun result => { result with failed := result.failed + 1, retried := result.retried + 1 }) result
        manager.processPending consumerName minIdle rest result
    else manager.processPending consumerName minIdle rest result

def Manager.processPendingFirst (manager : Manager V) (consumerName : String) (minIdle : Int)
    (result : StreamProcessingResult) : StreamM V StreamProcessingResult := do
  let pendingCount ← stream .xPending
  if pendingCount > 0 then do
    let pendingMessages ← stream (.xPendingRange pendingCount)
    manager.processPending consumerName minIdle pendingMessages result
  else return result

def Manager.processNew (manager : Manager V) :
    List StreamMessage → StreamProcessingResult → StreamM V StreamProcessingResult
  | [], result => return result
  | message :: rest, result => do
    let result ← manager.processMessage message.id message 1 (fun result => { result with failed := result.failed + 1 })
      result
    manager.processNew rest result

def Manager.processWithConsumerGroup (manager : Manager V) (groupName consumerName : String) (options : Options) :
    StreamM V StreamProcessingResult := do
  let count := options.count.getD (options.batchSize.getD 10)
  let blockMs := options.blockMs.getD 5000
  let result : StreamProcessingResult := ⟨manager.streamName, groupName, consumerName, 0, 0, 0, 0, [], 0⟩
  let result ← manager.processPendingFirst consumerName (options.claimMinIdleMs.getD 30000) result
  let messages ← stream (.xReadGroup consumerName count blockMs)
  let result ← manager.processNew messages result
  match ← (stream .xInfoStream).attempt with
  | .error _ => return { result with lag := 0 }
  | .ok entriesRead => return { result with lag := max 0 (entriesRead - result.processed) }

/-! ### Calls -/

structure Call where
  consumerName : String
  options : Options

def system (manager : Manager V) (groupName : String) : System (streamSignature V) World where
  Choice := Choice
  Event := StreamMessage
  Call := Call
  perform := perform
  drift := publish
  arrive := fun _ w => some w
  body := fun c => do
    let _ ← manager.processWithConsumerGroup groupName c.consumerName c.options
    return ()

end

/-! ### What a consumer does with the messages it is given: it handles or archives one, and then acknowledges it -/

/-- The messages that a consumer has still to do, each under the id it acknowledges; or the one it is about to acknowledge,
and the others. -/
inductive Phase where
  | working (todo : List (String × StreamMessage))
  | acking (id : String) (todo : List (String × StreamMessage))

def Phase.todo : Phase → List (String × StreamMessage)
  | .working todo => todo
  | .acking _ todo => todo

def Phase.Holds (φ : Phase) (id : String) : Prop := id ∈ φ.todo.map Prod.fst

section
variable {V : Type}

def Phase.Allows : Phase → Op V → Prop
  | φ, .xClaim _ _ _ => φ = .working []
  | φ, .xReadGroup _ _ _ => φ = .working []
  | φ, .handle id _ => ∃ message todo, φ = .working ((id, message) :: todo)
  | φ, .xAddPoison entry => ∃ id message todo, φ = .working ((id, message) :: todo) ∧ entry.originalId = message.id
  | φ, .xAck id => ∃ todo, φ = .acking id todo
  | _, _ => True

def Phase.next : Phase → (o : Op V) → (streamSignature V).Result o → Phase
  | _, .xClaim _ _ id, .ok (message :: _) => .working [(id, message)]
  | _, .xClaim _ _ _, _ => .working []
  | _, .xReadGroup _ _ _, .ok messages => .working (messages.map fun message => (message.id, message))
  | _, .xReadGroup _ _ _, _ => .working []
  | .working ((id, _) :: todo), .handle _ _, .ok _ => .acking id todo
  | .working (_ :: todo), .handle _ _, .error _ => .working todo
  | .working ((id, _) :: todo), .xAddPoison _, _ => .acking id todo
  | .acking _ todo, .xAck _, _ => .working todo
  | φ, _, _ => φ

abbrev delivery (V : Type) : Protocol (streamSignature V) Phase := stepping Phase.Allows Phase.next

/-- An operation that leaves a consumer where it is. -/
def Op.isFree : Op V → Prop
  | .now => True
  | .xPending => True
  | .xPendingRange _ => True
  | .xInfoStream => True
  | _ => False

theorem free_stays (φ : Phase) (o : Op V) (h : o.isFree) : φ.Allows o ∧ ∀ r, φ.next o r = φ := by
  cases o with
  | now => exact ⟨trivial, fun _ => rfl⟩
  | xPending => exact ⟨trivial, fun _ => rfl⟩
  | xPendingRange count => exact ⟨trivial, fun _ => rfl⟩
  | xInfoStream => exact ⟨trivial, fun _ => rfl⟩
  | _ => exact h.elim

end

section
variable {V α β : Type} {φ : Phase} {todo : List (String × StreamMessage)} {id : String} {message : StreamMessage}

def Leaves (todo : List (String × StreamMessage)) (r : Except String α) (φ : Phase) : Prop :=
  ∀ a, r = .ok a → φ = .working todo

theorem leaves_error (todo : List (String × StreamMessage)) (e : String) (φ : Phase) :
    Leaves (α := α) todo (.error e) φ := fun _ h => nomatch h

theorem leaves_ok (todo : List (String × StreamMessage)) (a : α) : Leaves todo (.ok a) (.working todo) := fun _ _ => rfl

theorem follows_free {o : Op V} {f : o.Reply → StreamM V β} {Q : Except String β → Phase → Prop} (h : o.isFree)
    (hfail : ∀ e, Q (.error e) φ) (hf : ∀ a, Follows (delivery V) φ (f a) Q) :
    Follows (delivery V) φ (stream o >>= f) Q :=
  follows_stay (only_perform h) (free_stays φ) hfail hf

theorem follows_leaves {p : StreamM V α} {f : α → StreamM V β} {others : List (String × StreamMessage)}
    (h : Follows (delivery V) φ p (Leaves todo))
    (hf : ∀ a, Follows (delivery V) (.working todo) (f a) (Leaves others)) :
    Follows (delivery V) φ (p >>= f) (Leaves others) := by
  refine follows_bind (follows_mono h (forall_except (fun e φ' _ => leaves_error others e φ') fun a _ hr => ?_))
  obtain rfl := hr a rfl
  exact hf a

theorem follows_handleMessage (id : String) (message : StreamMessage) (todo : List (String × StreamMessage))
    (parsed : ParsedStreamMessage V) (failed : StreamProcessingResult → StreamProcessingResult)
    (result : StreamProcessingResult) :
    Follows (delivery V) (.working ((id, message) :: todo)) (handleMessage id parsed failed result) (Leaves todo) := by
  refine follows_free trivial (fun e => leaves_error todo e _) fun start => ?_
  refine follows_tried ⟨message, todo, rfl⟩ fun handled => ?_
  cases handled with
  | error e => exact leaves_ok todo _
  | ok _ =>
    refine follows_free trivial (fun e => leaves_error todo e _) fun stop => ?_
    refine follows_tried ⟨todo, rfl⟩ fun acknowledged => ?_
    cases acknowledged <;> exact leaves_ok todo _

theorem follows_quarantine (manager : Manager V) (id : String) (message : StreamMessage)
    (todo : List (String × StreamMessage)) (deliveryCount : Nat) :
    Follows (delivery V) (.working ((id, message) :: todo)) (manager.quarantine message id deliveryCount) (Leaves todo) := by
  refine follows_free trivial (fun e => leaves_error todo e _) fun quarantinedAt => ?_
  refine follows_tried ⟨id, message, todo, rfl, rfl⟩ fun _ => ?_
  exact follows_tried ⟨todo, rfl⟩ fun _ => leaves_ok todo ()

theorem follows_processMessage (manager : Manager V) (id : String) (message : StreamMessage)
    (todo : List (String × StreamMessage)) (deliveryCount : Nat) (failed : StreamProcessingResult → StreamProcessingResult)
    (result : StreamProcessingResult) :
    Follows (delivery V) (.working ((id, message) :: todo))
      (manager.processMessage id message deliveryCount failed result) (Leaves todo) := by
  unfold Manager.processMessage
  cases manager.parseMessage message with
  | some parsed => exact follows_handleMessage id message todo parsed failed result
  | none => exact follows_leaves (follows_quarantine manager id message todo deliveryCount) fun _ => leaves_ok todo _

theorem follows_processPending (manager : Manager V) (consumerName : String) (minIdle : Int)
    (pending : List PendingMessage) (result : StreamProcessingResult) :
    Follows (delivery V) (.working []) (manager.processPending consumerName minIdle pending result) (Leaves []) := by
  induction pending generalizing result with
  | nil => exact leaves_ok [] _
  | cons msg rest ih =>
    unfold Manager.processPending
    split
    · refine follows_step rfl (fun e => leaves_error [] e _) fun claimed => ?_
      cases claimed with
      | nil => exact ih result
      | cons message others =>
        refine follows_leaves (follows_processMessage manager msg.id message [] msg.deliveryCount _ result) fun result => ?_
        exact ih result
    · exact ih result

theorem follows_processPendingFirst (manager : Manager V) (consumerName : String) (minIdle : Int)
    (result : StreamProcessingResult) :
    Follows (delivery V) (.working []) (manager.processPendingFirst consumerName minIdle result) (Leaves []) := by
  refine follows_free trivial (fun e => leaves_error [] e _) fun pendingCount => ?_
  split
  · exact follows_free trivial (fun e => leaves_error [] e _) fun pendingMessages =>
      follows_processPending manager consumerName minIdle pendingMessages result
  · exact leaves_ok [] result

theorem follows_processNew (manager : Manager V) (messages : List StreamMessage) (result : StreamProcessingResult) :
    Follows (delivery V) (.working (messages.map fun message => (message.id, message))) (manager.processNew messages result)
      (Leaves []) := by
  induction messages generalizing result with
  | nil => exact leaves_ok [] _
  | cons message rest ih =>
    exact follows_leaves (follows_processMessage manager message.id message _ 1 _ result) fun result => ih result

theorem follows_body (manager : Manager V) (groupName : String) (c : Call) :
    Follows (delivery V) (.working []) ((system manager groupName).body c) fun _ _ => True := by
  refine follows_bind (follows_mono (Q := Leaves []) ?_ fun r φ' _ => ?_)
  · unfold Manager.processWithConsumerGroup
    refine follows_leaves (follows_processPendingFirst manager c.consumerName _ _) fun result => ?_
    refine follows_step rfl (fun e => leaves_error [] e _) fun messages => ?_
    refine follows_leaves (follows_processNew manager messages result) fun result => ?_
    refine follows_tried trivial fun info => ?_
    cases info <;> exact leaves_ok [] _
  · cases r <;> trivial

end

end Delego.Streams
