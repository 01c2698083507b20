import Mathlib.Order.CompletePartialOrder
import Delego.Data.JsonParse
import Delego.Data.Ranges
import Delego.Data.Table
import Delego.Process.Stepping

/-! The polling ingestion worker.

It appends a contract's events to a stream, page by page, and after each page sets the contract's checkpoint in Postgres; a
poll also saves a cursor in Redis. At startup it reads on from the later of the two. A worker that crashes is called no more,
and the one that takes its place has nothing but what is stored. The chain goes on by itself, and Redis may lose a cursor. -/
namespace Delego.Polling
open Delego.Data Delego.Process

/-- `{ xdr?, str? }` -/
structure ScVal where
  (xdr str : Option String)

structure RawSorobanEvent where
  ledger : Int
  (ledgerClosedAt contractId id pagingToken : String)
  topic : List String
  value : Option ScVal
  txHash : String

structure NormalizedContractEvent where
  (contractId topic : String)
  data : Json
  ledger : Int
  (txHash timestamp eventId : String)

def present (text : Option String) : Option String := text.filter fun text => text ≠ ""

def dataOf (value : Option ScVal) : Json :=
  match present (value.bind ScVal.xdr), present (value.bind ScVal.str) with
  | some xdr, _ => .object [("xdr", .string xdr)]
  | none, some str => (Json.parse str).getD (.object [("raw", .string str)])
  | none, none => .object []

def normalizeEvent (raw : RawSorobanEvent) : NormalizedContractEvent where
  contractId := raw.contractId
  topic := (raw.topic.head?.map fun topic => String.ofList (topic.toList.filter fun c => decide (c ≠ '"'))).getD "unknown"
  data := dataOf raw.value
  ledger := raw.ledger
  txHash := raw.txHash
  timestamp := raw.ledgerClosedAt
  eventId := raw.id

/-- The fields of an entry of `soroban:events`. -/
def streamFields (normalized : NormalizedContractEvent) : List (String × String) :=
  [("eventId", normalized.eventId), ("contractId", normalized.contractId), ("topic", normalized.topic),
    ("data", normalized.data.stringify), ("ledger", toString normalized.ledger), ("txHash", normalized.txHash),
    ("timestamp", normalized.timestamp)]

/-- The events of all contracts, in the order of their ledgers. -/
structure History where
  events : List RawSorobanEvent
  ids : (events.map RawSorobanEvent.id).Nodup
  tokens : (events.map RawSorobanEvent.pagingToken).Nodup
  ascending : Ascending RawSorobanEvent.ledger events

def History.of (history : History) (contractId : String) : List RawSorobanEvent :=
  history.events.filter fun e => decide (e.contractId = contractId)

inductive Start where
  | beginning
  | ledger (startLedger : Int)
  | after (cursor : String)

def History.asked (history : History) (contractId : String) : Start → List RawSorobanEvent
  | .beginning => history.of contractId
  | .ledger startLedger => onward RawSorobanEvent.ledger (history.of contractId) startLedger
  | .after cursor => Data.after (fun e => decide (e.pagingToken = cursor)) (history.of contractId)

structure GetEventsParams where
  contractId : String
  startLedger : Option Int
  cursor : Option String
  limit : Nat

structure GetEventsResult where
  events : List RawSorobanEvent
  cursor : String
  latestLedger : Int

def GetEventsParams.start (params : GetEventsParams) (fromLedger : Bool) : Start :=
  match params.cursor, params.startLedger with
  | some cursor, some startLedger => if fromLedger then .ledger startLedger else .after cursor
  | some cursor, none => .after cursor
  | none, some startLedger => .ledger startLedger
  | none, none => .beginning

/-- The answer at a tip of the chain, with the cursor that continues after its last event, or without one. -/
def History.answer (history : History) (params : GetEventsParams) (fromLedger hasCursor : Bool) (tip : Int) :
    GetEventsResult :=
  let events := pageOf RawSorobanEvent.ledger (history.asked params.contractId (params.start fromLedger)) tip params.limit
  ⟨events, if hasCursor then (events.getLast?.map RawSorobanEvent.pagingToken).getD (params.cursor.getD "")
    else params.cursor.getD "", tip⟩

structure EventSyncCheckpoint where
  contractId : String
  lastLedgerSequence : Int
  lastEventId : String

structure ContractEventCursor where
  contractId : String
  lastLedgerSequence : Int
  cursorToken : String

structure World where
  tip : Int
  checkpoints : List EventSyncCheckpoint
  cursors : List ContractEventCursor
  processed : List String
  stream : List (List (String × String))

def World.checkpoint (w : World) (contractId : String) : Option EventSyncCheckpoint :=
  lookup EventSyncCheckpoint.contractId w.checkpoints contractId

def World.cursor (w : World) (contractId : String) : Option ContractEventCursor :=
  lookup ContractEventCursor.contractId w.cursors contractId

inductive Op where
  | waitForPoolCapacity
  | getCheckpoint (contractId : String)
  | setCheckpoint (checkpoint : EventSyncCheckpoint)
  | loadCursor (contractId : String)
  | saveCursor (cursor : ContractEventCursor)
  | getEvents (params : GetEventsParams)
  | hasMany (eventIds : List String)
  | xadd (fields : List (String × String))
  | markPublishedMany (eventIds : List String)

@[reducible] def Op.Reply : Op → Type
  | .waitForPoolCapacity => Unit
  | .getCheckpoint _ => Option EventSyncCheckpoint
  | .setCheckpoint _ => Unit
  | .loadCursor _ => Option ContractEventCursor
  | .saveCursor _ => Unit
  | .getEvents _ => GetEventsResult
  | .hasMany _ => List String
  | .xadd _ => Unit
  | .markPublishedMany _ => Unit

@[reducible] def pollSignature : Signature := ⟨Op, Op.Reply, String⟩

abbrev PollM (α : Type) := Program pollSignature α

def poll (o : Op) : PollM o.Reply := Program.perform (S := pollSignature) o

/-- What the environment decides: what becomes of an operation, where a request starts that has a cursor and a ledger, and
whether an answer has a cursor. -/
structure Choice where
  fate : Fate
  (fromLedger hasCursor : Bool)

def answer (history : History) (choice : Choice) (w : World) : (o : Op) → o.Reply × World
  | .waitForPoolCapacity => ((), w)
  | .getCheckpoint contractId => (w.checkpoint contractId, w)
  | .setCheckpoint checkpoint => ((), { w with checkpoints := put EventSyncCheckpoint.contractId w.checkpoints checkpoint })
  | .loadCursor contractId => (w.cursor contractId, w)
  | .saveCursor cursor => ((), { w with cursors := put ContractEventCursor.contractId w.cursors cursor })
  | .getEvents params => (history.answer params choice.fromLedger choice.hasCursor w.tip, w)
  | .hasMany eventIds => (eventIds.filter fun eventId => decide (eventId ∈ w.processed), w)
  | .xadd fields => ((), { w with stream := w.stream ++ [fields] })
  | .markPublishedMany eventIds => ((), { w with processed := insertNew id w.processed eventIds })

def perform (history : History) (o : Op) (choice : Choice) (w : World) : Except String o.Reply × World :=
  choice.fate.carry (answer history choice w o) w

/-! ### What a worker does -/

structure SorobanRpcConfig where
  pageSize : Option Nat

def defaultPageSize : Nat := 50

def SorobanRpcConfig.limit (config : SorobanRpcConfig) : Nat := config.pageSize.getD defaultPageSize

section
variable (config : SorobanRpcConfig)

def xaddAll : List NormalizedContractEvent → PollM Unit
  | [] => return ()
  | normalized :: rest => do
    poll (.xadd (streamFields normalized))
    xaddAll rest

def publishEvents (rawEvents : List RawSorobanEvent) : PollM Nat :=
  if rawEvents = [] then return 0
  else do
    let normalizedEvents := rawEvents.map normalizeEvent
    let alreadyProcessed ← poll (.hasMany (normalizedEvents.map NormalizedContractEvent.eventId))
    let toPublish := normalizedEvents.filter fun normalized => decide (normalized.eventId ∉ alreadyProcessed)
    xaddAll toPublish
    poll (.markPublishedMany (toPublish.map NormalizedContractEvent.eventId))
    return toPublish.length

def advanceCheckpoint (contractId : String) (lastLedgerSequence : Int) (lastEventId : String) : PollM Unit :=
  poll (.setCheckpoint ⟨contractId, lastLedgerSequence, lastEventId⟩)

/-- The loop of `backfillContract`, for as many pages; after these it ends as if the RPC had failed. -/
def backfillPages (contractId : String) (startLedger : Int) : Nat → Option String → Nat → PollM Nat
  | 0, _, _ => .fail "stopped"
  | pages + 1, pageCursor, totalBackfilled => do
    poll .waitForPoolCapacity
    let response ← poll (.getEvents ⟨contractId, if pageCursor.isSome then none else some startLedger, pageCursor,
      config.limit⟩)
    match response.events.getLast? with
    | none => return totalBackfilled
    | some lastEvent => do
      let ingested ← publishEvents response.events
      let totalBackfilled := totalBackfilled + ingested
      if response.events.length < config.limit then do
        advanceCheckpoint contractId response.latestLedger lastEvent.id
        return totalBackfilled
      else do
        let pageCursor := if response.cursor = "" then lastEvent.pagingToken else response.cursor
        if pageCursor = "" then do
          advanceCheckpoint contractId response.latestLedger lastEvent.id
          return totalBackfilled
        else do
          advanceCheckpoint contractId response.latestLedger lastEvent.id
          backfillPages contractId startLedger pages (some pageCursor) totalBackfilled

def laterLedger (checkpoint : Option EventSyncCheckpoint) (cursor : Option ContractEventCursor) : Int :=
  max ((checkpoint.map EventSyncCheckpoint.lastLedgerSequence).getD 0)
    ((cursor.map ContractEventCursor.lastLedgerSequence).getD 0)

def backfillContract (pages : Nat) (contractId : String) : PollM Nat := do
  let pgCheckpoint ← poll (.getCheckpoint contractId)
  let redisCursor ← poll (.loadCursor contractId)
  let startLedger := laterLedger pgCheckpoint redisCursor
  if startLedger = 0 then return 0
  else backfillPages config contractId startLedger pages none 0

def cursorLedger (cursor : Option ContractEventCursor) : Option Int :=
  (cursor.map ContractEventCursor.lastLedgerSequence).filter fun ledger => ledger ≠ 0

def ingestFrom (contractId : String) (startLedger : Option Int) (cursor : Option ContractEventCursor) : PollM Nat := do
  let response ← poll (.getEvents ⟨contractId, startLedger, present (cursor.map ContractEventCursor.cursorToken),
    config.limit⟩)
  match response.events.getLast? with
  | none => return 0
  | some lastEvent => do
    let ingested ← publishEvents response.events
    poll (.saveCursor ⟨contractId, response.latestLedger, response.cursor⟩)
    advanceCheckpoint contractId response.latestLedger lastEvent.id
    return ingested

def ingestContract (contractId : String) : PollM Nat := do
  poll .waitForPoolCapacity
  let cursor ← poll (.loadCursor contractId)
  match cursorLedger cursor with
  | some startLedger => ingestFrom config contractId (some startLedger) cursor
  | none => do
    let pgCheckpoint ← poll (.getCheckpoint contractId)
    ingestFrom config contractId (pgCheckpoint.map EventSyncCheckpoint.lastLedgerSequence) cursor

end

/-- Calls; a backfill with how many pages it may read. -/
inductive Call where
  | backfillContract (contractId : String) (pages : Nat)
  | ingestContract (contractId : String)

def Call.body (config : SorobanRpcConfig) : Call → PollM Unit
  | .backfillContract contractId pages => do
    let _ ← Polling.backfillContract config pages contractId
    return ()
  | .ingestContract contractId => do
    let _ ← Polling.ingestContract config contractId
    return ()

/-- What happens by itself: the chain goes on by some ledgers, or Redis loses a cursor. -/
inductive Event where
  | ledgersClose (count : Nat)
  | cursorExpires (contractId : String)

def drift : Event → World → World
  | .ledgersClose count, w => { w with tip := w.tip + count }
  | .cursorExpires contractId, w =>
    { w with cursors := w.cursors.filter fun cursor => decide (cursor.contractId ≠ contractId) }

def system (config : SorobanRpcConfig) (history : History) : System pollSignature World where
  Choice := Choice
  Event := Event
  Call := Call
  perform := perform history
  drift := drift
  arrive := fun _ w => some w
  body := Call.body config

/-! ### What a worker knows to be on the stream

A request starts where all before it has been appended. Once the events of its answer are appended, all below the answer's
latest ledger are, provided that the page left none of these out (`Appended.ledger`); and all up to the last of them, if the
next request starts after that (`Appended.last`). -/

def fieldsOf (raw : RawSorobanEvent) : List (String × String) := streamFields (normalizeEvent raw)

section
variable (history : History) (first : String → Option Int)

/-- What a request of the contract leaves out that starts there is on the stream, from the contract's first checkpoint on. -/
def Appended (stream : Set (List (String × String))) (contractId : String) (start : Start) : Prop :=
  ∀ raw ∈ history.of contractId, (∀ ledger, first contractId = some ledger → ledger ≤ raw.ledger) →
    raw ∉ history.asked contractId start → fieldsOf raw ∈ stream

def Published (stream : Set (List (String × String))) (eventIds : List String) : Prop :=
  ∀ raw ∈ history.events, raw.id ∈ eventIds → fieldsOf raw ∈ stream

def CursorTold (stream : Set (List (String × String))) (cursor : ContractEventCursor) : Prop :=
  Appended history first stream cursor.contractId (.ledger cursor.lastLedgerSequence) ∧
    ∀ token, present (some cursor.cursorToken) = some token → Appended history first stream cursor.contractId (.after token)

/-- An answer to a request that starts there: what it leaves out below its latest ledger is on the stream. -/
structure Answers (stream : Set (List (String × String))) (params : GetEventsParams) (start : Start)
    (response : GetEventsResult) : Prop where
  begins : response.events <+: history.asked params.contractId start
  complete : ∀ raw ∈ history.asked params.contractId start, raw.ledger < response.latestLedger →
    raw ∈ response.events ∨ fieldsOf raw ∈ stream
  cursor : response.cursor = params.cursor.getD "" ∨
    response.events.getLast?.map RawSorobanEvent.pagingToken = some response.cursor

def Requires : Op → Set (List (String × String)) → Prop
  | .setCheckpoint checkpoint, stream =>
    Appended history first stream checkpoint.contractId (.ledger checkpoint.lastLedgerSequence)
  | .saveCursor cursor, stream => CursorTold history first stream cursor
  | .markPublishedMany eventIds, stream => Published history stream eventIds
  | _, _ => True

def Teaches : (o : Op) → pollSignature.Result o → Set (List (String × String)) → Prop
  | .getCheckpoint contractId, .ok checkpoint, stream => ∀ c, checkpoint = some c →
      Appended history first stream contractId (.ledger c.lastLedgerSequence)
  | .loadCursor contractId, .ok cursor, stream => ∀ c, cursor = some c → c.contractId = contractId ∧
      CursorTold history first stream c
  | .getEvents params, .ok response, stream => ∃ fromLedger, Answers history stream params (params.start fromLedger) response
  | .hasMany _, .ok found, stream => Published history stream found
  | .xadd fields, .ok _, stream => fields ∈ stream
  | _, _, _ => True

abbrev polling : Protocol pollSignature (Set (List (String × String)) → Prop) :=
  knowing (fun _ _ => True) (Requires history first) (Teaches history first)

end

section
variable {history : History} {first : String → Option Int} {stream stream' : Set (List (String × String))}
  {contractId : String} {start : Start} {params : GetEventsParams} {response : GetEventsResult}

theorem Appended.mono (h : Appended history first stream contractId start) (hsub : stream ⊆ stream') :
    Appended history first stream' contractId start :=
  fun raw hraw hfirst hnot => hsub (h raw hraw hfirst hnot)

theorem CursorTold.mono {cursor : ContractEventCursor} (h : CursorTold history first stream cursor)
    (hsub : stream ⊆ stream') : CursorTold history first stream' cursor :=
  ⟨h.1.mono hsub, fun token htoken => (h.2 token htoken).mono hsub⟩

theorem Published.mono {eventIds : List String} (h : Published history stream eventIds) (hsub : stream ⊆ stream') :
    Published history stream' eventIds :=
  fun raw hraw hid => hsub (h raw hraw hid)

theorem Answers.mono (h : Answers history stream params start response) (hsub : stream ⊆ stream') :
    Answers history stream' params start response :=
  { h with complete := fun raw hraw hledg => (h.complete raw hraw hledg).imp_right fun hmem => hsub hmem }

theorem appended_beginning : Appended history first stream contractId .beginning := fun _ hraw _ hnot => absurd hraw hnot

theorem History.asked_suffix (history : History) (contractId : String) (start : Start) :
    ∃ seen, seen ++ history.asked contractId start = history.of contractId := by
  cases start with
  | beginning => exact ⟨[], rfl⟩
  | ledger startLedger =>
    have hsplit := upTo_append_onward (history.ascending.sublist (List.filter_sublist (p := fun e =>
      decide (e.contractId = contractId)))) (startLedger - 1)
    rw [sub_add_cancel] at hsplit
    exact ⟨_, hsplit⟩
  | after cursor => exact after_suffix _ _

theorem History.asked_sublist (history : History) (contractId : String) (start : Start) :
    (history.asked contractId start).Sublist history.events := by
  obtain ⟨seen, hseen⟩ := history.asked_suffix contractId start
  have hof : (history.asked contractId start).Sublist (history.of contractId) := by
    rw [← hseen]
    exact List.sublist_append_right ..
  exact hof.trans List.filter_sublist

theorem History.asked_ascending (history : History) (contractId : String) (start : Start) :
    Ascending RawSorobanEvent.ledger (history.asked contractId start) :=
  history.ascending.sublist (history.asked_sublist contractId start)

theorem History.asked_after {seen rest : List RawSorobanEvent} {raw : RawSorobanEvent}
    (h : seen ++ raw :: rest = history.of contractId) : history.asked contractId (.after raw.pagingToken) = rest := by
  have hnodup : ((history.of contractId).map RawSorobanEvent.pagingToken).Nodup :=
    history.tokens.sublist (List.filter_sublist.map RawSorobanEvent.pagingToken)
  rw [← h, List.map_append, List.map_cons] at hnodup
  show after (fun e => decide (e.pagingToken = raw.pagingToken)) (history.of contractId) = rest
  rw [← h]
  refine after_append (fun other hother => decide_eq_false fun heq => ?_) (decide_eq_true rfl)
  exact (List.nodup_append.mp hnodup).2.2 _ (List.mem_map_of_mem hother) _ List.mem_cons_self heq

section
variable (h : Appended history first stream params.contractId start)
  (hanswers : Answers history stream params start response) (hpub : ∀ raw ∈ response.events, fieldsOf raw ∈ stream)
include h hanswers hpub

theorem Appended.ledger : Appended history first stream params.contractId (.ledger response.latestLedger) := by
  rintro raw hraw hfirst hnot
  by_cases hasked : raw ∈ history.asked params.contractId start
  · have hbelow : raw.ledger < response.latestLedger := by
      by_contra hge
      exact hnot (mem_onward.mpr ⟨hraw, by omega⟩)
    exact (hanswers.complete raw hasked hbelow).elim (hpub raw) id
  · exact h raw hraw hfirst hasked

theorem Appended.last {lastEvent : RawSorobanEvent} (hlast : response.events.getLast? = some lastEvent) :
    Appended history first stream params.contractId (.after lastEvent.pagingToken) := by
  obtain ⟨init, hinit⟩ := List.getLast?_eq_some_iff.mp hlast
  obtain ⟨rest, hrest⟩ := hanswers.begins
  obtain ⟨seen, hseen⟩ := history.asked_suffix params.contractId start
  have hsplit : (seen ++ init) ++ lastEvent :: rest = history.of params.contractId := by
    rw [← hseen, ← hrest, hinit, List.append_assoc, List.append_assoc, List.singleton_append]
  rintro raw hraw hfirst hnot
  rw [History.asked_after hsplit] at hnot
  by_cases hevents : raw ∈ response.events
  · exact hpub raw hevents
  · refine h raw hraw hfirst fun hasked => ?_
    rw [← hrest] at hasked
    exact (List.mem_append.mp hasked).elim hevents hnot

end

def Covers (history : History) (first : String → Option Int) (stream : Set (List (String × String)))
    (params : GetEventsParams) : Prop :=
  ∀ fromLedger, Appended history first stream params.contractId (params.start fromLedger)

theorem Covers.cursor (h : Covers history first stream params) {cursor : String} (hcursor : params.cursor = some cursor) :
    Appended history first stream params.contractId (.after cursor) := by
  have hstart : params.start false = .after cursor := by
    unfold GetEventsParams.start
    rw [hcursor]
    cases params.startLedger <;> rfl
  rw [← hstart]
  exact h false

theorem Covers.answered (h : Covers history first stream params)
    (hanswers : ∃ fromLedger, Answers history stream params (params.start fromLedger) response)
    (hpub : ∀ raw ∈ response.events, fieldsOf raw ∈ stream) :
    CursorTold history first stream ⟨params.contractId, response.latestLedger, response.cursor⟩ := by
  obtain ⟨fromLedger, hanswers⟩ := hanswers
  refine ⟨(h fromLedger).ledger hanswers hpub, fun token htoken => ?_⟩
  obtain ⟨htoken, hne⟩ := Option.filter_eq_some_iff.mp htoken
  obtain rfl : response.cursor = token := Option.some.inj htoken
  rcases hanswers.cursor with hsame | hlast
  · cases hcursor : params.cursor with
    | none =>
      rw [hcursor] at hsame
      exact absurd hsame (of_decide_eq_true hne)
    | some cursor =>
      rw [hcursor] at hsame
      rw [hsame]
      exact h.cursor hcursor
  · obtain ⟨lastEvent, hlastEvent, htoken⟩ := Option.map_eq_some_iff.mp hlast
    rw [← htoken]
    exact (h fromLedger).last hanswers hpub hlastEvent

end

section
variable {config : SorobanRpcConfig} {history : History} {first : String → Option Int} {contractId : String}
  {known : Set (List (String × String)) → Prop} {α : Type}

theorem follows_xaddAll (events : List NormalizedContractEvent) :
    Follows (polling history first) known (xaddAll events) fun r known' => ∀ a, r = .ok a →
      ∀ stream, known' stream → ∀ normalized ∈ events, streamFields normalized ∈ stream := by
  induction events generalizing known with
  | nil => exact fun _ _ _ _ _ h => nomatch h
  | cons normalized rest ih =>
    refine follows_knowing (fun _ _ => trivial) (fun _ _ _ h => nomatch h) fun _ _ => ?_
    refine follows_mono (follows_remembers ih) ?_
    rintro r known' ⟨hrest, hremembers⟩ a ha stream hstream other hother
    rcases List.mem_cons.mp hother with rfl | hother
    · exact (hremembers stream hstream).2
    · exact hrest a ha stream hstream other hother

theorem follows_publishEvents {events : List RawSorobanEvent}
    (hevents : ∀ stream, known stream → ∀ raw ∈ events, raw ∈ history.events) :
    Follows (polling history first) known (publishEvents events) fun r known' => ∀ a, r = .ok a →
      ∀ stream, known' stream → ∀ raw ∈ events, fieldsOf raw ∈ stream := by
  unfold publishEvents
  split
  · rename_i hnil
    subst hnil
    exact fun _ _ _ _ _ h => nomatch h
  · refine follows_knowing (fun _ _ => trivial) (fun _ _ _ h => nomatch h) fun found _ => ?_
    refine follows_bind (follows_mono (follows_remembers (follows_xaddAll _))
      (forall_except (fun _ _ ⟨hadded, hremembers⟩ => fun _ h => nomatch h) ?_))
    rintro _ known' ⟨hadded, hremembers⟩
    have hnew : ∀ stream, known' stream → ∀ raw ∈ events, raw.id ∉ found → fieldsOf raw ∈ stream := by
      rintro stream hstream raw hraw hid
      refine hadded () rfl stream hstream _ (List.mem_filter.mpr ⟨List.mem_map_of_mem hraw, ?_⟩)
      exact decide_eq_true hid
    refine follows_knowing ?_ (fun _ _ _ h => nomatch h) fun _ _ a _ stream hstream raw hraw => ?_
    · rintro stream hstream raw hraw hid
      obtain ⟨normalized, hnormalized, hsame⟩ := List.mem_map.mp hid
      obtain ⟨hmem, hnot⟩ := List.mem_filter.mp hnormalized
      obtain ⟨raw', hraw', rfl⟩ := List.mem_map.mp hmem
      have hknown := (hremembers stream hstream).1
      obtain rfl : raw' = raw := List.inj_on_of_nodup_map history.ids (hevents stream hknown raw' hraw') hraw hsame
      exact hnew stream hstream raw' hraw' (of_decide_eq_true hnot)
    · obtain ⟨hknown, hfound⟩ := hremembers stream hstream.1
      by_cases hid : raw.id ∈ found
      · exact hfound raw (hevents stream hknown raw hraw) hid
      · exact hnew stream hstream.1 raw hraw hid

def Op.isFree : Op → Bool
  | .setCheckpoint _ => false
  | .saveCursor _ => false
  | .markPublishedMany _ => false
  | _ => true

theorem follows_free {o : Op} (ho : o.isFree = true) {next : o.Reply → PollM α}
    (hnext : ∀ a, Follows (polling history first) (fun stream => known stream ∧ Teaches history first o (.ok a) stream)
      (next a) fun _ _ => True) :
    Follows (polling history first) known (poll o >>= next) fun _ _ => True := by
  refine follows_knowing (fun stream _ => ?_) (fun _ _ => trivial) fun a _ => hnext a
  cases o <;> trivial

theorem follows_answered (params : GetEventsParams) {response : GetEventsResult} {next : Nat → PollM α}
    (hansd : ∀ stream, known stream → Covers history first stream params ∧
      ∃ fromLedger, Answers history stream params (params.start fromLedger) response)
    (hnext : ∀ ingested known', (∀ stream, known' stream →
        (∀ raw ∈ response.events, fieldsOf raw ∈ stream) ∧ Covers history first stream params ∧
        ∃ fromLedger, Answers history stream params (params.start fromLedger) response) →
      Follows (polling history first) known' (next ingested) fun _ _ => True) :
    Follows (polling history first) known (publishEvents response.events >>= next) fun _ _ => True := by
  refine follows_bind (follows_mono (follows_remembers (follows_publishEvents ?_)) ?_)
  · rintro stream hstream raw hraw
    obtain ⟨-, fromLedger, hanswers⟩ := hansd stream hstream
    exact (history.asked_sublist _ _).subset (hanswers.begins.subset hraw)
  · rintro r known' ⟨hpub, hremembers⟩
    cases r with
    | error e => trivial
    | ok ingested =>
      exact hnext ingested known' fun stream hstream =>
        ⟨hpub ingested rfl stream hstream, hansd stream (hremembers stream hstream)⟩

theorem follows_advance {params : GetEventsParams} {response : GetEventsResult} {next : Unit → PollM α} {lastEventId : String}
    (hpub : ∀ stream, known stream → (∀ raw ∈ response.events, fieldsOf raw ∈ stream) ∧
      Covers history first stream params ∧ ∃ fromLedger, Answers history stream params (params.start fromLedger) response)
    (hnext : ∀ known', (∀ stream, known' stream → known stream) →
      Follows (polling history first) known' (next ()) fun _ _ => True) :
    Follows (polling history first) known
      (advanceCheckpoint params.contractId response.latestLedger lastEventId >>= next) fun _ _ => True := by
  refine follows_knowing ?_ (fun _ _ => trivial) fun _ _ => hnext _ fun _ hstream => hstream.1
  rintro stream hstream
  obtain ⟨hevents, hcov, hanswers⟩ := hpub stream hstream
  exact (hcov.answered hanswers hevents).1

theorem follows_backfillPages {startLedger : Int} (pages : Nat) {pageCursor : Option String} (totalBackfilled : Nat)
    (hcov : ∀ stream, known stream → Covers history first stream
      ⟨contractId, if pageCursor.isSome then none else some startLedger, pageCursor, config.limit⟩) :
    Follows (polling history first) known
      (backfillPages config contractId startLedger pages pageCursor totalBackfilled) fun _ _ => True := by
  induction pages generalizing known pageCursor totalBackfilled with
  | zero => trivial
  | succ pages ih =>
    refine follows_free rfl fun _ => follows_free rfl fun response => ?_
    cases hlast : response.events.getLast? with
    | none => trivial
    | some lastEvent =>
      refine follows_answered ⟨contractId, if pageCursor.isSome then none else some startLedger, pageCursor,
        config.limit⟩ (fun stream hstream => ⟨hcov stream hstream.1.1, hstream.2⟩) fun ingested known' hpub => ?_
      have hnext : ∀ stream, known' stream → Appended history first stream contractId
          (.after (if response.cursor = "" then lastEvent.pagingToken else response.cursor)) := by
        rintro stream hstream
        obtain ⟨hevents, hcov', hanswers⟩ := hpub stream hstream
        split
        · obtain ⟨fromLedger, hanswers⟩ := hanswers
          exact (hcov' fromLedger).last hanswers hevents hlast
        · rename_i hne
          exact (hcov'.answered hanswers hevents).2 _ (Option.filter_eq_some_iff.mpr ⟨rfl, decide_eq_true hne⟩)
      dsimp only
      generalize (if response.cursor = "" then lastEvent.pagingToken else response.cursor) = token at hnext ⊢
      split
      · refine follows_advance hpub fun _ _ => ?_
        trivial
      · split
        · refine follows_advance hpub fun _ _ => ?_
          trivial
        · refine follows_advance hpub fun known'' hremembers => ?_
          exact ih _ fun stream hstream fromLedger => hnext stream (hremembers stream hstream)

theorem appended_laterLedger {stream : Set (List (String × String))} {checkpoint : Option EventSyncCheckpoint}
    {cursor : Option ContractEventCursor} (hnonzero : laterLedger checkpoint cursor ≠ 0)
    (hchkp : ∀ c, checkpoint = some c → Appended history first stream contractId (.ledger c.lastLedgerSequence))
    (hcursor : ∀ c, cursor = some c → Appended history first stream contractId (.ledger c.lastLedgerSequence)) :
    Appended history first stream contractId (.ledger (laterLedger checkpoint cursor)) := by
  unfold laterLedger at hnonzero ⊢
  rcases max_choice ((checkpoint.map EventSyncCheckpoint.lastLedgerSequence).getD 0)
    ((cursor.map ContractEventCursor.lastLedgerSequence).getD 0) with hmax | hmax
  · rw [hmax] at hnonzero ⊢
    cases checkpoint with
    | none => exact absurd rfl hnonzero
    | some c => exact hchkp c rfl
  · rw [hmax] at hnonzero ⊢
    cases cursor with
    | none => exact absurd rfl hnonzero
    | some c => exact hcursor c rfl

theorem follows_backfillContract (pages : Nat) (contractId : String) :
    Follows (polling history first) known (backfillContract config pages contractId) fun _ _ => True := by
  refine follows_free rfl fun checkpoint => follows_free rfl fun cursor => ?_
  dsimp only
  split
  · trivial
  · rename_i hnonzero
    refine follows_backfillPages pages 0 fun stream hstream fromLedger => ?_
    refine appended_laterLedger hnonzero hstream.1.2 fun c hc => ?_
    obtain ⟨rfl, htold⟩ := hstream.2 c hc
    exact htold.1

theorem follows_ingestFrom {startLedger : Option Int} {cursor : Option ContractEventCursor}
    (hcov : ∀ stream, known stream → Covers history first stream
      ⟨contractId, startLedger, present (cursor.map ContractEventCursor.cursorToken), config.limit⟩) :
    Follows (polling history first) known (ingestFrom config contractId startLedger cursor) fun _ _ => True := by
  refine follows_free rfl fun response => ?_
  cases hlast : response.events.getLast? with
  | none => trivial
  | some lastEvent =>
    refine follows_answered ⟨contractId, startLedger, present (cursor.map ContractEventCursor.cursorToken),
      config.limit⟩ (fun stream hstream => ⟨hcov stream hstream.1, hstream.2⟩) fun ingested known' hpub => ?_
    refine follows_knowing ?_ (fun _ _ => trivial) fun _ _ => ?_
    · rintro stream hstream
      obtain ⟨hevents, hcov', hanswers⟩ := hpub stream hstream
      exact hcov'.answered hanswers hevents
    · refine follows_advance (fun stream hstream => hpub stream hstream.1) fun _ _ => ?_
      trivial

theorem follows_ingestContract (contractId : String) :
    Follows (polling history first) known (ingestContract config contractId) fun _ _ => True := by
  refine follows_free rfl fun _ => follows_free rfl fun cursor => ?_
  have htoken : ∀ stream token, (∀ c, cursor = some c → c.contractId = contractId ∧ CursorTold history first stream c) →
      present (cursor.map ContractEventCursor.cursorToken) = some token →
      Appended history first stream contractId (.after token) := by
    rintro stream token htold hpres
    cases cursor with
    | none => cases hpres
    | some c =>
      obtain ⟨rfl, hcursor⟩ := htold c rfl
      exact hcursor.2 token hpres
  -- a start is the cursor's token, or a ledger that is known, or the beginning
  have hstart : ∀ stream startLedger fromLedger,
      (∀ c, cursor = some c → c.contractId = contractId ∧ CursorTold history first stream c) →
      (∀ ledger, startLedger = some ledger → Appended history first stream contractId (.ledger ledger)) →
      Appended history first stream contractId (GetEventsParams.start ⟨contractId, startLedger,
        present (cursor.map ContractEventCursor.cursorToken), config.limit⟩ fromLedger) := by
    rintro stream startLedger fromLedger htold hledg
    unfold GetEventsParams.start
    dsimp only
    split
    · rename_i token ledger hpres
      split
      · exact hledg ledger rfl
      · exact htoken stream token htold hpres
    · rename_i token hpres
      exact htoken stream token htold hpres
    · exact hledg _ rfl
    · exact appended_beginning
  cases hcursorLedger : cursorLedger cursor with
  | some startLedger =>
    refine follows_ingestFrom fun stream hstream fromLedger => hstart stream _ fromLedger hstream.2 ?_
    rintro ledger ⟨⟩
    obtain ⟨hmap, -⟩ := Option.filter_eq_some_iff.mp hcursorLedger
    obtain ⟨c, hc, rfl⟩ := Option.map_eq_some_iff.mp hmap
    obtain ⟨rfl, htold⟩ := hstream.2 c hc
    exact htold.1
  | none =>
    refine follows_free rfl fun checkpoint => follows_ingestFrom fun stream hstream fromLedger => ?_
    refine hstart stream _ fromLedger hstream.1.2 fun ledger hledg => ?_
    obtain ⟨c, hc, rfl⟩ := Option.map_eq_some_iff.mp hledg
    exact hstream.2 c hc

theorem follows_body (c : Call) : Follows (polling history first) known (c.body config) fun _ _ => True := by
  have hdiscard : ∀ {γ : Type} {p : PollM γ}, Follows (polling history first) known p (fun _ _ => True) →
      Follows (polling history first) known (p >>= fun _ => Program.ret ()) fun _ _ => True := by
    intro γ p h
    refine follows_bind (follows_mono h fun r known' _ => ?_)
    cases r <;> trivial
  cases c with
  | backfillContract contractId pages => exact hdiscard (follows_backfillContract pages contractId)
  | ingestContract contractId => exact hdiscard (follows_ingestContract contractId)

end

end Delego.Polling
