import Delego.Streams.Group

/-! The replay of a stream (`replayFrom` of `utils/src/redis/streams.ts`).

The client answers with the messages of each stream, of which there is one: the answer is as long as there are streams
in it, and the loop ends by that length. -/
namespace Delego.Streams
open List

/-- What a replay has done: the events that the handler was called with, and where it goes on. -/
structure Replay (V : Type) where
  calls : List (ParsedStreamMessage V) := []
  lastId : String

section
variable {V Position : Type} [LinearOrder Position]

/-- The messages at a position or after it; `place` is how Redis reads an id. -/
def messagesFrom (place : String → Position) (entries : List StreamMessage) (id : String) : List StreamMessage :=
  entries.filter fun message => place id ≤ place message.id

def xReadRange (place : String → Position) (entries : List StreamMessage) (stream id : String) (count : Nat) :
    List (String × List StreamMessage) :=
  match (messagesFrom place entries id).take count with
  | [] => []
  | messages => [(stream, messages)]

/-- The messages of a stream in turn, and whether the handler was content with all of them. -/
def Manager.replayMessages (manager : Manager V) (handler : ParsedStreamMessage V → Bool) :
    List StreamMessage → Replay V → Replay V × Bool
  | [], replay => (replay, true)
  | msg :: msgs, replay =>
    match manager.parseMessage msg with
    | none => manager.replayMessages handler msgs { replay with lastId := msg.id }
    | some parsed =>
      let called : Replay V := { replay with calls := replay.calls ++ [parsed] }
      if handler parsed then manager.replayMessages handler msgs { called with lastId := msg.id } else (called, false)

def Manager.replayStreams (manager : Manager V) (handler : ParsedStreamMessage V → Bool) :
    List (String × List StreamMessage) → Replay V → Replay V × Bool
  | [], replay => (replay, true)
  | (_, msgs) :: messages, replay =>
    match manager.replayMessages handler msgs replay with
    | (replay, true) => manager.replayStreams handler messages replay
    | (replay, false) => (replay, false)

/-- The loop of `replayFrom`; nothing where it goes on after the turns that are looked at. -/
def Manager.replayLoop (manager : Manager V) (place : String → Position) (entries : List StreamMessage)
    (handler : ParsedStreamMessage V → Bool) (batchSize : Nat) : Nat → Replay V → Option (Replay V)
  | 0, _ => none
  | turns + 1, replay =>
    let messages := xReadRange place entries manager.streamName replay.lastId batchSize
    if messages.length = 0 then some replay
    else match manager.replayStreams handler messages replay with
      | (replay, false) => some replay
      | (replay, true) =>
        if messages.length < batchSize then some replay
        else manager.replayLoop place entries handler batchSize turns replay

def Manager.replayFrom (manager : Manager V) (place : String → Position) (entries : List StreamMessage)
    (handler : ParsedStreamMessage V → Bool) (batchSize turns : Nat) (position : String) : Option (Replay V) :=
  manager.replayLoop place entries handler batchSize turns { lastId := position }

/-- The replay ends, with a call for each message from the position on that can be read, in their order. -/
def Manager.ReplaysOnce (manager : Manager V) (place : String → Position) (entries : List StreamMessage) (batchSize : Nat)
    (position : String) : Prop :=
  ∃ least replay, (∀ turns, least ≤ turns →
      manager.replayFrom place entries (fun _ => true) batchSize turns position = some replay) ∧
    replay.calls = (messagesFrom place entries position).filterMap manager.parseMessage

variable (manager : Manager V) (place : String → Position) (entries : List StreamMessage)

theorem replayMessages_all (msgs : List StreamMessage) (replay : Replay V) :
    manager.replayMessages (fun _ => true) msgs replay = ({
      calls := replay.calls ++ msgs.filterMap manager.parseMessage
      lastId := (msgs.getLast?.map StreamMessage.id).getD replay.lastId }, true) := by
  induction msgs generalizing replay with
  | nil => simp [Manager.replayMessages]
  | cons msg msgs ih =>
    have hlast : (((msg :: msgs).getLast?).map StreamMessage.id).getD replay.lastId =
        (msgs.getLast?.map StreamMessage.id).getD msg.id := by
      rw [getLast?_cons]
      cases msgs.getLast? <;> rfl
    rw [Manager.replayMessages, hlast]
    cases hparsed : manager.parseMessage msg with
    | none =>
      rw [filterMap_cons_none hparsed]
      exact ih _
    | some parsed =>
      rw [filterMap_cons_some hparsed]
      simp [ih]

variable {rest : List StreamMessage} {first : StreamMessage}

/-- The first turn, where there is a message from the position on. -/
theorem replayLoop_turn (batchSize : Nat) {replay : Replay V}
    (h : messagesFrom place entries replay.lastId = first :: rest) (turns : Nat) :
    manager.replayLoop place entries (fun _ => true) (batchSize + 1) (turns + 1) replay =
      let later : Replay V := {
        calls := replay.calls ++ (first :: rest.take batchSize).filterMap manager.parseMessage
        lastId := ((first :: rest.take batchSize).getLast?.map StreamMessage.id).getD replay.lastId }
      if 0 < batchSize then some later
      else manager.replayLoop place entries (fun _ => true) (batchSize + 1) turns later := by
  have hread : xReadRange place entries manager.streamName replay.lastId (batchSize + 1) =
      [(manager.streamName, first :: rest.take batchSize)] := by
    rw [xReadRange, h, take_succ_cons]
  simp only [Manager.replayLoop, hread, Manager.replayStreams, replayMessages_all, length_singleton]
  simp

theorem messagesFrom_first {id : String}
    (h : messagesFrom place entries id = first :: rest) : ∃ rest', messagesFrom place entries first.id = first :: rest' := by
  unfold messagesFrom at h ⊢
  induction entries with
  | nil => cases h
  | cons message entries ih =>
    rw [filter_cons] at h ⊢
    by_cases hid : place id ≤ place message.id
    · rw [if_pos (decide_eq_true hid)] at h
      cases h
      exact ⟨_, by rw [if_pos (decide_eq_true le_rfl)]⟩
    · rw [if_neg (by simpa using hid)] at h
      have hfirst : first ∈ entries.filter fun message => place id ≤ place message.id := h ▸ mem_cons_self
      have hle : place id ≤ place first.id := of_decide_eq_true (mem_filter.mp hfirst).2
      rw [if_neg (by simpa using (lt_of_not_ge hid).trans_le hle)]
      exact ih h

/-- With batches of one message the first is read again and again. -/
theorem replayLoop_one {replay : Replay V}
    (h : messagesFrom place entries replay.lastId = first :: rest) (turns : Nat) :
    manager.replayLoop place entries (fun _ => true) 1 turns replay = none := by
  induction turns generalizing replay rest with
  | zero => rfl
  | succ turns ih =>
    obtain ⟨rest', hagain⟩ := messagesFrom_first place entries h
    rw [replayLoop_turn manager place entries 0 h]
    exact ih hagain

/-- **A replay is complete exactly if there is nothing to replay, or batches of more than one message of which the first
has all that can be read.** -/
theorem replaysOnce_iff (batchSize : Nat) (position : String) :
    manager.ReplaysOnce place entries (batchSize + 1) position ↔ messagesFrom place entries position = [] ∨
      0 < batchSize ∧ ((messagesFrom place entries position).drop (batchSize + 1)).filterMap manager.parseMessage = [] := by
  cases hmessages : messagesFrom place entries position with
  | nil =>
    refine ⟨fun _ => Or.inl rfl, fun _ => ⟨1, { lastId := position }, fun turns hturns => ?_, by rw [hmessages]; rfl⟩⟩
    obtain ⟨turns, rfl⟩ := Nat.exists_eq_add_of_le' hturns
    simp [Manager.replayFrom, Manager.replayLoop, xReadRange, hmessages]
  | cons first rest =>
    have hstart : messagesFrom place entries ({ lastId := position } : Replay V).lastId = first :: rest := hmessages
    have hall : (first :: rest).filterMap manager.parseMessage =
        (first :: rest.take batchSize).filterMap manager.parseMessage ++
          ((first :: rest).drop (batchSize + 1)).filterMap manager.parseMessage := by
      rw [← take_succ_cons, ← filterMap_append, take_append_drop]
    rcases Nat.eq_zero_or_pos batchSize with rfl | hbatch
    · refine ⟨fun ⟨least, replay, hreplay, _⟩ => ?_, by simp⟩
      have hnone := replayLoop_one manager place entries hstart least
      cases hnone.symm.trans (hreplay least le_rfl)
    · obtain ⟨later, hcalls, hturn⟩ : ∃ later : Replay V,
          later.calls = (first :: rest.take batchSize).filterMap manager.parseMessage ∧
          ∀ turns, manager.replayFrom place entries (fun _ => true) (batchSize + 1) (turns + 1) position = some later :=
        ⟨_, rfl, fun turns => by
          unfold Manager.replayFrom
          rw [replayLoop_turn manager place entries batchSize hstart, nil_append]
          exact if_pos hbatch⟩
      simp only [reduceCtorEq, false_or, hbatch, true_and]
      constructor
      · rintro ⟨least, replay, hreplay, hcomplete⟩
        cases (hturn least).symm.trans (hreplay (least + 1) (Nat.le_succ least))
        rw [hmessages, hall, hcalls] at hcomplete
        exact append_right_eq_self.mp hcomplete.symm
      · intro hrest
        refine ⟨1, later, fun turns hturns => ?_, by rw [hcalls, hmessages, hall, hrest, append_nil]⟩
        obtain ⟨turns, rfl⟩ := Nat.exists_eq_add_of_le' hturns
        exact hturn turns

end

/-- A manager whose payloads are texts, any of which can be read. -/
def texts : Manager String where
  streamName := "orders"
  deserializer text := .ok (text.getD "")

def threeOrders : List StreamMessage :=
  [⟨"1", [("payload", "a")]⟩, ⟨"2", [("payload", "b")]⟩, ⟨"3", [("payload", "c")]⟩]

theorem third_order_not_replayed : ¬ texts.ReplaysOnce String.length threeOrders 2 "0" := by
  rintro ⟨least, replay, hreplay, hcalls⟩
  cases hreplay (least + 1) (Nat.le_succ least)
  exact absurd (congrArg length hcalls) (by decide)

end Delego.Streams
