import Delego.Payments.Settlement

/-! An order settled twice.

Whether an order was settled is read off the status of its record, before the escrow service is called; the status is
written after it. So the escrow service can succeed for an order a second time: the record was settled since it was
read, or a success is not recorded yet, or its record was lost or overwritten with a failure. -/
namespace Delego.Settlement
open Delego.Process Delego.Data List
open Delego.Payments (PaymentRecord PaymentRecordStatus PaymentRecordUpdate updateWhere findPaymentRecordByOrderId)

def isSettled : PaymentRecordStatus → Bool
  | .released | .refunded => true
  | _ => false

def settles (update : PaymentRecordUpdate) : Bool := update.status.any isSettled

def paysOut (escrowId : String) : (o : Op) → Except String o.Reply → Bool
  | .escrowService _ _ id, .ok result => decide (id = escrowId) && result.success
  | _, _ => false

def settlements (tr : SettlementTrace) (escrowId : String) : Nat := tr.countP fun e => paysOut escrowId e.op e.result

/-- `escrowService.release` or `escrowService.refund` has returned success. -/
def succeeds : (o : Op) → Except String o.Reply → Bool
  | .escrowService _ _ _, .ok result => result.success
  | _, _ => false

def askedOrder : Op → Option String
  | .findPaymentRecordByOrderId orderId => some orderId
  | _ => none

def orderOf (tr : SettlementTrace) (i : Nat) : Option String :=
  tr.findSome? fun e => if e.runner = i then askedOrder e.op else none

def orderSettlements (orderId : String) : SettlementTrace → Nat
  | [] => 0
  | e :: tr => orderSettlements orderId tr +
      if succeeds e.op e.result && decide (orderOf tr e.runner = some orderId) then 1 else 0

/-- A call has paid out the escrow of a record and is about to write that. -/
def underWay (p : SettlementPool) (id : String) : Bool :=
  p.runners.any fun program => match program.pending with
    | some (.updatePaymentRecord id' update) => decide (id' = id) && settles update
    | _ => false

def returned : (o : Op) → Except String o.Reply → Option PaymentRecord
  | .findPaymentRecordByOrderId _, .ok found => found
  | _, _ => none

def readBy (tr : SettlementTrace) (i : Nat) : Option PaymentRecord :=
  tr.findSome? fun e => if e.runner = i then returned e.op e.result else none

def asRead (p : SettlementPool) (i : Nat) (row : PaymentRecord) : Bool :=
  !isSettled row.status || (readBy p.trace i).any fun record => isSettled record.status

/-- A call pays only for a record that has not been settled since it read it, and that no other call is about to
settle; and a success is written, and no failure over it. -/
def undisturbed (p : SettlementPool) (i : Nat) (o : Op) (ch : Choice) : Bool :=
  match o with
  | .escrowService _ _ escrowId => p.world.records.all fun row =>
      !decide (row.escrowId = some escrowId) || (asRead p i row && !underWay p row.id)
  | .updatePaymentRecord id update =>
    if settles update then match ch with
      | .fault _ => false
      | _ => true
    else p.world.records.all fun row => !decide (row.id = id) || !isSettled row.status
  | _ => true

/-- How far a call has come with the record it has read and its escrow. -/
inductive Phase where
  | idle
  | ready (record : PaymentRecord) (escrowId : String)
  | paid (record : PaymentRecord) (escrowId : String)
  | failing (record : PaymentRecord) (escrowId : String)
  | closed

def Phase.held : Phase → Option (PaymentRecord × String)
  | .ready record escrowId | .paid record escrowId | .failing record escrowId => some (record, escrowId)
  | _ => none

def Phase.isPaid : Phase → Bool
  | .paid _ _ => true
  | _ => false

def Phase.served (φ : Phase) (success : Bool) : Phase :=
  match φ with
  | .ready record escrowId => if success then .paid record escrowId else .failing record escrowId
  | φ => φ

def Phase.wrote : Phase → Phase
  | .paid _ _ => .closed
  | φ => φ

def Phase.next (φ : Phase) : (o : Op) → Except String o.Reply → Phase
  | .findPaymentRecordByOrderId _, .ok (some record) => match fundedEscrow record with
    | some (record, escrowId) => .ready record escrowId
    | none => .closed
  | .findPaymentRecordByOrderId _, _ => .closed
  | .escrowService _ _ _, .ok result => φ.served result.success
  | .escrowService _ _ _, .error _ => φ.served false
  | .updatePaymentRecord _ _, .ok _ => φ.wrote
  | _, _ => φ

def Allowed (φ : Phase) : Op → Prop
  | .findPaymentRecordByOrderId _ => φ = .idle
  | .escrowService _ _ escrowId => ∃ record, φ = .ready record escrowId ∧ isSettled record.status = false
  | .updatePaymentRecord id update => ∃ record escrowId, id = record.id ∧
      ((φ = .paid record escrowId ∧ settles update = true) ∨ (φ = .failing record escrowId ∧ settles update = false))
  | .publishPaymentEvent _ => φ = .closed

def Answer : (o : Op) → Except String o.Reply → Prop
  | .updatePaymentRecord _ update, .error _ => settles update = false
  | _, _ => True

def protocol : Protocol settlementSignature Phase where
  Allowed := Allowed
  Moves := fun φ o result φ' => Answer o result ∧ φ' = φ.next o result
  Ends := fun φ => φ.isPaid = false

variable {φ : Phase} {record : PaymentRecord} {escrowId : String} {cfg : Settings}
  {o : Op}

theorem follows_op {Q : Except String o.Reply → Phase → Prop} (ha : Allowed φ o)
    (h : ∀ result, Answer o result → Q result (φ.next o result)) :
    Follows protocol φ (op o) Q := by
  apply follows_perform ha
  intro result φ' hm
  rw [hm.2]
  exact h result hm.1

/-- A direction ends in a settled status and starts from one that is not. -/
structure Direction.Sound (dir : Direction) : Prop where
  settled : isSettled dir.status = true
  checked : ∀ status, status ≠ dir.status → status ≠ dir.opposite → isSettled status = false

variable {dir : Direction} {orderId sourceAddress : String}

theorem follows_submit (hdir : dir.Sound) (hunsettled : isSettled record.status = false) :
    Follows protocol (.ready record escrowId) (dir.submit orderId escrowId sourceAddress record)
      (fun outcome φ => φ.isPaid = false ∧ ∀ message, outcome = .error message → φ = .failing record escrowId) := by
  refine follows_bind (follows_op ⟨record, rfl, hunsettled⟩
    (forall_except (fun _ _ => ⟨rfl, fun _ _ => rfl⟩) fun result _ => ?_))
  simp only [Then]
  cases hsucs : result.success with
  | false =>
    have hnext : Phase.next (.ready record escrowId) (.escrowService dir.operation sourceAddress escrowId) (.ok result) =
        .failing record escrowId := by
      simp [Phase.next, Phase.served, hsucs]
    rw [hnext]
    exact follows_bind (follows_op ⟨record, escrowId, rfl, .inr ⟨rfl, rfl⟩⟩
      (forall_except (fun _ _ => ⟨rfl, fun _ _ => rfl⟩) fun _ _ => ⟨rfl, fun _ h => by cases h⟩))
  | true =>
    have hnext : Phase.next (.ready record escrowId) (.escrowService dir.operation sourceAddress escrowId) (.ok result) =
        .paid record escrowId := by
      simp [Phase.next, Phase.served, hsucs]
    rw [hnext]
    apply follows_bind
    refine follows_op ⟨record, escrowId, rfl, .inl ⟨rfl, ?_⟩⟩ ?_
    · simp [settles, hdir.settled]
    intro written hans
    cases written with
    | error message => simp [Answer, settles, hdir.settled] at hans
    | ok _ =>
      apply follows_bind
      apply follows_attempt
      refine follows_op rfl ?_
      intro published _
      exact ⟨rfl, fun _ h => by cases h⟩

theorem follows_settleRecord (hdir : dir.Sound) :
    Follows protocol (.ready record escrowId) (dir.settleRecord cfg orderId escrowId record)
      (fun _ φ => φ.isPaid = false) := by
  unfold Direction.settleRecord
  split
  · exact rfl
  rename_i hstat
  split
  · exact rfl
  rename_i hopposite
  split
  · exact rfl
  apply follows_tryCatch
  apply follows_mono (follows_submit hdir (hdir.checked _ hstat hopposite))
  intro outcome φ hdone
  cases outcome with
  | ok _ => exact hdone.1
  | error message =>
    rw [hdone.2 message rfl]
    apply follows_bind
    apply follows_attempt
    refine follows_op ⟨record, escrowId, rfl, .inr ⟨rfl, rfl⟩⟩ ?_
    intro written _
    cases written with
    | ok _ => exact rfl
    | error _ => exact rfl

theorem follows_settle (hdir : dir.Sound) :
    Follows protocol .idle (dir.settle cfg orderId) (fun _ φ => φ.isPaid = false) := by
  simp only [Direction.settle]
  split
  · exact rfl
  refine follows_bind (follows_op rfl (forall_except (fun _ _ => rfl) fun found _ => ?_))
  cases found with
  | none => exact rfl
  | some record =>
    simp only [Then, Option.bind_some]
    cases hfunded : fundedEscrow record with
    | none =>
      simp only [Phase.next, hfunded]
      exact rfl
    | some funded =>
      simp only [Phase.next, hfunded]
      exact follows_settleRecord hdir

theorem body_follows (call : Call) : Follows protocol .idle (body cfg call) (fun _ φ => φ.isPaid = false) := by
  cases call with
  | settleOrder orderId =>
    refine follows_andThen (follows_settle ⟨rfl, ?_⟩) fun _ _ hfree => hfree
    intro status hrel hrefunded
    cases status <;> first | rfl | contradiction
  | refundOrder orderId reasonCode =>
    refine follows_andThen (follows_settle ⟨rfl, ?_⟩) fun _ _ hfree => hfree
    intro status hrefunded hrel
    cases status <;> first | rfl | contradiction

/-! ### Settled once -/

/-- Whoever has a record in hand has read it, and it is a row of the store. -/
structure Grounded (w : World) (tr : SettlementTrace) (φ : Nat → Phase) : Prop where
  held : ∀ i record escrowId, (φ i).held = some (record, escrowId) →
    ∃ row ∈ w.records, row.id = record.id ∧ row.escrowId = some escrowId
  read : ∀ i record escrowId, φ i = .ready record escrowId → readBy tr i = some record

/-- A success is on record, or its call is about to write it. -/
structure Settled (w : World) (tr : SettlementTrace) (φ : Nat → Phase) : Prop
    extends Grounded w tr φ where
  once : ∀ escrowId, settlements tr escrowId ≤ 1
  known : ∀ escrowId, 0 < settlements tr escrowId →
    (∃ row ∈ w.records, row.escrowId = some escrowId ∧ isSettled row.status = true) ∨
      ∃ i record, φ i = .paid record escrowId

theorem settlements_cons (e : Entry settlementSignature) (tr : SettlementTrace) (escrowId : String) :
    settlements (e :: tr) escrowId = settlements tr escrowId + if paysOut escrowId e.op e.result then 1 else 0 :=
  countP_cons

theorem readBy_cons (e : Entry settlementSignature) (tr : SettlementTrace) (i : Nat)
    (h : e.runner = i → returned e.op e.result = none) : readBy (e :: tr) i = readBy tr i := by
  unfold readBy
  rw [findSome?_cons]
  by_cases hi : e.runner = i
  · rw [if_pos hi, h hi]
  · rw [if_neg hi]

def Kept (w w' : World) : Prop := ∀ row ∈ w.records, ∃ row' ∈ w'.records,
  row'.id = row.id ∧ row'.escrowId = row.escrowId ∧ (isSettled row.status = true → isSettled row'.status = true)

theorem kept_refl (w : World) : Kept w w := fun row hrow => ⟨row, hrow, rfl, rfl, id⟩

variable {w' : World} {e : Entry settlementSignature} {φ' : Phase}
  {φ : Nat → Phase} {tr : SettlementTrace} {w : World}

theorem Grounded.move (h : Grounded w tr φ) (hkept : Kept w w')
    (hheld : ∀ record escrowId, φ'.held = some (record, escrowId) →
      ∃ row ∈ w'.records, row.id = record.id ∧ row.escrowId = some escrowId)
    (hread : ∀ record escrowId, φ' = .ready record escrowId → readBy (e :: tr) e.runner = some record) :
    Grounded w' (e :: tr) (Function.update φ e.runner φ') := by
  refine ⟨?_, ?_⟩
  · apply (Function.forall_update_iff φ fun _ ψ => ∀ record escrowId, ψ.held = some (record, escrowId) →
        ∃ row ∈ w'.records, row.id = record.id ∧ row.escrowId = some escrowId).mpr
    refine ⟨hheld, ?_⟩
    intro j _ record escrowId hj
    obtain ⟨row, hrow, hid, hesc⟩ := h.held j record escrowId hj
    obtain ⟨row', hrow', hid', hesc', _⟩ := hkept row hrow
    exact ⟨row', hrow', hid'.trans hid, hesc'.trans hesc⟩
  · apply (Function.forall_update_iff φ fun j ψ => ∀ record escrowId,
      ψ = .ready record escrowId → readBy (e :: tr) j = some record).mpr
    refine ⟨hread, ?_⟩
    intro j hj record escrowId hready
    rw [readBy_cons e tr j (fun heq => absurd heq.symm hj)]
    exact h.read j record escrowId hready

theorem Settled.move (h : Settled w tr φ) (hkept : Kept w w')
    (hnone : ∀ escrowId, paysOut escrowId e.op e.result = false)
    (hpaid : ∀ record escrowId, φ e.runner = .paid record escrowId → φ' = .paid record escrowId ∨
      ∃ row ∈ w'.records, row.escrowId = some escrowId ∧ isSettled row.status = true)
    (hheld : ∀ record escrowId, φ'.held = some (record, escrowId) →
      ∃ row ∈ w'.records, row.id = record.id ∧ row.escrowId = some escrowId)
    (hread : ∀ record escrowId, φ' = .ready record escrowId → readBy (e :: tr) e.runner = some record) :
    Settled w' (e :: tr) (Function.update φ e.runner φ') := by
  have hsame : ∀ escrowId, settlements (e :: tr) escrowId = settlements tr escrowId := by
    intro escrowId
    simp [settlements_cons, hnone]
  refine ⟨h.toGrounded.move hkept hheld hread, ?_, ?_⟩
  · intro escrowId
    rw [hsame]
    exact h.once escrowId
  · intro escrowId hpos
    rw [hsame] at hpos
    rcases h.known escrowId hpos with ⟨row, hrow, hesc, hsett⟩ | ⟨i, record, hi⟩
    · obtain ⟨row', hrow', _, hesc', hsett'⟩ := hkept row hrow
      exact .inl ⟨row', hrow', hesc'.trans hesc, hsett' hsett⟩
    · by_cases hrunner : i = e.runner
      · rw [hrunner] at hi
        rcases hpaid record escrowId hi with hstill | hsett
        · exact .inr ⟨e.runner, record, by rw [Function.update_self]; exact hstill⟩
        · exact .inl hsett
      · exact .inr ⟨i, record, by rw [Function.update_of_ne hrunner]; exact hi⟩

variable {w : World} {tr : SettlementTrace} {i : Nat} {ch : Choice}

theorem Settled.close (h : Settled w tr φ) (hkept : Kept w w')
    (hnone : ∀ escrowId, paysOut escrowId e.op e.result = false)
    (hpaid : ∀ record escrowId, φ e.runner = .paid record escrowId →
      ∃ row ∈ w'.records, row.escrowId = some escrowId ∧ isSettled row.status = true) :
    Settled w' (e :: tr) (Function.update φ e.runner .closed) := by
  apply h.move hkept hnone
  · exact fun record escrowId hφ => .inr (hpaid record escrowId hφ)
  · intro record escrowId hheld
    cases hheld
  · intro record escrowId hready
    cases hready

theorem Settled.find (h : Settled w tr φ) (hidle : φ i = .idle) :
    let answer := perform (.findPaymentRecordByOrderId orderId) ch w
    Settled answer.2 (⟨i, .findPaymentRecordByOrderId orderId, answer.1⟩ :: tr)
      (Function.update φ i ((φ i).next (.findPaymentRecordByOrderId orderId) answer.1)) := by
  have hpaid : ∀ record escrowId, φ i = .paid record escrowId →
      ∃ row ∈ w.records, row.escrowId = some escrowId ∧ isSettled row.status = true := by
    intro record escrowId hφ
    simp [hidle] at hφ
  have hfound : ∀ found : Option PaymentRecord, (∀ record, found = some record → record ∈ w.records) →
      Settled w (⟨i, .findPaymentRecordByOrderId orderId, .ok found⟩ :: tr)
        (Function.update φ i ((φ i).next (.findPaymentRecordByOrderId orderId) (.ok found))) := by
    intro found hmem
    cases found with
    | none => exact h.close (kept_refl w) (fun _ => rfl) hpaid
    | some record =>
      simp only [Phase.next]
      split
      · rename_i funded escrowId hfunded
        obtain ⟨escrow, hesc, heq⟩ := Option.map_eq_some_iff.mp hfunded
        cases heq
        apply h.move (kept_refl w) (fun _ => rfl)
        · intro record' escrowId' hφ
          exact .inr (hpaid record' escrowId' hφ)
        · intro record' escrowId' hheld
          cases hheld
          exact ⟨record, hmem record rfl, rfl, Option.eq_some_of_filter_eq_some hesc⟩
        · intro record' escrowId' hready
          cases hready
          simp [readBy, returned]
      · exact h.close (kept_refl w) (fun _ => rfl) hpaid
  cases ch with
  | fault message => exact h.close (kept_refl w) (fun _ => rfl) hpaid
  | normal => exact hfound _ fun record hrec => lookup_mem hrec
  | answered success txHash => exact hfound _ fun record hrec => lookup_mem hrec

theorem Settled.publish {event : PaymentEvent} (h : Settled w tr φ) (hclosed : φ i = .closed) :
    let answer := perform (.publishPaymentEvent event) ch w
    Settled answer.2 (⟨i, .publishPaymentEvent event, answer.1⟩ :: tr)
      (Function.update φ i ((φ i).next (.publishPaymentEvent event) answer.1)) := by
  have hsame : Settled w (⟨i, .publishPaymentEvent event, (perform (.publishPaymentEvent event) ch w).1⟩ :: tr)
      (Function.update φ i .closed) := by
    apply h.close (kept_refl w) (fun _ => rfl)
    intro record escrowId hφ
    simp [hclosed] at hφ
  rw [hclosed]
  cases ch with
  | _ => exact hsame

variable {update : PaymentRecordUpdate}

theorem apply_settles (h : settles update = true) (row : PaymentRecord) : isSettled (update.apply row).status = true := by
  obtain ⟨status, hstat, hsett⟩ := (Option.any_eq_true ..).mp h
  simp [PaymentRecordUpdate.apply, hstat, hsett]

variable {id : String}

theorem kept_update (h : settles update = true ∨ ∀ row ∈ w.records, row.id = id → isSettled row.status = false) :
    Kept w ⟨updateWhere id update.apply w.records⟩ := by
  intro row hrow
  refine ⟨if row.id = id then update.apply row else row, mem_map_of_mem hrow, ?_⟩
  split
  · rename_i hid
    refine ⟨rfl, rfl, ?_⟩
    intro hsett
    rcases h with hupdate | hrows
    · exact apply_settles hupdate row
    · simp [hrows row hrow hid] at hsett
  · exact ⟨rfl, rfl, fun hsett => hsett⟩

variable {p : SettlementPool}

theorem undisturbed_update (h : undisturbed p i (.updatePaymentRecord id update) ch = true)
    (hsetts : settles update = false) :
    ∀ row ∈ p.world.records, row.id = id → isSettled row.status = false := by
  intro row hrow hid
  simp only [undisturbed, hsetts, Bool.false_eq_true, if_false, all_eq_true] at h
  simpa [hid] using h row hrow

variable {record : PaymentRecord} {escrowId : String}

theorem Settled.found (h : Settled w tr φ)
    (hheld : (φ i).held = some (record, escrowId)) :
    ∃ row, lookup PaymentRecord.id w.records record.id = some row := by
  obtain ⟨row, hrow, hid, _⟩ := h.held i record escrowId hheld
  cases hfind : lookup PaymentRecord.id w.records record.id with
  | some found => exact ⟨found, rfl⟩
  | none => exact absurd hid (lookup_eq_none.mp hfind row hrow)

theorem Settled.writeSuccess (h : Settled w tr φ)
    (hpaid : φ i = .paid record escrowId) (hsetts : settles update = true)
    (hchoice : ∀ message, ch ≠ .fault message) :
    let answer := perform (.updatePaymentRecord record.id update) ch w
    Answer (.updatePaymentRecord record.id update) answer.1 ∧
      Settled answer.2 (⟨i, .updatePaymentRecord record.id update, answer.1⟩ :: tr)
        (Function.update φ i ((φ i).next (.updatePaymentRecord record.id update) answer.1)) := by
  obtain ⟨row, hrow, hid, hesc⟩ := h.held i record escrowId (by rw [hpaid]; rfl)
  obtain ⟨found, hfound⟩ := h.found (by rw [hpaid]; rfl : (φ i).held = some (record, escrowId))
  have hans : perform (.updatePaymentRecord record.id update) ch w =
      (.ok (update.apply found), ⟨updateWhere record.id update.apply w.records⟩) := by
    cases ch with
    | fault message => exact absurd rfl (hchoice message)
    | _ => simp only [perform, fallible, hfound]
  simp only [hans]
  refine ⟨trivial, ?_⟩
  rw [hpaid]
  apply h.close (kept_update (.inl hsetts)) (fun _ => rfl)
  intro record' escrowId' hφ
  cases hpaid.symm.trans hφ
  refine ⟨update.apply row, ?_, hesc, apply_settles hsetts row⟩
  apply mem_map.mpr
  exact ⟨row, hrow, if_pos hid⟩

theorem Settled.writeFailure (h : Settled w tr φ)
    (hfailing : φ i = .failing record escrowId) (hsetts : settles update = false)
    (hrows : ∀ row ∈ w.records, row.id = record.id → isSettled row.status = false) :
    let answer := perform (.updatePaymentRecord record.id update) ch w
    Answer (.updatePaymentRecord record.id update) answer.1 ∧
      Settled answer.2 (⟨i, .updatePaymentRecord record.id update, answer.1⟩ :: tr)
        (Function.update φ i ((φ i).next (.updatePaymentRecord record.id update) answer.1)) := by
  obtain ⟨row, hrow, hid, hesc⟩ := h.held i record escrowId (by rw [hfailing]; rfl)
  have hmove : ∀ result w', Kept w w' →
      Settled w' (⟨i, .updatePaymentRecord record.id update, result⟩ :: tr)
        (Function.update φ i (.failing record escrowId)) := by
    intro result w' hkept
    apply h.move hkept (fun _ => rfl)
    · intro record' escrowId' hφ
      simp [hfailing] at hφ
    · intro record' escrowId' hheld
      cases hheld
      obtain ⟨row', hrow', hid', hesc', _⟩ := hkept row hrow
      exact ⟨row', hrow', hid'.trans hid, hesc'.trans hesc⟩
    · intro record' escrowId' hready
      cases hready
  have hnext : ∀ result, Phase.next (.failing record escrowId)
      (.updatePaymentRecord record.id update) result = .failing record escrowId := by
    intro result
    cases result with
    | ok _ => rfl
    | error _ => rfl
  rw [hfailing]
  simp only [hnext]
  constructor
  · generalize (perform (.updatePaymentRecord record.id update) ch w).1 = result
    cases result with
    | ok _ => trivial
    | error _ => exact hsetts
  · apply hmove
    cases ch with
    | fault message => exact kept_refl w
    | _ =>
      simp only [perform, fallible]
      split
      · exact kept_update (.inr hrows)
      · exact kept_refl w

theorem Settled.payOut (h : Settled w tr φ)
    (hready : φ e.runner = .ready record escrowId) (hpays : ∀ id, paysOut id e.op e.result = decide (escrowId = id))
    (hfirst : settlements tr escrowId = 0) :
    Settled w (e :: tr) (Function.update φ e.runner (.paid record escrowId)) := by
  have hother : ∀ id, id ≠ escrowId → settlements (e :: tr) id = settlements tr id := by
    intro id hid
    simp [settlements_cons, hpays, Ne.symm hid]
  have hthis : settlements (e :: tr) escrowId = 1 := by simp [settlements_cons, hpays, hfirst]
  have hgrounded : Grounded w (e :: tr) (Function.update φ e.runner (.paid record escrowId)) := by
    apply h.toGrounded.move (kept_refl w)
    · intro record' escrowId' hheld
      cases hheld
      exact h.held e.runner record escrowId (by rw [hready]; rfl)
    · intro record' escrowId' hψ
      cases hψ
  refine ⟨hgrounded, ?_, ?_⟩
  · intro id
    by_cases hid : id = escrowId
    · rw [hid, hthis]
    · rw [hother id hid]
      exact h.once id
  · intro id hpos
    by_cases hid : id = escrowId
    · rw [hid]
      exact .inr ⟨e.runner, record, Function.update_self ..⟩
    · rw [hother id hid] at hpos
      rcases h.known id hpos with hsett | ⟨j, record', hj⟩
      · exact .inl hsett
      · have hne : j ≠ e.runner := by
          intro heq
          simp [heq, hready] at hj
        exact .inr ⟨j, record', by rw [Function.update_of_ne hne]; exact hj⟩

theorem Settled.refuse (h : Settled w tr φ)
    (hready : φ e.runner = .ready record escrowId) (hpays : ∀ id, paysOut id e.op e.result = false) :
    Settled w (e :: tr) (Function.update φ e.runner (.failing record escrowId)) := by
  apply h.move (kept_refl w) hpays
  · intro record' escrowId' hφ
    simp [hready] at hφ
  · intro record' escrowId' hheld
    cases hheld
    exact h.held e.runner record escrowId (by rw [hready]; rfl)
  · intro record' escrowId' hφ
    cases hφ

theorem underWay_of_paid {j : Nat} {program : SettlementM Unit}
    (hprog : p.runners[j]? = some program) (hpend : program.pending = some o)
    (hallow : Allowed (.paid record escrowId) o) :
    underWay p record.id = true := by
  apply any_eq_true.mpr
  refine ⟨program, mem_of_getElem? hprog, ?_⟩
  cases o with
  | updatePaymentRecord id update =>
    obtain ⟨record', escrowId', hid, ⟨hφ, hsetts⟩ | ⟨hφ, _⟩⟩ := hallow
    · cases hφ
      simp [hpend, hid, hsetts]
    · cases hφ
  | findPaymentRecordByOrderId orderId => cases hallow
  | publishPaymentEvent event => cases hallow
  | escrowService operation sourceAddress id =>
    obtain ⟨record', hφ, _⟩ := hallow
    cases hφ

theorem first_settlement {operation : EscrowOperation}
    (ht : Tracked protocol .idle Settled p φ) (hready : φ i = .ready record escrowId)
    (hunsettled : isSettled record.status = false)
    (hg : undisturbed p i (.escrowService operation sourceAddress escrowId) ch = true) :
    settlements p.trace escrowId = 0 := by
  by_contra hsome
  simp only [undisturbed, all_eq_true] at hg
  rcases ht.holds.known escrowId (by omega) with ⟨row, hrow, hesc, hsett⟩ | ⟨j, record', hj⟩
  · have hrow := hg row hrow
    simp [hesc, asRead, hsett, ht.holds.read i record escrowId hready, hunsettled] at hrow
  · obtain ⟨row, hrow, hid, hesc⟩ := ht.holds.held j record' escrowId (by rw [hj]; rfl)
    obtain ⟨program, o, hprog, hpend, hallow⟩ := ht.active
      (show φ j ≠ .idle by rw [hj]; simp) (show ¬(φ j).isPaid = false by rw [hj]; simp [Phase.isPaid])
    have hway := underWay_of_paid hprog hpend (hj ▸ hallow)
    have hrow := hg row hrow
    rw [hid] at hrow
    simp [hesc, hway] at hrow

theorem Settled.serve {operation : EscrowOperation}
    (ht : Tracked protocol .idle Settled p φ)
    (hallow : Allowed (φ i) (.escrowService operation sourceAddress escrowId))
    (hg : undisturbed p i (.escrowService operation sourceAddress escrowId) ch = true) :
    let answer := perform (.escrowService operation sourceAddress escrowId) ch p.world
    Settled answer.2 (⟨i, .escrowService operation sourceAddress escrowId, answer.1⟩ :: p.trace)
      (Function.update φ i ((φ i).next (.escrowService operation sourceAddress escrowId) answer.1)) := by
  obtain ⟨record, hready, hunsettled⟩ := hallow
  have hfirst := first_settlement ht hready hunsettled hg
  rw [hready]
  cases ch with
  | normal => exact ht.holds.refuse hready fun _ => rfl
  | fault message => exact ht.holds.refuse hready fun _ => rfl
  | answered success txHash => cases success with
    | false => exact ht.holds.refuse hready fun _ => Bool.and_false _
    | true => exact ht.holds.payOut hready (fun _ => Bool.and_true _) hfirst

theorem undisturbed_success (h : undisturbed p i (.updatePaymentRecord id update) ch = true)
    (hsetts : settles update = true) : ∀ message, ch ≠ .fault message := by
  intro message hfault
  simp [undisturbed, hsetts, hfault] at h

def apart (cfg : Settings) (p : SettlementPool) (a : Action (system cfg)) : Prop := onStep undisturbed p a = true

theorem settled_inductive (cfg : Settings) : Inductive (system cfg) protocol .idle (apart cfg) Settled where
  body := fun _ call _ => body_follows call
  arrive := by
    intro p φ call w _ ht hw
    cases hw
    exact ht.holds
  drift := fun _ _ e => e.elim
  answers := by
    intro p φ i o ch hg hp ht hallow
    have hstep := onStep_pending hg hp
    cases o with
    | updatePaymentRecord id update =>
      obtain ⟨record, escrowId, rfl, ⟨hpaid, hsetts⟩ | ⟨hfailing, hsetts⟩⟩ := hallow
      · exact ⟨_, (ht.holds.writeSuccess hpaid hsetts (undisturbed_success hstep hsetts)).1, rfl⟩
      · exact ⟨_, (ht.holds.writeFailure hfailing hsetts (undisturbed_update hstep hsetts)).1, rfl⟩
    | _ => exact ⟨_, trivial, rfl⟩
  step := by
    intro p φ i o ch φ' hg hp ht hallow hm
    have hstep := onStep_pending hg hp
    rw [hm.2]
    cases o with
    | findPaymentRecordByOrderId orderId => exact ht.holds.find hallow
    | escrowService operation sourceAddress escrowId => exact Settled.serve ht hallow hstep
    | updatePaymentRecord id update =>
      obtain ⟨record, escrowId, rfl, ⟨hpaid, hsetts⟩ | ⟨hfailing, hsetts⟩⟩ := hallow
      · exact (ht.holds.writeSuccess hpaid hsetts (undisturbed_success hstep hsetts)).2
      · exact (ht.holds.writeFailure hfailing hsetts (undisturbed_update hstep hsetts)).2
    | publishPaymentEvent event => exact ht.holds.publish hallow

def escrowOf (w : World) (orderId : String) : Option String :=
  (findPaymentRecordByOrderId orderId w.records).bind PaymentRecord.escrowId

theorem escrowOf_update (id : String) (update : PaymentRecordUpdate) (w : World) (orderId : String) :
    escrowOf ⟨updateWhere id update.apply w.records⟩ orderId = escrowOf w orderId := by
  have hkeeps : ∀ record, (update.apply record).orderId = record.orderId := fun _ => rfl
  simp only [escrowOf, findPaymentRecordByOrderId, Payments.lookup_updateWhere hkeeps]
  cases lookup PaymentRecord.orderId w.records orderId with
  | none => rfl
  | some record =>
    simp only [Option.map_some, Option.bind_some]
    split
    · rfl
    · rfl

theorem escrowOf_perform (o : Op) (ch : Choice) (w : World) (orderId : String) :
    escrowOf (perform o ch w).2 orderId = escrowOf w orderId := by
  cases o with
  | findPaymentRecordByOrderId orderId => cases ch <;> rfl
  | escrowService operation sourceAddress escrowId => rfl
  | publishPaymentEvent event => cases ch <;> rfl
  | updatePaymentRecord id update =>
    cases ch with
    | fault message => rfl
    | _ =>
      simp only [perform, fallible]
      split
      · exact escrowOf_update id update w orderId
      · rfl

/-- A call that is ready to settle has the escrow of its order in hand, so what was paid for an
order was paid out of its escrow. -/
structure ByOrder (w : World) (tr : SettlementTrace) (φ : Nat → Phase) : Prop where
  ready : ∀ i record escrowId, φ i = .ready record escrowId → ∀ orderId, orderOf tr i = some orderId →
    escrowOf w orderId = some escrowId
  counted : ∀ orderId, orderSettlements orderId tr ≤ (escrowOf w orderId).elim 0 (settlements tr)

theorem orderOf_cons (e : Entry settlementSignature) (tr : SettlementTrace) (i : Nat)
    (h : e.runner ≠ i) : orderOf (e :: tr) i = orderOf tr i := by
  unfold orderOf
  rw [findSome?_cons, if_neg h]

theorem ByOrder.step (h : ByOrder w tr φ)
    (hescrows : ∀ orderId, escrowOf w' orderId = escrowOf w orderId)
    (hready : ∀ record escrowId, φ' = .ready record escrowId → ∀ orderId,
      orderOf (e :: tr) e.runner = some orderId → escrowOf w orderId = some escrowId)
    (hpaid : ∀ orderId, succeeds e.op e.result = true → orderOf tr e.runner = some orderId →
      ∃ escrowId, escrowOf w orderId = some escrowId ∧ paysOut escrowId e.op e.result = true) :
    ByOrder w' (e :: tr) (Function.update φ e.runner φ') := by
  refine ⟨?_, ?_⟩
  · apply (Function.forall_update_iff φ fun j ψ => ∀ record escrowId, ψ = .ready record escrowId →
      ∀ orderId, orderOf (e :: tr) j = some orderId → escrowOf w' orderId = some escrowId).mpr
    refine ⟨?_, ?_⟩
    · intro record escrowId hφ orderId horder
      rw [hescrows]
      exact hready record escrowId hφ orderId horder
    · intro j hj record escrowId hφ orderId horder
      rw [orderOf_cons e tr j (Ne.symm hj)] at horder
      rw [hescrows]
      exact h.ready j record escrowId hφ orderId horder
  · intro orderId
    have hcnt := h.counted orderId
    rw [hescrows]
    simp only [orderSettlements]
    split
    · rename_i hnew
      obtain ⟨hsucceeds, horder⟩ := Bool.and_eq_true_iff.mp hnew
      obtain ⟨escrowId, hesc, hpays⟩ := hpaid orderId hsucceeds (of_decide_eq_true horder)
      rw [hesc] at hcnt ⊢
      simp only [Option.elim_some, settlements_cons, hpays, if_true] at hcnt ⊢
      omega
    · cases hesc : escrowOf w orderId with
      | none =>
        rw [hesc] at hcnt
        exact hcnt
      | some escrowId =>
        rw [hesc] at hcnt
        simp only [Option.elim_some, settlements_cons] at hcnt ⊢
        omega

theorem escrowOf_ready {ch : Choice}
    (h : Phase.next .idle (.findPaymentRecordByOrderId orderId)
      (perform (.findPaymentRecordByOrderId orderId) ch w).1 = .ready record escrowId) :
    escrowOf w orderId = some escrowId := by
  have hfound : ∀ found : Option PaymentRecord,
      Phase.next .idle (.findPaymentRecordByOrderId orderId) (.ok found) = .ready record escrowId →
      found.bind PaymentRecord.escrowId = some escrowId := by
    intro found hnext
    cases found with
    | none => cases hnext
    | some row =>
      simp only [Phase.next] at hnext
      split at hnext
      · rename_i funded escrowId' hfunded
        obtain ⟨escrow, hesc, heq⟩ := Option.map_eq_some_iff.mp hfunded
        cases heq
        cases hnext
        exact Option.eq_some_of_filter_eq_some hesc
      · cases hnext
  cases ch with
  | fault message => cases h
  | normal => exact hfound _ h
  | answered success txHash => exact hfound _ h

theorem next_ne_ready {φ : Phase} {result : Except String o.Reply} (hallow : Allowed φ o)
    (hasked : askedOrder o = none) (record : PaymentRecord) (escrowId : String) :
    φ.next o result ≠ .ready record escrowId := by
  intro h
  cases o with
  | findPaymentRecordByOrderId orderId => cases hasked
  | escrowService operation sourceAddress escrowId' =>
    obtain ⟨record', rfl, _⟩ := hallow
    cases result with
    | error message => cases h
    | ok result =>
      simp only [Phase.next, Phase.served] at h
      split at h
      · cases h
      · cases h
  | updatePaymentRecord id update =>
    obtain ⟨record', escrowId', _, ⟨rfl, _⟩ | ⟨rfl, _⟩⟩ := hallow
    · cases result with
      | error message => cases h
      | ok row => cases h
    · cases result with
      | error message => cases h
      | ok row => cases h
  | publishPaymentEvent event =>
    cases hallow
    cases h

theorem paysOut_of_succeeds {φ : Phase} {result : Except String o.Reply} (hallow : Allowed φ o)
    (h : succeeds o result = true) :
    ∃ record escrowId, φ = .ready record escrowId ∧ paysOut escrowId o result = true := by
  cases o with
  | escrowService operation sourceAddress escrowId =>
    obtain ⟨record, hready, _⟩ := hallow
    refine ⟨record, escrowId, hready, ?_⟩
    cases result with
    | error message => cases h
    | ok result => simpa [paysOut, succeeds] using h
  | findPaymentRecordByOrderId orderId => cases h
  | updatePaymentRecord id update => cases h
  | publishPaymentEvent event => cases h

theorem byOrder_inductive (cfg : Settings) : Inductive (system cfg) protocol .idle (apart cfg)
      (fun w tr φ => Settled w tr φ ∧ ByOrder w tr φ) := by
  apply (settled_inductive cfg).and (fun _ _ hg => hg)
  · intro p φ call w _ _ h hw
    cases hw
    exact h
  · exact fun _ _ e => e.elim
  intro p φ i o ch φ' _ _ _ h hallow hm
  rw [hm.2]
  apply h.step (escrowOf_perform o ch p.world)
  · intro record escrowId hready orderId horder
    cases hasked : askedOrder o with
    | none => exact absurd hready (next_ne_ready hallow hasked record escrowId)
    | some asked =>
      have heq : asked = orderId := by simpa [orderOf, hasked] using horder
      cases o with
      | findPaymentRecordByOrderId orderId' =>
        cases hasked
        rw [show φ i = .idle from hallow] at hready
        rw [← heq]
        exact escrowOf_ready hready
      | _ => cases hasked
  · intro orderId hsucceeds horder
    obtain ⟨record, escrowId, hready, hpays⟩ := paysOut_of_succeeds hallow hsucceeds
    exact ⟨escrowId, h.ready i record escrowId hready orderId horder, hpays⟩

/-- **Undisturbed calls settle an order at most once**, whatever the orders, the interleaving
and the failures. -/
theorem settled_at_most_once {w : World} {q : SettlementPool}
    (hrun : Run (system cfg) (apart cfg) (Pool.start w) q) (orderId : String) :
    orderSettlements orderId q.trace ≤ 1 := by
  have hstart : Settled w [] (fun _ => .idle) := by
    refine ⟨⟨?_, ?_⟩, fun _ => Nat.zero_le 1, ?_⟩
    · intro i record escrowId hheld
      cases hheld
    · intro i record escrowId hready
      cases hready
    · intro escrowId hpos
      cases hpos
  have hcounts : ByOrder w [] (fun _ => .idle) := by
    refine ⟨?_, fun _ => Nat.zero_le _⟩
    intro i record escrowId hready
    cases hready
  obtain ⟨φ, ht⟩ := (byOrder_inductive cfg).run hrun ⟨_, Tracked.start ⟨hstart, hcounts⟩⟩
  have hcnt := ht.holds.2.counted orderId
  cases hesc : escrowOf q.world orderId with
  | none =>
    rw [hesc] at hcnt
    exact hcnt.trans (Nat.zero_le 1)
  | some escrowId =>
    rw [hesc] at hcnt
    exact hcnt.trans (ht.holds.1.once escrowId)

def sampleSettings : Settings := ⟨decimal, some "GPLATFORM"⟩

def sampleWorld : World where
  records := [
    { id := "pay-1", orderId := "order-1", escrowId := some "7", buyerAddress := "GBUYER"
      sellerAddress := "GSELLER", amountStroops := 100, status := .funded, releaseTxHash := none
      refundTxHash := none, disputeTxHash := none, releasedAmountStroops := 0, refundedAmountStroops := 0
      failureReason := none }]

/-- A release that fails on chain, a release that succeeds, and a refund that is refused. -/
theorem settled_at_most_once_sample : ∃ q, Run (system sampleSettings) (apart sampleSettings) (Pool.start sampleWorld) q ∧
      0 < orderSettlements "order-1" q.trace ∧ orderSettlements "order-1" q.trace ≤ 1 := by
  obtain ⟨q, hrun, htest⟩ := Run.exists_of_any (Pool.start sampleWorld) (onStep undisturbed)
    ([.call (Call.settleOrder "order-1"), .step 0 Choice.normal,
      .step 0 (Choice.answered false "tx-1"), .step 0 Choice.normal,
      .call (Call.settleOrder "order-1"), .step 1 Choice.normal,
      .step 1 (Choice.answered true "tx-2"), .step 1 Choice.normal, .step 1 Choice.normal,
      .call (Call.refundOrder "order-1" .buyerCancelled), .step 2 Choice.normal] :
      List (Action (system sampleSettings)))
    (fun q => decide (0 < orderSettlements "order-1" q.trace)) (by decide)
  exact ⟨q, hrun, of_decide_eq_true htest, settled_at_most_once hrun "order-1"⟩

/-- **An order is released twice.** Two calls of `settleOrder` read the record before either of
them has written it. -/
theorem released_twice : ∃ q, Run (system sampleSettings) (fun _ _ => True) (Pool.start sampleWorld) q ∧
      orderSettlements "order-1" q.trace = 2 := by
  obtain ⟨q, hrun, htest⟩ := Run.exists_of_any (Pool.start sampleWorld) (fun _ _ => true)
    ([.call (Call.settleOrder "order-1"), .call (Call.settleOrder "order-1"), .step 0 Choice.normal, .step 1 Choice.normal,
      .step 0 (Choice.answered true "tx-1"), .step 1 (Choice.answered true "tx-2"),
      .step 0 Choice.normal, .step 1 Choice.normal] : List (Action (system sampleSettings)))
    (fun q => decide (orderSettlements "order-1" q.trace = 2)) (by decide)
  exact ⟨q, hrun.mono fun _ _ _ => trivial, of_decide_eq_true htest⟩

end Delego.Settlement
