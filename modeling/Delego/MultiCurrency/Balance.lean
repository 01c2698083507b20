import Delego.Data.Calendar
import Delego.Data.Column
import Delego.Data.History
import Delego.Data.Table

/-! Payments across currencies (`gateway/src/multi-currency/paymentService.ts`).

A payment is created with an amount in each of two currencies, executed, and completed or failed. Calls come one after
another. Amounts are the exact decimals that their texts stand for, and instants are in milliseconds. The ids of
payments are drawn by the service, and calls name them in the form in which they were drawn. -/
namespace Delego.MultiCurrency
open Delego.Data List

inductive PaymentStatus where
  | pending | converting | settled | failed | cancelled
  deriving DecidableEq

structure MultiCurrencyPayment where
  (id sourceCurrency : String)
  sourceAmount : Rat
  destinationCurrency : String
  (destinationAmount destinationMin : Rat)
  (fxRateId settlementCurrency : String)
  status : PaymentStatus
  stellarTransactionHash : Option String
  (completedAt settlementLedger failedAt : Option Int)
  failedReason : Option String

structure CurrencyExposure where
  currency : String
  (grossAmount netAmount : Rat)

structure CurrencySettlement where
  currency : String
  (totalIn totalOut netAmount : Rat)
  settlementDate : Int
  transactions : List String

/-- The tables of the service. -/
structure Books where
  payments : List MultiCurrencyPayment
  exposures : List CurrencyExposure
  settlements : List CurrencySettlement

inductive Direction where
  | long | short

def Direction.signed : Direction → Rat → Rat
  | .long, amount => amount
  | .short, amount => -amount

def CurrencyExposure.add (amount : Rat) (direction : Direction) (exposure : CurrencyExposure) : CurrencyExposure :=
  { exposure with
    grossAmount := exposure.grossAmount + amount
    netAmount := exposure.netAmount + direction.signed amount }

def updateCurrencyExposure (exposures : List CurrencyExposure) (currency : String) (amount : Rat) (direction : Direction) :
    List CurrencyExposure :=
  match lookup CurrencyExposure.currency exposures currency with
  | none => exposures ++ [{ currency, grossAmount := amount, netAmount := direction.signed amount }]
  | some _ => update CurrencyExposure.currency exposures currency (.add amount direction)

def today (now : Int) : Int := now / msPerDay * msPerDay

def CurrencySettlement.isFor (settlement : CurrencySettlement) (currency : String) (now : Int) : Bool :=
  settlement.currency = currency && today now ≤ settlement.settlementDate &&
    settlement.settlementDate < today now + 24 * 60 * 60 * 1000

def CurrencySettlement.add (settlement : CurrencySettlement) (amount : Rat) (paymentId : String) : CurrencySettlement :=
  let totalIn := if 0 < amount then settlement.totalIn + amount else settlement.totalIn
  let totalOut := if 0 < amount then settlement.totalOut else settlement.totalOut + -amount
  { settlement with totalIn, totalOut, netAmount := totalIn - totalOut, transactions := settlement.transactions ++ [paymentId] }

def updateSettlement (currency : String) (amount : Rat) (paymentId : String) (now : Int) :
    List CurrencySettlement → List CurrencySettlement
  | [] => [{ currency, totalIn := 0, totalOut := 0, netAmount := 0, settlementDate := today now, transactions := [paymentId] }]
  | settlement :: rest =>
    if settlement.isFor currency now then settlement.add amount paymentId :: rest
    else settlement :: updateSettlement currency amount paymentId now rest

structure FXRate where
  id : Option String
  rate : Rat

/-- `(fxRate as any).id || "manual"` -/
def FXRate.idOrManual (fxRate : FXRate) : String :=
  match fxRate.id with
  | none | some "" => "manual"
  | some id => id

structure MultiCurrencyPaymentRequest where
  sourceCurrency : String
  sourceAmount : Rat
  destinationCurrency : String
  destinationAmount : Option Rat
  settlementCurrency : Option String
  fxRate : Option FXRate

/-- What a creation finds: the currencies that are enabled, what `getFXRate` (whose rates have no id) and
`findConversionPath` answer, and the column `fxRateId`, of type UUID. -/
structure Market where
  supported : String → Bool
  getFXRate : Except String Rat
  findConversionPath : Except String Unit
  fxRateColumn : Column

def fxRateFor (request : MultiCurrencyPaymentRequest) (market : Market) : Except String FXRate :=
  request.fxRate.elim (market.getFXRate.map fun rate => ⟨none, rate⟩) .ok

/-- `id` is drawn for the row. -/
def createMultiCurrencyPayment (request : MultiCurrencyPaymentRequest) (market : Market) (id : String) (books : Books) :
    Except String MultiCurrencyPayment × Books :=
  if !market.supported request.sourceCurrency then
    (.error ("Source currency " ++ request.sourceCurrency ++ " is not supported"), books)
  else if !market.supported request.destinationCurrency then
    (.error ("Destination currency " ++ request.destinationCurrency ++ " is not supported"), books)
  else
    match fxRateFor request market, market.findConversionPath with
    | .error message, _ => (.error message, books)
    | .ok _, .error message => (.error message, books)
    | .ok fxRate, .ok _ =>
      match market.fxRateColumn.read fxRate.idOrManual with
      | none => (.error ("invalid input syntax for type uuid: \"" ++ fxRate.idOrManual ++ "\""), books)
      | some fxRateId =>
      if (lookup MultiCurrencyPayment.id books.payments id).isSome then (.error "id must be unique", books)
      else
        let destinationAmount := request.destinationAmount.getD (request.sourceAmount * fxRate.rate)
        let payment :=
          { id, sourceCurrency := request.sourceCurrency, sourceAmount := request.sourceAmount,
            destinationCurrency := request.destinationCurrency, destinationAmount, destinationMin := destinationAmount * (99 / 100),
            fxRateId, settlementCurrency := request.settlementCurrency.getD request.destinationCurrency, status := .pending,
            stellarTransactionHash := none, completedAt := none, settlementLedger := none, failedAt := none, failedReason := none }
        (.ok payment,
          { books with
            payments := books.payments ++ [payment]
            exposures := updateCurrencyExposure
              (updateCurrencyExposure books.exposures request.sourceCurrency request.sourceAmount .long)
              request.destinationCurrency destinationAmount .short })

/-- What `save` writes of a payment that is executed, completed or failed. -/
def MultiCurrencyPayment.converting (transactionHash : String) (payment : MultiCurrencyPayment) : MultiCurrencyPayment :=
  { payment with status := .converting, stellarTransactionHash := some transactionHash }

def MultiCurrencyPayment.settled (ledgerSequence now : Int) (payment : MultiCurrencyPayment) : MultiCurrencyPayment :=
  { payment with status := .settled, completedAt := some now, settlementLedger := some ledgerSequence }

def MultiCurrencyPayment.failed (reason : String) (now : Int) (payment : MultiCurrencyPayment) : MultiCurrencyPayment :=
  { payment with status := .failed, failedAt := some now, failedReason := some reason }

def executePathPayment (paymentId transactionHash : String) (books : Books) : Except String MultiCurrencyPayment × Books :=
  match lookup MultiCurrencyPayment.id books.payments paymentId with
  | none => (.error "Payment not found", books)
  | some payment =>
    (.ok (payment.converting transactionHash),
      { books with
        payments := update MultiCurrencyPayment.id books.payments paymentId (.converting transactionHash) })

def completeMultiCurrencyPayment (paymentId : String) (ledgerSequence now : Int) (books : Books) :
    Except String MultiCurrencyPayment × Books :=
  match lookup MultiCurrencyPayment.id books.payments paymentId with
  | none => (.error "Payment not found", books)
  | some payment =>
    if payment.status ≠ .converting then (.error "Payment must be in converting status", books)
    else
      (.ok (payment.settled ledgerSequence now),
        { books with
          payments := update MultiCurrencyPayment.id books.payments paymentId (.settled ledgerSequence now)
          settlements := updateSettlement payment.settlementCurrency payment.destinationAmount payment.id now books.settlements })

def failMultiCurrencyPayment (paymentId reason : String) (now : Int) (books : Books) :
    Except String MultiCurrencyPayment × Books :=
  match lookup MultiCurrencyPayment.id books.payments paymentId with
  | none => (.error "Payment not found", books)
  | some payment =>
    (.ok (payment.failed reason now),
      { books with
        payments := update MultiCurrencyPayment.id books.payments paymentId (.failed reason now)
        exposures := updateCurrencyExposure
          (updateCurrencyExposure books.exposures payment.sourceCurrency payment.sourceAmount .short)
          payment.destinationCurrency payment.destinationAmount .long })

/-! ### The books balance

As long as no payment that is settled or failed is executed or failed again, and none is the first to be completed
in its currency on a day, the exposure of a currency is what the payments that have not failed bring and take, and
a settlement has the amounts of the payments that it lists (`balanced`). -/

/-! ### What the books say -/

def netExposure (exposures : List CurrencyExposure) (currency : String) : Rat :=
  match lookup CurrencyExposure.currency exposures currency with
  | none => 0
  | some exposure => exposure.netAmount

def flow (currency : String) (payment : MultiCurrencyPayment) : Rat :=
  (if payment.sourceCurrency = currency then payment.sourceAmount else 0) -
    if payment.destinationCurrency = currency then payment.destinationAmount else 0

def contribution (currency : String) (payment : MultiCurrencyPayment) : Rat :=
  if payment.status = .failed then 0 else flow currency payment

def listings (settlements : List CurrencySettlement) : List (String × String) :=
  settlements.flatMap fun settlement => settlement.transactions.map fun id => (settlement.currency, id)

def listingsOf (settlements : List CurrencySettlement) (id : String) : List (String × String) :=
  (listings settlements).filter fun listing => decide (listing.2 = id)

def amountOf (payments : List MultiCurrencyPayment) (id : String) : Rat :=
  match lookup MultiCurrencyPayment.id payments id with
  | none => 0
  | some payment => payment.destinationAmount

/-- Exposures, listings and totals agree with the payments. -/
structure Balanced (books : Books) : Prop where
  exposure : ∀ currency, netExposure books.exposures currency = (books.payments.map (contribution currency)).sum
  listed : ∀ id payment, lookup MultiCurrencyPayment.id books.payments id = some payment → payment.status = .settled →
    listingsOf books.settlements id = [(payment.settlementCurrency, id)]
  totals : ∀ settlement ∈ books.settlements,
    settlement.totalIn = (settlement.transactions.map (amountOf books.payments)).sum

def PaymentStatus.final (status : PaymentStatus) : Bool := status = .settled || status = .failed

theorem netExposure_update (exposures : List CurrencyExposure) (currency : String) (amount : Rat) (direction : Direction)
    (other : String) : netExposure (updateCurrencyExposure exposures currency amount direction) other =
      netExposure exposures other + if currency = other then direction.signed amount else 0 := by
  unfold netExposure updateCurrencyExposure
  cases hfound : lookup CurrencyExposure.currency exposures currency with
  | none =>
    generalize hrow : (⟨currency, amount, direction.signed amount⟩ : CurrencyExposure) = row
    obtain rfl : row.currency = currency := by rw [← hrow]
    have hnet : row.netAmount = direction.signed amount := by rw [← hrow]
    by_cases hother : row.currency = other
    · rw [← hother]
      simp only [lookup_append_self hfound, hfound, hnet, if_true, zero_add]
    · simp only [lookup_append_ne (Ne.symm hother), if_neg hother, add_zero]
  | some exposure =>
    have hkey : ∀ exposure, (CurrencyExposure.add amount direction exposure).currency = exposure.currency := fun _ => rfl
    simp only [lookup_update hkey]
    by_cases hother : currency = other
    · subst hother
      simp only [if_true, hfound, Option.map_some, CurrencyExposure.add]
    · simp only [if_neg hother, if_neg (Ne.symm hother), add_zero]

theorem netExposure_flow (exposures : List CurrencyExposure) (payment : MultiCurrencyPayment) (other : String) :
    netExposure (updateCurrencyExposure (updateCurrencyExposure exposures payment.sourceCurrency payment.sourceAmount .long)
      payment.destinationCurrency payment.destinationAmount .short) other = netExposure exposures other + flow other payment ∧
    netExposure (updateCurrencyExposure (updateCurrencyExposure exposures payment.sourceCurrency payment.sourceAmount .short)
      payment.destinationCurrency payment.destinationAmount .long) other = netExposure exposures other - flow other payment := by
  simp only [netExposure_update, flow, Direction.signed]
  constructor
  · split <;> split <;> ring
  · split <;> split <;> ring

theorem listings_cons (settlement : CurrencySettlement) (rest : List CurrencySettlement) :
    listings (settlement :: rest) = (settlement.transactions.map fun id => (settlement.currency, id)) ++ listings rest := rfl

variable {now : Int}

theorem isFor_currency {settlement : CurrencySettlement} {currency : String} (h : settlement.isFor currency now = true) :
    settlement.currency = currency := by
  unfold CurrencySettlement.isFor at h
  simp only [Bool.and_eq_true, decide_eq_true_eq] at h
  exact h.1.1

theorem listingsOf_update (settlements : List CurrencySettlement) (currency : String) (amount : Rat) (paymentId : String)
    (now : Int) (id : String) : (listingsOf (updateSettlement currency amount paymentId now settlements) id).Perm
      (listingsOf settlements id ++ if paymentId = id then [(currency, paymentId)] else []) := by
  induction settlements with
  | nil =>
    unfold listingsOf updateSettlement
    by_cases hid : paymentId = id
    · simp [listings, hid]
    · simp [listings, hid]
  | cons settlement rest ih =>
    rw [updateSettlement]
    by_cases hfor : settlement.isFor currency now = true
    · rw [if_pos hfor]
      have hcurrency := isFor_currency hfor
      unfold listingsOf
      rw [listings_cons, listings_cons]
      simp only [CurrencySettlement.add, map_append, map_singleton, filter_append, hcurrency]
      rw [append_assoc, append_assoc]
      refine List.Perm.append_left _ ?_
      by_cases hid : paymentId = id
      · simp only [hid, if_true, decide_true, filter_singleton]
        exact perm_append_comm
      · simp [hid]
    · rw [if_neg hfor]
      unfold listingsOf at ih ⊢
      rw [listings_cons, listings_cons, filter_append, filter_append, append_assoc]
      exact List.Perm.append_left _ ih

theorem totals_update {settlements : List CurrencySettlement} {amount : String → Rat} {currency paymentId : String}
    (h : ∀ settlement ∈ settlements, settlement.totalIn = (settlement.transactions.map amount).sum)
    (hpos : 0 < amount paymentId) (hthere : ∃ settlement ∈ settlements, settlement.isFor currency now = true) :
    ∀ settlement ∈ updateSettlement currency (amount paymentId) paymentId now settlements,
      settlement.totalIn = (settlement.transactions.map amount).sum := by
  induction settlements with
  | nil =>
    obtain ⟨settlement, hmem, -⟩ := hthere
    cases hmem
  | cons first rest ih =>
    obtain ⟨hfirst, hrest⟩ := forall_mem_cons.mp h
    rw [updateSettlement]
    by_cases hfor : first.isFor currency now = true
    · rw [if_pos hfor, forall_mem_cons]
      refine ⟨?_, hrest⟩
      simp only [CurrencySettlement.add, if_pos hpos, map_append, map_singleton, sum_append,
        sum_singleton, hfirst]
    · rw [if_neg hfor, forall_mem_cons]
      refine ⟨hfirst, ih hrest ?_⟩
      obtain ⟨settlement, hmem, hsettl⟩ := hthere
      rcases mem_cons.mp hmem with rfl | hmem
      · exact absurd hsettl hfor
      · exact ⟨settlement, hmem, hsettl⟩

inductive Step where
  | create (request : MultiCurrencyPaymentRequest) (market : Market) (id : String)
  | execute (paymentId transactionHash : String)
  | complete (paymentId : String) (ledgerSequence now : Int)
  | fail (paymentId reason : String) (now : Int)

def apply (books : Books) : Step → Books
  | .create request market id => (createMultiCurrencyPayment request market id books).2
  | .execute paymentId transactionHash => (executePathPayment paymentId transactionHash books).2
  | .complete paymentId ledgerSequence now => (completeMultiCurrencyPayment paymentId ledgerSequence now books).2
  | .fail paymentId reason now => (failMultiCurrencyPayment paymentId reason now books).2

def run (books : Books) (history : List Step) : Books := History.run apply books history

/-- The amounts of a payment that is created are positive, and it is settled in its destination currency. -/
def Proper (request : MultiCurrencyPaymentRequest) (market : Market) : Prop :=
  0 < request.sourceAmount ∧ (∀ fxRate, fxRateFor request market = .ok fxRate →
    0 < request.destinationAmount.getD (request.sourceAmount * fxRate.rate)) ∧
    request.settlementCurrency.getD request.destinationCurrency = request.destinationCurrency

def Meets (books : Books) : Step → Prop
  | .create request market _ => Proper request market
  | .execute paymentId _ => ∀ payment, lookup MultiCurrencyPayment.id books.payments paymentId = some payment →
      payment.status.final = false
  | .complete paymentId _ now => ∀ payment, lookup MultiCurrencyPayment.id books.payments paymentId = some payment →
      payment.status = .converting → ∃ settlement ∈ books.settlements, settlement.isFor payment.settlementCurrency now = true
  | .fail paymentId _ _ => ∀ payment, lookup MultiCurrencyPayment.id books.payments paymentId = some payment →
      payment.status.final = false

def Orderly (books : Books) (history : List Step) : Prop := History.Orderly apply Meets books history

/-! ### The invariant -/

/-- The books balance, and what is not settled is not listed. -/
structure Sound (books : Books) : Prop extends Balanced books where
  keyed : Keyed MultiCurrencyPayment.id books.payments
  positive : ∀ id payment, lookup MultiCurrencyPayment.id books.payments id = some payment → 0 < payment.destinationAmount
  /-- What is not settled is not listed. -/
  unlisted : ∀ id, (∀ payment, lookup MultiCurrencyPayment.id books.payments id = some payment → payment.status ≠ .settled) →
    listingsOf books.settlements id = []

variable {books : Books} {payment : MultiCurrencyPayment} {paymentId : String}
  {f : MultiCurrencyPayment → MultiCurrencyPayment}

theorem amountOf_update (hid : ∀ p, (f p).id = p.id) (hamount : ∀ p, (f p).destinationAmount = p.destinationAmount)
    (payments : List MultiCurrencyPayment) (paymentId : String) :
    amountOf (update MultiCurrencyPayment.id payments paymentId f) = amountOf payments := by
  funext id
  unfold amountOf
  rw [lookup_update hid]
  by_cases heq : id = paymentId
  · rw [if_pos heq]
    cases lookup MultiCurrencyPayment.id payments id with
    | none => rfl
    | some payment => exact hamount payment
  · rw [if_neg heq]

variable {row : MultiCurrencyPayment} {id : String}

theorem amountOf_append {payments : List MultiCurrencyPayment} (hid : id ≠ row.id) :
    amountOf (payments ++ [row]) id = amountOf payments id := by
  unfold amountOf
  rw [lookup_append_ne hid]

theorem mem_listings {settlements : List CurrencySettlement} {settlement : CurrencySettlement}
    (hmem : settlement ∈ settlements) (hid : id ∈ settlement.transactions) :
    (settlement.currency, id) ∈ listingsOf settlements id := by
  unfold listingsOf listings
  rw [mem_filter]
  exact ⟨mem_flatMap.mpr ⟨settlement, hmem, mem_map.mpr ⟨id, hid, rfl⟩⟩, decide_eq_true rfl⟩

theorem sum_contribution (hkeyed : Keyed MultiCurrencyPayment.id books.payments)
    (h : lookup MultiCurrencyPayment.id books.payments paymentId = some payment) (currency : String) :
    ((update MultiCurrencyPayment.id books.payments paymentId f).map (contribution currency)).sum =
      (books.payments.map (contribution currency)).sum - contribution currency payment + contribution currency (f payment) :=
  sum_update (contribution currency) hkeyed h

/-- What becomes of the rows when a payment's status is changed. -/
structure Changes (f : MultiCurrencyPayment → MultiCurrencyPayment) (status : PaymentStatus) : Prop where
  id : ∀ p, (f p).id = p.id
  amount : ∀ p, (f p).destinationAmount = p.destinationAmount
  settlementCurrency : ∀ p, (f p).settlementCurrency = p.settlementCurrency
  flow : ∀ currency p, MultiCurrency.flow currency (f p) = MultiCurrency.flow currency p
  status : ∀ p, (f p).status = status

theorem changes_converting (transactionHash : String) : Changes (.converting transactionHash) .converting :=
  ⟨fun _ => rfl, fun _ => rfl, fun _ => rfl, fun _ _ => rfl, fun _ => rfl⟩

theorem changes_settled (ledgerSequence now : Int) : Changes (.settled ledgerSequence now) .settled :=
  ⟨fun _ => rfl, fun _ => rfl, fun _ => rfl, fun _ _ => rfl, fun _ => rfl⟩

theorem changes_failed (reason : String) (now : Int) : Changes (.failed reason now) .failed :=
  ⟨fun _ => rfl, fun _ => rfl, fun _ => rfl, fun _ _ => rfl, fun _ => rfl⟩

variable {status : PaymentStatus}

theorem Changes.found (hf : Changes f status)
    (h : lookup MultiCurrencyPayment.id (update MultiCurrencyPayment.id books.payments paymentId f) id = some row) :
    ∃ before, lookup MultiCurrencyPayment.id books.payments id = some before ∧
      (id = paymentId ∧ row = f before ∨ id ≠ paymentId ∧ row = before) := by
  rw [lookup_update hf.id] at h
  split at h
  · rename_i hid
    obtain ⟨before, hpre, rfl⟩ := Option.map_eq_some_iff.mp h
    exact ⟨before, hpre, .inl ⟨hid, rfl⟩⟩
  · rename_i hid
    exact ⟨row, h, .inr ⟨hid, rfl⟩⟩

theorem Sound.change (h : Sound books) (hf : Changes f status)
    (hpay : lookup MultiCurrencyPayment.id books.payments paymentId = some payment)
    (hpre : payment.status ≠ .settled) (hafter : status ≠ .settled) {exposures : List CurrencyExposure}
    (hexposures : ∀ currency, netExposure exposures currency = netExposure books.exposures currency -
      contribution currency payment + contribution currency (f payment)) :
    Sound { books with payments := update MultiCurrencyPayment.id books.payments paymentId f, exposures } where
  exposure currency := by rw [hexposures, sum_contribution h.keyed hpay, h.exposure]
  listed id row hrow hsett := by
    obtain ⟨before, hfound, ⟨-, rfl⟩ | ⟨-, rfl⟩⟩ := hf.found hrow
    · exact absurd ((hf.status before).symm.trans hsett) hafter
    · exact h.listed id row hfound hsett
  totals settlement hmem := by
    rw [amountOf_update hf.id hf.amount]
    exact h.totals settlement hmem
  keyed := h.keyed.update hf.id
  positive id row hrow := by
    obtain ⟨before, hfound, ⟨-, rfl⟩ | ⟨-, rfl⟩⟩ := hf.found hrow
    · rw [hf.amount]
      exact h.positive id before hfound
    · exact h.positive id row hfound
  unlisted id hnot := by
    refine h.unlisted id fun row hrow hsett => ?_
    by_cases hid : id = paymentId
    · rw [hid, hpay] at hrow
      cases hrow
      exact hpre hsett
    · refine hnot row ?_ hsett
      rw [lookup_update hf.id, if_neg hid]
      exact hrow

theorem not_final (h : status.final = false) : status ≠ .settled ∧ status ≠ .failed := by
  cases status with
  | settled => cases h
  | failed => cases h
  | pending => exact ⟨PaymentStatus.noConfusion, PaymentStatus.noConfusion⟩
  | converting => exact ⟨PaymentStatus.noConfusion, PaymentStatus.noConfusion⟩
  | cancelled => exact ⟨PaymentStatus.noConfusion, PaymentStatus.noConfusion⟩

theorem contribution_flow (currency : String) (h : payment.status ≠ .failed) : contribution currency payment = flow currency payment := by
  rw [contribution, if_neg h]

theorem Changes.contribution (hf : Changes f status) (hafter : status ≠ .failed) (hpre : payment.status ≠ .failed)
    (currency : String) :
    contribution currency (f payment) = contribution currency payment := by
  have hfail : (f payment).status ≠ .failed := fun hfail => hafter ((hf.status payment).symm.trans hfail)
  rw [contribution_flow currency hfail, contribution_flow currency hpre, hf.flow]

theorem Sound.execute (h : Sound books) {transactionHash : String} (hmeets : Meets books (.execute paymentId transactionHash)) :
    Sound (apply books (.execute paymentId transactionHash)) := by
  simp only [apply, executePathPayment]
  cases hpay : lookup MultiCurrencyPayment.id books.payments paymentId with
  | none => exact h
  | some payment =>
    obtain ⟨hsett, hfail⟩ := not_final (hmeets payment hpay)
    have hchanges := changes_converting transactionHash
    refine h.change hchanges hpay hsett PaymentStatus.noConfusion fun currency => ?_
    rw [hchanges.contribution PaymentStatus.noConfusion hfail, sub_add_cancel]

theorem Sound.fail (h : Sound books) {reason : String} (hmeets : Meets books (.fail paymentId reason now)) :
    Sound (apply books (.fail paymentId reason now)) := by
  simp only [apply, failMultiCurrencyPayment]
  cases hpay : lookup MultiCurrencyPayment.id books.payments paymentId with
  | none => exact h
  | some payment =>
    obtain ⟨hsett, hfail⟩ := not_final (hmeets payment hpay)
    refine h.change (changes_failed reason now) hpay hsett PaymentStatus.noConfusion fun currency => ?_
    rw [(netExposure_flow books.exposures payment currency).2, contribution_flow currency hfail]
    exact (add_zero _).symm

theorem Sound.complete (h : Sound books) {ledgerSequence : Int}
    (hmeets : Meets books (.complete paymentId ledgerSequence now)) :
    Sound (apply books (.complete paymentId ledgerSequence now)) := by
  simp only [apply, completeMultiCurrencyPayment]
  cases hpay : lookup MultiCurrencyPayment.id books.payments paymentId with
  | none => exact h
  | some payment =>
    by_cases hconverting : payment.status = .converting
    · obtain rfl := lookup_key hpay
      have hchanges := changes_settled ledgerSequence now
      have hlistings := listingsOf_update books.settlements payment.settlementCurrency payment.destinationAmount payment.id now
      have hnone : listingsOf books.settlements payment.id = [] := by
        refine h.unlisted payment.id fun row hrow hsett => ?_
        rw [hpay] at hrow
        cases hrow
        rw [hconverting] at hsett
        cases hsett
      have hamount : amountOf books.payments payment.id = payment.destinationAmount := by rw [amountOf, hpay]
      simp only [hconverting, ne_eq, not_true, if_false]
      refine ⟨⟨fun currency => ?_, fun id row hrow hsett => ?_, ?_⟩, h.keyed.update hchanges.id, fun id row hrow => ?_,
        fun id hnot => ?_⟩
      · have hfail : payment.status ≠ .failed := by
          rw [hconverting]
          exact PaymentStatus.noConfusion
        rw [sum_contribution h.keyed hpay, hchanges.contribution PaymentStatus.noConfusion hfail, sub_add_cancel]
        exact h.exposure currency
      · obtain ⟨before, hfound, ⟨rfl, rfl⟩ | ⟨hid, rfl⟩⟩ := hchanges.found hrow
        · rw [hpay] at hfound
          cases hfound
          have hperm := hlistings payment.id
          rw [hnone, if_pos rfl] at hperm
          exact perm_singleton.mp hperm
        · have hperm := hlistings id
          rw [if_neg (Ne.symm hid), append_nil, h.listed id row hfound hsett] at hperm
          exact perm_singleton.mp hperm
      · rw [amountOf_update hchanges.id hchanges.amount, ← hamount]
        exact totals_update h.totals (hamount ▸ h.positive payment.id payment hpay) (hmeets payment hpay hconverting)
      · obtain ⟨before, hfound, ⟨-, rfl⟩ | ⟨-, rfl⟩⟩ := hchanges.found hrow
        · exact h.positive id before hfound
        · exact h.positive id row hfound
      · have hid : id ≠ payment.id := by
          rintro rfl
          refine hnot (payment.settled ledgerSequence now) ?_ rfl
          rw [lookup_update hchanges.id, if_pos rfl, hpay, Option.map_some]
        have hperm := hlistings id
        rw [if_neg (Ne.symm hid), append_nil, h.unlisted id] at hperm
        · exact perm_nil.mp hperm
        · intro row hrow
          refine hnot row ?_
          rw [lookup_update hchanges.id, if_neg hid]
          exact hrow
    · simp only [hconverting, ne_eq, not_false_eq_true, if_true]
      exact h

theorem Sound.append (h : Sound books) (payment : MultiCurrencyPayment)
    (hfresh : lookup MultiCurrencyPayment.id books.payments payment.id = none)
    (hstat : payment.status = .pending) (hpos : 0 < payment.destinationAmount) :
    Sound { books with
      payments := books.payments ++ [payment]
      exposures := updateCurrencyExposure (updateCurrencyExposure books.exposures payment.sourceCurrency payment.sourceAmount .long)
        payment.destinationCurrency payment.destinationAmount .short } where
  exposure currency := by
    have hfail : payment.status ≠ .failed := by
      rw [hstat]
      exact PaymentStatus.noConfusion
    rw [(netExposure_flow books.exposures payment currency).1, h.exposure, map_append, sum_append, map_singleton,
      sum_singleton, contribution_flow currency hfail]
  listed id row hrow hsett := by
    by_cases hid : id = payment.id
    · subst hid
      rw [lookup_append_self hfresh] at hrow
      cases hrow
      rw [hstat] at hsett
      cases hsett
    · rw [lookup_append_ne hid] at hrow
      exact h.listed id row hrow hsett
  totals settlement hmem := by
    rw [h.totals settlement hmem]
    refine congrArg sum (map_congr_left fun id hid => (amountOf_append ?_).symm)
    rintro rfl
    have hlisted := mem_listings hmem hid
    rw [h.unlisted payment.id fun row hrow => by rw [hfresh] at hrow; cases hrow] at hlisted
    cases hlisted
  keyed := h.keyed.append hfresh
  positive id row hrow := by
    by_cases hid : id = payment.id
    · subst hid
      rw [lookup_append_self hfresh] at hrow
      cases hrow
      exact hpos
    · rw [lookup_append_ne hid] at hrow
      exact h.positive id row hrow
  unlisted id hnot := by
    refine h.unlisted id fun row hrow => hnot row ?_
    rw [lookup_append_ne]
    · exact hrow
    · rintro rfl
      rw [hfresh] at hrow
      cases hrow

theorem Sound.create (h : Sound books) {request : MultiCurrencyPaymentRequest} {market : Market}
    (hproper : Proper request market) : Sound (apply books (.create request market id)) := by
  simp only [apply, createMultiCurrencyPayment]
  split
  · exact h
  split
  · exact h
  cases hrate : fxRateFor request market with
  | error message => exact h
  | ok fxRate =>
    cases market.findConversionPath with
    | error message => exact h
    | ok path =>
      simp only
      cases market.fxRateColumn.read fxRate.idOrManual with
      | none => exact h
      | some fxRateId =>
        simp only
        split
        · exact h
        · rename_i hfresh
          exact h.append ⟨id, _, _, _, _, _, fxRateId, _, .pending, none, none, none, none, none⟩
            (Option.not_isSome_iff_eq_none.mp hfresh) rfl (hproper.2.1 fxRate hrate)

theorem Sound.step (h : Sound books) {step : Step} (hmeets : Meets books step) : Sound (apply books step) := by
  cases step with
  | create request market id => exact h.create hmeets
  | execute paymentId transactionHash => exact h.execute hmeets
  | complete paymentId ledgerSequence now => exact h.complete hmeets
  | fail paymentId reason now => exact h.fail hmeets

theorem final_update (hf : Changes f status) (hrow : lookup MultiCurrencyPayment.id books.payments id = some row)
    (hkept : id = paymentId → status = row.status) :
    ∃ row', lookup MultiCurrencyPayment.id (update MultiCurrencyPayment.id books.payments paymentId f) id = some row' ∧
      row'.status = row.status := by
  rw [lookup_update hf.id, hrow]
  split
  · rename_i hid
    exact ⟨f row, rfl, (hf.status row).trans (hkept hid)⟩
  · exact ⟨row, rfl, rfl⟩

theorem final_step {step : Step} (hmeets : Meets books step)
    (hrow : lookup MultiCurrencyPayment.id books.payments id = some row) (hfinal : row.status.final = true) :
    ∃ row', lookup MultiCurrencyPayment.id (apply books step).payments id = some row' ∧ row'.status = row.status := by
  cases step with
  | create request market id' =>
    simp only [apply, createMultiCurrencyPayment]
    split
    · exact ⟨row, hrow, rfl⟩
    split
    · exact ⟨row, hrow, rfl⟩
    cases fxRateFor request market with
    | error message => exact ⟨row, hrow, rfl⟩
    | ok fxRate =>
      cases market.findConversionPath with
      | error message => exact ⟨row, hrow, rfl⟩
      | ok path =>
        simp only
        cases market.fxRateColumn.read fxRate.idOrManual with
        | none => exact ⟨row, hrow, rfl⟩
        | some fxRateId =>
          simp only
          split
          · exact ⟨row, hrow, rfl⟩
          · rename_i hfresh
            refine ⟨row, ?_, rfl⟩
            rw [lookup_append_ne]
            · exact hrow
            · rintro rfl
              rw [hrow] at hfresh
              exact hfresh rfl
  | execute paymentId transactionHash =>
    simp only [apply, executePathPayment]
    cases hpay : lookup MultiCurrencyPayment.id books.payments paymentId with
    | none => exact ⟨row, hrow, rfl⟩
    | some payment =>
      refine final_update (changes_converting transactionHash) hrow fun hid => ?_
      rw [hid, hpay] at hrow
      cases hrow
      rw [hmeets _ hpay] at hfinal
      cases hfinal
  | complete paymentId ledgerSequence now =>
    simp only [apply, completeMultiCurrencyPayment]
    cases hpay : lookup MultiCurrencyPayment.id books.payments paymentId with
    | none => exact ⟨row, hrow, rfl⟩
    | some payment =>
      by_cases hconverting : payment.status = .converting
      · simp only [hconverting, ne_eq, not_true, if_false]
        refine final_update (changes_settled ledgerSequence now) hrow fun hid => ?_
        rw [hid, hpay] at hrow
        cases hrow
        rw [hconverting] at hfinal
        cases hfinal
      · simp only [hconverting, ne_eq, not_false_eq_true, if_true]
        exact ⟨row, hrow, rfl⟩
  | fail paymentId reason now =>
    simp only [apply, failMultiCurrencyPayment]
    cases hpay : lookup MultiCurrencyPayment.id books.payments paymentId with
    | none => exact ⟨row, hrow, rfl⟩
    | some payment =>
      refine final_update (changes_failed reason now) hrow fun hid => ?_
      rw [hid, hpay] at hrow
      cases hrow
      rw [hmeets _ hpay] at hfinal
      cases hfinal

theorem sound_run {history : List Step} (h : Sound books) (hord : Orderly books history) : Sound (run books history) :=
  History.Orderly.invariant (fun _ _ hsound hmeets => hsound.step hmeets) hord h

/-- From books that balance, the books balance after every history, and a payment that is settled or failed stays so. -/
theorem balanced (h : Sound books) {history : List Step} (hord : Orderly books history) :
    Balanced (run books history) ∧ ∀ before after, history = before ++ after → ∀ id row,
        lookup MultiCurrencyPayment.id (run books before).payments id = some row → row.status.final = true →
        ∃ row', lookup MultiCurrencyPayment.id (run books history).payments id = some row' ∧ row'.status = row.status := by
  refine ⟨(sound_run h hord).toBalanced, ?_⟩
  rintro before after rfl id row hrow hfinal
  obtain ⟨-, hafter⟩ := History.Orderly.split hord
  rw [run, History.run_append]
  exact History.Orderly.final (fun _ _ _ hmeets => final_step hmeets) hafter hrow hfinal

def sampleRateId : String := "a0eebc99-9c0b-4ef8-bb6d-6bb9bd380a11"

def sampleMarket : Market := ⟨fun _ => true, .ok 3, .ok (), .of [sampleRateId] "A0EEBC99-9C0B-4EF8-BB6D-6BB9BD380A11" sampleRateId⟩

/-- A request with a rate of its own, which has an id that the column takes. -/
def sampleRequest : MultiCurrencyPaymentRequest := ⟨"EUR", 10, "USD", none, none, some ⟨some sampleRateId, 2⟩⟩

def creation : Step := .create sampleRequest sampleMarket "payment-1"

def settling : List Step := [creation, .execute "payment-1" "hash-1", .complete "payment-1" 100 5]

def openBooks : Books := ⟨[], [], [⟨"USD", 0, 0, 0, 0, []⟩]⟩

theorem sound_openBooks : Sound openBooks where
  exposure _ := rfl
  listed _ _ hpay := by cases hpay
  totals settlement hmem := by
    obtain rfl := mem_singleton.mp hmem
    rfl
  keyed := nodup_nil
  positive _ _ hpay := by cases hpay
  unlisted _ _ := rfl

theorem proper_sample : Proper sampleRequest sampleMarket := by
  refine ⟨by decide, fun rate hrate => ?_, rfl⟩
  cases hrate
  decide +kernel

theorem orderly_settling : Orderly openBooks settling := by
  refine ⟨proper_sample, fun payment hpay => ?_, fun payment hpay _ => ?_, trivial⟩
  · cases hpay
    rfl
  · cases hpay
    exact ⟨_, mem_singleton.mpr rfl, by decide⟩

theorem balanced_settling : Balanced (run openBooks settling) := (balanced sound_openBooks orderly_settling).1

/-- The first payment of a day is listed without its amount; one that is failed twice is taken out twice; and one
that is settled is executed and listed again. -/
theorem books_unbalanced :
    (run ⟨[], [], []⟩ settling).settlements.map (fun settlement =>
      (settlement.totalIn, (settlement.transactions.map (amountOf (run ⟨[], [], []⟩ settling).payments)).sum)) = [(0, 20)] ∧
    (netExposure (run ⟨[], [], []⟩ [creation, .fail "payment-1" "" 5, .fail "payment-1" "" 6]).exposures "EUR" = -10 ∧
      ((run ⟨[], [], []⟩ [creation, .fail "payment-1" "" 5, .fail "payment-1" "" 6]).payments.map (contribution "EUR")).sum = 0) ∧
    ((lookup MultiCurrencyPayment.id (run openBooks settling).payments "payment-1").map MultiCurrencyPayment.status = some .settled ∧
      (lookup MultiCurrencyPayment.id (run openBooks (settling ++ [.execute "payment-1" "hash-2"])).payments "payment-1").map
        MultiCurrencyPayment.status = some .converting ∧
      listingsOf (run openBooks (settling ++ [.execute "payment-1" "hash-2", .complete "payment-1" 101 6])).settlements "payment-1" =
        [("USD", "payment-1"), ("USD", "payment-1")]) := by
  decide +kernel

end Delego.MultiCurrency
