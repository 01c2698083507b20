import Delego.Wallet.Sequence

/-! Blocks of sequence numbers that do not overlap.

A block starts after the highest number of the list that its call has read. The lock that is to keep other calls away
lapses after five seconds, and is deleted by whoever ends: a call whose lock is gone stores a block on top of one that
another call has stored meanwhile (`blocks_overlap`).

Where a call that stores a block has read all that is then in the list, and the list does not lapse before what it
holds, the unexpired reservations of the account lie one above the other (`blocks_disjoint`). -/
namespace Delego.Wallet
open Delego.Process List Function

section
variable {w : SequenceState} {account a : String} {o : SeqOp} {ch : SeqChoice}

theorem carryOut_world {α W : Type} (fate : Fate) (status : Option Nat) (answer : α × W) (w : W) :
    (carryOut fate status answer w).2 = w ∨ (carryOut fate status answer w).2 = answer.2 := by
  cases fate with
  | done => exact .inr rfl
  | refused message => exact .inl rfl
  | lost message => exact .inr rfl

theorem performSeq_world (o : SeqOp) (ch : SeqChoice) (w : SequenceState) :
    (performSeq o ch w).2 = w ∨ (performSeq o ch w).2 = (answerSeq o w).2 := by
  unfold performSeq
  split
  · exact .inl rfl
  · exact carryOut_world ..

theorem carryOut_ok {α W : Type} {fate : Fate} {status : Option Nat} {answer : α × W} {w : W} {a : α}
    (h : (carryOut fate status answer w).1 = .ok a) : a = answer.1 ∧ (carryOut fate status answer w).2 = answer.2 := by
  cases fate with
  | done =>
    cases h
    exact ⟨rfl, rfl⟩
  | refused message => cases h
  | lost message => cases h

theorem performSeq_ok {reply : o.Reply} (h : (performSeq o ch w).1 = .ok reply) :
    reply = (answerSeq o w).1 ∧ (performSeq o ch w).2 = (answerSeq o w).2 := by
  unfold performSeq at h ⊢
  split at h
  · cases h
  · rename_i href
    rw [if_neg href]
    exact carryOut_ok h

theorem lapsed_deadline (w : SequenceState) (a : String) : w.lapsed (w.deadline a) = false := by
  unfold SequenceState.deadline
  split
  · rfl
  · rename_i hlapsed
    simpa using hlapsed

theorem list_setList {ends : Option Int} {reservations : List SequenceReservation} (h : w.lapsed ends = false) :
    (w.setList a reservations ends).list a = reservations := by
  have hlists : (w.setList a reservations ends).lists a = reservations := update_self ..
  have hlapsed : (w.setList a reservations ends).lapsed ((w.setList a reservations ends).listUntil a) = false := by
    have huntil : (w.setList a reservations ends).listUntil a = if reservations.isEmpty then none else ends :=
      update_self ..
    rw [huntil]
    split
    · rfl
    · exact h
  rw [SequenceState.list, hlists, if_neg (by simp [hlapsed])]

theorem list_setList_ne {ends : Option Int} {reservations : List SequenceReservation} (h : a ≠ account) :
    (w.setList account reservations ends).list a = w.list a := by
  have hlists : (w.setList account reservations ends).lists a = w.lists a := update_of_ne h ..
  have huntil : (w.setList account reservations ends).listUntil a = w.listUntil a := update_of_ne h ..
  rw [SequenceState.list, SequenceState.list, hlists, huntil]
  rfl

/-- What is in the list of an account after an operation, where nothing is taken from it but what has
expired. -/
theorem mem_list_answer {r : SequenceReservation} (h : r ∈ w.list a)
    (hlrem : ∀ reservation, o = .lrem a reservation → reservation.expiresAt ≤ w.clock)
    (hexpire : ∀ seconds, o = .expire a seconds → 0 < seconds) (hdel : o ≠ .delList a)
    (hlive : w.clock < r.expiresAt) : r ∈ (answerSeq o w).2.list a := by
  cases o with
  | lrem account reservation =>
    by_cases hacct : a = account
    · subst hacct
      have hexp := hlrem reservation rfl
      simp only [answerSeq, list_setList (lapsed_deadline w a), mem_filter, decide_eq_true_eq]
      refine ⟨h, ?_⟩
      rintro rfl
      omega
    · simpa only [answerSeq, list_setList_ne hacct] using h
  | rpush account reservation =>
    by_cases hacct : a = account
    · subst hacct
      have hlist : (answerSeq (.rpush a reservation) w).2.list a = w.list a ++ [reservation] :=
        list_setList (lapsed_deadline w a)
      rw [hlist]
      exact mem_append_left _ h
    · have hlist : (answerSeq (.rpush account reservation) w).2.list a = w.list a := list_setList_ne hacct
      rw [hlist]
      exact h
  | expire account seconds =>
    simp only [answerSeq]
    split
    · exact h
    · by_cases hacct : a = account
      · subst hacct
        have hseconds := hexpire seconds rfl
        have hlater : w.lapsed (some (w.clock + 1000 * seconds)) = false := by
          simp only [SequenceState.lapsed, Option.any_some, decide_eq_false_iff_not]
          omega
        rw [list_setList hlater]
        exact h
      · rw [list_setList_ne hacct]
        exact h
  | delList account =>
    have hacct : a ≠ account := by
      rintro rfl
      exact hdel rfl
    simpa only [answerSeq, list_setList_ne hacct] using h
  | setLock account =>
    simp only [answerSeq]
    split
    · exact h
    · exact h
  | _ => exact h

theorem made_answer (w : SequenceState) (o : SeqOp) : (answerSeq o w).2.made = w.made ∨
    ∃ account reservation, o = .rpush account reservation ∧ (answerSeq o w).2.made = reservation :: w.made := by
  cases o with
  | rpush account reservation => exact .inr ⟨account, reservation, rfl, rfl⟩
  | _ => exact .inl ((steady_answer _ w).made nofun)

theorem clock_performSeq (o : SeqOp) (ch : SeqChoice) (w : SequenceState) :
    (performSeq o ch w).2.clock = w.clock := by
  rcases performSeq_world o ch w with h | h
  · rw [h]
  · rw [h, (steady_answer o w).clock]

end

/-- What a call has found out for a block of account `a`. -/
structure Survey where
  ledger : Option Int := none
  read : Option (List SequenceReservation) := none
  /-- The time at which it looked for what has expired. -/
  time : Option Int := none

namespace Survey

def next (a : String) (φ : Survey) : (o : SeqOp) → sequenceSignature.Result o → Survey
  | .loadAccount account, .ok ledger => if account = a then { φ with ledger := some ledger } else φ
  | .lrange account, .ok reservations => if account = a then { φ with read := some reservations, time := none } else φ
  | .now, .ok t => { φ with time := some (φ.time.getD t) }
  | _, _ => φ

/-- The block lies above what the call has found. -/
def Above (φ : Survey) (reservation : SequenceReservation) : Prop :=
  ∃ ledger reservations t, φ = ⟨some ledger, some reservations, some t⟩ ∧ ledger < reservation.firstSequence ∧
    ∀ r ∈ reservations, r.expiresAt ≤ t ∨ r.lastSequence < reservation.firstSequence

def Allows (a : String) (φ : Survey) : SeqOp → Prop
  | .lrem account reservation => account = a → ∃ t, φ.time = some t ∧ reservation.expiresAt ≤ t
  | .rpush account reservation => reservation.account = account ∧ (account = a → φ.Above reservation)
  | .expire account seconds => account = a → 0 < seconds
  | .delList account => account ≠ a
  | _ => True

end Survey

def surveying (a : String) : Protocol sequenceSignature Survey where
  Allowed := Survey.Allows a
  Moves := fun φ o r φ' => φ' = φ.next a o r

theorem le_highestReserved (ledgerSequence : Int) (reservations : List SequenceReservation) :
    ledgerSequence ≤ highestReserved ledgerSequence reservations ∧
      ∀ r ∈ reservations, r.lastSequence ≤ highestReserved ledgerSequence reservations := by
  induction reservations generalizing ledgerSequence with
  | nil => exact ⟨Int.le_refl _, nofun⟩
  | cons r rest ih =>
    have hstep : ledgerSequence ≤ (if ledgerSequence < r.lastSequence then r.lastSequence else ledgerSequence) ∧
        r.lastSequence ≤ if ledgerSequence < r.lastSequence then r.lastSequence else ledgerSequence := by
      split
      · exact ⟨by omega, Int.le_refl _⟩
      · exact ⟨Int.le_refl _, by omega⟩
    obtain ⟨hledg, hrest⟩ := ih (if ledgerSequence < r.lastSequence then r.lastSequence else ledgerSequence)
    refine ⟨Int.le_trans hstep.1 hledg, ?_⟩
    intro r' hr'
    rcases mem_cons.mp hr' with rfl | hr'
    · exact Int.le_trans hstep.2 hledg
    · exact hrest r' hr'

section
variable {a account : String} {φ : Survey} {size : Int}

theorem follows_seq {o : SeqOp} {β : Type} {f : o.Reply → SequenceM β} (ha : φ.Allows a o)
    (hf : ∀ reply, Follows (surveying a) (φ.next a o (.ok reply)) (f reply) fun _ _ => True) :
    Follows (surveying a) φ (seq o >>= f) fun _ _ => True := by
  apply follows_bind
  apply follows_perform ha
  rintro r φ' rfl
  cases r with
  | ok reply => exact hf reply
  | error e => trivial

def Free : SeqOp → Prop
  | .lrem _ _ => False
  | .rpush _ _ => False
  | .expire _ _ => False
  | .delList _ => False
  | _ => True

theorem follows_free {α : Type} {p : SequenceM α} (h : p.Only Free) : Follows (surveying a) φ p fun _ _ => True := by
  refine follows_within (I := fun _ => True) h trivial ?_ fun _ _ _ _ _ _ _ => trivial
  intro φ o _ ho
  cases o with
  | lrem | rpush | expire | delList => exact absurd ho id
  | _ => trivial

theorem free_acquireLock (tries : Nat) : (acquireLock account tries).Only Free := by
  induction tries with
  | zero => trivial
  | succ tries ih =>
    refine only_bind (only_perform trivial) fun acquired => ?_
    split
    · trivial
    · exact only_bind (only_perform trivial) fun _ => ih

theorem follows_removeAll {reservations : List SequenceReservation}
    (hexp : account = a → ∃ t, φ.time = some t ∧ ∀ r ∈ reservations, r.expiresAt ≤ t) :
    Follows (surveying a) φ (removeAll account reservations) fun _ φ' => φ' = φ := by
  induction reservations with
  | nil => rfl
  | cons r rest ih =>
    have hfirst : account = a → ∃ t, φ.time = some t ∧ r.expiresAt ≤ t := by
      intro hacct
      obtain ⟨t, ht, hall⟩ := hexp hacct
      exact ⟨t, ht, hall r mem_cons_self⟩
    have hrest : account = a → ∃ t, φ.time = some t ∧ ∀ r ∈ rest, r.expiresAt ≤ t := by
      intro hacct
      obtain ⟨t, ht, hall⟩ := hexp hacct
      exact ⟨t, ht, fun r hr => hall r (mem_cons_of_mem _ hr)⟩
    apply follows_bind
    refine follows_perform hfirst ?_
    rintro result φ' rfl
    cases result with
    | error e => rfl
    | ok _ => exact ih hrest

theorem above_highest {ledger t : Int} {reservations : List SequenceReservation} {r : SequenceReservation}
    (hr : r ∈ reservations) : r.expiresAt ≤ t ∨ r.lastSequence <
      highestReserved ledger (reservations.filter fun r => decide (t < r.expiresAt)) + 1 := by
  by_cases hlive : t < r.expiresAt
  · right
    have hmem : r ∈ reservations.filter fun r => decide (t < r.expiresAt) := mem_filter.mpr ⟨hr, by simpa⟩
    have hle := (le_highestReserved ledger (reservations.filter fun r => decide (t < r.expiresAt))).2 r hmem
    omega
  · exact .inl (Int.not_lt.mp hlive)

theorem follows_getActiveReservations {Q : Except WalletError (List SequenceReservation) → Survey → Prop}
    (herror : ∀ e φ', Q (.error e) φ')
    (hok : ∀ reservations t φ', (account = a → φ' = ⟨φ.ledger, some reservations, some t⟩) →
      Q (.ok (reservations.filter fun r => decide (t < r.expiresAt))) φ') :
    Follows (surveying a) φ (getActiveReservations account) Q := by
  refine follows_bind (follows_perform trivial (forall_except (fun e _ rfl => herror e _) ?_))
  rintro reservations _ rfl
  refine follows_bind (follows_perform trivial (forall_except (fun e _ rfl => herror e _) ?_))
  rintro t _ rfl
  have hphase : account = a → (φ.next a (.lrange account) (.ok reservations)).next a .now (.ok t) =
      ⟨φ.ledger, some reservations, some t⟩ := by
    rintro rfl
    simp [Survey.next]
  apply follows_bind
  refine follows_mono (follows_removeAll ?_) ?_
  · intro hacct
    refine ⟨t, by rw [hphase hacct], ?_⟩
    intro r hr
    exact of_decide_eq_true (mem_filter.mp hr).2
  · rintro outcome _ rfl
    cases outcome with
    | error e => exact herror e _
    | ok _ => exact hok reservations t _ hphase

theorem follows_reserveLocked : Follows (surveying a) φ (reserveLocked account size) fun _ _ => True := by
  refine follows_seq trivial fun _ => ?_
  refine follows_seq trivial fun ledgerSequence => ?_
  apply follows_bind
  refine follows_getActiveReservations (fun _ _ => trivial) ?_
  intro reservations t φ' hφ
  refine follows_seq trivial fun leaseId => ?_
  refine follows_seq trivial fun now => ?_
  refine follows_seq ⟨rfl, ?_⟩ fun _ => ?_
  · rintro rfl
    have hledg := (le_highestReserved ledgerSequence (reservations.filter fun r => decide (t < r.expiresAt))).1
    refine ⟨ledgerSequence, reservations, t, ?_, ?_, fun r hr => above_highest hr⟩
    · simp [hφ rfl, Survey.next]
    · exact Int.lt_add_one_iff.mpr hledg
  · refine follows_seq (fun _ => by decide) fun _ => ?_
    exact follows_seq trivial fun _ => trivial

theorem follows_reserveSequenceBlock : Follows (surveying a) φ (reserveSequenceBlock account size) fun _ _ => True := by
  refine follows_andThen (I := fun _ => True) (follows_free (free_acquireLock 20)) ?_
  intro lockAcquired φ' _
  split
  · refine follows_andThen (I := fun _ => True) (follows_attempt follows_reserveLocked) ?_
    intro outcome φ'' _
    refine follows_seq trivial fun _ => follows_seq trivial fun _ => ?_
    cases outcome with
    | ok reservation => trivial
    | error e => trivial
  · exact follows_seq trivial fun _ => trivial

end

/-! ### What is stored -/

/-- The list of account `a` as runner `i` last read it. -/
def lastRead (a : String) (i : Nat) : SequenceTrace → Option (List SequenceReservation)
  | [] => none
  | ⟨j, .lrange account, .ok reservations⟩ :: tr => if j = i ∧ account = a then some reservations else lastRead a i tr
  | _ :: tr => lastRead a i tr

/-- The ledger's number as runner `i` last read it. -/
def lastLoaded (a : String) (i : Nat) : SequenceTrace → Option Int
  | [] => none
  | ⟨j, .loadAccount account, .ok ledger⟩ :: tr => if j = i ∧ account = a then some ledger else lastLoaded a i tr
  | _ :: tr => lastLoaded a i tr

def upToDate (a : String) (p : SequencePool) (i : Nat) (o : SeqOp) (_ : SeqChoice) : Bool :=
  match o with
  | .rpush account _ => decide (account ≠ a) || (p.world.list a).all fun r =>
    decide (r.expiresAt ≤ p.world.clock) || decide (r ∈ (lastRead a i p.trace).getD [])
  | _ => true

/-- The list does not lapse before what it holds. -/
def outlives (a : String) (w : SequenceState) (e : SeqEvent) : Bool :=
  (w.list a).all fun r => decide (r.expiresAt ≤ (driftSeq e w).clock) || decide (r ∈ (driftSeq e w).list a)

def reserves : SeqCall → Bool
  | .reserve _ _ => true
  | _ => false

def orderly (a : String) (p : SequencePool) (act : Action sequences) : Bool :=
  onCall reserves act && onStep (upToDate a) p act && onDrift (outlives a) p act

/-- A block of account `a` is above the ledger's number that its call has read. -/
def AboveLedger (a : String) (tr : SequenceTrace) : Prop :=
  ∀ later e earlier reservation, tr = later ++ e :: earlier → e.op = .rpush a reservation →
    ∃ ledger, lastLoaded a e.runner earlier = some ledger ∧ ledger < reservation.firstSequence

/-- The reservations of account `a` that have not expired are in its list, each above those before it. -/
structure Stacked (a : String) (w : SequenceState) (tr : SequenceTrace) (φ : Nat → Survey) : Prop where
  stacked : w.made.Pairwise fun new old => new.account = a → old.account = a → w.clock < old.expiresAt →
    old.lastSequence < new.firstSequence
  stored : ∀ r ∈ w.made, r.account = a → w.clock < r.expiresAt → r ∈ w.list a
  ledger : ∀ i sequence, (φ i).ledger = some sequence → lastLoaded a i tr = some sequence
  read : ∀ i reservations, (φ i).read = some reservations → lastRead a i tr = some reservations
  time : ∀ i t, (φ i).time = some t → t ≤ w.clock
  above : AboveLedger a tr

section
variable {a : String} {i j : Nat} {o : SeqOp} {r : sequenceSignature.Result o} {tr : SequenceTrace} {φ : Survey}

theorem lastRead_other (h : i ≠ j) : lastRead a j (⟨i, o, r⟩ :: tr) = lastRead a j tr := by
  cases o with
  | lrange account =>
    cases r with
    | ok reservations => simp [lastRead, h]
    | error e => rfl
  | _ => rfl

theorem lastLoaded_other (h : i ≠ j) : lastLoaded a j (⟨i, o, r⟩ :: tr) = lastLoaded a j tr := by
  cases o with
  | loadAccount account =>
    cases r with
    | ok ledger => simp [lastLoaded, h]
    | error e => rfl
  | _ => rfl

theorem lastRead_next {reservations : List SequenceReservation}
    (h : φ.read = some reservations → lastRead a i tr = some reservations)
    (hnext : (φ.next a o r).read = some reservations) : lastRead a i (⟨i, o, r⟩ :: tr) = some reservations := by
  cases o with
  | lrange account =>
    cases r with
    | ok found =>
      by_cases hacct : account = a
      · simpa [Survey.next, lastRead, hacct] using hnext
      · simp only [Survey.next, if_neg hacct] at hnext
        simpa [lastRead, hacct] using h hnext
    | error e => exact h hnext
  | loadAccount account =>
    cases r with
    | ok ledger =>
      simp only [Survey.next] at hnext
      split at hnext
      · exact h hnext
      · exact h hnext
    | error e => exact h hnext
  | now =>
    cases r with
    | ok t => exact h hnext
    | error e => exact h hnext
  | _ => exact h hnext

theorem lastLoaded_next {sequence : Int} (h : φ.ledger = some sequence → lastLoaded a i tr = some sequence)
    (hnext : (φ.next a o r).ledger = some sequence) : lastLoaded a i (⟨i, o, r⟩ :: tr) = some sequence := by
  cases o with
  | loadAccount account =>
    cases r with
    | ok ledger =>
      by_cases hacct : account = a
      · simpa [Survey.next, lastLoaded, hacct] using hnext
      · simp only [Survey.next, if_neg hacct] at hnext
        simpa [lastLoaded, hacct] using h hnext
    | error e => exact h hnext
  | lrange account =>
    cases r with
    | ok found =>
      simp only [Survey.next] at hnext
      split at hnext
      · exact h hnext
      · exact h hnext
    | error e => exact h hnext
  | now =>
    cases r with
    | ok t => exact h hnext
    | error e => exact h hnext
  | _ => exact h hnext

theorem time_next {w : SequenceState} {ch : SeqChoice} {t : Int} (h : ∀ t, φ.time = some t → t ≤ w.clock)
    (hnext : (φ.next a o (performSeq o ch w).1).time = some t) : t ≤ w.clock := by
  cases hr : (performSeq o ch w).1 with
  | error e =>
    rw [hr] at hnext
    cases o with
    | _ => exact h t hnext
  | ok reply =>
    have hreply := (performSeq_ok hr).1
    rw [hr] at hnext
    cases o with
    | now =>
      subst hreply
      simp only [Survey.next, Option.some.injEq] at hnext
      cases htime : φ.time with
      | none =>
        rw [htime] at hnext
        exact Int.le_of_eq hnext.symm
      | some time =>
        rw [htime] at hnext
        have hle := h time htime
        rw [Option.getD_some] at hnext
        omega
    | lrange account =>
      simp only [Survey.next] at hnext
      split at hnext
      · cases hnext
      · exact h t hnext
    | loadAccount account =>
      simp only [Survey.next] at hnext
      split at hnext
      · exact h t hnext
      · exact h t hnext
    | _ => exact h t hnext

theorem AboveLedger.cons (h : AboveLedger a tr) (hnew : ∀ reservation, o = .rpush a reservation →
      ∃ ledger, lastLoaded a i tr = some ledger ∧ ledger < reservation.firstSequence) :
    AboveLedger a (⟨i, o, r⟩ :: tr) := by
  intro later e earlier reservation htrace hop
  cases later with
  | nil =>
    cases htrace
    exact hnew reservation hop
  | cons _ later =>
    simp only [cons_append, cons.injEq] at htrace
    exact h later e earlier reservation htrace.2 hop

end

section
variable {a : String} {w : SequenceState} {tr : SequenceTrace} {φ : Nat → Survey} {i : Nat} {o : SeqOp} {ch : SeqChoice}

theorem Stacked.above_made (h : Stacked a w tr φ) {reservation : SequenceReservation} (habove : (φ i).Above reservation)
    (hread : ∀ r ∈ w.list a, r.expiresAt ≤ w.clock ∨ r ∈ (lastRead a i tr).getD []) :
    ∀ old ∈ w.made, old.account = a → w.clock < old.expiresAt → old.lastSequence < reservation.firstSequence := by
  intro old hold hacct hlive
  obtain ⟨ledger, reservations, t, hi, -, hbelow⟩ := habove
  have htime := h.time i t (by rw [hi])
  rcases hread old (h.stored old hold hacct hlive) with hexp | hmem
  · omega
  · rw [h.read i reservations (by rw [hi]), Option.getD_some] at hmem
    rcases hbelow old hmem with hexp | hlt
    · omega
    · exact hlt

theorem Stacked.answer (h : Stacked a w tr φ) (ha : (φ i).Allows a o) (hread : ∀ reservation, o = .rpush a reservation →
      ∀ r ∈ w.list a, r.expiresAt ≤ w.clock ∨ r ∈ (lastRead a i tr).getD []) :
    ((answerSeq o w).2.made.Pairwise fun new old => new.account = a → old.account = a → w.clock < old.expiresAt →
      old.lastSequence < new.firstSequence) ∧
    ∀ r ∈ (answerSeq o w).2.made, r.account = a → w.clock < r.expiresAt → r ∈ (answerSeq o w).2.list a := by
  have hsurvives : ∀ r ∈ w.made, r.account = a → w.clock < r.expiresAt → r ∈ (answerSeq o w).2.list a := by
    intro r hr hacct hlive
    refine mem_list_answer (h.stored r hr hacct hlive) ?_ ?_ ?_ hlive
    · rintro reservation rfl
      obtain ⟨t, ht, hexp⟩ := ha rfl
      have := h.time i t ht
      omega
    · rintro seconds rfl
      exact ha rfl
    · rintro rfl
      exact ha rfl
  rcases made_answer w o with hmade | ⟨account, reservation, rfl, hmade⟩
  · rw [hmade]
    exact ⟨h.stacked, hsurvives⟩
  · rw [hmade]
    obtain ⟨hacct, habove⟩ := ha
    refine ⟨pairwise_cons.mpr ⟨?_, h.stacked⟩, ?_⟩
    · intro old hold hnew
      have ha' : account = a := hacct.symm.trans hnew
      subst ha'
      exact h.above_made (habove rfl) (hread reservation rfl) old hold
    · intro r hr hra hlive
      rcases mem_cons.mp hr with rfl | hr
      · have ha' : account = a := hacct.symm.trans hra
        subst ha'
        have hlist : (answerSeq (.rpush account r) w).2.list account = w.list account ++ [r] :=
          list_setList (lapsed_deadline w account)
        rw [hlist]
        exact mem_append_right _ (mem_singleton_self r)
      · exact hsurvives r hr hra hlive

theorem Stacked.step (h : Stacked a w tr φ) (ha : (φ i).Allows a o) (hread : ∀ reservation, o = .rpush a reservation →
      ∀ r ∈ w.list a, r.expiresAt ≤ w.clock ∨ r ∈ (lastRead a i tr).getD []) :
    Stacked a (performSeq o ch w).2 (⟨i, o, (performSeq o ch w).1⟩ :: tr)
      (update φ i ((φ i).next a o (performSeq o ch w).1)) := by
  have hclock := clock_performSeq o ch w
  obtain ⟨hstacked, hstore⟩ := h.answer ha hread
  refine ⟨?_, ?_, ?_, ?_, ?_, ?_⟩
  · rw [hclock]
    rcases performSeq_world o ch w with hw | hw
    · rw [hw]
      exact h.stacked
    · rw [hw]
      exact hstacked
  · rw [hclock]
    rcases performSeq_world o ch w with hw | hw
    · rw [hw]
      exact h.stored
    · rw [hw]
      exact hstore
  · intro j sequence hj
    by_cases hij : i = j
    · subst hij
      rw [update_self] at hj
      exact lastLoaded_next (h.ledger i sequence) hj
    · rw [update_of_ne (Ne.symm hij)] at hj
      rw [lastLoaded_other hij]
      exact h.ledger j sequence hj
  · intro j reservations hj
    by_cases hij : i = j
    · subst hij
      rw [update_self] at hj
      exact lastRead_next (h.read i reservations) hj
    · rw [update_of_ne (Ne.symm hij)] at hj
      rw [lastRead_other hij]
      exact h.read j reservations hj
  · intro j t hj
    rw [hclock]
    by_cases hij : i = j
    · subst hij
      rw [update_self] at hj
      exact time_next (h.time i) hj
    · rw [update_of_ne (Ne.symm hij)] at hj
      exact h.time j t hj
  · refine h.above.cons ?_
    rintro reservation rfl
    obtain ⟨ledger, reservations, t, hi, hlt, -⟩ := ha.2 rfl
    exact ⟨ledger, h.ledger i ledger (by rw [hi]), hlt⟩

end

theorem stacked_inductive (a : String) :
    Inductive sequences (surveying a) {} (fun p act => orderly a p act = true) (Stacked a) where
  body := by
    intro p call hg
    simp only [orderly, Bool.and_eq_true] at hg
    cases call with
    | reserve account size =>
      refine follows_andThen (I := fun _ => True) follows_reserveSequenceBlock ?_
      exact fun _ _ _ => trivial
    | next account attempt refused => exact absurd hg.1.1 Bool.false_ne_true
  arrive := by
    rintro p φ call w - ht ⟨⟩
    exact ht.holds
  drift := by
    intro p φ e hg ht
    simp only [orderly, Bool.and_eq_true] at hg
    have h := ht.holds
    have hclock : p.world.clock ≤ (driftSeq e p.world).clock := by
      cases e with
      | tick ms => exact Int.le_add_of_nonneg_right (Int.natCast_nonneg ms)
      | advance account => exact Int.le_refl _
    have hmade : (driftSeq e p.world).made = p.world.made := by
      cases e with
      | tick ms => rfl
      | advance account => rfl
    have houtlives := all_eq_true.mp hg.2
    refine ⟨?_, ?_, h.ledger, h.read, ?_, h.above⟩
    · show (driftSeq e p.world).made.Pairwise _
      rw [hmade]
      refine h.stacked.imp ?_
      intro new old hlt hnew hold hlive
      exact hlt hnew hold (Int.lt_of_le_of_lt hclock hlive)
    · intro r hr hacct hlive
      have hr' : r ∈ p.world.made := hmade ▸ hr
      have hkept := houtlives r (h.stored r hr' hacct (Int.lt_of_le_of_lt hclock hlive))
      simp only [Bool.or_eq_true, decide_eq_true_eq] at hkept
      rcases hkept with hexp | hmem
      · exact absurd hlive (Int.not_lt.mpr hexp)
      · exact hmem
    · intro i t hi
      exact Int.le_trans (h.time i t hi) hclock
  answers := fun p φ i o ch _ _ _ _ => ⟨_, rfl⟩
  step := by
    rintro p φ i o ch _ hg hp ht ha rfl
    simp only [orderly, Bool.and_eq_true] at hg
    refine ht.holds.step ha ?_
    rintro reservation rfl r hr
    have hread := onStep_pending hg.1.2 hp
    simp only [upToDate, ne_eq, not_true_eq_false, decide_false, Bool.false_or, all_eq_true, Bool.or_eq_true,
      decide_eq_true_eq] at hread
    exact hread r hr

/-- **Blocks of one account do not overlap**, if a call that stores one has read all that is reserved then, and the
list outlives what it holds. -/
theorem blocks_disjoint {a : String} {w : SequenceState} {q : SequencePool} (start : w.made = [])
    (run : Run sequences (fun p act => orderly a p act = true) (Pool.start w) q) :
    ((q.world.made.filter fun r => decide (r.account = a ∧ q.world.clock < r.expiresAt)).Pairwise fun r r' =>
      r.lastSequence < r'.firstSequence ∨ r'.lastSequence < r.firstSequence) ∧ AboveLedger a q.trace := by
  have hstart : Stacked a w [] fun _ => {} := by
    refine ⟨by simp [start], by simp [start], nofun, nofun, nofun, ?_⟩
    intro later e earlier reservation htrace
    simp at htrace
  obtain ⟨φ, ht⟩ := (stacked_inductive a).run run ⟨_, .start hstart⟩
  refine ⟨?_, ht.holds.above⟩
  rw [pairwise_filter]
  refine ht.holds.stacked.imp ?_
  intro new old hlt hnew hold
  simp only [decide_eq_true_eq] at hnew hold
  exact .inr (hlt hnew.1 hold.1 hold.2)

def steps (i n : Nat) : List (Action sequences) := replicate n (.step i {})

/-- The blocks of the account, the latest first. -/
def blocks (p : SequencePool) (a : String) : List (Int × Int) :=
  (p.world.made.filter fun r => decide (r.account = a ∧ p.world.clock < r.expiresAt)).map fun r =>
    (r.firstSequence, r.lastSequence)

/-- The second call waits for the lock, and reserves the numbers after those of the first. -/
theorem blocks_disjoint_waiting :
    ∃ q, Run sequences (fun p act => orderly "GA" p act = true) (Pool.start (.empty fun _ => 100)) q ∧
      blocks q "GA" = [(111, 115), (101, 110)] ∧ AboveLedger "GA" q.trace ∧
      (q.world.made.filter fun r => decide (r.account = "GA" ∧ q.world.clock < r.expiresAt)).Pairwise fun r r' =>
        r.lastSequence < r'.firstSequence ∨ r'.lastSequence < r.firstSequence := by
  obtain ⟨q, hrun, htest⟩ := Run.exists_of_any (Pool.start (.empty fun _ => 100)) (orderly "GA")
    (.call (.reserve "GA" 10) :: .call (.reserve "GA" 5) :: steps 0 2 ++ steps 1 2 ++ .drift (.tick 50) ::
      steps 0 10 ++ steps 1 12) (fun q => decide (blocks q "GA" = [(111, 115), (101, 110)])) (by decide)
  obtain ⟨hdisjoint, habove⟩ := blocks_disjoint rfl hrun
  exact ⟨q, hrun, of_decide_eq_true htest, habove, hdisjoint⟩

/-- **Blocks overlap.** The lock of the first call lapses after it has read the list; a second call stores its
block, and then the first stores its own. -/
theorem blocks_overlap : ∃ q, Run sequences (fun _ act => onCall reserves act = true) (Pool.start (.empty fun _ => 100)) q ∧
      blocks q "GA" = [(101, 110), (101, 105)] := by
  obtain ⟨q, hrun, htest⟩ := Run.exists_of_any (Pool.start (.empty fun _ => 100)) (fun _ act => onCall reserves act)
    (.call (.reserve "GA" 10) :: .call (.reserve "GA" 5) :: steps 0 4 ++ .drift (.tick 5000) :: steps 1 12 ++
      steps 0 8) (fun q => decide (blocks q "GA" = [(101, 110), (101, 105)])) (by decide)
  exact ⟨q, hrun, of_decide_eq_true htest⟩

end Delego.Wallet
