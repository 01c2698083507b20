import Delego.Wallet.Blocks

/-! Who holds which reservation.

A lease belongs to one reservation, and a reservation is in the list of its account only. -/
namespace Delego.Wallet
open Delego.Process List Function

/-! ### Phases of a call -/

/-- How far a call is with a number of a lease. -/
inductive Taking where
  | nothing
  | read (leaseId : Nat) (stored : Option Int)
  | timed (leaseId : Nat) (stored : Option Int) (now : Int)
  /-- It has moved the cursor beyond the number. -/
  | taken (leaseId : Nat) (sequence : Int)

def Taking.at (t : Int) : Taking → Taking
  | .read leaseId stored => .timed leaseId stored t
  | taking => taking

/-- What a call knows of the account it asks for. -/
structure Asker where
  /-- The account that it has asked for. -/
  account : Option String := none
  listed : List SequenceReservation := []
  taking : Taking := .nothing
  /-- The lease that it has drawn for a block. -/
  lease : Option Nat := none

namespace Asker

def next (φ : Asker) : (o : SeqOp) → sequenceSignature.Result o → Asker
  | .asked account, .ok _ => { φ with account := some account, listed := [], taking := .nothing }
  | .lrange _, .ok reservations => { φ with listed := reservations }
  | .getCursor leaseId, .ok stored => { φ with taking := .read leaseId stored }
  | .now, .ok t => { φ with taking := φ.taking.at t }
  | .setCursor leaseId cursor _, .ok _ => { φ with taking := .taken leaseId (cursor - 1) }
  | .answer _ _ _, .ok _ => { φ with taking := .nothing }
  | .generateLeaseId, .ok leaseId => { φ with lease := some leaseId }
  | .rpush _ _, _ => { φ with lease := none }
  | _, _ => φ

def Moves (φ : Asker) (leaseId : Nat) (cursor px : Int) : Prop :=
  ∃ account reservation stored now, φ.account = some account ∧ reservation ∈ φ.listed ∧
    φ.taking = .timed leaseId stored now ∧ reservation.leaseId = leaseId ∧
    cursor = stored.getD reservation.firstSequence + 1 ∧ px = reservation.expiresAt - now

def Allows (φ : Asker) : SeqOp → Prop
  | .lrange account => φ.account = none ∨ φ.account = some account
  | .setCursor leaseId cursor px => φ.Moves leaseId cursor px
  | .rpush account reservation => φ.lease = some reservation.leaseId ∧ reservation.account = account
  | .answer account sequence lease => φ.account = some account ∧
    ∀ leaseId, lease = some leaseId → φ.taking = .taken leaseId sequence
  | _ => True

end Asker

def asking : Protocol sequenceSignature Asker where
  Allowed := Asker.Allows
  Moves := fun φ o r φ' => φ' = φ.next o r

section
variable {account : String} {φ : Asker}

theorem follows_ask {o : SeqOp} {Q : Except WalletError o.Reply → Asker → Prop} (ha : φ.Allows o)
    (hm : ∀ r, Q r (φ.next o r)) : Follows asking φ (seq o) Q := by
  apply follows_perform ha
  rintro r φ' rfl
  exact hm r

theorem follows_ask_bind {o : SeqOp} {β : Type} {f : o.Reply → SequenceM β} {Q : Except WalletError β → Asker → Prop}
    (ha : φ.Allows o) (herror : ∀ e, Q (.error e) (φ.next o (.error e)))
    (hok : ∀ reply, Follows asking (φ.next o (.ok reply)) (f reply) Q) : Follows asking φ (seq o >>= f) Q := by
  exact follows_bind (follows_ask ha (forall_except (fun e => herror e) fun reply => hok reply))

def Quiet : SeqOp → Prop
  | .setLock _ => True
  | .delLock _ => True
  | .sleep _ => True
  | .loadAccount _ => True
  | .lrem _ _ => True
  | .expire _ _ => True
  | .delList _ => True
  | .cursorKeys => True
  | .delCursors _ => True
  | .getCached _ => True
  | .setCached _ _ => True
  | .delCached _ => True
  | .monitor _ => True
  | _ => False

theorem follows_quiet {α : Type} {p : SequenceM α} (h : p.Only Quiet) : Follows asking φ p fun _ φ' => φ' = φ := by
  refine follows_of_only h ?_ ?_
  · intro o ho
    cases o with
    | lrange | setCursor | rpush | answer => exact absurd ho id
    | _ => trivial
  · rintro o r _ ho rfl
    cases o with
    | lrange | getCursor | setCursor | rpush | answer | now | generateLeaseId | asked => exact absurd ho id
    | _ => rfl

theorem quiet_acquireLock (tries : Nat) : (acquireLock account tries).Only Quiet := by
  induction tries with
  | zero => trivial
  | succ tries ih =>
    refine only_bind (only_perform trivial) fun acquired => ?_
    split
    · trivial
    · exact only_bind (only_perform trivial) fun _ => ih

theorem quiet_removeAll (reservations : List SequenceReservation) : (removeAll account reservations).Only Quiet := by
  induction reservations with
  | nil => trivial
  | cons r rest ih => exact only_bind (only_perform trivial) fun _ => ih

theorem quiet_resetCache : (resetCache account).Only Quiet := by
  refine only_bind (only_perform trivial) fun _ => only_bind (only_perform trivial) fun _ => ?_
  refine only_bind (only_perform trivial) fun cursorKeys => ?_
  split
  · exact only_perform trivial
  · exact only_bind (only_perform trivial) fun _ => only_perform trivial

theorem quiet_reset (next : NextSequence) : next.reset.Only Quiet := by
  unfold NextSequence.reset
  split
  · exact quiet_resetCache
  · refine only_bind ?_ fun _ => quiet_resetCache
    unfold releaseReservation
    simp only
    split
    · exact only_bind (only_perform trivial) fun _ => only_bind (only_perform trivial) fun _ => only_perform trivial
    · trivial

def Asker.Lists (account : String) (reservations : List SequenceReservation) (φ : Asker) : Prop :=
  φ.account = some account ∧ φ.listed = reservations

theorem follows_consume {reservations : List SequenceReservation} {reservation : SequenceReservation}
    (hφ : φ.Lists account reservations) (hmem : reservation ∈ reservations) :
    Follows asking φ (consume account reservation) fun r φ' => φ'.Lists account reservations ∧
      ∀ cursor, r = .ok (some cursor) → φ'.taking = .taken reservation.leaseId cursor := by
  obtain ⟨hacct, rfl⟩ := hφ
  refine follows_ask_bind trivial (fun e => ⟨⟨hacct, rfl⟩, nofun⟩) fun stored => ?_
  simp only
  split
  · refine follows_ask_bind trivial (fun e => ⟨⟨hacct, rfl⟩, nofun⟩) fun now => ?_
    refine follows_ask_bind ⟨account, reservation, stored, now, hacct, hmem, rfl, rfl, rfl, rfl⟩
      (fun e => ⟨⟨hacct, rfl⟩, nofun⟩) fun _ => ?_
    refine follows_ask_bind trivial (fun e => ⟨⟨hacct, rfl⟩, nofun⟩) fun _ => ?_
    refine ⟨⟨hacct, rfl⟩, ?_⟩
    rintro cursor ⟨⟩
    simp [Asker.next]
  · exact ⟨⟨hacct, rfl⟩, nofun⟩

theorem follows_consumeFirst {listed reservations : List SequenceReservation} {now : Int}
    (hφ : φ.Lists account listed) (hsub : ∀ r ∈ reservations, r ∈ listed) :
    Follows asking φ (consumeFirst account now reservations) fun r φ' => φ'.account = some account ∧
      ∀ cursor reservation, r = .ok (some (cursor, reservation)) → φ'.taking = .taken reservation.leaseId cursor := by
  induction reservations generalizing φ with
  | nil => exact ⟨hφ.1, nofun⟩
  | cons reservation rest ih =>
    have hrest : ∀ r ∈ rest, r ∈ listed := fun r hr => hsub r (mem_cons_of_mem _ hr)
    rw [consumeFirst]
    split
    · exact ih hφ hrest
    · apply follows_bind
      refine follows_attempt (follows_mono (follows_consume hφ (hsub _ mem_cons_self)) ?_)
      rintro outcome φ' ⟨hφ', htaken⟩
      cases outcome with
      | error e => exact ih hφ' hrest
      | ok found =>
        cases found with
        | none => exact ih hφ' hrest
        | some cursor =>
          refine ⟨hφ'.1, ?_⟩
          rintro _ _ ⟨⟩
          exact htaken cursor rfl

def Asker.Returns (account : String) : Except WalletError NextSequence → Asker → Prop
  | .ok next, φ => φ.account = some account ∧ ∀ r, next.reservation = some r → φ.taking = .taken r.leaseId next.sequence
  | .error _, _ => True

theorem follows_nextSequence (hφ : φ.account = some account) :
    Follows asking φ (nextSequence account) (Asker.Returns account) := by
  apply follows_bind
  refine follows_ask_bind trivial (fun _ => trivial) fun now => ?_
  refine follows_ask_bind (.inr hφ) (fun _ => trivial) fun reservations => ?_
  refine follows_mono (follows_consumeFirst ⟨hφ, rfl⟩ fun r hr => hr) ?_
  rintro outcome φ' ⟨hφ', htaken⟩
  cases outcome with
  | error e => trivial
  | ok found =>
    cases found with
    | none =>
      refine follows_ask_bind trivial (fun _ => trivial) fun ledgerSequence => ?_
      refine follows_ask_bind trivial (fun _ => trivial) fun cached => ?_
      cases cached with
      | none => exact follows_ask_bind trivial (fun _ => trivial) fun _ => ⟨hφ', nofun⟩
      | some cachedSequence => exact follows_ask_bind trivial (fun _ => trivial) fun _ => ⟨hφ', nofun⟩
    | some found =>
      obtain ⟨cursor, reservation⟩ := found
      have hquiet : (detectSequenceGap account reservation.firstSequence cursor).Only Quiet := by
        unfold detectSequenceGap
        split
        · exact only_perform trivial
        · trivial
      refine follows_bind (follows_mono (follows_quiet hquiet) (forall_except (fun _ _ rfl => trivial) ?_))
      rintro _ _ rfl
      refine ⟨hφ', ?_⟩
      rintro _ ⟨⟩
      exact htaken cursor reservation rfl

theorem follows_next (attempt : Nat) (refused : Bool) :
    Follows asking φ (SeqCall.next account attempt refused).body fun _ _ => True := by
  refine follows_ask_bind trivial (fun _ => trivial) fun _ => ?_
  have hreset : (resetOnRetry account attempt).Only Quiet := by
    unfold resetOnRetry
    split
    · exact quiet_resetCache
    · trivial
  apply follows_bind
  refine follows_mono (Q := Asker.Returns account) ?_ ?_
  · apply follows_bind
    refine follows_mono (follows_quiet hreset) ?_
    rintro result _ rfl
    cases result with
    | error e => trivial
    | ok _ => exact follows_nextSequence rfl
  · intro result φ' hreturns
    cases result with
    | error e => trivial
    | ok next =>
      refine follows_ask_bind ⟨hreturns.1, ?_⟩ (fun _ => trivial) fun _ => ?_
      · intro leaseId hlease
        obtain ⟨r, hr, rfl⟩ := Option.map_eq_some_iff.mp hlease
        exact hreturns.2 r hr
      · split
        · exact follows_mono (follows_quiet (quiet_reset next)) fun _ _ _ => trivial
        · trivial

theorem follows_lease_reserveLocked (hφ : φ.account = none) (size : Int) :
    Follows asking φ (reserveLocked account size) fun _ _ => True := by
  refine follows_ask_bind trivial (fun _ => trivial) fun _ => ?_
  refine follows_ask_bind trivial (fun _ => trivial) fun ledgerSequence => ?_
  refine follows_andThen (I := fun _ => True) ?_ ?_
  · refine follows_ask_bind (.inl hφ) (fun _ => trivial) fun reservations => ?_
    refine follows_ask_bind trivial (fun _ => trivial) fun now => ?_
    exact follows_andThen (I := fun _ => True) (follows_mono (follows_quiet (quiet_removeAll _)) fun _ _ _ => trivial)
      fun _ _ _ => trivial
  · intro activeReservations φ' _
    refine follows_ask_bind trivial (fun _ => trivial) fun leaseId => ?_
    refine follows_ask_bind trivial (fun _ => trivial) fun now => ?_
    refine follows_ask_bind ⟨rfl, rfl⟩ (fun _ => trivial) fun _ => ?_
    refine follows_ask_bind trivial (fun _ => trivial) fun _ => ?_
    exact follows_ask_bind trivial (fun _ => trivial) fun _ => trivial

theorem follows_reserve (hφ : φ.account = none) (size : Int) :
    Follows asking φ (SeqCall.reserve account size).body fun _ _ => True := by
  refine follows_andThen (I := fun _ => True) ?_ fun _ _ _ => trivial
  refine follows_bind (follows_mono (follows_quiet (quiet_acquireLock 20)) (forall_except (fun _ _ rfl => trivial) ?_))
  rintro lockAcquired _ rfl
  simp only [Then]
  split
  · refine follows_andThen (I := fun _ => True) (follows_attempt (follows_lease_reserveLocked hφ size)) ?_
    intro outcome φ' _
    refine follows_ask_bind trivial (fun _ => trivial) fun _ => ?_
    refine follows_ask_bind trivial (fun _ => trivial) fun _ => ?_
    cases outcome with
    | ok reservation => trivial
    | error e => trivial
  · exact follows_ask_bind trivial (fun _ => trivial) fun _ => trivial

theorem follows_call (c : SeqCall) : Follows asking {} c.body fun _ φ' => asking.Ends φ' := by
  cases c with
  | reserve account size => exact follows_reserve rfl size
  | next account attempt refused => exact follows_next attempt refused

end

/-- The reservations and the calls that deal with them. -/
structure Kept (w : SequenceState) (tr : SequenceTrace) (φ : Nat → Asker) : Prop where
  distinct : ∀ r ∈ w.made, ∀ r' ∈ w.made, r.leaseId = r'.leaseId → r = r'
  drawn : ∀ r ∈ w.made, r.leaseId < w.drawn
  leased : ∀ i leaseId, (φ i).lease = some leaseId → leaseId < w.drawn ∧ ∀ r ∈ w.made, r.leaseId ≠ leaseId
  apart : ∀ i j leaseId, (φ i).lease = some leaseId → (φ j).lease = some leaseId → i = j
  lists : ∀ account, ∀ r ∈ w.lists account, r ∈ w.made ∧ r.account = account
  listed : ∀ i account, (φ i).account = some account → ∀ r ∈ (φ i).listed, r ∈ w.made ∧ r.account = account
  asked : ∀ i account, (φ i).account = some account → ∃ e ∈ tr, e.runner = i ∧ e.op = .asked account

section
variable {w w' : SequenceState} {tr : SequenceTrace} {φ : Nat → Asker} {i : Nat} {o : SeqOp}
  {r : sequenceSignature.Result o} {φ' : Asker}

theorem Kept.still (h : Kept w tr φ) (hmade : w'.made = w.made) (hdrawn : w'.drawn = w.drawn)
    (hlists : ∀ account, ∀ reservation ∈ w'.lists account, reservation ∈ w.lists account)
    (hlease : ∀ leaseId, φ'.lease = some leaseId → (φ i).lease = some leaseId)
    (hlisted : ∀ account, φ'.account = some account →
      ∀ reservation ∈ φ'.listed, reservation ∈ w.made ∧ reservation.account = account)
    (hasked : ∀ account, φ'.account = some account → (φ i).account = some account ∨ o = .asked account) :
    Kept w' (⟨i, o, r⟩ :: tr) (update φ i φ') := by
  have hlease' : ∀ j leaseId, (update φ i φ' j).lease = some leaseId → (φ j).lease = some leaseId := by
    intro j leaseId hj
    by_cases hji : j = i
    · subst hji
      rw [update_self] at hj
      exact hlease leaseId hj
    · rw [update_of_ne hji] at hj
      exact hj
  refine ⟨?_, ?_, ?_, ?_, ?_, ?_, ?_⟩
  · rw [hmade]
    exact h.distinct
  · rw [hmade, hdrawn]
    exact h.drawn
  · rw [hmade, hdrawn]
    exact fun j leaseId hj => h.leased j leaseId (hlease' j leaseId hj)
  · exact fun j j' leaseId hj hj' => h.apart j j' leaseId (hlease' j leaseId hj) (hlease' j' leaseId hj')
  · rw [hmade]
    exact fun account reservation hr => h.lists account reservation (hlists account reservation hr)
  · rw [hmade]
    intro j account hj
    by_cases hji : j = i
    · subst hji
      rw [update_self] at hj ⊢
      exact hlisted account hj
    · rw [update_of_ne hji] at hj ⊢
      exact h.listed j account hj
  · intro j account hj
    by_cases hji : j = i
    · subst hji
      rw [update_self] at hj
      rcases hasked account hj with hpre | rfl
      · obtain ⟨e, he, hrun, hop⟩ := h.asked j account hpre
        exact ⟨e, mem_cons_of_mem _ he, hrun, hop⟩
      · exact ⟨_, mem_cons_self, rfl, rfl⟩
    · rw [update_of_ne hji] at hj
      obtain ⟨e, he, hrun, hop⟩ := h.asked j account hj
      exact ⟨e, mem_cons_of_mem _ he, hrun, hop⟩

variable {reservation : SequenceReservation}
  {account : String}

theorem mem_lists_of_mem_list (h : reservation ∈ w.list account) : reservation ∈ w.lists account := by
  unfold SequenceState.list at h
  split at h
  · cases h
  · exact h

theorem mem_lists_setList {account account' : String} {reservations : List SequenceReservation} {ends : Option Int}
    (h : reservation ∈ (w.setList account' reservations ends).lists account) :
    reservation ∈ w.lists account ∨ account = account' ∧ reservation ∈ reservations := by
  by_cases hacct : account = account'
  · subst hacct
    have hlists : (w.setList account reservations ends).lists account = reservations := update_self ..
    rw [hlists] at h
    exact .inr ⟨rfl, h⟩
  · have hlists : (w.setList account' reservations ends).lists account = w.lists account :=
      update_of_ne hacct ..
    rw [hlists] at h
    exact .inl h

theorem mem_lists_answer (h : reservation ∈ (answerSeq o w).2.lists account) :
    reservation ∈ w.lists account ∨ o = .rpush account reservation := by
  cases o with
  | lrem account' removed =>
    left
    rcases mem_lists_setList h with h | ⟨rfl, h⟩
    · exact h
    · exact mem_lists_of_mem_list (mem_filter.mp h).1
  | rpush account' stored =>
    have hstore : reservation ∈ (w.setList account' (w.list account' ++ [stored]) (w.deadline account')).lists account := h
    rcases mem_lists_setList hstore with h | ⟨rfl, h⟩
    · exact .inl h
    · rcases mem_append.mp h with h | h
      · exact .inl (mem_lists_of_mem_list h)
      · rw [mem_singleton.mp h]
        exact .inr rfl
  | expire account' seconds =>
    left
    simp only [answerSeq] at h
    split at h
    · exact h
    · rcases mem_lists_setList h with h | ⟨rfl, h⟩
      · exact h
      · exact mem_lists_of_mem_list h
  | delList account' =>
    have hdeleted : reservation ∈ (w.setList account' [] none).lists account := h
    rcases mem_lists_setList hdeleted with h | ⟨-, h⟩
    · exact .inl h
    · cases h
  | setLock account' =>
    left
    simp only [answerSeq] at h
    split at h
    · exact h
    · exact h
  | _ => exact .inl h

theorem performSeq_local (h : o.local = true) (ch : SeqChoice) (w : SequenceState) :
    performSeq o ch w = (.ok (answerSeq o w).1, (answerSeq o w).2) := by
  have href : o.refused = false := by
    cases o with
    | setCursor leaseId cursor px => cases h
    | _ => rfl
  simp [performSeq, href, h, carryOut, Fate.carry]

variable {ch : SeqChoice}

theorem Kept.draw {r : sequenceSignature.Result .generateLeaseId} (h : Kept w tr φ) :
    Kept { w with drawn := w.drawn + 1 } (⟨i, .generateLeaseId, r⟩ :: tr)
      (update φ i { φ i with lease := some w.drawn }) := by
  have hkept : ∀ j, j ≠ i → update φ i { φ i with lease := some w.drawn } j = φ j :=
    fun j hji => update_of_ne hji ..
  refine ⟨h.distinct, ?_, ?_, ?_, h.lists, ?_, ?_⟩
  · intro reservation hr
    exact Nat.lt_succ_of_lt (h.drawn reservation hr)
  · intro j leaseId hj
    by_cases hji : j = i
    · subst hji
      rw [update_self] at hj
      cases hj
      exact ⟨Nat.lt_succ_self _, fun reservation hr => Nat.ne_of_lt (h.drawn reservation hr)⟩
    · rw [hkept j hji] at hj
      exact ⟨Nat.lt_succ_of_lt (h.leased j leaseId hj).1, (h.leased j leaseId hj).2⟩
  · have hfresh : ∀ j, j ≠ i → (φ j).lease ≠ some w.drawn :=
      fun j _ hj => absurd (h.leased j w.drawn hj).1 (Nat.lt_irrefl _)
    intro j j' leaseId hj hj'
    by_cases hji : j = i
    · by_cases hji' : j' = i
      · rw [hji, hji']
      · subst hji
        rw [update_self] at hj
        rw [hkept j' hji'] at hj'
        cases hj
        exact absurd hj' (hfresh j' hji')
    · rw [hkept j hji] at hj
      by_cases hji' : j' = i
      · subst hji'
        rw [update_self] at hj'
        cases hj'
        exact absurd hj (hfresh j hji)
      · rw [hkept j' hji'] at hj'
        exact h.apart j j' leaseId hj hj'
  · intro j account hj
    by_cases hji : j = i
    · subst hji
      rw [update_self] at hj ⊢
      exact h.listed j account hj
    · rw [hkept j hji] at hj ⊢
      exact h.listed j account hj
  · intro j account hj
    have hpre : (φ j).account = some account := by
      by_cases hji : j = i
      · subst hji
        rw [update_self] at hj
        exact hj
      · rwa [hkept j hji] at hj
    obtain ⟨e, he, hrun, hop⟩ := h.asked j account hpre
    exact ⟨e, mem_cons_of_mem _ he, hrun, hop⟩

theorem Kept.store {r : sequenceSignature.Result (.rpush account reservation)} (h : Kept w tr φ)
    (hlease : (φ i).lease = some reservation.leaseId) (hacct : reservation.account = account) :
    Kept (answerSeq (.rpush account reservation) w).2 (⟨i, .rpush account reservation, r⟩ :: tr)
      (update φ i { φ i with lease := none }) := by
  obtain ⟨hdrawn, hnew⟩ := h.leased i _ hlease
  have hlease' : ∀ j leaseId, (update φ i { φ i with lease := none } j).lease = some leaseId →
      j ≠ i ∧ (φ j).lease = some leaseId := by
    intro j leaseId hj
    by_cases hji : j = i
    · subst hji
      simp [update_self] at hj
    · rw [update_of_ne hji] at hj
      exact ⟨hji, hj⟩
  have hmade : (answerSeq (.rpush account reservation) w).2.made = reservation :: w.made := rfl
  have hsame : ∀ j, (update φ i { φ i with lease := none } j).account = (φ j).account ∧
      (update φ i { φ i with lease := none } j).listed = (φ j).listed := by
    intro j
    by_cases hji : j = i
    · subst hji
      simp
    · simp [hji]
  refine ⟨?_, ?_, ?_, ?_, ?_, ?_, ?_⟩
  · rw [hmade]
    intro x hx y hy hxy
    rcases mem_cons.mp hx with rfl | hx'
    · rcases mem_cons.mp hy with rfl | hy'
      · rfl
      · exact absurd hxy.symm (hnew y hy')
    · rcases mem_cons.mp hy with rfl | hy'
      · exact absurd hxy (hnew x hx')
      · exact h.distinct x hx' y hy' hxy
  · rw [hmade]
    intro x hx
    rcases mem_cons.mp hx with rfl | hx
    · exact hdrawn
    · exact h.drawn x hx
  · rw [hmade]
    intro j leaseId hj
    obtain ⟨hji, hj⟩ := hlease' j leaseId hj
    refine ⟨(h.leased j leaseId hj).1, ?_⟩
    intro x hx
    rcases mem_cons.mp hx with rfl | hx
    · intro heq
      exact hji (h.apart j i leaseId hj (heq ▸ hlease))
    · exact (h.leased j leaseId hj).2 x hx
  · intro j j' leaseId hj hj'
    exact h.apart j j' leaseId (hlease' j leaseId hj).2 (hlease' j' leaseId hj').2
  · rw [hmade]
    intro account' x hx
    rcases mem_lists_answer hx with hx | hpush
    · obtain ⟨hmem, hx⟩ := h.lists account' x hx
      exact ⟨mem_cons_of_mem _ hmem, hx⟩
    · cases hpush
      exact ⟨mem_cons_self, hacct⟩
  · rw [hmade]
    intro j account' hj x hx
    rw [(hsame j).1] at hj
    rw [(hsame j).2] at hx
    obtain ⟨hmem, hx⟩ := h.listed j account' hj x hx
    exact ⟨mem_cons_of_mem _ hmem, hx⟩
  · intro j account' hj
    rw [(hsame j).1] at hj
    obtain ⟨e, he, hrun, hop⟩ := h.asked j account' hj
    exact ⟨e, mem_cons_of_mem _ he, hrun, hop⟩

theorem lease_next {φ : Asker} {leaseId : Nat} (ho : o ≠ .generateLeaseId)
    (h : (φ.next o r).lease = some leaseId) : φ.lease = some leaseId := by
  cases o with
  | generateLeaseId => exact absurd rfl ho
  | rpush account reservation => cases h
  | asked | lrange | getCursor | now | setCursor | answer =>
    cases r with
    | ok reply => exact h
    | error e => exact h
  | _ => exact h

theorem account_next {φ : Asker} (h : (φ.next o r).account = some account) :
    φ.account = some account ∨ o = .asked account := by
  cases o with
  | asked account' =>
    cases r with
    | ok _ =>
      cases h
      exact .inr rfl
    | error e => exact .inl h
  | generateLeaseId | lrange | getCursor | now | setCursor | answer =>
    cases r with
    | ok reply => exact .inl h
    | error e => exact .inl h
  | _ => exact .inl h

theorem listed_next {φ : Asker} (ha : φ.Allows o)
    (hacct : (φ.next o (performSeq o ch w).1).account = some account)
    (h : reservation ∈ (φ.next o (performSeq o ch w).1).listed) :
    φ.account = some account ∧ reservation ∈ φ.listed ∨ reservation ∈ w.list account := by
  cases hr : (performSeq o ch w).1 with
  | error e =>
    rw [hr] at hacct h
    cases o with
    | _ => exact .inl ⟨hacct, h⟩
  | ok reply =>
    rw [hr] at hacct h
    cases o with
    | asked account' => cases h
    | lrange account' =>
      have hsame : φ.account = some account := hacct
      have hlist : reply = w.list account' := (performSeq_ok hr).1
      subst hlist
      rcases ha with hnone | hsome
      · simp [hnone] at hsame
      · rw [hsome] at hsame
        cases hsame
        exact .inr h
    | _ => exact .inl ⟨hacct, h⟩

theorem Kept.step (h : Kept w tr φ) (ha : (φ i).Allows o) :
    Kept (performSeq o ch w).2 (⟨i, o, (performSeq o ch w).1⟩ :: tr)
      (update φ i ((φ i).next o (performSeq o ch w).1)) := by
  by_cases hdraw : o = .generateLeaseId
  · subst hdraw
    rw [performSeq_local rfl]
    exact h.draw
  · have hdrawn : (performSeq o ch w).2.drawn = w.drawn := by
      rcases performSeq_world o ch w with hw | hw
      · rw [hw]
      · rw [hw, (steady_answer o w).drawn hdraw]
    by_cases hpush : ∃ account reservation, o = .rpush account reservation
    · obtain ⟨account, reservation, rfl⟩ := hpush
      rcases performSeq_world (.rpush account reservation) ch w with hw | hw
      · rw [hw]
        refine h.still rfl rfl (fun _ _ hr => hr) nofun ?_ fun account' hj => .inl hj
        exact fun account' hj => h.listed i account' hj
      · rw [hw]
        exact h.store ha.1 ha.2
    · have hnot : ∀ account reservation, o ≠ .rpush account reservation :=
        fun account reservation ho => hpush ⟨account, reservation, ho⟩
      have hmade : (performSeq o ch w).2.made = w.made := by
        rcases performSeq_world o ch w with hw | hw
        · rw [hw]
        · rw [hw]
          rcases made_answer w o with hmade | ⟨account, reservation, ho, -⟩
          · exact hmade
          · exact absurd ho (hnot account reservation)
      have hlists : ∀ account, ∀ reservation ∈ (performSeq o ch w).2.lists account,
          reservation ∈ w.lists account := by
        intro account reservation hr
        rcases performSeq_world o ch w with hw | hw
        · rwa [hw] at hr
        · rw [hw] at hr
          rcases mem_lists_answer hr with hr | ho
          · exact hr
          · exact absurd ho (hnot account reservation)
      refine h.still hmade hdrawn hlists ?_ ?_ ?_
      · exact fun leaseId hlease => lease_next hdraw hlease
      · intro account hacct reservation hr
        rcases listed_next ha hacct hr with ⟨hpre, hlisted⟩ | hlist
        · exact h.listed i account hpre reservation hlisted
        · exact h.lists account reservation (mem_lists_of_mem_list hlist)
      · exact fun account hacct => account_next hacct

end

theorem kept_inductive {guard : SequencePool → Action sequences → Prop} : Inductive sequences asking {} guard Kept where
  body := fun _ c _ => follows_call c
  arrive := by
    rintro p φ c w - ht ⟨⟩
    exact ht.holds
  drift := by
    intro p φ e _ ht
    have h := ht.holds
    cases e with
    | tick ms => exact ⟨h.distinct, h.drawn, h.leased, h.apart, h.lists, h.listed, h.asked⟩
    | advance account => exact ⟨h.distinct, h.drawn, h.leased, h.apart, h.lists, h.listed, h.asked⟩
  answers := fun p φ i o ch _ _ _ _ => ⟨_, rfl⟩
  step := by
    rintro p φ i o ch _ _ _ ht ha rfl
    exact ht.holds.step ha

end Delego.Wallet
