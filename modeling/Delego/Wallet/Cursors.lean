import Delego.Wallet.Carried
import Delego.Wallet.Leases

/-! A reset of one account and the reservations of another.

The cursor of a reservation is kept under its lease, which does not say whose it is. A reset deletes the list of its
account, and every cursor there is: the blocks of all accounts start anew, and their numbers are handed out a second
time (`number_handed_out_twice`).

A reset leaves another account alone if and only if no reservation of it has a cursor (`untouched_iff`). -/
namespace Delego.Wallet
open Delego.Process List Option Function

/-- What there is of account `b` is as it was. -/
structure Untouched (b : String) (w w' : SequenceState) : Prop where
  list : w'.list b = w.list b
  cursors : ∀ r ∈ w.list b, w'.cursor r.leaseId = w.cursor r.leaseId
  cached : w'.cachedSequence b = w.cachedSequence b

section
variable {w : SequenceState} {a b : String}

theorem lookup_delCursors (w : SequenceState) (leaseIds : List Nat) (leaseId : Nat) :
    (w.delCursors leaseIds).cursors.lookup leaseId =
      if leaseId ∈ leaseIds then none else w.cursors.lookup leaseId := by
  induction leaseIds generalizing w with
  | nil => rfl
  | cons first rest ih =>
    have hrest := ih { w with cursors := w.cursors.erase first }
    have hsame : (w.delCursors (first :: rest)).cursors =
        (({ w with cursors := w.cursors.erase first } : SequenceState).delCursors rest).cursors := rfl
    rw [hsame, hrest]
    by_cases hfirst : leaseId = first
    · subst hfirst
      simp
    · simp [hfirst, AList.lookup_erase_ne hfirst]

end

/-! ### Numbers that were handed out -/

/-- The number of the lease is handed out to a call for account `b`. -/
def Answered (b : String) (leaseId : Nat) (tr : SequenceTrace) (n : Int) : Prop :=
  ∃ e ∈ tr, e.op = .answer b n (some leaseId)

/-- A number is asked for account `b`. -/
def asksFor (b : String) : SeqOp → Bool
  | .asked account => decide (account = b)
  | _ => false

/-- No cursor is deleted of a reservation of account `b` that has not expired. -/
def sparing (b : String) (p : SequencePool) (_ : Nat) (o : SeqOp) (_ : SeqChoice) : Bool :=
  match o with
  | .delCursors leaseIds => p.world.made.all fun r =>
    decide (r.account ≠ b) || decide (r.expiresAt ≤ p.world.clock) || decide (r.leaseId ∉ leaseIds) ||
      (p.world.cursor r.leaseId).isNone
  | _ => true

/-- Numbers of account `b` are asked for one after another, and its cursors are spared. -/
def undisturbed (b : String) (p : SequencePool) (act : Action sequences) : Bool :=
  onStep (entersInTurn (asksFor b)) p act && onStep (sparing b) p act

def Beyond (w : SequenceState) (r : SequenceReservation) (n : Int) : Prop :=
  r.expiresAt ≤ w.clock ∨ ∃ cursor ends, w.cursors.lookup r.leaseId = some (cursor, ends) ∧ n < cursor ∧ r.expiresAt ≤ ends

/-- What a call has read of the reservation lies above what was handed out of it. -/
def Fits (b : String) (w : SequenceState) (tr : SequenceTrace) (r : SequenceReservation) : Taking → Prop
  | .nothing => True
  | .read leaseId stored => leaseId = r.leaseId → r.expiresAt ≤ w.clock ∨
    ∀ n, Answered b leaseId tr n → ∃ cursor, stored = some cursor ∧ n < cursor
  | .timed leaseId stored now => leaseId = r.leaseId → r.expiresAt ≤ now ∨
    ∀ n, Answered b leaseId tr n → ∃ cursor, stored = some cursor ∧ n < cursor
  | .taken leaseId n => leaseId = r.leaseId → (∀ m, Answered b leaseId tr m → m < n) ∧ Beyond w r n

/-- The numbers of account `b`: each cursor is above what was handed out, and so is the call that asks now. -/
structure Handed (b : String) (w : SequenceState) (tr : SequenceTrace) (φ : Nat → Asker) : Prop where
  known : ∀ leaseId n, Answered b leaseId tr n → ∃ r ∈ w.made, r.leaseId = leaseId
  taken : ∀ i leaseId n, (φ i).taking = .taken leaseId n →
    ∃ r ∈ w.made, r.leaseId = leaseId ∧ (φ i).account = some r.account
  time : ∀ i leaseId stored now, (φ i).taking = .timed leaseId stored now → now ≤ w.clock
  beyond : ∀ r ∈ w.made, r.account = b → ∀ n, Answered b r.leaseId tr n → Beyond w r n
  current : ∀ i, latest (asksFor b) tr = some i → ∀ r ∈ w.made, r.account = b → Fits b w tr r (φ i).taking
  once : ∀ leaseId n, tr.countP (fun e => decide (e.op = .answer b n (some leaseId))) ≤ 1

section
variable {b : String} {w w' : SequenceState} {tr : SequenceTrace} {φ : Nat → Asker} {i : Nat} {o : SeqOp}
  {r : sequenceSignature.Result o} {φ' : Asker}

variable {n : Int} {leaseId : Nat}

theorem answered_cons (h : ∀ n leaseId, o ≠ .answer b n (some leaseId)) :
    Answered b leaseId (⟨i, o, r⟩ :: tr) n ↔ Answered b leaseId tr n := by
  constructor
  · rintro ⟨e, he, hop⟩
    rcases mem_cons.mp he with rfl | he
    · exact absurd hop (h n leaseId)
    · exact ⟨e, he, hop⟩
  · rintro ⟨e, he, hop⟩
    exact ⟨e, mem_cons_of_mem _ he, hop⟩

theorem cursor_of_lookup {cursor ends : Int} (h : w.cursors.lookup leaseId = some (cursor, ends))
    (hlive : w.clock < ends) : w.cursor leaseId = some cursor := by
  simp [SequenceState.cursor, h, hlive]

variable {reservation : SequenceReservation}

theorem Beyond.mono (h : Beyond w reservation n) (hclock : w.clock ≤ w'.clock)
    (hcursors : ∀ cursor ends, w.cursors.lookup reservation.leaseId = some (cursor, ends) →
      reservation.expiresAt ≤ ends → reservation.expiresAt ≤ w'.clock ∨
        w'.cursors.lookup reservation.leaseId = some (cursor, ends)) : Beyond w' reservation n := by
  rcases h with hexp | ⟨cursor, ends, hlook, hlt, hends⟩
  · exact .inl (Int.le_trans hexp hclock)
  · rcases hcursors cursor ends hlook hends with hexp | hlook'
    · exact .inl hexp
    · exact .inr ⟨cursor, ends, hlook', hlt, hends⟩

theorem Fits.mono {tr' : SequenceTrace} {taking : Taking} (h : Fits b w tr reservation taking)
    (hclock : w.clock ≤ w'.clock) (htrace : ∀ leaseId n, Answered b leaseId tr' n → Answered b leaseId tr n)
    (hbeyond : ∀ n, Beyond w reservation n → Beyond w' reservation n) : Fits b w' tr' reservation taking := by
  cases taking with
  | nothing => trivial
  | read leaseId stored =>
    intro hlease
    rcases h hlease with hexp | hbelow
    · exact .inl (Int.le_trans hexp hclock)
    · exact .inr fun n hn => hbelow n (htrace leaseId n hn)
  | timed leaseId stored now =>
    intro hlease
    rcases h hlease with hexp | hbelow
    · exact .inl hexp
    · exact .inr fun n hn => hbelow n (htrace leaseId n hn)
  | taken leaseId n =>
    intro hlease
    obtain ⟨hbelow, hbeyond'⟩ := h hlease
    exact ⟨fun m hm => hbelow m (htrace leaseId m hm), hbeyond n hbeyond'⟩

theorem Handed.still (h : Handed b w tr φ) (hmade : w'.made = w.made) (hclock : w'.clock = w.clock)
    (hans : ∀ n leaseId, o ≠ .answer b n (some leaseId)) (hasks : asksFor b o = false)
    (hbeyond : ∀ reservation ∈ w.made, reservation.account = b → ∀ n,
      Answered b reservation.leaseId tr n ∨ latest (asksFor b) tr ≠ some i → Beyond w reservation n → Beyond w' reservation n)
    (htaken : ∀ leaseId n, φ'.taking = .taken leaseId n →
      ∃ reservation ∈ w.made, reservation.leaseId = leaseId ∧ φ'.account = some reservation.account)
    (htime : ∀ leaseId stored now, φ'.taking = .timed leaseId stored now → now ≤ w.clock)
    (hfits : latest (asksFor b) tr = some i → ∀ reservation ∈ w.made, reservation.account = b →
      Fits b w' tr reservation φ'.taking) :
    Handed b w' (⟨i, o, r⟩ :: tr) (update φ i φ') := by
  have hlat : latest (asksFor b) (⟨i, o, r⟩ :: tr) = latest (asksFor b) tr := by
    rw [latest_cons]
    simp [hasks]
  refine ⟨?_, ?_, ?_, ?_, ?_, ?_⟩
  · intro leaseId n hn
    rw [hmade]
    exact h.known leaseId n ((answered_cons hans).mp hn)
  · intro j leaseId n hj
    rw [hmade]
    by_cases hji : j = i
    · subst hji
      rw [update_self] at hj ⊢
      exact htaken leaseId n hj
    · rw [update_of_ne hji] at hj ⊢
      exact h.taken j leaseId n hj
  · intro j leaseId stored now hj
    rw [hclock]
    by_cases hji : j = i
    · subst hji
      rw [update_self] at hj
      exact htime leaseId stored now hj
    · rw [update_of_ne hji] at hj
      exact h.time j leaseId stored now hj
  · rw [hmade]
    intro reservation hr hb n hn
    have hn' := (answered_cons hans).mp hn
    exact hbeyond reservation hr hb n (.inl hn') (h.beyond reservation hr hb n hn')
  · rw [hmade, hlat]
    intro j hj reservation hr hb
    by_cases hji : j = i
    · subst hji
      rw [update_self]
      exact (hfits hj reservation hr hb).mono (Int.le_refl _) (fun _ _ hn => (answered_cons hans).mp hn) fun _ hn => hn
    · rw [update_of_ne hji]
      refine (h.current j hj reservation hr hb).mono (Int.le_of_eq hclock.symm)
        (fun _ _ hn => (answered_cons hans).mp hn) ?_
      intro n hn
      refine hbeyond reservation hr hb n (.inr ?_) hn
      rw [hj]
      exact fun heq => hji (some.inj heq)
  · intro leaseId n
    rw [countP_cons_of_neg (by simpa using hans n leaseId)]
    exact h.once leaseId n

theorem Handed.enter {r : sequenceSignature.Result (.asked b)} (h : Handed b w tr φ) (hnothing : φ'.taking = .nothing) :
    Handed b w (⟨i, .asked b, r⟩ :: tr) (update φ i φ') := by
  have hans : ∀ n leaseId, SeqOp.asked b ≠ .answer b n (some leaseId) := nofun
  refine ⟨?_, ?_, ?_, ?_, ?_, ?_⟩
  · exact fun leaseId n hn => h.known leaseId n ((answered_cons hans).mp hn)
  · intro j leaseId n hj
    by_cases hji : j = i
    · subst hji
      simp [update_self, hnothing] at hj
    · rw [update_of_ne hji] at hj ⊢
      exact h.taken j leaseId n hj
  · intro j leaseId stored now hj
    by_cases hji : j = i
    · subst hji
      simp [update_self, hnothing] at hj
    · rw [update_of_ne hji] at hj
      exact h.time j leaseId stored now hj
  · exact fun reservation hr hb n hn => h.beyond reservation hr hb n ((answered_cons hans).mp hn)
  · intro j hj reservation _ _
    have hji : j = i := by
      rw [latest_cons] at hj
      simpa [asksFor] using hj.symm
    rw [hji, update_self, hnothing]
    trivial
  · intro leaseId n
    rw [countP_cons_of_neg (by simp)]
    exact h.once leaseId n

theorem Handed.answer {r : sequenceSignature.Result (.answer b n (some leaseId))} (h : Handed b w tr φ)
    (hacct : (φ i).account = some b) (htaken : (φ i).taking = .taken leaseId n)
    (hlat : latest (asksFor b) tr = some i) (hnothing : φ'.taking = .nothing) :
    Handed b w (⟨i, .answer b n (some leaseId), r⟩ :: tr) (update φ i φ') := by
  obtain ⟨reservation, hr, rfl, hresv⟩ := h.taken i leaseId n htaken
  have hb : reservation.account = b := by
    rw [hacct] at hresv
    exact (some.inj hresv).symm
  have hfits := h.current i hlat reservation hr hb
  rw [htaken] at hfits
  obtain ⟨hbelow, hbeyond⟩ := hfits rfl
  have hcases : ∀ leaseId' m, Answered b leaseId' (⟨i, .answer b n (some reservation.leaseId), r⟩ :: tr) m →
      leaseId' = reservation.leaseId ∧ m = n ∨ Answered b leaseId' tr m := by
    rintro leaseId' m ⟨e, he, hop⟩
    rcases mem_cons.mp he with rfl | he
    · cases hop
      exact .inl ⟨rfl, rfl⟩
    · exact .inr ⟨e, he, hop⟩
  refine ⟨?_, ?_, ?_, ?_, ?_, ?_⟩
  · intro leaseId' m hm
    rcases hcases leaseId' m hm with ⟨rfl, -⟩ | hm
    · exact ⟨reservation, hr, rfl⟩
    · exact h.known leaseId' m hm
  · intro j leaseId' m hj
    by_cases hji : j = i
    · subst hji
      simp [update_self, hnothing] at hj
    · rw [update_of_ne hji] at hj ⊢
      exact h.taken j leaseId' m hj
  · intro j leaseId' stored now hj
    by_cases hji : j = i
    · subst hji
      simp [update_self, hnothing] at hj
    · rw [update_of_ne hji] at hj
      exact h.time j leaseId' stored now hj
  · intro reservation' hr' hb' m hm
    rcases hcases _ m hm with ⟨hlease, rfl⟩ | hm
    · have hfits' := h.current i hlat reservation' hr' hb'
      rw [htaken] at hfits'
      exact (hfits' hlease.symm).2
    · exact h.beyond reservation' hr' hb' m hm
  · intro j hj reservation' _ _
    have hji : j = i := by
      rw [latest_cons, hlat] at hj
      simpa [asksFor] using hj.symm
    rw [hji, update_self, hnothing]
    trivial
  · intro leaseId' m
    by_cases hsame : leaseId' = reservation.leaseId ∧ m = n
    · obtain ⟨rfl, rfl⟩ := hsame
      have hnone : tr.countP (fun e => decide (e.op = .answer b m (some reservation.leaseId))) = 0 := by
        rw [countP_eq_zero]
        intro e he hop
        exact absurd (hbelow m ⟨e, he, of_decide_eq_true hop⟩) (Int.lt_irrefl m)
      rw [countP_cons_of_pos (by simp), hnone]
    · rw [countP_cons_of_neg ?_]
      · exact h.once leaseId' m
      · simp only [SeqOp.answer.injEq, some.injEq, true_and, decide_eq_true_eq]
        exact fun heq => hsame ⟨heq.2.symm, heq.1.symm⟩

theorem Handed.store {account : String} {r : sequenceSignature.Result (.rpush account reservation)}
    (h : Handed b w tr φ) (hnew : ∀ old ∈ w.made, old.leaseId ≠ reservation.leaseId) (hsame : φ'.taking = (φ i).taking)
    (hacct : φ'.account = (φ i).account) :
    Handed b (answerSeq (.rpush account reservation) w).2 (⟨i, .rpush account reservation, r⟩ :: tr)
      (update φ i φ') := by
  have hans : ∀ n leaseId, SeqOp.rpush account reservation ≠ .answer b n (some leaseId) := nofun
  have hmade : (answerSeq (.rpush account reservation) w).2.made = reservation :: w.made := rfl
  have hphase : ∀ j, (update φ i φ' j).taking = (φ j).taking ∧
      (update φ i φ' j).account = (φ j).account := by
    intro j
    by_cases hji : j = i
    · subst hji
      rw [update_self]
      exact ⟨hsame, hacct⟩
    · rw [update_of_ne hji]
      exact ⟨rfl, rfl⟩
  have hnone : ∀ n, ¬Answered b reservation.leaseId tr n := by
    intro n hn
    obtain ⟨old, hold, heq⟩ := h.known _ n hn
    exact hnew old hold heq
  have hkept : ∀ old n, Beyond w old n → Beyond (answerSeq (.rpush account reservation) w).2 old n :=
    fun old n hbeyond => hbeyond
  refine ⟨?_, ?_, ?_, ?_, ?_, ?_⟩
  · intro leaseId n hn
    obtain ⟨old, hold, heq⟩ := h.known leaseId n ((answered_cons hans).mp hn)
    exact ⟨old, mem_cons_of_mem _ hold, heq⟩
  · intro j leaseId n hj
    rw [(hphase j).1] at hj
    obtain ⟨old, hold, heq, hj'⟩ := h.taken j leaseId n hj
    exact ⟨old, mem_cons_of_mem _ hold, heq, (hphase j).2.trans hj'⟩
  · intro j leaseId stored now hj
    rw [(hphase j).1] at hj
    exact h.time j leaseId stored now hj
  · intro x hx hb n hn
    have hn' := (answered_cons hans).mp hn
    rcases mem_cons.mp hx with rfl | hx
    · exact absurd hn' (hnone n)
    · exact hkept x n (h.beyond x hx hb n hn')
  · intro j hj x hx hb
    rw [(hphase j).1]
    have hj' : latest (asksFor b) tr = some j := by
      rw [latest_cons] at hj
      simpa [asksFor] using hj
    rcases mem_cons.mp hx with rfl | hx
    · cases htaking : (φ j).taking with
      | nothing => trivial
      | read leaseId stored =>
        rintro rfl
        exact .inr fun n hn => absurd ((answered_cons hans).mp hn) (hnone n)
      | timed leaseId stored now =>
        rintro rfl
        exact .inr fun n hn => absurd ((answered_cons hans).mp hn) (hnone n)
      | taken leaseId n =>
        rintro rfl
        obtain ⟨old, hold, heq, -⟩ := h.taken j _ n htaking
        exact absurd heq (hnew old hold)
    · exact (h.current j hj' x hx hb).mono (Int.le_refl _) (fun _ _ hn => (answered_cons hans).mp hn) (hkept x)
  · intro leaseId n
    rw [countP_cons_of_neg (by simp)]
    exact h.once leaseId n

theorem Handed.aside (h : Handed b w tr φ) (hmade : w'.made = w.made) (hclock : w'.clock = w.clock)
    (hans : ∀ n leaseId, o ≠ .answer b n (some leaseId)) (hasks : asksFor b o = false)
    (hbeyond : ∀ reservation ∈ w.made, reservation.account = b → ∀ n, Beyond w reservation n → Beyond w' reservation n)
    (hsame : φ'.taking = (φ i).taking) (hacct : φ'.account = (φ i).account) :
    Handed b w' (⟨i, o, r⟩ :: tr) (update φ i φ') := by
  refine h.still hmade hclock hans hasks (fun reservation hr hb n _ hn => hbeyond reservation hr hb n hn) ?_ ?_ ?_
  · intro leaseId n htaken
    rw [hsame] at htaken
    rw [hacct]
    exact h.taken i leaseId n htaken
  · intro leaseId stored now htimed
    rw [hsame] at htimed
    exact h.time i leaseId stored now htimed
  · intro hlat reservation hr hb
    rw [hsame]
    exact (h.current i hlat reservation hr hb).mono (Int.le_of_eq hclock.symm) (fun _ _ hn => hn)
      (hbeyond reservation hr hb)

theorem Handed.read {r : sequenceSignature.Result (.getCursor leaseId)} (h : Handed b w tr φ)
    (htaking : φ'.taking = .read leaseId (w.cursor leaseId)) :
    Handed b w (⟨i, .getCursor leaseId, r⟩ :: tr) (update φ i φ') := by
  refine h.still rfl rfl nofun rfl (fun _ _ _ _ _ hn => hn) ?_ ?_ ?_
  · intro leaseId' n htaken
    simp [htaking] at htaken
  · intro leaseId' stored now htimed
    simp [htaking] at htimed
  · intro _ reservation hr hb
    rw [htaking]
    rintro rfl
    by_cases hlive : w.clock < reservation.expiresAt
    · right
      intro n hn
      rcases h.beyond reservation hr hb n hn with hexp | ⟨cursor, ends, hlook, hlt, hends⟩
      · omega
      · exact ⟨cursor, cursor_of_lookup hlook (by omega), hlt⟩
    · exact .inl (Int.not_lt.mp hlive)

theorem Handed.look {r : sequenceSignature.Result .now} (h : Handed b w tr φ)
    (htaking : φ'.taking = (φ i).taking.at w.clock) (hacct : φ'.account = (φ i).account) :
    Handed b w (⟨i, .now, r⟩ :: tr) (update φ i φ') := by
  cases hi : (φ i).taking with
  | read leaseId stored =>
    rw [hi] at htaking
    refine h.still rfl rfl nofun rfl (fun _ _ _ _ _ hn => hn) ?_ ?_ ?_
    · intro leaseId' n htaken
      rw [htaking] at htaken
      cases htaken
    · intro leaseId' stored' now htimed
      rw [htaking] at htimed
      cases htimed
      exact Int.le_refl _
    · intro hlat reservation hr hb
      have hfits := h.current i hlat reservation hr hb
      rw [hi] at hfits
      rw [htaking]
      exact hfits
  | nothing | timed | taken =>
    rw [hi] at htaking
    exact h.aside rfl rfl nofun rfl (fun _ _ _ _ hn => hn) (htaking.trans hi.symm) hacct

variable {leaseId : Nat} {cursor px : Int}

theorem Kept.moves (hk : Kept w tr φ) (hmoves : (φ i).Moves leaseId cursor px) (hr : reservation ∈ w.made)
    (hlease : reservation.leaseId = leaseId) :
    (φ i).account = some reservation.account ∧ ∃ stored now, (φ i).taking = .timed leaseId stored now ∧
      cursor = stored.getD reservation.firstSequence + 1 ∧ px = reservation.expiresAt - now := by
  obtain ⟨account, listed, stored, now, hacct, hlisted, htimed, hleaseId, hcursor, hpx⟩ := hmoves
  obtain ⟨hmade, hlistedAccount⟩ := hk.listed i account hacct listed hlisted
  have hsame : reservation = listed := hk.distinct _ hr _ hmade (hlease.trans hleaseId.symm)
  subst hsame
  exact ⟨hlistedAccount ▸ hacct, stored, now, htimed, hcursor, hpx⟩

theorem Handed.below (h : Handed b w tr φ) (hk : Kept w tr φ) (hmoves : (φ i).Moves leaseId cursor px)
    (hpos : 0 < px) (hlat : latest (asksFor b) tr = some i) (hr : reservation ∈ w.made)
    (hb : reservation.account = b) (hlease : reservation.leaseId = leaseId) :
    (∀ n, Answered b leaseId tr n → n < cursor - 1) ∧ reservation.expiresAt ≤ w.clock + px := by
  obtain ⟨-, stored, now, htimed, hcursor, rfl⟩ := hk.moves hmoves hr hlease
  have hfits := h.current i hlat reservation hr hb
  rw [htimed] at hfits
  have htime := h.time i leaseId stored now htimed
  refine ⟨?_, by omega⟩
  intro n hn
  rcases hfits hlease.symm with hexp | hbelow
  · omega
  · obtain ⟨found, hfound, hlt⟩ := hbelow n hn
    rw [hfound, getD_some] at hcursor
    omega

theorem Handed.move {r : sequenceSignature.Result (.setCursor leaseId cursor px)} (h : Handed b w tr φ)
    (hk : Kept w tr φ) (hmoves : (φ i).Moves leaseId cursor px) (hpos : 0 < px)
    (hlat : (φ i).account = some b → latest (asksFor b) tr = some i) (hacct : φ'.account = (φ i).account)
    (htaking : φ'.taking = .taken leaseId (cursor - 1) ∨ φ'.taking = (φ i).taking) :
    Handed b { w with cursors := w.cursors.insert leaseId (cursor, w.clock + px) }
      (⟨i, .setCursor leaseId cursor px, r⟩ :: tr) (update φ i φ') := by
  have hcur : ∀ reservation ∈ w.made, reservation.account = b → reservation.leaseId = leaseId →
      latest (asksFor b) tr = some i := by
    intro reservation hr hb hlease
    exact hlat (hb ▸ (hk.moves hmoves hr hlease).1)
  have hother : ∀ reservation n, reservation.leaseId ≠ leaseId → Beyond w reservation n →
      Beyond { w with cursors := w.cursors.insert leaseId (cursor, w.clock + px) } reservation n := by
    intro reservation n hne hbeyond
    refine hbeyond.mono (Int.le_refl _) fun found ends hlook _ => .inr ?_
    rw [AList.lookup_insert_ne hne]
    exact hlook
  have hmoved : ∀ reservation ∈ w.made, reservation.account = b → reservation.leaseId = leaseId → ∀ n, n < cursor →
      Beyond { w with cursors := w.cursors.insert leaseId (cursor, w.clock + px) } reservation n := by
    intro reservation hr hb hlease n hlt
    refine .inr ⟨cursor, w.clock + px, ?_, hlt, ?_⟩
    · rw [hlease]
      exact AList.lookup_insert _
    · exact (h.below hk hmoves hpos (hcur reservation hr hb hlease) hr hb hlease).2
  refine h.still rfl rfl nofun rfl ?_ ?_ ?_ ?_
  · intro reservation hr hb n hn hbeyond
    by_cases hlease : reservation.leaseId = leaseId
    · have hlat' := hcur reservation hr hb hlease
      refine hmoved reservation hr hb hlease n ?_
      rcases hn with hn | hne
      · have hlt := (h.below hk hmoves hpos hlat' hr hb hlease).1 n (hlease ▸ hn)
        omega
      · exact absurd hlat' hne
    · exact hother reservation n hlease hbeyond
  · intro leaseId' n htaken
    rcases htaking with hmine | hsame
    · rw [hmine] at htaken
      cases htaken
      obtain ⟨account, listed, stored, now, hi, hlisted, -, hleaseId, -, -⟩ := hmoves
      obtain ⟨hmade, hlistedAccount⟩ := hk.listed i account hi listed hlisted
      exact ⟨listed, hmade, hleaseId, by rw [hacct, hi, hlistedAccount]⟩
    · rw [hsame] at htaken
      rw [hacct]
      exact h.taken i leaseId' n htaken
  · intro leaseId' stored now htimed
    rcases htaking with hmine | hsame
    · simp [hmine] at htimed
    · rw [hsame] at htimed
      exact h.time i leaseId' stored now htimed
  · intro hlat' reservation hr hb
    rcases htaking with hmine | hsame
    · rw [hmine]
      intro hlease
      exact ⟨(h.below hk hmoves hpos hlat' hr hb hlease.symm).1, hmoved reservation hr hb hlease.symm _ (by omega)⟩
    · obtain ⟨account, listed, stored, now, -, -, htimed, -⟩ := hmoves
      have hfits := h.current i hlat' reservation hr hb
      rw [hsame]
      rw [htimed] at hfits ⊢
      exact hfits

theorem beyond_delCursors {leaseIds : List Nat}
    (hspared : w.clock < reservation.expiresAt → reservation.leaseId ∈ leaseIds → w.cursor reservation.leaseId = none)
    (h : Beyond w reservation n) :
    Beyond (w.delCursors leaseIds) reservation n := by
  refine h.mono (Int.le_refl _) ?_
  intro found ends hlook hends
  rw [lookup_delCursors]
  split
  · rename_i hmem
    left
    show reservation.expiresAt ≤ w.clock
    by_contra hlive
    have hnone := hspared (Int.not_le.mp hlive) hmem
    simp [cursor_of_lookup hlook (by omega)] at hnone
  · exact .inr hlook

def Numbered : SeqOp → Prop
  | .asked _ => True
  | .getCursor _ => True
  | .setCursor _ _ _ => True
  | .delCursors _ => True
  | .now => True
  | .answer _ _ _ => True
  | .rpush _ _ => True
  | _ => False

theorem aside_of_not_numbered (ho : ¬Numbered o) (φ : Asker) (r : sequenceSignature.Result o) :
    (φ.next o r).taking = φ.taking ∧ (φ.next o r).account = φ.account := by
  cases o with
  | asked | getCursor | setCursor | now | answer | rpush => exact absurd trivial ho
  | lrange | generateLeaseId =>
    cases r with
    | ok reply => exact ⟨rfl, rfl⟩
    | error e => exact ⟨rfl, rfl⟩
  | _ => exact ⟨rfl, rfl⟩

theorem cursors_of_not_numbered (ho : ¬Numbered o) (w : SequenceState) :
    (answerSeq o w).2.cursors = w.cursors ∧ (answerSeq o w).2.made = w.made := by
  have hset : ∀ leaseId cursor px, o ≠ .setCursor leaseId cursor px := by
    rintro leaseId cursor px rfl
    exact ho trivial
  have hdel : ∀ leaseIds, o ≠ .delCursors leaseIds := by
    rintro leaseIds rfl
    exact ho trivial
  have hpush : ∀ account reservation, o ≠ .rpush account reservation := by
    rintro account reservation rfl
    exact ho trivial
  have hsteady := steady_answer o w
  exact ⟨hsteady.cursors hset hdel, hsteady.made hpush⟩

variable {ch : SeqChoice}

theorem Handed.step_aside (h : Handed b w tr φ) (ho : ¬Numbered o) :
    Handed b (performSeq o ch w).2 (⟨i, o, (performSeq o ch w).1⟩ :: tr)
      (update φ i ((φ i).next o (performSeq o ch w).1)) := by
  obtain ⟨htaking, hacct⟩ := aside_of_not_numbered ho (φ i) (performSeq o ch w).1
  obtain ⟨hcursors, hmade⟩ := cursors_of_not_numbered ho w
  have hclock := (steady_answer o w).clock
  refine h.aside ?_ (clock_performSeq o ch w) ?_ ?_ ?_ htaking hacct
  · rcases performSeq_world o ch w with hw | hw
    · rw [hw]
    · rw [hw, hmade]
  · rintro n leaseId rfl
    exact ho trivial
  · cases o with
    | asked account => exact absurd trivial ho
    | _ => rfl
  · intro reservation _ _ n hbeyond
    rcases performSeq_world o ch w with hw | hw
    · rwa [hw]
    · rw [hw]
      refine hbeyond.mono (Int.le_of_eq hclock.symm) fun cursor ends hlook _ => .inr ?_
      rw [hcursors]
      exact hlook

theorem Handed.step_setCursor (h : Handed b w tr φ) (hk : Kept w tr φ) (hmoves : (φ i).Moves leaseId cursor px)
    (hlat : (φ i).account = some b → latest (asksFor b) tr = some i) :
    Handed b (performSeq (.setCursor leaseId cursor px) ch w).2
      (⟨i, .setCursor leaseId cursor px, (performSeq (.setCursor leaseId cursor px) ch w).1⟩ :: tr)
      (update φ i ((φ i).next (.setCursor leaseId cursor px)
        (performSeq (.setCursor leaseId cursor px) ch w).1)) := by
  by_cases hpos : 0 < px
  · cases hr : (performSeq (.setCursor leaseId cursor px) ch w).1 with
    | ok reply =>
      rw [(performSeq_ok hr).2]
      exact h.move hk hmoves hpos hlat rfl (.inl rfl)
    | error e =>
      rcases performSeq_world (.setCursor leaseId cursor px) ch w with hw | hw
      · rw [hw]
        exact h.aside rfl rfl nofun rfl (fun _ _ _ _ hn => hn) rfl rfl
      · rw [hw]
        exact h.move hk hmoves hpos hlat rfl (.inr rfl)
  · have href : performSeq (.setCursor leaseId cursor px) ch w =
        (.error { message := "ERR invalid expire time in 'set' command" }, w) := by
      simp [performSeq, SeqOp.refused, Int.not_lt.mp hpos]
    rw [href]
    exact h.aside rfl rfl nofun rfl (fun _ _ _ _ hn => hn) rfl rfl

theorem Handed.step (h : Handed b w tr φ) (hk : Kept w tr φ) (ha : (φ i).Allows o)
    (hlat : (φ i).account = some b → latest (asksFor b) tr = some i)
    (hspared : ∀ leaseIds, o = .delCursors leaseIds → ∀ reservation ∈ w.made, reservation.account = b →
      w.clock < reservation.expiresAt → reservation.leaseId ∈ leaseIds → w.cursor reservation.leaseId = none) :
    Handed b (performSeq o ch w).2 (⟨i, o, (performSeq o ch w).1⟩ :: tr)
      (update φ i ((φ i).next o (performSeq o ch w).1)) := by
  by_cases ho : Numbered o
  · cases o with
    | asked account =>
      rw [performSeq_local rfl]
      by_cases hacct : account = b
      · subst hacct
        exact h.enter rfl
      · refine h.still rfl rfl nofun (by simp [asksFor, hacct]) (fun _ _ _ _ _ hn => hn) nofun nofun ?_
        exact fun _ _ _ _ => trivial
    | getCursor leaseId =>
      have hw : (performSeq (.getCursor leaseId) ch w).2 = w := by
        rcases performSeq_world (.getCursor leaseId) ch w with hw | hw
        · exact hw
        · exact hw
      rw [hw]
      cases hr : (performSeq (.getCursor leaseId) ch w).1 with
      | ok stored =>
        have hstore : stored = w.cursor leaseId := (performSeq_ok hr).1
        subst hstore
        exact h.read rfl
      | error e => exact h.aside rfl rfl nofun rfl (fun _ _ _ _ hn => hn) rfl rfl
    | now =>
      rw [performSeq_local rfl]
      exact h.look rfl rfl
    | setCursor leaseId cursor px => exact h.step_setCursor hk ha hlat
    | delCursors leaseIds =>
      have hmade : (performSeq (.delCursors leaseIds) ch w).2.made = w.made := by
        rcases performSeq_world (.delCursors leaseIds) ch w with hw | hw
        · rw [hw]
        · rw [hw]
          rfl
      refine h.aside hmade (clock_performSeq _ _ _) nofun rfl ?_ rfl rfl
      intro reservation hr hb n hbeyond
      rcases performSeq_world (.delCursors leaseIds) ch w with hw | hw
      · rwa [hw]
      · rw [hw]
        exact beyond_delCursors (hspared leaseIds rfl reservation hr hb) hbeyond
    | answer account n lease =>
      rw [performSeq_local rfl]
      obtain ⟨hacct, htaken⟩ := ha
      have hstill : (∀ m leaseId, SeqOp.answer account n lease ≠ .answer b m (some leaseId)) →
          Handed b w (⟨i, .answer account n lease, .ok ()⟩ :: tr)
            (update φ i ((φ i).next (.answer account n lease) (.ok ()))) := by
        intro hnot
        refine h.still rfl rfl hnot rfl (fun _ _ _ _ _ hn => hn) nofun nofun ?_
        exact fun _ _ _ _ => trivial
      by_cases hb : account = b
      · subst hb
        cases lease with
        | none => exact hstill nofun
        | some leaseId => exact h.answer hacct (htaken leaseId rfl) (hlat hacct) rfl
      · refine hstill ?_
        intro m leaseId heq
        cases heq
        exact hb rfl
    | rpush account reservation =>
      rcases performSeq_world (.rpush account reservation) ch w with hw | hw
      · rw [hw]
        exact h.aside rfl rfl nofun rfl (fun _ _ _ _ hn => hn) rfl rfl
      · rw [hw]
        exact h.store (hk.leased i _ ha.1).2 rfl rfl
    | _ => exact absurd ho id
  · exact h.step_aside ho

theorem Handed.drift (h : Handed b w tr φ) (e : SeqEvent) : Handed b (driftSeq e w) tr φ := by
  have hclock : w.clock ≤ (driftSeq e w).clock := by
    cases e with
    | tick ms => exact Int.le_add_of_nonneg_right (Int.natCast_nonneg ms)
    | advance account => exact Int.le_refl _
  have hmade : (driftSeq e w).made = w.made := by
    cases e with
    | tick ms => rfl
    | advance account => rfl
  have hbeyond : ∀ reservation n, Beyond w reservation n → Beyond (driftSeq e w) reservation n := by
    intro reservation n hn
    refine hn.mono hclock fun cursor ends hlook _ => .inr ?_
    cases e with
    | tick ms => exact hlook
    | advance account => exact hlook
  refine ⟨?_, ?_, ?_, ?_, ?_, h.once⟩
  · rw [hmade]
    exact h.known
  · rw [hmade]
    exact h.taken
  · exact fun i leaseId stored now hi => Int.le_trans (h.time i leaseId stored now hi) hclock
  · rw [hmade]
    exact fun reservation hr hb n hn => hbeyond reservation n (h.beyond reservation hr hb n hn)
  · rw [hmade]
    exact fun i hi reservation hr hb =>
      (h.current i hi reservation hr hb).mono hclock (fun _ _ hn => hn) (hbeyond reservation)

end

def keeps (account : String) : SeqCall → Bool
  | .next account' attempt refused => decide (account' ≠ account) || (decide (attempt ≤ 1) && !refused)
  | _ => true

/-- A block is reserved, and a number of it taken. -/
def taking : List (Action sequences) := .call (.reserve "GA" 3) :: steps 0 12 ++ .call (.next "GA" 1 false) :: steps 1 8

end Delego.Wallet
