import Delego.Passkeys.Service
import Delego.Process.Balance

/-! Challenges that are redeemed once, and counters that advance.

A challenge is there, or a login has deleted it and not yet failed, or a login was let in with it: as long as each login
that deletes its challenge finds it still there, that is one at most. -/
namespace Delego.Passkeys
open Delego.Data Delego.Process List Function

abbrev PasskeyPool := Pool passkeySignature World

def isGiven (challenge : String) : Entry passkeySignature → Bool
  | ⟨_, .given other _, _⟩ => decide (other = challenge)
  | _ => false

def worth (challenge : String) : Phase → Int
  | .consumed other => if other = challenge then 1 else 0
  | .read other _ => if other = challenge then 1 else 0
  | .saved other _ _ => if other = challenge then 1 else 0
  | _ => 0

def present (rows : List PasskeyChallenge) (challenge : String) : Int := rows.countP (isChallenge challenge .authentication)

def Redeemed (w : World) (tr : List (Entry passkeySignature)) (φ : Nat → Phase) (challenge : String) : Prop :=
  Conserved (worth challenge) φ (tr.countP (isGiven challenge)) (present w.challenges challenge) 1

section
variable {challenge : String} {w : World} {o : Op} {ch : Choice} {φ : Phase}

theorem worth_nonneg (challenge : String) (φ : Phase) : 0 ≤ worth challenge φ := by
  cases φ with
  | idle => exact le_rfl
  | found other => exact le_rfl
  | consumed other =>
    simp only [worth]
    split <;> omega
  | read other before =>
    simp only [worth]
    split <;> omega
  | saved other before record =>
    simp only [worth]
    split <;> omega

theorem present_nonneg (rows : List PasskeyChallenge) (challenge : String) : 0 ≤ present rows challenge :=
  Int.natCast_nonneg _

theorem perform_cases (o : Op) (ch : Choice) (w : World) :
    (o.isAccess = true → ch.failure = none) ∧ perform o ch w = answer o ch w ∨
      o.isAccess = true ∧ ∃ message, perform o ch w = (.error message, w) := by
  unfold perform
  cases ch.failure with
  | none => exact .inl ⟨fun _ => rfl, rfl⟩
  | some message =>
    by_cases haccess : o.isAccess = true
    · exact .inr ⟨haccess, _, if_pos haccess⟩
    · exact .inl ⟨fun h => absurd h haccess, if_neg haccess⟩

theorem challenges_perform (h : ∀ other type, o ≠ .destroyChallenge other type) :
    (perform o ch w).2.challenges = w.challenges := by
  rcases perform_cases o ch w with ⟨-, hans⟩ | ⟨-, message, herror⟩
  · rw [hans]
    cases o with
    | destroyChallenge other type => exact absurd rfl (h other type)
    | _ => rfl
  · rw [herror]

theorem present_destroyed (rows : List PasskeyChallenge) (challenge other : String) :
    present (rows.filter fun row => !isChallenge other .authentication row) challenge =
      if other = challenge then 0 else present rows challenge := by
  unfold present
  rw [countP_filter]
  split
  · rename_i heq
    subst heq
    have hnone : rows.countP (fun row => isChallenge other .authentication row && !isChallenge other .authentication row) = 0 :=
      countP_eq_zero.mpr fun row _ h => by
        simp [Bool.and_not_self] at h
    rw [hnone]
    rfl
  · rename_i hother
    congr 1
    refine countP_congr fun row _ => ?_
    simp only [isChallenge, Bool.and_eq_true, decide_eq_true_eq, Bool.not_eq_true', decide_eq_false_iff_not]
    constructor
    · exact And.left
    · rintro ⟨rfl, htype⟩
      exact ⟨⟨rfl, htype⟩, fun h => hother h.1.symm⟩

theorem one_le_present {rows : List PasskeyChallenge} (h : rows.any (isChallenge challenge .authentication) = true) :
    1 ≤ present rows challenge := by
  obtain ⟨row, hrow, hchallenge⟩ := any_eq_true.mp h
  have hpos : 0 < rows.countP (isChallenge challenge .authentication) := countP_pos_iff.mpr ⟨row, hrow, hchallenge⟩
  unfold present
  omega

theorem redeemed_kept (i : Nat) (challenge : String) (hdestroys : ∀ other type, o ≠ .destroyChallenge other type)
    (hgiven : ∀ r, isGiven challenge ⟨i, o, r⟩ = false)
    (hnext : worth challenge (φ.next o (perform o ch w).1) ≤ worth challenge φ) :
    worth challenge (φ.next o (perform o ch w).1) +
        (if isGiven challenge ⟨i, o, (perform o ch w).1⟩ then 1 else 0) +
        present (perform o ch w).2.challenges challenge ≤
      worth challenge φ + present w.challenges challenge := by
  rw [challenges_perform hdestroys, hgiven, if_neg Bool.false_ne_true]
  omega

theorem redeemed_perform (ha : φ.Allows o) (i : Nat) (challenge : String)
    (hthere : ∀ other type, o = .destroyChallenge other type → ch.failure = none →
      w.challenges.any (isChallenge other type) = true) :
    worth challenge (φ.next o (perform o ch w).1) +
        (if isGiven challenge ⟨i, o, (perform o ch w).1⟩ then 1 else 0) +
        present (perform o ch w).2.challenges challenge ≤
      worth challenge φ + present w.challenges challenge := by
  have hworth := worth_nonneg challenge φ
  cases o with
  | findChallenge other type =>
    obtain rfl : φ = .idle := ha
    refine redeemed_kept i challenge (fun _ _ h => nomatch h) (fun _ => rfl) ?_
    rcases (perform (.findChallenge other type) ch w).1 with message | found
    · exact le_rfl
    · cases found <;> exact le_rfl
  | destroyChallenge other type =>
    obtain ⟨rfl, rfl⟩ := ha
    rcases perform_cases (.destroyChallenge other .authentication) ch w with ⟨hdone, hans⟩ | ⟨-, message, herror⟩
    · rw [hans]
      simp only [answer, Phase.next, isGiven, worth, present_destroyed, Bool.false_eq_true, if_false]
      by_cases heq : other = challenge
      · subst heq
        have hone := one_le_present (hthere other .authentication rfl (hdone rfl))
        rw [if_pos rfl, if_pos rfl]
        omega
      · rw [if_neg heq, if_neg heq]
        omega
    · rw [herror]
      exact le_rfl
  | findCredential credentialId =>
    obtain ⟨other, rfl⟩ := ha
    refine redeemed_kept i challenge (fun _ _ h => nomatch h) (fun _ => rfl) ?_
    rcases (perform (.findCredential credentialId) ch w).1 with message | found
    · exact hworth
    · cases found with
      | none => exact hworth
      | some row => exact le_rfl
  | save before record =>
    obtain ⟨other, rfl, -⟩ := ha
    refine redeemed_kept i challenge (fun _ _ h => nomatch h) (fun _ => rfl) ?_
    rcases (perform (.save before record) ch w).1 with message | _
    · exact hworth
    · exact le_rfl
  | given other result =>
    obtain ⟨before, record, rfl, -⟩ := ha
    rw [challenges_perform (o := .given other result) fun _ _ h => nomatch h]
    simp only [Phase.next, isGiven, worth, decide_eq_true_eq]
    omega
  | _ => exact redeemed_kept i challenge (fun _ _ h => nomatch h) (fun _ => rfl) le_rfl

theorem redeemed_step {tr : List (Entry passkeySignature)} {φ : Nat → Phase} {i : Nat} (h : Redeemed w tr φ challenge)
    (ha : (φ i).Allows o) (hthere : ∀ other type, o = .destroyChallenge other type → ch.failure = none →
      w.challenges.any (isChallenge other type) = true) :
    Redeemed (perform o ch w).2 (⟨i, o, (perform o ch w).1⟩ :: tr)
      (update φ i ((φ i).next o (perform o ch w).1)) challenge := by
  have hle := redeemed_perform ha i challenge hthere
  refine h.step i _ ?_
  rw [countP_cons]
  push_cast
  omega

end

/-! ### Counters -/

def savedAs (id : String) : Entry passkeySignature → Option Int
  | ⟨_, .save _ record, .ok _⟩ => if record.id = id then some record.counter else none
  | _ => none

def counters (tr : List (Entry passkeySignature)) (id : String) : List Int := tr.filterMap (savedAs id)

def reads : Op → Bool
  | .findCredential _ => true
  | _ => false

/-- A login deletes a challenge that is still there, and saves a counter that is above every one saved of the
credential since it read the record. -/
def undisturbed (p : PasskeyPool) (i : Nat) (o : Op) (ch : Choice) : Bool := match o with
  | .destroyChallenge challenge type => ch.failure.isSome || p.world.challenges.any (isChallenge challenge type)
  | .save _ record =>
    ch.failure.isSome || (counters (since reads p.trace i) record.id).all fun n => decide (n < record.counter)
  | _ => true

/-- What holds of the counters that were saved. -/
structure Counters (w : World) (tr : List (Entry passkeySignature)) (φ : Nat → Phase) : Prop where
  decreasing : ∀ id, (counters tr id).Pairwise (· > ·)
  stored : ∀ row ∈ w.credentials, ∀ n ∈ counters tr row.id, n ≤ toCounter row.counter
  held : ∀ i challenge before, φ i = .read challenge before → ∀ n ∈ counters tr before.id,
    n ≤ toCounter before.counter ∨ n ∈ counters (since reads tr i) before.id
  saved : ∀ i challenge before record, φ i = .saved challenge before record → ⟨i, .save before record, .ok ()⟩ ∈ tr
  given : ∀ e ∈ tr, ∀ challenge result, e.op = .given challenge result → ∃ before record,
    ⟨e.runner, .save before record, .ok ()⟩ ∈ tr ∧ Reports record result

section
variable {w : World} {tr : List (Entry passkeySignature)} {φ : Nat → Phase} {i : Nat} {o : Op} {ch : Choice}

theorem saved_cases (i : Nat) (o : Op) (ch : Choice) (w : World) :
    (∀ id, savedAs id ⟨i, o, (perform o ch w).1⟩ = none) ∧ (perform o ch w).2.credentials = w.credentials ∨
      ∃ before record, o = .save before record ∧ ch.failure = none ∧ perform o ch w = answer o ch w := by
  rcases perform_cases o ch w with ⟨hdone, hans⟩ | ⟨-, message, herror⟩
  · cases o with
    | save before record => exact .inr ⟨before, record, rfl, hdone rfl, hans⟩
    | verify response expectedChallenge credential requireUserVerification =>
      rw [hans]
      exact .inl ⟨fun _ => rfl, rfl⟩
    | _ =>
      rw [hans]
      exact .inl ⟨fun _ => rfl, rfl⟩
  · rw [herror]
    refine .inl ⟨fun id => ?_, rfl⟩
    cases o <;> rfl

theorem counters_cons (e : Entry passkeySignature) (tr : List (Entry passkeySignature)) (id : String) :
    counters (e :: tr) id = (savedAs id e).toList ++ counters tr id := by
  unfold counters
  rw [filterMap_cons]
  cases savedAs id e <;> rfl

variable {before record : PasskeyCredential}
  {challenge : String}

theorem Counters.above (h : Counters w tr φ) (hread : φ i = .read challenge before)
    (hadvances : Advances before record) (hguard : ∀ n ∈ counters (since reads tr i) record.id, n < record.counter) :
    ∀ n ∈ counters tr record.id, n < record.counter := by
  intro n hn
  rw [hadvances.id] at hn
  rcases h.held i challenge before hread n hn with hle | hsince
  · exact lt_of_le_of_lt hle hadvances.advanced
  · exact hguard n (hadvances.id ▸ hsince)

theorem changed_counter (h : Advances before record) (stored : Int) :
    changed before.counter record.counter stored = record.counter := by
  refine if_neg fun heq => ?_
  have hadvanced := h.advanced
  rw [← heq, h.valid] at hadvanced
  exact absurd hadvanced (lt_irrefl _)

theorem next_read {φ : Phase} {r : passkeySignature.Result o}
    (h : φ.next o r = .read challenge before) :
    φ = .read challenge before ∧ o.isFree ∨ ∃ credentialId, (⟨i, o, r⟩ : Entry passkeySignature) =
      ⟨i, .findCredential credentialId, .ok (some before)⟩ := by
  cases o with
  | now => exact .inl ⟨h, trivial⟩
  | verify response expectedChallenge credential requireUserVerification => exact .inl ⟨h, trivial⟩
  | findChallenge other type => rcases r with message | _ | row <;> cases h
  | destroyChallenge other type => cases r <;> cases h
  | findCredential credentialId =>
    rcases r with message | _ | row <;> cases φ <;> cases h
    exact .inr ⟨credentialId, rfl⟩
  | save other record => cases r <;> cases φ <;> cases h
  | given other result => cases h

theorem next_saved {φ : Phase} {r : passkeySignature.Result o}
    (h : φ.next o r = .saved challenge before record) :
    φ = .saved challenge before record ∨ (⟨i, o, r⟩ : Entry passkeySignature) = ⟨i, .save before record, .ok ()⟩ := by
  cases o with
  | now => exact .inl h
  | verify response expectedChallenge credential requireUserVerification => exact .inl h
  | findChallenge other type => rcases r with message | _ | row <;> cases h
  | destroyChallenge other type => cases r <;> cases h
  | findCredential credentialId => rcases r with message | _ | row <;> cases φ <;> cases h
  | save other record =>
    cases r <;> cases φ <;> cases h
    exact .inr rfl
  | given other result => cases h

theorem mem_of_found {credentialId : String} {row : PasskeyCredential}
    (h : (perform (.findCredential credentialId) ch w).1 = .ok (some row)) : row ∈ w.credentials := by
  rcases perform_cases (.findCredential credentialId) ch w with ⟨-, hans⟩ | ⟨-, message, herror⟩
  · rw [hans] at h
    exact lookup_mem (Except.ok.inj h)
  · simp [herror] at h

theorem Counters.step (h : Counters w tr φ) (ha : (φ i).Allows o)
    (hguard : ∀ before record, o = .save before record → ch.failure = none →
      ∀ n ∈ counters (since reads tr i) record.id, n < record.counter) :
    Counters (perform o ch w).2 (⟨i, o, (perform o ch w).1⟩ :: tr)
      (update φ i ((φ i).next o (perform o ch w).1)) where
  decreasing id := by
    rw [counters_cons]
    rcases saved_cases i o ch w with ⟨hnone, -⟩ | ⟨before, record, rfl, hdone, hans⟩
    · rw [hnone]
      exact h.decreasing id
    · obtain ⟨challenge, hread, hadvances⟩ := ha
      have habove := h.above hread hadvances (hguard before record rfl hdone)
      rw [hans]
      simp only [answer, savedAs]
      split
      · rename_i hid
        subst hid
        exact pairwise_cons.mpr ⟨habove, h.decreasing record.id⟩
      · exact h.decreasing id
  stored row hrow n hn := by
    rcases saved_cases i o ch w with ⟨hnone, hrows⟩ | ⟨before, record, rfl, hdone, hans⟩
    · rw [counters_cons, hnone] at hn
      rw [hrows] at hrow
      exact h.stored row hrow n hn
    · obtain ⟨challenge, hread, hadvances⟩ := ha
      have habove := h.above hread hadvances (hguard before record rfl hdone)
      rw [hans] at hrow hn
      obtain ⟨stored, hstore, rfl⟩ := mem_map.mp hrow
      simp only [answer, counters_cons, savedAs] at hn
      by_cases hid : stored.id = record.id
      · rw [if_pos hid] at hn ⊢
        have hsaved : (before.saved record stored).counter = record.counter := changed_counter hadvances stored.counter
        have heq : (before.saved record stored).id = record.id := hid
        rw [hsaved, hadvances.valid]
        rw [heq, if_pos rfl] at hn
        rcases mem_cons.mp hn with rfl | hn
        · exact le_rfl
        · exact (habove n hn).le
      · rw [if_neg hid] at hn ⊢
        rw [if_neg (Ne.symm hid)] at hn
        exact h.stored stored hstore n hn
  held j challenge before hread n hn := by
    have hkept : ∀ hold : φ j = .read challenge before, (i = j → reads o = false) → n ≤ toCounter before.counter ∨
          n ∈ counters (since reads (⟨i, o, (perform o ch w).1⟩ :: tr) j) before.id := by
      intro hold hreads
      rw [since_cons hreads, counters_cons]
      rw [counters_cons] at hn
      rcases mem_append.mp hn with hnow | hpre
      · exact .inr (mem_append_left _ hnow)
      · exact (h.held j challenge before hold n hpre).imp id (mem_append_right _)
    by_cases hij : j = i
    · subst hij
      rw [update_self] at hread
      rcases next_read (i := j) hread with ⟨hold, hfree⟩ | ⟨credentialId, hentry⟩
      · refine hkept hold fun _ => ?_
        cases o with
        | findCredential credentialId => exact hfree.elim
        | _ => rfl
      · obtain ⟨rfl, hfound⟩ : o = .findCredential credentialId ∧
            HEq (perform o ch w).1 (Except.ok (some before) : Except PasskeyError (Option PasskeyCredential)) := by
          injection hentry with _ ho hr
          exact ⟨ho, hr⟩
        exact .inl (h.stored before (mem_of_found (eq_of_heq hfound)) n hn)
    · rw [update_of_ne hij] at hread
      exact hkept hread fun heq => absurd heq.symm hij
  saved j challenge before record hsaved := by
    by_cases hij : j = i
    · subst hij
      rw [update_self] at hsaved
      rcases next_saved (i := j) hsaved with hold | hentry
      · exact mem_cons_of_mem _ (h.saved j challenge before record hold)
      · rw [hentry]
        exact mem_cons_self
    · rw [update_of_ne hij] at hsaved
      exact mem_cons_of_mem _ (h.saved j challenge before record hsaved)
  given e he challenge result hop := by
    have hkept : (∃ before record, (⟨e.runner, .save before record, .ok ()⟩ : Entry passkeySignature) ∈ tr ∧
        Reports record result) → ∃ before record, (⟨e.runner, .save before record, .ok ()⟩ : Entry passkeySignature) ∈
          ⟨i, o, (perform o ch w).1⟩ :: tr ∧ Reports record result := by
      rintro ⟨before, record, hmem, hreports⟩
      exact ⟨before, record, mem_cons_of_mem _ hmem, hreports⟩
    rcases mem_cons.mp he with rfl | he
    · simp only at hop
      subst hop
      obtain ⟨before, record, hsaved, hreports⟩ := ha
      exact hkept ⟨before, record, h.saved i challenge before record hsaved, hreports⟩
    · exact hkept (h.given e he challenge result hop)

end

/-- A run in which no login's delete or save comes upon another's. -/
abbrev Undisturbed (config : PasskeyConfig) (p : PasskeyPool) (a : Action (system config)) : Prop :=
  onStep undisturbed p a = true

section
variable {config : PasskeyConfig}

theorem inductive_redeemed (h : config.enforceCounter = true) :
    Inductive (system config) ceremony .idle (Undisturbed config) fun w tr φ =>
      (∀ challenge, Redeemed w tr φ challenge) ∧ Counters w tr φ := by
  refine inductive_stepping (follows_body h) ?_ (fun p φ e => e.elim) ?_
  · intro p φ c w _ hj hw
    cases hw
    exact hj
  · intro p φ i o ch hguard hp hj ha
    have hcond := onStep_pending hguard hp
    refine ⟨fun challenge => redeemed_step (hj.1 challenge) ha ?_, hj.2.step ha ?_⟩
    · rintro other type rfl hdone
      simpa only [undisturbed, hdone, Option.isSome_none, Bool.false_or] using hcond
    · rintro before record rfl hdone n hn
      simp only [undisturbed, hdone, Option.isSome_none, Bool.false_or, all_eq_true, decide_eq_true_eq] at hcond
      exact hcond n hn

theorem redeemed_start {w : World} (h : Keyed PasskeyChallenge.challenge w.challenges) (challenge : String) :
    Redeemed w [] (fun _ => .idle) challenge := by
  refine conserved_start (fun _ => rfl) ?_
  have hcount := nodup_iff_count_le_one.mp h challenge
  rw [count, countP_map] at hcount
  have hle : w.challenges.countP (isChallenge challenge .authentication) ≤
      w.challenges.countP ((· == challenge) ∘ PasskeyChallenge.challenge) :=
    countP_mono_left fun row _ hrow => beq_iff_eq.mpr (of_decide_eq_true hrow).1
  unfold present
  omega

theorem counters_start (w : World) : Counters w [] fun _ => .idle where
  decreasing _ := .nil
  stored _ _ _ hn := nomatch hn
  held _ _ _ hread := nomatch hread
  saved _ _ _ _ hsaved := nomatch hsaved
  given _ he := nomatch he

/-- **An assertion is accepted once**, where no login deletes a challenge that is gone or saves a counter that is
not above those saved since it read the record. -/
theorem redeemed_once (henforced : config.enforceCounter = true) {w : World}
    (hkeyed : Keyed PasskeyChallenge.challenge w.challenges) {q : PasskeyPool}
    (h : Run (system config) (Undisturbed config) (Pool.start w) q) :
    (∀ challenge, q.trace.countP (isGiven challenge) ≤ 1) ∧ (∀ id, (counters q.trace id).Pairwise (· > ·)) ∧
      ∀ e ∈ q.trace, ∀ challenge result, e.op = .given challenge result → ∃ before record,
        ⟨e.runner, .save before record, .ok ()⟩ ∈ q.trace ∧ Reports record result := by
  obtain ⟨φ, ht⟩ := (inductive_redeemed henforced).run h ⟨_, Tracked.start ⟨redeemed_start hkeyed, counters_start w⟩⟩
  refine ⟨fun challenge => ?_, ht.holds.2.decreasing, ht.holds.2.given⟩
  have hle := (ht.holds.1 challenge).spent_le (worth_nonneg challenge) (present_nonneg _ challenge)
  omega

end

def config : PasskeyConfig := ⟨"required", true⟩

def world : World :=
  ⟨[⟨"first", .authentication, some "alice", 2000⟩, ⟨"second", .authentication, none, 2000⟩],
    [⟨"key", "alice", "credential", [4], 0, none, false, none⟩]⟩

def submitted (challenge : String) : Action (system config) :=
  .call ⟨"credential", "credential", some (.object [("challenge", .string challenge)])⟩

def goes (newCounter : UInt32) (i n : Nat) : List (Action (system config)) :=
  replicate n (.step i ⟨none, 1000, .ok ⟨true, newCounter, true⟩⟩)

/-- Two challenges are redeemed, one after the other. -/
theorem redeemed_once_alice : ∃ q : PasskeyPool, Run (system config) (Undisturbed config) (Pool.start world) q ∧
    counters q.trace "key" = [6, 5] ∧ (∀ challenge, q.trace.countP (isGiven challenge) ≤ 1) ∧
      (counters q.trace "key").Pairwise (· > ·) := by
  obtain ⟨q, hrun, htest⟩ := Run.exists_of_any (Pool.start world) (onStep undisturbed)
    (submitted "first" :: goes 5 0 8 ++ submitted "second" :: goes 6 1 8)
    (fun q => decide (counters q.trace "key" = [6, 5])) (by decide)
  have honce := redeemed_once rfl (by decide) hrun
  exact ⟨q, hrun, of_decide_eq_true htest, honce.1, honce.2.1 "key"⟩

/-- One response that is submitted twice: both logins find the challenge before either deletes it, and read the counter
before either saves it. -/
theorem redeemed_twice : ∃ q : PasskeyPool, Run (system config) (fun _ _ => True) (Pool.start world) q ∧
    q.trace.countP (isGiven "first") = 2 ∧ counters q.trace "key" = [5, 5] := by
  obtain ⟨q, hrun, htest⟩ := Run.exists_of_any (Pool.start world) (fun _ _ => true)
    (submitted "first" :: submitted "first" :: goes 5 0 1 ++ goes 5 1 5 ++ goes 5 0 7 ++ goes 5 1 3)
    (fun q => decide (q.trace.countP (isGiven "first") = 2) && decide (counters q.trace "key" = [5, 5])) (by decide)
  obtain ⟨htwice, hcounters⟩ := Bool.and_eq_true_iff.mp htest
  exact ⟨q, hrun.mono fun _ _ _ => trivial, of_decide_eq_true htwice, of_decide_eq_true hcounters⟩

end Delego.Passkeys
