import Delego.SigningSession.Phases

/-! What a session is submitted with.

Between the check that a signer has not signed and the signature, the call awaits: two calls of one signer both add
theirs, and the session is submitted with the signatures of one (`submitted_by_one`). The call awaits between the threshold and the
submission as well: a session that has met its threshold once is submitted however few signatures are left, and by two
calls at once. -/
namespace Delego.SigningSession
open Delego.Process Delego.Data List Option Function

def counted (i : Nat) (tr : SessionTrace) : Option MultisigSession :=
  tr.findSome? fun e => if e.runner = i then goesOn e.op e.result else none

def alone (p : SessionPool) (o : Op) (ch : Choice) : Bool :=
  match goesOn o (perform o ch p.world).1 with
  | none => true
  | some session => p.trace.all fun e => match goesOn e.op e.result with
    | none => true
    | some other => decide (other.id ≠ session.id) || (p.runners[e.runner]?).all Program.done

/-- A signature is added as it was checked. What a call has counted is enough, and there when it submits; and it
learns of a submission that succeeds. -/
@[simp] def inOrder (p : SessionPool) (i : Nat) (o : Op) (ch : Choice) : Bool :=
  alone p o ch && match o with
  | .collect id signature => (p.world.session id).all fun session =>
    decide (session.status = .collecting) && session.signatures.all fun s => decide (s.signer ≠ signature.signer)
  | .submit id _ => (counted i p.trace).all fun session =>
    session.reached && session.signatures.all fun sig =>
      (p.world.session id).all (fun current => decide (sig ∈ current.signatures)) && decide (p.world.clock < sig.expiresAt)
  | .submitResult .. => match ch.fate with
    | .lost _ => false
    | _ => true
  | _ => true

/-! ### Sessions -/

def Verified (tr : SessionTrace) (xdr : String) (sig : PartialSignature) : Prop :=
  ∃ e ∈ tr, signedBy e.op e.result = some (xdr, uniqueSigners [sig.signer], sig.signedXdr)

/-- The signatures of a session are verified ones of different signers of its. -/
structure Good (tr : SessionTrace) (session : MultisigSession) : Prop where
  distinct : (session.signatures.map PartialSignature.signer).Nodup
  authorised : ∀ sig ∈ session.signatures, sig.signer ∈ session.configuredSigners
  verified : ∀ sig ∈ session.signatures, Verified tr session.baseXdr sig

/-- Sessions for one envelope, of the same signers, with the same threshold. -/
structure SameTerms (session session' : MultisigSession) : Prop where
  id : session'.id = session.id
  baseXdr : session'.baseXdr = session.baseXdr
  configuredSigners : session'.configuredSigners = session.configuredSigners
  threshold : session'.threshold = session.threshold

theorem SameTerms.refl (session : MultisigSession) : SameTerms session session := ⟨rfl, rfl, rfl, rfl⟩

theorem SameTerms.trans {s s' s'' : MultisigSession} (h : SameTerms s s') (h' : SameTerms s' s'') : SameTerms s s'' :=
  ⟨h'.id.trans h.id, h'.baseXdr.trans h.baseXdr, h'.configuredSigners.trans h.configuredSigners,
    h'.threshold.trans h.threshold⟩

section
variable {tr tr' : SessionTrace} {session : MultisigSession} {w w' : World}

theorem Verified.mono {xdr : String} {sig : PartialSignature} (h : Verified tr xdr sig) (htr : tr ⊆ tr') :
    Verified tr' xdr sig := by
  obtain ⟨e, he, hsigned⟩ := h
  exact ⟨e, htr he, hsigned⟩

theorem Good.mono (h : Good tr session) (htr : tr ⊆ tr') : Good tr' session :=
  ⟨h.distinct, h.authorised, fun sig hsig => (h.verified sig hsig).mono htr⟩

variable {session' : MultisigSession}

theorem Good.sublist (h : Good tr session) (hterms : SameTerms session session')
    (hsub : session'.signatures.Sublist session.signatures) : Good tr session' where
  distinct := (hsub.map _).nodup h.distinct
  authorised := fun sig hsig => hterms.configuredSigners ▸ h.authorised sig (hsub.subset hsig)
  verified := fun sig hsig => hterms.baseXdr ▸ h.verified sig (hsub.subset hsig)

theorem Good.collect (h : Good tr session) {signature : PartialSignature}
    (hnew : ∀ s ∈ session.signatures, s.signer ≠ signature.signer) (hauthd : signature.signer ∈ session.configuredSigners)
    (hverified : Verified tr session.baseXdr signature) : Good tr (session.collect signature) := by
  have hadded : Good tr { session with signatures := session.signatures ++ [signature] } := by
    refine ⟨?_, ?_, ?_⟩
    · simp only [map_append, map_cons, map_nil]
      rw [nodup_append]
      refine ⟨h.distinct, nodup_singleton _, ?_⟩
      rintro a ha _ hb rfl
      obtain ⟨s, hs, rfl⟩ := mem_map.mp ha
      exact hnew s hs (mem_singleton.mp hb)
    · intro sig hsig
      rcases mem_append.mp hsig with hsig | hsig
      · exact h.authorised sig hsig
      · rw [mem_singleton.mp hsig]
        exact hauthd
    · intro sig hsig
      rcases mem_append.mp hsig with hsig | hsig
      · exact h.verified sig hsig
      · rw [mem_singleton.mp hsig]
        exact hverified
  simp only [MultisigSession.collect]
  split
  · exact ⟨hadded.distinct, hadded.authorised, hadded.verified⟩
  · exact hadded

theorem sameTerms_collect (signature : PartialSignature) (session : MultisigSession) :
    SameTerms session (session.collect signature) := by
  simp only [MultisigSession.collect]
  split
  · exact ⟨rfl, rfl, rfl, rfl⟩
  · exact ⟨rfl, rfl, rfl, rfl⟩

theorem sameTerms_prune (now : Int) (session : MultisigSession) :
    SameTerms session (session.pruneExpiredSignatures now) := ⟨rfl, rfl, rfl, rfl⟩

theorem sameTerms_attach (xdr : String) (session : MultisigSession) : SameTerms session (session.attach xdr) :=
  ⟨rfl, rfl, rfl, rfl⟩

theorem sameTerms_finish (xdr result : Option String) (session : MultisigSession) :
    SameTerms session (session.finish xdr result) := ⟨rfl, rfl, rfl, rfl⟩

theorem sameTerms_fail (reason : String) (session : MultisigSession) : SameTerms session (session.fail reason) :=
  ⟨rfl, rfl, rfl, rfl⟩

variable {f : MultisigSession → MultisigSession}

theorem session_change {id : String} (hf : ∀ s, SameTerms s (f s)) (id' : String) :
    (w.change id f).session id' = if id' = id then (w.session id').map f else w.session id' :=
  lookup_update fun s => (hf s).id

/-- What is changed is a session on the same terms. -/
structure OnTerms (w w' : World) : Prop where
  kept : ∀ {id session}, w.session id = some session → ∃ session', w'.session id = some session' ∧ SameTerms session session'

theorem OnTerms.of_sessions (h : w'.sessions = w.sessions) : OnTerms w w' :=
  ⟨fun {id session} hsess => ⟨session, by rw [World.session, h]; exact hsess, .refl _⟩⟩

theorem onTerms_change {id : String} (hf : ∀ s, SameTerms s (f s)) :
    OnTerms w (w.change id f) := by
  refine ⟨fun {id' session} hsess => ?_⟩
  by_cases hid : id' = id
  · exact ⟨f session, by rw [session_change hf, if_pos hid, hsess, map_some], hf session⟩
  · exact ⟨session, by rw [session_change hf, if_neg hid, hsess], .refl _⟩

theorem onTerms_answer {o : Op} {ch : Choice} {a : o.Reply} (h : answer o ch w = .ok (a, w')) : OnTerms w w' := by
  cases o with
  | get | sign | save | submitResult | now =>
    cases h
    exact .of_sessions rfl
  | examineSignature id now | examineSubmission id now =>
    simp only [answer, answer.examine] at h
    split at h
    · cases h
    · cases h
      exact onTerms_change (sameTerms_prune now)
  | collect id signature =>
    simp only [answer] at h
    split at h
    · cases h
    · cases h
      exact onTerms_change (sameTerms_collect signature)
  | signersOf id =>
    simp only [answer] at h
    split at h
    · cases h
    · cases h
      exact .of_sessions rfl
  | submit id xdr =>
    simp only [answer] at h
    split at h
    · cases h
    · cases h
      exact ⟨(onTerms_change (w := w) (sameTerms_attach xdr)).kept⟩
  | finish id xdr result =>
    cases h
    exact onTerms_change (sameTerms_finish xdr result)
  | fail id reason =>
    cases h
    exact onTerms_change (sameTerms_fail reason)

end

/-! ### Submissions of a quorum -/

/-- Enough different signers of the session have verified signatures in it that have not expired. -/
def Sufficient (tr : SessionTrace) (submission : Submission) : Prop :=
  ∃ signatures : List PartialSignature, (signatures.map PartialSignature.signer).Nodup ∧
    submission.session.threshold ≤ signatures.length ∧
    ∀ sig ∈ signatures, sig ∈ submission.session.signatures ∧ submission.time < sig.expiresAt ∧
      sig.signer ∈ submission.session.configuredSigners ∧ Verified tr submission.session.baseXdr sig

/-- Sessions hold signatures that were given, and what was sent had enough. -/
structure Quorate (w : World) (tr : SessionTrace) (φ : Nat → Phase) : Prop where
  good : ∀ {id session}, w.session id = some session → Good tr session
  snapshots : ∀ e ∈ tr, ∀ session, goesOn e.op e.result = some session → Good tr session
  examined : ∀ {i id session}, φ i = .examined id session →
    ∃ current, w.session id = some current ∧ SameTerms session current
  signed : ∀ {i id session signers signedXdr}, φ i = .signed id session signers signedXdr →
    (∃ current, w.session id = some current ∧ SameTerms session current) ∧
      ∃ e ∈ tr, signedBy e.op e.result = some (session.baseXdr, signers, signedXdr)
  counted : ∀ {i id}, (φ i).Submits id →
    ∃ session current, counted i tr = some session ∧ w.session id = some current ∧ SameTerms session current
  submissions : ∀ submission ∈ w.submissions, Sufficient tr submission

section
variable {w w' : World} {tr tr' : SessionTrace} {φ : Nat → Phase} {i : Nat} {ch : Choice}
  {id : String}

variable {session : MultisigSession}

theorem OnTerms.found (h : OnTerms w w')
    (hfound : ∃ current, w.session id = some current ∧ SameTerms session current) :
    ∃ current, w'.session id = some current ∧ SameTerms session current := by
  obtain ⟨current, hcur, hterms⟩ := hfound
  obtain ⟨later, hlater, hterms'⟩ := h.kept hcur
  exact ⟨later, hlater, hterms.trans hterms'⟩

theorem onTerms_perform (o : Op) (ch : Choice) (w : World) : OnTerms w (perform o ch w).2 :=
  Fate.deliver_kept (P := OnTerms w) (.of_sessions rfl) fun _ _ hans => onTerms_answer hans

theorem good_change (hf : ∀ s, SameTerms s (f s))
    (hgood : ∀ {id session}, w.session id = some session → Good tr session)
    (hchanged : ∀ session, w.session id = some session → Good tr (f session)) {id' : String}
    (h : (w.change id f).session id' = some session') : Good tr session' := by
  rw [session_change hf] at h
  split at h
  · rename_i hid
    subst hid
    obtain ⟨session, hsess, rfl⟩ := map_eq_some_iff.mp h
    exact hchanged session hsess
  · exact hgood h

def Admits (w : World) (tr : SessionTrace) (o : Op) : Prop :=
  ∀ id signature, o = .collect id signature → ∀ session, w.session id = some session →
    (∀ s ∈ session.signatures, s.signer ≠ signature.signer) ∧ signature.signer ∈ session.configuredSigners ∧
      Verified tr session.baseXdr signature

variable {o : Op}

theorem good_answer {a : o.Reply} (hgood : ∀ {id session}, w.session id = some session → Good tr session)
    (hadmits : Admits w tr o) (h : answer o ch w = .ok (a, w')) {id' : String}
    (hsess : w'.session id' = some session') : Good tr session' := by
  cases o with
  | get | sign | save | submitResult | now =>
    cases h
    exact hgood hsess
  | examineSignature id now | examineSubmission id now =>
    simp only [answer, answer.examine] at h
    split at h
    · cases h
    · cases h
      refine good_change (sameTerms_prune now) hgood ?_ hsess
      exact fun session hs => (hgood hs).sublist (sameTerms_prune now session) filter_sublist
  | collect id signature =>
    simp only [answer] at h
    split at h
    · cases h
    · cases h
      refine good_change (sameTerms_collect signature) hgood ?_ hsess
      intro session hs
      obtain ⟨hnew, hauthd, hverified⟩ := hadmits id signature rfl session hs
      exact (hgood hs).collect hnew hauthd hverified
  | signersOf id =>
    simp only [answer] at h
    split at h
    · cases h
    · cases h
      exact hgood hsess
  | submit id xdr =>
    simp only [answer] at h
    split at h
    · cases h
    · cases h
      refine good_change (w := w) (sameTerms_attach xdr) hgood ?_ hsess
      exact fun session hs => (hgood hs).sublist (sameTerms_attach xdr session) (List.Sublist.refl _)
  | finish id xdr result =>
    cases h
    refine good_change (sameTerms_finish xdr result) hgood ?_ hsess
    exact fun session hs => (hgood hs).sublist (sameTerms_finish xdr result session) (List.Sublist.refl _)
  | fail id reason =>
    cases h
    refine good_change (sameTerms_fail reason) hgood ?_ hsess
    exact fun session hs => (hgood hs).sublist (sameTerms_fail reason session) (List.Sublist.refl _)

theorem good_perform (hgood : ∀ {id session}, w.session id = some session → Good tr session) (hadmits : Admits w tr o) :
    ∀ {id session}, (perform o ch w).2.session id = some session → Good tr session := by
  have hkept : ∀ id session, (perform o ch w).2.session id = some session → Good tr session :=
    Fate.deliver_kept (P := fun w' : World => ∀ id session, w'.session id = some session → Good tr session)
      (fun _ _ hs => hgood hs) fun _ _ hans _ _ hs => good_answer hgood hadmits hans hs
  intro id session hs
  exact hkept id session hs

theorem goesOn_session (h : goesOn o (perform o ch w).1 = some session) :
    o.decides = some session.id ∧ (perform o ch w).2.session session.id = some session := by
  cases o with
  | examineSubmission id now =>
    simp only [perform, fateOf, answer, answer.examine] at h ⊢
    cases hs : w.session id with
    | none =>
      rw [hs] at h
      cases h
    | some found =>
      rw [hs] at h
      simp only [Fate.deliver, Fate.carry, goesOn] at h ⊢
      split at h
      · cases h
        have hid : (found.pruneExpiredSignatures now).id = id := (sameTerms_prune now found).id.trans (lookup_key hs)
        rw [session_change (sameTerms_prune now), if_pos hid, hid, hs, map_some]
        exact ⟨rfl, rfl⟩
      · cases h
  | collect id signature =>
    simp only [perform, fateOf, answer] at h ⊢
    cases hs : w.session id with
    | none =>
      rw [hs] at h
      cases h
    | some found =>
      rw [hs] at h
      simp only [Fate.deliver, Fate.carry, goesOn] at h ⊢
      split at h
      · cases h
        have hid : (found.collect signature).id = id := (sameTerms_collect signature found).id.trans (lookup_key hs)
        rw [session_change (sameTerms_collect signature), if_pos hid, hid, hs, map_some]
        exact ⟨rfl, rfl⟩
      · cases h
  | _ => cases h

theorem examinedAs_session (h : examinedAs o (perform o ch w).1 = some (id, session)) :
    (perform o ch w).2.session id = some session := by
  cases o with
  | examineSignature id' now =>
    simp only [perform, fateOf, answer, answer.examine] at h ⊢
    cases hs : w.session id' with
    | none =>
      rw [hs] at h
      cases h
    | some found =>
      rw [hs] at h
      simp only [Fate.deliver, Fate.carry] at h ⊢
      cases h
      rw [session_change (sameTerms_prune now), if_pos rfl, hs, map_some]
  | _ => cases h

theorem counted_cons (j i : Nat) (o : Op) (r : sessionSignature.Result o) (tr : SessionTrace) :
    counted j (⟨i, o, r⟩ :: tr) = if i = j then (goesOn o r).or (counted j tr) else counted j tr := by
  simp only [counted, findSome?_cons]
  by_cases hij : i = j
  · simp only [hij, if_true]
    cases goesOn o r with
    | none => rfl
    | some session => rfl
  · simp only [hij, if_false]

def Unsigned (w : World) (o : Op) : Prop :=
  ∀ id signature, o = .collect id signature → ∀ session, w.session id = some session →
    session.status = .collecting ∧ ∀ s ∈ session.signatures, s.signer ≠ signature.signer

/-- What it says of a session that is submitted. -/
def StillCounted (w : World) (tr : SessionTrace) (i : Nat) (o : Op) : Prop :=
  ∀ id xdr, o = .submit id xdr → ∀ session, counted i tr = some session → session.reached = true ∧
    ∀ sig ∈ session.signatures, (∀ current, w.session id = some current → sig ∈ current.signatures) ∧
      w.clock < sig.expiresAt

theorem Quorate.admits (h : Quorate w tr φ) (ha : (φ i).Allows o) (hunsigned : Unsigned w o) : Admits w tr o := by
  rintro id signature rfl current hcur
  cases hφ : φ i with
  | signed id' session signers signedXdr =>
    rw [hφ] at ha
    obtain ⟨rfl, hauthd, rfl, hxdr⟩ := ha
    obtain ⟨⟨found, hfound, hterms⟩, e, he, hsigned⟩ := h.signed hφ
    obtain rfl : found = current := some.inj (hfound.symm.trans hcur)
    refine ⟨(hunsigned id signature rfl found hcur).2, hterms.configuredSigners ▸ hauthd, e, he, ?_⟩
    rw [hsigned, hterms.baseXdr, hxdr]
  | _ =>
    rw [hφ] at ha
    exact ha.elim

theorem Sufficient.mono {submission : Submission} (h : Sufficient tr submission) (htr : tr ⊆ tr') :
    Sufficient tr' submission := by
  obtain ⟨signatures, hdist, henough, hall⟩ := h
  refine ⟨signatures, hdist, henough, fun sig hsig => ?_⟩
  obtain ⟨hmem, htime, hauthd, hverified⟩ := hall sig hsig
  exact ⟨hmem, htime, hauthd, hverified.mono htr⟩

theorem counted_mem {j : Nat} (h : counted j tr = some session) :
    ∃ e ∈ tr, goesOn e.op e.result = some session := by
  obtain ⟨e, he, hgoes⟩ := exists_of_findSome?_eq_some h
  split at hgoes
  · exact ⟨e, he, hgoes⟩
  · cases hgoes

theorem submits_of_allows {ψ : Phase} {xdr : String} (h : ψ.Allows (.submit id xdr)) : ψ.Submits id := by
  cases ψ with
  | entered id' =>
    cases h
    exact .inl rfl
  | _ => exact h.elim

theorem Quorate.submissions_step (h : Quorate w tr φ) (ha : (φ i).Allows o) (hstill : StillCounted w tr i o) :
    ∀ submission ∈ (perform o ch w).2.submissions, Sufficient tr submission := by
  refine Fate.deliver_kept (P := fun w' : World => ∀ submission ∈ w'.submissions, Sufficient tr submission) h.submissions ?_
  intro a w' hans
  cases o with
  | submit id xdr =>
    simp only [answer] at hans
    split at hans
    · cases hans
    · rename_i found hfound
      cases hans
      intro submission hs
      rcases mem_append.mp hs with hs | hs
      · exact h.submissions submission hs
      · rw [mem_singleton.mp hs]
        obtain ⟨session, current, hcnt, hcur, hterms⟩ := h.counted (submits_of_allows ha)
        obtain rfl : found = current := some.inj (hfound.symm.trans hcur)
        obtain ⟨e, he, hgoes⟩ := counted_mem hcnt
        have hgood := h.snapshots e he session hgoes
        obtain ⟨hreach, hall⟩ := hstill id xdr rfl session hcnt
        refine ⟨session.signatures, hgood.distinct, ?_, ?_⟩
        · rw [hterms.threshold]
          exact of_decide_eq_true hreach
        · intro sig hsig
          obtain ⟨hmem, htime⟩ := hall sig hsig
          refine ⟨hmem found hfound, htime, hterms.configuredSigners ▸ hgood.authorised sig hsig, ?_⟩
          rw [hterms.baseXdr]
          exact hgood.verified sig hsig
  | get | sign | save | submitResult | now | finish | fail =>
    cases hans
    exact h.submissions
  | examineSignature | examineSubmission =>
    simp only [answer, answer.examine] at hans
    split at hans
    · cases hans
    · cases hans
      exact h.submissions
  | collect | signersOf =>
    simp only [answer] at hans
    split at hans
    · cases hans
    · cases hans
      exact h.submissions

theorem Quorate.step (h : Quorate w tr φ) (ha : (φ i).Allows o) (hunsigned : Unsigned w o)
    (hstill : StillCounted w tr i o) :
    Quorate (perform o ch w).2 (⟨i, o, (perform o ch w).1⟩ :: tr)
      (update φ i ((φ i).next o (perform o ch w).1)) := by
  have hkept := onTerms_perform o ch w
  have hgood : ∀ {id session}, (perform o ch w).2.session id = some session →
      Good (⟨i, o, (perform o ch w).1⟩ :: tr) session := fun hs =>
    (good_perform h.good (h.admits ha hunsigned) hs).mono (subset_cons_self _ _)
  refine ⟨hgood, ?_, ?_, ?_, ?_, ?_⟩
  · intro e he session hsess
    rcases mem_cons.mp he with rfl | he
    · exact hgood (goesOn_session hsess).2
    · exact (h.snapshots e he session hsess).mono (subset_cons_self _ _)
  · intro j id session hj
    by_cases hji : j = i
    · subst hji
      rw [update_self] at hj
      rcases next_examined ha hj with hpre | hexamined
      · exact hkept.found (h.examined hpre)
      · exact ⟨session, examinedAs_session hexamined, .refl session⟩
    · rw [update_of_ne hji] at hj
      exact hkept.found (h.examined hj)
  · intro j id session signers signedXdr hj
    have hlater : φ j = .signed id session signers signedXdr →
        (∃ current, (perform o ch w).2.session id = some current ∧ SameTerms session current) ∧
          ∃ e ∈ (⟨i, o, (perform o ch w).1⟩ :: tr : SessionTrace),
            signedBy e.op e.result = some (session.baseXdr, signers, signedXdr) := by
      intro hpre
      obtain ⟨hfound, e, he, hsigned⟩ := h.signed hpre
      exact ⟨hkept.found hfound, e, mem_cons_of_mem _ he, hsigned⟩
    by_cases hji : j = i
    · subst hji
      rw [update_self] at hj
      rcases next_signed ha hj with hpre | ⟨hexamined, hsigned⟩
      · exact hlater hpre
      · exact ⟨hkept.found (h.examined hexamined), _, mem_cons_self, hsigned⟩
    · rw [update_of_ne hji] at hj
      exact hlater hj
  · intro j id hj
    rw [counted_cons]
    by_cases hji : j = i
    · subst hji
      rw [update_self] at hj
      rw [if_pos rfl]
      rcases next_submits ha hj with ⟨hpre, hnone⟩ | ⟨hdecides, -, session, hsess⟩
      · obtain ⟨session, current, hcnt, hfound⟩ := h.counted hpre
        obtain ⟨later, hlater⟩ := hkept.found ⟨current, hfound⟩
        exact ⟨session, later, by rw [hnone, none_or, hcnt], hlater⟩
      · obtain ⟨hid, hfound⟩ := goesOn_session hsess
        obtain rfl : session.id = id := some.inj (hid.symm.trans hdecides)
        exact ⟨session, session, by rw [hsess, some_or], hfound, .refl session⟩
    · rw [update_of_ne hji] at hj
      rw [if_neg (Ne.symm hji)]
      obtain ⟨session, current, hcnt, hfound⟩ := h.counted hj
      obtain ⟨later, hlater⟩ := hkept.found ⟨current, hfound⟩
      exact ⟨session, later, hcnt, hlater⟩
  · exact fun submission hs => (h.submissions_step ha hstill submission hs).mono (subset_cons_self _ _)

end

end Delego.SigningSession
