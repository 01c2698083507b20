import Delego.CoSigning.Phases

/-! What the envelopes carry, in every run.

The signatures of a session are valid ones of different signers, and none is dropped: a session only
gains signatures (`Grows`). An envelope is combined of all of them, so it carries signatures of as
many signers as the threshold asks for (`Quorum`). -/
namespace Delego.CoSigning
open Delego.Process Delego.Data List Option

section
variable {sdk : Stellar}

def Carries (sdk : Stellar) (envelope : Transaction) (signer : String) : Prop :=
  ∃ keypair signature, sdk.fromPublicKey signer = .ok keypair ∧
    ⟨sdk.signatureHint keypair, signature⟩ ∈ envelope.signatures ∧ sdk.verify keypair envelope.hash signature = true

theorem pushNew_subset {seen pushed : List DecoratedSignature} {collected : CollectedSignature}
    (h : pushNew sdk seen collected = .ok pushed) :
    seen ⊆ pushed ∧ ∃ signature ∈ pushed, decorated sdk collected = .ok signature := by
  simp only [pushNew] at h
  cases hd : decorated sdk collected with
  | error message =>
    simp [hd] at h
  | ok signature =>
    rw [hd] at h
    by_cases hseen : signature ∈ seen
    · obtain rfl : seen = pushed := by simpa [bind, Except.bind, pure, Except.pure, hseen] using h
      exact ⟨List.Subset.refl _, signature, hseen, rfl⟩
    · obtain rfl : seen ++ [signature] = pushed := by simpa [bind, Except.bind, pure, Except.pure, hseen] using h
      exact ⟨subset_append_left _ _, signature, mem_append_right _ (mem_singleton_self _), rfl⟩

variable {collected : List CollectedSignature}

theorem foldlM_pushNew : ∀ {seen pushed : List DecoratedSignature}, collected.foldlM (pushNew sdk) seen = .ok pushed →
      seen ⊆ pushed ∧ ∀ c ∈ collected, ∃ signature ∈ pushed, decorated sdk c = .ok signature := by
  induction collected with
  | nil =>
    intro seen pushed h
    cases h
    exact ⟨List.Subset.refl _, by simp⟩
  | cons c rest ih =>
    intro seen pushed h
    rw [foldlM_cons] at h
    cases hc : pushNew sdk seen c with
    | error message =>
      rw [hc] at h
      cases h
    | ok seen' =>
      rw [hc] at h
      obtain ⟨hsub, hfirst⟩ := pushNew_subset hc
      obtain ⟨hsub', hrest⟩ := ih h
      refine ⟨List.Subset.trans hsub hsub', ?_⟩
      intro c' hc'
      rcases mem_cons.mp hc' with rfl | hc'
      · obtain ⟨signature, hmem, hdecorated⟩ := hfirst
        exact ⟨signature, hsub' hmem, hdecorated⟩
      · exact hrest c' hc'

variable {envelope : Transaction}

theorem combined_of {transactionXdr : String}
    (h : combineSignatures sdk transactionXdr collected = .ok envelope) :
    ∃ tx, parseBaseTransaction sdk transactionXdr = .ok tx ∧ envelope.hash = tx.hash ∧
      ∀ c ∈ collected, ∃ signature ∈ envelope.signatures, decorated sdk c = .ok signature := by
  simp only [combineSignatures] at h
  cases htx : parseBaseTransaction sdk transactionXdr with
  | error message =>
    rw [htx] at h
    cases h
  | ok tx =>
    cases hpushed : collected.foldlM (pushNew sdk) [] with
    | error message =>
      rw [htx, hpushed] at h
      cases h
    | ok pushed =>
      rw [htx, hpushed] at h
      cases h
      refine ⟨tx, rfl, rfl, fun c hc => ?_⟩
      obtain ⟨signature, hmem, hdecorated⟩ := (foldlM_pushNew hpushed).2 c hc
      exact ⟨signature, mem_append_right _ hmem, hdecorated⟩

theorem carries_of_validated {transactionXdr : String}
    (h : combineSignatures sdk transactionXdr collected = .ok envelope) {c : CollectedSignature} (hc : c ∈ collected)
    (hvalid : validatePartialSignature sdk transactionXdr c.signerAddress c.signatureBase64 = .ok ()) :
    Carries sdk envelope c.signerAddress := by
  obtain ⟨tx, htx, hhash, hall⟩ := combined_of h
  obtain ⟨signature, hmem, hdecorated⟩ := hall c hc
  simp only [validatePartialSignature] at hvalid
  cases hkey : sdk.fromPublicKey c.signerAddress with
  | error message =>
    simp [hkey] at hvalid
  | ok keypair =>
    cases hraw : decodeSignature sdk c.signatureBase64 with
    | error message =>
      rw [hkey, hraw] at hvalid
      cases hvalid
    | ok raw =>
      simp only [hkey, hraw, htx, bind, Except.bind] at hvalid
      simp only [decorated, hkey, hraw, bind, Except.bind, pure, Except.pure, Except.ok.injEq] at hdecorated
      subst hdecorated
      refine ⟨keypair, raw, hkey, hmem, ?_⟩
      rw [hhash]
      by_contra hnot
      simp [if_neg hnot] at hvalid

end

/-! ### Sessions -/

/-- The signatures of a session are valid ones of different signers of its. -/
structure Good (sdk : Stellar) (session : StoredCoSigningSession) : Prop where
  distinct : (session.collectedSignatures.map CollectedSignature.signerAddress).Nodup
  authorised : ∀ c ∈ session.collectedSignatures,
    session.authorizedSigners = [] ∨ c.signerAddress ∈ session.authorizedSigners
  validated : ∀ c ∈ session.collectedSignatures,
    validatePartialSignature sdk session.transactionXdr c.signerAddress c.signatureBase64 = .ok ()

/-- A session on the same terms, with the same signatures and perhaps more. -/
structure Grows (session session' : StoredCoSigningSession) : Prop where
  id : session'.sessionId = session.sessionId
  transactionXdr : session'.transactionXdr = session.transactionXdr
  requiredThreshold : session'.requiredThreshold = session.requiredThreshold
  authorizedSigners : session'.authorizedSigners = session.authorizedSigners
  signatures : session.collectedSignatures <+: session'.collectedSignatures

def SameSignatures (session session' : StoredCoSigningSession) : Prop :=
  Grows session session' ∧ session'.collectedSignatures = session.collectedSignatures

theorem Grows.refl (session : StoredCoSigningSession) : Grows session session := ⟨rfl, rfl, rfl, rfl, prefix_refl _⟩

theorem Grows.trans {s s' s'' : StoredCoSigningSession} (h : Grows s s') (h' : Grows s' s'') : Grows s s'' :=
  ⟨h'.id.trans h.id, h'.transactionXdr.trans h.transactionXdr, h'.requiredThreshold.trans h.requiredThreshold,
    h'.authorizedSigners.trans h.authorizedSigners, h.signatures.trans h'.signatures⟩

section
variable {sdk : Stellar} {session : StoredCoSigningSession}
  {session' : StoredCoSigningSession}

theorem Grows.reached (h : Grows session session') (hreach : session.reached = true) :
    session'.reached = true := by
  simp only [StoredCoSigningSession.reached, decide_eq_true_eq] at hreach ⊢
  rw [h.requiredThreshold]
  exact hreach.trans h.signatures.length_le

theorem Good.same (h : Good sdk session) (heq : SameSignatures session session') :
    Good sdk session' := by
  obtain ⟨hgrows, hsignatures⟩ := heq
  refine ⟨hsignatures ▸ h.distinct, ?_, ?_⟩
  · rw [hsignatures, hgrows.authorizedSigners]
    exact h.authorised
  · rw [hsignatures, hgrows.transactionXdr]
    exact h.validated

theorem SameSignatures.refl (session : StoredCoSigningSession) : SameSignatures session session := ⟨.refl session, rfl⟩

theorem sameSignatures_status (status : CoSigningSessionStatus) (session : StoredCoSigningSession) :
    SameSignatures session { session with status := status } := ⟨⟨rfl, rfl, rfl, rfl, prefix_refl _⟩, rfl⟩

theorem sameSignatures_markExpired (session : StoredCoSigningSession) : SameSignatures session session.markExpired := by
  simp only [StoredCoSigningSession.markExpired]
  split
  · exact sameSignatures_status _ session
  · exact .refl session

theorem sameSignatures_expire (now : Int) (session : StoredCoSigningSession) :
    SameSignatures session (session.expire now) := by
  simp only [StoredCoSigningSession.expire]
  split
  · split
    · exact sameSignatures_markExpired session
    · exact sameSignatures_status _ session
  · exact .refl session

theorem sameSignatures_finish (result : Option String) (session : StoredCoSigningSession) :
    SameSignatures session (session.finish result) := ⟨⟨rfl, rfl, rfl, rfl, prefix_refl _⟩, rfl⟩

theorem sameSignatures_fail (reason : String) (session : StoredCoSigningSession) :
    SameSignatures session (session.fail reason) := ⟨⟨rfl, rfl, rfl, rfl, prefix_refl _⟩, rfl⟩

variable {submit : Bool}

theorem launch_session {launched : StoredCoSigningSession}
    (h : launch sdk submit session = .ok (envelope, launched)) :
    combineSignatures sdk session.transactionXdr session.collectedSignatures = .ok envelope ∧
      SameSignatures session launched ∧ launched.status = if submit then session.status else .submitted := by
  simp only [launch] at h
  cases hc : combineSignatures sdk session.transactionXdr session.collectedSignatures with
  | error message =>
    simp [hc] at h
  | ok tx =>
    rw [hc] at h
    cases h
    cases submit with
    | true => exact ⟨rfl, ⟨⟨rfl, rfl, rfl, rfl, prefix_refl _⟩, rfl⟩, rfl⟩
    | false => exact ⟨rfl, ⟨⟨rfl, rfl, rfl, rfl, prefix_refl _⟩, rfl⟩, rfl⟩

/-- What adding a signature does to a session. -/
inductive Takes (sdk : Stellar) (signature : CollectedSignature) (session : StoredCoSigningSession) :
    Added → StoredCoSigningSession → Prop where
  | lapsed : Takes sdk signature session (.lapsed session.isOpen) session.markExpired
  | refused (message : String) : Takes sdk signature session (.refused message) session
  | taken {added : Added} {session' : StoredCoSigningSession} (collecting : session.status = .collecting)
      (authorised : session.authorizedSigners = [] ∨ signature.signerAddress ∈ session.authorizedSigners)
      (new : signature.signerAddress ∉ session.collectedSignatures.map CollectedSignature.signerAddress)
      (valid : validatePartialSignature sdk session.transactionXdr signature.signerAddress signature.signatureBase64 = .ok ())
      (outcome : added = .ready ∧ (session.push signature).reached = true ∧
          session' = { session.push signature with status := .ready } ∨
        added = .collected ∧ session' = session.push signature) : Takes sdk signature session added session'

theorem takes_addSignature (signature : CollectedSignature) (now : Int) (session : StoredCoSigningSession) :
    Takes sdk signature session (addSignature sdk signature now session).1 (addSignature sdk signature now session).2 := by
  simp only [addSignature]
  split
  · exact .lapsed
  · split
    · exact .refused _
    · rename_i hcoll
      split
      · exact .refused _
      · rename_i hauthd
        split
        · exact .refused _
        · rename_i hnew
          split
          · exact .refused _
          · rename_i hvalid
            have hauthd' : session.authorizedSigners = [] ∨ signature.signerAddress ∈ session.authorizedSigners := by
              by_contra hnot
              rw [not_or] at hnot
              exact hauthd hnot
            split
            · rename_i hreach
              exact .taken (not_not.mp hcoll) hauthd' hnew hvalid (.inl ⟨rfl, hreach, rfl⟩)
            · exact .taken (not_not.mp hcoll) hauthd' hnew hvalid (.inr ⟨rfl, rfl⟩)

variable {signature : CollectedSignature}

theorem good_push (h : Good sdk session)
    (authorised : session.authorizedSigners = [] ∨ signature.signerAddress ∈ session.authorizedSigners)
    (new : signature.signerAddress ∉ session.collectedSignatures.map CollectedSignature.signerAddress)
    (valid : validatePartialSignature sdk session.transactionXdr signature.signerAddress signature.signatureBase64 = .ok ()) :
    Good sdk (session.push signature) := by
  refine ⟨?_, ?_, ?_⟩
  · simp only [StoredCoSigningSession.push, map_append, map_cons, map_nil]
    rw [nodup_append]
    refine ⟨h.distinct, nodup_singleton _, ?_⟩
    rintro a ha _ hb rfl
    exact new (mem_singleton.mp hb ▸ ha)
  · intro c hc
    rcases mem_append.mp hc with hc | hc
    · exact h.authorised c hc
    · rw [mem_singleton.mp hc]
      exact authorised
  · intro c hc
    rcases mem_append.mp hc with hc | hc
    · exact h.validated c hc
    · rw [mem_singleton.mp hc]
      exact valid

theorem grows_push (signature : CollectedSignature) (session : StoredCoSigningSession) :
    Grows session (session.push signature) := ⟨rfl, rfl, rfl, rfl, prefix_append _ _⟩

theorem Takes.grows {added : Added} (h : Takes sdk signature session added session') :
    Grows session session' := by
  cases h with
  | lapsed => exact (sameSignatures_markExpired session).1
  | refused message => exact .refl session
  | taken collecting authorised new valid outcome =>
    rcases outcome with ⟨-, -, rfl⟩ | ⟨-, rfl⟩
    · exact (grows_push signature session).trans (sameSignatures_status _ _).1
    · exact grows_push signature session

theorem Takes.good {added : Added} (h : Takes sdk signature session added session')
    (hgood : Good sdk session) : Good sdk session' := by
  cases h with
  | lapsed => exact hgood.same (sameSignatures_markExpired session)
  | refused message => exact hgood
  | taken collecting authorised new valid outcome =>
    have hpushed := good_push hgood authorised new valid
    rcases outcome with ⟨-, -, rfl⟩ | ⟨-, rfl⟩
    · exact hpushed.same (sameSignatures_status _ _)
    · exact hpushed

/-- How a session is submitted by a call of its own. -/
inductive Enters (sdk : Stellar) (submit : Bool) (session : StoredCoSigningSession) :
    Entered → Option Transaction → StoredCoSigningSession → Prop where
  | lapsed : Enters sdk submit session (.lapsed session.isOpen) none session.markExpired
  | already : Enters sdk submit session .already none session
  | refused (message : String) : Enters sdk submit session (.refused message) none session
  | thrown (message : String) (unsubmitted : session.status ≠ .submitted) (unexpired : session.status ≠ .expired) :
      Enters sdk submit session (.refused message) none { session with status := .ready }
  | launched {envelope : Transaction} {session' : StoredCoSigningSession} (unsubmitted : session.status ≠ .submitted)
      (unexpired : session.status ≠ .expired) (reached : session.reached = true)
      (combined : launch sdk submit { session with status := .ready } = .ok (envelope, session')) :
      Enters sdk submit session .launched (some envelope) session'

theorem enters_enter (submit : Bool) (now : Int) (session : StoredCoSigningSession) :
    Enters sdk submit session (enter sdk submit now session).1 (enter sdk submit now session).2.1
      (enter sdk submit now session).2.2 := by
  simp only [enter]
  split
  · exact .lapsed
  · split
    · exact .already
    · rename_i hunsubmitted
      split
      · exact .refused _
      · rename_i hunexpired
        split
        · exact .refused _
        · rename_i hreach
          split
          · exact .thrown _ hunsubmitted hunexpired
          · rename_i hlaunch
            exact .launched hunsubmitted hunexpired (by simpa using hreach) hlaunch

theorem Enters.same {entered : Entered} {envelope : Option Transaction}
    (h : Enters sdk submit session entered envelope session') : SameSignatures session session' := by
  cases h with
  | lapsed => exact sameSignatures_markExpired session
  | already => exact .refl session
  | refused message => exact .refl session
  | thrown message unsubmitted unexpired => exact sameSignatures_status _ session
  | launched unsubmitted unexpired reached combined =>
    obtain ⟨-, heq, -⟩ := launch_session combined
    exact ⟨(sameSignatures_status _ session).1.trans heq.1, heq.2⟩

theorem sameSignatures_launched (submit : Bool) (session : StoredCoSigningSession) :
    SameSignatures session (launched sdk submit session) := by
  simp only [launched]
  split
  · exact .refl session
  · rename_i hlaunch
    exact (launch_session hlaunch).2.1

end

/-- What becomes of a session in one operation, with its result. -/
inductive Becomes (sdk : Stellar) (id : String) (session : StoredCoSigningSession) :
    (o : Op) → coSigningSignature.Result o → StoredCoSigningSession → Prop where
  | same {o : Op} {r : coSigningSignature.Result o} {session' : StoredCoSigningSession}
      (same : SameSignatures session session') (status : session'.status = session.status)
      (aside : goesOn o r ≠ some id) : Becomes sdk id session o r session'
  | takes {signature : CollectedSignature} {now : Int} {added : Added} {session' : StoredCoSigningSession}
      (takes : Takes sdk signature session added session') : Becomes sdk id session (.add id signature now) (.ok added) session'
  | enters {submit : Bool} {now : Int} {entered : Entered} {envelope : Option Transaction} {session' : StoredCoSigningSession}
      (enters : Enters sdk submit session entered envelope session') :
      Becomes sdk id session (.enter id submit now) (.ok entered) session'
  | launches {submit : Bool} {r : coSigningSignature.Result (.launch id submit)} {envelope : Transaction}
      {session' : StoredCoSigningSession} (launches : launch sdk submit session = .ok (envelope, session')) :
      Becomes sdk id session (.launch id submit) r session'
  | finishes (result : String) (r : coSigningSignature.Result (.finish id result)) :
      Becomes sdk id session (.finish id result) r (session.finish (some result))
  | expires (now : Int) : Becomes sdk id session (.expire id now) (.ok session.isOpen) (session.expire now)

section
variable {sdk : Stellar} {w w' : World} {o : Op} {ch : Choice} {id : String} {session session' : StoredCoSigningSession}
  {r : coSigningSignature.Result o}

theorem Becomes.refl (session : StoredCoSigningSession) (aside : goesOn o r ≠ some id) : Becomes sdk id session o r session :=
  .same (.refl session) rfl aside

variable {id' : String}

theorem goesOn_add {signature : CollectedSignature} {now : Int} {r : coSigningSignature.Result (.add id' signature now)}
    (h : goesOn (.add id' signature now) r = some id) :
    id = id' ∧ r = .ok .ready := by
  cases r with
  | error message => cases h
  | ok added =>
    cases added with
    | ready =>
      cases h
      exact ⟨rfl, rfl⟩
    | _ => cases h

theorem goesOn_enter {now : Int} {r : coSigningSignature.Result (.enter id' submit now)}
    (h : goesOn (.enter id' submit now) r = some id) : id = id' ∧ r = .ok .launched := by
  cases r with
  | error message => cases h
  | ok entered =>
    cases entered with
    | launched =>
      cases h
      exact ⟨rfl, rfl⟩
    | _ => cases h

theorem goesOn_error (o : Op) (message : String) : goesOn o (.error message) ≠ some id := by cases o <;> nofun

variable {f : StoredCoSigningSession → StoredCoSigningSession}

theorem session_change (hf : ∀ s, Grows s (f s)) (id' : String) :
    (w.change id f).session id' = if id' = id then (w.session id').map f else w.session id' :=
  lookup_update fun s => (hf s).id

theorem session_sent (submit : Bool) (envelope : Option Transaction) (id' : String) :
    (w.sent submit session envelope).session id' = w.session id' := by
  simp only [World.sent]
  split <;> rfl

theorem becomes_change (hf : ∀ s, Grows s (f s)) (hgoes : ∀ id, goesOn o r = some id → id = id')
    (hbecomes : ∀ session, id = id' → w.session id' = some session → Becomes sdk id session o r (f session))
    (h : (w.change id' f).session id = some session') :
    ∃ session, w.session id = some session ∧ Becomes sdk id session o r session' := by
  rw [session_change hf] at h
  split at h
  · rename_i hid
    obtain ⟨session, hsess, rfl⟩ := map_eq_some_iff.mp h
    exact ⟨session, hsess, hbecomes session hid (hid ▸ hsess)⟩
  · rename_i hid
    exact ⟨session', h, .refl session' fun h => hid (hgoes id h)⟩

theorem becomes_answer {a : o.Reply} (h : answer sdk o ch w = .ok (a, w')) (hsess : w'.session id = some session') :
    ∃ session, w.session id = some session ∧ Becomes sdk id session o (.ok a) session' := by
  cases o with
  | get | save | submitResult | now =>
    cases h
    exact ⟨session', hsess, .refl session' nofun⟩
  | add id' signature now =>
    simp only [answer] at h
    split at h
    · cases h
    · rename_i stored hstore
      cases h
      refine becomes_change (fun s => (takes_addSignature signature now s).grows) (fun _ h => (goesOn_add h).1) ?_ hsess
      rintro session rfl hs
      obtain rfl : stored = session := some.inj (hstore.symm.trans hs)
      exact .takes (takes_addSignature signature now stored)
  | enter id' submit now =>
    simp only [answer] at h
    split at h
    · cases h
    · rename_i stored hstore
      cases h
      rw [session_sent] at hsess
      refine becomes_change (fun s => (enters_enter submit now s).same.1) (fun _ h => (goesOn_enter h).1) ?_ hsess
      rintro session rfl hs
      obtain rfl : stored = session := some.inj (hstore.symm.trans hs)
      exact .enters (enters_enter submit now stored)
  | launch id' submit =>
    simp only [answer] at h
    split at h
    · cases h
    · rename_i stored hstore
      split at h
      · cases h
      · rename_i envelope after hlaunch
        cases h
        rw [session_sent] at hsess
        refine becomes_change (fun s => (sameSignatures_launched submit s).1) nofun ?_ hsess
        rintro session rfl hs
        obtain rfl : stored = session := some.inj (hstore.symm.trans hs)
        rw [show launched sdk submit stored = after by simp only [launched, hlaunch]]
        exact .launches hlaunch
  | finish id' result =>
    cases h
    refine becomes_change (fun s => (sameSignatures_finish _ s).1) nofun ?_ hsess
    rintro session rfl -
    exact .finishes result _
  | fail id' reason =>
    cases h
    refine becomes_change (fun s => (sameSignatures_fail _ s).1) nofun ?_ hsess
    exact fun s _ _ => .same (sameSignatures_fail _ s) rfl nofun
  | expire id' now =>
    simp only [answer] at h
    split at h
    · cases h
    · rename_i stored hstore
      cases h
      refine becomes_change (fun s => (sameSignatures_expire now s).1) nofun ?_ hsess
      rintro session rfl hs
      obtain rfl : stored = session := some.inj (hstore.symm.trans hs)
      exact .expires now

theorem perform_cases (o : Op) (ch : Choice) (w : World) :
    (∃ message, (perform sdk o ch w).1 = .error message ∧ (perform sdk o ch w).2.sessions = w.sessions ∧
        (perform sdk o ch w).2.submissions = w.submissions) ∨
      ∃ a w', answer sdk o ch w = .ok (a, w') ∧ perform sdk o ch w = (.ok a, w') := by
  rcases (fateOf o ch).deliver_cases (answer sdk o ch w) w with
    ⟨message, h⟩ | ⟨a, w', hans, h | ⟨message, h⟩⟩
  · exact .inl ⟨message, by rw [perform, h], by rw [perform, h], by rw [perform, h]⟩
  · exact .inr ⟨a, w', hans, h⟩
  · refine .inl ⟨message, by rw [perform, h], ?_⟩
    rw [perform, h]
    cases o with
    | submitResult id =>
      cases hans
      exact ⟨rfl, rfl⟩
    | _ =>
      simp only [fateOf, Fate.deliver, hans, Fate.carry] at h
      cases h

theorem becomes_perform (hsess : (perform sdk o ch w).2.session id = some session') :
    ∃ session, w.session id = some session ∧ Becomes sdk id session o (perform sdk o ch w).1 session' := by
  rcases perform_cases o ch w with ⟨message, herror, heq, -⟩ | ⟨a, w', hans, hperf⟩
  · rw [World.session, heq] at hsess
    refine ⟨session', hsess, .refl session' ?_⟩
    rw [herror]
    exact goesOn_error o message
  · rw [hperf] at hsess ⊢
    exact becomes_answer hans hsess

theorem Becomes.grows (h : Becomes sdk id session o r session') : Grows session session' := by
  cases h with
  | same same status aside => exact same.1
  | takes takes => exact takes.grows
  | enters enters => exact enters.same.1
  | launches launches => exact (launch_session launches).2.1.1
  | finishes result => exact (sameSignatures_finish _ session).1
  | expires now => exact (sameSignatures_expire now session).1

theorem Becomes.good (h : Becomes sdk id session o r session') (hgood : Good sdk session) : Good sdk session' := by
  cases h with
  | same same status aside => exact hgood.same same
  | takes takes => exact takes.good hgood
  | enters enters => exact hgood.same enters.same
  | launches launches => exact hgood.same (launch_session launches).2.1
  | finishes result => exact hgood.same (sameSignatures_finish _ session)
  | expires now => exact hgood.same (sameSignatures_expire now session)

theorem found_change (hf : ∀ s, Grows s (f s)) (h : w.session id = some session) :
    ∃ session', (w.change id' f).session id = some session' := by
  rw [session_change hf, h]
  split
  · exact ⟨f session, rfl⟩
  · exact ⟨session, rfl⟩

theorem found_answer {a : o.Reply} (hans : answer sdk o ch w = .ok (a, w')) (h : w.session id = some session) :
    ∃ session', w'.session id = some session' := by
  cases o with
  | get | save | submitResult | now =>
    cases hans
    exact ⟨session, h⟩
  | add id' signature now =>
    simp only [answer] at hans
    split at hans
    · cases hans
    · cases hans
      exact found_change (fun s => (takes_addSignature signature now s).grows) h
  | enter id' submit now =>
    simp only [answer] at hans
    split at hans
    · cases hans
    · cases hans
      simp only [session_sent]
      exact found_change (fun s => (enters_enter submit now s).same.1) h
  | launch id' submit =>
    simp only [answer] at hans
    split at hans
    · cases hans
    · split at hans
      · cases hans
      · cases hans
        simp only [session_sent]
        exact found_change (fun s => (sameSignatures_launched submit s).1) h
  | finish id' result =>
    cases hans
    exact found_change (fun s => (sameSignatures_finish _ s).1) h
  | fail id' reason =>
    cases hans
    exact found_change (fun s => (sameSignatures_fail _ s).1) h
  | expire id' now =>
    simp only [answer] at hans
    split at hans
    · cases hans
    · cases hans
      exact found_change (fun s => (sameSignatures_expire now s).1) h

theorem becomes_of_session (o : Op) (ch : Choice) (h : w.session id = some session) :
    ∃ session', (perform sdk o ch w).2.session id = some session' ∧
      Becomes sdk id session o (perform sdk o ch w).1 session' := by
  have hfound : ∃ session', (perform sdk o ch w).2.session id = some session' := by
    rcases perform_cases o ch w with ⟨message, -, heq, -⟩ | ⟨a, w', hans, hperf⟩
    · exact ⟨session, by rw [World.session, heq]; exact h⟩
    · rw [hperf]
      exact found_answer hans h
  obtain ⟨session', hsess'⟩ := hfound
  obtain ⟨before, hpre, hbecomes⟩ := becomes_perform hsess'
  obtain rfl : session = before := some.inj (h.symm.trans hpre)
  exact ⟨session', hsess', hbecomes⟩

end

/-- The envelope carries valid signatures of as many different signers of the session as are required. -/
def Quorum (sdk : Stellar) (submission : Submission) : Prop :=
  ∃ signers : List String, signers.Nodup ∧ submission.session.requiredThreshold ≤ signers.length ∧
    ∀ signer ∈ signers, (submission.session.authorizedSigners = [] ∨ signer ∈ submission.session.authorizedSigners) ∧
      Carries sdk submission.envelope signer

/-- A signature that a call has been told is taken. -/
def accepted : (o : Op) → coSigningSignature.Result o → Option (String × CollectedSignature)
  | .add id signature _, .ok .collected => some (id, signature)
  | .add id signature _, .ok .ready => some (id, signature)
  | _, _ => none

/-- Signatures are valid, and what was sent had enough. -/
structure Authentic (sdk : Stellar) (w : World) (tr : CoSigningTrace) (φ : Nat → Phase) : Prop where
  good : ∀ {id session}, w.session id = some session → Good sdk session
  reached : ∀ {i id}, φ i = .entered id → ∃ session, w.session id = some session ∧ session.reached = true
  submissions : ∀ submission ∈ w.submissions, Quorum sdk submission
  accepted : ∀ e ∈ tr, ∀ id signature, accepted e.op e.result = some (id, signature) →
    ∃ session, w.session id = some session ∧ signature ∈ session.collectedSignatures

section
variable {sdk : Stellar} {w : World} {tr : CoSigningTrace} {φ : Nat → Phase} {i : Nat} {o : Op} {ch : Choice}

theorem quorum_of_good {session snapshot : StoredCoSigningSession} (h : Good sdk session)
    (hgrows : SameSignatures session snapshot) (hreach : session.reached = true)
    (hcombined : combineSignatures sdk session.transactionXdr session.collectedSignatures = .ok envelope) :
    Quorum sdk ⟨snapshot, envelope⟩ := by
  refine ⟨session.collectedSignatures.map CollectedSignature.signerAddress, h.distinct, ?_, ?_⟩
  · rw [length_map, hgrows.1.requiredThreshold]
    exact of_decide_eq_true hreach
  · intro signer hsigner
    obtain ⟨c, hc, rfl⟩ := mem_map.mp hsigner
    rw [hgrows.1.authorizedSigners]
    exact ⟨h.authorised c hc, carries_of_validated hcombined hc (h.validated c hc)⟩

theorem sent_mem {session : StoredCoSigningSession} {envelope : Option Transaction} {submission : Submission}
    (h : submission ∈ (w.sent submit session envelope).submissions) :
    submission ∈ w.submissions ∨ ∃ tx, envelope = some tx ∧ submission = ⟨session, tx⟩ := by
  simp only [World.sent] at h
  split at h
  · rename_i tx
    rcases mem_append.mp h with h | h
    · exact .inl h
    · exact .inr ⟨tx, rfl, mem_singleton.mp h⟩
  · exact .inl h

variable {id : String}

theorem launches_entered {ψ : Phase} (ha : ψ.Allows (.launch id submit)) : ψ = .entered id := by
  cases ψ with
  | entered id' =>
    cases ha
    rfl
  | _ => exact ha.elim

theorem submissions_perform (ha : (φ i).Allows o) {submission : Submission}
    (h : submission ∈ (perform sdk o ch w).2.submissions) :
    submission ∈ w.submissions ∨ ∃ id session, w.session id = some session ∧ SameSignatures session submission.session ∧
        combineSignatures sdk session.transactionXdr session.collectedSignatures = .ok submission.envelope ∧
        (submission.session.status = .ready ∧ session.reached = true ∧ goesOn o (perform sdk o ch w).1 = some id ∨
          φ i = .entered id ∧ submission.session = session) := by
  rcases perform_cases o ch w with ⟨message, -, -, heq⟩ | ⟨a, w', hans, hperf⟩
  · rw [heq] at h
    exact .inl h
  · rw [hperf] at h ⊢
    cases o with
    | get | save | submitResult | now | finish | fail =>
      cases hans
      exact .inl h
    | add | expire =>
      simp only [answer] at hans
      split at hans
      · cases hans
      · cases hans
        exact .inl h
    | enter id submit now =>
      simp only [answer] at hans
      split at hans
      · cases hans
      · rename_i stored hstore
        cases hans
        have henters : Enters sdk submit stored _ _ _ := enters_enter submit now stored
        revert h henters
        generalize (enter sdk submit now stored).1 = entered
        generalize (enter sdk submit now stored).2.1 = envelope
        generalize (enter sdk submit now stored).2.2 = after
        intro h henters
        rcases sent_mem h with h | ⟨tx, rfl, rfl⟩
        · exact .inl h
        · cases henters with
          | launched unsubmitted unexpired reached combined =>
            exact .inr ⟨id, stored, hstore, sameSignatures_status _ stored, (launch_session combined).1,
              .inl ⟨rfl, reached, rfl⟩⟩
    | launch id submit =>
      simp only [answer] at hans
      split at hans
      · cases hans
      · rename_i stored hstore
        split at hans
        · cases hans
        · rename_i envelope after hlaunch
          cases hans
          rcases sent_mem h with h | ⟨tx, htx, rfl⟩
          · exact .inl h
          · cases htx
            exact .inr ⟨id, stored, hstore, .refl stored, (launch_session hlaunch).1, .inr ⟨launches_entered ha, rfl⟩⟩

variable {signature : CollectedSignature}

theorem takes_perform {now : Int} {added : Added}
    (h : (perform sdk (.add id signature now) ch w).1 = .ok added) :
    ∃ stored session', w.session id = some stored ∧
      (perform sdk (.add id signature now) ch w).2.session id = some session' ∧
      Takes sdk signature stored added session' := by
  cases hstore : w.session id with
  | none =>
    simp only [perform, answer, hstore, Fate.deliver] at h
    cases h
  | some stored =>
    simp only [perform, fateOf, answer, hstore, Fate.deliver, Fate.carry] at h ⊢
    cases h
    refine ⟨stored, (addSignature sdk signature now stored).2, rfl, ?_, takes_addSignature signature now stored⟩
    rw [session_change fun s => (takes_addSignature signature now s).grows, if_pos rfl, hstore, map_some]

theorem accepted_perform (h : accepted o (perform sdk o ch w).1 = some (id, signature)) :
    ∃ session, (perform sdk o ch w).2.session id = some session ∧ signature ∈ session.collectedSignatures := by
  cases o with
  | add id' given now =>
    cases hr : (perform sdk (.add id' given now) ch w).1 with
    | error message =>
      rw [hr] at h
      cases h
    | ok added =>
      rw [hr] at h
      obtain ⟨stored, session', -, hsess', htakes⟩ := takes_perform hr
      cases htakes with
      | lapsed => cases h
      | refused message => cases h
      | taken collecting authorised new valid outcome =>
        rcases outcome with ⟨rfl, -, rfl⟩ | ⟨rfl, rfl⟩
        · cases h
          exact ⟨_, hsess', mem_append_right _ (mem_singleton_self _)⟩
        · cases h
          exact ⟨_, hsess', mem_append_right _ (mem_singleton_self _)⟩
  | _ => cases h

theorem reached_perform {now : Int}
    (h : goesOn (.add id signature now) (perform sdk (.add id signature now) ch w).1 = some id) :
    ∃ session, (perform sdk (.add id signature now) ch w).2.session id = some session ∧
      session.reached = true ∧ session.status = .ready := by
  cases hr : (perform sdk (.add id signature now) ch w).1 with
  | error message =>
    rw [hr] at h
    cases h
  | ok added =>
    rw [hr] at h
    obtain ⟨stored, session', -, hsess', htakes⟩ := takes_perform hr
    cases htakes with
    | lapsed => cases h
    | refused message => cases h
    | taken collecting authorised new valid outcome =>
      rcases outcome with ⟨rfl, hreach, rfl⟩ | ⟨rfl, rfl⟩
      · exact ⟨_, hsess', hreach, rfl⟩
      · cases h

theorem Authentic.step (h : Authentic sdk w tr φ) (ha : (φ i).Allows o) :
    Authentic sdk (perform sdk o ch w).2 (⟨i, o, (perform sdk o ch w).1⟩ :: tr)
      (Function.update φ i ((φ i).next o (perform sdk o ch w).1)) := by
  have hkept : ∀ {id session}, w.session id = some session → ∃ session',
      (perform sdk o ch w).2.session id = some session' ∧ Grows session session' := by
    intro id session hsess
    obtain ⟨session', hsess', hbecomes⟩ := becomes_of_session o ch hsess
    exact ⟨session', hsess', hbecomes.grows⟩
  refine ⟨?_, ?_, ?_, ?_⟩
  · intro id session' hsess'
    obtain ⟨session, hsess, hbecomes⟩ := becomes_perform hsess'
    exact hbecomes.good (h.good hsess)
  · intro j id hj
    have hlater : φ j = .entered id →
        ∃ session', (perform sdk o ch w).2.session id = some session' ∧ session'.reached = true := by
      intro hpre
      obtain ⟨session, hsess, hreach⟩ := h.reached hpre
      obtain ⟨session', hsess', hgrows⟩ := hkept hsess
      exact ⟨session', hsess', hgrows.reached hreach⟩
    by_cases hji : j = i
    · subst hji
      rw [Function.update_self] at hj
      rcases next_entered ha hj with ⟨hpre, -⟩ | ⟨-, signature, now, rfl, hgoes⟩
      · exact hlater hpre
      · obtain ⟨session, hsess, hreach, -⟩ := reached_perform hgoes
        exact ⟨session, hsess, hreach⟩
    · rw [Function.update_of_ne hji] at hj
      exact hlater hj
  · intro submission hs
    rcases submissions_perform ha hs with hs | ⟨id, session, hsess, heq, hcombined, hwhence⟩
    · exact h.submissions submission hs
    · have hreach : session.reached = true := by
        rcases hwhence with ⟨-, hreach, -⟩ | ⟨hentered, -⟩
        · exact hreach
        · obtain ⟨current, hcur, hreach⟩ := h.reached hentered
          obtain rfl : current = session := some.inj (hcur.symm.trans hsess)
          exact hreach
      exact quorum_of_good (h.good hsess) heq hreach hcombined
  · intro e he id signature hacc
    rcases mem_cons.mp he with rfl | he
    · exact accepted_perform hacc
    · obtain ⟨session, hsess, hmem⟩ := h.accepted e he id signature hacc
      obtain ⟨session', hsess', hgrows⟩ := hkept hsess
      exact ⟨session', hsess', hgrows.signatures.subset hmem⟩

theorem Authentic.passes (h : Authentic sdk w tr φ) (clock : Int) : Authentic sdk { w with clock := clock } tr φ :=
  ⟨h.good, h.reached, h.submissions, h.accepted⟩

theorem inductive_authentic : Inductive (system sdk) coSigning .ready (fun _ _ => True) (Authentic sdk) where
  body := fun _ call _ => follows_body call
  arrive := by
    intro p φ call w _ ht hw
    cases hw
    exact ht.holds
  drift := by
    intro p φ e _ ht
    cases e with
    | passes ms => exact ht.holds.passes _
  answers := fun p _ _ o ch _ _ _ _ => ⟨_, certain_perform sdk o ch p.world, rfl⟩
  step := by
    rintro p φ i o ch _ - hp ht ha ⟨-, rfl⟩
    exact ht.holds.step ha

end

end Delego.CoSigning
