import Delego.AccountRecovery.Service
import Delego.Data.History

/-! The life of a recovery, over any history of calls.

As long as no request that is over is approved up to its threshold, nobody approves and rejects the same request,
and no request is completed after it has expired, a request that is over stays so, and one is completed only
when guardians that weigh enough have approved it and its delay is over (`lifecycle`). -/
namespace Delego.AccountRecovery
open Delego.Data List Option

variable {W : Type} {s : Settings W} {requests : List RecoveryRequest}

/-! ### Rows -/

theorem written_id (stored row : RecoveryRequest) : (written s stored row).id = row.id := by
  unfold written
  split
  · rfl
  · rfl

theorem written_status (stored row : RecoveryRequest) : (written s stored row).status = row.status := by
  unfold written
  split
  · rfl
  · rfl

theorem written_accountId (stored row : RecoveryRequest) : (written s stored row).accountId = row.accountId := by
  unfold written
  split
  · rfl
  · rfl

theorem written_delayEndsAt (stored row : RecoveryRequest) : (written s stored row).delayEndsAt = row.delayEndsAt := by
  unfold written
  split
  · rfl
  · rfl

theorem mem_written_approved {stored row : RecoveryRequest} {g : String} (h : g ∈ (written s stored row).guardiansApproved) :
    g ∈ row.guardiansApproved ∨ g ∈ stored.guardiansApproved := by
  unfold written at h
  split at h
  · exact .inl h
  · exact .inr h

theorem written_rejected {stored row : RecoveryRequest} (h : s.savesInPlace = true) :
    (written s stored row).guardiansRejected = row.guardiansRejected := by
  rw [written, if_pos h]

theorem written_written (stored row row' : RecoveryRequest) : written s (written s stored row) row' = written s stored row' := by
  unfold written
  split
  · rfl
  · rfl

theorem lookup_save (row : RecoveryRequest) (id : String) : lookup RecoveryRequest.id (save s requests row) id =
    if id = row.id then (lookup RecoveryRequest.id requests id).map fun stored => written s stored row
    else lookup RecoveryRequest.id requests id := by
  unfold save
  by_cases hid : id = row.id
  · subst hid
    rw [if_pos rfl]
    cases hstore : lookup RecoveryRequest.id requests row.id with
    | none => exact hstore
    | some stored =>
      have hkey : (written s stored row).id = row.id := written_id stored row
      simp only [map_some]
      rw [← hkey] at hstore ⊢
      exact lookup_replace_self hstore
  · rw [if_neg hid]
    cases lookup RecoveryRequest.id requests row.id with
    | none => rfl
    | some stored => exact lookup_replace_ne (by rwa [written_id])

/-- A call writes the row of a request, and no other. -/
structure Writes (s : Settings W) (requests requests' : List RecoveryRequest) (row row' : RecoveryRequest) : Prop where
  stored : lookup RecoveryRequest.id requests row.id = some row
  same : row'.id = row.id ∧ row'.accountId = row.accountId ∧ row'.expiresAt = row.expiresAt
  after : ∀ id, lookup RecoveryRequest.id requests' id =
    if id = row.id then some (written s row row') else lookup RecoveryRequest.id requests id

theorem writes_save {id : String} {row row' : RecoveryRequest} (h : lookup RecoveryRequest.id requests id = some row)
    (heq : row'.id = row.id ∧ row'.accountId = row.accountId ∧ row'.expiresAt = row.expiresAt) :
    Writes s requests (save s requests row') row row' := by
  obtain rfl := lookup_key h
  refine ⟨h, heq, fun id => ?_⟩
  rw [lookup_save, heq.1]
  split
  · rename_i hid
    rw [hid, h, map_some]
  · rfl

theorem Writes.save {requests' : List RecoveryRequest} {row row' row'' : RecoveryRequest}
    (h : Writes s requests requests' row row')
    (heq : row''.id = row'.id ∧ row''.accountId = row'.accountId ∧ row''.expiresAt = row'.expiresAt) :
    Writes s requests (save s requests' row'') row row'' := by
  obtain ⟨hid, hacct, hexpires⟩ := h.same
  refine ⟨h.stored, ⟨heq.1.trans hid, heq.2.1.trans hacct, heq.2.2.trans hexpires⟩, fun id => ?_⟩
  rw [lookup_save, h.after, heq.1, hid]
  split
  · rw [map_some, written_written]
  · rfl

section
variable {recoveryId guardianId accountId : String} {now : Int}

theorem authorized_ok {row : RecoveryRequest} {config : RecoveryConfig W} {guardian : Guardian W}
    (h : authorized s recoveryId guardianId requests = .ok (row, config, guardian)) :
    lookup RecoveryRequest.id requests recoveryId = some row ∧ s.config row.accountId = some config ∧
      guardian ∈ config.guardians ∧ guardian.id = guardianId := by
  unfold authorized at h
  cases hrow : lookup RecoveryRequest.id requests recoveryId with
  | none => simp [hrow] at h
  | some found =>
    simp only [hrow] at h
    cases hcfg : s.config found.accountId with
    | none => simp [hcfg] at h
    | some config' =>
      simp only [hcfg] at h
      cases hguard : config'.guardians.find? fun guardian => guardian.id = guardianId with
      | none => simp [hguard] at h
      | some guardian' =>
        simp only [hguard] at h
        cases h
        exact ⟨rfl, hcfg, mem_of_find?_eq_some hguard, by simpa using find?_some hguard⟩

theorem initiate_cases (s : Settings W) (requests : List RecoveryRequest) (accountId initiatedBy : String) (type : RecoveryType) (id : String) (now : Int) :
    (initiateRecovery s accountId initiatedBy type id now requests).2 = requests ∨
      ∃ row : RecoveryRequest, (initiateRecovery s accountId initiatedBy type id now requests).2 = requests ++ [row] ∧
        row.id = id ∧ lookup RecoveryRequest.id requests id = none ∧ row.status = .pending ∧ row.guardiansApproved = [] := by
  unfold initiateRecovery
  cases s.config accountId with
  | none => exact .inl rfl
  | some config =>
    simp only
    split
    · exact .inl rfl
    · split
      · exact .inl rfl
      · rename_i hfresh
        exact .inr ⟨_, rfl, rfl, not_isSome_iff_eq_none.mp hfresh, rfl, rfl⟩

theorem approve_cases [Zero W] [Add W] [LE W] [DecidableLE W] (s : Settings W) (recoveryId guardianId : String) (now : Int)
    (requests : List RecoveryRequest) :
    (∃ message, processGuardianApproval s recoveryId guardianId now requests = (.error message, requests)) ∨
      ∃ (row row' : RecoveryRequest) (config : RecoveryConfig W) (requests' : List RecoveryRequest),
        processGuardianApproval s recoveryId guardianId now requests = (.ok row', requests') ∧ row.id = recoveryId ∧
        Writes s requests requests' row row' ∧ s.config row.accountId = some config ∧
        guardianId ∉ row.guardiansRejected ∧ row'.guardiansApproved = row.guardiansApproved ++ [guardianId] ∧
        row'.guardiansRejected = row.guardiansRejected ∧
        if isThresholdMet config (row.guardiansApproved ++ [guardianId]) then
          row'.status = .delayed ∧ row'.delayEndsAt = some (now + delayMs config)
        else row'.status = row.status ∧ row'.delayEndsAt = row.delayEndsAt := by
  unfold processGuardianApproval
  rcases hauth : authorized s recoveryId guardianId requests with message | ⟨row, config, guardian⟩
  · exact .inl ⟨message, rfl⟩
  · obtain ⟨hrow, hcfg, -, -⟩ := authorized_ok hauth
    simp only
    split
    · exact .inl ⟨_, rfl⟩
    split
    · exact .inl ⟨_, rfl⟩
    split
    · exact .inl ⟨_, rfl⟩
    rename_i hrej
    refine .inr ?_
    have hadded : Writes s requests
        (save s requests { row with guardiansApproved := row.guardiansApproved ++ [guardianId] }) row
        { row with guardiansApproved := row.guardiansApproved ++ [guardianId] } := writes_save hrow ⟨rfl, rfl, rfl⟩
    by_cases hmet : isThresholdMet config (row.guardiansApproved ++ [guardianId])
    · simp only [if_pos hmet]
      exact ⟨row, _, config, _, rfl, lookup_key hrow, hadded.save ⟨rfl, rfl, rfl⟩, hcfg, hrej, rfl, rfl,
        by rw [if_pos hmet]; exact ⟨rfl, rfl⟩⟩
    · simp only [if_neg hmet]
      exact ⟨row, _, config, _, rfl, lookup_key hrow, hadded, hcfg, hrej, rfl, rfl,
        by rw [if_neg hmet]; exact ⟨rfl, rfl⟩⟩

theorem reject_cases (s : Settings W) (recoveryId guardianId : String) (requests : List RecoveryRequest) :
    (∃ message, rejectRecovery s recoveryId guardianId requests = (.error message, requests)) ∨
      ∃ (row row' : RecoveryRequest) (requests' : List RecoveryRequest),
        rejectRecovery s recoveryId guardianId requests = (.ok row', requests') ∧ row.id = recoveryId ∧
        Writes s requests requests' row row' ∧ row'.guardiansRejected = row.guardiansRejected ++ [guardianId] ∧
        row'.guardiansApproved = row.guardiansApproved ∧ row'.status = row.status ∧ row'.delayEndsAt = row.delayEndsAt := by
  unfold rejectRecovery
  rcases hauth : authorized s recoveryId guardianId requests with message | ⟨row, config, guardian⟩
  · exact .inl ⟨message, rfl⟩
  · obtain ⟨hrow, -, -, -⟩ := authorized_ok hauth
    simp only
    split
    · exact .inl ⟨_, rfl⟩
    · exact .inr ⟨row, _, _, rfl, lookup_key hrow, writes_save hrow ⟨rfl, rfl, rfl⟩, rfl, rfl, rfl, rfl⟩

theorem cancel_cases (s : Settings W) (recoveryId accountId : String) (now : Int) (requests : List RecoveryRequest) :
    (cancelRecovery s recoveryId accountId now requests).2 = requests ∨
      ∃ row row' : RecoveryRequest, Writes s requests (cancelRecovery s recoveryId accountId now requests).2 row row' ∧
        row.status.final = false ∧ row'.status = .cancelled ∧ row'.guardiansRejected = row.guardiansRejected ∧
        row'.guardiansApproved = row.guardiansApproved := by
  unfold cancelRecovery
  cases hrow : lookup RecoveryRequest.id requests recoveryId with
  | none => exact .inl rfl
  | some row =>
    simp only
    split
    · exact .inl rfl
    split
    · exact .inl rfl
    rename_i hact
    exact .inr ⟨row, _, writes_save hrow ⟨rfl, rfl, rfl⟩, Bool.not_eq_true _ ▸ hact, rfl, rfl, rfl⟩

theorem complete_cases (s : Settings W) (recoveryId accountId : String) (newStellarAddress : Option String) (drawn : String)
    (now : Int) (requests : List RecoveryRequest) :
    (completeRecovery s recoveryId accountId newStellarAddress drawn now requests).2 = requests ∨
      ∃ row row' : RecoveryRequest,
        Writes s requests (completeRecovery s recoveryId accountId newStellarAddress drawn now requests).2 row row' ∧
        row.id = recoveryId ∧ row.status = .delayed ∧ row.delayEndsAt.getD 0 ≤ now ∧ row'.status = .completed ∧
        row'.guardiansRejected = row.guardiansRejected ∧ row'.guardiansApproved = row.guardiansApproved := by
  unfold completeRecovery
  cases hrow : lookup RecoveryRequest.id requests recoveryId with
  | none => exact .inl rfl
  | some row =>
    simp only
    split
    · exact .inl rfl
    split
    · exact .inl rfl
    split
    · exact .inl rfl
    rename_i hdelayed hover
    exact .inr ⟨row, _, writes_save hrow ⟨rfl, rfl, rfl⟩, lookup_key hrow, not_not.mp hdelayed, not_lt.mp hover, rfl, rfl, rfl⟩

end

/-- An approval or a rejection that a call has told. -/
inductive Granted where
  | approved (recoveryId guardianId : String) (time : Int)
  | rejected (recoveryId guardianId : String)

/-- The clock, the table, and what calls have told. -/
structure State where
  now : Int
  requests : List RecoveryRequest
  log : List Granted

def State.empty (now : Int) : State := ⟨now, [], []⟩

inductive Step where
  | initiate (accountId initiatedBy : String) (type : RecoveryType) (id : String)
  | approve (recoveryId guardianId : String)
  | reject (recoveryId guardianId : String)
  | cancel (recoveryId accountId : String)
  | complete (recoveryId accountId : String) (newStellarAddress : Option String) (drawn : String)
  | advance (ms : Nat)

section
variable [Zero W] [Add W] [LE W] [DecidableLE W] (s : Settings W)

def apply (st : State) : Step → State
  | .initiate accountId initiatedBy type id =>
    { st with requests := (initiateRecovery s accountId initiatedBy type id st.now st.requests).2 }
  | .approve recoveryId guardianId =>
    match processGuardianApproval s recoveryId guardianId st.now st.requests with
    | (.error _, requests) => { st with requests }
    | (.ok _, requests) => { st with requests, log := Granted.approved recoveryId guardianId st.now :: st.log }
  | .reject recoveryId guardianId =>
    match rejectRecovery s recoveryId guardianId st.requests with
    | (.error _, requests) => { st with requests }
    | (.ok _, requests) => { st with requests, log := Granted.rejected recoveryId guardianId :: st.log }
  | .cancel recoveryId accountId => { st with requests := (cancelRecovery s recoveryId accountId st.now st.requests).2 }
  | .complete recoveryId accountId newStellarAddress drawn =>
    { st with requests := (completeRecovery s recoveryId accountId newStellarAddress drawn st.now st.requests).2 }
  | .advance ms => { st with now := st.now + ms }

def run (st : State) (history : List Step) : State := History.run (apply s) st history

def Meets (st : State) : Step → Prop
  | .approve recoveryId guardianId => (s.savesInPlace = true ∨ Granted.rejected recoveryId guardianId ∉ st.log) ∧
      ∀ row config, lookup RecoveryRequest.id st.requests recoveryId = some row → s.config row.accountId = some config →
        row.status.final = true → isThresholdMet config (row.guardiansApproved ++ [guardianId]) = false
  | .reject recoveryId guardianId => ∀ row, lookup RecoveryRequest.id st.requests recoveryId = some row →
      row.status.final = false → ∀ t, Granted.approved recoveryId guardianId t ∉ st.log
  | .complete recoveryId _ _ _ => ∀ row, lookup RecoveryRequest.id st.requests recoveryId = some row →
      row.status = .delayed → st.now ≤ row.expiresAt
  | _ => True

def Orderly (st : State) (history : List Step) : Prop := History.Orderly (apply s) (Meets s) st history

/-! ### The invariant -/

/-- A guardian whose approval is old enough by `d`, and who has not rejected the request. -/
def Backs (log : List Granted) (recoveryId : String) (delay d : Int) (guardianId : String) : Prop :=
  (∃ t, Granted.approved recoveryId guardianId t ∈ log ∧ t + delay ≤ d) ∧ Granted.rejected recoveryId guardianId ∉ log

/-- What a row says of its guardians, against the log. -/
structure RowSound (log : List Granted) (row : RecoveryRequest) : Prop where
  approvals : ∀ g ∈ row.guardiansApproved, ∃ t, Granted.approved row.id g t ∈ log
  apart : row.status.final = false → ∀ g ∈ row.guardiansApproved, Granted.rejected row.id g ∉ log
  rejections : s.savesInPlace = true → ∀ g, Granted.rejected row.id g ∈ log → g ∈ row.guardiansRejected
  backed : row.status = .delayed → ∃ config ids d, s.config row.accountId = some config ∧ isThresholdMet config ids = true ∧
    row.delayEndsAt = some d ∧ ∀ g ∈ ids, Backs log row.id (delayMs config) d g

/-- The rows are sound, and the log is of requests that exist. -/
structure Sound (st : State) : Prop where
  rows : ∀ id row, lookup RecoveryRequest.id st.requests id = some row → RowSound s st.log row
  times : ∀ id g t, Granted.approved id g t ∈ st.log → t ≤ st.now
  known : ∀ id g, (∃ t, Granted.approved id g t ∈ st.log) ∨ Granted.rejected id g ∈ st.log →
    (lookup RecoveryRequest.id st.requests id).isSome = true

variable {s} {st : State} {log : List Granted} {row row' : RecoveryRequest}

theorem sound_empty (now : Int) : Sound s (.empty now) where
  rows _ _ hrow := by cases hrow
  times _ _ _ hmem := by cases hmem
  known id g hmem := by
    rcases hmem with ⟨t, hmem⟩ | hmem
    · cases hmem
    · cases hmem

theorem RowSound.approved (h : RowSound s log row) (id g : String) (t : Int) : RowSound s (Granted.approved id g t :: log) row where
  approvals g' hg' := by
    obtain ⟨t', ht'⟩ := h.approvals g' hg'
    exact ⟨t', mem_cons_of_mem _ ht'⟩
  apart hact g' hg' hmem := by
    cases hmem with
    | tail _ hmem => exact h.apart hact g' hg' hmem
  rejections hsaves g' hmem := by
    cases hmem with
    | tail _ hmem => exact h.rejections hsaves g' hmem
  backed hdelayed := by
    obtain ⟨config, ids, d, hcfg, hmet, hends, hbacks⟩ := h.backed hdelayed
    refine ⟨config, ids, d, hcfg, hmet, hends, fun g' hg' => ?_⟩
    obtain ⟨⟨t', ht', hle⟩, hrej⟩ := hbacks g' hg'
    refine ⟨⟨t', mem_cons_of_mem _ ht', hle⟩, fun hmem => ?_⟩
    cases hmem with
    | tail _ hmem => exact hrej hmem

variable {id : String}

theorem RowSound.rejected (h : RowSound s log row) (hid : row.id ≠ id) (g : String) :
    RowSound s (Granted.rejected id g :: log) row where
  approvals g' hg' := by
    obtain ⟨t', ht'⟩ := h.approvals g' hg'
    exact ⟨t', mem_cons_of_mem _ ht'⟩
  apart hact g' hg' hmem := by
    cases hmem with
    | head => exact hid rfl
    | tail _ hmem => exact h.apart hact g' hg' hmem
  rejections hsaves g' hmem := by
    cases hmem with
    | head => exact absurd rfl hid
    | tail _ hmem => exact h.rejections hsaves g' hmem
  backed hdelayed := by
    obtain ⟨config, ids, d, hcfg, hmet, hends, hbacks⟩ := h.backed hdelayed
    refine ⟨config, ids, d, hcfg, hmet, hends, fun g' hg' => ?_⟩
    obtain ⟨⟨t', ht', hle⟩, hrej⟩ := hbacks g' hg'
    refine ⟨⟨t', mem_cons_of_mem _ ht', hle⟩, fun hmem => ?_⟩
    cases hmem with
    | head => exact hid rfl
    | tail _ hmem => exact hrej hmem

variable {requests' : List RecoveryRequest}

theorem Sound.writes (h : Sound s st) (hw : Writes s st.requests requests' row row')
    (hnew : RowSound s log (written s row row'))
    (hold : ∀ other, other.id ≠ row.id → RowSound s st.log other → RowSound s log other)
    (htimes : ∀ id g t, Granted.approved id g t ∈ log → t ≤ st.now)
    (hknown : ∀ id g, (∃ t, Granted.approved id g t ∈ log) ∨ Granted.rejected id g ∈ log →
      id = row.id ∨ (∃ t, Granted.approved id g t ∈ st.log) ∨ Granted.rejected id g ∈ st.log) :
    Sound s ⟨st.now, requests', log⟩ where
  rows id other hother := by
    rw [hw.after] at hother
    split at hother
    · cases hother
      exact hnew
    · rename_i hid
      refine hold other ?_ (h.rows id other hother)
      rwa [lookup_key hother]
  times := htimes
  known id g hmem := by
    rw [hw.after]
    split
    · rfl
    · rename_i hid
      exact h.known id g ((hknown id g hmem).resolve_left hid)

theorem RowSound.approve (h : RowSound s log row) {config : RecoveryConfig W} {g : String} {now : Int}
    (htimes : ∀ id g t, Granted.approved id g t ∈ log → t ≤ now) (hcfg : s.config row.accountId = some config)
    (hmeets : (s.savesInPlace = true ∨ Granted.rejected row.id g ∉ log) ∧
      (row.status.final = true → isThresholdMet config (row.guardiansApproved ++ [g]) = false))
    (hrej : g ∉ row.guardiansRejected) (hid : row'.id = row.id) (hacct : row'.accountId = row.accountId)
    (happr : row'.guardiansApproved = row.guardiansApproved ++ [g]) (hrejections : row'.guardiansRejected = row.guardiansRejected)
    (hstat : if isThresholdMet config (row.guardiansApproved ++ [g]) then
      row'.status = .delayed ∧ row'.delayEndsAt = some (now + delayMs config)
      else row'.status = row.status ∧ row'.delayEndsAt = row.delayEndsAt) :
    RowSound s (Granted.approved row.id g now :: log) (written s row row') := by
  have hafter := h.approved row.id g now
  have hnever : Granted.rejected row.id g ∉ log := fun hmem =>
    hmeets.1.elim (fun hsaves => hrej (h.rejections hsaves g hmem)) fun hnot => hnot hmem
  have hmem : ∀ g' ∈ (written s row row').guardiansApproved, g' ∈ row.guardiansApproved ∨ g' = g := by
    intro g' hg'
    rcases mem_written_approved hg' with hg' | hg'
    · rw [happr] at hg'
      exact (mem_append.mp hg').imp_right mem_singleton.mp
    · exact .inl hg'
  -- a request that gets here is not over, unless it stays over
  have hact : (written s row row').status.final = false → row.status.final = false := by
    intro hfinal
    by_contra hover
    rw [Bool.not_eq_false] at hover
    rw [hmeets.2 hover] at hstat
    simp [written_status, hstat.1, hover] at hfinal
  have hwrit : (written s row row').id = row.id := (written_id row row').trans hid
  refine ⟨fun g' hg' => ?_, fun hfinal g' hg' hrej' => ?_, fun hsaves g' hrej' => ?_, fun hdelayed => ?_⟩
  · rw [hwrit]
    rcases hmem g' hg' with hg' | rfl
    · exact hafter.approvals g' hg'
    · exact ⟨now, mem_cons_self⟩
  · rw [hwrit] at hrej'
    rcases hmem g' hg' with hg' | rfl
    · exact hafter.apart (hact hfinal) g' hg' hrej'
    · cases hrej' with
      | tail _ hrej' => exact hnever hrej'
  · rw [hwrit] at hrej'
    rw [written_rejected hsaves, hrejections]
    exact hafter.rejections hsaves g' hrej'
  · rw [hwrit, written_accountId, hacct, written_delayEndsAt]
    by_cases hmet : isThresholdMet config (row.guardiansApproved ++ [g]) = true
    · rw [if_pos hmet] at hstat
      have hopen : row.status.final = false := hact (by rw [written_status, hstat.1]; rfl)
      refine ⟨config, _, _, hcfg, hmet, hstat.2, fun g' hg' => ?_⟩
      rcases mem_append.mp hg' with hg' | hg'
      · obtain ⟨t, ht⟩ := h.approvals g' hg'
        have hle := htimes row.id g' t ht
        exact ⟨⟨t, mem_cons_of_mem _ ht, by omega⟩, hafter.apart hopen g' hg'⟩
      · obtain rfl := mem_singleton.mp hg'
        refine ⟨⟨now, mem_cons_self, le_rfl⟩, fun hrej' => ?_⟩
        cases hrej' with
        | tail _ hrej' => exact hnever hrej'
    · rw [if_neg hmet] at hstat
      rw [written_status, hstat.1] at hdelayed
      rw [hstat.2]
      exact hafter.backed hdelayed

theorem RowSound.reject (h : RowSound s log row) {g : String}
    (hmeets : row.status.final = false → ∀ t, Granted.approved row.id g t ∉ log) (hid : row'.id = row.id)
    (hacct : row'.accountId = row.accountId) (hrejections : row'.guardiansRejected = row.guardiansRejected ++ [g])
    (happr : row'.guardiansApproved = row.guardiansApproved) (hstat : row'.status = row.status)
    (hends : row'.delayEndsAt = row.delayEndsAt) : RowSound s (Granted.rejected row.id g :: log) (written s row row') := by
  have hwrit : (written s row row').id = row.id := (written_id row row').trans hid
  have hmem : ∀ g' ∈ (written s row row').guardiansApproved, g' ∈ row.guardiansApproved := by
    intro g' hg'
    rcases mem_written_approved hg' with hg' | hg'
    · rwa [happr] at hg'
    · exact hg'
  refine ⟨fun g' hg' => ?_, fun hfinal g' hg' hrej => ?_, fun hsaves g' hrej => ?_, fun hdelayed => ?_⟩
  · obtain ⟨t, ht⟩ := h.approvals g' (hmem g' hg')
    rw [hwrit]
    exact ⟨t, mem_cons_of_mem _ ht⟩
  · rw [written_status, hstat] at hfinal
    rw [hwrit] at hrej
    cases hrej with
    | head =>
      obtain ⟨t, ht⟩ := h.approvals g (hmem g hg')
      exact hmeets hfinal t ht
    | tail _ hrej => exact h.apart hfinal g' (hmem g' hg') hrej
  · rw [hwrit] at hrej
    rw [written_rejected hsaves, hrejections, mem_append, mem_singleton]
    cases hrej with
    | head => exact .inr rfl
    | tail _ hrej => exact .inl (h.rejections hsaves g' hrej)
  · rw [written_status, hstat] at hdelayed
    rw [hwrit, written_accountId, hacct, written_delayEndsAt, hends]
    obtain ⟨config, ids, d, hcfg, hmet, hd, hbacks⟩ := h.backed hdelayed
    refine ⟨config, ids, d, hcfg, hmet, hd, fun g' hg' => ?_⟩
    obtain ⟨⟨t, ht, hle⟩, hnot⟩ := hbacks g' hg'
    refine ⟨⟨t, mem_cons_of_mem _ ht, hle⟩, fun hrej => ?_⟩
    cases hrej with
    | head => exact hmeets (by rw [hdelayed]; rfl) t ht
    | tail _ hrej => exact hnot hrej

theorem RowSound.close (h : RowSound s log row) (hid : row'.id = row.id) (hfinal : row'.status.final = true)
    (hrejections : row'.guardiansRejected = row.guardiansRejected) (happr : row'.guardiansApproved = row.guardiansApproved) :
    RowSound s log (written s row row') := by
  have hwrit : (written s row row').id = row.id := (written_id row row').trans hid
  refine ⟨fun g' hg' => ?_, fun hopen => ?_, fun hsaves g' hrej => ?_, fun hdelayed => ?_⟩
  · rw [hwrit]
    rcases mem_written_approved hg' with hg' | hg'
    · rw [happr] at hg'
      exact h.approvals g' hg'
    · exact h.approvals g' hg'
  · simp [written_status, hfinal] at hopen
  · rw [hwrit] at hrej
    rw [written_rejected hsaves, hrejections]
    exact h.rejections hsaves g' hrej
  · rw [written_status] at hdelayed
    rw [hdelayed] at hfinal
    cases hfinal

theorem Sound.close (h : Sound s st) (hw : Writes s st.requests requests' row row') (hfinal : row'.status.final = true)
    (hrejections : row'.guardiansRejected = row.guardiansRejected)
    (happr : row'.guardiansApproved = row.guardiansApproved) : Sound s ⟨st.now, requests', st.log⟩ :=
  h.writes hw ((h.rows row.id row hw.stored).close hw.same.1 hfinal hrejections happr) (fun _ _ hother => hother) h.times
    fun _ _ hmem => .inr hmem

theorem Sound.initiate (h : Sound s st) (accountId initiatedBy : String) (type : RecoveryType) (id : String) :
    Sound s (apply s st (.initiate accountId initiatedBy type id)) := by
  simp only [apply]
  rcases initiate_cases s st.requests accountId initiatedBy type id st.now with heq | ⟨row, hrow, rfl, hfresh, hstat, happr⟩
  · rw [heq]
    exact h
  · rw [hrow]
    have hnone : ∀ g, Granted.rejected row.id g ∉ st.log := by
      intro g hmem
      have hknown := h.known row.id g (.inr hmem)
      simp [hfresh] at hknown
    refine ⟨fun id other hother => ?_, h.times, fun id g hmem => ?_⟩
    · by_cases hid : id = row.id
      · subst hid
        rw [lookup_append_self hfresh] at hother
        cases hother
        refine ⟨fun g hg => ?_, fun _ g hg => ?_, fun _ g hmem => absurd hmem (hnone g), fun hdelayed => ?_⟩
        · simp [happr] at hg
        · simp [happr] at hg
        · simp [hstat] at hdelayed
      · rw [lookup_append_ne hid] at hother
        exact h.rows id other hother
    · have hknown := h.known id g hmem
      by_cases hid : id = row.id
      · simp [hid, hfresh] at hknown
      · rwa [lookup_append_ne hid]

theorem Sound.approve (h : Sound s st) {recoveryId guardianId : String} (hmeets : Meets s st (.approve recoveryId guardianId)) :
    Sound s (apply s st (.approve recoveryId guardianId)) := by
  simp only [apply]
  rcases approve_cases s recoveryId guardianId st.now st.requests with
    ⟨message, href⟩ | ⟨row, row', config, requests', hgranted, rfl, hw, hcfg, hrej, happr, hrejections, hstat⟩
  · rw [href]
    exact h
  · rw [hgranted]
    have hrow := h.rows row.id row hw.stored
    refine h.writes hw (hrow.approve h.times hcfg ⟨hmeets.1, hmeets.2 row config hw.stored hcfg⟩ hrej hw.same.1
      hw.same.2.1 happr hrejections hstat) (fun _ _ hother => hother.approved _ _ _) (fun id g t hmem => ?_)
      fun id g hmem => ?_
    · cases hmem with
      | head => exact le_rfl
      | tail _ hmem => exact h.times id g t hmem
    · rcases hmem with ⟨t, hmem⟩ | hmem
      · cases hmem with
        | head => exact .inl rfl
        | tail _ hmem => exact .inr (.inl ⟨t, hmem⟩)
      · cases hmem with
        | tail _ hmem => exact .inr (.inr hmem)

theorem Sound.reject (h : Sound s st) {recoveryId guardianId : String} (hmeets : Meets s st (.reject recoveryId guardianId)) :
    Sound s (apply s st (.reject recoveryId guardianId)) := by
  simp only [apply]
  rcases reject_cases s recoveryId guardianId st.requests with
    ⟨message, href⟩ | ⟨row, row', requests', hgranted, rfl, hw, hrejections, happr, hstat, hends⟩
  · rw [href]
    exact h
  · rw [hgranted]
    have hrow := h.rows row.id row hw.stored
    refine h.writes hw (hrow.reject (hmeets row hw.stored) hw.same.1 hw.same.2.1 hrejections happr hstat hends)
      (fun _ hother hsound => hsound.rejected hother _) (fun id g t hmem => ?_) fun id g hmem => ?_
    · cases hmem with
      | tail _ hmem => exact h.times id g t hmem
    · rcases hmem with ⟨t, hmem⟩ | hmem
      · cases hmem with
        | tail _ hmem => exact .inr (.inl ⟨t, hmem⟩)
      · cases hmem with
        | head => exact .inl rfl
        | tail _ hmem => exact .inr (.inr hmem)

theorem Sound.step (h : Sound s st) {step : Step} (hmeets : Meets s st step) : Sound s (apply s st step) := by
  cases step with
  | initiate accountId initiatedBy type id => exact h.initiate accountId initiatedBy type id
  | approve recoveryId guardianId => exact h.approve hmeets
  | reject recoveryId guardianId => exact h.reject hmeets
  | cancel recoveryId accountId =>
    simp only [apply]
    rcases cancel_cases s recoveryId accountId st.now st.requests with heq | ⟨row, row', hw, -, hstat, hrejections, happr⟩
    · rw [heq]
      exact h
    · exact h.close hw (by rw [hstat]; rfl) hrejections happr
  | complete recoveryId accountId newStellarAddress drawn =>
    simp only [apply]
    rcases complete_cases s recoveryId accountId newStellarAddress drawn st.now st.requests with
      heq | ⟨row, row', hw, -, -, -, hstat, hrejections, happr⟩
    · rw [heq]
      exact h
    · exact h.close hw (by rw [hstat]; rfl) hrejections happr
  | advance ms => exact ⟨h.rows, fun id g t hmem => (h.times id g t hmem).trans (by simp [apply]), h.known⟩

def Moves (now : Int) (before after : Option RecoveryRequest) : Prop :=
  after = before ∨ (before = none ∧ ∃ row, after = some row ∧ row.status = .pending) ∨
    ∃ row row', before = some row ∧ after = some row' ∧
      (row'.status = row.status ∨ row.status.final = false ∧ row'.status ≠ .completed ∨
        row.status = .delayed ∧ row.delayEndsAt.getD 0 ≤ now ∧ now ≤ row.expiresAt)

omit [Zero W] [Add W] [LE W] [DecidableLE W] in
theorem Writes.moves {requests : List RecoveryRequest} {now : Int} (h : Writes s requests requests' row row')
    (hstat : row'.status = row.status ∨ row.status.final = false ∧ row'.status ≠ .completed ∨
      row.status = .delayed ∧ row.delayEndsAt.getD 0 ≤ now ∧ now ≤ row.expiresAt) (id : String) :
    Moves now (lookup RecoveryRequest.id requests id) (lookup RecoveryRequest.id requests' id) := by
  rw [h.after]
  split
  · rename_i hid
    rw [hid, h.stored]
    exact .inr (.inr ⟨row, _, rfl, rfl, by rwa [written_status]⟩)
  · exact .inl rfl

theorem moves_step {step : Step} (hmeets : Meets s st step) (id : String) :
    Moves st.now (lookup RecoveryRequest.id st.requests id) (lookup RecoveryRequest.id (apply s st step).requests id) := by
  cases step with
  | initiate accountId initiatedBy type id' =>
    simp only [apply]
    rcases initiate_cases s st.requests accountId initiatedBy type id' st.now with heq | ⟨row, hrow, rfl, hfresh, hstat, -⟩
    · rw [heq]
      exact .inl rfl
    · rw [hrow]
      by_cases hid : id = row.id
      · subst hid
        exact .inr (.inl ⟨hfresh, row, lookup_append_self hfresh, hstat⟩)
      · exact .inl (lookup_append_ne hid)
  | approve recoveryId guardianId =>
    simp only [apply]
    rcases approve_cases s recoveryId guardianId st.now st.requests with
      ⟨message, href⟩ | ⟨row, row', config, requests', hgranted, rfl, hw, hcfg, -, -, -, hstat⟩
    · rw [href]
      exact .inl rfl
    · rw [hgranted]
      refine hw.moves ?_ id
      by_cases hmet : isThresholdMet config (row.guardiansApproved ++ [guardianId]) = true
      · rw [if_pos hmet] at hstat
        refine .inr (.inl ⟨?_, by rw [hstat.1]; exact RecoveryStatus.noConfusion⟩)
        by_contra hfinal
        rw [Bool.not_eq_false] at hfinal
        simp [hmeets.2 row config hw.stored hcfg hfinal] at hmet
      · rw [if_neg hmet] at hstat
        exact .inl hstat.1
  | reject recoveryId guardianId =>
    simp only [apply]
    rcases reject_cases s recoveryId guardianId st.requests with
      ⟨message, href⟩ | ⟨row, row', requests', hgranted, rfl, hw, -, -, hstat, -⟩
    · rw [href]
      exact .inl rfl
    · rw [hgranted]
      exact hw.moves (.inl hstat) id
  | cancel recoveryId accountId =>
    simp only [apply]
    rcases cancel_cases s recoveryId accountId st.now st.requests with heq | ⟨row, row', hw, hopen, hstat, -, -⟩
    · rw [heq]
      exact .inl rfl
    · exact hw.moves (.inr (.inl ⟨hopen, by rw [hstat]; exact RecoveryStatus.noConfusion⟩)) id
  | complete recoveryId accountId newStellarAddress drawn =>
    simp only [apply]
    rcases complete_cases s recoveryId accountId newStellarAddress drawn st.now st.requests with
      heq | ⟨row, row', hw, rfl, hdelayed, hover, -, -, -⟩
    · rw [heq]
      exact .inl rfl
    · exact hw.moves (.inr (.inr ⟨hdelayed, hover, hmeets row hw.stored hdelayed⟩)) id
  | advance ms => exact .inl rfl

theorem final_step {step : Step} (hmeets : Meets s st step) (hrow : lookup RecoveryRequest.id st.requests id = some row)
    (hfinal : row.status.final = true) :
    ∃ row', lookup RecoveryRequest.id (apply s st step).requests id = some row' ∧ row'.status = row.status := by
  rcases moves_step hmeets id with heq | ⟨hnone, -⟩ | ⟨before, after, hpre, hafter, hstat⟩
  · exact ⟨row, heq.trans hrow, rfl⟩
  · simp [hrow] at hnone
  · rw [hrow] at hpre
    cases hpre
    refine ⟨after, hafter, ?_⟩
    rcases hstat with hstat | ⟨hopen, -⟩ | ⟨hdelayed, -⟩
    · exact hstat
    · simp [hfinal] at hopen
    · rw [hdelayed] at hfinal
      cases hfinal

/-- Verified guardians that weigh enough have approved the request, as long ago as the delay, and not rejected it. -/
def Supported (s : Settings W) (st : State) (row : RecoveryRequest) : Prop :=
  ∃ config guardians, s.config row.accountId = some config ∧ List.Sublist guardians config.guardians ∧
    (guardians.map Guardian.id).Nodup ∧ (∀ guardian ∈ guardians, guardian.verified = true ∧
      Backs st.log row.id (delayMs config) st.now guardian.id) ∧ config.threshold ≤ totalWeight guardians

theorem completed_step
    (hguardians : ∀ account config, s.config account = some config → (config.guardians.map Guardian.id).Nodup)
    (h : Sound s st) {step : Step} (hmeets : Meets s st step) {row' : RecoveryRequest}
    (hpre : ∀ row, lookup RecoveryRequest.id st.requests id = some row → row.status ≠ .completed)
    (hafter : lookup RecoveryRequest.id (apply s st step).requests id = some row')
    (hcomp : row'.status = .completed) :
    ∃ row, lookup RecoveryRequest.id st.requests id = some row ∧ Supported s st row ∧ st.now ≤ row.expiresAt := by
  rcases moves_step hmeets id with heq | ⟨-, row, hrow, hstat⟩ | ⟨before, after, hrow, hrow', hstat⟩
  · exact absurd hcomp (hpre row' (heq.symm.trans hafter))
  · rw [hafter] at hrow
    cases hrow
    simp [hcomp] at hstat
  · rw [hafter] at hrow'
    cases hrow'
    rcases hstat with hstat | ⟨-, hnot⟩ | ⟨hdelayed, hover, hexpires⟩
    · exact absurd (hstat.symm.trans hcomp) (hpre before hrow)
    · exact absurd hcomp hnot
    · obtain ⟨config, ids, d, hcfg, hmet, hends, hbacks⟩ := (h.rows id before hrow).backed hdelayed
      rw [hends, getD_some] at hover
      refine ⟨before, hrow, ⟨config, counted config ids, hcfg, filter_sublist, ?_, fun guardian hguard => ?_,
        of_decide_eq_true hmet⟩, hexpires⟩
      · exact (hguardians _ config hcfg).sublist (filter_sublist.map _)
      · obtain ⟨-, hcnt⟩ := mem_filter.mp hguard
        rw [Bool.and_eq_true, decide_eq_true_eq] at hcnt
        obtain ⟨⟨t, ht, hle⟩, hrej⟩ := hbacks guardian.id hcnt.1
        exact ⟨hcnt.2, ⟨t, ht, by omega⟩, hrej⟩

theorem sound_run {history : List Step} (h : Sound s st) (hord : Orderly s st history) : Sound s (run s st history) :=
  History.Orderly.invariant (fun _ _ hsound hmeets => hsound.step hmeets) hord h

/-- A request that is over stays so, and is completed only with the support of its guardians, after the delay and before
it expires. -/
theorem lifecycle (s : Settings W)
    (hguardians : ∀ account config, s.config account = some config → (config.guardians.map Guardian.id).Nodup)
    {start : Int} {history : List Step} (h : Orderly s (.empty start) history) :
    (∀ before after, history = before ++ after → ∀ id row,
      lookup RecoveryRequest.id (run s (.empty start) before).requests id = some row → row.status.final = true →
      ∃ row', lookup RecoveryRequest.id (run s (.empty start) history).requests id = some row' ∧ row'.status = row.status) ∧
    (∀ before step after, history = before ++ step :: after → ∀ id row',
      (∀ row, lookup RecoveryRequest.id (run s (.empty start) before).requests id = some row → row.status ≠ .completed) →
      lookup RecoveryRequest.id (run s (.empty start) (before ++ [step])).requests id = some row' → row'.status = .completed →
      ∃ row, lookup RecoveryRequest.id (run s (.empty start) before).requests id = some row ∧
        Supported s (run s (.empty start) before) row ∧ (run s (.empty start) before).now ≤ row.expiresAt) := by
  constructor
  · rintro before after rfl id row hrow hfinal
    obtain ⟨-, hafter⟩ := History.Orderly.split h
    rw [run, History.run_append]
    exact History.Orderly.final (fun _ _ _ hmeets => final_step hmeets) hafter hrow hfinal
  · rintro before step after rfl id row' hpre hafter hcomp
    obtain ⟨hhistory, hmeets, -⟩ := History.Orderly.split h
    rw [run, History.run_concat] at hafter
    exact completed_step hguardians (sound_run (sound_empty start) hhistory) hmeets hpre hafter hcomp

end

def sample (savesInPlace : Bool) : Settings Int where
  config account := if account = "account-1" then
    some { guardians := [⟨"guardian-1", true, 2⟩, ⟨"guardian-2", true, 2⟩], threshold := 2, delayHours := 168 } else none
  savesInPlace := savesInPlace
  halfHourLater t := t + 30 * 60 * 1000

theorem sample_guardians (savesInPlace : Bool) (account : String) (config : RecoveryConfig Int)
    (h : (sample savesInPlace).config account = some config) : (config.guardians.map Guardian.id).Nodup := by
  simp only [sample] at h
  split at h
  · cases h
    decide
  · cases h

def opened : List Step := [.initiate "account-1" "account-1" .social "recovery-1", .approve "recovery-1" "guardian-1"]

def wait : Step := .advance (168 * 60 * 60 * 1000)

def completion : Step := .complete "recovery-1" "account-1" none "key-1"

def statusAfter (savesInPlace : Bool) (history : List Step) : Option RecoveryStatus :=
  (lookup RecoveryRequest.id (run (sample savesInPlace) (.empty 0) history).requests "recovery-1").map RecoveryRequest.status

theorem orderly_opened : Orderly (sample true) (.empty 0) (opened ++ [wait, completion]) := by
  refine ⟨trivial, ⟨.inl rfl, fun row config hrow _ hfinal => ?_⟩, trivial, fun row hrow _ => ?_, trivial⟩
  · cases hrow
    cases hfinal
  · cases hrow
    decide

theorem lifecycle_opened : ∃ row,
    lookup RecoveryRequest.id (run (sample true) (.empty 0) (opened ++ [wait])).requests "recovery-1" = some row ∧
      Supported (sample true) (run (sample true) (.empty 0) (opened ++ [wait])) row ∧
      (run (sample true) (.empty 0) (opened ++ [wait])).now ≤ row.expiresAt := by
  have hdelayed : statusAfter true (opened ++ [wait]) = some .delayed := by decide
  have hcomp : statusAfter true (opened ++ [wait] ++ [completion]) = some .completed := by decide
  obtain ⟨row', hrow', hstat'⟩ := map_eq_some_iff.mp hcomp
  obtain ⟨-, hsupported⟩ := lifecycle (sample true) (sample_guardians true) orderly_opened
  refine hsupported (opened ++ [wait]) completion [] rfl "recovery-1" row' (fun row hrow hstat => ?_) hrow' hstat'
  simp [statusAfter, hrow, map_some, hstat] at hdelayed

/-- Whatever `save` sees of arrays: a cancelled recovery is approved and completed, as are one that its only guardian has
rejected, and one that has expired. -/
def Revived (savesInPlace : Bool) : Prop :=
    (statusAfter savesInPlace (opened ++ [.cancel "recovery-1" "account-1"]) = some .cancelled ∧
      statusAfter savesInPlace (opened ++ [.cancel "recovery-1" "account-1", .approve "recovery-1" "guardian-2", wait, completion]) =
        some .completed) ∧
    statusAfter savesInPlace (opened ++ [.reject "recovery-1" "guardian-1", wait, completion]) = some .completed ∧
    (statusAfter savesInPlace (opened ++ [wait, wait, completion]) = some .completed ∧
      (lookup RecoveryRequest.id (run (sample savesInPlace) (.empty 0) (opened ++ [wait, wait, completion])).requests
        "recovery-1").any fun row =>
          decide (row.expiresAt < (run (sample savesInPlace) (.empty 0) (opened ++ [wait, wait])).now))

theorem recoveries_revived : Revived false ∧ Revived true := by
  unfold Revived
  decide

end Delego.AccountRecovery
