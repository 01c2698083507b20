import Delego.Process.Serial
import Delego.SessionKeys.Signer
import Mathlib.Data.List.Dedup

/-! What the kill switch finds.

Where nothing else is done to the records, the scan comes by each of them: the sessions that it finds are those of the
wallet, no others and all of them (`follows_findSessions_killing`), and on their addresses the permissions are revoked
(`follows_execute_revoking`). -/
namespace Delego.SessionKeys
open Delego.Process List

def SessionOf (w : World) (walletAddress key : String) (record : SessionKeyRecord) : Prop :=
  w.records.lookup key = some record ∧ (record.userId ∈ w.owners walletAddress ∨ record.userId = walletAddress)

def SessionAddress (w : World) (walletAddress address : String) : Prop :=
  ∃ key record, SessionOf w walletAddress key record ∧ record.sessionPublicKey = address

abbrev Noted := List (String × String)

def Noted.next (noted : Noted) : (o : Op) → sessionSignature.Result o → Noted
  | .revokePermissions walletAddress addresses, .ok _ => addresses.map (Prod.mk walletAddress) ++ noted
  | _, _ => noted

def Addressed (s : World) (walletAddress : String) : Op → Prop
  | .revokePermissions walletAddress' addresses =>
    walletAddress' = walletAddress ∧ ∀ address, address ∈ addresses ↔ SessionAddress s walletAddress address
  | _ => True

def killing (cfg : Settings) (s : World) (walletAddress : String) : Protocol sessionSignature (World × Noted) where
  Allowed := fun _ o => Addressed s walletAddress o
  Moves := fun φ o r φ' => (∃ ch, (r, φ'.1) = perform cfg o ch φ.1) ∧ φ'.2 = φ.2.next o r

def Sound (w : World) (walletAddress : String) (sessions : List (String × String)) : Prop :=
  ∀ session ∈ sessions, SessionAddress w walletAddress session.2

section
variable {cfg : Settings} {s : World} {walletAddress : String} {φ : World × Noted}

def Op.looks : Op → Bool
  | .get _ => true
  | .scan _ => true
  | .cancelProposals _ => true
  | .resolveUserIds _ => true
  | _ => false

variable {o : Op}

theorem perform_looks (ho : o.looks = true) (ch : Choice) (w : World) : (perform cfg o ch w).2 = w := by
  cases o with
  | get | scan | cancelProposals | resolveUserIds => exact Fate.carry_kept (P := fun w' => w' = w) rfl rfl
  | _ => cases ho

theorem perform_ok (ho : o.looks = true) {ch : Choice} {w : World} {a : o.Reply}
    (h : (perform cfg o ch w).1 = .ok a) : a = (answer cfg o ch w).1 := by
  cases o with
  | get | scan | cancelProposals | resolveUserIds =>
    simp only [perform, Op.refused, Op.local, Bool.false_eq_true, if_false] at h
    cases hfate : ch.fate with
    | done =>
      rw [hfate] at h
      cases h
      rfl
    | refused message | lost message =>
      rw [hfate] at h
      cases h
  | _ => cases ho

theorem follows_looks (ho : o.looks = true) {α : Type} {f : o.Reply → SessionM α}
    {Q : Except String α → World × Noted → Prop} (herror : ∀ message, Q (.error message) φ)
    (hf : ∀ ch, Follows (killing cfg s walletAddress) φ (f (answer cfg o ch φ.1).1) Q) :
    Follows (killing cfg s walletAddress) φ (op o >>= f) Q := by
  apply follows_bind
  have hallow : Addressed s walletAddress o := by
    cases o with
    | revokePermissions => cases ho
    | _ => trivial
  refine follows_perform hallow ?_
  rintro r φ' ⟨⟨ch, hperf⟩, hnoted⟩
  have hphase : φ' = φ := by
    refine Prod.ext ((congrArg Prod.snd hperf).trans (perform_looks ho ch φ.1)) (hnoted.trans ?_)
    cases o with
    | get | scan | cancelProposals | resolveUserIds => rfl
    | _ => cases ho
  subst hphase
  cases r with
  | error message => exact herror message
  | ok a =>
    rw [perform_ok ho (congrArg Prod.fst hperf).symm]
    exact hf ch

variable {noted : Noted} {sessions : List (String × String)}

theorem Sound.addSession (h : Sound s walletAddress sessions) (key : String) :
    Sound s walletAddress (addSession (s.owners walletAddress) walletAddress key sessions (s.records.lookup key)) := by
  cases hlook : s.records.lookup key with
  | none => exact h
  | some record =>
    simp only [SessionKeys.addSession]
    split
    · rename_i howned
      intro session hsess
      rcases mem_append.mp hsess with hsess | hsess
      · exact h session hsess
      · rw [mem_singleton.mp hsess]
        exact ⟨key, record, ⟨hlook, howned⟩, rfl⟩
    · exact h

theorem subset_addSession {key : String} {userIds : List String} (found : Option SessionKeyRecord) :
    ∀ session ∈ sessions, session ∈ addSession userIds walletAddress key sessions found := by
  intro session hsess
  cases found with
  | none => exact hsess
  | some record =>
    simp only [addSession]
    split
    · exact mem_append_left _ hsess
    · exact hsess

theorem follows_examine_killing (keys : List String) (hsound : Sound s walletAddress sessions) :
    Follows (killing cfg s walletAddress) (s, noted) (examine (s.owners walletAddress) walletAddress keys sessions)
      fun r φ' => φ' = (s, noted) ∧ ∀ found, r = .ok found → Sound s walletAddress found ∧
        (∀ session ∈ sessions, session ∈ found) ∧
        ∀ key ∈ keys, ∀ record, SessionOf s walletAddress key record → (key, record.sessionPublicKey) ∈ found := by
  induction keys generalizing sessions with
  | nil =>
    refine ⟨rfl, ?_⟩
    rintro _ ⟨⟩
    exact ⟨hsound, fun _ h => h, fun _ hkey => absurd hkey not_mem_nil⟩
  | cons first rest ih =>
    refine follows_looks rfl (fun message => ⟨rfl, nofun⟩) fun ch => ?_
    refine follows_mono (ih (hsound.addSession first)) ?_
    rintro r φ' ⟨hphase, hfound⟩
    refine ⟨hphase, ?_⟩
    intro found hr
    obtain ⟨hsound', hkept, hothers⟩ := hfound found hr
    refine ⟨hsound', fun session hsess => hkept session (subset_addSession _ session hsess), ?_⟩
    intro key hkey record hrec
    rcases mem_cons.mp hkey with rfl | hkey
    · refine hkept _ ?_
      simp only [answer, hrec.1, addSession, if_pos hrec.2]
      exact mem_append_right _ (mem_singleton_self _)
    · exact hothers key hkey record hrec

theorem follows_findSessions_killing (rounds cursor : Nat) (hsound : Sound s walletAddress sessions) :
    Follows (killing cfg s walletAddress) (s, noted)
      (findSessions (s.owners walletAddress) walletAddress rounds cursor sessions)
      fun r φ' => φ' = (s, noted) ∧ ∀ found, r = .ok (some found) → Sound s walletAddress found ∧
        (∀ session ∈ sessions, session ∈ found) ∧
        ∀ key record, SessionOf s walletAddress key record → cursor ≤ cfg.slot key % (cfg.lastSlot + 1) →
          (key, record.sessionPublicKey) ∈ found := by
  induction rounds generalizing cursor sessions with
  | zero => exact ⟨rfl, nofun⟩
  | succ rounds ih =>
    refine follows_looks rfl (fun message => ⟨rfl, nofun⟩) fun ch => ?_
    refine follows_bind (follows_mono (follows_examine_killing _ hsound)
      (forall_except (fun _ _ ⟨rfl, hexamined⟩ => ⟨rfl, nofun⟩) ?_))
    rintro examined _ ⟨rfl, hexamined⟩
    obtain ⟨hsound', hkept, hslot⟩ := hexamined examined rfl
    have hhere : ∀ key record, SessionOf s walletAddress key record →
        cfg.slot key % (cfg.lastSlot + 1) = cursor → (key, record.sessionPublicKey) ∈ examined := by
      intro key record hrec hcursor
      refine hslot key (mem_filter.mpr ⟨?_, decide_eq_true hcursor⟩) record hrec
      exact AList.mem_keys.mp (AList.lookup_isSome.mp (by rw [hrec.1]; rfl))
    simp only [Then, answer]
    by_cases hmore : cursor < cfg.lastSlot
    · simp only [if_pos hmore, Nat.succ_ne_zero, if_false]
      refine follows_mono (ih (cursor + 1) hsound') ?_
      rintro r φ' ⟨hphase, hfound⟩
      refine ⟨hphase, ?_⟩
      intro found hr
      obtain ⟨hsound'', hkept', hlater⟩ := hfound found hr
      refine ⟨hsound'', fun session hsess => hkept' session (hkept session hsess), ?_⟩
      intro key record hrec hcursor
      by_cases hhere' : cfg.slot key % (cfg.lastSlot + 1) = cursor
      · exact hkept' _ (hhere key record hrec hhere')
      · exact hlater key record hrec (by omega)
    · -- the last slot
      simp only [if_neg hmore, if_true]
      refine ⟨rfl, ?_⟩
      rintro _ ⟨⟩
      refine ⟨hsound', hkept, ?_⟩
      intro key record hrec hcursor
      have hslots : cfg.slot key % (cfg.lastSlot + 1) < cfg.lastSlot + 1 := Nat.mod_lt _ (by omega)
      exact hhere key record hrec (by omega)

end

section
variable {cfg : Settings} {s : World} {dto : EmergencyRevocationDTO} {noted : Noted}

theorem follows_deleteBatches_killing (batches : List (List String)) (φ : World × Noted) :
    Follows (killing cfg s dto.walletAddress) φ (deleteBatches batches) fun _ φ' => φ'.2 = φ.2 := by
  induction batches generalizing φ with
  | nil => rfl
  | cons batch rest ih =>
    apply follows_bind
    refine follows_perform trivial ?_
    rintro r φ' ⟨-, hnoted⟩
    cases r with
    | error message => exact hnoted
    | ok _ => exact follows_mono (ih φ') fun _ _ h => h.trans hnoted

theorem follows_revokeOnChain {addresses : List String} (φ : World × Noted) (hrevoke : dto.revokeOnChain = true)
    (haddresses : ∀ address, address ∈ addresses ↔ SessionAddress s dto.walletAddress address) :
    Follows (killing cfg s dto.walletAddress) φ (revokeOnChain dto addresses)
      fun r φ' => r = .ok () → ∀ address ∈ addresses, (dto.walletAddress, address) ∈ φ'.2 := by
  simp only [revokeOnChain, hrevoke, Bool.true_and]
  cases addresses with
  | nil => exact fun _ _ hmem => absurd hmem not_mem_nil
  | cons first rest =>
    refine follows_perform ⟨rfl, haddresses⟩ ?_
    rintro r φ' ⟨-, hnoted⟩ hdone address hmem
    cases r with
    | error message => cases hdone
    | ok _ =>
      rw [hnoted]
      exact mem_append_left _ (mem_map_of_mem hmem)

theorem assertAuthorized_cases (cfg : Settings) (token : Option String) :
    assertAuthorized cfg token = .ret () ∨ ∃ message, assertAuthorized cfg token = .fail message := by
  unfold assertAuthorized
  split
  · exact .inl rfl
  · split
    · exact .inr ⟨_, rfl⟩
    · split
      · exact .inr ⟨_, rfl⟩
      · exact .inl rfl

theorem follows_assertAuthorized (token : Option String) (φ : World × Noted) :
    Follows (killing cfg s dto.walletAddress) φ (assertAuthorized cfg token) fun _ φ' => φ' = φ := by
  rcases assertAuthorized_cases cfg token with hauth | ⟨message, hfails⟩
  · rw [hauth]
    rfl
  · rw [hfails]
    rfl

/-- **A kill switch that returns has revoked the permissions of all sessions of its wallet.** -/
theorem follows_execute_revoking (rounds : Nat) (hrevoke : dto.revokeOnChain = true) :
    Follows (killing cfg s dto.walletAddress) (s, noted) (execute cfg dto rounds)
      fun r φ' => ∀ result, r = .ok (some result) →
        ∀ address, SessionAddress s dto.walletAddress address → (dto.walletAddress, address) ∈ φ'.2 := by
  unfold execute
  split
  · exact fun _ => nofun
  · refine follows_bind (follows_mono (follows_assertAuthorized dto.adminSecretToken _)
      (forall_except (fun _ _ rfl => fun _ => nofun) ?_))
    rintro _ _ rfl
    refine follows_looks rfl (fun message _ => nofun) fun ch => ?_
    refine follows_looks rfl (fun message _ => nofun) fun ch => ?_
    refine follows_bind (follows_mono (follows_findSessions_killing rounds 0 fun _ h => absurd h not_mem_nil)
      (forall_except (fun _ _ ⟨rfl, hfound⟩ => fun _ => nofun) ?_))
    rintro found _ ⟨rfl, hfound⟩
    cases found with
    | none => exact fun _ => nofun
    | some sessions =>
      obtain ⟨hsound, -, hall⟩ := hfound sessions rfl
      refine follows_bind (follows_mono (follows_deleteBatches_killing _ _)
        (forall_except (fun _ _ _ => fun _ => nofun) fun _ φ' _ => ?_))
      have haddresses : ∀ address, address ∈ (sessions.map Prod.snd).dedup ↔
          SessionAddress s dto.walletAddress address := by
        intro address
        rw [mem_dedup, mem_map]
        constructor
        · rintro ⟨session, hsess, rfl⟩
          exact hsound session hsess
        · rintro ⟨key, record, hrec, rfl⟩
          exact ⟨_, hall key record hrec (Nat.zero_le _), rfl⟩
      exact follows_bind (follows_mono (follows_revokeOnChain φ' hrevoke haddresses)
        (forall_except (fun _ _ _ => fun _ => nofun) fun _ _ hrev => fun _ _ address haddress => hrev rfl address ((haddresses address).mpr haddress)))

end

/-- Every operation is carried out; permissions are revoked on addresses of sessions only. -/
def going (cfg : Settings) (s : World) (walletAddress : String) : Effect sessionSignature World := fun o w r w' =>
  (r, w') = perform cfg o {} w ∧ match o with
    | .revokePermissions walletAddress' addresses =>
      walletAddress' = walletAddress ∧ ∀ address ∈ addresses, SessionAddress s walletAddress address
    | _ => True

section
variable {cfg : Settings} {s : World} {dto : EmergencyRevocationDTO} {sessions : List (String × String)}

theorem ends_examine (keys : List String) (hsound : Sound s dto.walletAddress sessions) :
    ∃ found, Ends (going cfg s dto.walletAddress)
        (examine (s.owners dto.walletAddress) dto.walletAddress keys sessions) s (.ok found) s ∧
      Sound s dto.walletAddress found := by
  induction keys generalizing sessions with
  | nil => exact ⟨sessions, .ret sessions s, hsound⟩
  | cons first rest ih =>
    obtain ⟨found, hrest, hfound⟩ := ih (hsound.addSession first)
    exact ⟨found, Ends.bind (Ends.perform ⟨rfl, trivial⟩) hrest, hfound⟩

theorem ends_findSessions (cfg : Settings) (s : World) (rounds cursor : Nat) (hrounds : cfg.lastSlot + 1 ≤ rounds + cursor) (hone : 0 < rounds)
    (hsound : Sound s dto.walletAddress sessions) :
    ∃ found, Ends (going cfg s dto.walletAddress)
        (findSessions (s.owners dto.walletAddress) dto.walletAddress rounds cursor sessions) s (.ok (some found)) s ∧
      Sound s dto.walletAddress found := by
  induction rounds generalizing cursor sessions with
  | zero => exact absurd hone (Nat.lt_irrefl 0)
  | succ rounds ih =>
    obtain ⟨examined, hexamined, hsound'⟩ := ends_examine (answer cfg (.scan cursor) {} s).1.2 hsound
    by_cases hmore : cursor < cfg.lastSlot
    · obtain ⟨found, hrest, hfound⟩ := ih (cursor + 1) (by omega) (by omega) hsound'
      refine ⟨found, Ends.bind (Ends.perform ⟨rfl, trivial⟩) (hexamined.bind ?_), hfound⟩
      simp only [answer, if_pos hmore, Nat.succ_ne_zero, if_false]
      exact hrest
    · refine ⟨examined, Ends.bind (Ends.perform ⟨rfl, trivial⟩) (hexamined.bind ?_), hsound'⟩
      simp only [answer, if_neg hmore, if_true]
      exact .ret _ s

theorem ends_deleteBatches (batches : List (List String)) (w : World) :
    ∃ w', Ends (going cfg s dto.walletAddress) (deleteBatches batches) w (.ok ()) w' := by
  induction batches generalizing w with
  | nil => exact ⟨w, .ret () w⟩
  | cons batch rest ih =>
    obtain ⟨w', hrest⟩ := ih (answer cfg (.del batch) {} w).2
    exact ⟨w', Ends.bind (Ends.perform ⟨rfl, trivial⟩) hrest⟩

theorem ends_execute (hvalid : cfg.isValidStellarPublicKey dto.walletAddress = true)
    (hauth : assertAuthorized cfg dto.adminSecretToken = .ret ()) :
    ∃ result w', Ends (going cfg s dto.walletAddress) (execute cfg dto (cfg.lastSlot + 1)) s
      (.ok (some result)) w' := by
  obtain ⟨sessions, hfound, hsound⟩ := ends_findSessions cfg s (cfg.lastSlot + 1) 0
    (by omega) (by omega) fun _ h => absurd h not_mem_nil
  obtain ⟨w', hdeleted⟩ := ends_deleteBatches (s := s) (batches (sessions.map Prod.fst).length (sessions.map Prod.fst)) s
  have hrev : Ends (going cfg s dto.walletAddress) (revokeOnChain dto ((sessions.map Prod.snd).dedup)) w' (.ok ())
      w' := by
    unfold revokeOnChain
    split
    · refine Ends.perform ⟨rfl, rfl, ?_⟩
      intro address hmem
      obtain ⟨session, hsess, rfl⟩ := mem_map.mp (mem_dedup.mp hmem)
      exact hsound session hsess
    · exact .ret () w'
  rw [execute, if_neg (by rw [hvalid]; nofun), hauth]
  -- the proposals are cancelled, the users resolved, the sessions found and deleted, and the permissions revoked
  exact ⟨_, w', Ends.bind (.ret () s) (Ends.bind (Ends.perform ⟨rfl, trivial⟩)
    (Ends.bind (Ends.perform ⟨rfl, trivial⟩) (hfound.bind (hdeleted.bind (hrev.bind (.ret _ w'))))))⟩

end

end Delego.SessionKeys
