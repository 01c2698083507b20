import Delego.Permissions.Revocation
import Delego.SessionKeys.Search

/-! The kill switch with the permissions service.

Where the kill switch revokes the permissions of its sessions (`killswitch/service.ts`,
`getEmergencyKillSwitchService`), the permissions service revokes them in a batch. What a batch says of the
grants the kill switch says (`execute_iff`). -/
namespace Delego.Permissions
open Delego.Process Delego.Data Delego.SessionKeys

/-- The settings of both, and the contract of the environment. -/
structure SwitchSettings where
  permissions : Permissions.Settings
  sessions : SessionKeys.Settings
  /-- `SOROBAN_PERMISSIONS_CONTRACT_ID ?? PERMISSIONS_CONTRACT_ID` -/
  contractId : Option String

@[reducible] def switchSignature : Signature := permissionSignature.extend SessionKeys.Op fun o => Except String o.Reply

abbrev SwitchM := Program switchSignature

section
variable (cfg : SwitchSettings)

def SwitchSettings.contract : String := cfg.contractId.getD ""

def revokePermissions (walletAddress : String) (sessionAddresses : List String) : PermissionM Unit :=
  revokeBatch cfg.permissions cfg.contract sessionAddresses (some walletAddress)

def carryOut : (o : SessionKeys.Op) → SwitchM (Except String o.Reply)
  | .revokePermissions walletAddress sessionAddresses => do
    let outcome ← (revokePermissions cfg walletAddress sessionAddresses).lift.attempt
    return outcome.mapError Thrown.message
  | o => Program.perform (S := switchSignature) (.inr o)

/-- `EmergencyKillSwitchService.execute` -/
def execute (dto : EmergencyRevocationDTO) (rounds : Nat) : SwitchM (Except String (Option EmergencyRevocationResult)) :=
  (SessionKeys.execute cfg.sessions dto rounds).interpret (carryOut cfg)

abbrev SwitchWorld := Permissions.World × SessionKeys.World

def switchDoes (lookups : String → Lookup) : Effect switchSignature SwitchWorld := fun o => match o with
  | .inl o => fun w r w' => does lookups o w.1 r w'.1 ∧ w'.2 = w.2
  | .inr o => fun w r w' => ∃ ch, r = .ok (SessionKeys.perform cfg.sessions o ch w.2).1 ∧
    w' = (w.1, (SessionKeys.perform cfg.sessions o ch w.2).2)

end

section
variable {cfg : SwitchSettings} {lookups : String → Lookup} {α : Type} {p : PermissionM α} {w : Permissions.World}
  {s : SessionKeys.World}

theorem follows_lifted {Q : Except Thrown α → Permissions.World → Prop} (h : Follows (machine (does lookups)) w p Q) :
    Follows (machine (switchDoes cfg lookups)) (w, s) p.lift fun r w' => Q r w'.1 ∧ w'.2 = s := by
  apply follows_lift
  refine follows_mono (follows_simulated (fun φ (ψ : SwitchWorld) => ψ = (φ, s)) (fun _ _ _ _ _ => trivial) ?_ h rfl) ?_
  · rintro φ _ o r ψ' rfl - ⟨hdoes, heq⟩
    exact ⟨ψ'.1, hdoes, Prod.ext rfl heq⟩
  · rintro r _ ⟨φ', rfl, hQ⟩
    exact ⟨hQ, rfl⟩

theorem ends_lifted {outcome : Except Thrown α} {w' : Permissions.World} (h : Ends (does lookups) p w outcome w') :
    Ends (switchDoes cfg lookups) p.lift (w, s) outcome (w', s) := by
  induction h with
  | ret a d => exact .ret a _
  | fail e d => exact Ends.fail (S := switchSignature) e _
  | call first _ ih =>
    refine .call ?_ ih
    exact ⟨first, rfl⟩

end

section
variable {cfg : SwitchSettings} {lookups : String → Lookup} {w : Permissions.World} {s : SessionKeys.World}

/-- The sessions are as the kill switch has them, grants have only gone, and where permissions are noted to have
been revoked there are none. -/
def Agrees (cfg : SwitchSettings) (w : Permissions.World) (φ : SessionKeys.World × Noted) (e : SwitchWorld) : Prop :=
  e.2 = φ.1 ∧ Lessened w e.1 ∧ ∀ walletAddress address, (walletAddress, address) ∈ φ.2 →
    NoneGranted cfg.permissions cfg.contract (some walletAddress) (· = address) e.1

variable {permissions : Permissions.Settings} {listed : String → Prop}
  {owner : Option String} {contract : String}

theorem NoneGranted.lessened {w w' : Permissions.World}
    (h : NoneGranted permissions contract owner listed w) (hlessened : Lessened w w') :
    NoneGranted permissions contract owner listed w' :=
  fun contractId owner' howner hcontr spender hlisted =>
    hlessened.gone (h contractId owner' howner hcontr spender hlisted)

theorem AllReported.lessened {w w' : Permissions.World}
    (h : AllReported permissions contract owner listed lookups w) (hlessened : Lessened w w') :
    AllReported permissions contract owner listed lookups w' :=
  fun contractId owner' hacc spender hlisted => (h contractId owner' hacc spender hlisted).lessened hlessened

theorem AllReported.congr {listed' : String → Prop} {w : Permissions.World}
    (h : AllReported permissions contract owner listed lookups w)
    (hlisted : ∀ spender, listed' spender ↔ listed spender) : AllReported permissions contract owner listed' lookups w := by
  have heq : listed' = listed := funext fun spender => propext (hlisted spender)
  rw [heq]
  exact h

variable {e : SwitchWorld}

theorem follows_revokePermissions {walletAddress : String} {addresses : List String}
    (h : AllReported cfg.permissions cfg.contract (some walletAddress) (· ∈ addresses) lookups e.1) :
    Follows (machine (switchDoes cfg lookups)) e (revokePermissions cfg walletAddress addresses).lift
      fun r e' => ((r = .ok () → NoneGranted cfg.permissions cfg.contract (some walletAddress) (· ∈ addresses) e'.1) ∧
        Lessened e.1 e'.1) ∧ e'.2 = e.2 := by
  obtain ⟨grants, sessions⟩ := e
  have hbatch : Follows (machine (does lookups)) grants (revokePermissions cfg walletAddress addresses)
      fun r w' => (r = .ok () → NoneGranted cfg.permissions cfg.contract (some walletAddress) (· ∈ addresses) w') ∧
        Lessened grants w' := by
    apply follows_lessened
    apply follows_of_ends
    rintro _ w' hends rfl
    exact (revokeBatch_iff addresses).mpr h w' hends
  exact follows_lifted hbatch

variable {o : SessionKeys.Op}

theorem Agrees.session {φ : SessionKeys.World × Noted} {e' : SwitchWorld}
    {r : switchSignature.Result (.inr o)} (hagr : Agrees cfg w φ e) (hnoted : ∀ r, φ.2.next o r = φ.2)
    (h : switchDoes cfg lookups (.inr o) e r e') :
    Carried (T := switchSignature) (killing cfg.sessions s walletAddress) (Agrees cfg w) φ o r e' := by
  obtain ⟨ch, rfl, rfl⟩ := h
  obtain ⟨hsessions, hlessened, hgone⟩ := hagr
  refine ⟨((SessionKeys.perform cfg.sessions o ch φ.1).2, φ.2), ⟨⟨ch, ?_⟩, (hnoted _).symm⟩, ?_, hlessened, hgone⟩
  · rw [hsessions]
  · rw [hsessions]

/-- **What the kill switch asks for is carried out.** -/
theorem follows_carryOut {walletAddress : String} {φ : SessionKeys.World × Noted}
    (hrep : AllReported cfg.permissions cfg.contract (some walletAddress) (SessionAddress s walletAddress)
      lookups w) (hagr : Agrees cfg w φ e) (hallow : Addressed s walletAddress o) :
    Follows (machine (switchDoes cfg lookups)) e (carryOut cfg o)
      (Carried (killing cfg.sessions s walletAddress) (Agrees cfg w) φ o) := by
  cases o with
  | revokePermissions walletAddress' addresses =>
    obtain ⟨rfl, haddresses⟩ := hallow
    obtain ⟨hsessions, hlessened, hgone⟩ := hagr
    have hbatch := (hrep.lessened hlessened).congr haddresses
    refine follows_bind (follows_attempt (follows_mono (follows_revokePermissions hbatch) ?_))
    rintro r e' ⟨⟨hrev, hlessened'⟩, heq⟩
    have hkept : ∀ wallet address, (wallet, address) ∈ φ.2 →
        NoneGranted cfg.permissions cfg.contract (some wallet) (· = address) e'.1 :=
      fun wallet address hmem => (hgone wallet address hmem).lessened hlessened'
    cases r with
    | error err =>
      refine ⟨φ, ⟨⟨{ fate := .refused err.message }, rfl⟩, rfl⟩, heq.trans hsessions, hlessened.trans hlessened', hkept⟩
    | ok _ =>
      refine ⟨(φ.1, addresses.map (Prod.mk walletAddress') ++ φ.2), ⟨⟨{}, rfl⟩, rfl⟩, heq.trans hsessions,
        hlessened.trans hlessened', ?_⟩
      intro wallet address hmem
      rcases List.mem_append.mp hmem with hmem | hmem
      · obtain ⟨address', haddress, hpair⟩ := List.mem_map.mp hmem
        cases hpair
        rintro contractId owner howner hcontr spender rfl
        exact hrev rfl contractId owner howner hcontr spender haddress
      · exact hkept wallet address hmem
  | _ => exact follows_op fun r e' hdoes => Agrees.session hagr (fun _ => rfl) hdoes

end

section
variable {cfg : SwitchSettings} {lookups : String → Lookup} {s : SessionKeys.World}
  {walletAddress contractId owner spender : String} {fields : Fields}

def Left (contractId owner spender : String) (fields : Fields) (s : SessionKeys.World) (e : SwitchWorld) : Prop :=
  e.2 = s ∧ e.1.grants contractId owner spender = some fields

theorem Accepted.fewer {permissions : Permissions.Settings} {contract : String} {explicitOwner : Option String}
    {listed listed' : String → Prop} (h : Accepted permissions contract explicitOwner listed contractId owner)
    (hlisted : ∀ spender, listed' spender → listed spender) :
    Accepted permissions contract explicitOwner listed' contractId owner :=
  ⟨h.owner, h.contract, h.invoked, fun spender hspender => h.spenders spender (hlisted spender hspender)⟩

theorem ends_carryOut (hacc : Accepted cfg.permissions cfg.contract (some walletAddress)
      (SessionAddress s walletAddress) contractId owner)
    (hunreported : ¬Reported cfg.permissions contractId spender (lookups spender) fields)
    {d d' : SessionKeys.World} {r : sessionSignature.Result o} {e : SwitchWorld}
    (hgoing : going cfg.sessions s walletAddress o d r d') (hleft : Left contractId owner spender fields d e) :
    ∃ e', Ends (switchDoes cfg lookups) (carryOut cfg o) e (.ok r) e' ∧ Left contractId owner spender fields d' e' := by
  obtain ⟨grants, sessions⟩ := e
  obtain ⟨rfl, hgrant⟩ := hleft
  obtain ⟨hperf, haddressed⟩ := hgoing
  obtain rfl : r = (SessionKeys.perform cfg.sessions o {} sessions).1 := congrArg Prod.fst hperf
  obtain rfl : d' = (SessionKeys.perform cfg.sessions o {} sessions).2 := congrArg Prod.snd hperf
  cases o with
  | revokePermissions walletAddress' addresses =>
    obtain ⟨rfl, haddresses⟩ := haddressed
    obtain ⟨w', hends, hstays⟩ := ends_revokeBatch (w := grants) (hacc.fewer haddresses)
    refine ⟨(w', sessions), ?_, rfl, hstays spender fields hgrant hunreported⟩
    exact (ends_lifted hends).attempt.bind (.ret _ _)
  | _ => exact ⟨(grants, _), Ends.perform (S := switchSignature) ⟨{}, rfl, rfl⟩, rfl, hgrant⟩

end

section
variable {cfg : SwitchSettings} {lookups : String → Lookup} {w : Permissions.World} {s : SessionKeys.World}

/-- **A kill switch that revokes and returns leaves no grant of its sessions exactly where it throws, or all that
are there are reported.** -/
theorem execute_iff (walletAddress : String) (adminSecretToken : Option String) :
    (∀ rounds result e, Ends (switchDoes cfg lookups) (execute cfg ⟨walletAddress, adminSecretToken, true⟩ rounds)
        (w, s) (.ok (.ok (some result))) e →
      NoneGranted cfg.permissions cfg.contract (some walletAddress) (SessionAddress s walletAddress) e.1) ↔
    (cfg.sessions.isValidStellarPublicKey walletAddress = true →
      assertAuthorized cfg.sessions adminSecretToken = .ret () →
      AllReported cfg.permissions cfg.contract (some walletAddress) (SessionAddress s walletAddress) lookups w) := by
  let dto : EmergencyRevocationDTO := ⟨walletAddress, adminSecretToken, true⟩
  constructor
  · intro hgone hvalid hauth contractId owner hacc address haddress fields hgrant
    by_contra hunreported
    obtain ⟨result, s', hends⟩ : ∃ result s', Ends (going cfg.sessions s dto.walletAddress)
        (SessionKeys.execute cfg.sessions dto (cfg.sessions.lastSlot + 1)) s (.ok (some result)) s' :=
      ends_execute hvalid hauth
    obtain ⟨e, hswitched, -, hleft⟩ := hends.interpret (Left contractId owner (trim address) fields) (e := (w, s))
      ⟨rfl, hgrant⟩ fun o d r d' e hgoing hleft => ends_carryOut hacc hunreported hgoing hleft
    have hnone := hgone _ result e hswitched contractId owner hacc.owner hacc.contract address haddress
    rw [hleft] at hnone
    cases hnone
  · intro hrep rounds result e hends
    have hvalid : cfg.sessions.isValidStellarPublicKey walletAddress = true := by
      by_contra hinvalid
      rw [execute, SessionKeys.execute, if_pos (Bool.eq_false_iff.mpr hinvalid)] at hends
      cases hends
    have hauth : assertAuthorized cfg.sessions adminSecretToken = .ret () := by
      rcases assertAuthorized_cases cfg.sessions adminSecretToken with hauth | ⟨message, hfails⟩
      · exact hauth
      · rw [execute, SessionKeys.execute, if_neg (by simp [hvalid]), hfails] at hends
        cases hends
    have hfollows : Follows (killing cfg.sessions s dto.walletAddress) (s, [])
        (SessionKeys.execute cfg.sessions dto rounds) fun r φ' => ∀ result, r = .ok (some result) →
          ∀ address, SessionAddress s dto.walletAddress address → (dto.walletAddress, address) ∈ φ'.2 :=
      follows_execute_revoking rounds rfl
    have hinterpreted := follows_interpret (Agrees cfg w) (ψ := (w, s))
      (fun o φ e hagr hallow => follows_carryOut (hrep hvalid hauth) hagr hallow)
      ⟨rfl, .refl w, fun _ _ hmem => absurd hmem List.not_mem_nil⟩ hfollows
    obtain ⟨φ, ⟨-, -, hgone⟩, hnoted⟩ := hinterpreted.ends hends
    intro contractId owner howner hcontr address haddress
    exact hgone walletAddress address (hnoted result rfl address haddress) contractId owner howner hcontr address rfl

/-- **A revocation, a batch and a kill switch that return leave no grant exactly where every grant that is there is
reported by its lookup.** -/
theorem revoked_iff_reported (cfg : SwitchSettings) (lookups : String → Lookup) (w : Permissions.World)
    (s : SessionKeys.World) :
    (∀ contractId spender explicitOwner,
      (∀ w', Ends (does lookups) (revoke cfg.permissions contractId spender explicitOwner) w (.ok ()) w' →
        NoneGranted cfg.permissions contractId explicitOwner (· = spender) w') ↔
      AllReported cfg.permissions contractId explicitOwner (· = spender) lookups w) ∧
    (∀ contractId spenders explicitOwner,
      (∀ w', Ends (does lookups) (revokeBatch cfg.permissions contractId spenders explicitOwner) w (.ok ()) w' →
        NoneGranted cfg.permissions contractId explicitOwner (· ∈ spenders) w') ↔
      AllReported cfg.permissions contractId explicitOwner (· ∈ spenders) lookups w) ∧
    ∀ walletAddress adminSecretToken,
      (∀ rounds result e, Ends (switchDoes cfg lookups) (execute cfg ⟨walletAddress, adminSecretToken, true⟩ rounds)
          (w, s) (.ok (.ok (some result))) e →
        NoneGranted cfg.permissions cfg.contract (some walletAddress) (SessionAddress s walletAddress) e.1) ↔
      (cfg.sessions.isValidStellarPublicKey walletAddress = true →
        assertAuthorized cfg.sessions adminSecretToken = .ret () →
        AllReported cfg.permissions cfg.contract (some walletAddress) (SessionAddress s walletAddress) lookups w) :=
  ⟨fun _ spender _ => revoke_iff spender, fun _ spenders _ => revokeBatch_iff spenders, execute_iff⟩

end

def wallet : String := "GA5ZSEJYB37JRC5AVCIA5MOP4RHTM335X2KGX3IHOJAPP5RE34K4KZVN"

def sessionKey : String := "GDPJALI4AZKUU2W426U5WKMAT6CN3AJRPIIRYR2YM54TL2GDWO5O2MZM"

def permissionsContract : String := "CDLZFC3SYJYDZT7K67VZ75HPJVIEUVNIXF47ZG2FB2RMQQVU2HHGCYSC"

def isKey (key : String) : Bool := decide (key = wallet ∨ key = sessionKey)

def sampleSettings : SwitchSettings where
  permissions :=
    { bigInt := fun text => readInteger text.toList
      toNumber := fun _ => .nan
      toISOString := fun _ => ""
      isValidStellarPublicKey := isKey
      contractError := fun contract => if contract = permissionsContract then none else some "Unsupported address type"
      defaultOwner := some wallet, defaultContractId := none, isTest := false
      activeKeyVersion := "v1" }
  sessions :=
    { bigInt := fun text => readInteger text.toList
      isValidStellarPublicKey := isKey, adminSecret := none, slot := fun _ => 0
      lastSlot := 0 }
  contractId := some permissionsContract

/-- A grant of the session, which may spend so much. -/
def granted : Permissions.World where
  grants := fun contract owner spender =>
    if contract = permissionsContract ∧ owner = wallet ∧ spender = sessionKey then some [("limit", .bigint 100)] else none
  sent := []

def openedRecord : SessionKeyRecord := newRecord wallet sessionKey "encrypted" ⟨[], [], "100", "100", 3600⟩ 0

def opened : SessionKeys.World where
  records := AList.insert sessionKey openedRecord ∅
  vault := fun _ => none
  rows := fun _ => none
  owners := fun _ => []
  caches := fun _ _ => none
  published := []

theorem sessionAddress_opened {address : String} : SessionAddress opened wallet address ↔ address = sessionKey := by
  constructor
  · rintro ⟨key, record, ⟨hlook, -⟩, rfl⟩
    by_cases hkey : key = sessionKey
    · subst hkey
      obtain rfl : openedRecord = record := Option.some.inj ((AList.lookup_insert ∅).symm.trans hlook)
      rfl
    · have hnone : opened.records.lookup key = none := (AList.lookup_insert_ne hkey).trans (AList.lookup_empty key)
      rw [hnone] at hlook
      cases hlook
  · rintro rfl
    exact ⟨sessionKey, openedRecord, ⟨AList.lookup_insert ∅, .inr rfl⟩, rfl⟩

theorem unreported_granted {listed : String → Prop} (hlisted : ∀ spender, listed spender ↔ spender = sessionKey)
    (message : String) : ¬AllReported sampleSettings.permissions permissionsContract (some wallet) listed
      (fun _ => .simulationError message) granted := by
  intro hrep
  have hacc : Accepted sampleSettings.permissions permissionsContract (some wallet) listed permissionsContract wallet := by
    refine ⟨by decide +kernel, by decide, rfl, ?_⟩
    intro spender hspender
    rw [(hlisted spender).mp hspender]
    decide
  have htrim : trim sessionKey = sessionKey := by decide
  have hlooks := hrep permissionsContract wallet hacc sessionKey ((hlisted sessionKey).mpr rfl)
  have hgranted : granted.grants permissionsContract wallet (trim sessionKey) = some [("limit", .bigint 100)] := by
    simp only [granted, htrim, and_self, if_true]
  cases (hlooks _ hgranted).1

/-- **A simulation that fails is a grant that is not there: a revocation, a batch and a kill switch may return, and the
grant is left.** -/
theorem returned_unrevoked :
    (∃ w', Ends (does fun _ => .simulationError "timeout") (revoke sampleSettings.permissions permissionsContract sessionKey
        (some wallet)) granted (.ok ()) w' ∧
      ¬NoneGranted sampleSettings.permissions permissionsContract (some wallet) (· = sessionKey) w') ∧
    (∃ w', Ends (does fun _ => .simulationError "timeout") (revokeBatch sampleSettings.permissions permissionsContract
        [sessionKey] (some wallet)) granted (.ok ()) w' ∧
      ¬NoneGranted sampleSettings.permissions permissionsContract (some wallet) (· ∈ [sessionKey]) w') ∧
    ∃ rounds result e, Ends (switchDoes sampleSettings fun _ => .simulationError "timeout")
        (execute sampleSettings ⟨wallet, none, true⟩ rounds) (granted, opened) (.ok (.ok (some result))) e ∧
      ¬NoneGranted sampleSettings.permissions sampleSettings.contract (some wallet) (SessionAddress opened wallet) e.1 := by
  refine ⟨?_, ?_, ?_⟩
  · by_contra hnone
    refine unreported_granted (fun _ => .rfl) "timeout" ((revoke_iff sessionKey).mp ?_)
    intro w' hends
    by_contra hleft
    exact hnone ⟨w', hends, hleft⟩
  · by_contra hnone
    refine unreported_granted (fun _ => List.mem_singleton) "timeout" ((revokeBatch_iff [sessionKey]).mp ?_)
    intro w' hends
    by_contra hleft
    exact hnone ⟨w', hends, hleft⟩
  · by_contra hnone
    refine unreported_granted (fun _ => sessionAddress_opened) "timeout" ((execute_iff wallet none).mp ?_ rfl rfl)
    intro rounds result e hends
    by_contra hleft
    exact hnone ⟨rounds, result, e, hends, hleft⟩

end Delego.Permissions
