import Delego.Permissions.Service
import Delego.Process.Extend

/-! What a lookup finds, and what a revocation leaves.

The network only ever takes grants away (`Lessened`). -/
namespace Delego.Permissions
open Delego.Process Delego.Data List Option

section
variable {cfg : Settings} {owner contractId spender : String}

theorem resolveOwner_resolved {explicitOwner : Option String} (h : resolveOwner cfg explicitOwner = .ok owner) :
    resolveOwner cfg (some owner) = .ok owner := by
  simp only [resolveOwner] at h
  split at h
  · cases h
  · rename_i candidate hcandidate
    split at h
    · cases h
    · rename_i hempty
      split at h
      · rename_i hvalid
        cases h
        simp only [resolveOwner, orElse_some, trim_trim, if_neg hempty, if_pos hvalid]
      · cases h

theorem resolveContractId_resolved {contractIdInput : Option String}
    (h : resolveContractId cfg contractIdInput = .ok contractId) :
    resolveContractId cfg (some contractId) = .ok contractId := by
  simp only [resolveContractId] at h
  split at h
  · cases h
  · rename_i resolved hresolved
    split at h
    · cases h
    · rename_i hempty
      cases h
      simp only [resolveContractId, orElse_some, trim_trim, if_neg hempty]

theorem validateSpender_ok {spenderInput : String} (h : validateSpender cfg spenderInput = .ok spender) :
    spender = trim spenderInput ∧ validateSpender cfg spender = .ok spender := by
  simp only [validateSpender] at h
  split at h
  · cases h
  · rename_i hempty
    split at h
    · rename_i hvalid
      cases h
      refine ⟨rfl, ?_⟩
      simp only [validateSpender, trim_trim, if_neg hempty, if_pos hvalid]
    · cases h

end

def Lessened (w w' : World) : Prop :=
  ∀ contract owner spender, w'.grants contract owner spender = none ∨
    w'.grants contract owner spender = w.grants contract owner spender

theorem Lessened.refl (w : World) : Lessened w w := fun _ _ _ => .inr rfl

theorem Lessened.trans {w w' w'' : World} (h : Lessened w w') (h' : Lessened w' w'') : Lessened w w'' := by
  intro contract owner spender
  rcases h' contract owner spender with hnone | heq
  · exact .inl hnone
  · rw [heq]
    exact h contract owner spender

theorem Lessened.gone {w w' : World} (h : Lessened w w') {contract owner spender : String}
    (hgone : w.grants contract owner spender = none) : w'.grants contract owner spender = none := by
  rcases h contract owner spender with hnone | heq
  · exact hnone
  · exact heq.trans hgone

theorem Lessened.back {w w' : World} (h : Lessened w w') {contract owner spender : String} {fields : Fields}
    (hgrant : w'.grants contract owner spender = some fields) : w.grants contract owner spender = some fields := by
  rcases h contract owner spender with hnone | heq
  · simp [hnone] at hgrant
  · exact heq.symm.trans hgrant

def Revoking (w : World) (hash : Nat) (contract owner spender : String) : Prop :=
  ∃ tx, w.sent[hash]? = some tx ∧ (tx.contract = contract ∧ tx.owner = owner ∧ tx.spender = spender) ∧
    (tx.succeeded = some true → w.grants contract owner spender = none)

section
variable {w w' : World} {hash : Nat} {contract owner spender : String}

theorem lessened_remove (contract owner spender : String) : Lessened w (w.remove contract owner spender) := by
  intro c o s
  by_cases h : c = contract ∧ o = owner ∧ s = spender
  · exact .inl (if_pos h)
  · exact .inr (if_neg h)

theorem execute_cases (hash : Nat) (succeeded : Bool) : w.execute hash succeeded = w ∨ ∃ tx, w.sent[hash]? = some tx ∧
      (w.execute hash succeeded).sent = w.sent.set hash { tx with succeeded := some succeeded } ∧
      Lessened w (w.execute hash succeeded) ∧
      (succeeded = true → (w.execute hash succeeded).grants tx.contract tx.owner tx.spender = none) := by
  unfold World.execute
  cases htx : w.sent[hash]? with
  | none => exact .inl rfl
  | some tx =>
    simp only
    split
    · exact .inl rfl
    · refine .inr ⟨tx, rfl, ?_⟩
      cases succeeded with
      | false => exact ⟨rfl, .refl w, nofun⟩
      | true =>
        refine ⟨rfl, ?_, fun _ => if_pos ⟨rfl, rfl, rfl⟩⟩
        exact (Lessened.refl w).trans (lessened_remove tx.contract tx.owner tx.spender)

theorem lessened_after (e : Event) : Lessened w (w.after e) := by
  cases e with
  | removed contract owner spender => exact lessened_remove contract owner spender
  | executed hash succeeded =>
    rcases execute_cases (w := w) hash succeeded with heq | ⟨tx, -, -, hlessened, -⟩
    · change Lessened w (w.execute hash succeeded)
      rw [heq]
      exact .refl w
    · exact hlessened

theorem Revoking.lessened (h : Revoking w hash contract owner spender) (hlessened : Lessened w w')
    (hsent : w'.sent[hash]? = w.sent[hash]?) : Revoking w' hash contract owner spender := by
  obtain ⟨tx, htx, hof, hgone⟩ := h
  exact ⟨tx, hsent.trans htx, hof, fun hsucc => hlessened.gone (hgone hsucc)⟩

theorem Revoking.after (h : Revoking w hash contract owner spender) (e : Event) :
    Revoking (w.after e) hash contract owner spender := by
  cases e with
  | removed c o s => exact h.lessened (lessened_after _) rfl
  | executed hash' succeeded =>
    rcases execute_cases (w := w) hash' succeeded with heq | ⟨tx', htx', hsent, hlessened, hgone⟩
    · change Revoking (w.execute hash' succeeded) hash contract owner spender
      rw [heq]
      exact h
    · by_cases hhash : hash' = hash
      · subst hhash
        obtain ⟨tx, htx, ⟨rfl, rfl, rfl⟩, -⟩ := h
        obtain rfl := some.inj (htx.symm.trans htx')
        have hlt : hash' < w.sent.length := (List.getElem?_eq_some_iff.mp htx).1
        have hexec : (w.execute hash' succeeded).sent[hash']? = some { tx with succeeded := some succeeded } := by
          rw [hsent, getElem?_set_self hlt]
        exact ⟨_, hexec, ⟨rfl, rfl, rfl⟩, fun hsucc => hgone (some.inj hsucc)⟩
      · refine h.lessened hlessened ?_
        change (w.execute hash' succeeded).sent[hash]? = _
        rw [hsent, getElem?_set_ne hhash]

end

section
variable {lookups : String → Lookup} {o : Op} {w w' : World} {r : permissionSignature.Result o}
  {contract owner spender : String}

/-- An invariant of the world: what happens keeps it, and what is sent. -/
structure Stable (I : World → Prop) : Prop where
  after : ∀ w e, I w → I (w.after e)
  send : ∀ (w : World) tx, I w → I { w with sent := w.sent ++ [tx] }

variable {I : World → Prop}

theorem Stable.foldl (h : Stable I) (events : List Event) (hw : I w) : I (events.foldl World.after w) := by
  induction events generalizing w with
  | nil => exact hw
  | cons e events ih => exact ih (h.after w e hw)

theorem deliver_world (lookups : String → Lookup) (o : Op) (ch : Choice) (w : World) :
    (deliver lookups o ch w).2 = w ∨ ∃ tx, (deliver lookups o ch w).2 = { w with sent := w.sent ++ [tx] } := by
  cases o with
  | getTransactionFee | setTimeout => exact .inl rfl
  | lookUp tx =>
    simp only [deliver]
    split <;> exact .inl rfl
  | sendTransaction tx =>
    rcases ch.fate.carry_world (answer (.sendTransaction tx) ch w) w with h | h
    · exact .inl h
    · exact .inr ⟨_, h⟩
  | loadAccount | simulateTransaction | recordSigningKeyVersion | sign | getTransaction =>
    exact .inl ((ch.fate.carry_world (answer _ ch w) w).elim id id)

theorem Stable.step (h : Stable I) (hw : I w) (hdoes : does lookups o w r w') : I w' := by
  obtain ⟨ch, hperf⟩ := hdoes
  have hpre : I (ch.events.foldl World.after w) := h.foldl ch.events hw
  have hworld : w' = (deliver lookups o ch (ch.events.foldl World.after w)).2 := congrArg Prod.snd hperf
  rw [hworld]
  rcases deliver_world lookups o ch (ch.events.foldl World.after w) with heq | ⟨tx, hsent⟩
  · rw [heq]
    exact hpre
  · rw [hsent]
    exact h.send _ tx hpre

theorem Stable.follows {α : Type} (h : Stable I) (hw : I w) (p : PermissionM α) :
    Follows (machine (does lookups)) w p fun _ w' => I w' :=
  follows_within (only_all (P := fun _ => True) p fun _ => trivial) hw (fun _ _ _ _ => trivial)
    fun _ _ _ _ hw _ hdoes => h.step hw hdoes

theorem stable_lessened (w : World) : Stable (Lessened w) := ⟨fun _ e h => h.trans (lessened_after e), fun _ _ h => h⟩

theorem stable_revoking (hash : Nat) (contract owner spender : String) :
    Stable fun w => Revoking w hash contract owner spender := by
  refine ⟨fun _ e h => h.after e, ?_⟩
  rintro w tx ⟨tx', htx', hof, hgone⟩
  have hlt : hash < w.sent.length := (List.getElem?_eq_some_iff.mp htx').1
  exact ⟨tx', (List.getElem?_append_left hlt).trans htx', hof, hgone⟩

theorem lessened_does (h : does lookups o w r w') : Lessened w w' := (stable_lessened w).step (.refl w) h

theorem does_lookUp {tx : Invocation} {r : permissionSignature.Result (.lookUp tx)}
    (h : does lookups (.lookUp tx) w r w') : r = match lookups tx.spender with
      | .answered => .ok (.success (((w'.grants tx.contract tx.owner tx.spender).map Native.object).getD .null))
      | .simulationError message => .ok (.error message)
      | .empty => .ok (.success none)
      | .thrown message => .error (.other message) := by
  obtain ⟨ch, hperf⟩ := h
  simp only [perform, deliver] at hperf
  cases hlook : lookups tx.spender <;> rw [hlook] at hperf <;> cases hperf <;> rfl

theorem does_sendTransaction {tx : Invocation} {response : SendResponse}
    (h : does lookups (.sendTransaction tx) w (.ok response) w') :
    Revoking w' response.hash tx.contract tx.owner tx.spender := by
  obtain ⟨ch, hperf⟩ := h
  simp only [perform, deliver] at hperf
  cases hfate : ch.fate with
  | done =>
    rw [hfate] at hperf
    cases hperf
    exact ⟨_, getElem?_concat_length, ⟨rfl, rfl, rfl⟩, nofun⟩
  | refused message | lost message =>
    rw [hfate] at hperf
    cases hperf

theorem does_getTransaction {hash : Nat} (h : does lookups (.getTransaction hash) w (.ok .success) w')
    (hrevoking : Revoking w hash contract owner spender) : w'.grants contract owner spender = none := by
  obtain ⟨tx, htx, -, hgone⟩ := (stable_revoking hash contract owner spender).step hrevoking h
  refine hgone ?_
  obtain ⟨ch, hperf⟩ := h
  simp only [perform, deliver] at hperf
  cases hfate : ch.fate with
  | done =>
    rw [hfate] at hperf
    simp only [Fate.carry, answer, Except.mapError, Prod.mk.injEq, Except.ok.injEq] at hperf
    obtain ⟨hstat, rfl⟩ := hperf
    simp only [World.status, htx, bind_some] at hstat
    split at hstat
    · cases hstat
    · rename_i succeeded hsucc
      split at hstat
      · cases hstat
      · split at hstat
        · rename_i htrue
          rw [hsucc, htrue]
        · cases hstat
  | refused message | lost message =>
    rw [hfate] at hperf
    cases hperf

end

-- whether an input is blank is not to be computed of one that is not known
attribute [local irreducible] trim

def Reported (cfg : Settings) (contractId spender : String) (lookup : Lookup) (fields : Fields) : Prop :=
  lookup = .answered ∧ ∃ grant, readGrant cfg contractId spender (.success (some (.object fields))) = .ok (some grant)

def Looks (cfg : Settings) (lookups : String → Lookup) (contractId owner spender : String) (w : World) : Prop :=
  ∀ fields, w.grants contractId owner spender = some fields → Reported cfg contractId spender (lookups spender) fields

section
variable {cfg : Settings} {lookups : String → Lookup} {w : World} {contractId owner spender : String}

theorem Looks.lessened {w' : World} (h : Looks cfg lookups contractId owner spender w) (hlessened : Lessened w w') :
    Looks cfg lookups contractId owner spender w' := fun fields hflds => h fields (hlessened.back hflds)

theorem follows_any {α β : Type} {p : PermissionM α} {f : α → PermissionM β} {Q : Except Thrown β → World → Prop}
    (herror : ∀ e w', Q (.error e) w') (hf : ∀ a w', Follows (machine (does lookups)) w' (f a) Q) :
    Follows (machine (does lookups)) w (p >>= f) Q := by
  have hstable : Stable fun _ => True := ⟨fun _ _ _ => trivial, fun _ _ _ => trivial⟩
  exact follows_bind (follows_mono (hstable.follows trivial p)
    (forall_except (fun e w' _ => herror e w') fun a w' _ => hf a w'))

theorem follows_lessened {α : Type} {p : PermissionM α} {Q : Except Thrown α → World → Prop}
    (h : Follows (machine (does lookups)) w p Q) :
    Follows (machine (does lookups)) w p fun r w' => Q r w' ∧ Lessened w w' :=
  follows_and h ((stable_lessened w).follows (Lessened.refl w) p)

theorem follows_pollAttempts {hash : Nat} (attempts : Nat) (h : Revoking w hash contractId owner spender) :
    Follows (machine (does lookups)) w (pollAttempts cfg hash attempts)
      fun r w' => r = .ok () → w'.grants contractId owner spender = none := by
  have hstable := stable_revoking hash contractId owner spender
  induction attempts generalizing w with
  | zero => exact nofun
  | succ attempts ih =>
    refine follows_bind (follows_mono (hstable.follows h _) (forall_except (fun _ _ _ => nofun) fun _ _ hwaited => ?_))
    apply follows_bind
    refine follows_attempt (follows_op ?_)
    intro status w'' hdoes
    cases status with
    | error e =>
      cases e with
      | permission err => exact nofun
      | other message => exact ih (hstable.step hwaited hdoes)
    | ok txStatus =>
      cases txStatus with
      | success => exact fun _ => does_getTransaction hdoes hwaited
      | failed resultXdr => exact nofun
      | notFound => exact ih (hstable.step hwaited hdoes)

theorem follows_submitRevocation : Follows (machine (does lookups)) w (submitRevocation cfg contractId owner spender)
    fun r w' => r = .ok () → w'.grants contractId owner spender = none := by
  refine follows_any (fun _ _ => nofun) fun sequence w' => ?_
  refine follows_any (fun _ _ => nofun) fun _ w' => ?_
  refine follows_any (fun _ _ => nofun) fun fee w' => ?_
  refine follows_any (fun _ _ => nofun) fun simRes w' => ?_
  cases simRes with
  | rejected reasons error => exact nofun
  | success assembly =>
    refine follows_any (fun _ _ => nofun) fun _ w' => ?_
    cases assembly with
    | some err => exact nofun
    | none =>
      refine follows_any (fun _ _ => nofun) fun _ w' => ?_
      refine follows_bind (follows_op (forall_except (fun _ _ _ => nofun) fun _ _ hsent => ?_))
      simp only [Then]
      split
      · exact nofun
      · exact follows_pollAttempts _ (does_sendTransaction hsent)

structure Resolved (cfg : Settings) (contractId owner spender : String) : Prop where
  owner : resolveOwner cfg (some owner) = .ok owner
  contract : resolveContractId cfg (some contractId) = .ok contractId
  spender : validateSpender cfg spender = .ok spender

theorem get_resolved (h : Resolved cfg contractId owner spender) :
    get cfg contractId owner spender = queryGrant cfg contractId owner spender := by
  rw [get, h.owner, h.contract, h.spender]
  rfl

theorem revoke_resolved {contractIdInput spenderInput : String} {explicitOwner : Option String}
    (howner : resolveOwner cfg explicitOwner = .ok owner)
    (hcontr : resolveContractId cfg (some contractIdInput) = .ok contractId)
    (hspender : validateSpender cfg spenderInput = .ok spender) :
    revoke cfg contractIdInput spenderInput explicitOwner = revokeGrant cfg contractId owner spender := by
  rw [revoke, howner, hcontr, hspender]
  rfl

theorem follows_queryGrant
    (hlooks : cfg.contractError contractId = none → Looks cfg lookups contractId owner spender w) :
    Follows (machine (does lookups)) w (queryGrant cfg contractId owner spender)
      fun r w' => r = .ok none → w'.grants contractId owner spender = none := by
  refine follows_bind (follows_mono ((stable_lessened w).follows (.refl w) _)
    (forall_except (fun _ _ _ => nofun) fun _ _ hlessened => ?_))
  simp only [Then, invokeContractFunction]
  cases hinvoked : cfg.contractError contractId with
  | some message => exact nofun
  | none =>
    apply follows_tryCatch
    apply follows_bind
    refine follows_op ?_
    intro looked w'' hdoes
    have hlooked := does_lookUp hdoes
    have hlooks := (hlooks hinvoked).lessened (hlessened.trans (lessened_does hdoes))
    cases hgrant : w''.grants contractId owner spender with
    | none =>
      cases looked with
      | error e => exact fun _ => hgrant
      | ok looked =>
        simp only [Then]
        cases readGrant cfg contractId spender looked with
        | error message => exact fun _ => hgrant
        | ok existing => exact fun _ => hgrant
    | some fields =>
      -- the grant is there, and is reported
      obtain ⟨hansd, grant, hread⟩ := hlooks fields hgrant
      simp only [hansd, hgrant, map_some, getD_some] at hlooked
      subst hlooked
      simp only [Then, hread]
      exact nofun

theorem follows_revokeGrant (h : Resolved cfg contractId owner spender)
    (hlooks : cfg.contractError contractId = none → Looks cfg lookups contractId owner spender w) :
    Follows (machine (does lookups)) w (revokeGrant cfg contractId owner spender)
      fun r w' => (r = .ok () → w'.grants contractId owner spender = none) ∧ Lessened w w' := by
  rw [revokeGrant, get_resolved h]
  refine follows_lessened (follows_bind (follows_mono (follows_queryGrant hlooks)
    (forall_except (fun _ _ _ => nofun) fun existing _ hgone => ?_)))
  cases existing with
  | none => exact fun _ => hgone rfl
  | some grant => exact follows_submitRevocation

theorem follows_revokeEach {spenders : List String} (h : ∀ spender ∈ spenders, Resolved cfg contractId owner spender)
    (hlooks : ∀ spender ∈ spenders, cfg.contractError contractId = none →
      Looks cfg lookups contractId owner spender w) :
    Follows (machine (does lookups)) w (revokeEach cfg contractId owner spenders)
      fun r w' => r = .ok () → ∀ spender ∈ spenders, w'.grants contractId owner spender = none := by
  induction spenders generalizing w with
  | nil => exact fun _ _ hspender => absurd hspender not_mem_nil
  | cons first rest ih =>
    have hresolved := h first mem_cons_self
    rw [revokeEach, revoke_resolved hresolved.owner hresolved.contract hresolved.spender]
    refine follows_bind (follows_mono (follows_revokeGrant hresolved (hlooks first mem_cons_self))
      (forall_except (fun _ _ ⟨hgone, hlessened⟩ => nofun) ?_))
    rintro _ w' ⟨hgone, hlessened⟩
    have hrest := ih (w := w') (fun spender hmem => h spender (mem_cons_of_mem _ hmem))
      fun spender hmem hinvoked => (hlooks spender (mem_cons_of_mem _ hmem) hinvoked).lessened hlessened
    refine follows_mono (follows_lessened hrest) ?_
    rintro r w'' ⟨hothers, hlessened'⟩ hdone spender hmem
    rcases mem_cons.mp hmem with rfl | hmem
    · exact hlessened'.gone (hgone rfl)
    · exact hothers hdone spender hmem

end

end Delego.Permissions
