import Delego.Data.Calendar
import Delego.Data.Json

/-! The audit chain (`utils/src/audit/auditChain.ts`).

An entry is hashed with the hash of the entry before it. What is hashed are six of its fields, one after the other with
nothing between them, and not its metadata. -/
namespace Delego.Audit
open Delego.Data List

/-- The numerals of the language and the digest of SHA-256. -/
structure Hashing where
  numeral : Number → String
  sha256 : String → BitVec 256

/-- An entry with the hash of the one before it. -/
structure AuditLogChainEntry where
  sequence : Number
  (actorId action targetId : String)
  metadata : Json
  previousHash : Option String
  currentHash : String
  timestamp : Date

structure AuditLogChainInput where
  sequence : Number
  (actorId action targetId : String)
  metadata : Option Json := none
  timestamp : Option Date := none

structure ChainVerificationResult where
  valid : Bool
  entriesVerified : Nat
  firstBrokenSequence : Option Number
  reason : Option String

/-- What is hashed; nothing where the date is invalid. -/
def payload (hashing : Hashing) (sequence : Number) (actorId action targetId : String) (previousHash : Option String)
    (timestamp : Date) : Except String String := do
  let prev := previousHash.getD ""
  let ts ← toISOString timestamp
  return hashing.numeral sequence ++ actorId ++ action ++ targetId ++ prev ++ ts

def computeCurrentHash (hashing : Hashing) (sequence : Number) (actorId action targetId : String)
    (previousHash : Option String) (timestamp : Date) : Except String String := do
  let payload ← payload hashing sequence actorId action targetId previousHash timestamp
  return hex (hashing.sha256 payload)

def buildEntry (hashing : Hashing) (now : Instant) (input : AuditLogChainInput) (previousHash : Option String) :
    Except String AuditLogChainEntry := do
  let timestamp := input.timestamp.getD (some now)
  let currentHash ← computeCurrentHash hashing input.sequence input.actorId input.action input.targetId previousHash timestamp
  return {
    sequence := input.sequence
    actorId := input.actorId
    action := input.action
    targetId := input.targetId
    metadata := input.metadata.getD (.object [])
    previousHash
    currentHash
    timestamp }

def firstBreak (hashing : Hashing) (expectedPrevHash : Option String) (expectedSequence : Nat) :
    List AuditLogChainEntry → Except String (Option ChainVerificationResult)
  | [] => return none
  | entry :: rest =>
    let broken (reason : String) : ChainVerificationResult :=
      { valid := false, entriesVerified := expectedSequence - 1, firstBrokenSequence := some entry.sequence
        reason := some reason }
    let sequence := hashing.numeral entry.sequence
    if entry.sequence ≠ .ofNat expectedSequence then
      return some (broken s!"Sequence gap detected: expected {expectedSequence}, got {sequence}")
    else if entry.previousHash ≠ expectedPrevHash then
      let expected := expectedPrevHash.getD "null"
      let got := entry.previousHash.getD "null"
      return some (broken s!"Previous hash mismatch at sequence {sequence}: expected {expected}, got {got}")
    else do
      let recomputedHash ← computeCurrentHash hashing entry.sequence entry.actorId entry.action entry.targetId
        entry.previousHash entry.timestamp
      if recomputedHash ≠ entry.currentHash then
        return some (broken (s!"Hash mismatch at sequence {sequence}: stored currentHash does not match recomputed hash " ++
          "— entry may have been tampered with"))
      else firstBreak hashing (some entry.currentHash) (expectedSequence + 1) rest

def verifyChain (hashing : Hashing) (entries : List AuditLogChainEntry) : Except String ChainVerificationResult := do
  match ← firstBreak hashing none 1 entries with
  | some result => return result
  | none => return { valid := true, entriesVerified := entries.length, firstBrokenSequence := none, reason := none }

variable {hashing : Hashing}

/-- `verifyChain` finds the chain valid. -/
def Verifies (hashing : Hashing) (entries : List AuditLogChainEntry) : Prop :=
  ∃ result, verifyChain hashing entries = .ok result ∧ result.valid = true

def Chained (hashing : Hashing) (prevHash : Option String) (sequence : Nat) : List AuditLogChainEntry → Prop
  | [] => True
  | entry :: rest => entry.sequence = .ofNat sequence ∧ entry.previousHash = prevHash ∧
      computeCurrentHash hashing entry.sequence entry.actorId entry.action entry.targetId entry.previousHash
        entry.timestamp = .ok entry.currentHash ∧
      Chained hashing (some entry.currentHash) (sequence + 1) rest

variable {sequence : Nat} {entries : List AuditLogChainEntry}

theorem firstBreak_cases {prevHash : Option String} {found : Option ChainVerificationResult}
    (h : firstBreak hashing prevHash sequence entries = .ok found) :
    (∃ result, found = some result ∧ result.valid = false) ∨ found = none ∧ Chained hashing prevHash sequence entries := by
  induction entries generalizing prevHash sequence with
  | nil => exact .inr ⟨(Except.ok.inj h).symm, trivial⟩
  | cons entry rest ih =>
    unfold firstBreak at h
    by_cases hseq : entry.sequence = .ofNat sequence
    · by_cases hprev : entry.previousHash = prevHash
      · simp only [hseq, hprev, ne_eq, not_true_eq_false, if_false] at h
        cases hcomputed : computeCurrentHash hashing (.ofNat sequence) entry.actorId entry.action entry.targetId prevHash
            entry.timestamp with
        | error message =>
          rw [hcomputed] at h
          cases h
        | ok recomputed =>
          rw [hcomputed] at h
          by_cases hhash : recomputed = entry.currentHash
          · subst hhash
            have hrest : firstBreak hashing (some entry.currentHash) (sequence + 1) rest = .ok found := by
              simpa [bind, Except.bind] using h
            rcases ih hrest with hbroken | ⟨hnone, hchained⟩
            · exact .inl hbroken
            · refine .inr ⟨hnone, hseq, hprev, ?_, hchained⟩
              rw [hseq, hprev]
              exact hcomputed
          · simp only [bind, Except.bind, hhash, not_false_eq_true, if_true] at h
            exact .inl ⟨_, (Except.ok.inj h).symm, rfl⟩
      · simp only [hseq, hprev, ne_eq, not_true_eq_false, if_false, not_false_eq_true, if_true] at h
        exact .inl ⟨_, (Except.ok.inj h).symm, rfl⟩
    · simp only [hseq, ne_eq, not_false_eq_true, if_true] at h
      exact .inl ⟨_, (Except.ok.inj h).symm, rfl⟩

theorem chained_of_verifies (h : Verifies hashing entries) :
    Chained hashing none 1 entries := by
  obtain ⟨result, hres, hvalid⟩ := h
  unfold verifyChain at hres
  cases hbreak : firstBreak hashing none 1 entries with
  | error message =>
    rw [hbreak] at hres
    cases hres
  | ok found =>
    rcases firstBreak_cases hbreak with ⟨broken, rfl, hbroken⟩ | ⟨rfl, hchained⟩
    · rw [hbreak] at hres
      obtain rfl : broken = result := Except.ok.inj hres
      simp [hbroken] at hvalid
    · exact hchained

def AuditLogChainEntry.payload (hashing : Hashing) (entry : AuditLogChainEntry) : Except String String :=
  Audit.payload hashing entry.sequence entry.actorId entry.action entry.targetId entry.previousHash entry.timestamp

/-- No two different payloads have one hash. -/
def CollisionFree (hashing : Hashing) (entries entries' : List AuditLogChainEntry) : Prop :=
  ∀ e ∈ entries, ∀ e' ∈ entries', ∀ text text', e.payload hashing = .ok text → e'.payload hashing = .ok text' →
    hashing.sha256 text = hashing.sha256 text' → text = text'

/-- Two entries have the same metadata, and an actor, an action and a target of the same lengths. -/
structure SameShape (e e' : AuditLogChainEntry) : Prop where
  metadata : e.metadata = e'.metadata
  actorId : e.actorId.length = e'.actorId.length
  action : e.action.length = e'.action.length
  targetId : e.targetId.length = e'.targetId.length

theorem payload_ok {sequence : Number} {actorId action targetId : String} {prevHash : Option String} {timestamp : Date}
    {text : String} (h : payload hashing sequence actorId action targetId prevHash timestamp = .ok text) :
    ∃ ts, toISOString timestamp = .ok ts ∧
      text = hashing.numeral sequence ++ actorId ++ action ++ targetId ++ prevHash.getD "" ++ ts := by
  unfold payload at h
  cases hdate : toISOString timestamp with
  | error message =>
    simp [hdate] at h
  | ok ts =>
    rw [hdate] at h
    exact ⟨ts, rfl, (Except.ok.inj h).symm⟩

theorem payload_of_hash {e : AuditLogChainEntry} {hash : String} (h : computeCurrentHash hashing e.sequence e.actorId
    e.action e.targetId e.previousHash e.timestamp = .ok hash) :
    ∃ text, e.payload hashing = .ok text ∧ hex (hashing.sha256 text) = hash := by
  unfold computeCurrentHash at h
  unfold AuditLogChainEntry.payload
  cases hpayload : payload hashing e.sequence e.actorId e.action e.targetId e.previousHash e.timestamp with
  | error message =>
    simp [hpayload] at h
  | ok text =>
    rw [hpayload] at h
    exact ⟨text, rfl, Except.ok.inj h⟩

theorem append_inj {a a' b b' : String} (h : a ++ b = a' ++ b') (hlen : a.length = a'.length) : a = a' ∧ b = b' := by
  have hchars := congrArg String.toList h
  rw [String.toList_append, String.toList_append] at hchars
  obtain ⟨hfirst, hrest⟩ := List.append_inj hchars (by rw [String.length_toList, String.length_toList, hlen])
  exact ⟨String.toList_inj.mp hfirst, String.toList_inj.mp hrest⟩

theorem entry_eq {e e' : AuditLogChainEntry} (hseq : e.sequence = .ofNat sequence)
    (hseq' : e'.sequence = .ofNat sequence) (hshape : SameShape e e')
    (hprev : (e.previousHash.getD "").length = (e'.previousHash.getD "").length)
    (hnone : e.previousHash.isSome = e'.previousHash.isSome) (hcur : e.currentHash = e'.currentHash) {text : String}
    (htext : e.payload hashing = .ok text) (htext' : e'.payload hashing = .ok text) : e = e' := by
  obtain ⟨ts, hts, rfl⟩ := payload_ok htext
  obtain ⟨ts', hts', heq⟩ := payload_ok htext'
  rw [hseq, hseq'] at heq
  obtain ⟨heq, hstamp⟩ := append_inj heq (by simp [hshape.actorId, hshape.action, hshape.targetId, hprev])
  obtain ⟨heq, hpre⟩ := append_inj heq (by simp [hshape.actorId, hshape.action, hshape.targetId])
  obtain ⟨heq, htarget⟩ := append_inj heq (by simp [hshape.actorId, hshape.action])
  obtain ⟨heq, haction⟩ := append_inj heq (by simp [hshape.actorId])
  obtain ⟨-, hactor⟩ := append_inj heq rfl
  subst hstamp
  have htime := toISOString_injective hts hts'
  have hprevious : e.previousHash = e'.previousHash := by
    cases hleft : e.previousHash <;> cases hright : e'.previousHash <;> simp_all
  obtain ⟨⟩ := e
  obtain ⟨⟩ := e'
  have hmetadata := hshape.metadata
  simp only at hseq hseq' hcur htarget haction hactor htime hprevious hmetadata
  subst hseq hseq' hcur htarget haction hactor htime hprevious hmetadata
  rfl

theorem chained_eq {entries' : List AuditLogChainEntry} {prev prev' : Option String}
    (h : Chained hashing prev sequence entries) (h' : Chained hashing prev' sequence entries')
    (hlen : entries.length = entries'.length)
    (hlast : entries.getLast?.map (·.currentHash) = entries'.getLast?.map (·.currentHash))
    (hcollision : CollisionFree hashing entries entries') (hshape : List.Forall₂ SameShape entries entries')
    (hprev : (prev.getD "").length = (prev'.getD "").length) (hnone : prev.isSome = prev'.isSome) :
    entries = entries' ∧ (entries ≠ [] → prev = prev') := by
  induction hshape generalizing prev prev' sequence with
  | nil => exact ⟨rfl, fun hnot => absurd rfl hnot⟩
  | @cons e e' rest rest' hfirst hrest ih =>
    obtain ⟨hseq, rfl, hhash, hchained⟩ := h
    obtain ⟨hseq', rfl, hhash', hchained'⟩ := h'
    obtain ⟨text, htext, hdigest⟩ := payload_of_hash hhash
    obtain ⟨text', htext', hdigest'⟩ := payload_of_hash hhash'
    -- what follows is the same, so the hash of this entry is
    have hafter : e.currentHash = e'.currentHash ∧ rest = rest' := by
      cases hrest with
      | nil => exact ⟨by simpa using hlast, rfl⟩
      | @cons next next' later later' hnext hlater =>
        have hlengths : ((some e.currentHash).getD "").length = ((some e'.currentHash).getD "").length := by
          simp [← hdigest, ← hdigest', ← String.length_toList, length_hex]
        obtain ⟨heq, hhashes⟩ := ih hchained hchained' (by simpa using hlen) (by simpa using hlast)
          (fun a ha a' ha' => hcollision a (mem_cons_of_mem _ ha) a' (mem_cons_of_mem _ ha')) hlengths rfl
        exact ⟨Option.some.inj (hhashes (cons_ne_nil _ _)), heq⟩
    obtain ⟨hcur, rfl⟩ := hafter
    have hdigests : hashing.sha256 text = hashing.sha256 text' := hex_injective (by rw [hdigest, hdigest', hcur])
    obtain rfl := hcollision e mem_cons_self e' mem_cons_self text text' htext htext' hdigests
    obtain rfl := entry_eq hseq hseq' hfirst hprev hnone hcur htext htext'
    exact ⟨rfl, fun _ => rfl⟩

/-- **Chains that verify, are of one length and end in one hash are the same exactly where the entries at each place agree
in their metadata and in the lengths of their actor, action and target.** -/
theorem equal_iff (hashing : Hashing) {entries entries' : List AuditLogChainEntry} (h : Verifies hashing entries)
    (h' : Verifies hashing entries') (hlen : entries.length = entries'.length)
    (hlast : entries.getLast?.map (·.currentHash) = entries'.getLast?.map (·.currentHash))
    (hcollision : CollisionFree hashing entries entries') :
    entries = entries' ↔ List.Forall₂ SameShape entries entries' := by
  constructor
  · rintro rfl
    exact forall₂_same.mpr fun e _ => ⟨rfl, rfl, rfl, rfl⟩
  · intro hshape
    exact (chained_eq (chained_of_verifies h) (chained_of_verifies h') hlen hlast hcollision hshape rfl rfl).1

def recorded : Hashing where
  numeral
    | .finite q => toString q.num
    | _ => "NaN"
  sha256 _ := 0xf9c9553e01e582170451d9821ac4ca5e91d316968ea2fea6f190759b15c15ddd

/-- A suspension of a merchant, first in its chain. -/
def suspension (actorId action targetId reason : String) : AuditLogChainEntry where
  sequence := .ofNat 1
  actorId
  action
  targetId
  metadata := .object [("reason", .string reason)]
  previousHash := none
  currentHash := hex 0xf9c9553e01e582170451d9821ac4ca5e91d316968ea2fea6f190759b15c15ddd
  timestamp := some newYear

theorem equal_iff_suspension : [suspension "admin-1" "merchant_suspension" "merchant-42" "violation"] =
        [suspension "admin-1" "merchant_suspension" "merchant-42" "request"] ↔
      List.Forall₂ SameShape [suspension "admin-1" "merchant_suspension" "merchant-42" "violation"]
        [suspension "admin-1" "merchant_suspension" "merchant-42" "request"] := by
  refine equal_iff recorded ⟨_, rfl, rfl⟩ ⟨_, rfl, rfl⟩ rfl rfl ?_
  intro e he e' he' text text' htext htext' _
  obtain rfl := mem_singleton.mp he
  obtain rfl := mem_singleton.mp he'
  exact Except.ok.inj (htext.symm.trans htext')

/-- Another reason, or a character that has moved from the action to the target, leaves a chain that verifies and ends in
the same hash. -/
theorem chains_differ :
    let chain := [suspension "admin-1" "merchant_suspension" "merchant-42" "violation"]
    let reworded := [suspension "admin-1" "merchant_suspension" "merchant-42" "request"]
    let shifted := [suspension "admin-1" "merchant_suspensio" "nmerchant-42" "violation"]
    (Verifies recorded chain ∧ Verifies recorded reworded ∧ Verifies recorded shifted) ∧
      (CollisionFree recorded chain reworded ∧ CollisionFree recorded chain shifted) ∧
      chain.getLast?.map (·.currentHash) = reworded.getLast?.map (·.currentHash) ∧
      chain.getLast?.map (·.currentHash) = shifted.getLast?.map (·.currentHash) ∧
      chain ≠ reworded ∧ chain ≠ shifted := by
  intro chain reworded shifted
  have hpayload : ∀ e ∈ chain ++ reworded ++ shifted, e.payload recorded =
      .ok "1admin-1merchant_suspensionmerchant-422026-01-01T00:00:00.000Z" := by
    intro e he
    simp only [chain, reworded, shifted, cons_append, nil_append, mem_cons, not_mem_nil, or_false] at he
    rcases he with rfl | rfl | rfl <;> rfl
  have hcollision : ∀ e ∈ chain ++ reworded ++ shifted, ∀ e' ∈ chain ++ reworded ++ shifted, ∀ text text',
      e.payload recorded = .ok text → e'.payload recorded = .ok text' → text = text' := by
    intro e he e' he' text text' htext htext'
    rw [hpayload e he] at htext
    rw [hpayload e' he'] at htext'
    exact Except.ok.inj (htext.symm.trans htext')
  refine ⟨⟨⟨_, rfl, rfl⟩, ⟨_, rfl, rfl⟩, ⟨_, rfl, rfl⟩⟩, ⟨?_, ?_⟩, rfl, rfl, ?_, ?_⟩
  · intro e he e' he' text text' htext htext' _
    exact hcollision e (by simp [he]) e' (by simp [he']) text text' htext htext'
  · intro e he e' he' text text' htext htext' _
    exact hcollision e (by simp [he]) e' (by simp [he']) text text' htext htext'
  · intro heq
    have hmetadata := congrArg AuditLogChainEntry.metadata (cons.inj heq).1
    simp [suspension] at hmetadata
  · intro heq
    have htarget := congrArg AuditLogChainEntry.targetId (cons.inj heq).1
    simp [suspension] at htarget

end Delego.Audit
