import Delego.Audit.Chain

/-! The Merkle root of the audit chain (`utils/src/audit/auditChain.ts`).

The leaves are the hashes of the entries. Each level has half the texts of the one below it, and says what that was if
no two texts that were hashed have one digest. -/
namespace Delego.Audit
open Delego.Data List

structure MerkleRootResult where
  root : String
  leafCount : Nat
  timestamp : Date

section
variable (hashing : Hashing)

def concatenateHashes (left right : String) : String := hex (hashing.sha256 (left ++ right))

def pairs : List String → List (String × String)
  | [] => []
  | [left] => [(left, left)]
  | left :: right :: leaves => (left, right) :: pairs leaves

def nextLevel (leaves : List String) : List String := (pairs leaves).map fun (left, right) => concatenateHashes hashing left right

def computeMerkleRootFromLeaves : Nat → List String → Option String
  | _, [root] => some root
  | 0, _ => none
  | levels + 1, leaves => computeMerkleRootFromLeaves levels (nextLevel hashing leaves)

def computeMerkleRoot (levels : Nat) (now : Instant) (entries : List AuditLogChainEntry) : Option MerkleRootResult :=
  if entries.length = 0 then
    some { root := concatenateHashes hashing "" "", leafCount := 0, timestamp := some now }
  else do
    let root ← computeMerkleRootFromLeaves hashing levels (entries.map (·.currentHash))
    return { root, leafCount := entries.length, timestamp := some now }

def pairTexts (leaves : List String) : List String := (pairs leaves).map fun (left, right) => left ++ right

def hashedTexts : Nat → List String → List String
  | _, [_] => []
  | 0, _ => []
  | levels + 1, leaves => pairTexts leaves ++ hashedTexts levels (nextLevel hashing leaves)

abbrev Apart (texts texts' : List String) : Prop :=
  ∀ text ∈ texts, ∀ text' ∈ texts', hashing.sha256 text = hashing.sha256 text' → text = text'

abbrev Digests (leaves : List String) : Prop := ∀ leaf ∈ leaves, leaf.toList.length = 64

theorem length_pairs (leaves : List String) : (pairs leaves).length = (leaves.length + 1) / 2 := by
  induction leaves using pairs.induct with
  | case1 => rfl
  | case2 left => simp [pairs]
  | case3 left right leaves ih =>
    simp only [pairs, length_cons, ih]
    omega

theorem length_nextLevel (leaves : List String) : (nextLevel hashing leaves).length = (leaves.length + 1) / 2 := by
  rw [nextLevel, length_map, length_pairs]

theorem digests_nextLevel (leaves : List String) : Digests (nextLevel hashing leaves) := by
  intro leaf hleaf
  obtain ⟨pair, -, rfl⟩ := mem_map.mp hleaf
  exact length_hex _

variable {leaves : List String}

theorem root_succ (levels : Nat) (h : leaves.length ≠ 1) :
    computeMerkleRootFromLeaves hashing (levels + 1) leaves =
      computeMerkleRootFromLeaves hashing levels (nextLevel hashing leaves) := by
  match leaves with
  | [] => rfl
  | _ :: _ :: _ => rfl

theorem hashedTexts_succ (levels : Nat) (h : leaves.length ≠ 1) :
    hashedTexts hashing (levels + 1) leaves = pairTexts leaves ++ hashedTexts hashing levels (nextLevel hashing leaves) := by
  match leaves with
  | [] => rfl
  | _ :: _ :: _ => rfl

theorem root_some {levels : Nat} (hsome : leaves ≠ [])
    (hlevels : leaves.length ≤ levels) : ∃ root, computeMerkleRootFromLeaves hashing levels leaves = some root := by
  induction levels generalizing leaves with
  | zero => exact absurd (eq_nil_of_length_eq_zero (Nat.le_zero.mp hlevels)) hsome
  | succ levels ih =>
    have hnext := length_nextLevel hashing leaves
    have hpos := length_pos_of_ne_nil hsome
    by_cases hone : leaves.length = 1
    · obtain ⟨leaf, rfl⟩ := length_eq_one_iff.mp hone
      exact ⟨leaf, rfl⟩
    · rw [root_succ hashing _ hone]
      refine ih (fun hnone => ?_) (by omega)
      rw [hnone, length_nil] at hnext
      omega

theorem root_stable {levels levels' : Nat} {root : String}
    (hlevels : levels ≤ levels') (h : computeMerkleRootFromLeaves hashing levels leaves = some root) :
    computeMerkleRootFromLeaves hashing levels' leaves = some root := by
  induction levels generalizing leaves levels' with
  | zero =>
    match leaves with
    | [leaf] => simpa [computeMerkleRootFromLeaves] using h
  | succ levels ih =>
    obtain ⟨levels', rfl⟩ : ∃ n, levels' = n + 1 := ⟨levels' - 1, by omega⟩
    by_cases hone : leaves.length = 1
    · obtain ⟨leaf, rfl⟩ := length_eq_one_iff.mp hone
      simpa [computeMerkleRootFromLeaves] using h
    · rw [root_succ hashing _ hone] at h ⊢
      exact ih (by omega) h

theorem pairs_repeated (last : String) (h : leaves.length % 2 = 0) : pairs (leaves ++ [last, last]) = pairs (leaves ++ [last]) := by
  induction leaves using pairs.induct with
  | case1 => rfl
  | case2 left => cases h
  | case3 left right leaves ih => exact congrArg (cons _) (ih ((Nat.add_mod_right ..).symm.trans h))

variable {hashing}

theorem append_inj_of_digests {left right left' right' : String} (hleft : left.toList.length = 64)
    (hleft' : left'.toList.length = 64) (h : left ++ right = left' ++ right') : left = left' ∧ right = right' := by
  have hlists := congrArg String.toList h
  rw [String.toList_append, String.toList_append] at hlists
  obtain ⟨hfirst, hsecond⟩ := List.append_inj hlists (hleft.trans hleft'.symm)
  exact ⟨String.toList_inj.mp hfirst, String.toList_inj.mp hsecond⟩

/-- A level is determined by the one above it. -/
theorem nextLevel_inj {leaves leaves' : List String} (hlen : leaves.length = leaves'.length) (hleaves : Digests leaves)
    (hleaves' : Digests leaves')
    (hapart : Apart hashing (pairTexts leaves) (pairTexts leaves'))
    (h : nextLevel hashing leaves = nextLevel hashing leaves') : leaves = leaves' := by
  induction leaves using pairs.induct generalizing leaves' with
  | case1 => exact (eq_nil_of_length_eq_zero hlen.symm).symm
  | case2 left =>
    match leaves', hlen with
    | [left'], _ =>
      have hsame := hex_injective (cons.inj h).1
      have hpair := hapart _ (by simp [pairTexts, pairs]) _ (by simp [pairTexts, pairs]) hsame
      rw [(append_inj_of_digests (hleaves left (by simp)) (hleaves' left' (by simp)) hpair).1]
  | case3 left right leaves ih =>
    match leaves', hlen with
    | left' :: right' :: leaves', hlen =>
      have hsame := hex_injective (cons.inj h).1
      have hpair := hapart _ (by simp [pairTexts, pairs]) _ (by simp [pairTexts, pairs]) hsame
      obtain ⟨rfl, rfl⟩ := append_inj_of_digests (hleaves left (by simp)) (hleaves' left' (by simp)) hpair
      have hrest := ih (by simpa using hlen) (fun leaf hleaf => hleaves leaf (by simp [hleaf]))
        (fun leaf hleaf => hleaves' leaf (by simp [hleaf]))
        (fun text htext text' htext' => hapart text (mem_cons_of_mem _ htext) text' (mem_cons_of_mem _ htext')) (cons.inj h).2
      rw [hrest]

theorem root_inj {levels : Nat} {leaves leaves' : List String} {root : String}
    (hlen : leaves.length = leaves'.length) (hleaves : Digests leaves) (hleaves' : Digests leaves')
    (hapart : Apart hashing (hashedTexts hashing levels leaves) (hashedTexts hashing levels leaves'))
    (h : computeMerkleRootFromLeaves hashing levels leaves = some root)
    (h' : computeMerkleRootFromLeaves hashing levels leaves' = some root) : leaves = leaves' := by
  induction levels generalizing leaves leaves' with
  | zero =>
    match leaves, leaves', hlen with
    | [leaf], [leaf'], _ =>
      simp only [computeMerkleRootFromLeaves, Option.some.injEq] at h h'
      rw [h, h']
  | succ levels ih =>
    by_cases hone : leaves.length = 1
    · obtain ⟨leaf, rfl⟩ := length_eq_one_iff.mp hone
      obtain ⟨leaf', rfl⟩ := length_eq_one_iff.mp (hlen.symm.trans hone)
      simp only [computeMerkleRootFromLeaves, Option.some.injEq] at h h'
      rw [h, h']
    · have hone' : leaves'.length ≠ 1 := hlen ▸ hone
      rw [root_succ hashing _ hone] at h
      rw [root_succ hashing _ hone'] at h'
      rw [hashedTexts_succ hashing _ hone, hashedTexts_succ hashing _ hone'] at hapart
      have hnext := ih (by rw [length_nextLevel, length_nextLevel, hlen]) (digests_nextLevel hashing _)
        (digests_nextLevel hashing _)
        (fun text htext text' htext' => hapart text (mem_append_right _ htext) text' (mem_append_right _ htext')) h h'
      exact nextLevel_inj hlen hleaves hleaves'
        (fun text htext text' htext' => hapart text (mem_append_left _ htext) text' (mem_append_left _ htext')) hnext

end

/-- Chains of one length have roots, which are one root exactly if the hashes of the entries are the same. -/
theorem computeMerkleRoot_determines (hashing : Hashing) (now now' : Instant) {entries entries' : List AuditLogChainEntry}
    (hsome : entries ≠ []) (hlen : entries.length = entries'.length) (hdigests : Digests (entries.map (·.currentHash)))
    (hdigests' : Digests (entries'.map (·.currentHash)))
    (hapart : Apart hashing (hashedTexts hashing entries.length (entries.map (·.currentHash)))
      (hashedTexts hashing entries.length (entries'.map (·.currentHash)))) :
    ∃ result result', (∀ levels, entries.length ≤ levels → computeMerkleRoot hashing levels now entries = some result ∧
        computeMerkleRoot hashing levels now' entries' = some result') ∧
      result.leafCount = entries.length ∧ result'.leafCount = entries.length ∧
      (result.root = result'.root ↔ entries.map (·.currentHash) = entries'.map (·.currentHash)) := by
  have hpos : entries.length ≠ 0 := fun hnone => hsome (eq_nil_of_length_eq_zero hnone)
  obtain ⟨root, hroot⟩ :
      ∃ root, computeMerkleRootFromLeaves hashing entries.length (entries.map (·.currentHash)) = some root :=
    root_some hashing (by simpa using hsome) (by simp)
  obtain ⟨root', hroot'⟩ :
      ∃ root, computeMerkleRootFromLeaves hashing entries.length (entries'.map (·.currentHash)) = some root :=
    root_some hashing (fun hnone => hpos (by simpa [hlen] using hnone)) (by simp [hlen])
  refine ⟨⟨root, entries.length, some now⟩, ⟨root', entries.length, some now'⟩, fun levels hlevels => ⟨?_, ?_⟩, rfl, rfl,
    fun heq => ?_, fun heq => ?_⟩
  · rw [computeMerkleRoot, if_neg hpos, root_stable hashing hlevels hroot]
    rfl
  · rw [computeMerkleRoot, ← hlen, if_neg hpos, root_stable hashing hlevels hroot']
    rfl
  · have hsame : root = root' := heq
    rw [← hsame] at hroot'
    exact root_inj (by simpa using hlen) hdigests hdigests' hapart hroot hroot'
  · rw [heq, hroot'] at hroot
    exact (Option.some.inj hroot).symm

/-- **The root does not tell a last entry that stands alone from the same entry twice.** -/
theorem computeMerkleRoot_repeated (hashing : Hashing) (now : Instant) {entries : List AuditLogChainEntry}
    (last : AuditLogChainEntry) (hsome : entries ≠ []) (heven : entries.length % 2 = 0) :
    ∃ root, ∀ levels ≥ entries.length + 2,
      computeMerkleRoot hashing levels now (entries ++ [last]) = some ⟨root, entries.length + 1, some now⟩ ∧
        computeMerkleRoot hashing levels now (entries ++ [last, last]) = some ⟨root, entries.length + 2, some now⟩ := by
  have hpos := length_pos_of_ne_nil hsome
  obtain ⟨root, hroot⟩ : ∃ root, computeMerkleRootFromLeaves hashing (entries.length + 1)
      ((entries ++ [last]).map (·.currentHash)) = some root := root_some hashing (by simp) (by simp)
  refine ⟨root, fun levels hlevels => ?_⟩
  have hone := root_stable hashing (by omega : _ ≤ levels) hroot
  obtain ⟨levels, rfl⟩ : ∃ n, levels = n + 1 := ⟨levels - 1, by omega⟩
  have htwo := hone
  rw [root_succ hashing _ (by simp; omega), nextLevel, map_append, map_singleton, ← pairs_repeated _ (by simpa using heven),
    ← nextLevel, ← root_succ hashing _ (by simp)] at htwo
  simp_all [computeMerkleRoot]

def hashed (digest : BitVec 256) : AuditLogChainEntry :=
  { suspension "admin-1" "merchant_suspension" "merchant-42" "violation" with currentHash := hex digest }

theorem digests_hashed (digests : List (BitVec 256)) : Digests ((digests.map hashed).map (·.currentHash)) := by
  intro leaf hleaf
  simp only [mem_map] at hleaf
  obtain ⟨_, ⟨digest, -, rfl⟩, rfl⟩ := hleaf
  exact length_hex digest

def lastCharacter : Hashing where
  numeral _ := ""
  sha256 text := BitVec.ofNat 256 (text.toList.getLastD '0').toNat

theorem apart_hashed : Apart lastCharacter (hashedTexts lastCharacter 2 ([hashed 1, hashed 2].map (·.currentHash)))
    (hashedTexts lastCharacter 2 ([hashed 2, hashed 1].map (·.currentHash))) := by
  have hlast : (hex 1).toList.getLast? = some '1' ∧ (hex 2).toList.getLast? = some '2' := by
    simp only [hex, String.toList_ofList]
    decide +kernel
  simp only [hashedTexts, pairTexts, pairs, nextLevel, hashed, map_cons, map_nil, append_nil]
  intro text htext text' htext'
  rw [mem_singleton.mp htext, mem_singleton.mp htext']
  simp only [lastCharacter, String.toList_append, getLastD_eq_getLast?, getLast?_append, hlast, Option.some_or]
  exact fun h => absurd h (by decide)

theorem exchanged_entries_root : ∃ result result',
    (∀ levels, 2 ≤ levels → computeMerkleRoot lastCharacter levels newYear [hashed 1, hashed 2] = some result ∧
      computeMerkleRoot lastCharacter levels newYear [hashed 2, hashed 1] = some result') ∧
    result.leafCount = 2 ∧ result'.leafCount = 2 ∧
    (result.root = result'.root ↔ [hashed 1, hashed 2].map (·.currentHash) = [hashed 2, hashed 1].map (·.currentHash)) :=
  @computeMerkleRoot_determines lastCharacter newYear newYear [hashed 1, hashed 2] [hashed 2, hashed 1] (by simp)
    (by simp) (digests_hashed [1, 2]) (digests_hashed [2, 1]) apart_hashed

theorem repeated_root : ∃ root, ∀ levels ≥ 4,
    computeMerkleRoot lastCharacter levels newYear [hashed 1, hashed 2, hashed 3] = some ⟨root, 3, some newYear⟩ ∧
      computeMerkleRoot lastCharacter levels newYear [hashed 1, hashed 2, hashed 3, hashed 3] = some ⟨root, 4, some newYear⟩ :=
  @computeMerkleRoot_repeated lastCharacter newYear [hashed 1, hashed 2] (hashed 3) (by simp) rfl

end Delego.Audit
