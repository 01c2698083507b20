import Delego.Encryption.KeyProvider

/-! What the digest of a context binds (`serializeContext`).

The entries are joined without an escape, so their text is that of every context that it can be cut into, and it can
always be cut into a single entry. -/
namespace Delego.Encryption
open Delego.Data List

/-- A context of which no entry is passed over. -/
structure Bound where
  entries : Context
  keyed : (entries.map (·.1)).Nodup
  filled : ∀ e ∈ entries, e.2 ≠ ""

def entryText (e : String × String) : String := s!"{e.1}={e.2}"

def marks (text : String) : Nat := text.toList.dropLast.count '='

def Bound.serialized (c : Bound) : String := serializeContext c.entries

def Bound.Faithful (c : Bound) : Prop :=
  ∀ c' : Bound, (c.serialized = c'.serialized ↔ c.entries.Perm c'.entries) ∧
    ∀ (crypto : Crypto) (key key' : Key) (plaintext plaintext' : String) (random : Random) (field : EncryptedField),
      crypto.aes.Sound → (crypto.sha256 c.serialized = crypto.sha256 c'.serialized → c.serialized = c'.serialized) →
      encryptField crypto plaintext key .gcm c.entries random = .ok field →
      decryptField crypto field key' c'.entries = .ok plaintext' → c.entries.Perm c'.entries

def Bound.Uncut (c : Bound) : Prop :=
  c.entries = [] ∨ ∃ key value, c.entries = [(key, value)] ∧ '=' ∉ key.toList ∧ '=' ∉ value.toList.dropLast

theorem toList_entryText (e : String × String) : (entryText e).toList = e.1.toList ++ '=' :: e.2.toList := by
  simp [entryText, toString]

theorem marks_entryText {e : String × String} (h : e.2 ≠ "") :
    marks (entryText e) = e.1.toList.count '=' + (e.2.toList.dropLast.count '=' + 1) := by
  have hvalue : e.2.toList ≠ [] := by simpa using h
  rw [marks, toList_entryText, dropLast_append_of_ne_nil (cons_ne_nil _ _), dropLast_cons_of_ne_nil hvalue, count_append,
    count_cons_self]

theorem marks_append (text : String) {rest : String} (h : 1 ≤ marks rest) :
    marks text + marks rest ≤ marks (text ++ rest) := by
  have hrest : rest.toList ≠ [] := by
    intro hempty
    simp [marks, hempty] at h
  have htext := (dropLast_sublist text.toList).count_le '='
  simp only [marks, String.toList_append, dropLast_append_of_ne_nil hrest, count_append] at *
  omega

/-- Every piece of a joined text keeps its places. -/
theorem length_le_marks {pieces : List String} (h : ∀ piece ∈ pieces, 1 ≤ marks piece) :
    pieces.length ≤ marks (String.intercalate ";" pieces) := by
  induction pieces with
  | nil => exact Nat.zero_le _
  | cons piece pieces ih =>
    have hpiece := h piece mem_cons_self
    have hpieces := ih fun p hp => h p (mem_cons_of_mem _ hp)
    by_cases hlast : pieces = []
    · subst hlast
      rw [String.intercalate_singleton]
      exact hpiece
    · have hsome : 1 ≤ pieces.length := length_pos_of_ne_nil hlast
      have happend := marks_append (piece ++ ";") (hsome.trans hpieces)
      have hseparated : marks piece ≤ marks (piece ++ ";") := by
        simpa [marks] using (dropLast_sublist piece.toList).count_le '='
      rw [String.intercalate_cons_of_ne_nil hlast, length_cons]
      omega

namespace Bound

theorem serialized_eq (c : Bound) : c.serialized = String.intercalate ";" (sortStrings (c.entries.map entryText)) := by
  have hall : c.entries.filter (fun e => decide (e.2 ≠ "")) = c.entries :=
    filter_eq_self.mpr fun e he => decide_eq_true (c.filled e he)
  rw [serialized, serializeContext, hall]
  rfl

theorem serialized_perm {c c' : Bound} (h : c.entries.Perm c'.entries) : c.serialized = c'.serialized := by
  rw [serialized_eq, serialized_eq, sortStrings_perm (h.map entryText)]

theorem serialized_singleton {c : Bound} {e : String × String} (h : c.entries = [e]) : c.serialized = entryText e := by
  rw [serialized_eq, h]
  exact String.intercalate_singleton

theorem length_le (c : Bound) : c.entries.length ≤ marks c.serialized := by
  have hlen : (sortStrings (c.entries.map entryText)).length = c.entries.length := by
    rw [sortStrings, length_insertionSort, length_map]
  rw [serialized_eq, ← hlen]
  refine length_le_marks fun piece hpiece => ?_
  obtain ⟨e, he, rfl⟩ := mem_map.mp ((mem_insertionSort _).mp hpiece)
  rw [marks_entryText (c.filled e he)]
  omega

/-- A context that is uncut is the one context with its text. -/
theorem Uncut.perm {c c' : Bound} (h : c.Uncut) (heq : c.serialized = c'.serialized) : c.entries.Perm c'.entries := by
  have hlen := c'.length_le
  rw [← heq] at hlen
  rcases h with hnone | ⟨key, value, hone, hkey, hvalue⟩
  · have hempty : c.serialized = "" := by
      rw [serialized_eq, hnone]
      exact String.intercalate_nil
    rw [hempty] at hlen
    rw [hnone, eq_nil_of_length_eq_zero (Nat.le_zero.mp hlen)]
  · have hfilled : value ≠ "" := c.filled (key, value) (by simp [hone])
    have htext := serialized_singleton hone
    have hmarks : marks c.serialized = 1 := by
      rw [htext, marks_entryText hfilled, count_eq_zero.mpr hkey, count_eq_zero.mpr hvalue]
    rw [hmarks] at hlen
    match hentries : c'.entries, hlen with
    | [], _ =>
      have hempty : c'.serialized = "" := by
        rw [serialized_eq, hentries]
        exact String.intercalate_nil
      rw [heq, hempty] at hmarks
      exact absurd hmarks (by decide)
    | [e], _ =>
      have hsingle := serialized_singleton hentries
      have hcount := marks_entryText (c'.filled e (by simp [hentries]))
      rw [← hsingle, ← heq, hmarks] at hcount
      have hkey' : '=' ∉ e.1.toList := count_eq_zero.mp (by omega)
      have hlists : key.toList ++ '=' :: value.toList = e.1.toList ++ '=' :: e.2.toList := by
        rw [← toList_entryText (key, value), ← toList_entryText, ← htext, ← hsingle, heq]
      obtain ⟨hkeys, hvalues⟩ := append_cons_inj hkey hkey' hlists
      rw [hone, String.toList_inj.mp hkeys, String.toList_inj.mp hvalues]

/-- Wherever the text can be cut, there is a context of one entry with that text. -/
theorem Faithful.cut {c : Bound} (h : c.Faithful) {key value : List Char} (htext : c.serialized.toList = key ++ '=' :: value)
    (hvalue : value ≠ []) : c.entries = [(String.ofList key, String.ofList value)] := by
  let single : Bound := ⟨[(String.ofList key, String.ofList value)], nodup_singleton _, by simpa using hvalue⟩
  have heq : c.serialized = single.serialized := by
    rw [serialized_singleton (c := single) rfl, ← String.toList_inj, toList_entryText, htext, String.toList_ofList,
      String.toList_ofList]
  exact perm_singleton.mp ((h single).1.mp heq)

theorem Faithful.uncut {c : Bound} (h : c.Faithful) : c.Uncut := by
  by_cases hnone : c.entries = []
  · exact Or.inl hnone
  -- the first piece of the text shows where it can be cut
  have hone : ∃ key value, c.entries = [(key, value)] := by
    have hsome : sortStrings (c.entries.map entryText) ≠ [] := by
      intro hempty
      have hlen := congrArg length hempty
      rw [sortStrings, length_insertionSort, length_map] at hlen
      exact hnone (eq_nil_of_length_eq_zero hlen)
    obtain ⟨piece, pieces, hpieces⟩ := exists_cons_of_ne_nil hsome
    have hpiece : piece ∈ sortStrings (c.entries.map entryText) := hpieces ▸ mem_cons_self
    obtain ⟨e, he, rfl⟩ := mem_map.mp ((mem_insertionSort _).mp hpiece)
    have hstarts : ∃ rest, c.serialized = entryText e ++ rest := by
      rw [serialized_eq, hpieces]
      by_cases hlast : pieces = []
      · exact ⟨"", by rw [hlast, String.intercalate_singleton, String.append_empty]⟩
      · exact ⟨_, by rw [String.intercalate_cons_of_ne_nil hlast, String.append_assoc]⟩
    obtain ⟨rest, hrest⟩ := hstarts
    have htext : c.serialized.toList = e.1.toList ++ '=' :: (e.2.toList ++ rest.toList) := by
      rw [hrest, String.toList_append, toList_entryText, append_assoc, cons_append]
    exact ⟨_, _, h.cut htext (by simp [c.filled e he])⟩
  obtain ⟨key, value, hone⟩ := hone
  have hfilled : value.toList ≠ [] := by simpa using c.filled (key, value) (by simp [hone])
  have htext : c.serialized.toList = key.toList ++ '=' :: value.toList := by
    rw [serialized_singleton hone, toList_entryText]
  have hwhere : ∀ cutKey cutValue, c.serialized.toList = cutKey ++ '=' :: cutValue → cutValue ≠ [] →
      key.toList = cutKey := by
    intro cutKey cutValue hcut hsome
    have hentry := hone.symm.trans (h.cut hcut hsome)
    simp only [cons.injEq, Prod.mk.injEq, and_true] at hentry
    rw [hentry.1, String.toList_ofList]
  refine Or.inr ⟨key, value, hone, fun hkey => ?_, fun hvalue => ?_⟩
  · obtain ⟨before, after, hkeys⟩ := append_of_mem hkey
    have heq := hwhere before (after ++ '=' :: value.toList) (by rw [htext, hkeys, append_assoc, cons_append]) (by simp)
    simp [heq] at hkeys
  · obtain ⟨before, after, hvalues⟩ := append_of_mem hvalue
    obtain ⟨last, hlast⟩ : ∃ last, value.toList = before ++ '=' :: after ++ [last] :=
      ⟨_, by rw [← hvalues, dropLast_append_getLast hfilled]⟩
    have heq := hwhere (key.toList ++ '=' :: before) (after ++ [last]) (by rw [htext, hlast]; simp) (by simp)
    simp at heq

end Bound

/-- A context is bound faithfully exactly if it is uncut. -/
theorem serializeContext_faithful_iff (c : Bound) : c.Faithful ↔ c.Uncut := by
  refine ⟨Bound.Faithful.uncut, fun h c' => ⟨⟨h.perm, Bound.serialized_perm⟩, ?_⟩⟩
  intro crypto key key' plaintext plaintext' random field haes hsha hencrypt hdecrypt
  rw [decryptField_gcm haes hencrypt] at hdecrypt
  by_cases hopens : key' = key ∧ contextAad crypto c'.entries = contextAad crypto c.entries
  · exact h.perm (hsha hopens.2.symm)
  · rw [if_neg hopens] at hdecrypt
    cases hdecrypt

/-- A user's context that names an order, and one in which the order is a part of the user's id. -/
theorem serializeContext_ambiguous :
    ¬ (serializeContext [("orderId", "7"), ("userId", "u")] = serializeContext [("orderId", "7;userId=u")] ↔
      [("orderId", "7"), ("userId", "u")].Perm [("orderId", "7;userId=u")]) := by decide

end Delego.Encryption
