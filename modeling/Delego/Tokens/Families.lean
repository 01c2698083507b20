import Delego.Process.Balance
import Delego.Tokens.Manager

/-! Families of refresh tokens that stay revoked.

A row that is not revoked is spent by the one call that retires it, so a token is exchanged once at most. As long as
no family is revoked between a rotation's conditional update and its insert, the rows of a family that is revoked stay
so, and no later call exchanges a token of it (`family_dead`). -/
namespace Delego.Tokens
open Delego.Data Delego.Process List

abbrev TokenPool := Pool tokenSignature World

/-! ### Each row is spent once -/

def isGiven (jti : String) : Entry tokenSignature → Bool
  | ⟨_, .given other _, _⟩ => decide (other = jti)
  | _ => false

def worth (id : String) : Phase → Int
  | .holds other _ => if other = id then 1 else 0
  | .renewed other _ => if other = id then 1 else 0
  | _ => 0

def spendable (rows : List RefreshToken) (id : String) : Int := (unrevoked rows id).length

def present (rows : List RefreshToken) (id : String) : Int := rows.countP fun row => decide (row.id = id)

def Spent (w : World) (tr : List (Entry tokenSignature)) (φ : Nat → Phase) (id : String) : Prop :=
  Conserved (worth id) φ (tr.countP (isGiven id)) (spendable w.rows id) (present w.rows id)

section
variable {id : String} {w w' : World} {o : Op} {ch : Choice} {rows : List RefreshToken}

theorem worth_nonneg (id : String) (φ : Phase) : 0 ≤ worth id φ := by
  cases φ with
  | idle => exact le_rfl
  | read other family => exact le_rfl
  | holds other family =>
    simp only [worth]
    split <;> omega
  | renewed other family =>
    simp only [worth]
    split <;> omega

theorem spendable_nonneg (rows : List RefreshToken) (id : String) : 0 ≤ spendable rows id := Int.natCast_nonneg _

theorem spendable_eq (rows : List RefreshToken) (id : String) :
    spendable rows id = rows.countP fun row => decide (row.id = id) && row.revokedAt.isNone := by
  rw [spendable, unrevoked, ← countP_eq_length_filter]

theorem retired_id (at_ : Instant) (row : RefreshToken) : (row.retired at_).id = row.id := by
  unfold RefreshToken.retired
  split <;> rfl

theorem retired_familyId (at_ : Instant) (row : RefreshToken) : (row.retired at_).familyId = row.familyId := by
  unfold RefreshToken.retired
  split <;> rfl

theorem retired_revoked (at_ : Instant) (row : RefreshToken) : (row.retired at_).revokedAt.isNone = false := by
  unfold RefreshToken.retired
  split
  · rfl
  · rename_i h
    exact Bool.eq_false_iff.mpr h

variable {f : RefreshToken → RefreshToken}

theorem present_update {κ : Type} [DecidableEq κ] {key : RefreshToken → κ} {k : κ}
    (hf : ∀ row, (f row).id = row.id) (rows : List RefreshToken) (id : String) :
    present (update key rows k f) id = present rows id := by
  unfold present update
  rw [countP_map]
  congr 1
  refine countP_congr fun row _ => ?_
  simp only [Function.comp_apply]
  split
  · rw [hf]
  · rfl

theorem spendable_update_le {κ : Type} [DecidableEq κ] {key : RefreshToken → κ} {k : κ}
    (hf : ∀ row, (f row).revokedAt.isNone = false) (rows : List RefreshToken) (id : String) :
    spendable (update key rows k f) id ≤ spendable rows id := by
  rw [spendable_eq, spendable_eq, update, countP_map]
  have hle : rows.countP ((fun row => decide (row.id = id) && row.revokedAt.isNone) ∘
      fun row => if key row = k then f row else row) ≤ rows.countP fun row => decide (row.id = id) && row.revokedAt.isNone := by
    refine countP_mono_left fun row _ hrow => ?_
    simp only [Function.comp_apply] at hrow
    split at hrow
    · simp [hf, Bool.and_false] at hrow
    · exact hrow
  omega

theorem spendable_retired (rows : List RefreshToken) (id : String) (at_ : Instant) :
    spendable (update RefreshToken.id rows id (.retired at_)) id = 0 := by
  rw [spendable_eq, update, countP_map, Int.natCast_eq_zero, countP_eq_zero]
  intro row _ hrow
  simp only [Function.comp_apply] at hrow
  split at hrow
  · simp [retired_revoked, Bool.and_false] at hrow
  · rename_i hid
    simp [hid] at hrow

theorem isGiven_free (h : o.isFree) (i : Nat) (r : tokenSignature.Result o) : isGiven id ⟨i, o, r⟩ = false := by
  cases o with
  | given jti pair => exact h.elim
  | _ => rfl

theorem perform_cases (o : Op) (ch : Choice) (w : World) :
    perform o ch w = answer o ch w ∨ o.isAccess = true ∧ ∃ message, perform o ch w = (.error message, w) := by
  unfold perform
  cases ch.failure with
  | none => exact .inl rfl
  | some message =>
    by_cases haccess : o.isAccess = true
    · exact .inr ⟨haccess, message, if_pos haccess⟩
    · exact .inl (if_neg haccess)

theorem spent_free {φ : Phase} (h : o.isFree) (i : Nat) (r : tokenSignature.Result o) (hrows : w'.rows = w.rows) :
    worth id (φ.next o r) + (if isGiven id ⟨i, o, r⟩ then 1 else 0) + spendable w'.rows id + present w.rows id ≤
      worth id φ + spendable w.rows id + present w'.rows id := by
  rw [next_free φ h, isGiven_free h, hrows, if_neg Bool.false_ne_true, add_zero]

theorem spent_perform {φ : Phase} (ha : φ.Allows o) (i : Nat) (id : String) (ch : Choice) (w : World) :
    worth id (φ.next o (perform o ch w).1) +
        (if isGiven id ⟨i, o, (perform o ch w).1⟩ then 1 else 0) + spendable (perform o ch w).2.rows id +
        present w.rows id ≤
      worth id φ + spendable w.rows id + present (perform o ch w).2.rows id := by
  have hworth := worth_nonneg id φ
  rcases perform_cases o ch w with hans | ⟨haccess, message, herror⟩
  · rw [hans]
    cases o with
    | findByPk other =>
      obtain rfl : φ = .idle := ha
      simp only [answer]
      cases lookup RefreshToken.id w.rows other <;> exact le_rfl
    | retire other at_ =>
      obtain ⟨family, rfl⟩ := ha
      have hpres : present (update RefreshToken.id w.rows other (.retired at_)) id = present w.rows id :=
        present_update (retired_id at_) w.rows id
      have hspendable : spendable (update RefreshToken.id w.rows other (.retired at_)) id ≤ spendable w.rows id :=
        spendable_update_le (retired_revoked at_) w.rows id
      simp only [answer, isGiven, Bool.false_eq_true, if_false, hpres]
      cases hcount : (unrevoked w.rows other).length with
      | zero =>
        simp only [Phase.next, worth]
        omega
      | succ n =>
        simp only [Phase.next, worth]
        split
        · rename_i hid
          subst hid
          have hpre : spendable w.rows other = n + 1 := by
            rw [spendable, hcount]
            rfl
          rw [spendable_retired]
          omega
        · omega
    | revokeFamily family at_ =>
      have hpres : present (update RefreshToken.familyId w.rows family (.revoked at_)) id = present w.rows id :=
        present_update (f := .revoked at_) (fun _ => rfl) w.rows id
      have hspendable : spendable (update RefreshToken.familyId w.rows family (.revoked at_)) id ≤ spendable w.rows id :=
        spendable_update_le (f := .revoked at_) (fun _ => rfl) w.rows id
      simp only [answer, isGiven, Bool.false_eq_true, if_false, hpres]
      have hnext : φ.next (.revokeFamily family at_) (.ok ()) = φ :=
        next_free φ (o := .revokeFamily family at_) trivial (.ok ())
      rw [hnext]
      omega
    | create row =>
      obtain ⟨other, rfl⟩ := ha
      simp only [answer]
      split
      · simp only [Phase.next, isGiven, Bool.false_eq_true, if_false, worth]
        split <;> omega
      · simp only [Phase.next, isGiven, Bool.false_eq_true, if_false, worth, spendable_eq, present, countP_append,
          countP_singleton]
        by_cases hid : row.id = id
        · have hone : (if row.revokedAt.isNone = true then 1 else 0 : Nat) ≤ 1 := by split <;> omega
          simp only [hid, decide_true, Bool.true_and, if_true]
          push_cast
          omega
        · simp only [hid, decide_false, Bool.false_and, Bool.false_eq_true, if_false]
          omega
    | given jti pair =>
      obtain ⟨family, rfl⟩ := ha
      simp only [answer, Phase.next, isGiven, worth, decide_eq_true_eq]
      omega
    | _ => exact spent_free (by trivial) i _ rfl
  · rw [herror]
    cases o with
    | findByPk other =>
      obtain rfl : φ = .idle := ha
      exact le_rfl
    | findUser userId => exact spent_free (by trivial) i _ rfl
    | revokeFamily family at_ => exact spent_free (by trivial) i _ rfl
    | retire other at_ =>
      obtain ⟨family, rfl⟩ := ha
      exact le_rfl
    | create row =>
      obtain ⟨other, rfl⟩ := ha
      simp only [Phase.next, isGiven, Bool.false_eq_true, if_false, worth]
      split <;> omega
    | _ => cases haccess

theorem spent_step {tr : List (Entry tokenSignature)} {φ : Nat → Phase} {i : Nat} (h : Spent w tr φ id)
    (ha : (φ i).Allows o) (ch : Choice) :
    Spent (perform o ch w).2 (⟨i, o, (perform o ch w).1⟩ :: tr)
      (Function.update φ i ((φ i).next o (perform o ch w).1)) id := by
  have hle := spent_perform ha i id ch w
  refine h.step i _ ?_
  rw [countP_cons]
  push_cast
  omega

end

/-! ### Families -/

def revokedBy : Entry tokenSignature → Option String
  | ⟨_, .revokeFamily family _, .ok _⟩ => some family
  | _ => none

def Revoked (tr : List (Entry tokenSignature)) (family : String) : Prop := ∃ e ∈ tr, revokedBy e = some family

def retires (i : Nat) (e : Entry tokenSignature) : Bool := decide (e.runner = i) && match e.op with
  | .retire _ _ => true
  | _ => false

def since (tr : List (Entry tokenSignature)) (i : Nat) : List (Entry tokenSignature) := tr.takeWhile fun e => !retires i e

/-- A new row is made if its family was not revoked since the old row was retired. -/
def uninterrupted (p : TokenPool) (i : Nat) (o : Op) (_ : Choice) : Bool := match o with
  | .create row => (since p.trace i).all fun e => decide (revokedBy e ≠ some row.familyId)
  | _ => true

/-- What an operation does to a row: it stays, and stays revoked. -/
structure Keeps (f : RefreshToken → RefreshToken) : Prop where
  id : ∀ row, (f row).id = row.id
  family : ∀ row, (f row).familyId = row.familyId
  revoked : ∀ row, row.revokedAt.isNone = false → (f row).revokedAt.isNone = false

theorem keeps_id : Keeps id := ⟨fun _ => rfl, fun _ => rfl, fun _ h => h⟩

theorem keeps_ite {κ : Type} [DecidableEq κ] {key : RefreshToken → κ} {k : κ}
    (h : Keeps f) : Keeps fun row => if key row = k then f row else row where
  id row := by
    split
    · exact h.id row
    · rfl
  family row := by
    split
    · exact h.family row
    · rfl
  revoked row hrow := by
    split
    · exact h.revoked row hrow
    · exact hrow

theorem keeps_retired (at_ : Instant) : Keeps (.retired at_) :=
  ⟨retired_id at_, retired_familyId at_, fun row _ => retired_revoked at_ row⟩

theorem keeps_revoked (at_ : Instant) : Keeps (.revoked at_) := ⟨fun _ => rfl, fun _ => rfl, fun _ _ => rfl⟩

/-- The rows after an operation: each is kept, those of a family that it revokes are revoked, or there is a new one. -/
theorem rows_perform (i : Nat) (o : Op) (ch : Choice) (w : World) :
    (∃ f, Keeps f ∧ (perform o ch w).2.rows = w.rows.map f ∧
      ∀ family, revokedBy ⟨i, o, (perform o ch w).1⟩ = some family → ∀ row, row.familyId = family →
        (f row).revokedAt.isNone = false) ∨
    ∃ row, o = .create row ∧ lookup RefreshToken.id w.rows row.id = none ∧ (perform o ch w).2.rows = w.rows ++ [row] := by
  rcases perform_cases o ch w with hans | ⟨haccess, message, herror⟩
  · rw [hans]
    cases o with
    | retire other at_ => exact .inl ⟨_, keeps_ite (keeps_retired at_), rfl, fun family h => by cases h⟩
    | revokeFamily family at_ =>
      refine .inl ⟨_, keeps_ite (keeps_revoked at_), rfl, ?_⟩
      rintro family h row rfl
      cases h
      rw [if_pos rfl]
      rfl
    | create row =>
      simp only [answer]
      split
      · exact .inl ⟨id, keeps_id, (map_id _).symm, fun family h => by cases h⟩
      · rename_i hnone
        exact .inr ⟨row, rfl, Option.not_isSome_iff_eq_none.mp hnone, rfl⟩
    | verify token => exact .inl ⟨id, keeps_id, (map_id _).symm, fun family h => by cases h⟩
    | _ => exact .inl ⟨id, keeps_id, (map_id _).symm, fun family h => by cases h⟩
  · rw [herror]
    refine .inl ⟨id, keeps_id, (map_id _).symm, fun family h => ?_⟩
    cases o <;> cases h

theorem row_kept (o : Op) (ch : Choice) {w : World} {row : RefreshToken} (h : row ∈ w.rows) :
    ∃ row' ∈ (perform o ch w).2.rows, row'.id = row.id ∧ row'.familyId = row.familyId := by
  rcases rows_perform 0 o ch w with ⟨f, hf, hrows, -⟩ | ⟨new, -, -, hrows⟩
  · rw [hrows]
    exact ⟨f row, mem_map_of_mem h, hf.id row, hf.family row⟩
  · rw [hrows]
    exact ⟨row, mem_append_left _ h, rfl, rfl⟩

/-- No token of a revoked family is live. -/
structure Families (w : World) (tr : List (Entry tokenSignature)) (φ : Nat → Phase) : Prop where
  keyed : Keyed RefreshToken.id w.rows
  dead : ∀ family, Revoked tr family → ∀ row ∈ w.rows, row.familyId = family → row.revokedAt.isNone = false
  held : ∀ i id family, φ i = .holds id family → Revoked tr family → Revoked (since tr i) family
  rowOf : ∀ i id family, φ i = .read id family ∨ φ i = .holds id family ∨ φ i = .renewed id family →
    ∃ row ∈ w.rows, row.id = id ∧ row.familyId = family

section
variable {w : World} {tr : List (Entry tokenSignature)} {φ : Nat → Phase} {i : Nat} {o : Op} {ch : Choice}
  {family : String}

theorem Families.unrevoked (h : Families w tr φ) {id : String} (hread : φ i = .read id family)
    (hrev : Revoked tr family) : (Tokens.unrevoked w.rows id).length = 0 := by
  obtain ⟨row, hrow, rfl, rfl⟩ := h.rowOf i id family (.inl hread)
  rw [Tokens.unrevoked, length_eq_zero_iff, filter_eq_nil_iff]
  intro other hother hspend
  rw [Bool.and_eq_true, decide_eq_true_eq] at hspend
  rw [h.keyed.eq hother hrow hspend.1, h.dead row.familyId hrev row hrow rfl] at hspend
  exact Bool.false_ne_true hspend.2

variable {e : Entry tokenSignature}

theorem since_cons (h : retires i e = false) : since (e :: tr) i = e :: since tr i := by
  rw [since, takeWhile_cons, h]
  rfl

theorem revoked_cons (h : Revoked (e :: tr) family) : revokedBy e = some family ∨ Revoked tr family := by
  obtain ⟨e', he', hby⟩ := h
  rcases mem_cons.mp he' with rfl | he'
  · exact .inl hby
  · exact .inr ⟨e', he', hby⟩

theorem held_cons (hretires : retires i e = false) (h : Revoked tr family → Revoked (since tr i) family)
    (hrev : Revoked (e :: tr) family) :
    Revoked (since (e :: tr) i) family := by
  rw [since_cons hretires]
  rcases revoked_cons hrev with hby | hpre
  · exact ⟨e, mem_cons_self, hby⟩
  · obtain ⟨e', he', hby⟩ := h hpre
    exact ⟨e', mem_cons_of_mem _ he', hby⟩

theorem op_cases (o : Op) : o.isFree ∨ (∃ id, o = .findByPk id) ∨ (∃ id at_, o = .retire id at_) ∨
    (∃ row, o = .create row) ∨ ∃ jti pair, o = .given jti pair := by
  cases o with
  | findByPk id => exact .inr (.inl ⟨id, rfl⟩)
  | retire id at_ => exact .inr (.inr (.inl ⟨id, at_, rfl⟩))
  | create row => exact .inr (.inr (.inr (.inl ⟨row, rfl⟩)))
  | given jti pair => exact .inr (.inr (.inr (.inr ⟨jti, pair, rfl⟩)))
  | _ => exact .inl trivial

theorem next_cases (h : Families w tr φ) (ha : (φ i).Allows o) : (φ i).next o (perform o ch w).1 = φ i ∧ o.isFree ∨
      (φ i).next o (perform o ch w).1 = .idle ∨
      (∃ row ∈ w.rows, (φ i).next o (perform o ch w).1 = .read row.id row.familyId) ∨
      (∃ id family, φ i = .read id family ∧ (φ i).next o (perform o ch w).1 = .holds id family ∧
        (∃ at_, o = .retire id at_) ∧ ¬Revoked tr family) ∨
      ∃ id row, o = .create row ∧ φ i = .holds id row.familyId ∧
        (φ i).next o (perform o ch w).1 = .renewed id row.familyId := by
  rcases op_cases o with hfree | ⟨id, rfl⟩ | ⟨id, at_, rfl⟩ | ⟨row, rfl⟩ | ⟨jti, pair, rfl⟩
  · exact .inl ⟨next_free _ hfree _, hfree⟩
  · have hidle : φ i = .idle := ha
    rw [hidle]
    rcases perform_cases (.findByPk id) ch w with hans | ⟨-, message, herror⟩
    · rw [hans]
      simp only [answer]
      cases hfound : lookup RefreshToken.id w.rows id with
      | none => exact .inr (.inl rfl)
      | some row =>
        obtain rfl := lookup_key hfound
        exact .inr (.inr (.inl ⟨row, lookup_mem hfound, rfl⟩))
    · rw [herror]
      exact .inr (.inl rfl)
  · obtain ⟨family, hread⟩ := ha
    rw [hread]
    rcases perform_cases (.retire id at_) ch w with hans | ⟨-, message, herror⟩
    · rw [hans]
      simp only [answer]
      cases hcount : (Tokens.unrevoked w.rows id).length with
      | zero => exact .inr (.inl rfl)
      | succ n =>
        refine .inr (.inr (.inr (.inl ⟨id, family, rfl, rfl, ⟨at_, rfl⟩, fun hrev => ?_⟩)))
        have hnone := h.unrevoked hread hrev
        omega
    · rw [herror]
      exact .inr (.inl rfl)
  · obtain ⟨id, hholds⟩ := ha
    rw [hholds]
    cases hres : (perform (.create row) ch w).1 with
    | error message => exact .inr (.inl rfl)
    | ok _ => exact .inr (.inr (.inr (.inr ⟨id, row, rfl, rfl, rfl⟩)))
  · obtain ⟨family, hrenewed⟩ := ha
    rw [hrenewed]
    exact .inr (.inl rfl)

theorem Families.step (h : Families w tr φ) (ha : (φ i).Allows o)
    (hguard : ∀ row, o = .create row → ¬Revoked (since tr i) row.familyId) :
    Families (perform o ch w).2 (⟨i, o, (perform o ch w).1⟩ :: tr)
      (Function.update φ i ((φ i).next o (perform o ch w).1)) where
  keyed := by
    rcases rows_perform i o ch w with ⟨f, hf, hrows, -⟩ | ⟨row, -, hnone, hrows⟩
    · have hkeyed := h.keyed
      have hkeys : RefreshToken.id ∘ f = RefreshToken.id := funext hf.id
      unfold Keyed at hkeyed ⊢
      rwa [hrows, map_map, hkeys]
    · rw [hrows]
      exact h.keyed.append hnone
  dead family hrev row hrow hfamily := by
    rcases rows_perform i o ch w with ⟨f, hf, hrows, hby⟩ | ⟨new, rfl, -, hrows⟩
    · rw [hrows] at hrow
      obtain ⟨before, hpre, rfl⟩ := mem_map.mp hrow
      rw [hf.family] at hfamily
      rcases revoked_cons hrev with hnow | hearlier
      · exact hby family hnow before hfamily
      · exact hf.revoked before (h.dead family hearlier before hpre hfamily)
    · have hearlier : Revoked tr family := (revoked_cons hrev).resolve_left fun hnow => nomatch hnow
      rw [hrows] at hrow
      rcases mem_append.mp hrow with hpre | hnew
      · exact h.dead family hearlier row hpre hfamily
      · -- a row of the family is made only by a rotation that has seen it revoked
        rw [mem_singleton] at hnew
        subst hnew hfamily
        obtain ⟨id, hholds⟩ := ha
        exact absurd (h.held i id row.familyId hholds hearlier) (hguard row rfl)
  held j id family hholds hrev := by
    by_cases hij : j = i
    · subst hij
      rw [Function.update_self] at hholds
      rcases next_cases h ha with ⟨hnext, hfree⟩ | hnext | ⟨row, -, hnext⟩ | ⟨id', family', hread, hnext, ⟨at_, rfl⟩, hnot⟩ |
        ⟨id', row, -, -, hnext⟩
      · have hretires : retires j ⟨j, o, (perform o ch w).1⟩ = false := by
          cases o with
          | retire id at_ => exact hfree.elim
          | _ => exact Bool.and_false _
        exact held_cons hretires (h.held j id family (hnext.symm.trans hholds)) hrev
      · cases hnext.symm.trans hholds
      · cases hnext.symm.trans hholds
      · cases hnext.symm.trans hholds
        rcases revoked_cons hrev with hby | hpre
        · cases hby
        · exact absurd hpre hnot
      · cases hnext.symm.trans hholds
    · rw [Function.update_of_ne hij] at hholds
      have hretires : retires j ⟨i, o, (perform o ch w).1⟩ = false := by
        rw [retires, decide_eq_false (Ne.symm hij), Bool.false_and]
      exact held_cons hretires (h.held j id family hholds) hrev
  rowOf j id family hphase := by
    have hkept : ∀ id' family', (∃ row ∈ w.rows, row.id = id' ∧ row.familyId = family') →
        ∃ row ∈ (perform o ch w).2.rows, row.id = id' ∧ row.familyId = family' := by
      rintro id' family' ⟨row, hrow, rfl, rfl⟩
      exact row_kept o ch hrow
    by_cases hij : j = i
    · subst hij
      rw [Function.update_self] at hphase
      rcases next_cases h ha with ⟨hnext, -⟩ | hnext | ⟨row, hrow, hnext⟩ | ⟨id', family', hread, hnext, -⟩ |
        ⟨id', row, -, hholds, hnext⟩
      · rw [hnext] at hphase
        exact hkept id family (h.rowOf j id family hphase)
      · rw [hnext] at hphase
        rcases hphase with hphase | hphase | hphase <;> cases hphase
      · rw [hnext] at hphase
        rcases hphase with hphase | hphase | hphase <;> cases hphase
        exact hkept _ _ ⟨row, hrow, rfl, rfl⟩
      · rw [hnext] at hphase
        rcases hphase with hphase | hphase | hphase <;> cases hphase
        exact hkept _ _ (h.rowOf j _ _ (.inl hread))
      · rw [hnext] at hphase
        rcases hphase with hphase | hphase | hphase <;> cases hphase
        exact hkept _ _ (h.rowOf j _ _ (.inr (.inl hholds)))
    · rw [Function.update_of_ne hij] at hphase
      exact hkept id family (h.rowOf j id family hphase)

/-- Calls from the `n`-th on have nothing of the family. -/
structure Later (n : Nat) (family : String) (w : World) (tr : List (Entry tokenSignature)) (φ : Nat → Phase) : Prop where
  revoked : Revoked tr family
  none : ∀ i, n ≤ i → ∀ id, φ i ≠ .holds id family ∧ φ i ≠ .renewed id family
  given : ∀ e ∈ tr, n ≤ e.runner → ∀ jti pair, e.op = .given jti pair → ∃ row ∈ w.rows, row.id = jti ∧ row.familyId ≠ family

theorem Later.step {n : Nat} (h : Families w tr φ) (hlater : Later n family w tr φ) (ha : (φ i).Allows o) :
    Later n family (perform o ch w).2 (⟨i, o, (perform o ch w).1⟩ :: tr)
      (Function.update φ i ((φ i).next o (perform o ch w).1)) where
  revoked := by
    obtain ⟨e, he, hby⟩ := hlater.revoked
    exact ⟨e, mem_cons_of_mem _ he, hby⟩
  none j hj id := by
    by_cases hij : j = i
    · subst hij
      rw [Function.update_self]
      obtain ⟨hholds, hrenewed⟩ := hlater.none j hj id
      rcases next_cases h ha with ⟨hnext, -⟩ | hnext | ⟨row, -, hnext⟩ | ⟨id', family', -, hnext, -, hnot⟩ |
        ⟨id', row, -, hheld, hnext⟩
      · rw [hnext]
        exact ⟨hholds, hrenewed⟩
      · rw [hnext]
        exact ⟨Phase.noConfusion, Phase.noConfusion⟩
      · rw [hnext]
        exact ⟨Phase.noConfusion, Phase.noConfusion⟩
      · rw [hnext]
        refine ⟨fun heq => ?_, Phase.noConfusion⟩
        cases heq
        exact hnot hlater.revoked
      · rw [hnext]
        refine ⟨Phase.noConfusion, fun heq => ?_⟩
        cases heq
        exact (hlater.none j hj _).1 hheld
    · rw [Function.update_of_ne hij]
      exact hlater.none j hj id
  given e he hrunner jti pair hop := by
    have hkept : (∃ row ∈ w.rows, row.id = jti ∧ row.familyId ≠ family) →
        ∃ row ∈ (perform o ch w).2.rows, row.id = jti ∧ row.familyId ≠ family := by
      rintro ⟨row, hrow, rfl, hfamily⟩
      obtain ⟨row', hrow', hid, heq⟩ := row_kept o ch hrow
      exact ⟨row', hrow', hid, heq ▸ hfamily⟩
    rcases mem_cons.mp he with rfl | he
    · simp only at hop hrunner
      subst hop
      obtain ⟨family', hrenewed⟩ := ha
      obtain ⟨row, hrow, hid, rfl⟩ := h.rowOf i jti family' (.inr (.inr hrenewed))
      refine hkept ⟨row, hrow, hid, ?_⟩
      rintro rfl
      exact (hlater.none i hrunner jti).2 hrenewed
    · exact hkept (hlater.given e he hrunner jti pair hop)

end

abbrev Orderly (cfg : TokenConfig) (p : TokenPool) (a : Action (system cfg)) : Prop := onStep uninterrupted p a = true

theorem not_revoked_of_uninterrupted {p : TokenPool} {i : Nat} {row : RefreshToken} {ch : Choice}
    (h : uninterrupted p i (.create row) ch = true) : ¬Revoked (since p.trace i) row.familyId := by
  rintro ⟨e, he, hby⟩
  exact of_decide_eq_true (all_eq_true.mp h e he) hby

section
variable {cfg : TokenConfig}

theorem inductive_families (h : cfg.rotationEnabled = true) :
    Inductive (system cfg) rotation .idle (Orderly cfg) fun w tr φ => (∀ id, Spent w tr φ id) ∧ Families w tr φ where
  body p c _ := follows_body h c
  arrive p φ c w _ ht hw := by
    cases hw
    exact ht.holds
  drift p φ e := e.elim
  answers p φ i o ch _ _ _ _ := ⟨_, rfl⟩
  step p φ i o ch φ' hguard hp ht ha hm := by
    cases hm
    refine ⟨fun id => spent_step (ht.holds.1 id) ha ch, ht.holds.2.step ha ?_⟩
    rintro row rfl
    exact not_revoked_of_uninterrupted (onStep_pending hguard hp)

theorem inductive_later (h : cfg.rotationEnabled = true) (n : Nat) (family : String) :
    Inductive (system cfg) rotation .idle (Orderly cfg) fun w tr φ =>
      ((∀ id, Spent w tr φ id) ∧ Families w tr φ) ∧ Later n family w tr φ :=
  (inductive_families h).and (fun _ _ => id)
    (fun p φ c w _ _ hk hw => by
      cases hw
      exact hk)
    (fun p φ e => e.elim)
    (fun p φ i o ch φ' _ _ ht hk ha hm => by
      cases hm
      exact hk.step ht.holds.2 ha)

theorem spent_start (w : World) (id : String) : Spent w [] (fun _ => .idle) id := by
  refine conserved_start (fun _ => rfl) ?_
  have hle : w.rows.countP (fun row => decide (row.id = id) && row.revokedAt.isNone) ≤
      w.rows.countP fun row => decide (row.id = id) :=
    countP_mono_left fun row _ hrow => (Bool.and_eq_true_iff.mp hrow).1
  rw [spendable_eq, present]
  omega

theorem families_start {w : World} (h : Keyed RefreshToken.id w.rows) : Families w [] fun _ => .idle where
  keyed := h
  dead _ hrev := by
    obtain ⟨e, he, -⟩ := hrev
    cases he
  held _ _ _ hholds := by cases hholds
  rowOf _ _ _ hphase := by rcases hphase with hphase | hphase | hphase <;> cases hphase

theorem present_le {rows : List RefreshToken} (h : Keyed RefreshToken.id rows) (id : String) : present rows id ≤ 1 := by
  have hcount : present rows id = (rows.map RefreshToken.id).count id := by
    rw [present, count, countP_map]
    congr 1
  have hle := nodup_iff_count_le_one.mp h id
  omega

/-- **A revoked family is dead**: no call that comes later is given a pair for a token of it. And a token is
exchanged for a pair at most once. -/
theorem family_dead (henabled : cfg.rotationEnabled = true) {w : World} (hkeyed : Keyed RefreshToken.id w.rows) {q : TokenPool}
    (h : Run (system cfg) (Orderly cfg) (Pool.start w) q) :
    (∀ jti, q.trace.countP (isGiven jti) ≤ 1) ∧ ∀ family, Revoked q.trace family → ∀ r, Run (system cfg) (Orderly cfg) q r →
        ∀ e ∈ r.trace, q.runners.length ≤ e.runner → ∀ jti pair, e.op = .given jti pair →
          ∀ row ∈ r.world.rows, row.id = jti → row.familyId ≠ family := by
  obtain ⟨φ, ht⟩ := (inductive_families henabled).run h ⟨_, Tracked.start ⟨spent_start w, families_start hkeyed⟩⟩
  refine ⟨fun jti => ?_, fun family hrev r hrun e he hrunner jti pair hop row hrow hid heq => ?_⟩
  · have hle := (ht.holds.1 jti).spent_le (worth_nonneg jti) (spendable_nonneg q.world.rows jti)
    have hone := present_le ht.holds.2.keyed jti
    omega
  · have hlater : Later q.runners.length family q.world q.trace φ := by
      refine ⟨hrev, fun i hi id => ?_, fun e he hrunner => ?_⟩
      · rw [ht.fresh i hi]
        exact ⟨Phase.noConfusion, Phase.noConfusion⟩
      · have hlt := h.performed e he
        omega
    obtain ⟨φ', ht'⟩ := (inductive_later henabled q.runners.length family).run hrun ⟨φ, ht.mono fun hk => ⟨hk, hlater⟩⟩
    obtain ⟨other, hother, hid', hfamily⟩ := ht'.holds.2.given e he hrunner jti pair hop
    rw [ht'.holds.1.2.keyed.eq hrow hother (hid.trans hid'.symm)] at heq
    exact hfamily heq

end

def cfg : TokenConfig := ⟨900, 604800, true⟩

def firstToken : RefreshToken := ⟨"first", "alice", "hash", "family", ⟨4102444800000, rfl⟩, none⟩

def world : World := ⟨[firstToken], []⟩

/-- Steps of the runner in which the token that is verified has the id, and a new row gets the other id. -/
def goes (jti new : String) (i n : Nat) : List (Action (system cfg)) :=
  replicate n (.step i ⟨none, .ok ⟨some "alice", some "alice", some jti, none, none, some "refresh", some "family",
    some "secret", some 4102444800⟩, newYear, new, true, true, some "alice@example.com"⟩)

def rotating : Action (system cfg) := .call (.rotateRefreshToken "token" none)

def loggingOut : Action (system cfg) := .call (.revokeTokens ⟨none, some "token", none, none⟩)

def isRevoked (p : TokenPool) (family : String) : Bool := p.trace.any fun e => decide (revokedBy e = some family)

theorem revoked_of_isRevoked {p : TokenPool} {family : String} (h : isRevoked p family = true) : Revoked p.trace family := by
  obtain ⟨e, he, hby⟩ := any_eq_true.mp h
  exact ⟨e, he, of_decide_eq_true hby⟩

/-- The token is rotated and its family revoked; the new token is not exchanged. -/
theorem family_dead_alice : ∃ q : TokenPool, Run (system cfg) (Orderly cfg) (Pool.start world) q ∧ Revoked q.trace "family" ∧
    q.trace.countP (isGiven "first") = 1 ∧ ∀ r, Run (system cfg) (Orderly cfg) q r →
      ∀ e ∈ r.trace, q.runners.length ≤ e.runner → ∀ jti pair, e.op = .given jti pair →
        ∀ row ∈ r.world.rows, row.id = jti → row.familyId ≠ "family" := by
  obtain ⟨q, hrun, htest⟩ := Run.exists_of_any (Pool.start world) (onStep uninterrupted)
    (rotating :: goes "first" "second" 0 16 ++ loggingOut :: goes "second" "" 1 5)
    (fun q => isRevoked q "family" && decide (q.trace.countP (isGiven "first") = 1)) (by decide)
  obtain ⟨hrev, hcount⟩ := Bool.and_eq_true_iff.mp htest
  have hdead := family_dead rfl (by decide) hrun
  exact ⟨q, hrun, revoked_of_isRevoked hrev, of_decide_eq_true hcount, hdead.2 "family" (revoked_of_isRevoked hrev)⟩

/-- The old row is retired, the family revoked by a logout, and the new row made after it: it is exchanged later. -/
theorem revoked_family_alive : ∃ q r : TokenPool, Run (system cfg) (fun _ _ => True) (Pool.start world) q ∧
    Revoked q.trace "family" ∧ Run (system cfg) (fun _ _ => True) q r ∧ ∃ e ∈ r.trace, q.runners.length ≤ e.runner ∧
      isGiven "second" e = true ∧ ∃ row ∈ r.world.rows, row.id = "second" ∧ row.familyId = "family" := by
  have htest : ((Pool.start world).runWhile (system cfg) (fun _ _ => true)
      (rotating :: goes "first" "second" 0 9 ++ loggingOut :: goes "first" "" 1 5 ++ goes "first" "second" 0 7)).any (fun q =>
        isRevoked q "family" && (q.runWhile (system cfg) (fun _ _ => true) (rotating :: goes "second" "third" 2 16)).any
          fun r => (r.trace.any fun e => decide (q.runners.length ≤ e.runner) && isGiven "second" e) &&
            r.world.rows.any fun row => decide (row.id = "second" ∧ row.familyId = "family")) = true := by
    decide
  obtain ⟨q, hq, htest⟩ := (Option.any_eq_true ..).mp htest
  obtain ⟨hrev, htest⟩ := Bool.and_eq_true_iff.mp htest
  obtain ⟨r, hr, htest⟩ := (Option.any_eq_true ..).mp htest
  obtain ⟨hgiven, hrow⟩ := Bool.and_eq_true_iff.mp htest
  obtain ⟨e, he, hlater⟩ := any_eq_true.mp hgiven
  obtain ⟨hlater, hgiven⟩ := Bool.and_eq_true_iff.mp hlater
  obtain ⟨row, hrow, hfamily⟩ := any_eq_true.mp hrow
  exact ⟨q, r, (Run.of_runWhile hq).mono fun _ _ _ => trivial, revoked_of_isRevoked hrev,
    (Run.of_runWhile hr).mono fun _ _ _ => trivial, e, he, of_decide_eq_true hlater, hgiven, row, hrow,
    of_decide_eq_true hfamily⟩

end Delego.Tokens
