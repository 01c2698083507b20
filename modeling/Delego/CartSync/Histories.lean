import Delego.CartSync.Merge
import Delego.Data.History

/-! What a cart keeps, over any history of syncs.

A line that changes is stamped with the cart's next version, and as long as no change is accepted whose time is before
that of the value it replaces, times only grow. -/
namespace Delego.CartSync
open Delego.Data Option

def Forced (serverLine : StoredCartLine) (clientLine : CartLineItemDTO) (ctx : ResolveContext) : Prop :=
  0 < clientLine.quantity ∧ ctx.clientIsCurrent = true ∨ clientLine.quantity ≤ 0 ∧ 0 < serverLine.quantity ∧
      (ctx.clientIsCurrent = true ∨ serverLine.revision ≤ ctx.clientVersion)

def StoredCartLine.stamped (line : StoredCartLine) (quantity updatedAt : Int) (revision : Nat) : StoredCartLine :=
  { line with quantity, updatedAt, revision }

theorem resolveLine_cases (serverLine : StoredCartLine) (clientLine : CartLineItemDTO) (ctx : ResolveContext) :
    resolveLine serverLine clientLine ctx = serverLine ∨ ∃ quantity, resolveLine serverLine clientLine ctx =
          serverLine.stamped quantity (parseTimestamp clientLine.updatedAt) ctx.nextVersion ∧
        (serverLine.updatedAt < parseTimestamp clientLine.updatedAt ∨ Forced serverLine clientLine ctx) := by
  unfold resolveLine Forced
  by_cases hclient : 0 < clientLine.quantity
  · by_cases hserver : 0 < serverLine.quantity
    · simp only [hclient, hserver, decide_true, Bool.not_true, Bool.false_eq_true, if_false, if_true]
      split
      · exact .inl rfl
      · rename_i hwins
        split
        · exact .inl rfl
        · refine .inr ⟨_, rfl, ?_⟩
          simp only [Bool.not_eq_true', Bool.not_eq_false, Bool.or_eq_true, decide_eq_true_eq] at hwins
          exact hwins.symm.imp_right fun hcur => .inl ⟨trivial, hcur⟩
    · simp only [hclient, hserver, decide_true, decide_false, Bool.not_true, Bool.false_eq_true, if_false]
      split
      · exact .inl rfl
      · rename_i hwins
        refine .inr ⟨_, rfl, ?_⟩
        simp only [Bool.not_eq_true', Bool.not_eq_false, Bool.or_eq_true, decide_eq_true_eq] at hwins
        exact hwins.symm.imp_right fun hcur => .inl ⟨trivial, hcur⟩
  · by_cases hserver : 0 < serverLine.quantity
    · simp only [hclient, hserver, decide_true, decide_false, Bool.not_true, Bool.not_false, Bool.false_eq_true,
        if_false, if_true]
      split
      · exact .inl rfl
      · rename_i hacc
        refine .inr ⟨_, rfl, ?_⟩
        simp only [Bool.not_eq_true', Bool.not_eq_false, Bool.or_eq_true, decide_eq_true_eq] at hacc
        obtain (hcur | hnewer) | hseen := hacc
        · exact .inr (.inr ⟨by omega, trivial, .inl hcur⟩)
        · exact .inl hnewer
        · exact .inr (.inr ⟨by omega, trivial, .inr hseen⟩)
    · simp only [hclient, hserver, decide_false, Bool.not_false, if_true]
      split
      · rename_i hnewer
        exact .inr ⟨_, rfl, .inl hnewer⟩
      · exact .inl rfl

section
variable {input : MergeInput} {serverLine : StoredCartLine}

/-- A line of the server's stays as it is, takes the client's time, or is removed because it was left out. -/
theorem mergeServerLine_cases (input : MergeInput) (serverLine : StoredCartLine) :
    mergeServerLine input serverLine = serverLine ∨
      (∃ clientLine quantity, lookup CartLineItemDTO.key input.clientByKey serverLine.key = some clientLine ∧
        mergeServerLine input serverLine =
          serverLine.stamped quantity (parseTimestamp clientLine.updatedAt) (input.serverVersion + 1) ∧
        (serverLine.updatedAt < parseTimestamp clientLine.updatedAt ∨ Forced serverLine clientLine input.ctx)) ∨
      lookup CartLineItemDTO.key input.clientByKey serverLine.key = none ∧ 0 < serverLine.quantity ∧
        serverLine.revision ≤ input.clientVersion ∧
        mergeServerLine input serverLine = serverLine.stamped 0 input.now (input.serverVersion + 1) := by
  unfold mergeServerLine
  cases hclient : lookup CartLineItemDTO.key input.clientByKey serverLine.key with
  | none =>
    by_cases hseen : 0 < serverLine.quantity ∧ serverLine.revision ≤ input.clientVersion
    · simp only [if_pos hseen]
      exact .inr (.inr ⟨trivial, hseen.1, hseen.2, rfl⟩)
    · simp only [if_neg hseen]
      exact .inl trivial
  | some clientLine =>
    obtain heq | ⟨quantity, hstamped, hwhy⟩ := resolveLine_cases serverLine clientLine input.ctx
    · exact .inl heq
    · exact .inr (.inl ⟨clientLine, quantity, rfl, hstamped, hwhy⟩)

theorem mergeServerLine_key (input : MergeInput) (serverLine : StoredCartLine) :
    (mergeServerLine input serverLine).key = serverLine.key := by
  obtain heq | ⟨_, _, _, hstamped, _⟩ | ⟨_, _, _, hstamped⟩ := mergeServerLine_cases input serverLine
  · rw [heq]
  · rw [hstamped]
    rfl
  · rw [hstamped]
    rfl

theorem mergeServerLine_of_unchanged (h : isChanged (mergeServerLine input serverLine, some serverLine) = false) :
    mergeServerLine input serverLine = serverLine := by
  have heq : ∀ quantity updatedAt revision,
      isChanged (serverLine.stamped quantity updatedAt revision, some serverLine) = false →
        serverLine.stamped quantity updatedAt revision = serverLine := by
    intro quantity updatedAt revision hunch
    simp only [isChanged, sameLineValue, StoredCartLine.stamped, Bool.or_eq_false_iff, Bool.not_eq_false',
      Bool.and_eq_true, bne_eq_false_iff_eq] at hunch
    obtain ⟨⟨hqty, htime⟩, rfl⟩ := hunch
    rw [← of_decide_eq_true hqty, ← of_decide_eq_true htime]
    rfl
  obtain heq' | ⟨_, _, _, hstamped, _⟩ | ⟨_, _, _, hstamped⟩ := mergeServerLine_cases input serverLine
  · exact heq'
  · rw [hstamped] at h ⊢
    exact heq _ _ _ h
  · rw [hstamped] at h ⊢
    exact heq _ _ _ h

end

section
variable (input : MergeInput)

def recordKey (pair : StoredCartLine × Option StoredCartLine) : String := pair.1.key

theorem keyed_clientByKey : Keyed CartLineItemDTO.key input.clientByKey := keyed_collect input.clientLines

theorem keyed_recorded : Keyed recordKey (recorded input) := by
  unfold Keyed recorded
  rw [List.map_append, List.map_map, List.map_map, List.nodup_append]
  refine ⟨?_, ?_, ?_⟩
  · have hkeys : recordKey ∘ (fun serverLine => (mergeServerLine input serverLine, some serverLine)) = StoredCartLine.key :=
      funext fun serverLine => mergeServerLine_key input serverLine
    rw [hkeys]
    exact keyed_collect input.serverLines
  · exact (keyed_clientByKey input).filter _
  · intro a ha b hb hab
    obtain ⟨serverLine, hserver, rfl⟩ := List.mem_map.mp ha
    obtain ⟨clientLine, hclient, rfl⟩ := List.mem_map.mp hb
    have hnone := (List.mem_filter.mp hclient).2
    rw [isNone_iff_eq_none, lookup_eq_none] at hnone
    exact hnone serverLine hserver ((mergeServerLine_key input serverLine).symm.trans hab)

theorem lookup_recorded (k : String) : lookup recordKey (recorded input) k =
      match lookup StoredCartLine.key (collect StoredCartLine.key input.serverLines) k with
      | some serverLine => some (mergeServerLine input serverLine, some serverLine)
      | none => (lookup CartLineItemDTO.key input.clientByKey k).map fun clientLine => (newLine input clientLine, none) := by
  have hserver : ∀ lines k, lookup recordKey
      (lines.map fun serverLine => (mergeServerLine input serverLine, some serverLine)) k =
        (lookup StoredCartLine.key lines k).map fun serverLine => (mergeServerLine input serverLine, some serverLine) :=
    fun _ _ => lookup_map (mergeServerLine_key input)
  have hclient : ∀ lines k, lookup recordKey (lines.map fun clientLine => (newLine input clientLine, none)) k =
        (lookup CartLineItemDTO.key lines k).map fun clientLine => (newLine input clientLine, none) :=
    fun _ _ => lookup_map fun _ => rfl
  unfold recorded
  rw [lookup_append, hserver, hclient, (keyed_clientByKey input).lookup_filter]
  cases hfound : lookup StoredCartLine.key (collect StoredCartLine.key input.serverLines) k with
  | some serverLine => rfl
  | none =>
    cases hsent : lookup CartLineItemDTO.key input.clientByKey k with
    | none => rfl
    | some clientLine => simp [lookup_key hsent, hfound]

theorem keyed_changedLines : Keyed StoredCartLine.key (mergeCartLines input).changedLines := by
  have h := (keyed_recorded input).filter isChanged
  unfold Keyed at h ⊢
  rw [mergeCartLines, List.map_map]
  exact h

theorem lookup_changedLines (k : String) : lookup StoredCartLine.key (mergeCartLines input).changedLines k =
    ((lookup recordKey (recorded input) k).filter isChanged).map (·.1) := by
  rw [← (keyed_recorded input).lookup_filter]
  exact lookup_map fun _ => rfl

theorem keyed_lines : Keyed StoredCartLine.key (mergeCartLines input).lines := by
  have h := keyed_recorded input
  unfold Keyed at h ⊢
  rw [mergeCartLines, List.map_map]
  exact h

theorem lookup_lines (k : String) : lookup StoredCartLine.key (mergeCartLines input).lines k =
    (lookup recordKey (recorded input) k).map (·.1) := lookup_map fun _ => rfl

end

theorem cartLineKey_normal (merchantId productId skuId : String) :
    cartLineKey merchantId productId (if skuId = "" then none else some skuId) = cartLineKey merchantId productId (some skuId) := by
  unfold cartLineKey
  split
  · rename_i hempty
    rw [hempty]
    rfl
  · rfl

theorem create_key (line : StoredCartLine) : (CartItem.create line).key = line.key :=
  cartLineKey_normal line.merchantId line.productId (line.skuId.getD "")

section
variable {existing : List CartItem} {lines : List StoredCartLine}

theorem saveLines_concat (existing : List CartItem) (lines : List StoredCartLine) (line : StoredCartLine) :
    saveLines existing (lines ++ [line]) = saveLine existing (saveLines existing lines) line := List.foldl_concat ..

theorem saveLines_spec (hexisting : Keyed CartItem.key existing) (hlines : Keyed StoredCartLine.key lines) :
    Keyed CartItem.key (saveLines existing lines) ∧ ∀ k, lookup CartItem.key (saveLines existing lines) k =
      match lookup StoredCartLine.key lines k with
      | some line => some (((lookup CartItem.key existing k).map (CartItem.write line)).getD (CartItem.create line))
      | none => lookup CartItem.key existing k := by
  induction lines using List.reverseRecOn with
  | nil => exact ⟨hexisting, fun k => rfl⟩
  | append_singleton lines line ih =>
    have hkeys := hlines
    unfold Keyed at hkeys
    rw [List.map_append, List.nodup_append] at hkeys
    obtain ⟨hrest, -, hdisjoint⟩ := hkeys
    obtain ⟨hkeyed, hlook⟩ := ih hrest
    have hfresh : lookup StoredCartLine.key lines line.key = none :=
      lookup_eq_none.mpr fun r hr hkey =>
        hdisjoint r.key (List.mem_map_of_mem hr) line.key (List.mem_singleton.mpr rfl) hkey
    have hnow : lookup CartItem.key (saveLines existing lines) line.key = lookup CartItem.key existing line.key := by
      rw [hlook, hfresh]
    have hwrite : ∀ row, (CartItem.write line row).key = row.key := fun _ => rfl
    rw [saveLines_concat]
    unfold saveLine
    cases hrow : lookup CartItem.key existing line.key with
    | some row =>
      rw [if_pos isSome_some]
      refine ⟨hkeyed.update hwrite, fun k => ?_⟩
      rw [lookup_update hwrite]
      by_cases hk : k = line.key
      · rw [if_pos hk, hk, lookup_append_self hfresh, hnow, hrow]
        rfl
      · rw [if_neg hk, lookup_append_ne hk]
        exact hlook k
    | none =>
      rw [hrow, ← create_key] at hnow
      rw [if_neg (by simp)]
      refine ⟨hkeyed.append hnow, fun k => ?_⟩
      by_cases hk : k = line.key
      · rw [hk, lookup_append_self hfresh, hrow, ← create_key, lookup_append_self hnow]
        rfl
      · rw [lookup_append_ne hk, lookup_append_ne (create_key line ▸ hk)]
        exact hlook k

end

def StoredCartLine.normal (line : StoredCartLine) : StoredCartLine :=
  { line with skuId := line.skuId.filter fun skuId => skuId ≠ "" }

theorem toStoredLine_create (line : StoredCartLine) : toStoredLine (CartItem.create line) = line.normal := by
  unfold toStoredLine CartItem.create StoredCartLine.normal
  cases line.skuId with
  | none => rfl
  | some skuId => simp [filter_some]

theorem normal_stamped (line : StoredCartLine) (quantity updatedAt : Int) (revision : Nat) :
    (line.stamped quantity updatedAt revision).normal = line.normal.stamped quantity updatedAt revision := rfl

theorem normal_toStoredLine (row : CartItem) : (toStoredLine row).normal = toStoredLine row := by
  unfold toStoredLine StoredCartLine.normal
  by_cases hempty : row.skuId = ""
  · simp [hempty]
  · simp [hempty]

/-! ### A sync -/

def itemsOf (cart : Option Cart) : List CartItem := cart.elim [] Cart.items

def versionOf (cart : Option Cart) : Nat := cart.elim 0 Cart.version

def lineOf (cart : Option Cart) (k : String) : Option StoredCartLine :=
  lookup StoredCartLine.key ((itemsOf cart).map toStoredLine) k

/-- A call of `syncCart`. -/
structure Sync where
  request : CartSyncRequest
  userId : String
  now : Int

def sync (cart : Option Cart) (call : Sync) : Option Cart := (syncCart cart call.request call.userId call.now).2

def inputOf (cart : Option Cart) (call : Sync) : MergeInput :=
  ⟨(itemsOf cart).map toStoredLine, call.request.items, call.request.clientVersion, versionOf cart, call.now⟩

theorem mergeInput_load (cart : Option Cart) (call : Sync) :
    mergeInput (loadOrCreateCart cart call.userId) call.request call.now = inputOf cart call := by
  cases cart with
  | none => rfl
  | some cart => rfl

theorem syncCart_cases (cart : Option Cart) (call : Sync) :
    syncCart cart call.request call.userId call.now = (.error ⟨call.request.cartId⟩, cart) ∨
      ∃ owner conflicts, syncCart cart call.request call.userId call.now =
        (.ok ⟨call.request.cartId, versionOf cart + 1, toCartLineItemDTOs (mergeCartLines (inputOf cart call)).lines, conflicts⟩,
          some ⟨owner, versionOf cart + 1, saveLines (itemsOf cart) (mergeCartLines (inputOf cart call)).changedLines⟩) := by
  have hinput := mergeInput_load cart call
  by_cases howner : (loadOrCreateCart cart call.userId).userId = call.userId
  · refine .inr ⟨(loadOrCreateCart cart call.userId).userId, (mergeCartLines (inputOf cart call)).conflictsResolved, ?_⟩
    rw [← hinput]
    cases cart with
    | none => exact if_neg (not_not.mpr howner)
    | some cart => exact if_neg (not_not.mpr howner)
  · exact .inl (if_pos howner)

def Timely (input : MergeInput) (line : StoredCartLine) : Prop :=
  match lookup CartLineItemDTO.key input.clientByKey line.key with
  | some clientLine => Forced line clientLine input.ctx → line.updatedAt ≤ parseTimestamp clientLine.updatedAt
  | none => 0 < line.quantity ∧ line.revision ≤ input.clientVersion → line.updatedAt ≤ input.now

def Meets (cart : Option Cart) (call : Sync) : Prop :=
  ∀ line ∈ (inputOf cart call).serverLines, Timely (inputOf cart call) line

/-- No line is kept twice, and none is newer than its cart. -/
structure Sound (cart : Option Cart) : Prop where
  keyed : Keyed CartItem.key (itemsOf cart)
  revised : ∀ k line, lineOf cart k = some line → line.revision ≤ versionOf cart

section
variable {cart : Option Cart} {call : Sync} {k : String}

theorem lineOf_eq (cart : Option Cart) (k : String) :
    lineOf cart k = (lookup CartItem.key (itemsOf cart) k).map toStoredLine := lookup_map fun _ => rfl

variable {line : StoredCartLine}

theorem normal_of_lineOf (h : lineOf cart k = some line) : line.normal = line := by
  rw [lineOf_eq] at h
  obtain ⟨row, -, rfl⟩ := map_eq_some_iff.mp h
  exact normal_toStoredLine row

theorem Sound.keyed_lines (h : Sound cart) : Keyed StoredCartLine.key ((itemsOf cart).map toStoredLine) := by
  have hkeyed := h.keyed
  unfold Keyed at hkeyed ⊢
  rwa [List.map_map]

def outcome (input : MergeInput) (k : String) : Option StoredCartLine → Option StoredCartLine
  | some serverLine => some (mergeServerLine input serverLine)
  | none => (lookup CartLineItemDTO.key input.clientByKey k).map (newLine input)

theorem Sound.recorded (h : Sound cart) (call : Sync) (k : String) : lookup recordKey (recorded (inputOf cart call)) k =
      (outcome (inputOf cart call) k (lineOf cart k)).map fun line => (line, lineOf cart k) := by
  have hcollect : lookup StoredCartLine.key (collect StoredCartLine.key (inputOf cart call).serverLines) k = lineOf cart k :=
    h.keyed_lines.lookup_collect k
  rw [lookup_recorded, hcollect]
  cases hline : lineOf cart k with
  | none => rw [outcome, map_map, Function.comp_def]
  | some line => rfl

theorem Sound.lines (h : Sound cart) (call : Sync) (k : String) :
    lookup StoredCartLine.key (mergeCartLines (inputOf cart call)).lines k =
      outcome (inputOf cart call) k (lineOf cart k) := by
  rw [lookup_lines, h.recorded, map_map]
  exact map_id'

theorem Sound.saved (h : Sound cart) (call : Sync) :
    Keyed CartItem.key (saveLines (itemsOf cart) (mergeCartLines (inputOf cart call)).changedLines) ∧ ∀ k,
      (lookup CartItem.key (saveLines (itemsOf cart) (mergeCartLines (inputOf cart call)).changedLines) k).map toStoredLine =
        (outcome (inputOf cart call) k (lineOf cart k)).map StoredCartLine.normal := by
  obtain ⟨hkeyed, hlook⟩ := saveLines_spec h.keyed (keyed_changedLines (inputOf cart call))
  refine ⟨hkeyed, fun k => ?_⟩
  rw [hlook, lookup_changedLines, h.recorded, lineOf_eq]
  cases hrow : lookup CartItem.key (itemsOf cart) k with
  | none =>
    simp only [map_none, outcome]
    cases lookup CartLineItemDTO.key (inputOf cart call).clientByKey k with
    | none => rfl
    | some clientLine => exact congrArg some (toStoredLine_create _)
  | some row =>
    simp only [map_some, outcome]
    have hnormal : (mergeServerLine (inputOf cart call) (toStoredLine row)).normal =
        mergeServerLine (inputOf cart call) (toStoredLine row) := by
      obtain heq | ⟨_, _, _, hstamped, _⟩ | ⟨_, _, _, hstamped⟩ := mergeServerLine_cases (inputOf cart call) (toStoredLine row)
      · rw [heq, normal_toStoredLine]
      · rw [hstamped, normal_stamped, normal_toStoredLine]
      · rw [hstamped, normal_stamped, normal_toStoredLine]
    rw [hnormal, filter_some]
    by_cases hchanged : isChanged (mergeServerLine (inputOf cart call) (toStoredLine row), some (toStoredLine row)) = true
    · rw [if_pos hchanged]
      refine congrArg some ?_
      obtain heq | ⟨_, _, _, hstamped, _⟩ | ⟨_, _, _, hstamped⟩ := mergeServerLine_cases (inputOf cart call) (toStoredLine row)
      · rw [heq]
        rfl
      · rw [hstamped]
        rfl
      · rw [hstamped]
        rfl
    · rw [if_neg hchanged]
      exact congrArg some (mergeServerLine_of_unchanged (Bool.eq_false_iff.mpr hchanged)).symm

/-- A sync is refused and changes nothing, or counts the version up and leaves the outcome at every key. -/
theorem sync_cases (h : Sound cart) (call : Sync) : sync cart call = cart ∨
      versionOf (sync cart call) = versionOf cart + 1 ∧ Keyed CartItem.key (itemsOf (sync cart call)) ∧
        ∀ k, lineOf (sync cart call) k = (outcome (inputOf cart call) k (lineOf cart k)).map StoredCartLine.normal := by
  unfold sync
  obtain href | ⟨owner, conflicts, hsynced⟩ := syncCart_cases cart call
  · rw [href]
    exact .inl rfl
  · obtain ⟨hkeyed, hlines⟩ := h.saved call
    rw [hsynced]
    exact .inr ⟨rfl, hkeyed, fun k => (lineOf_eq _ k).trans (hlines k)⟩

theorem outcome_cases {input : MergeInput} {before : Option StoredCartLine}
    (h : outcome input k before = some line) : before = some line ∨ line.revision = input.serverVersion + 1 := by
  cases before with
  | none =>
    obtain ⟨clientLine, -, rfl⟩ := map_eq_some_iff.mp h
    exact .inr rfl
  | some serverLine =>
    cases h
    obtain heq | ⟨_, _, _, hstamped, _⟩ | ⟨_, _, _, hstamped⟩ := mergeServerLine_cases input serverLine
    · rw [heq]
      exact .inl rfl
    · rw [hstamped]
      exact .inr rfl
    · rw [hstamped]
      exact .inr rfl

/-- The state of a cart is followed by another: its version does not go back, what has changed since is stamped, and
no line is of an earlier time. -/
structure Later (cart cart' : Option Cart) : Prop where
  version : versionOf cart ≤ versionOf cart'
  stamped : ∀ k line, lineOf cart' k = some line → lineOf cart k = some line ∨ versionOf cart < line.revision
  times : ∀ k line, lineOf cart k = some line → ∃ line', lineOf cart' k = some line' ∧ line.updatedAt ≤ line'.updatedAt

theorem Later.refl (cart : Option Cart) : Later cart cart := ⟨le_rfl, fun _ _ h => .inl h, fun _ line h => ⟨line, h, le_rfl⟩⟩

theorem Later.trans {cart' cart'' : Option Cart} (h : Later cart cart') (h' : Later cart' cart'') : Later cart cart'' where
  version := h.version.trans h'.version
  stamped k line hline := by
    obtain hpre | hlater := h'.stamped k line hline
    · exact h.stamped k line hpre
    · exact .inr (h.version.trans_lt hlater)
  times k line hline := by
    obtain ⟨line', hline', hle⟩ := h.times k line hline
    obtain ⟨line'', hline'', hle'⟩ := h'.times k line' hline'
    exact ⟨line'', hline'', hle.trans hle'⟩

theorem mergeServerLine_time {input : MergeInput} {serverLine : StoredCartLine} (h : Timely input serverLine) :
    serverLine.updatedAt ≤ (mergeServerLine input serverLine).updatedAt := by
  unfold Timely at h
  obtain heq | ⟨clientLine, quantity, hclient, hstamped, hwhy⟩ | ⟨hclient, hlive, hseen, hstamped⟩ :=
    mergeServerLine_cases input serverLine
  · rw [heq]
  · rw [hclient] at h
    rw [hstamped]
    obtain hnewer | hforced := hwhy
    · exact hnewer.le
    · exact h hforced
  · rw [hclient] at h
    rw [hstamped]
    exact h ⟨hlive, hseen⟩

theorem Sound.step (h : Sound cart) (hmeets : Meets cart call) : Sound (sync cart call) ∧ Later cart (sync cart call) := by
  obtain heq | ⟨hver, hkeyed, hlines⟩ := sync_cases h call
  · rw [heq]
    exact ⟨h, .refl cart⟩
  have hstamped : ∀ k line, lineOf (sync cart call) k = some line →
      lineOf cart k = some line ∨ line.revision = versionOf cart + 1 := by
    intro k line hline
    rw [hlines] at hline
    obtain ⟨merged, hmerged, rfl⟩ := map_eq_some_iff.mp hline
    obtain hpre | hstamp := outcome_cases hmerged
    · rw [normal_of_lineOf hpre]
      exact .inl hpre
    · exact .inr hstamp
  refine ⟨⟨hkeyed, fun k line hline => ?_⟩, ⟨by omega, fun k line hline => ?_, fun k line hline => ?_⟩⟩
  · obtain hpre | hstamp := hstamped k line hline
    · have hrevised := h.revised k line hpre
      omega
    · omega
  · obtain hpre | hstamp := hstamped k line hline
    · exact .inl hpre
    · exact .inr (by omega)
  · rw [hlines, hline]
    exact ⟨_, rfl, mergeServerLine_time (hmeets line (lookup_mem hline))⟩

end

def run (history : List Sync) : Option Cart := History.run sync none history

def Orderly (history : List Sync) : Prop := History.Orderly sync Meets none history

theorem sound_none : Sound none := ⟨List.nodup_nil, fun _ _ h => nomatch h⟩

theorem run_concat (history : List Sync) (call : Sync) : run (history ++ [call]) = sync (run history) call :=
  History.run_concat none history call

section
variable {before after history : List Sync} {k : String}

theorem sound_run (h : Orderly history) : Sound (run history) :=
  History.Orderly.invariant (fun _ _ hsound hmeets => (hsound.step hmeets).1) h sound_none

theorem later_run (h : Orderly (before ++ after)) : Later (run before) (run (before ++ after)) := by
  obtain ⟨hpre, hafter⟩ := History.Orderly.split h
  have hrun : run (before ++ after) = History.run sync (run before) after := History.run_append none before after
  rw [hrun]
  exact History.Orderly.advances (fun cart => .refl cart) (fun _ _ _ => .trans) (fun _ _ hsound hmeets => hsound.step hmeets)
    hafter (sound_run hpre)

def ChangedAt (history : List Sync) (k : String) (version : Nat) : Prop :=
  ∃ before change after, history = before ++ change :: after ∧
    lineOf (run (before ++ [change])) k ≠ lineOf (run before) k ∧ versionOf (run (before ++ [change])) = version

def Live (cart : Option Cart) (k : String) : Prop := ∃ line, lineOf cart k = some line ∧ 0 < line.quantity

def RemovedAt (history : List Sync) (k : String) (version : Nat) : Prop :=
  ∃ before removal after, history = before ++ removal :: after ∧
    Live (run before) k ∧ ¬ Live (run (before ++ [removal])) k ∧ versionOf (run (before ++ [removal])) = version

/-- The time is later than all that the line ever had. -/
def AfterAll (history : List Sync) (k : String) (time : Int) : Prop :=
  ∀ before after, history = before ++ after → ∀ line, lineOf (run before) k = some line → line.updatedAt < time

variable {version : Nat}

theorem revision_of_changed (h : Orderly history) (hchanged : ChangedAt history k version)
    (hline : lineOf (run history) k = some line) : version ≤ line.revision := by
  obtain ⟨before, change, after, rfl, hchange, rfl⟩ := hchanged
  rw [List.append_cons] at h hline
  obtain hknown | hlater := (later_run h).stamped k line hline
  · obtain ⟨hstep, -⟩ := History.Orderly.split h
    obtain heq | hstamped := (later_run hstep).stamped k line hknown
    · exact absurd (hknown.trans heq.symm) hchange
    · have hpre := sound_run (History.Orderly.split hstep).1
      rw [run_concat] at hchange ⊢
      obtain hnone | ⟨hver, -⟩ := sync_cases hpre change
      · exact absurd (congrArg (lineOf · k) hnone) hchange
      · omega
  · omega

variable {call : Sync}

/-- A line that was last changed after the device's version is not removed because the device left it out. -/
theorem kept_unseen (h : Orderly history) (hchanged : ChangedAt history k version)
    (hver : call.request.clientVersion < version) (homitted : ∀ item ∈ call.request.items, item.key ≠ k) :
    lineOf (sync (run history) call) k = lineOf (run history) k := by
  obtain heq | ⟨-, -, hlines⟩ := sync_cases (sound_run h) call
  · rw [heq]
  have hnone : lookup CartLineItemDTO.key (inputOf (run history) call).clientByKey k = none :=
    lookup_collect_eq_none.mpr homitted
  rw [hlines]
  cases hline : lineOf (run history) k with
  | none => rw [outcome, hnone]; rfl
  | some line =>
    have hrevision := revision_of_changed h hchanged hline
    have hkept : mergeServerLine (inputOf (run history) call) line = line := by
      obtain heq | ⟨clientLine, _, hclient, -⟩ | ⟨-, -, hseen, -⟩ := mergeServerLine_cases (inputOf (run history) call) line
      · exact heq
      · simp [lookup_key hline, hnone] at hclient
      · have hcalled : (inputOf (run history) call).clientVersion = call.request.clientVersion := rfl
        omega
    rw [outcome, hkept, map_some, normal_of_lineOf hline]

theorem restored_later (h : Orderly history) (hremoved : RemovedAt history k version)
    (hver : call.request.clientVersion < version) (hdead : ¬ Live (run history) k)
    (hlive : Live (sync (run history) call) k) :
    ∃ item ∈ call.request.items, item.key = k ∧ AfterAll history k (parseTimestamp item.updatedAt) := by
  obtain ⟨before, removal, after, rfl, ⟨first, hfirst, -⟩, -, rfl⟩ := hremoved
  obtain heq | ⟨-, -, hlines⟩ := sync_cases (sound_run h) call
  · rw [heq] at hlive
    exact absurd hlive hdead
  have hstale : call.request.clientVersion < versionOf (run (before ++ removal :: after)) := by
    rw [List.append_cons] at h ⊢
    exact hver.trans_le (later_run h).version
  obtain ⟨tombstone, htombstone, -⟩ := (later_run h).times k first hfirst
  have hremoved : ¬ 0 < tombstone.quantity := fun hqty => hdead ⟨tombstone, htombstone, hqty⟩
  obtain ⟨line, hline, hqty⟩ := hlive
  rw [hlines, htombstone, outcome, map_some] at hline
  cases hline
  obtain heq | ⟨item, quantity, hclient, -, hwhy⟩ | ⟨-, hlive, -⟩ :=
    mergeServerLine_cases (inputOf (run (before ++ removal :: after)) call) tombstone
  · rw [heq] at hqty
    exact absurd hqty hremoved
  · have hkey := lookup_key hclient
    rw [lookup_key htombstone] at hkey
    refine ⟨item, mem_of_lookup_collect hclient, hkey, fun earlier later hsplit line hline => ?_⟩
    have hle : line.updatedAt ≤ tombstone.updatedAt := by
      rw [hsplit] at h htombstone
      obtain ⟨line', hline', hle⟩ := (later_run h).times k line hline
      rw [htombstone] at hline'
      cases hline'
      exact hle
    obtain hnewer | ⟨-, hcur⟩ | ⟨-, hlive, -⟩ := hwhy
    · exact hle.trans_lt hnewer
    · have hcur := of_decide_eq_true hcur
      have hcalled : (inputOf (run (before ++ removal :: after)) call).clientVersion = call.request.clientVersion := rfl
      have hserver : (inputOf (run (before ++ removal :: after)) call).serverVersion =
        versionOf (run (before ++ removal :: after)) := rfl
      omega
    · exact absurd hlive hremoved
  · exact absurd hlive hremoved

end

theorem dto_key (line : StoredCartLine) : (toCartLineItemDTO line).key = line.key := by
  unfold toCartLineItemDTO CartLineItemDTO.key StoredCartLine.key cartLineKey
  cases line.skuId with
  | none => rfl
  | some skuId =>
    by_cases hempty : skuId = ""
    · simp [filter_some, hempty]
    · simp [filter_some, hempty]

theorem dto_normal (line : StoredCartLine) : toCartLineItemDTO line.normal = toCartLineItemDTO line := by
  unfold toCartLineItemDTO StoredCartLine.normal
  rw [filter_filter]
  simp

theorem items_perm (lines : List StoredCartLine) :
    (toCartLineItemDTOs lines).Perm ((lines.filter fun line => decide (0 < line.quantity)).map toCartLineItemDTO) :=
  List.perm_insertionSort _ _

theorem lookup_items {lines : List StoredCartLine} (h : Keyed StoredCartLine.key lines) (k : String) :
    lookup CartLineItemDTO.key (collect CartLineItemDTO.key (toCartLineItemDTOs lines)) k =
      ((lookup StoredCartLine.key lines k).filter fun line => decide (0 < line.quantity)).map toCartLineItemDTO := by
  have hkeyed : Keyed CartLineItemDTO.key ((lines.filter fun line => decide (0 < line.quantity)).map toCartLineItemDTO) := by
    have hlive := h.filter fun line => decide (0 < line.quantity)
    have hkeys : CartLineItemDTO.key ∘ toCartLineItemDTO = StoredCartLine.key := funext dto_key
    unfold Keyed at hlive ⊢
    rwa [List.map_map, hkeys]
  have hitems : Keyed CartLineItemDTO.key (toCartLineItemDTOs lines) := ((items_perm lines).map _).nodup_iff.mpr hkeyed
  rw [hitems.lookup_collect, hkeyed.lookup_perm (items_perm lines), lookup_map dto_key, h.lookup_filter]

theorem resolveLine_known {item : CartLineItemDTO} {ctx : ResolveContext} (hlive : 0 < item.quantity)
    (htime : parseTimestamp item.updatedAt ≤ line.updatedAt)
    (hcur : ctx.clientIsCurrent = true → line.quantity = item.quantity ∧ line.updatedAt = parseTimestamp item.updatedAt) :
    resolveLine line item ctx = line := by
  have hnewer : ¬ line.updatedAt < parseTimestamp item.updatedAt := by omega
  unfold resolveLine
  cases hctx : ctx.clientIsCurrent with
  | true =>
    obtain ⟨hqty, heq⟩ := hcur hctx
    have hserver : 0 < line.quantity := hqty ▸ hlive
    simp [hserver, sameLineValue, ← hqty, ← heq]
  | false =>
    by_cases hserver : 0 < line.quantity
    · simp [hlive, hserver, hnewer]
    · simp [hlive, hserver, hnewer]

/-- The request that sends back what was answered. -/
def CartSyncResponse.again (response : CartSyncResponse) : CartSyncRequest :=
  ⟨response.cartId, response.serverVersion, response.items⟩

theorem answered {cart : Option Cart} {response : CartSyncResponse} (h : Sound cart)
    (hansd : (syncCart cart call.request call.userId call.now).1 = .ok response) :
    response.serverVersion = versionOf (sync cart call) ∧
      ∀ k, lookup CartLineItemDTO.key (collect CartLineItemDTO.key response.items) k =
        ((lineOf (sync cart call) k).filter fun line => decide (0 < line.quantity)).map toCartLineItemDTO := by
  obtain href | ⟨owner, conflicts, hsynced⟩ := syncCart_cases cart call
  · simp [href] at hansd
  · have hstore : ∀ k, lineOf (sync cart call) k =
        (outcome (inputOf cart call) k (lineOf cart k)).map StoredCartLine.normal := by
      intro k
      rw [sync, hsynced, lineOf_eq]
      exact (h.saved call).2 k
    have hver : versionOf (sync cart call) = versionOf cart + 1 := by
      rw [sync, hsynced]
      rfl
    rw [hsynced] at hansd
    cases hansd
    refine ⟨hver.symm, fun k => ?_⟩
    rw [lookup_items (keyed_lines _), h.lines, hstore]
    cases outcome (inputOf cart call) k (lineOf cart k) with
    | none => rfl
    | some line =>
      have hqty : line.normal.quantity = line.quantity := rfl
      rw [map_some, filter_some, filter_some, hqty]
      split
      · rw [map_some, map_some, dto_normal]
      · rfl

theorem resent {before after : List Sync} (h : Orderly (before ++ call :: after)) {response : CartSyncResponse}
    (hansd : (syncCart (run before) call.request call.userId call.now).1 = .ok response) (userId : String) (now : Int)
    (k : String) :
    lineOf (sync (run (before ++ call :: after)) ⟨response.again, userId, now⟩) k = lineOf (run (before ++ call :: after)) k := by
  obtain heq | ⟨-, -, hlines⟩ := sync_cases (sound_run h) ⟨response.again, userId, now⟩
  · rw [heq]
  have hsound := sound_run h
  rw [List.append_cons] at h hlines hsound ⊢
  obtain ⟨hver, hitems⟩ := answered (sound_run (History.Orderly.split (History.Orderly.split h).1).1) hansd
  rw [← run_concat] at hver hitems
  have hlater := later_run h
  generalize run (before ++ [call]) = known at hver hitems hlater
  generalize run (before ++ [call] ++ after) = cart at hlines hsound hlater ⊢
  have hclient : lookup CartLineItemDTO.key (inputOf cart ⟨response.again, userId, now⟩).clientByKey k =
      ((lineOf known k).filter fun line => decide (0 < line.quantity)).map toCartLineItemDTO := hitems k
  have hctx : (inputOf cart ⟨response.again, userId, now⟩).clientVersion = versionOf known := hver
  rw [hlines]
  cases hline : lineOf cart k with
  | none =>
    have hnone : lineOf known k = none := by
      cases hknown : lineOf known k with
      | none => rfl
      | some line =>
        obtain ⟨line', hline', -⟩ := hlater.times k line hknown
        simp [hline] at hline'
    rw [outcome, hclient, hnone]
    rfl
  | some line =>
    have hkept : mergeServerLine (inputOf cart ⟨response.again, userId, now⟩) line = line := by
      unfold mergeServerLine
      rw [lookup_key hline, hclient, hctx]
      cases hknown : lineOf known k with
      | none =>
        obtain heq | hstamped := hlater.stamped k line hline
        · simp [hknown] at heq
        · exact if_neg fun hseen => absurd hseen.2 (by omega)
      | some seen =>
        by_cases hlive : 0 < seen.quantity
        · rw [filter_some, if_pos (decide_eq_true hlive), map_some]
          obtain ⟨line', hline', htime⟩ := hlater.times k seen hknown
          rw [hline] at hline'
          cases hline'
          refine resolveLine_known hlive htime fun hcur => ?_
          -- the cart has not been synced since
          have hcur : versionOf cart ≤ versionOf known := hctx ▸ of_decide_eq_true hcur
          obtain heq | hstamped := hlater.stamped k line hline
          · rw [hknown] at heq
            cases heq
            exact ⟨rfl, rfl⟩
          · have hrevised := hsound.revised k line hline
            omega
        · rw [filter_some, if_neg (by simpa using hlive), map_none]
          obtain heq | hstamped := hlater.stamped k line hline
          · rw [hknown] at heq
            cases heq
            exact if_neg fun hseen => hlive hseen.1
          · exact if_neg fun hseen => absurd hseen.2 (by omega)
    rw [outcome, hkept, map_some, normal_of_lineOf hline]

/-- In every history of timely changes, no line is lost because a device left it out, none comes back but with a
later change, and an answer that is sent back changes nothing. -/
theorem merged {history : List Sync} (h : Orderly history) :
    (∀ call k version, ChangedAt history k version → call.request.clientVersion < version →
      (∀ item ∈ call.request.items, item.key ≠ k) → lineOf (sync (run history) call) k = lineOf (run history) k) ∧
    (∀ call k version, RemovedAt history k version → call.request.clientVersion < version → ¬ Live (run history) k →
      Live (sync (run history) call) k →
        ∃ item ∈ call.request.items, item.key = k ∧ AfterAll history k (parseTimestamp item.updatedAt)) ∧
    ∀ before call after response, history = before ++ call :: after →
      (syncCart (run before) call.request call.userId call.now).1 = .ok response → ∀ userId now k,
        lineOf (sync (run history) ⟨response.again, userId, now⟩) k = lineOf (run history) k := by
  refine ⟨fun call k version hchanged hver homitted => kept_unseen h hchanged hver homitted,
    fun call k version hremoved hver hdead hlive => restored_later h hremoved hver hdead hlive, ?_⟩
  rintro before call after response rfl hansd userId now k
  exact resent h hansd userId now k

instance (serverLine : StoredCartLine) (clientLine : CartLineItemDTO) (ctx : ResolveContext) :
    Decidable (Forced serverLine clientLine ctx) := inferInstanceAs (Decidable (_ ∨ _))

instance (input : MergeInput) (line : StoredCartLine) : Decidable (Timely input line) :=
  match h : lookup CartLineItemDTO.key input.clientByKey line.key with
  | some clientLine =>
    decidable_of_iff (Forced line clientLine input.ctx → line.updatedAt ≤ parseTimestamp clientLine.updatedAt)
      (by rw [Timely, h])
  | none => decidable_of_iff (0 < line.quantity ∧ line.revision ≤ input.clientVersion → line.updatedAt ≤ input.now)
      (by rw [Timely, h])

instance (cart : Option Cart) (call : Sync) : Decidable (Meets cart call) := List.decidableBAll _ _

/-- A buyer's device sends what it has of the cart. -/
def sending (clientVersion : Nat) (items : List CartLineItemDTO) : Sync := ⟨⟨"cart", clientVersion, items⟩, "buyer", 1000⟩

def shirts (quantity time : Int) : CartLineItemDTO := ⟨"shop", "shirt", none, quantity, some time⟩

/-- A device that has never synced leaves out what another has put in. -/
theorem merged_unseen : lineOf (sync (run [sending 0 [shirts 2 100]]) (sending 0 [])) (shirts 2 100).key =
    lineOf (run [sending 0 [shirts 2 100]]) (shirts 2 100).key := by
  have hord : Orderly [sending 0 [shirts 2 100]] := ⟨by decide, trivial⟩
  refine (merged hord).1 (sending 0 []) (shirts 2 100).key 1 ⟨[], sending 0 [shirts 2 100], [], rfl, ?_, rfl⟩ (by decide) ?_
  · decide
  · intro item hitem
    cases hitem

/-- A device whose clock is behind removes what it had put in, and a line from before the removal comes back. -/
theorem removed_line_restored : ¬ ∀ (history : List Sync) (call : Sync) (k : String) (version : Nat),
    RemovedAt history k version → call.request.clientVersion < version → ¬ Live (run history) k →
      Live (sync (run history) call) k →
        ∃ item ∈ call.request.items, item.key = k ∧ AfterAll history k (parseTimestamp item.updatedAt) := by
  intro h
  have hadded : Live (run [sending 0 [shirts 2 100]]) (shirts 2 100).key :=
    ⟨⟨"shop", "shirt", none, 2, 100, 1⟩, by decide, by decide⟩
  have htombstone : lineOf (run [sending 0 [shirts 2 100], sending 1 [shirts 0 50]]) (shirts 2 100).key =
      some ⟨"shop", "shirt", none, 0, 50, 2⟩ := by decide
  have hremoved : ¬ Live (run [sending 0 [shirts 2 100], sending 1 [shirts 0 50]]) (shirts 2 100).key := by
    rintro ⟨line, hline, hqty⟩
    rw [htombstone] at hline
    cases hline
    exact absurd hqty (by decide)
  obtain ⟨item, hitem, -, hafter⟩ := h [sending 0 [shirts 2 100], sending 1 [shirts 0 50]] (sending 0 [shirts 1 60])
    (shirts 2 100).key 2 ⟨[sending 0 [shirts 2 100]], sending 1 [shirts 0 50], [], rfl, hadded, hremoved, rfl⟩ (by decide)
    hremoved ⟨⟨"shop", "shirt", none, 1, 60, 3⟩, by decide, by decide⟩
  obtain rfl := List.mem_singleton.mp hitem
  have hearlier := hafter [sending 0 [shirts 2 100]] [sending 1 [shirts 0 50]] rfl ⟨"shop", "shirt", none, 2, 100, 1⟩
    (by decide)
  exact absurd hearlier (by decide)

end Delego.CartSync
