import Mathlib.Algebra.Order.Ring.Int

/-! Sums over a window that slides.

The window of a given width that ends at `t` holds the rows after `t - width` up to and at `t`. If a row is only added
as the latest, and only where the window that ends at it stays under a cap, then no window ever holds more
(`Capped.append`): the window that ends at the latest row in it holds all that it holds. -/
namespace Delego.Data
open List

section
variable {α : Type} (time weight : α → Int)

def windowSum (width : Int) (rows : List α) (t : Int) : Int :=
  ((rows.filter fun r => decide (t - width < time r ∧ time r ≤ t)).map weight).sum

/-- No window holds more than the cap; under a cap below zero it holds nothing. -/
def Capped (width cap : Int) (rows : List α) : Prop := ∀ t, windowSum time weight width rows t ≤ max cap 0

variable {time weight} {width cap : Int} {rows : List α}

theorem windowSum_nil (t : Int) : windowSum time weight width [] t = 0 := rfl

theorem windowSum_cons (r : α) (t : Int) : windowSum time weight width (r :: rows) t =
    (if t - width < time r ∧ time r ≤ t then weight r else 0) + windowSum time weight width rows t := by
  unfold windowSum
  by_cases h : t - width < time r ∧ time r ≤ t
  · simp [h]
  · simp [h]

theorem windowSum_append (x : α) (t : Int) : windowSum time weight width (rows ++ [x]) t =
    windowSum time weight width rows t + if t - width < time x ∧ time x ≤ t then weight x else 0 := by
  induction rows with
  | nil => simp [windowSum_cons, windowSum_nil]
  | cons r rest ih =>
    rw [cons_append, windowSum_cons, windowSum_cons, ih]
    omega

/-- A window that ends later holds no more than one that ends at the latest row. -/
theorem windowSum_le {last t : Int} (hweight : ∀ r ∈ rows, 0 ≤ weight r) (hlast : ∀ r ∈ rows, time r ≤ last)
    (ht : last ≤ t) : windowSum time weight width rows t ≤ windowSum time weight width rows last := by
  induction rows with
  | nil => exact le_refl 0
  | cons r rest ih =>
    have hr := hweight r mem_cons_self
    have htime := hlast r mem_cons_self
    have hrest := ih (fun x hx => hweight x (mem_cons_of_mem r hx)) fun x hx => hlast x (mem_cons_of_mem r hx)
    rw [windowSum_cons, windowSum_cons]
    split
    · rw [if_pos (by omega)]
      omega
    · split
      · omega
      · omega

theorem Capped.nil : Capped time weight width cap [] := by
  intro t
  rw [windowSum_nil]
  exact le_max_right cap 0

/-- A row is added as the latest, with room for it in the window that ends at it. -/
theorem Capped.append {x : α} (h : Capped time weight width cap rows) (hweight : ∀ r ∈ rows, 0 ≤ weight r)
    (hlast : ∀ r ∈ rows, time r ≤ time x)
    (hroom : windowSum time weight width rows (time x) + weight x ≤ cap) :
    Capped time weight width cap (rows ++ [x]) := by
  intro t
  have hpre := h t
  rw [windowSum_append]
  split
  · rename_i hin
    have hslide : windowSum time weight width rows t ≤ windowSum time weight width rows (time x) :=
      windowSum_le hweight hlast hin.2
    omega
  · omega

end

/-! ### Totals by period

Amounts come at times, the latest first, and every time is in a period; of two times the later one is in the
same period or a later one. `total` is what came in one period. Nothing that came before has to do with a
period that begins afterwards, so what a time has to itself only shrinks until the next amount comes
(`total_later`); an amount that a total has room for leaves all totals within a bound (`bounded_cons`). -/

section
variable {T P : Type} [DecidableEq P]

/-- What came in period `n`. -/
def total (period : T → P) (n : P) : List (T × Int) → Int
  | [] => 0
  | e :: entries => (if period e.1 = n then e.2 else 0) + total period n entries

variable {period : T → P} {entries : List (T × Int)}

theorem total_later [Preorder T] [PartialOrder P] (hper : ∀ s t, s ≤ t → period s ≤ period t) {s t : T}
    (hst : s ≤ t) (h : ∀ e ∈ entries, e.1 ≤ s ∧ 0 ≤ e.2) :
    total period (period t) entries ≤ total period (period s) entries := by
  induction entries with
  | nil => exact Int.le_refl _
  | cons e entries ih =>
    have hrest := ih fun e' he' => h e' (mem_cons_of_mem _ he')
    obtain ⟨hes, he⟩ := h e mem_cons_self
    simp only [total]
    by_cases het : period e.1 = period t
    · -- `s` is in between
      have hes' : period e.1 = period s := le_antisymm (hper _ _ hes) (het ▸ hper _ _ hst)
      rw [if_pos het, if_pos hes']
      omega
    · rw [if_neg het]
      split <;> omega

def Bounded (period : T → P) (bound : Int) (entries : List (T × Int)) : Prop := ∀ n, total period n entries ≤ bound

theorem bounded_cons {bound amount : Int} {t : T} (h : Bounded period bound entries)
    (hroom : total period (period t) entries + amount ≤ bound) : Bounded period bound ((t, amount) :: entries) := by
  intro n
  have hn := h n
  simp only [total]
  split
  · rename_i heq
    rw [heq] at hroom
    omega
  · omega

end

/-! ### Lists in the order of a key, read in ranges and in pages

What is read in pages is complete up to a key once what is still to be read lies beyond it: at the end of what was asked
for (`between_of_read`), or just before the key of the last entry of a page (`between_of_last`). -/

variable {α β : Type}

section
variable (key : α → Int)

def Ascending (l : List α) : Prop := l.Pairwise fun x y => key x ≤ key y

def upTo (l : List α) (b : Int) : List α := l.filter fun x => decide (key x ≤ b)

def onward (l : List α) (a : Int) : List α := l.filter fun x => decide (a ≤ key x)

/-- From one key up to another, both included. -/
def between (l : List α) (a b : Int) : List α := upTo key (onward key l a) b

def pageOf (l : List α) (bound : Int) (limit : Nat) : List α := (upTo key l bound).take limit

variable {key} {l l' carry read rest : List α} {a b m f e : Int} {x : α}

theorem mem_upTo : x ∈ upTo key l b ↔ x ∈ l ∧ key x ≤ b := by simp only [upTo, mem_filter, decide_eq_true_eq]

theorem mem_onward : x ∈ onward key l a ↔ x ∈ l ∧ a ≤ key x := by simp only [onward, mem_filter, decide_eq_true_eq]

theorem mem_between : x ∈ between key l a b ↔ x ∈ l ∧ a ≤ key x ∧ key x ≤ b := by
  rw [between, mem_upTo, mem_onward, and_assoc]

theorem upTo_append : upTo key (l ++ l') b = upTo key l b ++ upTo key l' b := filter_append ..

theorem onward_append : onward key (l ++ l') a = onward key l a ++ onward key l' a := filter_append ..

theorem upTo_eq_self (h : ∀ x ∈ l, key x ≤ b) : upTo key l b = l :=
  filter_eq_self.mpr fun x hx => decide_eq_true (h x hx)

theorem upTo_eq_nil (h : ∀ x ∈ l, b < key x) : upTo key l b = [] := by
  refine filter_eq_nil_iff.mpr fun x hx => ?_
  have := h x hx
  simp only [decide_eq_true_eq]
  omega

theorem onward_eq_self (h : ∀ x ∈ l, a ≤ key x) : onward key l a = l :=
  filter_eq_self.mpr fun x hx => decide_eq_true (h x hx)

theorem onward_onward (h : a ≤ b) : onward key (onward key l a) b = onward key l b := by
  rw [onward, onward, filter_filter, onward]
  refine filter_congr fun x _ => ?_
  rw [← Bool.decide_and, decide_eq_decide]
  omega

theorem upTo_upTo (h : a ≤ b) : upTo key (upTo key l b) a = upTo key l a := by
  rw [upTo, upTo, filter_filter, upTo]
  refine filter_congr fun x _ => ?_
  rw [← Bool.decide_and, decide_eq_decide]
  omega

theorem onward_upTo : onward key (upTo key l b) a = between key l a b := by
  rw [between, onward, upTo, onward, upTo, filter_filter, filter_filter]
  refine filter_congr fun x _ => ?_
  rw [Bool.and_comm]

theorem Ascending.sublist (h : Ascending key l) (hsub : l'.Sublist l) : Ascending key l' := List.Pairwise.sublist hsub h

theorem Ascending.onward (h : Ascending key l) (a : Int) : Ascending key (onward key l a) := h.sublist filter_sublist

theorem Ascending.upTo (h : Ascending key l) (b : Int) : Ascending key (upTo key l b) := h.sublist filter_sublist

theorem Ascending.le_of_append (h : Ascending key (l ++ l')) {y : α} (hx : x ∈ l) (hy : y ∈ l') : key x ≤ key y :=
  (pairwise_append.mp h).2.2 x hx y hy

theorem upTo_append_onward (h : Ascending key l) (b : Int) : upTo key l b ++ onward key l (b + 1) = l := by
  induction l with
  | nil => rfl
  | cons x l ih =>
    have hrest := ih (h.sublist (sublist_cons_self x l))
    by_cases hx : key x ≤ b
    · have honward : onward key (x :: l) (b + 1) = onward key l (b + 1) :=
        filter_cons_of_neg (by simp only [decide_eq_true_eq]; omega)
      have hupTo : upTo key (x :: l) b = x :: upTo key l b := filter_cons_of_pos (decide_eq_true hx)
      rw [honward, hupTo, cons_append, hrest]
    · have hbeyond : ∀ y ∈ x :: l, b < key y := by
        intro y hy
        rcases mem_cons.mp hy with rfl | hy
        · omega
        · have := (pairwise_cons.mp h).1 y hy
          omega
      rw [upTo_eq_nil hbeyond, onward_eq_self fun y hy => Int.add_one_le_of_lt (hbeyond y hy), nil_append]

theorem between_append (h : Ascending key l) (ham : a ≤ m + 1) (hmb : m ≤ b) :
    between key l a m ++ between key l (m + 1) b = between key l a b := by
  have hfirst : between key l a m = upTo key (between key l a b) m := (upTo_upTo hmb).symm
  have hsecond : between key l (m + 1) b = onward key (between key l a b) (m + 1) := by
    rw [between, between, ← onward_onward ham, onward_upTo, between]
  rw [hfirst, hsecond]
  exact upTo_append_onward ((h.onward a).upTo b) m

theorem between_nil (h : b < a) : between key l a b = [] := by
  refine eq_nil_iff_forall_not_mem.mpr fun x hx => ?_
  have := mem_between.mp hx
  omega

/-- A page is the beginning of what is still to be read; after one that is not full, what is left lies beyond the bound. -/
theorem pageOf_append (h : Ascending key l) (bound : Int) (limit : Nat) : ∃ rest, pageOf key l bound limit ++ rest = l ∧
    ((pageOf key l bound limit).length < limit → ∀ x ∈ rest, bound < key x) := by
  have hsplit := upTo_append_onward h bound
  refine ⟨(upTo key l bound).drop limit ++ onward key l (bound + 1), ?_, fun hshort x hx => ?_⟩
  · rw [pageOf, ← append_assoc, take_append_drop]
    exact hsplit
  · rw [pageOf, length_take] at hshort
    rw [drop_eq_nil_of_le (by omega), nil_append] at hx
    exact Int.lt_of_add_one_le (mem_onward.mp hx).2

theorem between_of_read (hl : onward key l f = carry ++ (read ++ rest)) (hcarry : ∀ x ∈ carry, key x ≤ e)
    (hrest : ∀ x ∈ rest, e < key x) : carry ++ upTo key read e = between key l f e := by
  rw [between, hl, upTo_append, upTo_append, upTo_eq_self hcarry, upTo_eq_nil hrest, append_nil]

theorem between_of_last (hl : onward key l f = read ++ rest) (hrest : ∀ x ∈ rest, m ≤ key x) :
    between key l f (m - 1) = upTo key read (m - 1) := by
  have hbeyond : upTo key rest (m - 1) = [] := upTo_eq_nil fun x hx => by
    have := hrest x hx
    omega
  rw [between, hl, upTo_append, hbeyond, append_nil]

theorem onward_of_last (hl : onward key l f = read ++ rest) (hrest : ∀ x ∈ rest, m ≤ key x) (hf : f ≤ m) :
    onward key l m = onward key read m ++ rest := by
  rw [← onward_onward hf, hl, onward_append, onward_eq_self hrest]

end

section
variable {p : α → Bool} {before rest : List α} {x : α}

/-- What comes after the first entry of a kind. -/
def after (p : α → Bool) (l : List α) : List α := (l.dropWhile fun x => !p x).drop 1

theorem after_suffix (p : α → Bool) (l : List α) : ∃ before, before ++ after p l = l :=
  (drop_suffix 1 _).trans (dropWhile_suffix fun x => !p x)

theorem after_append (hpre : ∀ y ∈ before, p y = false) (hx : p x = true) : after p (before ++ x :: rest) = rest := by
  have hskip : ∀ y ∈ before, (!p y) = true := fun y hy => by rw [hpre y hy, Bool.not_false]
  rw [after, dropWhile_append_of_pos hskip, dropWhile_cons_of_neg (by simp [hx]), drop_one, tail_cons]

end

end Delego.Data
