import Mathlib.Tactic.Basic

/-! Columns that give a text back in a form of their own.

A column of type `UUID` or `INET` takes a value in several spellings, keeps the value, and gives it back in one form; what is
written to it or compared with it is first read in this way, and refused where it is no such value. Which texts it takes
is left open, but that the form it gives back is read as itself. -/
namespace Delego.Data

structure Column where
  read : String → Option String
  settled : ∀ text form, read text = some form → read form = some form

namespace Column

/-- What a column that may be `NULL` makes of a value. -/
def readOption (column : Column) : Option String → Option (Option String)
  | none => some none
  | some text => (column.read text).map some

/-- The column of some values, where `spelled` is also a spelling of `form`. -/
def of (forms : List String) (spelled form : String) : Column where
  read text := if text ∈ forms then some text else if text = spelled ∧ form ∈ forms then some form else none
  settled text form' h := by
    split at h
    · rename_i hmem
      obtain rfl := Option.some.inj h
      exact if_pos hmem
    · split at h
      · rename_i hspelled
        obtain rfl := Option.some.inj h
        exact if_pos hspelled.2
      · cases h

end Column

end Delego.Data
