import MiniOB.Common

/-!
# Entry sets

What an index is for: a finite set of entries, with an insertion that reports an entry that
is already there and a deletion that reports one that is not.
-/

namespace MiniOB.EntrySet

variable {α : Type} [DecidableEq α]

/-- Insert an entry. -/
def insertEntry (entry : α) (entries : Finset α) : RC × Finset α :=
  if entry ∈ entries then (.recordDuplicateKey, entries) else (.success, insert entry entries)

/-- Delete an entry. -/
def deleteEntry (entry : α) (entries : Finset α) : RC × Finset α :=
  if entry ∈ entries then (.success, entries.erase entry) else (.recordNotExist, entries)

end MiniOB.EntrySet
