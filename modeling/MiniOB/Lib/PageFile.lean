import Mathlib

/-!
# Files of pages

A file is a list of pages, each in use or free, that is addressed by integers. A new page is
the first free one, or one appended to the file.
-/

/-- A file of pages with contents in `α`. -/
abbrev PageFile (α : Type) := List (Option α)

namespace PageFile

variable {α : Type}

/-- The contents of a page in use. -/
def get (file : PageFile α) (page : Int) : Option α :=
  if page < 0 then none else file[page.toNat]?.join

/-- Replace the contents of a page, or free it. -/
def set (file : PageFile α) (page : Int) (x : Option α) : PageFile α :=
  if page < 0 then file else List.set file page.toNat x

/-- The page that is taken into use next. -/
def next (file : PageFile α) : Nat := file.findIdx Option.isNone

/-- Take a page into use. -/
def allocate (file : PageFile α) (x : α) : PageFile α :=
  if file.next < file.length then List.set file file.next (some x) else file ++ [some x]

variable {file : PageFile α} {page : Int} {x y : α}

theorem nonneg_of_get (h : file.get page = some x) : 0 ≤ page := by
  rw [get] at h
  split at h
  · contradiction
  · omega

theorem get_set_self (h : file.get page = some x) (y : Option α) :
  (file.set page y).get page = y
  := by
  have hpos := nonneg_of_get h
  rw [get, if_neg (by omega)] at h
  have hlt : page.toNat < file.length := by
    by_contra hge
    rw [List.getElem?_eq_none (by omega)] at h
    contradiction
  rw [set, if_neg (by omega), get, if_neg (by omega), List.getElem?_set_self hlt]
  rfl

theorem get_set_of_ne {page' : Int} (hne : page' ≠ page) (y : Option α) :
  (file.set page y).get page' = file.get page'
  := by
  rw [set]
  split
  · rfl
  rw [get, get]
  split
  · rfl
  rw [List.getElem?_set_ne]
  omega

theorem set_get (file : PageFile α) (page : Int) : file.set page (file.get page) = file := by
  rw [set, get]
  split_ifs with hneg
  · rfl
  · by_cases hlt : page.toNat < file.length
    · rw [List.getElem?_eq_getElem hlt]
      exact List.set_getElem_self hlt
    · exact List.set_eq_of_length_le (not_lt.mp hlt)

theorem get_set_none (file : PageFile α) (page : Int) : (file.set page none).get page = none := by
  rw [set]
  split_ifs with hneg
  · rw [get, if_pos hneg]
  · rw [get, if_neg hneg, List.getElem?_set_self']
    cases file[page.toNat]? <;> rfl

/-- The pages of a list are free when each of them has been freed. -/
theorem get_foldl_set_none (freed : List Int) (file : PageFile α) :
  (freed.foldl (fun file page => file.set page none) file).get page
    = if page ∈ freed then none else file.get page
  := by
  induction freed generalizing file with
  | nil => rfl
  | cons first freed ih =>
    rw [List.foldl_cons, ih]
    by_cases heq : page = first
    · subst heq
      rw [get_set_none, if_pos List.mem_cons_self, ite_self]
    · rw [get_set_of_ne heq]
      simp [heq]

theorem next_le_length (file : PageFile α) : file.next ≤ file.length := List.findIdx_le_length

/-- The next page is free. -/
theorem get_next : file.get file.next = none := by
  rw [get, if_neg (by omega), Int.toNat_natCast]
  by_cases hlt : file.next < file.length
  · have hfree : (file[file.next]).isNone := List.findIdx_getElem
    rw [List.getElem?_eq_getElem hlt]
    simpa using hfree
  · rw [List.getElem?_eq_none (by omega)]
    rfl

theorem get_allocate_next : (file.allocate x).get file.next = some x := by
  rw [allocate, get, if_neg (by omega), Int.toNat_natCast]
  split
  · rename_i hlt
    rw [List.getElem?_set_self hlt]
    rfl
  · have hnext : file.next = file.length := by
      have hle := file.next_le_length
      omega
    rw [hnext, List.getElem?_append_right (Nat.le_refl _)]
    simp

theorem get_allocate_of_ne (hne : page ≠ file.next) : (file.allocate x).get page = file.get page := by
  rw [allocate, get, get]
  split
  · rfl
  split
  · rw [List.getElem?_set_ne]
    omega
  · have hle := file.next_le_length
    by_cases hlt : page.toNat < file.length
    · rw [List.getElem?_append_left hlt]
    · rw [List.getElem?_eq_none, List.getElem?_eq_none (by omega)]
      rw [List.length_append, List.length_singleton]
      omega

end PageFile
