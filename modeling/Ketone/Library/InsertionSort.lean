import Mathlib.Data.List.Sort

/-! Insertion sort inside an array: the cells above the key move one place up, and the key
takes the place they leave. -/

namespace Ketone.Library.InsertionSort

section
variable {α : Type} (above : α → α → Prop) [DecidableRel above]

def shiftIn (cells : List α) (key : α) : Nat → List α
  | 0 => cells.set 0 key
  | place + 1 =>
      match cells[place]? with
      | some cell =>
          if above cell key then shiftIn (cells.set (place + 1) cell) key place
          else cells.set (place + 1) key
      | none => cells

def sortStep (cells : List α) (i : Nat) : List α :=
  match cells[i]? with
  | some key => shiftIn above cells key i
  | none => cells

def sortCells (cells : List α) : List α := (List.range' 1 (cells.length - 1)).foldl (sortStep above) cells

/-- The sorted part, last cell first, with a key put in behind the cells that are not above it. -/
def insertCell (sorted : List α) (key : α) : List α :=
  sorted.orderedInsert (fun key cell => ¬ above cell key) key

theorem shiftIn_eq (sorted rest : List α) (free key : α) :
    shiftIn above (sorted.reverse ++ free :: rest) key sorted.length =
      (insertCell above sorted key).reverse ++ rest := by
  induction sorted generalizing free rest with
  | nil => rfl
  | cons cell lower ih =>
    have regroup : (cell :: lower).reverse ++ free :: rest = lower.reverse ++ cell :: free :: rest := by simp
    have read : (lower.reverse ++ cell :: free :: rest)[lower.length]? = some cell := by simp
    have store (value : α) : (lower.reverse ++ cell :: free :: rest).set (lower.length + 1) value =
        lower.reverse ++ cell :: value :: rest := by
      rw [List.set_append_right _ _ (by simp)]
      simp
    rw [regroup, List.length_cons, shiftIn, read]
    dsimp only
    rw [store, store, insertCell, List.orderedInsert_cons]
    by_cases moves : above cell key
    · rw [if_pos moves, if_neg (not_not.mpr moves), ih, insertCell]
      simp
    · rw [if_neg moves, if_pos moves]
      simp

theorem sortStep_eq (sorted rest : List α) (key : α) :
    sortStep above (sorted.reverse ++ key :: rest) sorted.length =
      (insertCell above sorted key).reverse ++ rest := by
  have read : (sorted.reverse ++ key :: rest)[sorted.length]? = some key := by simp
  rw [sortStep, read]
  exact shiftIn_eq above sorted rest key key

theorem insertCell_length (sorted : List α) (key : α) :
    (insertCell above sorted key).length = sorted.length + 1 :=
  List.orderedInsert_length _ _ _

theorem foldl_sortStep (sorted rest : List α) :
    (List.range' sorted.length rest.length).foldl (sortStep above) (sorted.reverse ++ rest) =
      (rest.foldl (insertCell above) sorted).reverse := by
  induction rest generalizing sorted with
  | nil => simp
  | cons key rest ih =>
    rw [List.length_cons, List.range'_succ, List.foldl_cons, List.foldl_cons, sortStep_eq,
      ← insertCell_length above sorted key]
    exact ih (insertCell above sorted key)

theorem sortCells_eq (cells : List α) : sortCells above cells = (cells.foldl (insertCell above) []).reverse := by
  cases cells with
  | nil => rfl
  | cons first rest => exact foldl_sortStep above [first] rest

end

end Ketone.Library.InsertionSort
