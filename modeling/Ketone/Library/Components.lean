import Mathlib.Order.Basic

/-! The nonempty pieces of a list between separators, and a cursor that skips
separators, takes a piece and skips again. -/

namespace Ketone.Library.Components

section
variable {α : Type} [DecidableEq α] (sep : α)

def components (path : List α) : List (List α) := (path.splitOn sep).filter (· ≠ [])

def skip (path : List α) : List α := path.dropWhile (· = sep)

def piece (path : List α) : List α := path.takeWhile (· ≠ sep)

def next (path : List α) : List α := skip sep (path.drop (piece sep path).length)

variable {sep}

theorem components_sep (rest : List α) : components sep (sep :: rest) = components sep rest := by
  simp [components, List.splitOn, List.splitOnP_cons_eq_if_modifyHead]

theorem components_skip (path : List α) : components sep (skip sep path) = components sep path := by
  induction path with
  | nil => rfl
  | cons c rest ih =>
    by_cases here : c = sep
    · subst here
      rw [components_sep, ← ih]
      congr 1
      exact List.dropWhile_cons_of_pos (by simp)
    · congr 1
      exact List.dropWhile_cons_of_neg (by simpa using here)

theorem skip_head {path : List α} {c : α} {rest : List α} (skipped : skip sep path = c :: rest) : c ≠ sep := by
  have first := List.head?_dropWhile_not (fun c => decide (c = sep)) path
  unfold skip at skipped
  rw [skipped] at first
  simpa using first

theorem splitOn_piece (path : List α) : (path.splitOn sep).head? = some (piece sep path) ∧
    ((path.splitOn sep).tail).filter (· ≠ []) = components sep (next sep path) := by
  induction path with
  | nil => exact ⟨rfl, rfl⟩
  | cons c rest ih =>
    by_cases here : c = sep
    · subst here
      have empty : piece c (c :: rest) = [] := List.takeWhile_cons_of_neg (by simp)
      refine ⟨?_, ?_⟩
      · simp [empty, List.splitOn, List.splitOnP_cons_eq_if_modifyHead]
      · have tail : ((c :: rest).splitOn c).tail = rest.splitOn c := by
          simp [List.splitOn, List.splitOnP_cons_eq_if_modifyHead]
        rw [tail, next, empty, List.length_nil, List.drop_zero, components_skip, components_sep]
        rfl
    · have longer : piece sep (c :: rest) = c :: piece sep rest :=
        List.takeWhile_cons_of_pos (by simpa using here)
      have split : (c :: rest).splitOn sep = (rest.splitOn sep).modifyHead (c :: ·) := by
        simp [List.splitOn, List.splitOnP_cons_eq_if_modifyHead, here]
      have same : next sep (c :: rest) = next sep rest := by
        unfold next
        rw [longer]
        rfl
      rw [split, longer, same, ← ih.2]
      cases pieces : rest.splitOn sep with
      | nil => simp [pieces] at ih
      | cons first others =>
        rw [pieces] at ih
        have head := Option.some.inj ih.1
        exact ⟨by simp [head], rfl⟩

theorem components_piece {path : List α} {c : α} {rest : List α} (front : path = c :: rest) (here : c ≠ sep) :
    components sep path = piece sep path :: components sep (next sep path) := by
  obtain ⟨head, tail⟩ := @splitOn_piece _ _ sep path
  have longer : piece sep path ≠ [] := by
    have first : piece sep path = c :: piece sep rest := by
      rw [front]
      exact List.takeWhile_cons_of_pos (by simpa using here)
    rw [first]
    exact List.cons_ne_nil _ _
  rw [← tail]
  unfold components
  cases pieces : path.splitOn sep with
  | nil => simp [pieces] at head
  | cons first others =>
    rw [pieces] at head
    obtain rfl := Option.some.inj head
    exact List.filter_cons_of_pos (by simpa using longer)

end

end Ketone.Library.Components
