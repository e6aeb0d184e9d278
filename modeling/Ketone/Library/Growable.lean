import Mathlib.Data.List.Basic

/-! An array that is copied into a larger buffer whenever it is full, and at last into one that fits. -/

namespace Ketone.Library

/-- `cells` is the memory of the buffer, of which `size` cells are its own and `count` are in use. -/
structure Growable (α : Type) where
  size : Nat
  cells : Nat → α
  count : Nat

namespace Growable

/-- What a fresh buffer of a given number of cells happens to hold. -/
abbrev Fresh (α : Type) := Nat → Nat → α

section
variable {α : Type} (fresh : Fresh α)

def empty (size : Nat) : Growable α := ⟨size, fresh size, 0⟩

def grow (step : Nat) (array : Growable α) : Growable α :=
  if array.count ≥ array.size then
    { array with
      size := array.size + step
      cells := fun k => if k < array.size then array.cells k else fresh (array.size + step) k }
  else array

def push (step : Nat) (array : Growable α) (item : α) : Growable α :=
  let array := array.grow fresh step
  { array with
    cells := fun k => if k = array.count then item else array.cells k
    count := array.count + 1 }

def shrink (array : Growable α) : Growable α :=
  if array.size > array.count then
    { array with
      size := array.count
      cells := fun k => if k < array.count then array.cells k else fresh array.count k }
  else array

/-- The cells a caller that is told the size may read. -/
def contents (array : Growable α) : List α := (List.range array.size).map array.cells

/-- The cells in use hold a list, and they are the buffer's own. -/
structure Holds (items : List α) (array : Growable α) : Prop where
  count : array.count = items.length
  room : array.count ≤ array.size
  held : (List.range items.length).map array.cells = items

theorem holds_empty (size : Nat) : Holds [] (Growable.empty fresh size) := ⟨rfl, Nat.zero_le _, rfl⟩

variable {fresh}

theorem map_range_congr {first second : Nat → α} {n : Nat} (same : ∀ k, k < n → first k = second k) :
    (List.range n).map first = (List.range n).map second :=
  List.map_congr_left fun k member => same k (List.mem_range.mp member)

theorem holds_grow {items : List α} {array : Growable α} {step : Nat} (some : 0 < step)
    (holds : Holds items array) :
    Holds items (array.grow fresh step) ∧ (array.grow fresh step).count < (array.grow fresh step).size := by
  obtain ⟨count, room, held⟩ := holds
  unfold Growable.grow
  by_cases full : array.count ≥ array.size
  · rw [if_pos full]
    refine ⟨⟨count, by dsimp only; omega, ?_⟩, by dsimp only; omega⟩
    conv_rhs => rw [← held]
    exact map_range_congr fun k below => if_pos (by omega)
  · rw [if_neg full]
    exact ⟨⟨count, room, held⟩, by omega⟩

theorem holds_push {items : List α} {array : Growable α} {step : Nat} (some : 0 < step)
    (holds : Holds items array) (item : α) : Holds (items ++ [item]) (array.push fresh step item) := by
  obtain ⟨⟨count, room, held⟩, free⟩ := @holds_grow α fresh items array step some holds
  unfold Growable.push
  generalize array.grow fresh step = grown at *
  refine ⟨?_, free, ?_⟩
  · rw [List.length_append, ← count]
    rfl
  · rw [List.length_append, List.length_singleton, List.range_succ, List.map_append, List.map_singleton]
    dsimp only
    rw [if_pos count.symm]
    congr 1
    conv_rhs => rw [← held]
    exact map_range_congr fun k below => if_neg (by omega)

/-- Pushing the items that pass a test leaves the list of them. -/
theorem holds_filter {step : Nat} (some : 0 < step) (keep : α → Bool) (all : List α) {items : List α}
    {array : Growable α} (holds : Holds items array) :
    Holds (items ++ all.filter keep)
      (all.foldl (fun array item => if keep item then array.push fresh step item else array) array) := by
  induction all generalizing items array with
  | nil =>
    rw [List.filter_nil, List.append_nil]
    exact holds
  | cons item rest ih =>
    rw [List.foldl_cons]
    cases test : keep item with
    | false =>
      rw [List.filter_cons_of_neg (by simp [test])]
      exact ih holds
    | true =>
      rw [List.filter_cons_of_pos test, ← List.singleton_append, ← List.append_assoc]
      exact ih (holds_push some holds item)

/-- A caller reads exactly the list. -/
theorem contents_shrink {items : List α} {array : Growable α} (holds : Holds items array) :
    (array.shrink fresh).size = items.length ∧ (array.shrink fresh).contents = items := by
  obtain ⟨count, room, held⟩ := holds
  unfold Growable.shrink Growable.contents
  by_cases spare : array.size > array.count
  · rw [if_pos spare]
    refine ⟨count, ?_⟩
    dsimp only
    rw [count]
    conv_rhs => rw [← held]
    exact map_range_congr fun k below => if_pos below
  · have full : array.size = items.length := by omega
    rw [if_neg spare]
    exact ⟨full, by rw [full]; exact held⟩

end

end Growable

end Ketone.Library
