import Mathlib.Data.List.Basic

/-! Trees with named branches, and what a path of names leads to. -/

namespace Ketone.Library.NameTree

inductive Tree (ν δ : Type) where
  | leaf (data : δ)
  | branch (children : List (ν × Tree ν δ))

section
variable {ν δ : Type} [DecidableEq ν]

def Tree.child : Tree ν δ → ν → Option (Tree ν δ)
  | .leaf _, _ => none
  | .branch children, name => (children.find? (·.1 = name)).map Prod.snd

def Tree.lookup (tree : Tree ν δ) : List ν → Option (Tree ν δ)
  | [] => some tree
  | name :: rest => (tree.child name).bind (·.lookup rest)

theorem Tree.child_branch (children : List (ν × Tree ν δ)) (name : ν) :
    (branch children).child name = (children.find? (·.1 = name)).map Prod.snd := rfl

/-- Records of the children under their names lead to the same child as the name itself. -/
theorem find_record {α : Type} {records : List α} {key : α → ν} {children : List (ν × Tree ν δ)}
    (names : records.map key = children.map Prod.fst) (name : ν) :
    (records.find? (key · = name) = none ∧ (Tree.branch children).child name = none) ∨
    ∃ (k : Nat) (record : α) (child : ν × Tree ν δ), records[k]? = some record ∧ children[k]? = some child ∧
      records.find? (key · = name) = some record ∧ (Tree.branch children).child name = some child.2 := by
  simp only [Tree.child_branch]
  induction records generalizing children with
  | nil =>
    have none : children = [] := List.map_eq_nil_iff.mp names.symm
    exact Or.inl ⟨rfl, by simp [none]⟩
  | cons record rest ih =>
    cases children with
    | nil => simp at names
    | cons child others =>
      obtain ⟨same, names⟩ := List.cons.inj names
      by_cases here : key record = name
      · refine Or.inr ⟨0, record, child, rfl, rfl, ?_, ?_⟩
        · rw [List.find?_cons_of_pos (by simpa using here)]
        · rw [List.find?_cons_of_pos (by simpa [← same] using here)]
          rfl
      · rw [List.find?_cons_of_neg (by simpa using here), List.find?_cons_of_neg (by simpa [← same] using here)]
        rcases ih names with missing | ⟨k, record, child, first, second, found⟩
        · exact Or.inl missing
        · exact Or.inr ⟨k + 1, record, child, first, second, found⟩

end

end Ketone.Library.NameTree
