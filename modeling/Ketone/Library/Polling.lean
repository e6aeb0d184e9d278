import Mathlib.Logic.Function.Iterate

/-! A loop that looks at a device until it sees what it waits for, or until its patience is at an
end; every look may find the device in another state. -/

namespace Ketone.Library.Polling

section
variable {σ β : Type} (look : σ → β × σ) (done : β → Prop) [DecidablePred done]

def poll : Nat → σ → β → β × σ
  | 0, s, last => (last, s)
  | left + 1, s, _ =>
      let (seen, s) := look s
      if done seen then (seen, s) else poll left s seen

def view (s : σ) (i : Nat) : β := (look ((fun s => (look s).2)^[i] s)).1

variable {look done} {s : σ} {last : β}

theorem poll_keeps {inv : σ → Prop} (looks : ∀ s, inv s → inv (look s).2) (left : Nat) (holds : inv s) :
    inv (poll look done left s last).2 := by
  induction left generalizing s last with
  | zero => exact holds
  | succ left ih =>
    unfold poll
    dsimp only
    split
    · exact looks s holds
    · exact ih (looks s holds)

theorem poll_cases {before : σ → Prop} {after : β → σ → Prop}
    (ends : ∀ s, before s → done (look s).1 → after (look s).1 (look s).2)
    (goes : ∀ s, before s → ¬ done (look s).1 → before (look s).2) (left : Nat) (holds : before s) (fresh : ¬ done last) :
    after (poll look done left s last).1 (poll look done left s last).2 ∨
      ¬ done (poll look done left s last).1 ∧ before (poll look done left s last).2 := by
  induction left generalizing s last with
  | zero => exact Or.inr ⟨fresh, holds⟩
  | succ left ih =>
    unfold poll
    dsimp only
    split
    next seen => exact Or.inl (ends s holds seen)
    next unseen => exact ih (goes s holds unseen) unseen

theorem poll_first (left : Nat) (seen : done (look s).1) : poll look done (left + 1) s last = look s := by
  unfold poll
  dsimp only
  rw [if_pos seen]

end

end Ketone.Library.Polling
