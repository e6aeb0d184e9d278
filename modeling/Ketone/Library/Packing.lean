import Ketone.Library.Align

/-! Laying requests out one behind the other in an interval, each at the next
multiple of its own size. What does not fit, or has no power of two for a size, is
passed over. -/

namespace Ketone.Library.Packing
open Align

def PowerOfTwo (size : Nat) : Prop := 2 ^ size.log2 = size

instance (size : Nat) : Decidable (PowerOfTwo size) := by
  unfold PowerOfTwo; infer_instance

theorem powerOfTwo_iff {size : Nat} : PowerOfTwo size ↔ ∃ k, size = 2 ^ k := by
  constructor
  · exact fun power => ⟨size.log2, power.symm⟩
  · rintro ⟨k, rfl⟩
    rw [PowerOfTwo, Nat.log2_two_pow]

theorem PowerOfTwo.pos {size : Nat} (power : PowerOfTwo size) : 0 < size := by
  rw [← power]
  exact Nat.two_pow_pos _

def Fits (stop next size : Nat) : Prop := PowerOfTwo size ∧ roundUp size next + size ≤ stop

instance (stop next size : Nat) : Decidable (Fits stop next size) := by
  unfold Fits; infer_instance

def layOut (stop : Nat) : Nat → List Nat → List (Option Nat)
  | _, [] => []
  | next, size :: rest =>
      if Fits stop next size then some (roundUp size next) :: layOut stop (roundUp size next + size) rest
      else none :: layOut stop next rest

section
variable {stop : Nat}

theorem layOut_length (next : Nat) (sizes : List Nat) : (layOut stop next sizes).length = sizes.length := by
  induction sizes generalizing next with
  | nil => rfl
  | cons size rest ih =>
    unfold layOut
    split
    · rw [List.length_cons, ih, List.length_cons]
    · rw [List.length_cons, ih, List.length_cons]

theorem layOut_placed {next : Nat} {sizes : List Nat} {size place : Nat}
    (member : (size, some place) ∈ sizes.zip (layOut stop next sizes)) :
    next ≤ place ∧ place + size ≤ stop ∧ size ∣ place ∧ PowerOfTwo size := by
  induction sizes generalizing next with
  | nil => simp [layOut] at member
  | cons first rest ih =>
    unfold layOut at member
    split at member
    next fits =>
      have up := le_roundUp (n := next) fits.1.pos
      rcases List.mem_cons.mp (List.zip_cons_cons ▸ member) with here | later
      · obtain ⟨rfl, same⟩ := Prod.mk.inj here
        obtain rfl := Option.some.inj same
        exact ⟨up, fits.2, dvd_roundUp, fits.1⟩
      · obtain ⟨low, high, multiple, power⟩ := ih later
        exact ⟨by omega, high, multiple, power⟩
    next =>
      rcases List.mem_cons.mp (List.zip_cons_cons ▸ member) with here | later
      · simp at here
      · exact ih later

/-- A later request is placed behind an earlier one. -/
theorem layOut_sorted (next : Nat) (sizes : List Nat) :
    (sizes.zip (layOut stop next sizes)).Pairwise fun a b =>
      ∀ low high, a.2 = some low → b.2 = some high → low + a.1 ≤ high := by
  induction sizes generalizing next with
  | nil => simp [layOut]
  | cons first rest ih =>
    unfold layOut
    split
    next fits =>
      rw [List.zip_cons_cons, List.pairwise_cons]
      refine ⟨?_, ih _⟩
      rintro ⟨size, placed⟩ member low high same same'
      obtain rfl := Option.some.inj same
      dsimp only at same'
      exact (layOut_placed (same' ▸ member)).1
    next =>
      rw [List.zip_cons_cons, List.pairwise_cons]
      exact ⟨fun _ _ _ _ same => by simp at same, ih _⟩

end

end Ketone.Library.Packing
