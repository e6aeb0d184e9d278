import Ketone.Exfat.Descent
import Ketone.Exfat.SteadyVolume

/-! When the call that opens a file ends: the walk over a directory has no bound of its own. -/

namespace Ketone.Exfat.LookupEnds
open Library Library.Loop Library.Components Volume OpenFile Lookup PathResolution SteadyVolume Descent

/-- One of the first clusters of a chain cannot be read, shows the name or an unused entry, or is the
last one. -/
def EndsWithin (machine : Machine) (fs : ExfatInstance) (component : Str) (stale : Buffer) :
    Nat → List (BitVec 64) → BitVec 32 → Prop
  | 0, _, _ => False
  | n + 1, reads, cluster =>
      match showCluster machine fs stale reads cluster with
      | (none, _) => True
      | (some page, seen) =>
          ((fileSets fs page (positions fs)).find? (Named component ·)).isSome = true ∨
          ¬ (∀ i ∈ positions fs, Used page i) ∨
          END_OF_CHAIN ≤ (chain machine fs seen cluster).1 ∨
          EndsWithin machine fs component stale n (chain machine fs seen cluster).2 (chain machine fs seen cluster).1

section
variable (machine : Machine) (fs : ExfatInstance) (path : CString) (trace : Trace)

/-- The call returns, and none of its walks visits more clusters than the volume has. -/
def CallEnds : Prop :=
  (∃ found trace', Opens machine fs path.bytes trace (.returned found, trace')) ∧
  ∀ o, Reaches machine fs path trace o → o.current ≠ [] →
    nth (onward (walkOf machine fs o)) fs.clusterCount.toNat (walkStart machine fs o) = none

/-- Every component that comes to be looked up fits its array, and in its directory one of as many
clusters as the volume has ends the walk. -/
def ChainsEnd : Prop :=
  ∀ reads cluster component rest, LooksUp machine fs path trace.reads reads cluster (component :: rest) →
    component.length ≤ 255 ∧
    EndsWithin machine fs component (machine.stale reads) fs.clusterCount.toNat reads cluster

end

section
variable {machine : Machine} {fs : ExfatInstance} {path : CString} {trace : Trace} {component : Str} {stale : Buffer}

/-- The walk does not come to an `n`-th cluster exactly when one before it ends the walk. -/
theorem nth_none_iff_endsWithin (whole : 0 ∉ component) (block n : Nat) (w : Walk)
    (differ : ∀ p, w.buffer p ≠ stale p → Overwritten fs 0 (sectorsPerCluster fs).toNat p) :
    nth (onward (walkBody machine fs component block)) n w = none ↔
      EndsWithin machine fs component stale n w.trace.reads w.cluster := by
  induction n generalizing w with
  | zero => simp [nth, EndsWithin]
  | succ n ih =>
    unfold EndsWithin
    rw [nth]
    rcases walkBody_cases whole block w differ with ⟨seen, heap, shown, leaves⟩ | ⟨page, seen, shown, cases⟩
    · rw [shown, onward_leave leaves]
      exact iff_of_true rfl trivial
    rw [shown]
    dsimp only
    rcases cases with ⟨held, heap, first, leaves⟩ | ⟨missing, ⟨unused, heap, leaves⟩ |
      ⟨full, behind, known, heap, follows, turn⟩⟩
    · rw [first, onward_leave leaves]
      exact iff_of_true rfl (Or.inl rfl)
    · rw [onward_leave leaves]
      exact iff_of_true rfl (Or.inr (Or.inl unused))
    · rw [missing, follows]
      by_cases stop : END_OF_CHAIN ≤ behind
      · rw [if_pos stop] at turn
        rw [onward_leave turn]
        exact iff_of_true rfl (Or.inr (Or.inr (Or.inl stop)))
      · rw [if_neg stop] at turn
        rw [onward_again turn, Option.bind_some, ih _ (showCluster_frame shown)]
        constructor
        · intro within
          exact Or.inr (Or.inr (Or.inr within))
        · rintro (found | unused | last | within)
          · simp at found
          · exact absurd full unused
          · exact absurd last stop
          · exact within

theorem returns_of_nth_none {body : Walk → Turn Walk Walked} {n : Nat} {w : Walk}
    (none : nth (onward body) n w = none) : ∃ walked, run body n w = some walked := by
  cases ended : run body n w with
  | some walked => exact ⟨walked, rfl⟩
  | none =>
    obtain ⟨last, passed⟩ := run_none_iff.mp ended
    rw [none] at passed
    simp at passed

theorem afterWalk_leave {next : Str} {block : Nat} {walked : Walked} {result : Outcome × Trace}
    (left : afterWalk next block walked = .leave result) : ∃ found, (Outcome.returned found, result.2) = result := by
  cases walked with
  | unreadable trace => exact ⟨none, by rw [← Turn.leave.inj left]⟩
  | directoryDone found trace =>
    cases found with
    | none => exact ⟨none, by rw [← Turn.leave.inj left]⟩
    | some held =>
      change (if next = [] then _ else if IsDirectory held.entry then _ else _) = _ at left
      split at left
      · exact ⟨some held, by rw [← Turn.leave.inj left]⟩
      · split at left
        · simp at left
        · exact ⟨none, by rw [← Turn.leave.inj left]⟩

theorem short_of_returned {o : Opening} {bound : Nat} {found : Option Held} {trace' : Trace}
    (returned : openFile machine fs path.bytes bound trace = some (.returned found, trace'))
    (reaches : Reaches machine fs path trace o) (more : o.current ≠ []) : (piece SLASH o.current).length ≤ 255 := by
  by_contra long
  obtain ⟨bound', ended⟩ := runPartial_reaches reaches returned
  cases bound' with
  | zero => simp [runPartial] at ended
  | succ bound' =>
    rw [runPartial_leave _ (openBody_smashed _ reaches.looksUp.1 more (by omega))] at ended
    simp at ended

theorem walk_bounded_iff {o : Opening} (cursor : Cursor o.current) (n : Nat) :
    nth (onward (walkOf machine fs o)) n (walkStart machine fs o) = none ↔
      EndsWithin machine fs (piece SLASH o.current) (machine.stale o.trace.reads) n o.trace.reads
        o.directoryCluster :=
  nth_none_iff_endsWithin cursor.piece_whole _ n (walkStart machine fs o) fun _ changed => absurd rfl changed

/-- From every opening reached the loop over the path ends. -/
theorem returns_of_chainsEnd (ends : ChainsEnd machine fs path trace) {todo : List Str} {o : Opening}
    (reaches : Reaches machine fs path trace o) (same : components SLASH o.current = todo) :
    ∃ bound found trace', runPartial (openBody machine fs bound) bound o = some (.returned found, trace') := by
  induction todo generalizing o with
  | nil =>
    have done := reaches.looksUp.1.end_iff_components.mpr same
    exact ⟨1, none, o.trace, runPartial_leave 0 (openBody_end 1 done)⟩
  | cons component rest ih =>
    obtain ⟨cursor, looks⟩ := reaches.looksUp
    have more := not_end_of_components same
    rw [cursor.split more] at looks
    obtain ⟨short, within⟩ := ends _ _ _ _ looks
    obtain ⟨walked, ended⟩ := returns_of_nth_none ((walk_bounded_iff cursor _).mpr within)
    have turn : ∀ bound, fs.clusterCount.toNat ≤ bound → openBody machine fs bound o =
        some (afterWalk (next SLASH o.current) o.trace.heap.length walked) := by
      intro bound enough
      rw [openBody_component bound cursor more short]
      exact congrArg (Option.map _) (run_mono enough ended)
    cases after : afterWalk (next SLASH o.current) o.trace.heap.length walked with
    | leave result =>
      obtain ⟨found, returned⟩ := afterWalk_leave after
      rw [after] at turn
      refine ⟨fs.clusterCount.toNat + 1, found, result.2, ?_⟩
      rw [runPartial_leave _ (turn _ (Nat.le_succ _)), ← returned]
    | again o' =>
      rw [after] at turn
      have reaches' : Reaches machine fs path trace o' := reaches.tail ⟨_, turn _ (Nat.le_refl _)⟩
      obtain ⟨held, trace', _, _, _, rfl⟩ := afterWalk_again after
      have behind : components SLASH (next SLASH o.current) = rest := (cursor.rest_eq same).symm
      obtain ⟨bound, found, trace', ended'⟩ := ih reaches' behind
      refine ⟨max fs.clusterCount.toNat bound + 1, found, trace', ?_⟩
      rw [runPartial_again _ (turn _ (by omega))]
      exact runPartial_mono (openBody_mono (by omega)) (by omega) ended'

/-- For every volume, table, path and answers of the drive: the call returns, with walks no longer
than the volume has clusters, exactly when in each directory that it comes to one of as many
clusters of the chain ends the walk, and no component is too long. -/
theorem call_ends_iff (machine : Machine) (fs : ExfatInstance) (path : CString) (trace : Trace) :
    CallEnds machine fs path trace ↔ ChainsEnd machine fs path trace := by
  constructor
  · rintro ⟨⟨found, trace', bound, returned⟩, walks⟩ reads cluster component rest looks
    obtain ⟨o, reaches, rfl, rfl, same⟩ := reaches_of_looksUp (fun o => short_of_returned returned) looks
    have cursor := reaches.looksUp.1
    have more := not_end_of_components same
    have within := (walk_bounded_iff cursor _).mp (walks o reaches more)
    rw [cursor.split more, List.cons.injEq] at same
    rw [← same.1]
    exact ⟨short_of_returned returned reaches more, within⟩
  · intro ends
    refine ⟨?_, ?_⟩
    · obtain ⟨bound, found, trace', ended⟩ := returns_of_chainsEnd ends .refl rfl
      exact ⟨found, trace', bound, ended⟩
    · intro o reaches more
      obtain ⟨cursor, looks⟩ := reaches.looksUp
      rw [cursor.split more] at looks
      exact (walk_bounded_iff cursor _).mpr (ends _ _ _ _ looks).2

end

/-- A volume of erased entries, on which cluster 2 is behind cluster 2. -/
def looped : Machine :=
  ⟨fun _ lba => some (if lba = 1 then fun p => if p = 8 then 2 else 0 else fun _ => 0x05), fun _ _ => 0⟩

theorem looped_endless (n : Nat) (reads : List (BitVec 64)) :
    ¬ EndsWithin looped smallVolume [0x66] (fun _ => 0) n reads 2 := by
  induction n generalizing reads with
  | zero => exact id
  | succ n ih =>
    have shown : showCluster looped smallVolume (fun _ => 0) reads 2 =
        (some (fill (fun _ => 0) 0 fun _ => 0x05), reads ++ [2]) := rfl
    have steady : Steady looped smallVolume := steady_of_drive (fun _ => rfl) (by decide)
    have behind : (chain looped smallVolume (reads ++ [2]) 2).1 = 2 := (steady.table _ _).trans (by decide +kernel)
    have missing : (fileSets smallVolume (fill (fun _ => 0) 0 fun _ => 0x05) (positions smallVolume)).find?
        (Named [0x66] ·) = none := by decide +kernel
    have full : ∀ i ∈ positions smallVolume, Used (fill (fun _ => 0) 0 fun _ => 0x05) i := by decide +kernel
    unfold EndsWithin
    rw [shown]
    dsimp only
    rw [missing, behind]
    rintro (found | unused | last | within)
    · simp at found
    · exact unused full
    · exact absurd last (by decide)
    · exact ih _ within

/-- Every read succeeds, and the call never returns. -/
theorem looped_call_endless : (∀ reads lba, (looped.drive reads lba).isSome = true) ∧
    (∀ outcome, ¬ Opens looped smallVolume shortPath.bytes ⟨[], []⟩ outcome) ∧
    ¬ CallEnds looped smallVolume shortPath ⟨[], []⟩ := by
  have endless : ∀ outcome, ¬ Opens looped smallVolume shortPath.bytes ⟨[], []⟩ outcome := by
    rintro outcome ⟨bound, returned⟩
    have cursor : Cursor (start smallVolume shortPath ⟨[], []⟩).current := cursor_skip shortPath.whole
    have turn := @openBody_component looped smallVolume bound _ cursor (by decide) (by decide)
    have goes : ∀ n, run (walkOf looped smallVolume (start smallVolume shortPath ⟨[], []⟩)) n
        (walkStart looped smallVolume (start smallVolume shortPath ⟨[], []⟩)) = none := by
      intro n
      cases ended : run (walkOf looped smallVolume (start smallVolume shortPath ⟨[], []⟩)) n
        (walkStart looped smallVolume (start smallVolume shortPath ⟨[], []⟩)) with
      | none => rfl
      | some walked =>
        refine absurd ((walk_bounded_iff cursor n).mp ?_) (looped_endless n [])
        by_contra passed
        obtain ⟨last, passed⟩ := Option.ne_none_iff_exists'.mp passed
        rw [run_none_iff.mpr ⟨last, passed⟩] at ended
        simp at ended
    have stuck : openBody looped smallVolume bound (start smallVolume shortPath ⟨[], []⟩) = none :=
      turn.trans (congrArg (Option.map _) (goes bound))
    cases bound with
    | zero => simp [openFile, runPartial] at returned
    | succ bound =>
      rw [openFile_eq, runPartial, stuck] at returned
      simp at returned
  exact ⟨fun _ _ => rfl, endless, fun ends => ends.1.elim fun found some => some.elim fun _ opens => endless _ opens⟩

end Ketone.Exfat.LookupEnds
