import Mathlib.Logic.Relation
import Ketone.Exfat.PathResolution

/-! The directories that a path leads through: as openings that the loop over the path passes, and
as what the volume says. -/

namespace Ketone.Exfat.Descent
open Library Library.Loop Library.Components Volume OpenFile Lookup PathResolution

section
variable (machine : Machine) (fs : ExfatInstance)

def start (path : CString) (trace : Trace) : Opening := ⟨path.bytes.dropWhile (· = SLASH), fs.rootCluster, trace⟩

def Descends (o o' : Opening) : Prop := ∃ bound, openBody machine fs bound o = some (.again o')

def Reaches (path : CString) (trace : Trace) (o : Opening) : Prop :=
  Relation.ReflTransGen (Descends machine fs) (start fs path trace) o

def walkStart (o : Opening) : Walk :=
  ⟨o.directoryCluster, machine.stale o.trace.reads, (o.trace.kalloc (clusterSize fs)).2⟩

def walkOf (o : Opening) : Walk → Turn Walk Walked := walkBody machine fs (piece SLASH o.current) o.trace.heap.length

/-- What is looked up where: the components of the path in the root, and those behind a directory's
name in that directory. -/
inductive LooksUp (path : CString) (reads : List (BitVec 64)) : List (BitVec 64) → BitVec 32 → List Str → Prop where
  | root : LooksUp path reads reads fs.rootCluster path.components
  | down {before cluster component other rest entry left} (looks : LooksUp path reads before cluster (component :: other :: rest))
      (finds : Finds machine fs component (machine.stale before) before cluster (some entry) left)
      (directory : IsDirectory entry) : LooksUp path reads left entry.firstCluster (other :: rest)

end

section
variable {machine : Machine} {fs : ExfatInstance} {path : CString} {trace : Trace} {o o' : Opening}

theorem openFile_eq (bound : Nat) :
    openFile machine fs path.bytes bound trace = runPartial (openBody machine fs bound) bound (start fs path trace) :=
  rfl

theorem afterWalk_again {next : Str} {block : Nat} {walked : Walked}
    (again : afterWalk next block walked = .again o') :
    ∃ held trace, walked = .directoryDone (some held) trace ∧ next ≠ [] ∧ IsDirectory held.entry ∧
      o' = ⟨next, held.entry.firstCluster, held.kfree (trace.kfree block)⟩ := by
  cases walked with
  | unreadable trace => simp [afterWalk] at again
  | directoryDone found trace =>
    cases found with
    | none => simp [afterWalk] at again
    | some held =>
      change (if next = [] then _ else if IsDirectory held.entry then _ else _) = _ at again
      by_cases last : next = []
      · rw [if_pos last] at again
        simp at again
      · rw [if_neg last] at again
        by_cases directory : IsDirectory held.entry
        · rw [if_pos directory] at again
          exact ⟨held, trace, rfl, last, directory, (Turn.again.inj again).symm⟩
        · rw [if_neg directory] at again
          simp at again

/-- The entry that is returned is the one that the walk for the last component has found. -/
theorem afterWalk_returned {next : Str} {block : Nat} {walked : Walked} {held : Held} {trace' : Trace}
    (left : afterWalk next block walked = .leave (.returned (some held), trace')) :
    ∃ trace, walked = .directoryDone (some held) trace ∧ next = [] ∧ trace' = trace.kfree block := by
  cases walked with
  | unreadable trace => simp [afterWalk] at left
  | directoryDone found trace =>
    cases found with
    | none => simp [afterWalk] at left
    | some other =>
      change (if next = [] then _ else if IsDirectory other.entry then _ else _) = _ at left
      by_cases last : next = []
      · rw [if_pos last] at left
        obtain ⟨same, rfl⟩ := Prod.mk.inj (Turn.leave.inj left)
        rw [Option.some.inj (Outcome.returned.inj same)]
        exact ⟨trace, rfl, last, rfl⟩
      · rw [if_neg last] at left
        split at left <;> simp at left

/-- A descent: the component in front has been found, and it is a directory with more behind it. -/
theorem descends_iff (cursor : Cursor o.current) : Descends machine fs o o' ↔
    o.current ≠ [] ∧ (piece SLASH o.current).length ≤ 255 ∧ ∃ held trace,
      Returns (walkOf machine fs o) (walkStart machine fs o) (.directoryDone (some held) trace) ∧
      next SLASH o.current ≠ [] ∧ IsDirectory held.entry ∧
      o' = ⟨next SLASH o.current, held.entry.firstCluster, held.kfree (trace.kfree o.trace.heap.length)⟩ := by
  constructor
  · rintro ⟨bound, turn⟩
    have more : o.current ≠ [] := by
      intro empty
      rw [openBody_end bound empty] at turn
      simp at turn
    by_cases short : (piece SLASH o.current).length ≤ 255
    · rw [openBody_component bound cursor more short] at turn
      obtain ⟨walked, ended, again⟩ := Option.map_eq_some_iff.mp turn
      obtain ⟨held, trace, rfl, more', directory, same⟩ := afterWalk_again again
      exact ⟨more, short, held, trace, ⟨bound, ended⟩, more', directory, same⟩
    · rw [openBody_smashed bound cursor more (by omega)] at turn
      simp at turn
  · rintro ⟨more, short, held, trace, ⟨bound, ended⟩, more', directory, rfl⟩
    refine ⟨bound, ?_⟩
    rw [openBody_component bound cursor more short]
    refine (congrArg (Option.map _) ended).trans ?_
    rw [Option.map_some, afterWalk, if_neg more', if_pos directory]

/-- The directories reached are those that the volume says. -/
theorem Reaches.looksUp (reaches : Reaches machine fs path trace o) : Cursor o.current ∧
    LooksUp machine fs path trace.reads o.trace.reads o.directoryCluster (components SLASH o.current) := by
  induction reaches with
  | refl =>
    refine ⟨cursor_skip path.whole, ?_⟩
    have same : components SLASH (path.bytes.dropWhile (· = SLASH)) = path.components := components_skip path.bytes
    unfold start
    rw [same]
    exact .root
  | @tail o o' _ descends ih =>
    obtain ⟨cursor, looks⟩ := ih
    obtain ⟨more, short, held, trace', ⟨bound, ended⟩, more', directory, rfl⟩ := (descends_iff cursor).mp descends
    refine ⟨cursor.next, ?_⟩
    obtain ⟨entry, left, finds, walks⟩ := finds_of_run cursor.piece_whole (fun p changed => absurd rfl changed) ended
    cases walks with
    | found held heap =>
      rw [cursor.split more] at looks
      dsimp only
      rw [cursor.next.split more'] at looks ⊢
      exact .down looks finds directory

/-- What the volume says is looked up the loop over the path comes to, if no component that it comes to is too long. -/
theorem reaches_of_looksUp
    (short : ∀ o, Reaches machine fs path trace o → o.current ≠ [] → (piece SLASH o.current).length ≤ 255)
    {reads : List (BitVec 64)} {cluster : BitVec 32} {todo : List Str}
    (looks : LooksUp machine fs path trace.reads reads cluster todo) :
    ∃ o, Reaches machine fs path trace o ∧ o.trace.reads = reads ∧ o.directoryCluster = cluster ∧
      components SLASH o.current = todo := by
  induction looks with
  | root => exact ⟨start fs path trace, .refl, rfl, rfl, components_skip path.bytes⟩
  | @down before cluster component other rest entry left _ finds directory ih =>
    obtain ⟨o, reaches, rfl, rfl, same⟩ := ih
    have cursor := reaches.looksUp.1
    have more := not_end_of_components same
    have behind : components SLASH (next SLASH o.current) = other :: rest := (cursor.rest_eq same).symm
    have more' : next SLASH o.current ≠ [] := by
      rw [ne_eq, cursor.next.end_iff_components, behind]
      apply List.cons_ne_nil
    rw [cursor.split more, List.cons.injEq] at same
    obtain ⟨rfl, _⟩ := same
    obtain ⟨walked, ⟨least, ended⟩, walks⟩ := walk_finds cursor.piece_whole o.trace.heap.length finds
      (o.trace.kalloc (clusterSize fs)).2.heap fun _ changed => absurd rfl changed
    cases walks with
    | found held heap =>
      have descends := (descends_iff cursor).mpr
        ⟨more, short o reaches more, held, _, ⟨least, ended⟩, more', directory, rfl⟩
      exact ⟨_, reaches.tail descends, rfl, rfl, behind⟩

theorem runPartial_descends {bound : Nat} {result : Outcome × Trace} (descends : Descends machine fs o o')
    (ended : runPartial (openBody machine fs bound) bound o = some result) :
    ∃ bound', runPartial (openBody machine fs bound') bound' o' = some result := by
  obtain ⟨bound', again⟩ := descends
  cases bound with
  | zero => simp [runPartial] at ended
  | succ bound =>
    refine ⟨bound + 1, ?_⟩
    cases turn : openBody machine fs (bound + 1) o with
    | none => simp [runPartial, turn] at ended
    | some other =>
      have first := openBody_mono (Nat.le_max_left (bound + 1) bound') o other turn
      have second := openBody_mono (Nat.le_max_right (bound + 1) bound') o _ again
      obtain rfl := Option.some.inj (first.symm.trans second)
      rw [runPartial_again _ turn] at ended
      exact runPartial_mono (fun _ _ same => same) (Nat.le_succ bound) ended

theorem runPartial_reaches {bound : Nat} {result : Outcome × Trace} (reaches : Reaches machine fs path trace o)
    (ended : openFile machine fs path.bytes bound trace = some result) :
    ∃ bound', runPartial (openBody machine fs bound') bound' o = some result := by
  induction reaches with
  | refl => exact ⟨bound, ended⟩
  | tail _ descends ih =>
    obtain ⟨bound', ended'⟩ := ih
    exact runPartial_descends descends ended'

/-- The call ends with what some opening that it passes ends with. -/
theorem leaves_of_opens {result : Outcome × Trace} (opens : Opens machine fs path.bytes trace result) :
    ∃ o bound, Reaches machine fs path trace o ∧ openBody machine fs bound o = some (.leave result) := by
  obtain ⟨bound, ended⟩ := opens
  have leaves : ∀ todo o, Reaches machine fs path trace o → runPartial (openBody machine fs bound) todo o = some result →
      ∃ o', Reaches machine fs path trace o' ∧ openBody machine fs bound o' = some (.leave result) := by
    intro todo
    induction todo with
    | zero =>
      intro o _ ended
      simp [runPartial] at ended
    | succ todo ih =>
      intro o reaches ended
      cases turn : openBody machine fs bound o with
      | none => simp [runPartial, turn] at ended
      | some next =>
        cases next with
        | again o' =>
          rw [runPartial_again _ turn] at ended
          exact ih o' (reaches.tail ⟨bound, turn⟩) ended
        | leave last =>
          rw [runPartial_leave _ turn] at ended
          obtain rfl := Option.some.inj ended
          exact ⟨o, reaches, turn⟩
  obtain ⟨o, reaches, left⟩ := leaves bound _ .refl ended
  exact ⟨o, bound, reaches, left⟩

theorem opens_of_reaches {bound : Nat} {result : Outcome × Trace} (reaches : Reaches machine fs path trace o)
    (leaves : openBody machine fs bound o = some (.leave result)) : Opens machine fs path.bytes trace result := by
  have ends : ∃ bound', runPartial (openBody machine fs bound') bound' (start fs path trace) = some result := by
    unfold Reaches at reaches
    generalize start fs path trace = first at reaches
    induction reaches using Relation.ReflTransGen.head_induction_on with
    | refl => exact ⟨bound + 1, runPartial_leave _ (openBody_mono (Nat.le_succ bound) o _ leaves)⟩
    | @head first second descends _ ih =>
      obtain ⟨small, again⟩ := descends
      obtain ⟨bound', ended⟩ := ih
      refine ⟨max small bound' + 1, ?_⟩
      rw [runPartial_again _ (openBody_mono (by omega) first _ again)]
      exact runPartial_mono (openBody_mono (by omega)) (by omega) ended
  exact ends

/-- The call comes to a turn of the walk over the directory of an opening. -/
structure Walking (machine : Machine) (fs : ExfatInstance) (path : CString) (trace : Trace) (o : Opening) (w : Walk) :
    Prop where
  reaches : Reaches machine fs path trace o
  more : o.current ≠ []
  short : (piece SLASH o.current).length ≤ 255
  passed : ∃ k, nth (onward (walkOf machine fs o)) k (walkStart machine fs o) = some w

theorem Walking.leaves {w : Walk} {walked : Walked} (walking : Walking machine fs path trace o w)
    (left : walkOf machine fs o w = .leave walked) : ∃ bound,
      openBody machine fs bound o = some (afterWalk (next SLASH o.current) o.trace.heap.length walked) := by
  obtain ⟨k, passed⟩ := walking.passed
  have ended : run (walkOf machine fs o) (k + 1) (walkStart machine fs o) = some walked := by
    rw [run_nth passed]
    exact run_leave 0 left
  refine ⟨k + 1, ?_⟩
  rw [openBody_component (k + 1) walking.reaches.looksUp.1 walking.more walking.short]
  exact congrArg (Option.map _) ended

end

end Ketone.Exfat.Descent
