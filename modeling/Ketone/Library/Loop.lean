import Mathlib.Order.Basic

/-! A `while` loop as a step function, run with an explicit bound on its
iterations. A loop that never ends runs out of every bound, so nothing is
assumed about termination until a variant has been given. -/

namespace Ketone.Library.Loop

/-- One iteration either leaves the loop with a result or starts the next one. -/
inductive Turn (σ ρ : Type) where
  | again (state : σ)
  | leave (result : ρ)

/-- What is left behind by a turn, whichever way it ends. -/
def Turn.after {σ ρ τ : Type} (state : σ → τ) (result : ρ → τ) : Turn σ ρ → τ
  | .again next => state next
  | .leave last => result last

def run {σ ρ : Type} (body : σ → Turn σ ρ) : Nat → σ → Option ρ
  | 0, _ => none
  | bound + 1, state =>
      match body state with
      | .again next => run body bound next
      | .leave result => some result

/-- The loop started in `state` ends, with `result`. -/
def Returns {σ ρ : Type} (body : σ → Turn σ ρ) (state : σ) (result : ρ) : Prop :=
  ∃ bound, run body bound state = some result

/-- The state in which the next iteration starts, if the loop goes on. -/
def onward {σ ρ : Type} (body : σ → Turn σ ρ) (state : σ) : Option σ :=
  match body state with
  | .again next => some next
  | .leave _ => none

/-- The state after `k` steps, where they can all be taken. -/
def nth {σ : Type} (step : σ → Option σ) : Nat → σ → Option σ
  | 0, state => some state
  | k + 1, state => (step state).bind (nth step k)

/-- A loop whose body may itself not end. -/
def runPartial {σ ρ : Type} (body : σ → Option (Turn σ ρ)) : Nat → σ → Option ρ
  | 0, _ => none
  | bound + 1, state =>
      match body state with
      | none => none
      | some (.again next) => runPartial body bound next
      | some (.leave result) => some result

section
variable {σ ρ : Type} {body : σ → Turn σ ρ}

theorem run_again {state next : σ} (bound : Nat) (turn : body state = .again next) :
    run body (bound + 1) state = run body bound next := by
  simp only [run, turn]

theorem run_leave {state : σ} {result : ρ} (bound : Nat) (turn : body state = .leave result) :
    run body (bound + 1) state = some result := by
  simp only [run, turn]

theorem run_mono {bound larger : Nat} {state : σ} {result : ρ} (le : bound ≤ larger)
    (ended : run body bound state = some result) : run body larger state = some result := by
  induction bound generalizing larger state with
  | zero => simp [run] at ended
  | succ bound ih =>
    obtain ⟨more, rfl⟩ : ∃ more, larger = more + 1 := ⟨larger - 1, by omega⟩
    cases turn : body state with
    | again next =>
      rw [run_again _ turn] at ended ⊢
      exact ih (by omega) ended
    | leave result =>
      rw [run_leave _ turn] at ended ⊢
      exact ended

theorem returns_unique {state : σ} {first second : ρ} (left : Returns body state first)
    (right : Returns body state second) : first = second := by
  obtain ⟨m, left⟩ := left
  obtain ⟨n, right⟩ := right
  have left' := run_mono (Nat.le_max_left m n) left
  have right' := run_mono (Nat.le_max_right m n) right
  exact Option.some.inj (left'.symm.trans right')

/-- An invariant of the states the loop passes, and what it gives where the loop is left. -/
theorem run_invariant (inv : σ → Prop) (post : ρ → Prop)
    (again : ∀ state next, inv state → body state = .again next → inv next)
    (leave : ∀ state result, inv state → body state = .leave result → post result)
    {bound : Nat} {state : σ} {result : ρ} (initial : inv state)
    (ended : run body bound state = some result) : post result := by
  induction bound generalizing state with
  | zero => simp [run] at ended
  | succ bound ih =>
    cases turn : body state with
    | again next =>
      rw [run_again _ turn] at ended
      exact ih (again state next initial turn) ended
    | leave last =>
      rw [run_leave _ turn] at ended
      obtain rfl := Option.some.inj ended
      exact leave state last initial turn

theorem kept_of_turn {inv : σ → Prop} {post : ρ → Prop} {state next : σ}
    (turn : (∃ next, body state = .again next ∧ inv next) ∨ ∃ result, body state = .leave result ∧ post result)
    (again : body state = .again next) : inv next := by
  rcases turn with ⟨other, turn, kept⟩ | ⟨result, turn, _⟩
  · obtain rfl := Turn.again.inj (again.symm.trans turn)
    exact kept
  · cases again.symm.trans turn

theorem run_turns (inv : σ → Prop) (post : ρ → Prop)
    (turn : ∀ state, inv state → (∃ next, body state = .again next ∧ inv next) ∨
      ∃ result, body state = .leave result ∧ post result)
    {bound : Nat} {state : σ} {result : ρ} (initial : inv state) (ended : run body bound state = some result) :
    post result := by
  apply run_invariant inv post ?_ ?_ initial ended
  · intro state next holds again
    exact kept_of_turn (turn state holds) again
  · intro state last holds leaves
    rcases turn state holds with ⟨next, turn, _⟩ | ⟨other, turn, given⟩
    · cases leaves.symm.trans turn
    · obtain rfl := Turn.leave.inj (leaves.symm.trans turn)
      exact given

theorem run_ends (inv : σ → Prop) (variant : σ → Nat)
    (again : ∀ state next, inv state → body state = .again next →
      inv next ∧ variant next < variant state)
    {bound : Nat} {state : σ} (initial : inv state) (enough : variant state < bound) :
    ∃ result, run body bound state = some result := by
  induction bound generalizing state with
  | zero => omega
  | succ bound ih =>
    cases turn : body state with
    | again next =>
      obtain ⟨kept, less⟩ := again state next initial turn
      rw [run_again _ turn]
      exact ih kept (by omega)
    | leave result => exact ⟨result, run_leave _ turn⟩

theorem onward_again {state next : σ} (turn : body state = .again next) : onward body state = some next := by
  simp only [onward, turn]

theorem onward_leave {state : σ} {result : ρ} (turn : body state = .leave result) : onward body state = none := by
  simp only [onward, turn]

theorem onward_eq_some {state next : σ} : onward body state = some next ↔ body state = .again next := by
  cases turn : body state with
  | again other => simp [onward, turn]
  | leave result => simp [onward, turn]

theorem run_none_iff {bound : Nat} {state : σ} :
    run body bound state = none ↔ ∃ last, nth (onward body) bound state = some last := by
  induction bound generalizing state with
  | zero => exact iff_of_true rfl ⟨state, rfl⟩
  | succ bound ih =>
    cases turn : body state with
    | again next =>
      rw [run_again _ turn, nth, onward_again turn, Option.bind_some]
      exact ih
    | leave result =>
      rw [run_leave _ turn, nth, onward_leave turn, Option.bind_none]
      simp

/-- A loop that ends leaves from some state that it passes. -/
theorem leaves_of_run {bound : Nat} {state : σ} {result : ρ} (ended : run body bound state = some result) :
    ∃ k last, nth (onward body) k state = some last ∧ body last = .leave result := by
  induction bound generalizing state with
  | zero => simp [run] at ended
  | succ bound ih =>
    cases turn : body state with
    | again next =>
      rw [run_again _ turn] at ended
      obtain ⟨k, last, passed, left⟩ := ih ended
      refine ⟨k + 1, last, ?_, left⟩
      rw [nth, onward_again turn, Option.bind_some]
      exact passed
    | leave last =>
      rw [run_leave _ turn] at ended
      obtain rfl := Option.some.inj ended
      exact ⟨0, state, rfl, turn⟩

theorem run_nth {k bound : Nat} {state middle : σ} (passed : nth (onward body) k state = some middle) :
    run body (k + bound) state = run body bound middle := by
  induction k generalizing state with
  | zero =>
    obtain rfl := Option.some.inj passed
    rw [Nat.zero_add]
  | succ k ih =>
    obtain ⟨next, step, rest⟩ := Option.bind_eq_some_iff.mp passed
    rw [Nat.succ_add, run_again _ (onward_eq_some.mp step)]
    exact ih rest

theorem run_related {τ ρ' : Type} {other : τ → Turn τ ρ'} (related : σ → τ → Prop) (results : ρ → ρ' → Prop)
    (turn : ∀ state state', related state state' →
      (∃ result result', body state = .leave result ∧ other state' = .leave result' ∧ results result result') ∨
      ∃ next next', body state = .again next ∧ other state' = .again next' ∧ related next next')
    {state : σ} {state' : τ} (initial : related state state') (bound : Nat) :
    Option.Rel results (run body bound state) (run other bound state') := by
  induction bound generalizing state state' with
  | zero => exact .none
  | succ bound ih =>
    rcases turn state state' initial with ⟨result, result', left, left', same⟩ | ⟨next, next', again, again', kept⟩
    · rw [run_leave _ left, run_leave _ left']
      exact .some same
    · rw [run_again _ again, run_again _ again']
      exact ih kept

theorem bind_ok {ε α β : Type} {first : Except ε α} {next : α → Except ε β} {result : β}
    (done : (first >>= next) = .ok result) : ∃ value, first = .ok value ∧ next value = .ok result := by
  cases first with
  | error message => simp [bind, Except.bind] at done
  | ok value => exact ⟨value, rfl, done⟩

theorem bind_error {ε α β : Type} {first : Except ε α} {next : α → Except ε β} {error : ε}
    (failed : (first >>= next) = .error error) :
    first = .error error ∨ ∃ value, first = .ok value ∧ next value = .error error := by
  cases first with
  | error message => exact Or.inl (congrArg Except.error (Except.error.inj failed))
  | ok value => exact Or.inr ⟨value, rfl, failed⟩

theorem foldlM_ok {ε α : Type} {step : σ → α → Except ε σ} (inv : σ → Prop)
    (turn : ∀ state item, inv state → ∃ next, step state item = .ok next ∧ inv next) (items : List α)
    {state : σ} (initial : inv state) : ∃ last, items.foldlM step state = .ok last ∧ inv last := by
  induction items generalizing state with
  | nil => exact ⟨state, rfl, initial⟩
  | cons item rest ih =>
    obtain ⟨next, done, kept⟩ := turn state item initial
    rw [List.foldlM_cons, done]
    exact ih kept

theorem foldlM_keeps {ε α : Type} {step : σ → α → Except ε σ} (inv : σ → Prop)
    (turn : ∀ state item next, inv state → step state item = .ok next → inv next) {items : List α}
    {state last : σ} (initial : inv state) (done : items.foldlM step state = .ok last) : inv last := by
  induction items generalizing state with
  | nil => exact Except.ok.inj done ▸ initial
  | cons item rest ih =>
    rw [List.foldlM_cons] at done
    obtain ⟨next, first, done⟩ := bind_ok done
    exact ih (turn state item next initial first) done

theorem foldlM_error {ε α : Type} {step : σ → α → Except ε σ} {items : List α} {state : σ} {error : ε}
    (failed : items.foldlM step state = .error error) : ∃ state item, step state item = .error error := by
  induction items generalizing state with
  | nil => cases failed
  | cons item rest ih =>
    rw [List.foldlM_cons] at failed
    rcases bind_error failed with here | ⟨next, _, later⟩
    · exact ⟨state, item, here⟩
    · exact ih later

end

section
variable {σ : Type} {step : σ → Option σ}

theorem nth_succ (k : Nat) (state : σ) : nth step (k + 1) state = (nth step k state).bind step := by
  induction k generalizing state with
  | zero =>
    rw [nth, nth, Option.bind_some]
    cases step state <;> rfl
  | succ k ih =>
    rw [nth, nth]
    cases step state with
    | none => rfl
    | some next => exact ih next

theorem nth_keeps (inv : σ → Prop) (keeps : ∀ state next, inv state → step state = some next → inv next) {k : Nat}
    {state last : σ} (initial : inv state) (passed : nth step k state = some last) : inv last := by
  induction k generalizing state with
  | zero => exact Option.some.inj passed ▸ initial
  | succ k ih =>
    obtain ⟨next, first, rest⟩ := Option.bind_eq_some_iff.mp passed
    exact ih (keeps state next initial first) rest

theorem nth_turns {ρ : Type} {body : σ → Turn σ ρ} (inv : σ → Prop) (post : ρ → Prop)
    (turn : ∀ state, inv state → (∃ next, body state = .again next ∧ inv next) ∨
      ∃ result, body state = .leave result ∧ post result)
    {k : Nat} {state last : σ} (initial : inv state) (passed : nth (onward body) k state = some last) : inv last := by
  apply nth_keeps inv ?_ initial passed
  intro state next holds again
  exact kept_of_turn (turn state holds) (onward_eq_some.mp again)

end

section
variable {σ ρ : Type} {body : σ → Option (Turn σ ρ)}

theorem runPartial_again {state next : σ} (bound : Nat) (turn : body state = some (.again next)) :
    runPartial body (bound + 1) state = runPartial body bound next := by
  simp only [runPartial, turn]

theorem runPartial_leave {state : σ} {result : ρ} (bound : Nat) (turn : body state = some (.leave result)) :
    runPartial body (bound + 1) state = some result := by
  simp only [runPartial, turn]

/-- More iterations, here and inside the body, give the same result. -/
theorem runPartial_mono {larger : σ → Option (Turn σ ρ)} (more : ∀ state turn, body state = some turn →
    larger state = some turn) {bound bound' : Nat} {state : σ} {result : ρ} (le : bound ≤ bound')
    (ended : runPartial body bound state = some result) : runPartial larger bound' state = some result := by
  induction bound generalizing bound' state with
  | zero => simp [runPartial] at ended
  | succ bound ih =>
    obtain ⟨rest, rfl⟩ : ∃ rest, bound' = rest + 1 := ⟨bound' - 1, by omega⟩
    cases turn : body state with
    | none => simp [runPartial, turn] at ended
    | some next =>
      have turn' := more state next turn
      cases next with
      | again next =>
        rw [runPartial_again _ turn] at ended
        rw [runPartial_again _ turn']
        exact ih (by omega) ended
      | leave last =>
        rw [runPartial_leave _ turn] at ended
        rw [runPartial_leave _ turn']
        exact ended

/-- Two loops whose turns stay related give the same result. -/
theorem runPartial_related {τ : Type} {other : τ → Option (Turn τ ρ)} (related : σ → τ → Prop)
    (turn : ∀ state state', related state state' →
      (body state = none ∧ other state' = none) ∨
      (∃ result, body state = some (.leave result) ∧ other state' = some (.leave result)) ∨
      ∃ next next', body state = some (.again next) ∧ other state' = some (.again next') ∧ related next next')
    {state : σ} {state' : τ} (initial : related state state') (bound : Nat) :
    runPartial body bound state = runPartial other bound state' := by
  induction bound generalizing state state' with
  | zero => rfl
  | succ bound ih =>
    rcases turn state state' initial with ⟨stuck, stuck'⟩ | ⟨result, left, left'⟩ | ⟨next, next', again, again', kept⟩
    · simp only [runPartial, stuck, stuck']
    · rw [runPartial_leave _ left, runPartial_leave _ left']
    · rw [runPartial_again _ again, runPartial_again _ again']
      exact ih kept

end

end Ketone.Library.Loop
