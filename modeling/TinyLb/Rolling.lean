import TinyLb.Machine
import Mathlib.Data.List.Nodup
import Mathlib.Logic.Function.Basic

/-! Maintenance of a fleet, one member at a time: a member is taken out of service and put back
before the next one is taken out. A run may stop anywhere, and the next one begins with the
members that are out. -/

namespace TinyLb.Rolling
open Machine

universe u
variable {ι : Type u}

structure Fleet (ι : Type u) where
  members : List ι
  drained : ι → Bool
  distinct : members.Nodup

inductive Phase (ι : Type u) where
  | stopped
  | choosing (rest : List ι)
  | away (m : ι) (rest : List ι)

structure State (ι : Type u) where
  written : ι → Option Bool
  phase : Phase ι

inductive Action where
  | start
  | takeOut
  | putBack
  | stop

def State.fresh : State ι := ⟨fun _ => none, .stopped⟩

variable (fleet : Fleet ι)

def isDrained (written : ι → Option Bool) (m : ι) : Bool := (written m).getD (fleet.drained m)

/-- The members that are out, then the others. -/
def order (written : ι → Option Bool) : List ι :=
  fleet.members.filter (isDrained fleet written) ++
    fleet.members.filter fun m => !isDrained fleet written m

variable [DecidableEq ι]

/-- A member that is out already is not written. -/
def takeOut (written : ι → Option Bool) (m : ι) : ι → Option Bool :=
  if isDrained fleet written m then written else Function.update written m (some true)

def putBack (written : ι → Option Bool) (m : ι) : ι → Option Bool :=
  Function.update written m (some false)

def step : Action → State ι → Option (State ι)
  | .start, ⟨written, .stopped⟩ => some ⟨written, .choosing (order fleet written)⟩
  | .takeOut, ⟨written, .choosing (m :: rest)⟩ => some ⟨takeOut fleet written m, .away m rest⟩
  | .putBack, ⟨written, .away m rest⟩ => some ⟨putBack written m, .choosing rest⟩
  | .stop, ⟨written, _⟩ => some ⟨written, .stopped⟩
  | _, _ => none

variable {fleet} {written : ι → Option Bool} {m n : ι} {rest : List ι} {s next : State ι}

theorem step_cases {action : Action} (taken : step fleet action s = some next) :
    (s.phase = .stopped ∧ next = ⟨s.written, .choosing (order fleet s.written)⟩) ∨
    (∃ m rest, s.phase = .choosing (m :: rest) ∧ next = ⟨takeOut fleet s.written m, .away m rest⟩) ∨
    (∃ m rest, s.phase = .away m rest ∧ next = ⟨putBack s.written m, .choosing rest⟩) ∨
    next = ⟨s.written, .stopped⟩ := by
  obtain ⟨written, phase⟩ := s
  cases action with
  | start =>
    cases phase with
    | stopped => cases taken; exact Or.inl ⟨rfl, rfl⟩
    | choosing rest => cases taken
    | away m rest => cases taken
  | takeOut =>
    cases phase with
    | stopped => cases taken
    | choosing rest =>
      cases rest with
      | nil => cases taken
      | cons m rest => cases taken; exact Or.inr (Or.inl ⟨m, rest, rfl, rfl⟩)
    | away m rest => cases taken
  | putBack =>
    cases phase with
    | stopped => cases taken
    | choosing rest => cases taken
    | away m rest => cases taken; exact Or.inr (Or.inr (Or.inl ⟨m, rest, rfl, rfl⟩))
  | stop => cases taken; exact Or.inr (Or.inr (Or.inr rfl))

omit [DecidableEq ι] in
theorem isDrained_of_written {flag : Bool} (wrote : written m = some flag) :
    isDrained fleet written m = flag := by
  unfold isDrained
  rw [wrote]
  rfl

theorem isDrained_update_of_ne (other : n ≠ m) (flag : Bool) :
    isDrained fleet (Function.update written m (some flag)) n = isDrained fleet written n := by
  unfold isDrained
  rw [Function.update_of_ne other]

omit [DecidableEq ι] in
theorem mem_order : m ∈ order fleet written ↔ m ∈ fleet.members := by
  unfold order
  rw [List.mem_append, List.mem_filter, List.mem_filter]
  cases isDrained fleet written m <;> simp

omit [DecidableEq ι] in
theorem order_perm (fleet : Fleet ι) (written : ι → Option Bool) :
    (order fleet written).Perm fleet.members :=
  List.filter_append_perm (isDrained fleet written) fleet.members

def DrainedFirst (fleet : Fleet ι) (written : ι → Option Bool) (rest : List ι) : Prop :=
  rest.Pairwise fun m n => isDrained fleet written n = true → isDrained fleet written m = true

omit [DecidableEq ι] in
theorem drainedFirst_order : DrainedFirst fleet written (order fleet written) := by
  apply List.pairwise_append.mpr
  refine ⟨?_, ?_, ?_⟩
  · apply List.pairwise_of_forall_mem_list
    intro m here n _ _
    exact (List.mem_filter.mp here).2
  · apply List.pairwise_of_forall_mem_list
    intro m _ n there drained
    have serving := (List.mem_filter.mp there).2
    rw [drained] at serving
    cases serving
  · intro m here n _ _
    exact (List.mem_filter.mp here).2

theorem DrainedFirst.update (sorted : DrainedFirst fleet written rest) (fresh : m ∉ rest) (flag : Bool) :
    DrainedFirst fleet (Function.update written m (some flag)) rest := by
  apply sorted.imp_of_mem
  intro x y here there drained
  rw [isDrained_update_of_ne (ne_of_mem_of_not_mem here fresh)]
  rw [isDrained_update_of_ne (ne_of_mem_of_not_mem there fresh)]
  exact drained

/-- The members that a run has not come to; the others are back in service. -/
structure Queue (fleet : Fleet ι) (written : ι → Option Bool) (rest : List ι) : Prop where
  distinct : rest.Nodup
  members : ∀ m ∈ rest, m ∈ fleet.members
  sorted : DrainedFirst fleet written rest
  covered : ∀ m ∈ fleet.members, m ∈ rest ∨ written m = some false

def PhaseOk (fleet : Fleet ι) (written : ι → Option Bool) : Phase ι → Prop
  | .stopped => True
  | .choosing rest => Queue fleet written rest
  | .away m rest => Queue fleet written (m :: rest) ∧ isDrained fleet written m = true

/-- Of the members that were in service at first, at most one is out. -/
structure Orderly (fleet : Fleet ι) (s : State ι) : Prop where
  known : ∀ m flag, s.written m = some flag → m ∈ fleet.members
  single : ∀ m n, fleet.drained m = false → fleet.drained n = false →
    s.written m = some true → s.written n = some true → m = n
  phase : PhaseOk fleet s.written s.phase

omit [DecidableEq ι] in
theorem orderly_fresh : Orderly fleet .fresh where
  known m flag wrote := by cases wrote
  single m n _ _ wrote := by cases wrote
  phase := trivial

omit [DecidableEq ι] in
theorem queue_order : Queue fleet written (order fleet written) where
  distinct := (order_perm fleet written).nodup_iff.mpr fleet.distinct
  members _ member := mem_order.mp member
  sorted := drainedFirst_order
  covered _ member := Or.inl (mem_order.mpr member)

omit [DecidableEq ι] in
theorem Queue.none_away (queue : Queue fleet written (m :: rest)) (known : n ∈ fleet.members)
    (serving : isDrained fleet written m = false) : written n ≠ some true := by
  intro wrote
  have drained : isDrained fleet written n = true := isDrained_of_written wrote
  rcases queue.covered n known with waiting | back
  · rcases List.mem_cons.mp waiting with rfl | behind
    · rw [drained] at serving
      cases serving
    · rw [(List.pairwise_cons.mp queue.sorted).1 n behind drained] at serving
      cases serving
  · rw [back] at wrote
    cases wrote

theorem Queue.takeOut (queue : Queue fleet written (m :: rest)) :
    Queue fleet (takeOut fleet written m) (m :: rest) := by
  unfold Rolling.takeOut
  split
  next => exact queue
  next serving =>
    have fresh := (List.nodup_cons.mp queue.distinct).1
    have behind : DrainedFirst fleet written rest := (List.pairwise_cons.mp queue.sorted).2
    refine ⟨queue.distinct, queue.members, ?_, fun n member => ?_⟩
    · apply List.pairwise_cons.mpr
      exact ⟨fun n _ _ => isDrained_of_written (Function.update_self ..), behind.update fresh true⟩
    · by_cases same : n = m
      · exact Or.inl (List.mem_cons.mpr (Or.inl same))
      · rw [Function.update_of_ne same]
        exact queue.covered n member

theorem isDrained_takeOut : isDrained fleet (takeOut fleet written m) m = true := by
  unfold takeOut
  split
  next drained => exact drained
  next => exact isDrained_of_written (Function.update_self ..)

theorem Queue.putBack (queue : Queue fleet written (m :: rest)) :
    Queue fleet (putBack written m) rest := by
  obtain ⟨fresh, distinct⟩ := List.nodup_cons.mp queue.distinct
  have behind : DrainedFirst fleet written rest := (List.pairwise_cons.mp queue.sorted).2
  refine ⟨distinct, fun n member => queue.members n (List.mem_cons_of_mem m member),
    behind.update fresh false, fun n member => ?_⟩
  by_cases same : n = m
  · rw [same]
    exact Or.inr (Function.update_self ..)
  · unfold Rolling.putBack
    rw [Function.update_of_ne same]
    rcases queue.covered n member with waiting | back
    · rcases List.mem_cons.mp waiting with here | later
      · exact absurd here same
      · exact Or.inl later
    · exact Or.inr back

theorem Orderly.takeOut (orderly : Orderly fleet s) (here : s.phase = .choosing (m :: rest)) :
    Orderly fleet ⟨takeOut fleet s.written m, .away m rest⟩ := by
  have queue : Queue fleet s.written (m :: rest) := by
    have ok := orderly.phase
    rw [here] at ok
    exact ok
  have written_cases : Rolling.takeOut fleet s.written m = s.written ∨
      isDrained fleet s.written m = false ∧
        Rolling.takeOut fleet s.written m = Function.update s.written m (some true) := by
    unfold Rolling.takeOut
    cases isDrained fleet s.written m with
    | true => exact Or.inl (if_pos rfl)
    | false => exact Or.inr ⟨rfl, if_neg Bool.false_ne_true⟩
  refine ⟨?_, ?_, queue.takeOut, isDrained_takeOut⟩
  · intro n flag (wrote : Rolling.takeOut fleet s.written m n = some flag)
    rcases written_cases with same | ⟨-, same⟩
    · rw [same] at wrote
      exact orderly.known n flag wrote
    · by_cases self : n = m
      · rw [self]
        exact queue.members m (List.mem_cons_self ..)
      · rw [same, Function.update_of_ne self] at wrote
        exact orderly.known n flag wrote
  · intro a b serving serving' (out : Rolling.takeOut fleet s.written m a = some true)
      (out' : Rolling.takeOut fleet s.written m b = some true)
    rcases written_cases with same | ⟨present, same⟩
    · rw [same] at out out'
      exact orderly.single a b serving serving' out out'
    · -- everybody else is in service
      have only : ∀ n, Rolling.takeOut fleet s.written m n = some true → n = m := by
        intro n wrote
        by_contra other
        rw [same, Function.update_of_ne other] at wrote
        exact queue.none_away (orderly.known n true wrote) present wrote
      rw [only a out, only b out']

theorem Orderly.putBack (orderly : Orderly fleet s) (here : s.phase = .away m rest) :
    Orderly fleet ⟨putBack s.written m, .choosing rest⟩ := by
  have queue : Queue fleet s.written (m :: rest) := by
    have ok := orderly.phase
    rw [here] at ok
    exact ok.1
  have older : ∀ n, Rolling.putBack s.written m n = some true → s.written n = some true := by
    intro n wrote
    by_cases self : n = m
    · rw [self, Rolling.putBack, Function.update_self] at wrote
      cases wrote
    · rw [Rolling.putBack, Function.update_of_ne self] at wrote
      exact wrote
  refine ⟨?_, ?_, queue.putBack⟩
  · intro n flag (wrote : Rolling.putBack s.written m n = some flag)
    by_cases self : n = m
    · rw [self]
      exact queue.members m (List.mem_cons_self ..)
    · rw [Rolling.putBack, Function.update_of_ne self] at wrote
      exact orderly.known n flag wrote
  · intro a b serving serving' out out'
    exact orderly.single a b serving serving' (older a out) (older b out')

theorem step_orderly {action : Action} (taken : step fleet action s = some next)
    (orderly : Orderly fleet s) : Orderly fleet next := by
  rcases step_cases taken with ⟨-, rfl⟩ | ⟨m, rest, here, rfl⟩ | ⟨m, rest, here, rfl⟩ | rfl
  · exact ⟨orderly.known, orderly.single, queue_order⟩
  · exact orderly.takeOut here
  · exact orderly.putBack here
  · exact ⟨orderly.known, orderly.single, trivial⟩

/-- The invariant of any series of runs. -/
theorem orderly_of_reachable (reached : Reachable (step fleet) .fresh s) : Orderly fleet s :=
  reached.invariant (fun _ _ _ orderly taken => step_orderly taken orderly) orderly_fresh

omit [DecidableEq ι] in
theorem Orderly.serving_of_two (orderly : Orderly fleet s) (first : fleet.drained m = false)
    (second : fleet.drained n = false) (apart : m ≠ n) :
    s.written m ≠ some true ∨ s.written n ≠ some true := by
  by_contra both
  rw [not_or, not_not, not_not] at both
  exact apart (orderly.single m n first second both.1 both.2)

end TinyLb.Rolling
