import TinyLb.ConnectionLedger

/-! The loops in the background walk over the table: they clone the list of groups, and the list of
backends of each group when they come to it. A walk goes on with its clones while requests and
reloads run. -/

namespace TinyLb.Rounds
open Config Backends Merge Traffic ConnectionLedger

/-- The clones that are left; `snapshot` records all backends that were cloned, in order. -/
structure Walk where
  groups : List GroupId
  backends : List BackendId
  snapshot : List BackendId
  deriving DecidableEq, Repr

namespace Walk

/-- `registry.groups.read().unwrap().clone()`. -/
def begin (reg : BackendRegistry) : Walk := ⟨reg.groups, [], []⟩

/-- `group.backends.read().unwrap().clone()`, after all backends of the group before. -/
def enter (reg : BackendRegistry) (walk : Walk) : Option Walk :=
  match walk.backends, walk.groups with
  | [], g :: groups =>
      let backends := (reg.group g).backends
      some ⟨groups, backends, walk.snapshot ++ backends⟩
  | _, _ => none

def next (walk : Walk) : Option (BackendId × Walk) :=
  match walk.backends with
  | [] => none
  | b :: backends => some (b, { walk with backends := backends })

def isOver (walk : Walk) : Bool := walk.groups.isEmpty && walk.backends.isEmpty

/-- The backends that a walk has still to come to, if nobody changes the lists. -/
def rest (reg : BackendRegistry) (walk : Walk) : List BackendId :=
  walk.backends ++ walk.groups.flatMap fun g => (reg.group g).backends

structure Known (reg : BackendRegistry) (walk : Walk) : Prop where
  groups : ∀ g ∈ walk.groups, g < reg.groupAt.size
  snapshot : ∀ b ∈ walk.snapshot, b < reg.backendAt.size
  suffix : walk.backends <:+ walk.snapshot

variable {reg next' : BackendRegistry} {walk after : Walk} {b : BackendId}

theorem begin_known (valid : Valid reg) : Known reg (begin reg) :=
  ⟨valid.table, fun b member => (by cases member), List.suffix_rfl⟩

theorem enter_cases (entered : walk.enter reg = some after) : ∃ g groups,
    walk.backends = [] ∧ walk.groups = g :: groups ∧
      after = ⟨groups, (reg.group g).backends, walk.snapshot ++ (reg.group g).backends⟩ := by
  unfold enter at entered
  split at entered
  next g groups empty more =>
    cases entered
    exact ⟨g, groups, empty, more, rfl⟩
  next => cases entered

theorem next_cases (stepped : walk.next = some (b, after)) :
    walk.backends = b :: after.backends ∧ after.groups = walk.groups ∧ after.snapshot = walk.snapshot := by
  unfold next at stepped
  split at stepped
  next => cases stepped
  next here =>
    cases stepped
    exact ⟨here, rfl, rfl⟩

theorem rest_enter (entered : walk.enter reg = some after) : after.rest reg = walk.rest reg := by
  obtain ⟨g, groups, empty, more, rfl⟩ := enter_cases entered
  rw [rest, rest, empty, more, List.flatMap_cons]
  rfl

theorem rest_next (stepped : walk.next = some (b, after)) : walk.rest reg = b :: after.rest reg := by
  obtain ⟨here, groups, -⟩ := next_cases stepped
  rw [rest, rest, here, groups]
  rfl

theorem rest_over (finished : walk.isOver = true) : walk.rest reg = [] := by
  simp only [isOver, Bool.and_eq_true, List.isEmpty_iff] at finished
  rw [rest, finished.1, finished.2]
  rfl

theorem Known.enter (known : Known reg walk) (valid : Valid reg)
    (entered : walk.enter reg = some after) : Known reg after := by
  obtain ⟨g, groups, -, more, rfl⟩ := enter_cases entered
  refine ⟨fun g' member => known.groups g' (more ▸ List.mem_cons_of_mem _ member), fun b member => ?_,
    List.suffix_append _ _⟩
  rcases List.mem_append.mp member with old | new
  · exact known.snapshot b old
  · exact valid.owned g b new

theorem Known.next (known : Known reg walk) (stepped : walk.next = some (b, after)) :
    b < reg.backendAt.size ∧ Known reg after := by
  obtain ⟨here, groups, snapshot⟩ := next_cases stepped
  have left : b :: after.backends <:+ walk.snapshot := here ▸ known.suffix
  refine ⟨known.snapshot b (left.subset (List.mem_cons_self ..)), groups ▸ known.groups,
    snapshot ▸ known.snapshot, ?_⟩
  rw [snapshot]
  exact (List.suffix_cons b _).trans left

theorem Known.grow (known : Known reg walk) (backends : reg.backendAt.size ≤ next'.backendAt.size)
    (groups : reg.groupAt.size ≤ next'.groupAt.size) : Known next' walk :=
  ⟨fun g member => Nat.lt_of_lt_of_le (known.groups g member) groups,
    fun b member => Nat.lt_of_lt_of_le (known.snapshot b member) backends, known.suffix⟩

end Walk

section Frame
variable {s t : System}

theorem step_grows {action : Action} (wellFormed : WellFormed s) (taken : step action s = some t) :
    s.reg.backendAt.size ≤ t.reg.backendAt.size ∧ s.reg.groupAt.size ≤ t.reg.groupAt.size := by
  cases action with
  | arrive path host upgrade => cases taken; exact ⟨Nat.le_refl _, Nat.le_refl _⟩
  | advance r move =>
    obtain ⟨q, q', reg, -, moved, rfl⟩ := advance_cases taken
    obtain ⟨groupAt, -, size⟩ := (Request.step_change moved).table
    exact ⟨Nat.le_of_eq size.symm, Nat.le_of_eq (by rw [groupAt])⟩
  | probe b now healthy => cases taken; exact ⟨Nat.le_of_eq (by simp), Nat.le_refl _⟩
  | sample b => cases taken; exact ⟨Nat.le_of_eq (by simp), Nat.le_refl _⟩
  | reloadStart now routes =>
    rcases (reloadStart_cases taken).2 with ⟨e, -, rfl⟩ | ⟨-, rfl⟩ <;>
      exact ⟨Nat.le_refl _, Nat.le_refl _⟩
  | reloadRoute =>
    obtain ⟨now, routes, route, todo, newGroups, g, reg, -, applied, rfl⟩ := reloadRoute_cases taken
    have kept := applyRoute_kept wellFormed.valid applied
    exact ⟨kept.backends, kept.groups⟩
  | reloadSwap =>
    obtain ⟨now, routes, newGroups, -, rfl⟩ := reloadSwap_cases taken
    exact ⟨Nat.le_refl _, Nat.le_refl _⟩

/-- What no request writes and no reload forgets. -/
structure Untouched {β : Type} (field : Backend → β) : Prop where
  connect : ∀ x : Backend, field x.connect = field x
  disconnect : ∀ x : Backend, field x.disconnect = field x
  countError : ∀ x : Backend, field x.countError = field x
  remembered : ∀ x y : Backend, x.url = y.url → x.live = y.live → field x = field y

theorem untouched_url : Untouched Backend.url := ⟨fun _ => rfl, fun _ => rfl, fun _ => rfl, fun _ _ same _ => same⟩

theorem untouched_health : Untouched fun b => (b.healthy, b.lastHealthCheck) := by
  refine ⟨fun _ => rfl, fun _ => rfl, fun _ => rfl, fun x y _ live => ?_⟩
  obtain ⟨healthy, -, -, last⟩ := LiveState.mk.inj live
  exact Prod.ext healthy last

theorem change_field {β : Type} {field : Backend → β} (untouched : Untouched field) {q q' : Request}
    {reg reg' : BackendRegistry} {locked : Bool} {refs : BackendId → Nat}
    (change : q.Change reg locked refs q' reg') (b : BackendId) :
    field (reg'.backend b) = field (reg.backend b) := by
  cases change with
  | idle phase next same => rw [same]
  | select g e here found next same => rw [same]
  | wait e phase here there next same => rw [same]
  | abandon e outcome here failed next same => rw [same]
  | opened e here few next written =>
    rw [written]
    exact Arena.get_modify_field field _ untouched.connect e b
  | closed guard ending errors here counted next =>
    obtain ⟨-, rfl⟩ := Prod.mk.inj next
    refine (Arena.get_modify_field field _ untouched.disconnect guard.backend b).trans ?_
    rcases counted with rfl | rfl
    · rfl
    · exact Arena.get_modify_field field _ untouched.countError guard.backend b

theorem step_field {β : Type} {field : Backend → β} (untouched : Untouched field) {action : Action}
    (wellFormed : WellFormed s) (taken : step action s = some t)
    (probed : ∀ b now healthy, action = .probe b now healthy → ∀ x, field (x.probed now healthy) = field x)
    (sampled : ∀ x : Backend, field x.takeErrors = field x)
    {b : BackendId} (known : b < s.reg.backendAt.size) :
    field (t.reg.backend b) = field (s.reg.backend b) := by
  cases action with
  | arrive path host upgrade => cases taken; rfl
  | advance r move =>
    obtain ⟨q, q', reg, -, moved, rfl⟩ := advance_cases taken
    exact change_field untouched (Request.step_change moved) b
  | probe e now healthy =>
    cases taken
    exact Arena.get_modify_field field _ (probed e now healthy rfl) e b
  | sample e =>
    cases taken
    exact Arena.get_modify_field field _ sampled e b
  | reloadStart now routes => rcases (reloadStart_cases taken).2 with ⟨e, -, rfl⟩ | ⟨-, rfl⟩ <;> rfl
  | reloadRoute =>
    obtain ⟨now, routes, route, todo, newGroups, g, reg, -, applied, rfl⟩ := reloadRoute_cases taken
    have kept := applyRoute_kept wellFormed.valid applied
    exact untouched.remembered _ _ (kept.url b known) (kept.live b known)
  | reloadSwap =>
    obtain ⟨now, routes, newGroups, -, rfl⟩ := reloadSwap_cases taken
    rfl

theorem step_url {action : Action} (wellFormed : WellFormed s) (taken : step action s = some t)
    {b : BackendId} (known : b < s.reg.backendAt.size) : (t.reg.backend b).url = (s.reg.backend b).url :=
  step_field untouched_url wellFormed taken (fun _ _ _ _ _ => rfl) (fun _ => rfl) known

/-- A loop next to requests and reloads: the walk it is on, and the backend it is working on. -/
structure Placed (s : System) (walk : Option Walk) (inHand : Option BackendId) : Prop where
  wellFormed : WellFormed s
  walk : ∀ w ∈ walk, w.Known s.reg
  inHand : ∀ b ∈ inHand, b < s.reg.backendAt.size

namespace Placed
variable {walk after : Walk} {walks : Option Walk} {b : BackendId} {inHand : Option BackendId}

theorem asleep (wellFormed : WellFormed s) : Placed s none none :=
  ⟨wellFormed, fun _ none => (by cases none), fun _ none => (by cases none)⟩

theorem traffic (placed : Placed s walks inHand) {action : Action} (moved : step action s = some t) :
    Placed t walks inHand := by
  obtain ⟨backends, groups⟩ := step_grows placed.wellFormed moved
  exact ⟨step_wellFormed action _ _ placed.wellFormed moved,
    fun w here => (placed.walk w here).grow backends groups,
    fun b here => Nat.lt_of_lt_of_le (placed.inHand b here) backends⟩

theorem wake (wellFormed : WellFormed s) : Placed s (some (.begin s.reg)) none := by
  refine ⟨wellFormed, fun w here => ?_, fun _ none => (by cases none)⟩
  cases here
  exact Walk.begin_known wellFormed.valid

theorem enter (placed : Placed s (some walk) inHand) (entered : walk.enter s.reg = some after) :
    Placed s (some after) none := by
  refine ⟨placed.wellFormed, fun w here => ?_, fun _ none => (by cases none)⟩
  cases here
  exact (placed.walk walk rfl).enter placed.wellFormed.valid entered

theorem next (placed : Placed s (some walk) inHand) (stepped : walk.next = some (b, after)) :
    Placed s (some after) (some b) := by
  obtain ⟨known, later⟩ := (placed.walk walk rfl).next stepped
  refine ⟨placed.wellFormed, fun w here => ?_, fun e here => ?_⟩
  · cases here
    exact later
  · cases here
    exact known

theorem release (placed : Placed s walks inHand) : Placed s walks none :=
  ⟨placed.wellFormed, placed.walk, fun _ none => (by cases none)⟩

theorem write (placed : Placed s walks inHand) (b : BackendId) (f : Backend → Backend) :
    Placed { s with reg := s.reg.write b f } walks inHand := by
  have size : (s.reg.write b f).backendAt.size = s.reg.backendAt.size := BackendRegistry.size_write ..
  exact ⟨write_wellFormed placed.wellFormed b f,
    fun w here => (placed.walk w here).grow (Nat.le_of_eq size.symm) (Nat.le_refl _),
    fun e here => Nat.lt_of_lt_of_le (placed.inHand e here) (Nat.le_of_eq size.symm)⟩

end Placed

end Frame

end TinyLb.Rounds
