import TinyLb.Admission
import TinyLb.AtomicReload
import TinyLb.RouteSnapshot
import TinyLb.Tasks

/-! Every request comes to an end after a few moves, from every state the system can be brought to rest,
and a drained backend is idle once the requests that were there before have ended. -/

namespace TinyLb.Completion
open Config Backends ConnectionLedger Machine
open Traffic

def Phase.left : Phase → Nat
  | .received => 8
  | .routed _ => 7
  | .chosen _ => 6
  | .upgrading _ => 5
  | .upgraded _ => 4
  | .proxying _ => 3
  | .awaiting _ => 2
  | .session _ | .streaming _ => 1
  | .finished _ => 0

theorem Phase.left_le (phase : Traffic.Phase) : Phase.left phase ≤ 8 := by
  cases phase <;> simp [Phase.left]

def left (s : System) (r : Nat) : Nat :=
  match s.requests[r]? with
  | none => 8
  | some q => Phase.left q.phase

def moves (r : Nat) (actions : List Action) : Nat :=
  actions.countP fun
    | .advance r' _ => r' == r
    | _ => false

section Moves
variable {q q' : Request} {reg reg' : BackendRegistry} {locked : Bool} {refs : BackendId → Nat}
  {s t : System}

theorem enter_left {phase : Phase} {n : Nat} (taken : some (q.enter phase, reg) = some (q', reg'))
    (less : Phase.left phase < n) : Phase.left q'.phase < n := by
  cases taken
  exact less

theorem openGuard_left {b : BackendId} {n : Nat} (taken : q.openGuard reg refs b = some (q', reg'))
    (more : 3 < n) : Phase.left q'.phase < n := by
  unfold Request.openGuard at taken
  split at taken
  · cases taken
    exact more
  · cases taken

theorem dropGuard_left {guard : ConnectionGuard} {ending : Ending} {n : Nat}
    (taken : some (q.dropGuard reg guard ending) = some (q', reg')) (more : 0 < n) :
    Phase.left q'.phase < n := by
  cases taken
  exact more

theorem findGroup_left (taken : q.step reg locked refs .findGroup = some (q', reg')) :
    Phase.left q'.phase < Phase.left q.phase := by
  unfold Request.step at taken
  split at taken <;> try contradiction
  next here =>
    rw [here]
    split at taken
    next => exact enter_left taken (by decide)
    next =>
      split at taken
      next => exact enter_left taken (by decide)
      next =>
        split at taken
        next => cases taken
        next =>
          split at taken
          next g found => exact enter_left taken (Nat.lt_succ_self 7)
          next => exact enter_left taken (by decide)

theorem selectBackend_left {g : Backends.GroupId} (here : q.phase = .routed g)
    (taken : q.step reg locked refs .selectBackend = some (q', reg')) :
    Phase.left q'.phase < Phase.left q.phase := by
  simp only [Request.step, here] at taken
  rw [here]
  split at taken
  next b found =>
    split at taken
    next => exact enter_left taken (Nat.lt_succ_self 6)
    next => cases taken
  next => exact enter_left taken (by decide : 0 < 7)

theorem step_left {move : Move} (taken : q.step reg locked refs move = some (q', reg')) :
    Phase.left q'.phase < Phase.left q.phase := by
  have whole := taken
  unfold Request.step at taken
  split at taken
  next here => exact findGroup_left whole
  next g here => exact selectBackend_left here whole
  next b here =>
    split at taken
    next => rw [here]; exact enter_left taken (Nat.lt_succ_self 5)
    next => cases taken
  next b here => rw [here]; exact enter_left taken (Nat.lt_succ_self 4)
  next b here => rw [here]; exact enter_left taken (by decide : 0 < 5)
  next b here => rw [here]; exact enter_left taken (by decide : 0 < 5)
  next b here =>
    split at taken
    next => cases taken
    next => rw [here]; exact openGuard_left taken (by decide : 3 < 6)
  next b here => rw [here]; exact openGuard_left taken (by decide : 3 < 4)
  next guard here => rw [here]; exact dropGuard_left taken (by decide : 0 < 3)
  next guard here => rw [here]; exact enter_left taken (Nat.lt_succ_self 2)
  next guard here =>
    rw [here]
    apply enter_left taken
    split
    · exact Nat.lt_succ_self 1
    · exact Nat.lt_succ_self 1
  next guard here => rw [here]; exact dropGuard_left taken (by decide : 0 < 2)
  next guard here => rw [here]; exact dropGuard_left taken (by decide : 0 < 3)
  next guard here => rw [here]; exact dropGuard_left taken (by decide : 0 < 2)
  next guard here => rw [here]; exact dropGuard_left taken (by decide : 0 < 1)
  next guard here => rw [here]; exact dropGuard_left taken (by decide : 0 < 2)
  next guard here => rw [here]; exact dropGuard_left taken (by decide : 0 < 1)
  next guard here => rw [here]; exact dropGuard_left taken (by decide : 0 < 1)
  next body here => rw [here]; exact dropGuard_left taken (by decide : 0 < 1)
  next => cases taken

theorem unmoved {action : Action} (same : t.requests = s.requests) {r : Nat} (other : moves r [action] = 0) :
    moves r [action] + left t r ≤ left s r := by
  rw [other, Nat.zero_add, left, left, same]

/-- The moves made and the moves left never grow together. -/
theorem step_moves {action : Action} (taken : step action s = some t) (r : Nat) :
    moves r [action] + left t r ≤ left s r := by
  cases action with
  | arrive path host upgrade =>
    cases taken
    rw [moves, List.countP_singleton, if_neg (by simp), Nat.zero_add, left, left]
    rcases Nat.lt_trichotomy r s.requests.length with before | rfl | after
    · rw [List.getElem?_append_left before]
    · rw [List.getElem?_concat_length, List.getElem?_eq_none (Nat.le_refl _)]
      exact Nat.le_refl 8
    · rw [List.getElem?_eq_none (by simpa using Nat.succ_le_of_lt after),
        List.getElem?_eq_none (Nat.le_of_lt after)]
  | advance i move =>
    obtain ⟨q, q', reg, here, moved, rfl⟩ := advance_cases taken
    have less := step_left moved
    have inside := (List.getElem?_eq_some_iff.mp here).1
    rw [moves, List.countP_singleton, left, left]
    by_cases same : i = r
    · subst same
      simp only [beq_self_eq_true, if_true, List.getElem?_set_self inside, here]
      omega
    · simp only [beq_iff_eq, same, if_false, List.getElem?_set_ne same]
      omega
  | probe b now healthy => cases taken; exact unmoved rfl rfl
  | sample b => cases taken; exact unmoved rfl rfl
  | reloadStart now routes =>
    obtain ⟨-, ⟨e, -, rfl⟩ | ⟨-, rfl⟩⟩ := reloadStart_cases taken
    · exact unmoved rfl rfl
    · exact unmoved rfl rfl
  | reloadRoute =>
    obtain ⟨now, routes, route, todo, newGroups, g, reg, -, -, rfl⟩ := reloadRoute_cases taken
    exact unmoved rfl rfl
  | reloadSwap =>
    obtain ⟨now, routes, newGroups, -, rfl⟩ := reloadSwap_cases taken
    exact unmoved rfl rfl

theorem run_moves {actions : List Action} (done : run step actions s = some t) (r : Nat) :
    moves r actions + left t r ≤ left s r := by
  induction actions generalizing s with
  | nil =>
    cases done
    simp [moves]
  | cons action rest ih =>
    obtain ⟨mid, first, later⟩ := run_cons_some.mp done
    have one := step_moves first r
    have more := ih later
    have split : moves r (action :: rest) = moves r [action] + moves r rest := by
      rw [moves, moves, moves, ← List.countP_append, List.singleton_append]
    omega

end Moves

def nextMove (q : Request) : Move :=
  match q.phase with
  | .received => .findGroup
  | .routed _ => .selectBackend
  | .chosen _ => if q.upgrade then .spawn else .openGuard
  | .upgrading _ => .upgrade true
  | .upgraded _ => .openGuard
  | .proxying _ => .send
  | .awaiting _ => .answer
  | .session _ | .streaming _ | .finished _ => .close

def Over (s : System) (r : Nat) : Prop :=
  ∀ q, s.requests[r]? = some q → ∃ outcome, q.phase = .finished outcome

def Moving (actions : List Action) : Prop := ∀ a ∈ actions, ∃ r move, a = .advance r move

section Rest
variable {q q' : Request} {reg reg' : BackendRegistry} {refs : BackendId → Nat} {s t : System}

theorem openGuard_some {b : BackendId} (few : refs b ≤ isizeMax) :
    ∃ q' reg', q.openGuard reg refs b = some (q', reg') := by
  rw [Request.openGuard, if_pos few]
  exact ⟨_, _, rfl⟩

theorem findGroup_some (here : q.phase = .received) :
    ∃ q' reg', q.step reg false refs .findGroup = some (q', reg') := by
  simp only [Request.step, here]
  split
  · exact ⟨_, _, rfl⟩
  · split
    · exact ⟨_, _, rfl⟩
    · cases reg.findGroup q.host with
      | none => exact ⟨_, _, rfl⟩
      | some g => exact ⟨_, _, rfl⟩

theorem selectBackend_some {g : GroupId} (here : q.phase = .routed g) (few : ∀ b, refs b ≤ isizeMax) :
    ∃ q' reg', q.step reg false refs .selectBackend = some (q', reg') := by
  simp only [Request.step, here]
  cases reg.selectBackend g with
  | none => exact ⟨_, _, rfl⟩
  | some b =>
    simp only [few b, if_true]
    exact ⟨_, _, rfl⟩

theorem nextMove_some (unfinished : ∀ outcome, q.phase ≠ .finished outcome) (few : ∀ b, refs b ≤ isizeMax) :
    ∃ q' reg', q.step reg false refs (nextMove q) = some (q', reg') := by
  unfold nextMove
  cases here : q.phase with
  | received => exact findGroup_some here
  | routed g => exact selectBackend_some here few
  | chosen b =>
    cases socket : q.upgrade with
    | true =>
      simp only [Request.step, here, socket, if_true]
      exact ⟨_, _, rfl⟩
    | false =>
      obtain ⟨q', reg', opened⟩ := @openGuard_some q reg refs b (few b)
      exact ⟨q', reg', by simp [Request.step, here, socket, opened]⟩
  | upgraded b =>
    obtain ⟨q', reg', opened⟩ := @openGuard_some q reg refs b (few b)
    exact ⟨q', reg', by simp only [Request.step, here, opened]⟩
  | upgrading b =>
    simp only [Request.step, here]
    exact ⟨_, _, rfl⟩
  | proxying guard =>
    simp only [Request.step, here]
    exact ⟨_, _, rfl⟩
  | awaiting guard =>
    simp only [Request.step, here]
    exact ⟨_, _, rfl⟩
  | session guard =>
    simp only [Request.step, here]
    exact ⟨_, _, rfl⟩
  | streaming body =>
    simp only [Request.step, here]
    exact ⟨_, _, rfl⟩
  | finished outcome => exact absurd here (unfinished outcome)

theorem refs_le (s : System) (b : BackendId) : s.refs b ≤ 2 * s.requests.length := by
  rw [System.refs]
  induction s.requests with
  | nil => exact Nat.le_refl 0
  | cons q rest ih =>
    have one : q.phase.refs b ≤ 2 := by
      cases q.phase <;> grind [Phase.refs]
    simp only [List.foldr_cons, List.length_cons]
    omega

structure Onward (n : Nat) (s t : System) : Prop where
  moves : ∃ actions, Moving actions ∧ actions.length ≤ n ∧ run step actions s = some t
  unlocked : t.reload = none
  size : t.requests.length = s.requests.length
  kept : ∀ r, Over s r → Over t r

theorem Onward.refl (unlocked : s.reload = none) (n : Nat) : Onward n s s where
  moves := ⟨[], by simp [Moving], Nat.zero_le n, rfl⟩
  unlocked := unlocked
  size := rfl
  kept _ := id

theorem Onward.trans {n m : Nat} {mid : System} (first : Onward n s mid) (second : Onward m mid t) :
    Onward (n + m) s t := by
  obtain ⟨before, moving, few, reached⟩ := first.moves
  obtain ⟨after, moving', few', reached'⟩ := second.moves
  refine ⟨⟨before ++ after, fun a member => ?_, ?_, run_trans reached reached'⟩, second.unlocked,
    second.size.trans first.size, fun r ended => second.kept r (first.kept r ended)⟩
  · rcases List.mem_append.mp member with old | new
    · exact moving a old
    · exact moving' a new
  · rw [List.length_append]
    omega

theorem onward_move {r : Nat} (here : s.requests[r]? = some q) (unlocked : s.reload = none)
    (few : 2 * s.requests.length ≤ isizeMax) (unfinished : ∀ outcome, q.phase ≠ .finished outcome) :
    ∃ q' t, Onward 1 s t ∧ t.requests[r]? = some q' ∧ Phase.left q'.phase < Phase.left q.phase := by
  obtain ⟨q', reg', moved⟩ :=
    @nextMove_some q s.reg s.refs unfinished fun b => Nat.le_trans (refs_le s b) few
  have taken : step (.advance r (nextMove q)) s =
      some { s with reg := reg', requests := s.requests.set r q' } := by
    simp only [step, here, unlocked, Option.isSome_none, moved]
  have inside := (List.getElem?_eq_some_iff.mp here).1
  refine ⟨q', _, ⟨⟨[.advance r (nextMove q)], by simp [Moving], Nat.le_refl 1, run_single.mpr taken⟩, unlocked,
    List.length_set, fun r' ended p there => ?_⟩, List.getElem?_set_self inside, step_left moved⟩
  by_cases same : r = r'
  · subst same
    obtain ⟨outcome, phase⟩ := ended q here
    exact absurd phase (unfinished outcome)
  · rw [List.getElem?_set_ne same] at there
    exact ended p there

theorem finish_one {r n : Nat} (here : s.requests[r]? = some q) (unlocked : s.reload = none)
    (few : 2 * s.requests.length ≤ isizeMax) (bound : Phase.left q.phase ≤ n) :
    ∃ t, Onward n s t ∧ Over t r := by
  induction n generalizing s q with
  | zero =>
    refine ⟨s, .refl unlocked 0, fun q' there => ?_⟩
    cases here.symm.trans there
    cases phase : q.phase with
    | finished outcome => exact ⟨outcome, rfl⟩
    | _ => simp [phase, Phase.left] at bound
  | succ n ih =>
    by_cases ended : ∃ outcome, q.phase = .finished outcome
    · refine ⟨s, .refl unlocked _, fun q' there => ?_⟩
      cases here.symm.trans there
      exact ended
    · obtain ⟨q', mid, moved, there, less⟩ :=
        onward_move here unlocked few fun outcome phase => ended ⟨outcome, phase⟩
      obtain ⟨t, later, finished⟩ := ih there moved.unlocked (moved.size ▸ few) (by omega)
      refine ⟨t, ?_, finished⟩
      rw [Nat.add_comm]
      exact moved.trans later

theorem finish_all (unlocked : s.reload = none) (few : 2 * s.requests.length ≤ isizeMax) (k : Nat) :
    ∃ t, Onward (8 * k) s t ∧ ∀ r < k, Over t r := by
  induction k with
  | zero => exact ⟨s, .refl unlocked _, by simp⟩
  | succ k ih =>
    obtain ⟨mid, moved, finished⟩ := ih
    cases here : mid.requests[k]? with
    | none =>
      refine ⟨mid, moved.trans (.refl moved.unlocked 8), fun r less => ?_⟩
      rcases Nat.lt_succ_iff_lt_or_eq.mp less with earlier | rfl
      · exact finished r earlier
      · intro q there
        rw [here] at there
        cases there
    | some q =>
      obtain ⟨t, later, ended⟩ := finish_one here moved.unlocked (moved.size ▸ few) (Phase.left_le q.phase)
      refine ⟨t, moved.trans later, fun r less => ?_⟩
      rcases Nat.lt_succ_iff_lt_or_eq.mp less with earlier | rfl
      · exact later.kept r (finished r earlier)
      · exact ended

end Rest

section Runs
variable {now : Instant} {routes : List RouteConfig} {reg : BackendRegistry} {s : System} {actions : List Action}

def roundsLeft (s : System) : Nat :=
  match s.reload with
  | none => 0
  | some reload => reload.todo.length + 1

theorem reload_ends {idle : BackendRegistry} (follows : AtomicReload.Follows s idle) :
    ∃ actions t, (∀ a ∈ actions, a = .reloadRoute ∨ a = .reloadSwap) ∧ actions.length = roundsLeft s ∧
      run step actions s = some t ∧ t.reload = none ∧ t.requests = s.requests := by
  cases installing : s.reload with
  | none => exact ⟨[], s, by simp, by simp [roundsLeft, installing], rfl, installing, rfl⟩
  | some reload =>
    obtain ⟨time, target, todo, newGroups⟩ := reload
    have underway := follows.busy _ installing
    have parsed := Reload.validate_ok_iff.mp underway.accepted
    have todos : ∀ route ∈ todo, ∃ kind, Hosts.parse route.host = .ok kind :=
      fun route member => parsed route (underway.left.subset member)
    obtain ⟨ids, last, applied⟩ := @Reload.applyRoutes_isSome time s.reg todo todos
    have rounds := RouteSnapshot.rounds_run installing applied
    let swapped : System := { s with
      reg := { last with groups := newGroups ++ ids }, reload := none, inForce := target }
    refine ⟨List.replicate todo.length .reloadRoute ++ [.reloadSwap], swapped, fun a member => ?_, ?_,
      run_snoc_some.mpr ⟨_, rounds, rfl⟩, rfl, rfl⟩
    · rcases List.mem_append.mp member with round | swap
      · exact Or.inl (List.eq_of_mem_replicate round)
      · exact Or.inr (List.mem_singleton.mp swap)
    · rw [List.length_append, List.length_replicate, roundsLeft, installing]
      rfl

theorem guards_over (ended : ∀ r, Over s r) (b : BackendId) : s.guards b = 0 := by
  rw [System.guards, List.countP_eq_zero]
  intro q member
  obtain ⟨r, here⟩ := List.mem_iff_getElem?.mp member
  obtain ⟨outcome, phase⟩ := ended r q here
  simp [phase, Phase.guard]

theorem over_of_left {r : Nat} (none : left s r = 0) : Over s r := by
  intro q here
  rw [left, here] at none
  cases phase : q.phase with
  | finished outcome => exact ⟨outcome, rfl⟩
  | _ => simp [phase, Phase.left] at none

theorem counters_over (ledger : Ledger s) (ended : ∀ r, Over s r) (b : BackendId) :
    (s.reg.backend b).activeConnections = 0 := by
  have balanced : (s.reg.backend b).activeConnections.toNat = s.guards b := ledger.balanced b
  rw [guards_over ended b] at balanced
  exact UInt64.toNat_inj.mp balanced

theorem Onward.whole {start mid t : System} {n : Nat} (onward : Onward n mid t)
    (same : mid.requests = start.requests) (ended : ∀ r < start.requests.length, Over t r) : ∀ r, Over t r := by
  intro r q here
  have inside := (List.getElem?_eq_some_iff.mp here).1
  exact ended r (by rwa [onward.size, same] at inside) q here

def Finishing (a : Action) : Prop := (∃ r move, a = .advance r move) ∨ a = .reloadRoute ∨ a = .reloadSwap

/-- In every run a request makes eight moves at most, and it has ended when it has made eight. And in
every state of every run no lock is held for ever: a reload under way can make its rounds, each request
that is left can then make its moves, and every connection counter is zero in the end. The bound on the
requests says that cloning an `Arc` once more does not abort the process. -/
theorem requests_end (built : BackendRegistry.new now routes = .ok reg)
    (done : run step actions (.start reg routes) = some s) (few : 2 * s.requests.length ≤ isizeMax) :
    (∀ r, moves r actions ≤ 8 ∧ (moves r actions = 8 → Over s r)) ∧
    ∃ rest t, (∀ a ∈ rest, Finishing a) ∧ rest.length ≤ roundsLeft s + 8 * s.requests.length ∧
      run step rest s = some t ∧ t.reload = none ∧ (∀ r, Over t r) ∧
      ∀ b, (t.reg.backend b).activeConnections = 0 := by
  constructor
  · intro r
    have total := run_moves done r
    have start : left (.start reg routes) r = 8 := rfl
    exact ⟨by omega, fun all => over_of_left (by omega)⟩
  · obtain ⟨before, idle, -, -, follows⟩ := AtomicReload.run_sequential done
    obtain ⟨rounds, mid, own, count, reached, unlocked, same⟩ := reload_ends follows
    obtain ⟨t, onward, ended⟩ := finish_all unlocked (same ▸ few) s.requests.length
    obtain ⟨advances, moving, short, last⟩ := onward.moves
    have whole := onward.whole same ended
    refine ⟨rounds ++ advances, t, fun a member => ?_, ?_, run_trans reached last, onward.unlocked, whole, ?_⟩
    · rcases List.mem_append.mp member with round | move
      · exact Or.inr (own a round)
      · exact Or.inl (moving a move)
    · rw [List.length_append]
      omega
    · have path := run_trans done (run_trans reached last)
      exact counters_over (run_invariant step_ledger (ledger_start built) path) whole

/-- A WebSocket session is open, and a reload stands before its second round. -/
theorem requests_end_session : ∃ reg s t,
    BackendRegistry.new 0 [⟨['a'], [⟨['u'], 5, false⟩]⟩] = .ok reg ∧
      Reachable step (.start reg [⟨['a'], [⟨['u'], 5, false⟩]⟩]) s ∧
      (s.reg.backend 0).activeConnections = 1 ∧ s.reload.isSome = true ∧
      Reachable step s t ∧ t.reload = none ∧ Over t 0 ∧ (t.reg.backend 0).activeConnections = 0 := by
  let routes : List RouteConfig := [⟨['a'], [⟨['v'], 3, false⟩]⟩, ⟨['b'], [⟨['w'], 1, false⟩]⟩]
  let trace : List Action := [.arrive ['/'] ['a'] true, .advance 0 .findGroup, .advance 0 .selectBackend,
    .advance 0 .spawn, .advance 0 (.upgrade true), .advance 0 .openGuard, .advance 0 .send,
    .advance 0 .answer, .reloadStart 7 routes, .reloadRoute]
  let reg : BackendRegistry := ⟨⟨[⟨['u'], 5, false, true, 0, 0, 0⟩]⟩, ⟨[⟨['a'], .exact ['a'], [0], rfl⟩]⟩, [0]⟩
  have built : BackendRegistry.new 0 [⟨['a'], [⟨['u'], 5, false⟩]⟩] = .ok reg := rfl
  have done : run step trace (.start reg [⟨['a'], [⟨['u'], 5, false⟩]⟩]) = some _ := rfl
  obtain ⟨-, rest, t, -, -, reached, unlocked, ended, idle⟩ := requests_end built done (by decide)
  exact ⟨_, _, t, built, ⟨trace, done⟩, rfl, rfl, ⟨rest, reached⟩, unlocked, ended 0, idle 0⟩

end Runs

section AllTasks
variable {Cert PrivateKey SigningKey : Type} {formats : ReloadLoop.Formats Cert PrivateKey SigningKey}
  {config : HealthConfig} {s t : Tasks.State Cert SigningKey}

def taskMoves (r : Nat) (actions : List Tasks.Action) : Nat :=
  actions.countP fun
    | .request (.advance r' _) => r' == r
    | _ => false

/-- The steps that the body of the reload loop still has to make, and some that it has made. -/
def bodyLeft (s : Tasks.State Cert SigningKey) : Nat :=
  match s.watch.position with
  | .applying c => c.routes.length + 4
  | _ => 0

theorem task_moves {action : Tasks.Action} (taken : Tasks.step formats config action s = some t) (r : Nat) :
    taskMoves r [action] + left t.traffic r ≤ left s.traffic r := by
  have shorter : left t.traffic r ≤ left s.traffic r := by
    rcases Tasks.traffic_view taken with same | ⟨a, moved⟩
    · rw [same]
    · exact Nat.le_trans (Nat.le_add_left ..) (step_moves moved r)
  cases Tasks.step_change taken with
  | request a next ordinary moved =>
    rcases ordinary with ⟨path, host, upgrade, rfl⟩ | ⟨i, move, rfl⟩ <;> exact step_moves moved r
  | _ =>
    rw [taskMoves, List.countP_singleton, if_neg Bool.false_ne_true]
    omega

theorem run_task_moves {actions : List Tasks.Action} (done : run (Tasks.step formats config) actions s = some t)
    (r : Nat) : taskMoves r actions + left t.traffic r ≤ left s.traffic r := by
  induction actions generalizing s with
  | nil =>
    cases done
    simp [taskMoves]
  | cons action rest ih =>
    obtain ⟨mid, first, later⟩ := run_cons_some.mp done
    have one := task_moves first r
    have more := ih later
    have split : taskMoves r (action :: rest) = taskMoves r [action] + taskMoves r rest := by
      rw [taskMoves, taskMoves, taskMoves, ← List.countP_append, List.singleton_append]
    omega

theorem run_requests {actions : List Action} {next : System} (moving : Moving actions)
    (done : run step actions s.traffic = some next) :
    run (Tasks.step formats config) (actions.map .request) s = some { s with traffic := next } := by
  induction actions generalizing s with
  | nil =>
    cases done
    rfl
  | cons action rest ih =>
    obtain ⟨⟨r, move, rfl⟩, others⟩ := List.forall_mem_cons.mp moving
    obtain ⟨mid, first, later⟩ := run_cons_some.mp done
    have taken : Tasks.step formats config (.request (.advance r move)) s = some { s with traffic := mid } := by
      simp only [Tasks.step, first, Option.map_some]
    exact run_cons_some.mpr ⟨_, taken, @ih { s with traffic := mid } others later⟩

theorem body_ends {p : LiveConfig.Process Cert SigningKey} (body : Tasks.Body s p) (disk : Tls.Disk) :
    ∃ own t, (∀ a ∈ own, a.Own disk) ∧ own.length ≤ bodyLeft s ∧
      run (Tasks.step formats config) own s = some t ∧ t.traffic.reload = none ∧
      t.traffic.requests = s.traffic.requests := by
  cases here : s.watch.position with
  | applying c =>
    have finishes : Tasks.Finishes formats config disk c (c.routes.length + 4) s := body.finishes here
    obtain ⟨own, t, listed, few, done, finished⟩ := finishes
    rw [bodyLeft, here]
    exact ⟨own, t, listed, few, done, finished.unlocked, finished.requests⟩
  | _ =>
    refine ⟨[], s, nofun, Nat.zero_le _, rfl, ?_, rfl⟩
    cases body with
    | window _ _ unlocked => exact unlocked
    | table c _ applying => rw [here] at applying; cases applying
    | rounds c _ _ applying => rw [here] at applying; cases applying
    | certs c _ _ _ _ applying => rw [here] at applying; cases applying

/-- The same next to the other tasks of the process: a reload under way runs to its end, and then each
request that has arrived does. -/
theorem all_tasks_end {now launch : Instant} {routes : List RouteConfig} {p : LiveConfig.Process Cert SigningKey}
    {r : ReloadLoop.State Cert SigningKey} {actions : List Tasks.Action} (launched : r.process = some p)
    (built : BackendRegistry.new launch routes = .ok p.registry)
    (done : run (Tasks.step formats config) actions (.start now routes p r) = some s)
    (few : 2 * s.traffic.requests.length ≤ isizeMax) (disk : Tls.Disk) :
    (∀ i, taskMoves i actions ≤ 8 ∧ (taskMoves i actions = 8 → Over s.traffic i)) ∧
    ∃ rest t, (∀ a ∈ rest, a.Own disk ∨ ∃ i move, a = .request (.advance i move)) ∧
      rest.length ≤ bodyLeft s + 8 * s.traffic.requests.length ∧
      run (Tasks.step formats config) rest s = some t ∧ t.traffic.reload = none ∧ (∀ i, Over t.traffic i) ∧
      ∀ b, (t.traffic.reg.backend b).activeConnections = 0 := by
  constructor
  · intro i
    have total := run_task_moves done i
    have start : left (Tasks.State.start now routes p r).traffic i = 8 := rfl
    exact ⟨by omega, fun all => over_of_left (by omega)⟩
  · obtain ⟨_, -, _, -, -, body⟩ := Tasks.run_mirrors launched done
    obtain ⟨own, mid, listed, count, reached, unlocked, same⟩ := body_ends body disk
    obtain ⟨last, onward, ended⟩ := finish_all unlocked (same ▸ few) s.traffic.requests.length
    obtain ⟨advances, moving, short, moved⟩ := onward.moves
    have whole := onward.whole same ended
    let t : Tasks.State Cert SigningKey := { mid with traffic := last }
    have later : run (Tasks.step formats config) (own ++ advances.map .request) s = some t :=
      run_trans reached (run_requests moving moved)
    refine ⟨own ++ advances.map .request, t, fun a member => ?_, ?_, later, onward.unlocked, whole, ?_⟩
    · rcases List.mem_append.mp member with body | request
      · exact Or.inl (listed a body)
      · obtain ⟨action, there, rfl⟩ := List.mem_map.mp request
        obtain ⟨i, move, rfl⟩ := moving action there
        exact Or.inr ⟨i, move, rfl⟩
    · rw [List.length_append, List.length_map]
      omega
    · obtain ⟨trace, path⟩ := Tasks.traffic_of_run (run_trans done later)
      exact counters_over (run_invariant step_ledger (ledger_start built) path) whole

end AllTasks

section Drain
variable {s t : System} {b : BackendId} {n : Nat}

/-- No request from the `n`-th on has to do with `b`. -/
def Spared (b : BackendId) (n : Nat) (s : System) : Prop :=
  ∀ r q, n ≤ r → s.requests[r]? = some q → q.phase.pending ≠ some b ∧ q.phase.guard ≠ some ⟨b⟩

theorem change_spared {q q' : Request} {reg reg' : BackendRegistry} {locked : Bool} {refs : BackendId → Nat}
    (change : q.Change reg locked refs q' reg') (drained : (reg.backend b).drain = true)
    (spared : q.phase.pending ≠ some b ∧ q.phase.guard ≠ some ⟨b⟩) :
    q'.phase.pending ≠ some b ∧ q'.phase.guard ≠ some ⟨b⟩ := by
  cases change with
  | idle phase next same guard before after counted routed left =>
    rw [next]
    exact ⟨by simp [Request.enter, after], by rw [Request.enter, guard]; exact spared.2⟩
  | select g e here found next same =>
    rw [next]
    refine ⟨fun same => ?_, by simp [Request.enter, Phase.guard]⟩
    cases same
    obtain ⟨-, open', -⟩ := Backends.selectBackend_some found
    rw [drained] at open'
    cases open'
  | wait e phase here there next same =>
    rw [next]
    refine ⟨?_, ?_⟩
    · rw [Request.enter, there, ← here]
      exact spared.1
    · simp [Request.enter, (Phase.of_pending there).1]
  | abandon e outcome here failed next same => simp [next, Request.enter, Phase.pending, Phase.guard]
  | opened e here few next written =>
    rw [next]
    refine ⟨by simp [Phase.pending], fun same => ?_⟩
    cases same
    exact spared.1 here
  | closed guard ending errors here counted next =>
    obtain ⟨rfl, -⟩ := Prod.mk.inj next
    simp [Phase.pending, Phase.guard]

theorem step_spared {action : Action} (taken : step action s = some t)
    (drained : (s.reg.backend b).drain = true) (inside : n ≤ s.requests.length) (spared : Spared b n s) :
    Spared b n t ∧ n ≤ t.requests.length := by
  cases action with
  | arrive path host upgrade =>
    cases taken
    refine ⟨fun r q late here => ?_, by simp; omega⟩
    rcases Nat.lt_trichotomy r s.requests.length with old | rfl | beyond
    · rw [List.getElem?_append_left old] at here
      exact spared r q late here
    · rw [List.getElem?_concat_length] at here
      cases here
      simp [Phase.pending, Phase.guard]
    · rw [List.getElem?_eq_none (by simpa using Nat.succ_le_of_lt beyond)] at here
      cases here
  | advance i move =>
    obtain ⟨q, q', reg, here, moved, rfl⟩ := advance_cases taken
    refine ⟨fun r p late there => ?_, by simpa using inside⟩
    by_cases same : i = r
    · subst same
      rw [List.getElem?_set_self (List.getElem?_eq_some_iff.mp here).1] at there
      cases there
      exact change_spared (Request.step_change moved) drained (spared i q late here)
    · rw [List.getElem?_set_ne same] at there
      exact spared r p late there
  | probe e now healthy => cases taken; exact ⟨spared, inside⟩
  | sample e => cases taken; exact ⟨spared, inside⟩
  | reloadStart now routes =>
    obtain ⟨-, ⟨e, -, rfl⟩ | ⟨-, rfl⟩⟩ := reloadStart_cases taken
    · exact ⟨spared, inside⟩
    · exact ⟨spared, inside⟩
  | reloadRoute =>
    obtain ⟨now, routes, route, todo, newGroups, g, reg, -, -, rfl⟩ := reloadRoute_cases taken
    exact ⟨spared, inside⟩
  | reloadSwap =>
    obtain ⟨now, routes, newGroups, -, rfl⟩ := reloadSwap_cases taken
    exact ⟨spared, inside⟩

theorem run_spared {actions : List Action} (done : run step actions s = some t)
    (drained : ∀ v, Visits step actions s v → (v.reg.backend b).drain = true)
    (inside : n ≤ s.requests.length) (spared : Spared b n s) : Spared b n t := by
  induction actions generalizing s with
  | nil =>
    cases done
    exact spared
  | cons action rest ih =>
    obtain ⟨mid, taken, later⟩ := run_cons_some.mp done
    obtain ⟨next, more⟩ := step_spared taken (drained s (.start _ s)) inside spared
    exact ih later (fun v seen => drained v (visits_cons.mpr (Or.inr ⟨mid, taken, seen⟩))) more next

theorem spared_arrived (s : System) (b : BackendId) : Spared b s.requests.length s := by
  intro r q late here
  rw [List.getElem?_eq_none late] at here
  cases here

theorem idle_of_spared (ledger : Ledger t) (spared : Spared b n t) (ended : ∀ r < n, Over t r) :
    (t.reg.backend b).activeConnections = 0 ∧ t.pending b = 0 ∧ t.guards b = 0 := by
  have free : ∀ q ∈ t.requests, q.phase.pending ≠ some b ∧ q.phase.guard ≠ some ⟨b⟩ := by
    intro q member
    obtain ⟨r, here⟩ := List.mem_iff_getElem?.mp member
    rcases Nat.lt_or_ge r n with early | late
    · obtain ⟨outcome, phase⟩ := ended r early q here
      simp [phase, Phase.pending, Phase.guard]
    · exact spared r q late here
  have waiting : t.pending b = 0 := by
    rw [System.pending, List.countP_eq_zero]
    exact fun q member same => (free q member).1 (by simpa using same)
  have held : t.guards b = 0 := by
    rw [System.guards, List.countP_eq_zero]
    exact fun q member same => (free q member).2 (by simpa using same)
  have balanced : (t.reg.backend b).activeConnections.toNat = t.guards b := ledger.balanced b
  rw [held] at balanced
  exact ⟨UInt64.toNat_inj.mp balanced, waiting, held⟩

/-- From any state in which a backend is drained, and as long as it stays so: once the requests that had
arrived by then have ended, it has no connections and nobody waits for it, whatever other requests have
come since; and nobody opens a connection to it while it stays drained. -/
theorem drain_completes {now : Instant} {routes : List RouteConfig} {reg : BackendRegistry}
    {actions : List Action} (built : BackendRegistry.new now routes = .ok reg)
    (reached : Reachable step (.start reg routes) s) (done : run step actions s = some t)
    (drained : ∀ v, Visits step actions s v → (v.reg.backend b).drain = true)
    (ended : ∀ r < s.requests.length, Over t r) :
    (t.reg.backend b).activeConnections = 0 ∧ t.pending b = 0 ∧ Admission.StaysClosed b t := by
  have later := run_spared done drained (Nat.le_refl _) (spared_arrived s b)
  have ledger : Ledger t := by
    obtain ⟨before, first⟩ := reached
    exact run_invariant step_ledger (ledger_start built) (run_trans first done)
  obtain ⟨idle, waiting, held⟩ := idle_of_spared ledger later ended
  refine ⟨idle, waiting, fun rest last again flags => ?_⟩
  exact (Admission.run_quiet ledger ⟨drained t (.finish done), held, waiting⟩ again flags).idle

/-- A request has been given the backend before a reload drains it, and connects after that. -/
theorem drain_completes_pending : ∃ reg s t,
    BackendRegistry.new 0 [⟨['a'], [⟨['u'], 5, false⟩]⟩] = .ok reg ∧
      Reachable step (.start reg [⟨['a'], [⟨['u'], 5, false⟩]⟩]) s ∧ s.pending 0 = 1 ∧
      run step [.advance 0 .openGuard, .advance 0 .reject] s = some t ∧
      (t.reg.backend 0).activeConnections = 0 ∧ Admission.StaysClosed 0 t := by
  let trace : List Action := [.arrive ['/'] ['a'] false, .advance 0 .findGroup, .advance 0 .selectBackend,
    .reloadStart 1 [⟨['a'], [⟨['u'], 5, true⟩]⟩], .reloadRoute, .reloadSwap]
  let reg : BackendRegistry := ⟨⟨[⟨['u'], 5, false, true, 0, 0, 0⟩]⟩, ⟨[⟨['a'], .exact ['a'], [0], rfl⟩]⟩, [0]⟩
  let mid : System := ⟨{ reg with backendAt := ⟨[⟨['u'], 5, true, true, 0, 0, 0⟩]⟩ },
    [⟨['/'], ['a'], false, .chosen 0, []⟩], none, [⟨['a'], [⟨['u'], 5, true⟩]⟩]⟩
  have built : BackendRegistry.new 0 [⟨['a'], [⟨['u'], 5, false⟩]⟩] = .ok reg := rfl
  have before : run step trace (.start reg [⟨['a'], [⟨['u'], 5, false⟩]⟩]) = some mid := rfl
  have done : run step [.advance 0 .openGuard, .advance 0 .reject] mid = some _ := rfl
  have drained : ∀ v, Visits step [.advance 0 .openGuard, .advance 0 .reject] mid v →
      (v.reg.backend 0).drain = true := by
    intro v seen
    rcases visits_cons.mp seen with rfl | ⟨mid, taken, seen⟩
    · rfl
    · cases taken
      rcases visits_cons.mp seen with rfl | ⟨mid, taken, seen⟩
      · rfl
      · cases taken
        rw [visits_nil.mp seen]
        rfl
  obtain ⟨idle, -, closed⟩ := drain_completes built ⟨trace, before⟩ done drained (by
    intro r less q here
    obtain rfl : r = 0 := Nat.lt_one_iff.mp less
    cases here
    exact ⟨_, rfl⟩)
  exact ⟨reg, mid, _, built, ⟨trace, before⟩, rfl, done, idle, closed⟩

end Drain

end TinyLb.Completion
