import TinyLb.ConnectionLedger

/-! What `max_connections` and `drain` promise. Both are checked by `select_backend`,
and a request opens its connection in a later step, so a selection that has not been
opened yet is invisible to the check. -/

namespace TinyLb.Admission
open Config Hosts Backends Traffic ConnectionLedger

/-- No reload step changes the cap of `b` while it exists. -/
def CapFixed (b : BackendId) (action : Action) (s : System) : Prop :=
  ∀ t, step action s = some t → b < s.reg.backendAt.size →
    (t.reg.backend b).maxConnections = (s.reg.backend b).maxConnections

/-- A selection of `b` finds room for the requests that have already been given `b` but
are not counted yet. -/
def Admitted (b : BackendId) (action : Action) (s : System) : Prop :=
  ∀ r (q : Request) g, action = .advance r .selectBackend → s.requests[r]? = some q →
    q.phase = .routed g → s.reg.selectBackend g = some b →
    (s.reg.backend b).activeConnections.toNat + s.pending b < (s.reg.backend b).maxConnections.toNat

theorem CapFixed.of_step {b : BackendId} {action : Action} {s t : System} (taken : step action s = some t)
    (same : (t.reg.backend b).maxConnections = (s.reg.backend b).maxConnections) :
    CapFixed b action s := by
  intro other again _
  rw [taken] at again
  cases again
  exact same

theorem admitted_of_ne {b : BackendId} {action : Action} {s : System}
    (other : ∀ r, action ≠ .advance r .selectBackend) : Admitted b action s :=
  fun r _ _ same => absurd same (other r)

section Reserve
variable {s t : System}

theorem routed_move {q : Request} {reg : BackendRegistry} {locked : Bool} {refs : BackendId → Nat}
    {move : Move} {g : GroupId} {after : Request × BackendRegistry} (here : q.phase = .routed g)
    (taken : q.step reg locked refs move = some after) : move = .selectBackend := by
  cases move with
  | selectBackend => rfl
  | upgrade accepted => cases accepted <;> simp [Request.step, here] at taken
  | _ => simp [Request.step, here] at taken

theorem pending_grows {action : Action} {b : BackendId} (taken : step action s = some t)
    (grows : s.pending b < t.pending b) :
    ∃ r q g, action = .advance r .selectBackend ∧ s.requests[r]? = some q ∧ q.phase = .routed g ∧
      s.reg.selectBackend g = some b := by
  cases action with
  | advance r move =>
    obtain ⟨q, q', reg, here, moved, rfl⟩ := advance_cases taken
    have counts : ∀ {before after : Option BackendId}, q.phase.pending = before →
        q'.phase.pending = after → after = some b ∧ before ≠ some b := by
      intro before after old new
      have counts := pending_set here reg b old new
      split at counts
      · split at counts <;> omega
      · split at counts
        · exact ⟨‹_›, ‹_›⟩
        · omega
    cases Request.step_change moved with
    | idle phase next same guard before after =>
      have wrong := (counts before (next.symm ▸ after : q'.phase.pending = none)).1
      cases wrong
    | select g e phase found next same =>
      have unreserved : q.phase.pending = none := by rw [phase]; rfl
      have same := (counts unreserved (next ▸ rfl : q'.phase.pending = some e)).1
      cases same
      have selecting := routed_move phase moved
      subst selecting
      exact ⟨r, q, g, rfl, here, phase, found⟩
    | wait e phase waiting there next same =>
      obtain ⟨same, other⟩ := counts waiting (next.symm ▸ there : q'.phase.pending = some e)
      exact absurd same other
    | abandon e outcome waiting failed next same =>
      have wrong := (counts waiting (next ▸ rfl : q'.phase.pending = none)).1
      cases wrong
    | opened e waiting few next written =>
      have wrong := (counts waiting (next ▸ rfl : q'.phase.pending = none)).1
      cases wrong
    | closed guard ending errors held counted next =>
      have gone : q'.phase.pending = none := (Prod.mk.inj next).1 ▸ rfl
      have wrong := (counts (Phase.of_guard held).1 gone).1
      cases wrong
  | arrive path host upgrade =>
    cases taken
    rw [System.pending, System.pending, List.countP_append] at grows
    exact absurd grows (Nat.lt_irrefl _)
  | probe e now healthy => cases taken; exact absurd grows (Nat.lt_irrefl _)
  | sample e => cases taken; exact absurd grows (Nat.lt_irrefl _)
  | reloadStart now routes =>
    rcases (reloadStart_cases taken).2 with ⟨e, -, rfl⟩ | ⟨-, rfl⟩ <;>
      exact absurd grows (Nat.lt_irrefl _)
  | reloadRoute =>
    obtain ⟨now, routes, route, todo, newGroups, g, reg, -, -, rfl⟩ := reloadRoute_cases taken
    exact absurd grows (Nat.lt_irrefl _)
  | reloadSwap =>
    obtain ⟨now, routes, newGroups, -, rfl⟩ := reloadSwap_cases taken
    exact absurd grows (Nat.lt_irrefl _)

theorem unallocated_idle (wellFormed : WellFormed s) {b : BackendId}
    (unknown : s.reg.backendAt.size ≤ b) : s.guards b = 0 ∧ s.pending b = 0 := by
  constructor
  · rw [System.guards, List.countP_eq_zero]
    intro q member held
    exact absurd ((wellFormed.fits q member).guarded ⟨b⟩ (by simpa using held)) (Nat.not_lt.mpr unknown)
  · rw [System.pending, List.countP_eq_zero]
    intro q member waiting
    exact absurd ((wellFormed.fits q member).pending b (by simpa using waiting)) (Nat.not_lt.mpr unknown)

end Reserve

section Cap
variable {s t : System} {b : BackendId}

structure Capped (b : BackendId) (s : System) : Prop extends Ledger s where
  within : Slots.Within (slotOf s b)

theorem step_capped (action : Action) (s t : System) (capped : Capped b s)
    (allowed : CapFixed b action s ∧ Admitted b action s) (taken : step action s = some t) :
    Capped b t := by
  have ledger := capped.toLedger
  refine ⟨step_ledger action s t ledger taken, ?_⟩
  refine (step_slot ledger.toWellFormed taken b).within ?_ (fun grows => ?_) capped.within
  · by_cases known : b < s.reg.backendAt.size
    · exact Or.inl (allowed.1 t taken known)
    · exact Or.inr (unallocated_idle ledger.toWellFormed (Nat.le_of_not_lt known))
  · obtain ⟨r, q, g, action, here, phase, found⟩ := pending_grows taken grows
    have room := allowed.2 r q g action here phase found
    rw [show (s.reg.backend b).activeConnections.toNat = s.guards b from ledger.balanced b] at room
    exact room

/-- `max_connections` caps a backend in every run in which its cap stays the same and every
selection of it leaves room for the pending requests. -/
theorem active_connections_le_max {now : Instant} {routes : List RouteConfig} {reg : BackendRegistry}
    (built : BackendRegistry.new now routes = .ok reg) (b : BackendId) (actions : List Action)
    (conforms : Machine.Conforms step (fun action s => CapFixed b action s ∧ Admitted b action s)
      actions (.start reg routes)) :
    ∀ s, Machine.Visits step actions (.start reg routes) s →
      (s.reg.backend b).activeConnections ≤ (s.reg.backend b).maxConnections := by
  rintro s ⟨before, after, rfl, reached⟩
  have ledger := ledger_start built
  have initial : Capped b (.start reg routes) := by
    refine ⟨ledger, ?_⟩
    simp only [Slots.Within, slotOf, System.start, System.guards, System.pending, List.countP_nil]
    exact Nat.zero_le _
  have capped : Capped b s := Machine.run_invariant_of_conforms step_capped initial
    (conforms.append reached).1 reached
  rw [UInt64.le_iff_toNat_le,
    show (s.reg.backend b).activeConnections.toNat = s.guards b from capped.balanced b]
  exact Nat.le_trans (Nat.le_add_right _ _) capped.within

/-- One request at a time: the second one is sent away. -/
theorem active_connections_le_max_sequential :
    ∃ reg s, BackendRegistry.new 0 [⟨['a'], [⟨['u'], 1, false⟩]⟩] = .ok reg ∧
      Machine.Visits step [.arrive ['/'] ['a'] false, .advance 0 .findGroup, .advance 0 .selectBackend,
        .advance 0 .openGuard] (.start reg [⟨['a'], [⟨['u'], 1, false⟩]⟩]) s ∧
      (s.reg.backend 0).activeConnections = 1 ∧
      (s.reg.backend 0).activeConnections ≤ (s.reg.backend 0).maxConnections := by
  let trace : List Action := [.arrive ['/'] ['a'] false, .advance 0 .findGroup, .advance 0 .selectBackend,
    .advance 0 .openGuard]
  have built : BackendRegistry.new 0 [⟨['a'], [⟨['u'], 1, false⟩]⟩] = .ok _ := rfl
  refine ⟨_, _, built, ⟨trace, [], rfl, rfl⟩, rfl,
    active_connections_le_max built 0 trace ?_ _ ⟨trace, [], rfl, rfl⟩⟩
  refine .cons ⟨.of_step rfl rfl, admitted_of_ne nofun⟩ rfl ?_
  refine .cons ⟨.of_step rfl rfl, admitted_of_ne nofun⟩ rfl ?_
  refine .cons ⟨.of_step rfl rfl, fun r q g same here phase found => ?_⟩ rfl ?_
  · decide
  · exact .cons ⟨.of_step rfl rfl, admitted_of_ne nofun⟩ rfl trivial

/-- Two requests are given the last free place before either of them opens a connection. -/
theorem active_connections_exceed_max :
    ∃ reg s, BackendRegistry.new 0 [⟨['a'], [⟨['u'], 1, false⟩]⟩] = .ok reg ∧
      Machine.run step [.arrive ['/'] ['a'] false, .arrive ['/'] ['a'] true, .advance 0 .findGroup,
        .advance 1 .findGroup, .advance 0 .selectBackend, .advance 1 .selectBackend,
        .advance 0 .openGuard, .advance 1 .spawn, .advance 1 (.upgrade true), .advance 1 .openGuard]
        (.start reg [⟨['a'], [⟨['u'], 1, false⟩]⟩]) = some s ∧
      (s.reg.backend 0).maxConnections = 1 ∧ (s.reg.backend 0).activeConnections = 2 :=
  ⟨_, _, rfl, rfl, rfl, rfl⟩

end Cap

section Drain
variable {s t : System} {b : BackendId}

def StaysClosed (b : BackendId) (s : System) : Prop :=
  ∀ actions t, Machine.run step actions s = some t →
    (∀ v, Machine.Visits step actions s v → (v.reg.backend b).drain = true) → t.guards b = 0

theorem run_quiet {actions : List Action} (ledger : Ledger s) (quiet : Slots.Quiet (slotOf s b))
    (done : Machine.run step actions s = some t)
    (drained : ∀ v, Machine.Visits step actions s v → (v.reg.backend b).drain = true) :
    Slots.Quiet (slotOf t b) := by
  induction actions generalizing s with
  | nil =>
    cases done
    exact quiet
  | cons action rest ih =>
    obtain ⟨mid, taken, later⟩ := Machine.run_cons_some.mp done
    have inside : ∀ v, Machine.Visits step rest mid v → (v.reg.backend b).drain = true :=
      fun v seen => drained v (Machine.visits_cons.mpr (Or.inr ⟨mid, taken, seen⟩))
    have stays := (step_slot ledger.toWellFormed taken b).quiet (inside mid (.start rest mid)) quiet
    exact ih (step_ledger action s mid ledger taken) stays later inside

/-- Some run opens a connection to `b` without a store to its drain flag. -/
def Opens (b : BackendId) (s : System) : Prop :=
  ∃ actions t, Machine.run step actions s = some t ∧ 0 < t.guards b ∧
    ∀ v, Machine.Visits step actions s v → (v.reg.backend b).drain = (s.reg.backend b).drain

theorem opens_of_wait {action : Action} (taken : step action s = some t) (same : t.reg = s.reg)
    (later : Opens b t) : Opens b s := by
  obtain ⟨actions, last, done, opened, flags⟩ := later
  refine ⟨action :: actions, last, Machine.run_cons_some.mpr ⟨t, taken, done⟩, opened, fun v seen => ?_⟩
  rcases Machine.visits_cons.mp seen with rfl | ⟨mid, again, inside⟩
  · rfl
  · rw [taken] at again
    cases again
    rw [flags v inside, same]

theorem opens_of_openGuard {r : Nat} {q : Request} (here : s.requests[r]? = some q)
    (few : s.refs b ≤ isizeMax)
    (ready : q.step s.reg s.reload.isSome s.refs .openGuard = q.openGuard s.reg s.refs b) :
    Opens b s := by
  obtain ⟨inside, -⟩ := List.getElem?_eq_some_iff.mp here
  rw [Request.openGuard, if_pos few] at ready
  have taken : step (.advance r .openGuard) s = some { s with
      reg := s.reg.write b Backend.connect
      requests := s.requests.set r { q with phase := .proxying ⟨b⟩, ops := q.ops ++ [.fetchAdd b] } } := by
    simp only [step, here, ready]
  refine ⟨[.advance r .openGuard], _, Machine.run_single.mpr taken, ?_, fun v seen => ?_⟩
  · rw [System.guards, List.countP_pos_iff]
    exact ⟨_, List.mem_set inside _, beq_self_eq_true _⟩
  · rcases Machine.visits_cons.mp seen with rfl | ⟨mid, again, last⟩
    · rfl
    · rw [taken] at again
      cases again
      rw [Machine.visits_nil.mp last]
      exact Arena.get_modify_field Backend.drain s.reg.backendAt (f := Backend.connect) (fun x => rfl) b b

theorem refs_set {r : Nat} {q q' : Request} (here : s.requests[r]? = some q)
    (same : q'.phase.refs b = q.phase.refs b) :
    System.refs { s with requests := s.requests.set r q' } b = s.refs b := by
  have entry : (s.requests.map (·.phase.refs b))[r]? = some (q'.phase.refs b) := by
    rw [List.getElem?_map, here, Option.map_some, same]
  obtain ⟨inside, value⟩ := List.getElem?_eq_some_iff.mp entry
  have table : (s.requests.set r q').map (·.phase.refs b) = s.requests.map (·.phase.refs b) := by
    rw [List.map_set, ← value, List.set_getElem_self]
  have total := congrArg (List.foldr (fun clones total => clones + total) 0) table
  rw [List.foldr_map, List.foldr_map] at total
  exact total

theorem opens_of_pending {r : Nat} {q : Request} (here : s.requests[r]? = some q)
    (waiting : q.phase.pending = some b) (few : s.refs b ≤ isizeMax) : Opens b s := by
  have upgraded : ∀ {s : System} {q : Request}, s.requests[r]? = some q → q.phase = .upgraded b →
      s.refs b ≤ isizeMax → Opens b s := by
    intro s q here phase few
    exact opens_of_openGuard here few (by simp only [Request.step, phase])
  have upgrading : ∀ {s : System} {q : Request}, s.requests[r]? = some q → q.phase = .upgrading b →
      s.refs b ≤ isizeMax → Opens b s := by
    intro s q here phase few
    have taken : step (.advance r (.upgrade true)) s =
        some { s with requests := s.requests.set r (q.enter (.upgraded b)) } := by
      simp only [step, here, Request.step, phase]
    have inside := (List.getElem?_eq_some_iff.mp here).1
    refine opens_of_wait taken rfl (upgraded (q := q.enter (.upgraded b)) ?_ rfl ?_)
    · rw [List.getElem?_set_self inside]
    · rw [refs_set here (by rw [phase]; rfl)]
      exact few
  cases phase : q.phase with
  | chosen e =>
    rw [phase] at waiting
    cases waiting
    cases socket : q.upgrade with
    | false => exact opens_of_openGuard here few (by simp [Request.step, phase, socket])
    | true =>
      have taken : step (.advance r .spawn) s =
          some { s with requests := s.requests.set r (q.enter (.upgrading b)) } := by
        simp [step, here, Request.step, phase, socket]
      have inside := (List.getElem?_eq_some_iff.mp here).1
      refine opens_of_wait taken rfl (upgrading (q := q.enter (.upgrading b)) ?_ rfl ?_)
      · rw [List.getElem?_set_self inside]
      · rw [refs_set here (by rw [phase]; rfl)]
        exact few
  | upgrading e =>
    rw [phase] at waiting
    cases waiting
    exact upgrading here phase few
  | upgraded e =>
    rw [phase] at waiting
    cases waiting
    exact upgraded here phase few
  | _ =>
    rw [phase] at waiting
    cases waiting

/-- A drained backend without open connections stays without, as long as it is drained,
exactly where no request has been given it before; the bound says that cloning its `Arc`
once more does not abort the process. -/
theorem drained_stays_closed {now : Instant} {routes : List RouteConfig} {reg : BackendRegistry}
    (built : BackendRegistry.new now routes = .ok reg)
    (reached : Machine.Reachable step (.start reg routes) s)
    (drained : (s.reg.backend b).drain = true) (idle : (s.reg.backend b).activeConnections = 0) :
    (s.pending b = 0 → StaysClosed b s) ∧
    (s.refs b ≤ isizeMax → StaysClosed b s → s.pending b = 0) := by
  have ledger := reached.invariant step_ledger (ledger_start built)
  have empty : s.guards b = 0 := by
    rw [← show (s.reg.backend b).activeConnections.toNat = s.guards b from ledger.balanced b, idle]
    rfl
  constructor
  · intro free actions t done flags
    exact (run_quiet ledger ⟨drained, empty, free⟩ done flags).idle
  · intro few closed
    by_contra some
    obtain ⟨q, member, waiting⟩ := List.countP_pos_iff.mp (Nat.pos_of_ne_zero some)
    obtain ⟨r, here⟩ := List.mem_iff_getElem?.mp member
    obtain ⟨actions, t, done, opened, flags⟩ := opens_of_pending here (by simpa using waiting) few
    have none := closed actions t done fun v seen => (flags v seen).trans drained
    omega

/-- A reload drains a backend that nobody uses. -/
theorem drained_stays_closed_unused :
    ∃ reg s, BackendRegistry.new 0 [⟨['a'], [⟨['u'], 5, false⟩]⟩] = .ok reg ∧
      Machine.Reachable step (.start reg [⟨['a'], [⟨['u'], 5, false⟩]⟩]) s ∧
      s.inForce = [⟨['a'], [⟨['u'], 5, true⟩]⟩] ∧ StaysClosed 0 s := by
  let trace : List Action := [.reloadStart 1 [⟨['a'], [⟨['u'], 5, true⟩]⟩], .reloadRoute, .reloadSwap]
  have built : BackendRegistry.new 0 [⟨['a'], [⟨['u'], 5, false⟩]⟩] = .ok _ := rfl
  exact ⟨_, _, built, ⟨trace, rfl⟩, rfl, (drained_stays_closed built ⟨trace, rfl⟩ rfl rfl).1 rfl⟩

/-- A request is given a backend, a reload drains it, nothing is connected to it, and the
request connects. -/
theorem drained_backend_opens :
    ∃ reg s t, BackendRegistry.new 0 [⟨['a'], [⟨['u'], 5, false⟩]⟩] = .ok reg ∧
      Machine.run step [.arrive ['/'] ['a'] false, .advance 0 .findGroup, .advance 0 .selectBackend,
        .reloadStart 1 [⟨['a'], [⟨['u'], 5, true⟩]⟩], .reloadRoute, .reloadSwap]
        (.start reg [⟨['a'], [⟨['u'], 5, false⟩]⟩]) = some s ∧
      (s.reg.backend 0).drain = true ∧ (s.reg.backend 0).activeConnections = 0 ∧
      step (.advance 0 .openGuard) s = some t ∧ (t.reg.backend 0).drain = true ∧ t.guards 0 = 1 :=
  ⟨_, _, _, rfl, rfl, rfl, rfl, rfl, rfl, rfl⟩

end Drain

end TinyLb.Admission
