import TinyLb.ConnectionLedger
import Mathlib.Data.List.Induction

/-! What a request sees of a reload. The rounds of a reload rewrite the groups one by
one while the old table is still in place, and a request keeps the group it has found
across any number of reloads. -/

namespace TinyLb.RouteSnapshot
open Config Hosts Backends Merge Traffic ConnectionLedger
open Reload hiding step

/-- `config` is in force, or is being installed. -/
def InPlay (s : System) (config : List RouteConfig) : Prop :=
  s.inForce = config ∨ ∃ reload, s.reload = some reload ∧ reload.routes = config

/-- Between reloads the table shows the configuration in force; during one, the new table
shows the routes that have had their round. -/
structure Consistent (s : System) : Prop extends WellFormed s where
  settled : s.reload = none → s.reg.config = s.inForce
  rounds : ∀ reload, s.reload = some reload → Distinct reload.routes ∧
    reload.newGroups.map s.reg.route ++ reload.todo = reload.routes

theorem route_write {reg : BackendRegistry} {b : BackendId} {f : Backend → Backend}
    (kept : ∀ x : Backend, (f x).config = x.config) (g : GroupId) :
    (reg.write b f).route g = reg.route g := by
  refine congrArg (RouteConfig.mk _) (List.map_congr_left fun e _ => ?_)
  exact Arena.get_modify_field Backend.config reg.backendAt kept b e

theorem change_route {q q' : Request} {reg reg' : BackendRegistry} {locked : Bool}
    {refs : BackendId → Nat} (change : q.Change reg locked refs q' reg') (g : GroupId) :
    reg'.route g = reg.route g := by
  cases change with
  | idle phase next same => rw [same]
  | select g e phase found next same => rw [same]
  | wait e phase waiting there next same => rw [same]
  | abandon e outcome waiting failed next same => rw [same]
  | opened e waiting few next written =>
    rw [written]
    exact route_write (f := Backend.connect) (fun x => rfl) g
  | closed guard ending errors held counted next =>
    obtain ⟨-, rfl⟩ := Prod.mk.inj next
    rw [route_write (f := Backend.disconnect) (fun x => rfl) g]
    rcases counted with rfl | rfl
    · rfl
    · exact route_write (f := Backend.countError) (fun x => rfl) g

section Steps
variable {s t : System}

theorem round_route {reg next : BackendRegistry} {now : Instant} {route : RouteConfig} {g : GroupId}
    (valid : Valid reg) (distinct : (route.backends.map (·.url)).Nodup)
    (applied : reg.applyRoute now route = some (g, next)) {g' : GroupId} (known : g' < reg.groupAt.size) :
    next.route g' = reg.route g' ∨ g = g' ∧ next.route g' = route := by
  by_cases same : g = g'
  · subst same
    exact Or.inr ⟨rfl, route_applyRoute_of_nodup valid applied distinct⟩
  · exact Or.inl (route_applyRoute_of_ne valid applied same known)

/-- Every reload that starts has distinct hosts, and distinct URLs within each route. -/
def DistinctReload (action : Action) (_ : System) : Prop :=
  ∀ now routes, action = .reloadStart now routes → Distinct routes

theorem step_consistent (action : Action) (s t : System) (consistent : Consistent s)
    (distinct : DistinctReload action s) (taken : step action s = some t) : Consistent t := by
  have wellFormed := step_wellFormed action s t consistent.toWellFormed taken
  have unchanged : (∀ g, t.reg.route g = s.reg.route g) → t.reg.groups = s.reg.groups →
      t.reload = s.reload → t.inForce = s.inForce → Consistent t := by
    intro routes groups reload inForce
    have same : t.reg.route = s.reg.route := funext routes
    refine ⟨wellFormed, fun idle => ?_, fun r installing => ?_⟩
    · rw [BackendRegistry.config, groups, same, inForce]
      exact consistent.settled (reload ▸ idle)
    · rw [same]
      exact consistent.rounds r (reload ▸ installing)
  cases action with
  | arrive path host upgrade =>
    cases taken
    exact unchanged (fun _ => rfl) rfl rfl rfl
  | advance r move =>
    obtain ⟨q, q', reg, here, moved, rfl⟩ := advance_cases taken
    have change := Request.step_change moved
    exact unchanged (change_route change) change.table.2.1 rfl rfl
  | probe b now healthy =>
    cases taken
    exact unchanged (route_write (f := Backend.probed now healthy) fun x => rfl) rfl rfl rfl
  | sample b =>
    cases taken
    exact unchanged (route_write (f := Backend.takeErrors) fun x => rfl) rfl rfl rfl
  | reloadStart now routes =>
    rcases (reloadStart_cases taken).2 with ⟨e, -, rfl⟩ | ⟨-, rfl⟩
    · exact consistent
    · refine ⟨wellFormed, fun idle => (by cases idle), fun reload same => ?_⟩
      cases same
      exact ⟨distinct now routes rfl, rfl⟩
  | reloadRoute =>
    obtain ⟨now, routes, route, todo, newGroups, g, reg, installing, applied, rfl⟩ :=
      reloadRoute_cases taken
    obtain ⟨hosts, shown⟩ := consistent.rounds _ installing
    dsimp only at hosts shown
    refine ⟨wellFormed, fun idle => (by cases idle), fun reload same => ?_⟩
    cases same
    have listed : route ∈ routes := by rw [← shown]; simp
    have self := route_applyRoute_of_nodup consistent.valid applied (hosts.urls route listed)
    have others : newGroups.map reg.route = newGroups.map s.reg.route := by
      refine List.map_congr_left fun g' member => ?_
      have known := consistent.installing _ installing g' member
      refine route_applyRoute_of_ne consistent.valid applied ?_ known
      refine applyRoute_ne_of_host applied known fun same => ?_
      have nodup := hosts.hosts
      rw [← shown, List.map_append, List.map_cons, List.nodup_append] at nodup
      refine nodup.2.2 _ (List.mem_map_of_mem (List.mem_map_of_mem member)) _ (List.mem_cons_self ..) ?_
      exact same
    refine ⟨hosts, ?_⟩
    rw [List.map_append, others, List.map_singleton, self, List.append_assoc, ← shown]
    rfl
  | reloadSwap =>
    obtain ⟨now, routes, newGroups, installing, rfl⟩ := reloadSwap_cases taken
    refine ⟨wellFormed, fun _ => ?_, fun reload same => (by cases same)⟩
    have shown := (consistent.rounds _ installing).2
    rw [List.append_nil] at shown
    exact shown

theorem consistent_start {now : Instant} {routes : List RouteConfig} {reg : BackendRegistry}
    (built : BackendRegistry.new now routes = .ok reg) : Consistent (.start reg routes) :=
  ⟨wellFormed_start built, fun _ => (new_spec built).2, nofun⟩

theorem step_route {action : Action} (consistent : Consistent s) (taken : step action s = some t)
    {g : GroupId} (known : g < s.reg.groupAt.size) :
    (t.reg.route g = s.reg.route g ∧ (t.reg.group g).host = (s.reg.group g).host ∧
        g < t.reg.groupAt.size) ∨
      g < t.reg.groupAt.size ∧ (t.reg.group g).host = (s.reg.group g).host ∧
        ∃ reload, t.reload = some reload ∧ t.reg.route g ∈ reload.routes := by
  cases action with
  | arrive path host upgrade =>
    cases taken
    exact Or.inl ⟨rfl, rfl, known⟩
  | advance r move =>
    obtain ⟨q, q', reg, here, moved, rfl⟩ := advance_cases taken
    have change := Request.step_change moved
    have groups : reg.groupAt = s.reg.groupAt := change.table.1
    refine Or.inl ⟨change_route change g, ?_, ?_⟩
    · rw [BackendRegistry.group, groups]
      rfl
    · rw [groups]
      exact known
  | probe b now healthy =>
    cases taken
    exact Or.inl ⟨route_write (f := Backend.probed now healthy) (fun x => rfl) g, rfl, known⟩
  | sample b =>
    cases taken
    exact Or.inl ⟨route_write (f := Backend.takeErrors) (fun x => rfl) g, rfl, known⟩
  | reloadStart now routes =>
    rcases (reloadStart_cases taken).2 with ⟨e, -, rfl⟩ | ⟨-, rfl⟩ <;> exact Or.inl ⟨rfl, rfl, known⟩
  | reloadRoute =>
    obtain ⟨now, routes, route, todo, newGroups, g', reg, installing, applied, rfl⟩ :=
      reloadRoute_cases taken
    obtain ⟨distinct, shown⟩ := consistent.rounds _ installing
    dsimp only at distinct shown
    have listed : route ∈ routes := by rw [← shown]; simp
    have kept := applyRoute_kept consistent.valid applied
    have inside := Nat.lt_of_lt_of_le known kept.groups
    rcases round_route consistent.valid (distinct.urls route listed) applied known with same | ⟨-, now⟩
    · exact Or.inl ⟨same, kept.host g known, inside⟩
    · exact Or.inr ⟨inside, kept.host g known, _, rfl, now ▸ listed⟩
  | reloadSwap =>
    obtain ⟨now, routes, newGroups, -, rfl⟩ := reloadSwap_cases taken
    exact Or.inl ⟨rfl, rfl, known⟩

/-- Once a request has found its group it works with that one. -/
def Holds (r : Nat) (g : GroupId) (s : System) : Prop :=
  ∃ q : Request, s.requests[r]? = some q ∧ q.phase ≠ .received ∧ ∀ g', q.phase = .routed g' → g' = g

theorem change_holds {q q' : Request} {reg reg' : BackendRegistry} {locked : Bool}
    {refs : BackendId → Nat} {g : GroupId} (change : q.Change reg locked refs q' reg')
    (found : q.phase ≠ .received) : q'.phase ≠ .received ∧ ∀ g', q'.phase = .routed g' → g' = g := by
  cases change with
  | idle phase next same guard before after counted routed left =>
    subst next
    exact ⟨left, fun g' here => absurd (routed g' here).1 found⟩
  | select g' e phase found next same =>
    subst next
    exact ⟨nofun, nofun⟩
  | wait e phase waiting there next same =>
    subst next
    have waits : phase.pending = some e := there
    refine ⟨fun wrong => ?_, fun g' wrong => ?_⟩
    · rw [show phase = .received from wrong] at waits
      cases waits
    · rw [show phase = .routed g' from wrong] at waits
      cases waits
  | abandon e outcome waiting failed next same =>
    subst next
    exact ⟨nofun, nofun⟩
  | opened e waiting few next written =>
    subst next
    exact ⟨nofun, nofun⟩
  | closed guard ending errors held counted next =>
    obtain ⟨rfl, -⟩ := Prod.mk.inj next
    exact ⟨nofun, nofun⟩

theorem step_holds {action : Action} {r : Nat} {g : GroupId} (holds : Holds r g s)
    (taken : step action s = some t) : Holds r g t := by
  obtain ⟨q, here, found, only⟩ := holds
  have unmoved : t.requests = s.requests → Holds r g t := fun same => ⟨q, same ▸ here, found, only⟩
  cases action with
  | arrive path host upgrade =>
    cases taken
    have inside := (List.getElem?_eq_some_iff.mp here).1
    exact ⟨q, by rw [List.getElem?_append_left inside]; exact here, found, only⟩
  | advance r' move =>
    obtain ⟨x, x', reg, at_r', moved, rfl⟩ := advance_cases taken
    by_cases same : r' = r
    · subst same
      rw [here] at at_r'
      cases at_r'
      have inside := (List.getElem?_eq_some_iff.mp here).1
      exact ⟨x', List.getElem?_set_self inside, change_holds (Request.step_change moved) found⟩
    · exact ⟨q, by rw [List.getElem?_set_ne same]; exact here, found, only⟩
  | probe b now healthy => cases taken; exact unmoved rfl
  | sample b => cases taken; exact unmoved rfl
  | reloadStart now routes =>
    rcases (reloadStart_cases taken).2 with ⟨e, -, rfl⟩ | ⟨-, rfl⟩ <;> exact unmoved rfl
  | reloadRoute =>
    obtain ⟨now, routes, route, todo, newGroups, g', reg, -, -, rfl⟩ := reloadRoute_cases taken
    exact unmoved rfl
  | reloadSwap =>
    obtain ⟨now, routes, newGroups, -, rfl⟩ := reloadSwap_cases taken
    exact unmoved rfl

theorem run_route {between : List Action} {g : GroupId} {config : List RouteConfig}
    (consistent : Consistent s) (distinct : Machine.Conforms step DistinctReload between s)
    (known : g < s.reg.groupAt.size) (inPlay : InPlay s config) (listed : s.reg.route g ∈ config)
    (done : Machine.run step between s = some t) :
    Consistent t ∧ g < t.reg.groupAt.size ∧ (t.reg.group g).host = (s.reg.group g).host ∧
      ∃ v config, Machine.Visits step between s v ∧ InPlay v config ∧ t.reg.route g ∈ config := by
  induction between using List.reverseRecOn generalizing t with
  | nil =>
    cases done
    exact ⟨consistent, known, rfl, s, config, .start [] s, inPlay, listed⟩
  | append_singleton rest action ih =>
    obtain ⟨mid, reached, taken⟩ := Machine.run_snoc_some.mp done
    obtain ⟨first, last⟩ := distinct.append reached
    obtain ⟨before, inside, host, v, config', seen, played, shown⟩ := ih first reached
    have after := step_consistent action mid t before last.1 taken
    rcases step_route before taken inside with ⟨same, kept, bound⟩ | ⟨bound, kept, reload, installing, now⟩
    · exact ⟨after, bound, kept.trans host, v, config', seen.extend action, played, same ▸ shown⟩
    · exact ⟨after, bound, kept.trans host, t, reload.routes, .finish done,
        Or.inr ⟨reload, installing, rfl⟩, now⟩

theorem findGroup_inPlay {r : Nat} {q : Request} {g : GroupId} (consistent : Consistent s)
    (taken : step (.advance r .findGroup) s = some t) (here : t.requests[r]? = some q)
    (routed : q.phase = .routed g) :
    t.reg = s.reg ∧ g < s.reg.groupAt.size ∧ InPlay t s.inForce ∧ s.reg.route g ∈ s.inForce := by
  obtain ⟨x, x', reg, at_r, moved, rfl⟩ := advance_cases taken
  have inside := (List.getElem?_eq_some_iff.mp at_r).1
  dsimp only at here
  rw [List.getElem?_set_self inside] at here
  cases here
  cases Request.step_change moved with
  | idle phase next same guard before after counted entered left =>
    subst next same
    obtain ⟨-, unlocked, found⟩ := entered g routed
    have idle : s.reload = none := by simpa using unlocked
    obtain ⟨i, member, -⟩ := HostRouting.findGroup_eq_some.mp found
    have listed := List.mem_of_getElem? member
    refine ⟨rfl, consistent.valid.table g listed, Or.inl rfl, ?_⟩
    rw [← consistent.settled idle]
    exact List.mem_map_of_mem listed
  | select g' e phase found next same => subst next; cases routed
  | wait e phase waiting there next same =>
    subst next
    rw [show phase = .routed g from routed] at there
    cases there
  | abandon e outcome waiting failed next same => subst next; cases routed
  | opened e waiting few next written => subst next; cases routed
  | closed guard ending errors held counted next =>
    obtain ⟨rfl, -⟩ := Prod.mk.inj next
    cases routed

end Steps

/-- The list that `select_backend` reads for a request, with its caps and drain flags, is
the one of a single configuration that was in force or being installed at some moment
since the request found its group; the host is the one it found. -/
theorem selection_from_one_config {now : Instant} {routes : List RouteConfig} {reg : BackendRegistry}
    (built : BackendRegistry.new now routes = .ok reg) {before between : List Action}
    {s found s' : System} {r : Nat} {q q' : Request} {g g' : GroupId}
    (distinct : Machine.Conforms step DistinctReload
      (before ++ .advance r .findGroup :: between) (.start reg routes))
    (reached : Machine.run step before (.start reg routes) = some s)
    (finding : step (.advance r .findGroup) s = some found)
    (holding : found.requests[r]? = some q) (routed : q.phase = .routed g)
    (waited : Machine.run step between found = some s')
    (still : s'.requests[r]? = some q') (selecting : q'.phase = .routed g') :
    ∃ v config route, Machine.Visits step between found v ∧ InPlay v config ∧ route ∈ config ∧
      route.host = (found.reg.group g).host ∧ s'.reg.route g' = route := by
  obtain ⟨first, rest⟩ := distinct.append reached
  have consistent : Consistent s := Machine.run_invariant_of_conforms
    (fun action s t => step_consistent action s t) (consistent_start built) first reached
  obtain ⟨same, known, inPlay, listed⟩ := findGroup_inPlay consistent finding holding routed
  have next := step_consistent _ s found consistent rest.1 finding
  obtain ⟨-, -, host, v, config, seen, played, shown⟩ :=
    run_route next (rest.2 found finding) (same ▸ known) inPlay (same ▸ listed) waited
  have holds : Holds r g s' := by
    refine Machine.run_invariant (I := Holds r g) (fun action s t => step_holds) ?_ waited
    exact ⟨q, holding, by rw [routed]; nofun, fun g' here => by rw [routed] at here; cases here; rfl⟩
  obtain ⟨x, at_r, -, only⟩ := holds
  rw [still] at at_r
  cases at_r
  rw [only g' selecting]
  exact ⟨v, config, _, seen, played, shown, host, rfl⟩

/-- The request finds its group, the reload rewrites it, and the request selects before the
table is swapped. -/
theorem selection_from_one_config_mid_reload :
    ∃ reg found s', BackendRegistry.new 0 [⟨['a'], [⟨['u'], 5, false⟩]⟩] = .ok reg ∧
      Machine.run step [.arrive ['/'] ['a'] false, .advance 0 .findGroup]
        (.start reg [⟨['a'], [⟨['u'], 5, false⟩]⟩]) = some found ∧
      Machine.run step [.reloadStart 1 [⟨['a'], [⟨['v'], 3, false⟩, ⟨['u'], 5, true⟩]⟩], .reloadRoute]
        found = some s' ∧
      s'.reg.selectBackend 0 = some 1 ∧
      ∃ v config route, Machine.Visits step
          [.reloadStart 1 [⟨['a'], [⟨['v'], 3, false⟩, ⟨['u'], 5, true⟩]⟩], .reloadRoute] found v ∧
        InPlay v config ∧ route ∈ config ∧ s'.reg.route 0 = route := by
  let between : List Action :=
    [.reloadStart 1 [⟨['a'], [⟨['v'], 3, false⟩, ⟨['u'], 5, true⟩]⟩], .reloadRoute]
  have built : BackendRegistry.new 0 [⟨['a'], [⟨['u'], 5, false⟩]⟩] = .ok _ := rfl
  refine ⟨_, _, _, built, rfl, rfl, by decide, ?_⟩
  obtain ⟨v, config, route, seen, played, listed, -, shown⟩ := @selection_from_one_config 0 _ _ built
    [.arrive ['/'] ['a'] false] between _ _ _ 0 _ _ 0 0 (by
      refine .cons nofun rfl (.cons nofun rfl (.cons ?_ rfl (.cons nofun rfl trivial)))
      intro now routes same
      cases same
      exact ⟨by decide, by decide⟩) rfl rfl rfl rfl rfl rfl rfl
  exact ⟨v, config, route, seen, played, listed, shown⟩

section Uninterrupted
variable {s : System} {now : Instant} {routes : List RouteConfig}

theorem rounds_run {todo : List RouteConfig} {newGroups ids : List GroupId} {last : BackendRegistry}
    (installing : s.reload = some ⟨now, routes, todo, newGroups⟩)
    (applied : BackendRegistry.applyRoutes now todo s.reg = some (ids, last)) :
    Machine.run step (List.replicate todo.length .reloadRoute) s =
      some { s with reg := last, reload := some ⟨now, routes, [], newGroups ++ ids⟩ } := by
  induction todo generalizing s newGroups ids with
  | nil =>
    cases applied
    rw [List.append_nil, ← installing]
    rfl
  | cons route rest ih =>
    obtain ⟨g, next, more, first, later, rfl⟩ := applyRoutes_cons_some.mp applied
    have taken : step .reloadRoute s = some
        { s with reg := next, reload := some ⟨now, routes, rest, newGroups ++ [g]⟩ } := by
      simp only [step, installing, first]
    refine Machine.run_cons_some.mpr ⟨_, taken, ?_⟩
    rw [ih rfl later, List.append_assoc, List.singleton_append]

/-- The steps of a reload, taken without interruption, are one call of `apply_config`. -/
theorem uninterrupted_reload (idle : s.reload = none) {after : BackendRegistry}
    (applied : s.reg.applyConfig now routes = some (.ok (), after)) :
    Machine.run step (.reloadStart now routes :: List.replicate routes.length .reloadRoute ++
      [.reloadSwap]) s = some { s with reg := after, inForce := routes } := by
  rcases applyConfig_cases applied with ⟨e, -, wrong, -⟩ | ⟨ids, last, accepted, -, done, rfl⟩
  · cases wrong
  · have start : step (.reloadStart now routes) s =
        some { s with reload := some ⟨now, routes, routes, []⟩ } := by
      simp only [step, idle, accepted]
    refine Machine.run_snoc_some.mpr ⟨_, Machine.run_cons_some.mpr ⟨_, start, rounds_run rfl done⟩, ?_⟩
    simp only [step, List.nil_append, idle]

end Uninterrupted

end TinyLb.RouteSnapshot
