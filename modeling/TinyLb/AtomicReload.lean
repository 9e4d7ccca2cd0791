import TinyLb.Reload
import TinyLb.ConnectionLedger

/-! A reload in rounds, next to requests, probes and samples, ends where one call of `apply_config`
ends on a registry that nobody uses. Only what the backends have learned can differ. -/

namespace TinyLb.AtomicReload
open Config Hosts Backends Merge Reload ConnectionLedger Machine
open Traffic hiding step

/-- The same objects with the same settings. -/
structure Alike (arena idle : Arena Backend) : Prop where
  size : arena.size = idle.size
  config : ∀ b, (arena.get b).config = (idle.get b).config

structure Twin (reg idle : BackendRegistry) : Prop where
  backends : Alike reg.backendAt idle.backendAt
  groupAt : reg.groupAt = idle.groupAt
  groups : reg.groups = idle.groups

section Arenas
variable {arena idle : Arena Backend} {now now' : Instant} {old : List BackendId}

theorem Alike.url (alike : Alike arena idle) (b : BackendId) : (arena.get b).url = (idle.get b).url :=
  congrArg BackendConfig.url (alike.config b)

theorem Alike.alloc (alike : Alike arena idle) (c : BackendConfig) :
    Alike (arena.alloc (.new now c)) (idle.alloc (.new now' c)) := by
  refine ⟨by rw [Arena.size_alloc, Arena.size_alloc, alike.size], fun b => ?_⟩
  by_cases last : b = arena.size
  · have here := congrArg Backend.config (arena.get_alloc_self (.new now c))
    have there := congrArg Backend.config (idle.get_alloc_self (.new now' c))
    rw [last, here, alike.size, there]
    rfl
  · rw [arena.get_alloc_of_ne _ last, idle.get_alloc_of_ne _ (alike.size ▸ last)]
    exact alike.config b

theorem Alike.update (alike : Alike arena idle) (c : BackendConfig) (e : BackendId) :
    Alike (arena.modify e (Backend.update c)) (idle.modify e (Backend.update c)) := by
  refine ⟨by rw [Arena.size_modify, Arena.size_modify, alike.size], fun b => ?_⟩
  by_cases same : e = b
  · subst same
    by_cases known : e < arena.size
    · rw [arena.get_modify_self _ known, idle.get_modify_self _ (alike.size ▸ known)]
      exact congrArg (fun url => BackendConfig.mk url c.maxConnections c.drain) (alike.url e)
    · have beyond := Nat.le_of_not_lt known
      rw [Arena.get_of_size_le _ (by rwa [Arena.size_modify]),
        Arena.get_of_size_le _ (by rwa [Arena.size_modify, ← alike.size])]
  · rw [arena.get_modify_of_ne _ same, idle.get_modify_of_ne _ same]
    exact alike.config b

theorem Alike.write (alike : Alike arena idle) {f : Backend → Backend}
    (kept : ∀ x, (f x).config = x.config) (e : BackendId) : Alike (arena.modify e f) idle :=
  ⟨(Arena.size_modify ..).trans alike.size,
    fun b => (Arena.get_modify_field Backend.config arena kept e b).trans (alike.config b)⟩

theorem Alike.locate (alike : Alike arena idle) (url : Str) :
    Backends.locate arena old url = Backends.locate idle old url :=
  locate_congr (fun b _ => alike.url b) url

theorem merge_alike (alike : Alike arena idle) (configs : List BackendConfig) :
    (mergeBackends now old configs arena).1 = (mergeBackends now' old configs idle).1 ∧
      Alike (mergeBackends now old configs arena).2 (mergeBackends now' old configs idle).2 := by
  induction configs generalizing arena idle with
  | nil => exact ⟨rfl, alike⟩
  | cons c rest ih =>
    rw [mergeBackends, mergeBackends, alike.locate]
    cases Backends.locate idle old c.url with
    | some existing =>
      obtain ⟨ids, arenas⟩ := ih (alike.update c existing)
      exact ⟨congrArg (existing :: ·) ids, arenas⟩
    | none =>
      obtain ⟨ids, arenas⟩ := ih (alike.alloc c)
      exact ⟨congrArg₂ List.cons alike.size ids, arenas⟩

end Arenas

section Rounds
variable {reg idle next last : BackendRegistry} {now now' : Instant} {route : RouteConfig}
  {g : GroupId} {ids : List GroupId}

theorem Twin.refl (reg : BackendRegistry) : Twin reg reg := ⟨⟨rfl, fun _ => rfl⟩, rfl, rfl⟩

theorem Twin.write (twin : Twin reg idle) {f : Backend → Backend} (kept : ∀ x, (f x).config = x.config)
    (b : BackendId) : Twin (reg.write b f) idle :=
  ⟨twin.backends.write kept b, twin.groupAt, twin.groups⟩

theorem Twin.config (twin : Twin reg idle) : reg.config = idle.config := by
  rw [BackendRegistry.config, BackendRegistry.config, twin.groups]
  refine List.map_congr_left fun g _ => ?_
  rw [BackendRegistry.route, BackendRegistry.route, BackendRegistry.group, BackendRegistry.group, twin.groupAt]
  exact congrArg (RouteConfig.mk _) (List.map_congr_left fun b _ => twin.backends.config b)

theorem Twin.findGroup (twin : Twin reg idle) (header : Str) :
    reg.findGroup header = idle.findGroup header := by
  simp only [BackendRegistry.findGroup, BackendRegistry.group, twin.groups, twin.groupAt]

theorem groupNew_alike {arena arena' after : Arena Backend} {group : BackendGroup}
    (alike : Alike arena arena') (built : BackendGroup.new now route arena = .ok (group, after)) :
    ∃ after', BackendGroup.new now' route arena' = .ok (group, after') ∧ Alike after after' := by
  unfold BackendGroup.new at built ⊢
  split at built
  next => cases built
  next kind accepted =>
    cases built
    obtain ⟨same, arenas⟩ := @merge_alike _ _ now now' [] alike route.backends
    rw [← allocBackends_eq, ← allocBackends_eq] at same arenas
    refine ⟨_, ?_, arenas⟩
    simp only [same]

theorem applyRoute_twin (twin : Twin reg idle) (applied : reg.applyRoute now route = some (g, next)) :
    ∃ next', idle.applyRoute now' route = some (g, next') ∧ Twin next next' := by
  have table : reg.locateGroup route.host = idle.locateGroup route.host := by
    simp only [BackendRegistry.locateGroup, BackendRegistry.group, twin.groups, twin.groupAt]
  rcases applyRoute_cases applied with ⟨found, rfl⟩ | ⟨absent, rfl, group, arena, built, rfl⟩
  · rw [table] at found
    refine ⟨idle.applyBackends now' g route.backends, by rw [BackendRegistry.applyRoute, found], ?_⟩
    obtain ⟨ids, arenas⟩ := @merge_alike _ _ now now' (reg.group g).backends twin.backends route.backends
    have old : idle.group g = reg.group g := by
      rw [BackendRegistry.group, BackendRegistry.group, twin.groupAt]
    refine ⟨?_, ?_, twin.groups⟩
    · simpa only [BackendRegistry.applyBackends, old] using arenas
    · simp only [BackendRegistry.applyBackends, old, ids, twin.groupAt]
  · rw [table] at absent
    obtain ⟨after, made, alike⟩ := @groupNew_alike now now' _ _ _ _ _ twin.backends built
    refine ⟨addGroup idle group after, ?_, alike, ?_, twin.groups⟩
    · rw [BackendRegistry.applyRoute, absent, made, twin.groupAt]
      rfl
    · exact congrArg (Arena.alloc · group) twin.groupAt

end Rounds

/-- The calls of `apply_config` in a run, the rejected ones included. -/
def calls (actions : List Traffic.Action) : List (Instant × List RouteConfig) :=
  actions.filterMap fun
    | .reloadStart now routes => some (now, routes)
    | _ => none

def call (request : Instant × List RouteConfig) (reg : BackendRegistry) : Option BackendRegistry :=
  (reg.applyConfig request.1 request.2).map Prod.snd

/-- A reload under way has done with the live registry what the call will do, as far as it has come. -/
structure Underway (reg idle : BackendRegistry) (reload : ReloadState) : Prop where
  accepted : validate reload.routes = .ok ()
  left : reload.todo <:+ reload.routes
  rounds : ∃ mid, Twin reg mid ∧ ∀ ids last,
    BackendRegistry.applyRoutes reload.now reload.todo mid = some (ids, last) →
      BackendRegistry.applyRoutes reload.now reload.routes idle = some (reload.newGroups ++ ids, last)

/-- `idle` is where the calls that are over lead to. -/
structure Follows (s : System) (idle : BackendRegistry) : Prop where
  quiet : s.reload = none → Twin s.reg idle
  busy : ∀ reload, s.reload = some reload → Underway s.reg idle reload

section Steps
variable {s t : System} {idle : BackendRegistry} {action : Traffic.Action}

theorem Underway.twin {reg next : BackendRegistry} {reload : ReloadState} (underway : Underway reg idle reload)
    (write : ∀ mid, Twin reg mid → Twin next mid) : Underway next idle reload := by
  obtain ⟨mid, twin, rest⟩ := underway.rounds
  exact ⟨underway.accepted, underway.left, mid, write mid twin, rest⟩

theorem Follows.write (follows : Follows s idle) (same : t.reload = s.reload)
    (write : ∀ mid, Twin s.reg mid → Twin t.reg mid) : Follows t idle where
  quiet none := write idle (follows.quiet (same ▸ none))
  busy reload some := (follows.busy reload (same ▸ some)).twin write

theorem change_twin {q q' : Request} {reg reg' mid : BackendRegistry} {locked : Bool}
    {refs : BackendId → Nat} (change : q.Change reg locked refs q' reg') (twin : Twin reg mid) :
    Twin reg' mid := by
  cases change with
  | idle phase next same => rwa [same]
  | select g e here found next same => rwa [same]
  | wait e phase here there next same => rwa [same]
  | abandon e outcome here failed next same => rwa [same]
  | opened e here few next written =>
    rw [written]
    exact twin.write (f := Backend.connect) (fun _ => rfl) e
  | closed guard ending errors here counted next =>
    obtain ⟨-, rfl⟩ := Prod.mk.inj next
    refine Twin.write (f := Backend.disconnect) ?_ (fun _ => rfl) guard.backend
    rcases counted with rfl | rfl
    · exact twin
    · exact twin.write (f := Backend.countError) (fun _ => rfl) guard.backend

theorem Underway.swap {reg : BackendRegistry} {now : Instant} {routes : List RouteConfig}
    {newGroups : List GroupId} (underway : Underway reg idle ⟨now, routes, [], newGroups⟩) :
    ∃ after, call (now, routes) idle = some after ∧ Twin { reg with groups := newGroups } after := by
  obtain ⟨mid, twin, rest⟩ := underway.rounds
  have done := rest [] mid rfl
  rw [List.append_nil] at done
  refine ⟨{ mid with groups := newGroups }, ?_, twin.backends, twin.groupAt, rfl⟩
  simp only [call, BackendRegistry.applyConfig, underway.accepted, done]
  rfl

theorem Underway.round {reg next : BackendRegistry} {now : Instant} {routes todo : List RouteConfig}
    {route : RouteConfig} {newGroups : List GroupId} {g : GroupId}
    (underway : Underway reg idle ⟨now, routes, route :: todo, newGroups⟩)
    (applied : reg.applyRoute now route = some (g, next)) :
    Underway next idle ⟨now, routes, todo, newGroups ++ [g]⟩ := by
  obtain ⟨mid, twin, rest⟩ := underway.rounds
  obtain ⟨mid', first, twin'⟩ := @applyRoute_twin _ _ _ now now _ _ twin applied
  have left := (List.suffix_cons route todo).trans underway.left
  refine ⟨underway.accepted, left, mid', twin', fun ids last later => ?_⟩
  have whole := rest (g :: ids) last (applyRoutes_cons_some.mpr ⟨g, mid', ids, first, later, rfl⟩)
  rw [List.append_assoc]
  exact whole

theorem call_rejected {now : Instant} {routes : List RouteConfig} {e : HostError}
    (refused : validate routes = .error e) : call (now, routes) idle = some idle := by
  simp only [call, BackendRegistry.applyConfig, refused, Option.map_some]

def current (s : System) : Option (Instant × List RouteConfig) := s.reload.map fun r => (r.now, r.routes)

theorem step_follows (taken : Traffic.step action s = some t) (follows : Follows s idle)
    (unstarted : ∀ now routes, action ≠ .reloadStart now routes) (unswapped : action ≠ .reloadSwap) :
    Follows t idle ∧ current t = current s := by
  cases action with
  | arrive path host upgrade => cases taken; exact ⟨follows.write rfl fun _ => id, rfl⟩
  | advance r move =>
    obtain ⟨q, q', reg, -, moved, rfl⟩ := advance_cases taken
    exact ⟨follows.write rfl fun _ => change_twin (Request.step_change moved), rfl⟩
  | probe b now healthy =>
    cases taken
    have write := fun mid (twin : Twin s.reg mid) => twin.write (f := Backend.probed now healthy) (fun _ => rfl) b
    exact ⟨follows.write rfl write, rfl⟩
  | sample b =>
    cases taken
    have write := fun mid (twin : Twin s.reg mid) => twin.write (f := Backend.takeErrors) (fun _ => rfl) b
    exact ⟨follows.write rfl write, rfl⟩
  | reloadStart now routes => exact absurd rfl (unstarted now routes)
  | reloadRoute =>
    obtain ⟨now, routes, route, todo, newGroups, g, reg, installing, applied, rfl⟩ := reloadRoute_cases taken
    refine ⟨⟨nofun, fun reload here => ?_⟩, by rw [current, current, installing]; rfl⟩
    cases here
    exact (follows.busy _ installing).round applied
  | reloadSwap => exact absurd rfl unswapped

theorem start_follows {now : Instant} {routes : List RouteConfig} (follows : Follows s idle)
    (unlocked : s.reload = none) (accepted : validate routes = .ok ()) :
    Follows { s with reload := some ⟨now, routes, routes, []⟩ } idle := by
  refine ⟨nofun, fun reload here => ?_⟩
  cases here
  exact ⟨accepted, List.suffix_refl _, idle, follows.quiet unlocked, fun ids last done => done⟩

theorem swap_follows (taken : Traffic.step .reloadSwap s = some t) (follows : Follows s idle) :
    ∃ request after, current s = some request ∧ call request idle = some after ∧ t.reload = none ∧
      Follows t after := by
  obtain ⟨now, routes, newGroups, installing, rfl⟩ := reloadSwap_cases taken
  obtain ⟨after, called, twin⟩ := (follows.busy _ installing).swap
  exact ⟨(now, routes), after, by rw [current, installing]; rfl, called, rfl, fun _ => twin, nofun⟩

/-- The calls of a run so far: those that are over, one after the other, lead to the table, and one
more is under way if there is a reload. -/
def Sequential (reg : BackendRegistry) (past : List (Instant × List RouteConfig)) (s : System) : Prop :=
  ∃ before idle, past = before ++ (current s).toList ∧ run call before reg = some idle ∧ Follows s idle

theorem step_sequential {reg : BackendRegistry} {past : List (Instant × List RouteConfig)}
    (taken : Traffic.step action s = some t) (sequential : Sequential reg past s) :
    Sequential reg (past ++ calls [action]) t := by
  obtain ⟨before, idle, whole, done, follows⟩ := sequential
  cases action with
  | reloadStart now routes =>
    obtain ⟨unlocked, ⟨e, refused, rfl⟩ | ⟨accepted, rfl⟩⟩ := reloadStart_cases taken
    · refine ⟨before ++ [(now, routes)], idle, ?_, run_snoc_some.mpr ⟨idle, done, call_rejected refused⟩, follows⟩
      rw [whole, current, unlocked]
      simp [calls]
    · refine ⟨before, idle, ?_, done, start_follows follows unlocked accepted⟩
      rw [whole, current, unlocked]
      simp [calls, current]
  | reloadSwap =>
    obtain ⟨request, after, here, called, unlocked, later⟩ := swap_follows taken follows
    refine ⟨before ++ [request], after, ?_, run_snoc_some.mpr ⟨idle, done, called⟩, later⟩
    rw [whole, here, current, unlocked]
    simp [calls]
  | _ =>
    obtain ⟨later, same⟩ := step_follows taken follows nofun nofun
    refine ⟨before, idle, ?_, done, later⟩
    rw [same, whole]
    exact List.append_nil _

end Steps

section Runs
variable {now : Instant} {routes : List RouteConfig} {reg : BackendRegistry} {actions : List Traffic.Action}
  {s : System}

theorem run_sequential (done : run Traffic.step actions (.start reg routes) = some s) :
    Sequential reg (calls actions) s := by
  induction actions using List.reverseRecOn generalizing s with
  | nil =>
    cases done
    exact ⟨[], reg, rfl, rfl, fun _ => .refl reg, nofun⟩
  | append_singleton earlier action ih =>
    obtain ⟨mid, first, last⟩ := run_snoc_some.mp done
    rw [show calls (earlier ++ [action]) = calls earlier ++ calls [action] from List.filterMap_append]
    exact step_sequential last (ih first)

/-- However requests, probes and samples come between the rounds of reloads: once no reload is under
way, the registry has the objects, the settings and the table that the same calls of `apply_config`
leave when nothing else happens, and it sends every host to the same group. -/
theorem reloads_atomic (done : run Traffic.step actions (.start reg routes) = some s)
    (unlocked : s.reload = none) : ∃ idle, run call (calls actions) reg = some idle ∧
      Twin s.reg idle ∧ s.reg.config = idle.config ∧
      ∀ header, s.reg.findGroup header = idle.findGroup header := by
  obtain ⟨before, idle, whole, sequential, follows⟩ := run_sequential done
  have twin := follows.quiet unlocked
  refine ⟨idle, ?_, twin, twin.config, twin.findGroup⟩
  rw [whole, current, unlocked]
  simpa using sequential

/-- Between the two rounds a request opens a connection, a probe fails and a sample is taken. -/
theorem reloads_atomic_busy : ∃ reg s idle,
    BackendRegistry.new 0 [⟨['a'], [⟨['u'], 5, false⟩]⟩] = .ok reg ∧
      Reachable Traffic.step (.start reg [⟨['a'], [⟨['u'], 5, false⟩]⟩]) s ∧ s.reload = none ∧
      run call [(7, [⟨['a'], [⟨['v'], 3, false⟩, ⟨['u'], 9, true⟩]⟩, ⟨['b'], [⟨['w'], 1, false⟩]⟩])] reg =
        some idle ∧
      Twin s.reg idle ∧ (s.reg.backend 0).healthy ≠ (idle.backend 0).healthy := by
  let routes : List RouteConfig := [⟨['a'], [⟨['v'], 3, false⟩, ⟨['u'], 9, true⟩]⟩, ⟨['b'], [⟨['w'], 1, false⟩]⟩]
  let reg : BackendRegistry := ⟨⟨[⟨['u'], 5, false, true, 0, 0, 0⟩]⟩,
    ⟨[⟨['a'], .exact ['a'], [0], rfl⟩]⟩, [0]⟩
  let trace : List Traffic.Action := [.arrive ['/'] ['a'] false, .advance 0 .findGroup,
    .advance 0 .selectBackend, .reloadStart 7 routes, .reloadRoute, .advance 0 .openGuard,
    .probe 0 8 false, .sample 0, .reloadRoute, .reloadSwap]
  have built : BackendRegistry.new 0 [⟨['a'], [⟨['u'], 5, false⟩]⟩] = .ok reg := rfl
  have done : run Traffic.step trace (.start reg [⟨['a'], [⟨['u'], 5, false⟩]⟩]) = some _ := rfl
  obtain ⟨idle, called, twin, -, -⟩ := reloads_atomic done rfl
  refine ⟨reg, _, idle, built, ⟨trace, done⟩, rfl, called, twin, ?_⟩
  cases called
  decide

end Runs

end TinyLb.AtomicReload
