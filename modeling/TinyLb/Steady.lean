import TinyLb.Completion
import TinyLb.Convergence

/-! A file that is not edited any more: reloads of it change nothing, not even between their rounds, and
what it drains comes to rest. -/

namespace TinyLb.Steady
open Config Backends Merge Reload AtomicReload Machine
open ConnectionLedger
open Traffic (System ReloadState)

section Rounds
variable {reg : BackendRegistry} {arena : Arena Backend} {old ids : List BackendId} {now : Instant} {g : GroupId}

theorem modify_self {α : Type} [Inhabited α] (objects : Arena α) {i : Nat} {f : α → α}
    (same : f (objects.get i) = objects.get i) : objects.modify i f = objects := by
  rw [objects.modify_congr (g := id) same]
  simp [Arena.modify]

theorem merge_shown (distinct : (old.map fun b => (arena.get b).url).Nodup) (listed : ids ⊆ old) :
    mergeBackends now old (ids.map fun b => (arena.get b).config) arena = (ids, arena) := by
  induction ids with
  | nil => rfl
  | cons b rest ih =>
    obtain ⟨here, later⟩ := List.cons_subset.mp listed
    have found : locate arena old (arena.get b).config.url = some b := by
      cases search : locate arena old (arena.get b).config.url with
      | none => exact absurd (List.mem_map_of_mem here) (locate_none.mp search)
      | some e =>
        obtain ⟨member, url⟩ := locate_some search
        exact congrArg some (List.inj_on_of_nodup_map distinct member here url)
    have kept : arena.modify b (Backend.update (arena.get b).config) = arena := modify_self arena rfl
    rw [List.map_cons, mergeBackends, found]
    simp only [kept, ih later]

theorem applyRoute_shown (distinct : Distinct reg.config) (member : g ∈ reg.groups) :
    reg.applyRoute now (reg.route g) = some (g, reg) := by
  have hosts : (reg.groups.map fun g => (reg.group g).host).Nodup := by
    have shown := distinct.hosts
    rw [BackendRegistry.config, List.map_map] at shown
    exact shown
  have located : reg.locateGroup (reg.route g).host = some g := by
    cases search : reg.locateGroup (reg.route g).host with
    | none => exact absurd (beq_self_eq_true _) (List.find?_eq_none.mp search g member)
    | some e =>
      obtain ⟨there, same⟩ := locateGroup_some search
      exact congrArg some (List.inj_on_of_nodup_map hosts there member same)
  have urls : ((reg.group g).backends.map fun b => (reg.backendAt.get b).url).Nodup := by
    have shown := distinct.urls (reg.route g) (List.mem_map_of_mem member)
    rw [BackendRegistry.route, List.map_map] at shown
    exact shown
  have merged : mergeBackends now (reg.group g).backends (reg.route g).backends reg.backendAt =
      ((reg.group g).backends, reg.backendAt) := merge_shown urls (List.Subset.refl _)
  have kept : reg.groupAt.modify g (fun group => { group with backends := (reg.group g).backends }) =
      reg.groupAt := modify_self reg.groupAt rfl
  have applied : reg.applyBackends now g (reg.route g).backends = reg := by
    rw [BackendRegistry.applyBackends, merged]
    simp only [kept]
  simp only [BackendRegistry.applyRoute, located, applied]

theorem config_of_entry {routes : List RouteConfig} {route : RouteConfig} {e : BackendConfig} {k i : Nat}
    {b : BackendId} (shown : reg.config = routes) (group : reg.groups[k]? = some g) (was : routes[k]? = some route)
    (listed : (reg.group g).backends[i]? = some b) (entry : route.backends[i]? = some e) :
    (reg.backend b).config = e := by
  have same : reg.route g = route := by
    rw [← shown, BackendRegistry.config, List.getElem?_map, group] at was
    exact Option.some.inj was
  rw [← same, BackendRegistry.route, List.getElem?_map, listed] at entry
  exact Option.some.inj entry

end Rounds

/-- The settings are those of `reg`, and a reload under way is one of the configuration that `reg` shows:
the groups it has found are the first ones of the table. -/
structure Holds (reg : BackendRegistry) (s : System) : Prop where
  twin : Twin s.reg reg
  underway : ∀ reload, s.reload = some reload →
    ∃ rest, reg.groups = reload.newGroups ++ rest ∧ reload.todo = rest.map reg.route

section Steps
variable {reg : BackendRegistry} {s t : System}

theorem step_holds {action : Traffic.Action} (distinct : Distinct reg.config)
    (same : ∀ now routes, action = .reloadStart now routes → routes = reg.config) (holds : Holds reg s)
    (taken : Traffic.step action s = some t) : Holds reg t := by
  obtain ⟨twin, underway⟩ := holds
  cases action with
  | arrive path host upgrade => cases taken; exact ⟨twin, underway⟩
  | advance r move =>
    obtain ⟨q, q', reg', -, moved, rfl⟩ := advance_cases taken
    exact ⟨change_twin (Traffic.Request.step_change moved) twin, underway⟩
  | probe b now healthy =>
    cases taken
    exact ⟨twin.write (f := Backend.probed now healthy) (fun _ => rfl) b, underway⟩
  | sample b =>
    cases taken
    exact ⟨twin.write (f := Backend.takeErrors) (fun _ => rfl) b, underway⟩
  | reloadStart now routes =>
    obtain ⟨-, ⟨e, -, rfl⟩ | ⟨-, rfl⟩⟩ := reloadStart_cases taken
    · exact ⟨twin, underway⟩
    · refine ⟨twin, fun reload here => ?_⟩
      cases here
      exact ⟨reg.groups, rfl, same now routes rfl⟩
  | reloadRoute =>
    obtain ⟨now, routes, route, todo, newGroups, g, next, installing, applied, rfl⟩ := reloadRoute_cases taken
    obtain ⟨rest, table, left⟩ := underway _ installing
    cases rest with
    | nil => cases left
    | cons e rest =>
      obtain ⟨rfl, rfl⟩ := List.cons.inj left
      have member : e ∈ reg.groups := by
        rw [table]
        exact List.mem_append_right _ (List.mem_cons_self ..)
      obtain ⟨next', found, later⟩ := @applyRoute_twin _ _ _ now now _ _ twin applied
      rw [applyRoute_shown distinct member] at found
      cases found
      refine ⟨later, fun reload here => ?_⟩
      cases here
      exact ⟨rest, by rw [table, List.append_assoc]; rfl, rfl⟩
  | reloadSwap =>
    obtain ⟨now, routes, newGroups, installing, rfl⟩ := reloadSwap_cases taken
    obtain ⟨rest, table, left⟩ := underway _ installing
    have whole : newGroups = reg.groups := by
      rw [table, List.map_eq_nil_iff.mp left.symm, List.append_nil]
    exact ⟨⟨twin.backends, twin.groupAt, whole⟩, nofun⟩

end Steps

/-- Every request that is not older than the `n`-th keeps away from `b`, and the counters are exact. -/
structure Emptying (b : BackendId) (n : Nat) (s : System) : Prop where
  ledger : Ledger s
  spared : Completion.Spared b n s
  arrived : n ≤ s.requests.length

section Tasks
variable {Cert PrivateKey SigningKey : Type} {formats : ReloadLoop.Formats Cert PrivateKey SigningKey}
  {config : HealthConfig} {c : LbConfig} {reg : BackendRegistry} {a : Tasks.Action}
  {actions : List Tasks.Action} {s t : Tasks.State Cert SigningKey}

/-- The file says `c`, nothing else is going to be applied, and `reg` is what is in force. -/
structure Kept (formats : ReloadLoop.Formats Cert PrivateKey SigningKey) (c : LbConfig) (reg : BackendRegistry)
    (s : Tasks.State Cert SigningKey) : Prop where
  parsed : formats.toml s.watch.file.contents = some c
  read : ∀ c', Convergence.pending s.watch.position = some c' → c' = c
  holds : Holds reg s.traffic

theorem moves_read {action : ReloadLoop.Action} {w next : ReloadLoop.State Cert SigningKey}
    (moves : ReloadLoop.Moves formats w action next) (quiet : ReloadLoop.NoWrite action)
    (parsed : formats.toml w.file.contents = some c)
    (read : ∀ c', Convergence.pending w.position = some c' → c' = c) :
    next.file = w.file ∧ ∀ c', Convergence.pending next.position = some c' → c' = c := by
  cases moves with
  | write file => exact absurd rfl (quiet file)
  | sighup => exact ⟨rfl, read⟩
  | load c' here said | reloadConfig c' here said =>
    refine ⟨rfl, fun c'' same => ?_⟩
    cases same
    exact Option.some.inj (said.symm.trans parsed)
  | _ => exact ⟨rfl, nofun⟩

theorem traffic_source (taken : Tasks.step formats config a s = some t) :
    t.traffic = s.traffic ∨ ∃ action, Traffic.step action s.traffic = some t.traffic ∧
      ∀ now routes, action = .reloadStart now routes →
        ∃ c', s.watch.position = .applying c' ∧ routes = c'.routes := by
  cases Tasks.step_change taken with
  | request action next ordinary moved =>
    refine Or.inr ⟨action, moved, ?_⟩
    rcases ordinary with ⟨path, host, upgrade, rfl⟩ | ⟨r, move, rfl⟩ <;> exact nofun
  | health action next own moved =>
    rcases Tasks.health_traffic own moved with same | ⟨b, now, healthy, probed⟩
    · exact Or.inl same
    · exact Or.inr ⟨_, probed, nofun⟩
  | sample action next own moved =>
    rcases Tasks.sample_traffic own moved with same | ⟨b, sampled⟩
    · exact Or.inl same
    · exact Or.inr ⟨_, sampled, nofun⟩
  | applyConfig c' next here stage moved =>
    refine Or.inr ⟨_, moved, fun now routes same => ?_⟩
    cases same
    exact ⟨c', here, rfl⟩
  | applyRoute next stage moved => exact Or.inr ⟨_, moved, nofun⟩
  | swapGroups next stage moved => exact Or.inr ⟨_, moved, nofun⟩
  | watch | setWindowSecs | tryReloadCerts => exact Or.inl rfl

theorem step_kept (shown : reg.config = c.routes) (distinct : Distinct c.routes) (kept : Kept formats c reg s)
    (quiet : Convergence.NoWrite a) (taken : Tasks.step formats config a s = some t) : Kept formats c reg t := by
  obtain ⟨parsed, read, holds⟩ := kept
  have watched : t.watch.file = s.watch.file ∧ ∀ c', Convergence.pending t.watch.position = some c' → c' = c := by
    rcases Convergence.watch_cases taken with same | ⟨b, rfl, moved⟩ | ⟨-, ended⟩
    · rw [same]
      exact ⟨rfl, read⟩
    · exact moves_read (ReloadLoop.step_moves moved) quiet.watch parsed read
    · rw [ended]
      exact ⟨rfl, nofun⟩
  refine ⟨watched.1 ▸ parsed, watched.2, ?_⟩
  rcases traffic_source taken with same | ⟨action, moved, started⟩
  · rw [same]
    exact holds
  · apply step_holds (shown ▸ distinct) ?_ holds moved
    intro now routes same
    obtain ⟨c', here, rfl⟩ := started now routes same
    rw [shown, read c' (by rw [here]; rfl)]

theorem step_emptying {b : BackendId} {n : Nat} (emptying : Emptying b n s.traffic)
    (drained : (s.traffic.reg.backend b).drain = true) (taken : Tasks.step formats config a s = some t) :
    Emptying b n t.traffic := by
  rcases traffic_source taken with same | ⟨action, moved, -⟩
  · rw [same]
    exact emptying
  · obtain ⟨ledger, spared, arrived⟩ := emptying
    obtain ⟨later, more⟩ := Completion.step_spared moved drained arrived spared
    exact ⟨step_ledger action _ _ ledger moved, later, more⟩

variable {file : ReloadLoop.ConfigFile} {boot : List ReloadLoop.Action} {r : ReloadLoop.State Cert SigningKey}
  {p : LiveConfig.Process Cert SigningKey} {now launch : Instant} {routes : List RouteConfig}

/-- All tasks of a process next to each other, from its launch. Every edit gives the file a modification time
that it never had, a poll tick is handled after the last one, and what the file says is in force, with no host
twice and no url twice in a route. Then, whatever comes, also while it is loaded again for signals, the objects,
their settings and the table are in every state what they are now; and a backend that the file drains has no
connections once the requests of now have ended. -/
theorem drained_by_file {starting before after rest more : List Tasks.Action}
    {u v handled s t : Tasks.State Cert SigningKey}
    (booted : run (ReloadLoop.step formats) boot (.start file) = some r) (launched : r.process = some p)
    (built : BackendRegistry.new launch routes = .ok p.registry)
    (started : run (Tasks.step formats config) starting (.start now routes p r) = some u)
    (begun : Tasks.step formats config (.watch .begin) u = some v)
    (current : v.watch.lastLoad = some v.watch.file.contents)
    (fresh : Conforms (Tasks.step formats config) Convergence.FreshWrite (before ++ .watch .tick :: after) v)
    (ticked : run (Tasks.step formats config) (before ++ .watch .tick :: after) v = some handled)
    (selecting : handled.watch.position = .selecting) (quiet : ∀ a ∈ after ++ rest ++ more, Convergence.NoWrite a)
    (done : run (Tasks.step formats config) rest handled = some s)
    (idle : Convergence.pending s.watch.position = none)
    (parsed : formats.toml s.watch.file.contents = some c) (accepted : validate c.routes = .ok ())
    (distinct : Distinct c.routes) (later : run (Tasks.step formats config) more s = some t) :
    Twin t.traffic.reg s.traffic.reg ∧ t.traffic.reg.config = c.routes ∧
    ∀ (k i : Nat) g b (route : RouteConfig) (e : BackendConfig),
      s.traffic.reg.groups[k]? = some g → c.routes[k]? = some route →
      (s.traffic.reg.group g).backends[i]? = some b → route.backends[i]? = some e → e.drain = true →
      (∀ r < s.traffic.requests.length, Completion.Over t.traffic r) →
      (t.traffic.reg.backend b).activeConnections = 0 ∧ t.traffic.pending b = 0 := by
  have tracked := Convergence.tracked_of_begin booted launched started begun current
  have quiet_rest : ∀ a ∈ after ++ rest, Convergence.NoWrite a :=
    fun a member => quiet a (List.mem_append_left more member)
  have quiet_more : ∀ a ∈ more, Convergence.NoWrite a :=
    fun a member => quiet a (List.mem_append_right (after ++ rest) member)
  have loaded := Convergence.loaded_of_tick tracked fresh ticked selecting quiet_rest done
  have whole : run (Tasks.step formats config)
      (starting ++ .watch .begin :: ((before ++ .watch .tick :: after) ++ rest)) (.start now routes p r) = some s :=
    run_trans started (run_cons_some.mpr ⟨v, begun, run_trans ticked done⟩)
  have known : s.watch.lastLoad.bind formats.toml = some c := by
    rw [loaded]
    exact parsed
  obtain ⟨-, unlocked, table⟩ := Convergence.shows_of_run booted launched whole idle known
  have shown := table accepted distinct
  have kept : Kept formats c s.traffic.reg s := by
    refine ⟨parsed, fun c' read => ?_, .refl _, fun reload here => ?_⟩
    · rw [idle] at read
      cases read
    · rw [unlocked] at here
      cases here
  have keep : ∀ a before after, Kept formats c s.traffic.reg before → Convergence.NoWrite a →
      Tasks.step formats config a before = some after → Kept formats c s.traffic.reg after :=
    fun _ _ _ known ok taken => step_kept shown distinct known ok taken
  have final := run_invariant_of_forall keep kept quiet_more later
  refine ⟨final.holds.twin, final.holds.twin.config.trans shown, ?_⟩
  intro k i g b route e group was listed entry drain ended
  have settings := config_of_entry shown group was listed entry
  have ledger : Ledger s.traffic := by
    obtain ⟨trace, path⟩ := Tasks.traffic_of_run whole
    exact run_invariant step_ledger (ledger_start built) path
  have emptying : Emptying b s.traffic.requests.length s.traffic :=
    ⟨ledger, Completion.spared_arrived s.traffic b, Nat.le_refl _⟩
  have both : ∀ a before after, (Kept formats c s.traffic.reg before ∧
      Emptying b s.traffic.requests.length before.traffic) → Convergence.NoWrite a →
      Tasks.step formats config a before = some after →
      Kept formats c s.traffic.reg after ∧ Emptying b s.traffic.requests.length after.traffic := by
    intro a before after known ok taken
    have same := known.1.holds.twin.backends.config b
    have drained : (before.traffic.reg.backend b).drain = true := by
      have flag := congrArg BackendConfig.drain (same.trans settings)
      rw [drain] at flag
      exact flag
    exact ⟨keep a before after known.1 ok taken, step_emptying known.2 drained taken⟩
  obtain ⟨-, empty⟩ := run_invariant_of_forall both ⟨kept, emptying⟩ quiet_more later
  obtain ⟨none, waiting, -⟩ := Completion.idle_of_spared empty.ledger empty.spared ended
  exact ⟨none, waiting⟩

/-- A request has been given the backend that the edit drains; it connects, and is over when the file has been
loaded again halfway. -/
theorem drained_by_file_signal : ∃ (formats : ReloadLoop.Formats Unit Unit Unit) (c : LbConfig)
    (s t : Tasks.State Unit Unit), formats.toml t.watch.file.contents = some c ∧
      Reachable (Tasks.step formats ⟨10, 1, 1⟩) s t ∧ s.traffic.pending 0 = 1 ∧ t.traffic.reload.isSome = true ∧
      t.traffic.reg.config = c.routes ∧ (t.traffic.reg.backend 0).activeConnections = 0 := by
  let routes : List RouteConfig := [⟨['a'], [⟨['u'], 5, false⟩]⟩]
  let first : LbConfig := { Tasks.sampleConfig with routes := routes }
  let edited : LbConfig :=
    { Tasks.sampleConfig with routes := [⟨['a'], [⟨['u'], 5, true⟩]⟩], log := ⟨none, 50, 3, 0⟩ }
  let formats : ReloadLoop.Formats Unit Unit Unit :=
    ⟨fun contents => if contents = [] then some first else some edited, LiveConfig.noPem⟩
  let move (m : Traffic.Move) : Tasks.Action := .request (.advance 0 m)
  let starting : List Tasks.Action := [.request (.arrive ['/'] ['a'] false), move .findGroup]
  let before : List Tasks.Action := [move .selectBackend, .watch (.write ⟨[1], 1⟩)]
  let after : List Tasks.Action :=
    [.watch .metadata, .watch .reloadConfig, .setWindowSecs, .applyConfig, .applyRoute, .swapGroups,
      .tryReloadCerts LiveConfig.noFiles]
  let more : List Tasks.Action :=
    [move .openGuard, .watch .listen, .watch .sighup, .watch .recv, .watch .metadata, .watch .reloadConfig,
      .setWindowSecs, .applyConfig, move .send, .applyRoute, move .answer, move .close]
  let table : BackendRegistry := ⟨⟨[⟨['u'], 5, false, true, 0, 0, 0⟩]⟩, ⟨[⟨['a'], .exact ['a'], [0], rfl⟩]⟩, [0]⟩
  let p : LiveConfig.Process Unit Unit := ⟨table, LiveConfig.windowOfSecs 60, none⟩
  let r : ReloadLoop.State Unit Unit := ⟨⟨[], 0⟩, [0], .spawned, none, none, false, some [], some p⟩
  let step := Tasks.step formats ⟨10, 1, 1⟩
  have booted : run (ReloadLoop.step formats) [.load, .launch 0 LiveConfig.noFiles] (.start ⟨[], 0⟩) = some r := rfl
  have built : BackendRegistry.new 0 routes = .ok table := rfl
  let u := (run step starting (.start 0 routes p r)).get rfl
  let v := (step (.watch .begin) u).get rfl
  let s := (run step (before ++ .watch .tick :: after) v).get rfl
  let t := (run step more s).get (by decide +kernel)
  have started : run step starting (.start 0 routes p r) = some u := rfl
  have begun : step (.watch .begin) u = some v := rfl
  have ticked : run step (before ++ .watch .tick :: after) v = some s := rfl
  have later : run step more s = some t := (Option.some_get _).symm
  have quiet : ∀ a ∈ after ++ [] ++ more, Convergence.NoWrite a := by
    simp [after, more, move, Convergence.NoWrite]
  have listed : ∀ a ∈ .watch .tick :: after, ∀ s : Tasks.State Unit Unit, Convergence.FreshWrite a s := by
    simp [after, Convergence.FreshWrite, ReloadLoop.FreshWrite]
  have new : (1 : ReloadLoop.SystemTime) ∉ [0] := by decide
  have fresh : Conforms step Convergence.FreshWrite (before ++ .watch .tick :: after) v :=
    .cons trivial rfl (.cons new rfl (.of_forall listed _))
  obtain ⟨-, shown, rests⟩ := drained_by_file booted rfl built started begun rfl fresh ticked rfl quiet rfl rfl
    rfl rfl ⟨by decide, by decide⟩ later
  have closed : t.traffic.requests[0]?.map (·.phase) = some (.finished (.proxied 0 .closed)) := by decide +kernel
  have ended : ∀ r < s.traffic.requests.length, Completion.Over t.traffic r := by
    intro r less q here
    obtain rfl : r = 0 := Nat.lt_one_iff.mp less
    rw [here] at closed
    exact ⟨_, Option.some.inj closed⟩
  have busy : t.traffic.reload.isSome = true := by decide +kernel
  have same : formats.toml t.watch.file.contents = some edited := by decide +kernel
  obtain ⟨idle, -⟩ := rests 0 0 0 0 _ _ rfl rfl rfl rfl rfl ended
  exact ⟨formats, edited, s, t, same, ⟨more, later⟩, rfl, busy, shown, idle⟩

end Tasks

end TinyLb.Steady
