import TinyLb.Balancing
import TinyLb.Reload
import TinyLb.RollingUpdate

/-! Runs of the update script, one after the other, and the proxy that serves what they write: the
script maintains its targets one at a time. -/

namespace TinyLb.UpdateRuns
open Machine Config Backends RollingUpdate

inductive Move (targets : List Str) (s next : Script) : Prop
  | stay (file : next.file = s.file) (outline : next.phase.outline = s.phase.outline)
      (running : next.phase.outline ≠ .stopped)
  | abort (file : next.file = s.file) (stopped : next.phase = .stopped .aborted)
  | finish (file : next.file = s.file) (done : s.phase = .looping []) (stopped : next.phase = .stopped .complete)
  | start (urls : List Str) (found : collectBackendUrls targets s.file = some urls) (file : next.file = s.file)
      (idle : s.phase.outline = .stopped) (outline : next.phase.outline = .choosing (buildRestartOrder s.file urls))
  | resume (url : Str) (rest : List Str) (here : s.phase.outline = .choosing (url :: rest))
      (drained : isDrained s.file url = true) (file : next.file = s.file)
      (outline : next.phase.outline = .away url rest)
  | takeOut (url : Str) (rest : List Str) (here : s.phase.outline = .choosing (url :: rest))
      (serving : isDrained s.file url = false) (file : next.file = setDrainEverywhere url true s.file)
      (outline : next.phase.outline = .away url rest)
  | putBack (url : Str) (rest : List Str) (here : s.phase.outline = .away url rest)
      (file : next.file = setDrainEverywhere url false s.file) (outline : next.phase.outline = .choosing rest)

section Steps
variable {targets : List Str} {first : List RouteConfig} {s next : Script}

theorem move_of_proceed {ok : Bool} (taken : proceed ok s = some next) : Move targets s next := by
  obtain ⟨file, phase, recreated⟩ := s
  cases phase with
  | stopped outcome => cases taken
  | building order =>
    cases taken
    cases ok with
    | true => exact .stay rfl rfl (by simp [RollingUpdate.Phase.outline])
    | false => exact .abort rfl rfl
  | looping rest =>
    cases rest with
    | nil =>
      cases taken
      exact .finish rfl rfl rfl
    | cons url rest =>
      simp only [proceed] at taken
      split at taken
      next drained =>
        cases taken
        exact .resume url rest rfl drained rfl rfl
      next serving =>
        cases taken
        exact .takeOut url rest rfl (Bool.eq_false_iff.mpr serving) rfl rfl
  | reloading url rest drain =>
    cases taken
    cases ok with
    | true => cases drain <;> exact .stay rfl rfl (by simp [RollingUpdate.Phase.outline])
    | false => exact .abort rfl rfl
  | waiting url rest =>
    cases taken
    cases ok with
    | true => exact .stay rfl rfl (by simp [RollingUpdate.Phase.outline])
    | false => exact .abort rfl rfl
  | recreating url rest =>
    cases taken
    cases ok with
    | true => exact .stay rfl rfl (by simp [RollingUpdate.Phase.outline])
    | false => exact .abort rfl rfl
  | starting url rest =>
    cases taken
    cases ok with
    | true => exact .putBack url rest rfl rfl rfl
    | false => exact .abort rfl rfl

theorem move_of_step {action : Action} (taken : step targets action s = some next) : Move targets s next := by
  cases action with
  | proceed ok => exact move_of_proceed taken
  | start doBuild =>
    rw [step] at taken
    split at taken
    next outcome idle =>
      split at taken
      next =>
        cases taken
        exact .abort rfl rfl
      next =>
        cases taken
        exact .abort rfl rfl
      next urls _ found =>
        cases taken
        cases doBuild <;> exact .start urls found rfl (by rw [idle]; rfl) rfl
    next => cases taken
  | kill =>
    rw [step] at taken
    split at taken
    next => cases taken
    next =>
      cases taken
      exact .abort rfl rfl

/-- The file is the first one with what the maintenance has written over it. -/
structure Refines (targets : List Str) (first : List RouteConfig) (s : Script) (t : Rolling.State Str) :
    Prop where
  file : s.file = mark t.written first
  outline : s.phase.outline = t.phase
  orderly : Rolling.Orderly (fleet targets first) t
  complete : s.phase = .stopped .complete → ∀ m ∈ (fleet targets first).members, t.written m = some false

variable {t : Rolling.State Str}

theorem refines_fresh (targets : List Str) (first : List RouteConfig) :
    Refines targets first (.fresh first) .fresh where
  file := (mark_none first).symm
  outline := rfl
  orderly := Rolling.orderly_fresh
  complete ended := by cases ended

theorem Refines.isDrained (refines : Refines targets first s t) {url : Str}
    (member : url ∈ (fleet targets first).members) :
    isDrained s.file url = Rolling.isDrained (fleet targets first) t.written url := by
  rw [refines.file, isDrained_mark (occurs_of_member member)]
  rfl

theorem Refines.order (refines : Refines targets first s t) {urls : List Str}
    (found : collectBackendUrls targets s.file = some urls) :
    buildRestartOrder s.file urls = Rolling.order (fleet targets first) t.written := by
  rw [refines.file, collect_mark] at found
  have members : (fleet targets first).members = urls := by
    show (collectBackendUrls targets first).getD [] = urls
    rw [found]
    rfl
  have same : ∀ url ∈ urls, RollingUpdate.isDrained s.file url =
      Rolling.isDrained (fleet targets first) t.written url := by
    intro url member
    exact refines.isDrained (members.symm ▸ member)
  unfold buildRestartOrder Rolling.order
  rw [members, List.filter_congr same]
  congr 1
  apply List.filter_congr
  intro url member
  rw [same url member]

theorem step_refines {action : Action} (refines : Refines targets first s t)
    (taken : step targets action s = some next) :
    ∃ t', Reachable (Rolling.step (fleet targets first)) t t' ∧ Refines targets first next t' := by
  have run : ∀ {action t'}, Rolling.step (fleet targets first) action t = some t' →
      next.file = mark t'.written first → next.phase.outline = t'.phase →
      (next.phase = .stopped .complete → ∀ m ∈ (fleet targets first).members, t'.written m = some false) →
      ∃ t', Reachable (Rolling.step (fleet targets first)) t t' ∧ Refines targets first next t' := by
    intro action t' moved file outline complete
    exact ⟨t', .single moved, file, outline, Rolling.step_orderly moved refines.orderly, complete⟩
  have running : next.phase.outline ≠ .stopped → next.phase ≠ .stopped .complete := by
    intro different same
    rw [same] at different
    exact different rfl
  have outline := refines.outline
  obtain ⟨written, phase⟩ := t
  cases move_of_step taken with
  | stay file same live =>
    refine ⟨_, .refl _, file.trans refines.file, same.trans outline, refines.orderly, ?_⟩
    exact fun ended => absurd ended (running live)
  | abort file stopped =>
    apply @run .stop ⟨written, .stopped⟩ rfl (file.trans refines.file)
    · rw [stopped]
      rfl
    · intro ended
      rw [stopped] at ended
      cases ended
  | finish file done stopped =>
    apply @run .stop ⟨written, .stopped⟩ rfl (file.trans refines.file)
    · rw [stopped]
      rfl
    · intro _ m member
      have queue := refines.orderly.phase
      rw [← outline, done] at queue
      rcases queue.covered m member with none | back
      · cases none
      · exact back
  | start urls found file idle order =>
    rw [idle] at outline
    cases outline
    apply @run .start _ rfl (file.trans refines.file) (order.trans (congrArg _ (refines.order found)))
    intro ended
    rw [ended] at order
    cases order
  | resume url rest here drained file away =>
    rw [here] at outline
    cases outline
    have member := refines.orderly.phase.members url (List.mem_cons_self ..)
    rw [refines.isDrained member] at drained
    apply @run .takeOut _ rfl ?_ away
    · intro ended
      rw [ended] at away
      cases away
    · rw [file, refines.file, Rolling.takeOut, if_pos drained]
  | takeOut url rest here serving file away =>
    rw [here] at outline
    cases outline
    have member := refines.orderly.phase.members url (List.mem_cons_self ..)
    rw [refines.isDrained member] at serving
    apply @run .takeOut _ rfl ?_ away
    · intro ended
      rw [ended] at away
      cases away
    · rw [file, refines.file, setDrainEverywhere_mark, Rolling.takeOut, if_neg (Bool.eq_false_iff.mp serving)]
  | putBack url rest here file back =>
    rw [here] at outline
    cases outline
    apply @run .putBack _ rfl ?_ back
    · intro ended
      rw [ended] at back
      cases back
    · rw [file, refines.file, setDrainEverywhere_mark, Rolling.putBack]

theorem refines_of_reachable (reached : Reachable (step targets) (.fresh first) s) :
    ∃ t, Refines targets first s t := by
  obtain ⟨actions, done⟩ := reached
  obtain ⟨t, -, refines⟩ := run_simulation (fun _ _ _ _ refines taken => step_refines refines taken)
    (refines_fresh targets first) done
  exact ⟨t, refines⟩

theorem outline_of_away {phase : Phase} {url : Str} (away : phase.away = some url) :
    ∃ rest, phase.outline = .away url rest := by
  cases phase with
  | reloading other rest drain =>
    cases drain with
    | true => cases away; exact ⟨rest, rfl⟩
    | false => cases away
  | waiting other rest => cases away; exact ⟨rest, rfl⟩
  | recreating other rest => cases away; exact ⟨rest, rfl⟩
  | starting other rest => cases away; exact ⟨rest, rfl⟩
  | _ => cases away

theorem Refines.away_drained (refines : Refines targets first s t) {url : Str} (away : s.phase.away = some url) :
    RollingUpdate.isDrained s.file url = true := by
  obtain ⟨rest, outline⟩ := outline_of_away away
  have ok := refines.orderly.phase
  rw [← refines.outline, outline] at ok
  rw [refines.isDrained (ok.1.members url (List.mem_cons_self ..))]
  exact ok.2

theorem not_drained_of_entry {routes : List RouteConfig} {backend : BackendConfig}
    (member : backend ∈ entries routes) (serving : backend.drain = false) :
    isDrained routes backend.url = false := by
  apply Bool.eq_false_iff.mpr
  intro drained
  have all := (isDrained_iff.mp drained).2 backend member rfl
  rw [serving] at all
  cases all

theorem Refines.serving_of_two (refines : Refines targets first s t) {c c' : BackendConfig}
    (listed : c ∈ entries first) (listed' : c' ∈ entries first) (serving : c.drain = false)
    (serving' : c'.drain = false) (apart : c.url ≠ c'.url) :
    (markEntry t.written c).drain = false ∨ (markEntry t.written c').drain = false := by
  have kept : ∀ {d : BackendConfig}, d.drain = false → t.written d.url ≠ some true →
      (markEntry t.written d).drain = false := by
    intro d up never
    show (t.written d.url).getD d.drain = false
    cases wrote : t.written d.url with
    | none => exact up
    | some flag =>
      cases flag with
      | true => exact absurd wrote never
      | false => rfl
  have first_up : (fleet targets first).drained c.url = false := not_drained_of_entry listed serving
  have second_up : (fleet targets first).drained c'.url = false := not_drained_of_entry listed' serving'
  exact (refines.orderly.serving_of_two first_up second_up apart).imp (kept serving) (kept serving')

end Steps

section Traffic
variable {targets : List Str} {first : List RouteConfig} {s : Script} {reg : BackendRegistry} {g : GroupId}
  {k : Nat} {route : RouteConfig}

theorem backends_of_loaded {written : Str → Option Bool} (loaded : reg.config = mark written first)
    (group : reg.groups[k]? = some g) (was : first[k]? = some route) :
    (reg.group g).backends.map (fun b => (reg.backend b).config) = route.backends.map (markEntry written) := by
  have here : reg.config[k]? = some (reg.route g) := by
    rw [BackendRegistry.config, List.getElem?_map, group]
    rfl
  rw [loaded, mark, List.getElem?_map, was] at here
  exact (congrArg RouteConfig.backends (Option.some.inj here)).symm

theorem entry_of_backend (group : reg.groups[k]? = some g) {b : BackendId} (listed : b ∈ (reg.group g).backends) :
    (reg.backend b).config ∈ entries reg.config := by
  unfold entries BackendRegistry.config
  apply List.mem_flatMap.mpr
  refine ⟨reg.route g, List.mem_map_of_mem (List.mem_of_getElem? group), ?_⟩
  exact List.mem_map_of_mem listed

/-- A route with a backend that is in service selects one that is. -/
theorem selects_undrained (group : reg.groups[k]? = some g)
    (up : ∃ b ∈ (reg.group g).backends, (reg.backend b).drain = false)
    (able : ∀ b ∈ (reg.group g).backends, (reg.backend b).drain = false → (reg.backend b).healthy = true ∧
      (reg.backend b).activeConnections < (reg.backend b).maxConnections) :
    ∃ b, reg.selectBackend g = some b ∧ (reg.backend b).config ∈ entries reg.config ∧
      (reg.backend b).drain = false := by
  obtain ⟨b, there, undrained⟩ := up
  obtain ⟨healthy, room⟩ := able b there undrained
  have eligible : b ∈ Balancing.eligible reg g := by
    apply Balancing.mem_eligible.mpr
    refine ⟨there, ?_⟩
    rw [Balancing.isEligible, undrained, healthy]
    rfl
  cases chosen : reg.selectBackend g with
  | none => exact absurd (UInt64.lt_iff_toNat_lt.mp room) (Balancing.selectBackend_none chosen b eligible)
  | some other =>
    obtain ⟨member, off, -, -⟩ := selectBackend_some chosen
    exact ⟨other, rfl, entry_of_backend group member, off⟩

end Traffic

section Completion
variable {targets urls : List Str} {first : List RouteConfig} {s t : Script}

def Counted (urls : List Str) (s : Script) : Prop :=
  ∀ rest, s.phase.ahead = some rest → (s.recreated ++ rest).Perm urls

theorem counted_of_stopped {s : Script} (stopped : s.phase.ahead = none) : Counted urls s := by
  intro rest waiting
  rw [stopped] at waiting
  cases waiting

theorem proceed_counted {ok : Bool} {next : Script} (taken : proceed ok s = some next)
    (counted : Counted urls s) : Counted urls next := by
  obtain ⟨file, phase, recreated⟩ := s
  cases phase with
  | stopped outcome => cases taken
  | building order =>
    cases taken
    cases ok with
    | true => exact counted
    | false => exact counted_of_stopped rfl
  | looping rest =>
    cases rest with
    | nil =>
      cases taken
      exact counted
    | cons url rest =>
      simp only [proceed] at taken
      split at taken <;> cases taken <;> exact counted
  | reloading url rest drain =>
    cases taken
    cases ok with
    | true => cases drain <;> exact counted
    | false => exact counted_of_stopped rfl
  | waiting url rest =>
    cases taken
    cases ok with
    | true => exact counted
    | false => exact counted_of_stopped rfl
  | recreating url rest =>
    cases taken
    cases ok with
    | true =>
      intro ahead same
      cases same
      have before := counted (url :: rest) rfl
      rw [if_pos rfl, List.append_assoc]
      exact before
    | false => exact counted_of_stopped rfl
  | starting url rest =>
    cases taken
    cases ok with
    | true => exact counted
    | false => exact counted_of_stopped rfl

theorem step_counted {action : Action} {next : Script} (found : collectBackendUrls targets s.file = some urls)
    (taken : step targets action s = some next) (counted : Counted urls s) : Counted urls next := by
  cases action with
  | proceed ok => exact proceed_counted taken counted
  | start doBuild =>
    rw [step] at taken
    split at taken
    next =>
      rw [found] at taken
      cases urls with
      | nil =>
        cases taken
        exact counted_of_stopped rfl
      | cons url rest =>
        cases taken
        have all : (buildRestartOrder s.file (url :: rest)).Perm (url :: rest) := List.filter_append_perm ..
        intro ahead same
        cases doBuild <;> cases same <;> exact all
    next => cases taken
  | kill =>
    rw [step] at taken
    split at taken
    next => cases taken
    next =>
      cases taken
      exact counted_of_stopped rfl

theorem Refines.collect {t : Rolling.State Str} (refines : Refines targets first s t) :
    collectBackendUrls targets s.file = collectBackendUrls targets first := by
  rw [refines.file, collect_mark]

theorem counted_of_reachable (found : collectBackendUrls targets first = some urls)
    (reached : Reachable (step targets) (.fresh first) s) : Counted urls s := by
  have keep : ∀ action before after, ((∃ t, Refines targets first before t) ∧ Counted urls before) →
      step targets action before = some after → (∃ t, Refines targets first after t) ∧ Counted urls after := by
    rintro action before after ⟨⟨t, refines⟩, counted⟩ taken
    obtain ⟨t', -, later⟩ := step_refines refines taken
    exact ⟨⟨t', later⟩, step_counted (refines.collect.trans found) taken counted⟩
  have initial : (∃ t, Refines targets first (.fresh first) t) ∧ Counted urls (.fresh first) :=
    ⟨⟨_, refines_fresh targets first⟩, counted_of_stopped rfl⟩
  exact (reached.invariant keep initial).2

def Succeeds (targets : List Str) (n : Nat) (s t : Script) : Prop :=
  run (step targets) (List.replicate n (.proceed true)) s = some t

theorem Succeeds.cons {n : Nat} {mid : Script} (first : proceed true s = some mid)
    (later : Succeeds targets n mid t) : Succeeds targets (n + 1) s t :=
  run_cons_some.mpr ⟨mid, first, later⟩

theorem loop_completes (rest : List Str) (s : Script) (here : s.phase = .looping rest) :
    ∃ n t, n ≤ 6 * rest.length + 1 ∧ Succeeds targets n s t ∧ t.phase = .stopped .complete := by
  induction rest generalizing s with
  | nil =>
    obtain ⟨file, phase, recreated⟩ := s
    cases here
    exact ⟨1, _, Nat.le_refl _, rfl, rfl⟩
  | cons url rest ih =>
    obtain ⟨file, phase, recreated⟩ := s
    cases here
    -- from the recreation of the container on
    have swap : ∀ file, ∃ n t, n ≤ 6 * rest.length + 4 ∧
        Succeeds targets n ⟨file, .recreating url rest, recreated⟩ t ∧ t.phase = .stopped .complete := by
      intro file
      obtain ⟨n, t, few, later, complete⟩ :=
        ih ⟨setDrainEverywhere url false file, .looping rest, recreated ++ [url]⟩ rfl
      exact ⟨n + 3, t, by omega, .cons rfl (.cons rfl (.cons rfl later)), complete⟩
    cases drained : isDrained file url with
    | true =>
      obtain ⟨n, t, few, later, complete⟩ := swap file
      refine ⟨n + 1, t, ?_, .cons (by simp only [proceed, drained, if_true]) later, complete⟩
      rw [List.length_cons]
      omega
    | false =>
      let written := setDrainEverywhere url true file
      obtain ⟨n, t, few, later, complete⟩ := swap written
      have drain : proceed true ⟨file, .looping (url :: rest), recreated⟩ =
          some ⟨written, .reloading url rest true, recreated⟩ := by
        simp only [proceed, drained, Bool.false_eq_true, if_false, written]
      refine ⟨n + 3, t, ?_, .cons drain (.cons rfl (.cons rfl later)), complete⟩
      rw [List.length_cons]
      omega

theorem start_completes (found : collectBackendUrls targets s.file = some urls) (some_ : urls ≠ [])
    {outcome : Outcome} (idle : s.phase = .stopped outcome) (doBuild : Bool) :
    ∃ n t, n ≤ 6 * urls.length + 2 ∧
      run (step targets) (.start doBuild :: List.replicate n (.proceed true)) s = some t ∧
      t.phase = .stopped .complete := by
  let order := buildRestartOrder s.file urls
  have size : order.length = urls.length := (List.filter_append_perm ..).length_eq
  obtain ⟨n, t, few, later, complete⟩ := @loop_completes targets order ⟨s.file, .looping order, []⟩ rfl
  have started : step targets (.start doBuild) s =
      some ⟨s.file, if doBuild then .building order else .looping order, []⟩ := by
    cases urls with
    | nil => exact absurd rfl some_
    | cons url rest => simp only [step, idle, found, order]
  cases doBuild with
  | true =>
    refine ⟨n + 1, t, by omega, run_cons_some.mpr ⟨_, started, ?_⟩, complete⟩
    exact Succeeds.cons rfl later
  | false => exact ⟨n, t, by omega, run_cons_some.mpr ⟨_, started, later⟩, complete⟩

/-- Only the hosts decide whether a configuration is accepted. -/
theorem validate_congr {routes other : List RouteConfig} (same : routes.map (·.host) = other.map (·.host)) :
    validate routes = validate other := by
  induction routes generalizing other with
  | nil =>
    rw [List.map_eq_nil_iff.mp same.symm]
  | cons route rest ih =>
    obtain ⟨route', rest', rfl, head, tail⟩ := List.map_eq_cons_iff.mp same.symm
    have head : route'.host = route.host := head
    rw [validate, validate, head, ih tail.symm]

theorem hosts_mark (written : Str → Option Bool) (routes : List RouteConfig) :
    (mark written routes).map (·.host) = routes.map (·.host) := by
  rw [mark, List.map_map]
  rfl

/-- In any series of runs the proxy accepts each file as it accepts the first one. A run that
completes has put every target back, left the rest as it was, and recreated each target once; and
wherever earlier runs stopped, one whose commands succeed completes. -/
theorem update_completes (found : collectBackendUrls targets first = some urls)
    (reached : Reachable (step targets) (.fresh first) s) :
    (∀ now, (∃ reg, BackendRegistry.new now s.file = .ok reg) ↔ ∃ reg, BackendRegistry.new now first = .ok reg) ∧
    (s.phase = .stopped .complete →
      s.file = mark (fun url => if url ∈ urls then some false else none) first ∧ s.recreated.Perm urls) ∧
    (urls ≠ [] → ∀ outcome doBuild, s.phase = .stopped outcome →
      ∃ n t, n ≤ 6 * urls.length + 2 ∧
        run (step targets) (.start doBuild :: List.replicate n (.proceed true)) s = some t ∧
        t.phase = .stopped .complete) := by
  obtain ⟨t, refines⟩ := refines_of_reachable reached
  refine ⟨fun now => ?_, fun complete => ⟨?_, ?_⟩, fun nonempty outcome doBuild idle => ?_⟩
  · rw [Reload.new_ok_iff, Reload.new_ok_iff, refines.file, validate_congr (hosts_mark ..)]
  · have members : (fleet targets first).members = urls := by
      show (collectBackendUrls targets first).getD [] = urls
      rw [found]
      rfl
    have settled : t.written = fun url => if url ∈ urls then some false else none := by
      funext url
      by_cases member : url ∈ urls
      · rw [if_pos member]
        exact refines.complete complete url (members ▸ member)
      · rw [if_neg member]
        cases wrote : t.written url with
        | none => rfl
        | some flag => exact absurd (members ▸ refines.orderly.known url flag wrote) member
    rw [refines.file, settled]
  · have counted := counted_of_reachable found reached [] (by rw [complete]; rfl)
    rw [List.append_nil] at counted
    exact counted
  · exact start_completes (refines.collect.trans found) nonempty idle doBuild

/-- A container does not become healthy; its backend stays drained until the next run. -/
theorem update_completes_rerun : ∃ (first : List RouteConfig) (s : Script),
    Reachable (step ["a".toList, "b".toList]) (.fresh first) s ∧ s.phase = .stopped .aborted ∧
    isDrained s.file "http://a:1".toList = true ∧
    ∃ n t, n ≤ 14 ∧
      run (step ["a".toList, "b".toList]) (.start false :: List.replicate n (.proceed true)) s = some t ∧
      t.phase = .stopped .complete := by
  let a : BackendConfig := ⟨"http://a:1".toList, 5, false⟩
  let b : BackendConfig := ⟨"http://b:1".toList, 5, false⟩
  let s : Script := ⟨[⟨"h".toList, [{ a with drain := true }, b]⟩], .stopped .aborted, [a.url]⟩
  let actions : List Action :=
    [.start false, .proceed true, .proceed true, .proceed true, .proceed true, .proceed false]
  have done : run (step ["a".toList, "b".toList]) actions (.fresh [⟨"h".toList, [a, b]⟩]) = some s := by
    decide
  have reached : Reachable (step ["a".toList, "b".toList]) (.fresh [⟨"h".toList, [a, b]⟩]) s :=
    ⟨actions, done⟩
  refine ⟨_, s, reached, rfl, by decide, ?_⟩
  exact (@update_completes _ [a.url, b.url] _ _ rfl reached).2.2 (by decide) .aborted false rfl

end Completion

end TinyLb.UpdateRuns
