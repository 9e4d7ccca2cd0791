import TinyLb.RestartScripts
import TinyLb.UpdateRuns

/-! Restart scripts for several hosts next to each other, and the proxy that serves what they write:
while no two are between a read and a write, each maintains its own route one backend at a time. -/

namespace TinyLb.RestartRuns
open Machine Config Backends RestartScripts
open RollingUpdate (entries)

def ahead : Rolling.Phase Nat → List Nat
  | .stopped => []
  | .choosing rest | .away _ rest => rest

def taking : RestartScripts.Phase → Option Nat
  | .writing idx _ true _ => some idx
  | _ => none

def giving : RestartScripts.Phase → Option Nat
  | .writing idx _ false _ => some idx
  | _ => none

inductive Move (host : Str) (file : List RouteConfig) (script : Script) (file' : List RouteConfig)
    (next : Script) : Prop
  | stay (same : file' = file) (phase : RestartScripts.Phase) (down : List Nat)
      (entered : next = { script with phase := phase, down := down })
      (outline : phase.outline = script.phase.outline) (running : phase.outline ≠ .stopped)
      (snapshot : ∀ config, phase.snapshot = some config → config = file)
      (serving : ∀ idx, taking phase = some idx → flagAt script.backends idx = false)
      (stopped : ∀ i ∈ down, i ∈ script.down ∨ ∃ rest, phase.outline = .away i rest)
      (healed : ∀ idx, giving phase = some idx → idx ∉ down)
  | abort (same : file' = file) (entered : next = script.abort)
  | finish (same : file' = file) (done : script.phase = .looping [])
      (entered : next = script.enter (.stopped .complete))
  | start (k : Nat) (backends : List BackendConfig) (found : getBackends file host = some (k, backends))
      (same : file' = file) (idle : script.phase.outline = .stopped)
      (begun : next = ⟨k, backends, .looping (buildRestartOrder backends), script.down⟩)
  | resume (idx : Nat) (rest : List Nat) (here : script.phase = .looping (idx :: rest))
      (drained : flagAt script.backends idx = true) (same : file' = file)
      (entered : next = script.restart idx rest)
  | wrote (idx : Nat) (rest : List Nat) (drain : Bool) (config : List RouteConfig)
      (here : script.phase = .writing idx rest drain config)
      (written : setDrain config script.routeIdx idx drain = some file')
      (entered : next = script.enter (.reloading idx rest drain))

section Moves
variable {digit : Char → Bool} {host : Str} {file file' : List RouteConfig} {script next : Script}

theorem Move.onward (phase : RestartScripts.Phase) (outline : phase.outline = script.phase.outline)
    (running : phase.outline ≠ .stopped) (unread : phase.snapshot = none) {down : List Nat}
    (stopped : ∀ i ∈ down, i ∈ script.down ∨ ∃ rest, phase.outline = .away i rest) :
    Move host file script file { script with phase := phase, down := down } := by
  refine .stay rfl phase down rfl outline running (fun config read => ?_) (fun idx takes => ?_) stopped
    (fun idx gives => ?_)
  · rw [unread] at read
    cases read
  · cases phase with
    | writing => cases unread
    | _ => cases takes
  · cases phase with
    | writing => cases unread
    | _ => cases gives

theorem move_of_proceed {ok : Bool} (taken : proceed digit ok file script = some (file', next)) :
    Move host file script file' next := by
  obtain ⟨routeIdx, backends, phase, down⟩ := script
  have same : ∀ {outline : Rolling.Phase Nat}, ∀ i ∈ down, i ∈ down ∨ ∃ rest, outline = .away i rest :=
    fun _ member => Or.inl member
  cases phase with
  | stopped outcome => cases taken
  | looping rest =>
    cases rest with
    | nil =>
      cases taken
      exact .finish rfl rfl rfl
    | cons idx rest =>
      simp only [proceed] at taken
      split at taken
      next => cases taken; exact .abort rfl rfl
      next backend here =>
        split at taken
        next => cases taken; exact .abort rfl rfl
        next =>
          have flag : flagAt backends idx = backend.drain := by
            rw [flagAt, here]
          cases taken
          cases drained : backend.drain with
          | true => exact .resume idx rest rfl (flag.trans drained) rfl rfl
          | false =>
            refine .stay rfl (.writing idx rest true file) down rfl rfl (by simp [RestartScripts.Phase.outline])
              ?_ ?_ same ?_
            · intro config read
              exact (Option.some.inj read).symm
            · intro i takes
              cases takes
              exact flag.trans drained
            · rintro _ ⟨⟩
  | writing idx rest drain config =>
    simp only [proceed] at taken
    split at taken
    next => cases taken; exact .abort rfl rfl
    next written done =>
      cases taken
      exact .wrote idx rest drain config rfl done rfl
  | reloading idx rest drain =>
    cases taken
    cases ok with
    | false => exact .abort rfl rfl
    | true =>
      cases drain with
      | true => exact .onward (.sleeping idx rest) rfl (by rintro ⟨⟩) rfl same
      | false => exact .onward (.settling rest) rfl (by rintro ⟨⟩) rfl same
  | sleeping idx rest =>
    cases taken
    refine .onward (.restarting idx rest) rfl (by rintro ⟨⟩) rfl fun i member => ?_
    rcases List.mem_cons.mp member with rfl | before
    · exact Or.inr ⟨rest, rfl⟩
    · exact Or.inl before
  | restarting idx rest =>
    cases taken
    cases ok with
    | false => exact .abort rfl rfl
    | true => exact .onward (.starting idx rest) rfl (by rintro ⟨⟩) rfl same
  | starting idx rest =>
    cases taken
    cases ok with
    | false => exact .abort rfl rfl
    | true =>
      refine .stay rfl (.writing idx rest false file) _ rfl rfl (by simp [RestartScripts.Phase.outline])
        ?_ ?_ ?_ ?_
      · intro config read
        exact (Option.some.inj read).symm
      · rintro _ ⟨⟩
      · exact fun i member => Or.inl (List.mem_filter.mp member).1
      · intro i gives
        cases gives
        simp
  | settling rest =>
    cases taken
    exact .onward (.looping rest) rfl (by rintro ⟨⟩) rfl same

theorem move_of_start (taken : start host file script = some next) : Move host file script file next := by
  unfold start at taken
  split at taken
  next outcome idle =>
    split at taken
    next => cases taken; exact .abort rfl rfl
    next => cases taken; exact .abort rfl rfl
    next k backends _ found =>
      cases taken
      exact .start k backends found rfl (by rw [idle]; rfl) rfl
  next => cases taken

theorem step_move {action : RestartScripts.Action} {s t : RestartScripts.State} (taken : step digit action s = some t) :
    ∃ host, Move host s.file (s.scripts host) t.file (t.scripts host) ∧
      ∀ other, other ≠ host → t.scripts other = s.scripts other := by
  cases action with
  | start host =>
    obtain ⟨script, begun, rfl⟩ := Option.map_eq_some_iff.mp taken
    refine ⟨host, ?_, fun other apart => Function.update_of_ne apart ..⟩
    simp only [Function.update_self]
    exact move_of_start begun
  | proceed host ok =>
    obtain ⟨⟨file, script⟩, moved, rfl⟩ := Option.map_eq_some_iff.mp taken
    refine ⟨host, ?_, fun other apart => Function.update_of_ne apart ..⟩
    simp only [Function.update_self]
    exact move_of_proceed moved
  | kill host =>
    rw [step] at taken
    split at taken
    next => cases taken
    next =>
      cases taken
      refine ⟨host, .abort rfl ?_, fun other apart => Function.update_of_ne apart ..⟩
      simp only [Function.update_self]

end Moves

/-- The maintenance of a route and the script of its host. The flags that the script has read at its
start are those of the file, for the backends that it has not come to; and those whose containers may be
stopped are drained in the file. -/
structure Agrees (first file : List RouteConfig) (script : Script) (k : Nat) (t : Rolling.State Nat) :
    Prop where
  outline : script.phase.outline = t.phase
  route : script.phase.outline ≠ .stopped ∨ script.down ≠ [] →
    script.routeIdx = k ∧ script.backends.map (·.url) = (backendsAt first k).map (·.url)
  flags : ∀ i ∈ ahead t.phase, flagAt script.backends i = Rolling.isDrained (fleet first k) t.written i
  snapshot : ∀ config, script.phase.snapshot = some config → config = file
  serving : ∀ idx, taking script.phase = some idx → flagAt script.backends idx = false
  complete : script.phase = .stopped .complete → ∀ m ∈ (fleet first k).members, t.written m = some false
  down : ∀ i ∈ script.down, i ∈ (fleet first k).members ∧ Rolling.isDrained (fleet first k) t.written i = true
  healed : ∀ idx, giving script.phase = some idx → idx ∉ script.down

section Scripts
variable {first file file' : List RouteConfig} {host : Str} {script next : Script} {k : Nat}
  {written : Nat → Nat → Option Bool} {t : Rolling.State Nat}

theorem Agrees.elsewhere (agrees : Agrees first file script k t)
    (apart : file' = file ∨ script.phase.snapshot = none) : Agrees first file' script k t := by
  refine { agrees with snapshot := fun config read => ?_ }
  rcases apart with same | none
  · rw [same]
    exact agrees.snapshot config read
  · rw [none] at read
    cases read

theorem agrees_fresh : Agrees first first .fresh k .fresh :=
  ⟨rfl, fun live => (by simp [Script.fresh, RestartScripts.Phase.outline] at live), nofun, nofun, nofun, nofun, nofun,
    nofun⟩

theorem Agrees.stop (agrees : Agrees first file script k t) {outcome : RollingUpdate.Outcome}
    (complete : outcome = .complete → ∀ m ∈ (fleet first k).members, t.written m = some false) :
    Agrees first file (script.enter (.stopped outcome)) k ⟨t.written, .stopped⟩ := by
  refine ⟨rfl, fun live => ?_, nofun, nofun, nofun, fun ended => ?_, agrees.down, nofun⟩
  · rcases live with running | down
    · exact absurd rfl running
    · exact agrees.route (Or.inr down)
  · cases ended
    exact complete rfl

theorem move_agrees {backends : List BackendConfig} (owner : getBackends first host = some (k, backends))
    (marked : file = mark written first) (here : written k = t.written)
    (orderly : Rolling.Orderly (fleet first k) t) (agrees : Agrees first file script k t)
    (move : Move host file script file' next) :
    ∃ t', Reachable (Rolling.step (fleet first k)) t t' ∧
      file' = mark (Function.update written k t'.written) first ∧ Agrees first file' next k t' := by
  obtain ⟨flags, phase⟩ := t
  have outline : script.phase.outline = phase := agrees.outline
  have here : written k = flags := here
  have unwritten : mark (Function.update written k flags) first = file := by
    rw [← here, Function.update_eq_self, marked]
  cases move with
  | stay same phase' down entered kept running snapshot serving stopped healed =>
    subst same entered
    have before : script.phase.outline ≠ .stopped := fun still => running (kept.trans still)
    refine ⟨_, .refl _, unwritten.symm, kept.trans outline, fun _ => agrees.route (Or.inl before), agrees.flags,
      snapshot, serving, ?_, ?_, healed⟩
    · intro (ended : phase' = _)
      rw [ended] at running
      exact absurd rfl running
    · intro i member
      rcases stopped i member with already | ⟨rest, away⟩
      · exact agrees.down i already
      · have ok := orderly.phase
        rw [← outline, ← kept, away] at ok
        exact ⟨ok.1.members i (List.mem_cons_self ..), ok.2⟩
  | abort same entered =>
    subst same entered
    exact ⟨⟨flags, .stopped⟩, .single (a := .stop) rfl, unwritten.symm, agrees.stop nofun⟩
  | finish same done entered =>
    subst same entered
    refine ⟨⟨flags, .stopped⟩, .single (a := .stop) rfl, unwritten.symm, agrees.stop fun _ m member => ?_⟩
    rw [done] at outline
    subst outline
    rcases orderly.phase.covered m member with none | back
    · cases none
    · exact back
  | start j backends found same idle begun =>
    subst same begun
    rw [idle] at outline
    subst outline
    rw [marked, getBackends_mark, owner] at found
    cases found
    have order : buildRestartOrder (backendsAt (mark written first) k) = Rolling.order (fleet first k) flags := by
      rw [buildRestartOrder_mark, here]
    refine ⟨⟨flags, .choosing (Rolling.order (fleet first k) flags)⟩, .single (a := .start) rfl, unwritten.symm,
      ?_, ?_, ?_, nofun, nofun, nofun, agrees.down, nofun⟩
    · exact congrArg Rolling.Phase.choosing order
    · intro _
      refine ⟨rfl, ?_⟩
      show (backendsAt (mark written first) k).map (·.url) = _
      rw [backendsAt_mark, urls_mapIdx]
    · intro i member
      have known : i ∈ (fleet first k).members := Rolling.mem_order.mp member
      show flagAt (backendsAt (mark written first) k) i = _
      rw [flagAt_mark known, here]
  | resume idx rest position drained same entered =>
    subst same entered
    have running := agrees.route
    rw [position] at outline running
    subst outline
    have queue : Rolling.Queue (fleet first k) flags (idx :: rest) := orderly.phase
    have out : Rolling.isDrained (fleet first k) flags idx = true := by
      rw [← agrees.flags idx (List.mem_cons_self ..)]
      exact drained
    have kept : Rolling.takeOut (fleet first k) flags idx = flags := if_pos out
    have moved : Rolling.step (fleet first k) .takeOut ⟨flags, .choosing (idx :: rest)⟩ =
        some ⟨flags, .away idx rest⟩ := by
      rw [Rolling.step, kept]
    refine ⟨⟨flags, .away idx rest⟩, .single moved, unwritten.symm, rfl, fun _ => running (Or.inl nofun), ?_,
      nofun, nofun, nofun, ?_, nofun⟩
    · intro i member
      exact agrees.flags i (List.mem_cons_of_mem idx member)
    · intro i member
      rcases List.mem_cons.mp member with rfl | already
      · exact ⟨queue.members i (List.mem_cons_self ..), out⟩
      · exact agrees.down i already
  | wrote idx rest drain config position wrote entered =>
    subst entered
    have running := agrees.route
    have healed := agrees.healed
    have current : config = file := agrees.snapshot config (by rw [position]; rfl)
    rw [position] at outline running healed
    have live : (RestartScripts.Phase.writing idx rest drain config).outline ≠ .stopped := by
      cases drain <;> nofun
    obtain ⟨route, urls⟩ := running (Or.inl live)
    rw [current, marked, route] at wrote
    -- the machine of the route writes the same flag
    have wrote_flag : idx ∈ (fleet first k).members → file' =
        mark (Function.update written k (Function.update flags idx (some drain))) first := by
      intro member
      rw [setDrain_mark (List.mem_range.mp member), here] at wrote
      exact (Option.some.inj wrote).symm
    have behind : idx ∉ rest → ∀ i ∈ rest,
        Rolling.isDrained (fleet first k) (Function.update flags idx (some drain)) i =
          Rolling.isDrained (fleet first k) flags i := by
      intro fresh i member
      exact Rolling.isDrained_update_of_ne (ne_of_mem_of_not_mem member fresh) drain
    have down : ∀ i ∈ script.down, i ∈ (fleet first k).members ∧
        Rolling.isDrained (fleet first k) (Function.update flags idx (some drain)) i = true := by
      intro i member
      refine ⟨(agrees.down i member).1, ?_⟩
      by_cases same : i = idx
      · subst same
        cases drain with
        | true => exact Rolling.isDrained_of_written (Function.update_self ..)
        | false => exact absurd member (healed i rfl)
      · rw [Rolling.isDrained_update_of_ne same drain]
        exact (agrees.down i member).2
    cases drain with
    | true =>
      subst outline
      have queue : Rolling.Queue (fleet first k) flags (idx :: rest) := orderly.phase
      have serving : Rolling.isDrained (fleet first k) flags idx = false := by
        rw [← agrees.flags idx (List.mem_cons_self ..)]
        exact agrees.serving idx (by rw [position]; rfl)
      have taken : Rolling.takeOut (fleet first k) flags idx = Function.update flags idx (some true) :=
        if_neg (Bool.eq_false_iff.mp serving)
      refine ⟨⟨Function.update flags idx (some true), .away idx rest⟩, .single (a := .takeOut) ?_,
        wrote_flag (queue.members idx (List.mem_cons_self ..)), rfl, fun _ => ⟨route, urls⟩, ?_, nofun, nofun, nofun,
        down, nofun⟩
      · rw [← taken]
        rfl
      · intro i member
        rw [behind (List.nodup_cons.mp queue.distinct).1 i member]
        exact agrees.flags i (List.mem_cons_of_mem idx member)
    | false =>
      subst outline
      have queue : Rolling.Queue (fleet first k) flags (idx :: rest) := orderly.phase.1
      refine ⟨⟨Function.update flags idx (some false), .choosing rest⟩, .single (a := .putBack) rfl,
        wrote_flag (queue.members idx (List.mem_cons_self ..)), rfl, fun _ => ⟨route, urls⟩, ?_, nofun, nofun, nofun,
        down, nofun⟩
      intro i member
      rw [behind (List.nodup_cons.mp queue.distinct).1 i member]
      exact agrees.flags i member

theorem Move.unwritten (move : Move host file script file' next) :
    file' = file ∨ script.phase.snapshot.isSome := by
  cases move with
  | wrote idx rest drain config position wrote entered =>
    rw [position]
    exact Or.inr rfl
  | stay same | abort same | finish same | start _ _ _ same | resume _ _ _ _ same => exact Or.inl same

theorem Move.idle (move : Move host file script file' next) (none : getBackends file host = none)
    (idle : script.phase.outline = .stopped) :
    file' = file ∧ next.phase.outline = .stopped ∧ next.down = script.down := by
  cases move with
  | stay same phase down entered outline running => exact absurd (outline.trans idle) running
  | abort same entered =>
    rw [entered]
    exact ⟨same, rfl, rfl⟩
  | finish same done entered =>
    rw [entered]
    exact ⟨same, rfl, rfl⟩
  | start k backends found =>
    rw [none] at found
    cases found
  | resume idx rest position =>
    rw [position] at idle
    cases idle
  | wrote idx rest drain config position =>
    rw [position] at idle
    cases drain <;> cases idle

theorem owner_injective {host' : Str} {backends backends' : List BackendConfig}
    (owner : getBackends first host = some (k, backends)) (owner' : getBackends first host' = some (k, backends')) :
    host = host' := by
  obtain ⟨⟨route, here, named⟩, -⟩ := getBackends_some owner
  obtain ⟨⟨route', there, named'⟩, -⟩ := getBackends_some owner'
  rw [here] at there
  cases there
  exact named.symm.trans named'

end Scripts

/-- The file is the first one with what the maintenance of each route has written over it. -/
structure Refines (first : List RouteConfig) (s : RestartScripts.State) (t : Nat → Rolling.State Nat) : Prop where
  file : s.file = mark (fun k => (t k).written) first
  reached : ∀ k, Reachable (Rolling.step (fleet first k)) .fresh (t k)
  agrees : ∀ host k backends, getBackends first host = some (k, backends) →
    Agrees first s.file (s.scripts host) k (t k)
  absent : ∀ host, getBackends first host = none →
    (s.scripts host).phase.outline = .stopped ∧ (s.scripts host).down = []
  unowned : ∀ k, (∀ host backends, getBackends first host ≠ some (k, backends)) → (t k).written = fun _ => none

section Steps
variable {digit : Char → Bool} {first : List RouteConfig} {s next : RestartScripts.State} {t : Nat → Rolling.State Nat}

theorem refines_fresh (first : List RouteConfig) : Refines first (.fresh first) fun _ => .fresh where
  file := (mark_none first).symm
  reached _ := .refl _
  agrees _ _ _ _ := agrees_fresh
  absent _ _ := ⟨rfl, rfl⟩
  unowned _ _ := rfl

theorem Refines.orderly (refines : Refines first s t) (k : Nat) : Rolling.Orderly (fleet first k) (t k) :=
  Rolling.orderly_of_reachable (refines.reached k)

theorem step_refines {action : RestartScripts.Action} (refines : Refines first s t) (exclusive : Exclusive s)
    (taken : step digit action s = some next) : ∃ t', Refines first next t' := by
  obtain ⟨host, move, others⟩ := step_move taken
  have apart : ∀ host', host' ≠ host → next.file = s.file ∨ (next.scripts host').phase.snapshot = none := by
    intro host' other
    rw [others host' other]
    rcases move.unwritten with same | holds
    · exact Or.inl same
    · refine Or.inr (Option.eq_none_iff_forall_ne_some.mpr fun config read => ?_)
      exact other (exclusive host' host (by rw [read]; rfl) holds)
  cases owner : getBackends first host with
  | none =>
    have unknown : getBackends s.file host = none := by
      rw [refines.file, getBackends_mark, owner]
      rfl
    obtain ⟨stopped, none_down⟩ := refines.absent host owner
    obtain ⟨same, idle, kept⟩ := move.idle unknown stopped
    refine ⟨t, same.trans refines.file, refines.reached, fun host' k backends owner' => ?_,
      fun host' none => ?_, refines.unowned⟩
    · have other : host' ≠ host := by
        rintro rfl
        rw [owner] at owner'
        cases owner'
      have before := refines.agrees host' k backends owner'
      rw [← others host' other] at before
      exact before.elsewhere (apart host' other)
    · by_cases self : host' = host
      · rw [self]
        exact ⟨idle, kept.trans none_down⟩
      · rw [others host' self]
        exact refines.absent host' none
  | some found =>
    obtain ⟨k, backends⟩ := found
    obtain ⟨state, moved, file, agrees⟩ :=
      move_agrees owner refines.file rfl (refines.orderly k) (refines.agrees host k backends owner) move
    refine ⟨Function.update t k state, ?_, fun j => ?_, fun host' j backends' owner' => ?_,
      fun host' none => ?_, fun j free => ?_⟩
    · rw [file]
      congr 1
      funext j
      by_cases same : j = k
      · rw [same, Function.update_self, Function.update_self]
      · rw [Function.update_of_ne same, Function.update_of_ne same]
    · by_cases same : j = k
      · subst same
        rw [Function.update_self]
        exact (refines.reached j).trans moved
      · rw [Function.update_of_ne same]
        exact refines.reached j
    · by_cases self : host' = host
      · subst self
        rw [owner] at owner'
        cases owner'
        rw [Function.update_self]
        exact agrees
      · have separate : j ≠ k := by
          rintro rfl
          exact self (owner_injective owner' owner)
        have before := refines.agrees host' j backends' owner'
        rw [← others host' self] at before
        rw [Function.update_of_ne separate]
        exact before.elsewhere (apart host' self)
    · have other : host' ≠ host := by
        rintro rfl
        rw [owner] at none
        cases none
      rw [others host' other]
      exact refines.absent host' none
    · have other : j ≠ k := by
        rintro rfl
        exact free host backends owner
      rw [Function.update_of_ne other]
      exact refines.unowned j free

theorem refines_of_along (along : Along (step digit) Exclusive (.fresh first) s) : ∃ t, Refines first s t := by
  have keep : ∀ action before after, (∃ t, Refines first before t) → Exclusive before →
      step digit action before = some after → ∃ t, Refines first after t := by
    rintro action before after ⟨t, refines⟩ exclusive taken
    exact step_refines refines exclusive taken
  exact along.invariant keep ⟨_, refines_fresh first⟩

theorem outline_of_away {phase : RestartScripts.Phase} {idx : Nat} (away : phase.away = some idx) :
    ∃ rest, phase.outline = .away idx rest := by
  cases phase with
  | writing i rest drain config => cases drain <;> cases away; exact ⟨rest, rfl⟩
  | reloading i rest drain => cases drain <;> cases away; exact ⟨rest, rfl⟩
  | sleeping i rest | restarting i rest | starting i rest => cases away; exact ⟨rest, rfl⟩
  | _ => cases away

/-- A backend whose container may be stopped is drained in the file. -/
theorem Refines.away_drained (refines : Refines first s t) {host url : Str}
    (away : url ∈ (s.scripts host).away) : ∃ c ∈ entries s.file, c.url = url ∧ c.drain = true := by
  obtain ⟨idx, listed, named⟩ := List.mem_filterMap.mp away
  have out : (∃ rest, (s.scripts host).phase.outline = .away idx rest) ∨ idx ∈ (s.scripts host).down := by
    rcases List.mem_append.mp listed with now | before
    · exact Or.inl (outline_of_away (Option.mem_toList.mp now))
    · exact Or.inr before
  have live : (s.scripts host).phase.outline ≠ .stopped ∨ (s.scripts host).down ≠ [] := by
    rcases out with ⟨rest, outline⟩ | before
    · exact Or.inl (by rw [outline]; nofun)
    · exact Or.inr (List.ne_nil_of_mem before)
  cases owner : getBackends first host with
  | none =>
    obtain ⟨stopped, up⟩ := refines.absent host owner
    rcases live with running | down
    · exact absurd stopped running
    · exact absurd up down
  | some found =>
    obtain ⟨k, backends⟩ := found
    have agrees := refines.agrees host k backends owner
    obtain ⟨-, urls⟩ := agrees.route live
    have off : idx ∈ (fleet first k).members ∧ Rolling.isDrained (fleet first k) (t k).written idx = true := by
      rcases out with ⟨rest, outline⟩ | before
      · have phase := (refines.orderly k).phase
        rw [← agrees.outline, outline] at phase
        exact ⟨phase.1.members idx (List.mem_cons_self ..), phase.2⟩
      · exact agrees.down idx before
    have marked : backendsAt s.file k = backendsAt (mark (fun k => (t k).written) first) k := by
      rw [refines.file]
    have drained : flagAt (backendsAt s.file k) idx = true := by
      rw [marked, flagAt_mark off.1]
      exact off.2
    have same : (s.scripts host).backends.map (·.url) = (backendsAt s.file k).map (·.url) := by
      rw [urls, marked, backendsAt_mark, urls_mapIdx]
    have named : ((backendsAt s.file k).map (·.url))[idx]? = some url := by
      rw [← same, List.getElem?_map]
      exact named
    rw [List.getElem?_map] at named
    obtain ⟨c, here, url_eq⟩ := Option.map_eq_some_iff.mp named
    rw [flagAt, here] at drained
    refine ⟨c, ?_, url_eq, drained⟩
    unfold backendsAt at here
    cases route : s.file[k]? with
    | none =>
      rw [route] at here
      cases here
    | some r =>
      rw [route] at here
      exact List.mem_flatMap.mpr ⟨r, List.mem_of_getElem? route, List.mem_of_getElem? here⟩

theorem entry_unique {l : List BackendConfig} {url : Str} (once : (l.map (·.url)).count url = 1)
    {c c' : BackendConfig} (listed : c ∈ l) (listed' : c' ∈ l) (named : c.url = url) (named' : c'.url = url) :
    c = c' := by
  rw [List.count, List.countP_map, List.countP_eq_length_filter] at once
  obtain ⟨only, single⟩ := List.length_eq_one_iff.mp once
  have is_only : ∀ x ∈ l, x.url = url → x = only := by
    intro x member same
    apply List.mem_singleton.mp
    rw [← single]
    exact List.mem_filter.mpr ⟨member, beq_iff_eq.mpr same⟩
  rw [is_only c listed named, is_only c' listed' named']

end Steps

section Alone
variable {digit : Char → Bool} {s t : RestartScripts.State} {host : Str}

def Alone (host : Str) (s : RestartScripts.State) : Prop :=
  ∀ other, other ≠ host → (s.scripts other).phase.snapshot = none

theorem exclusive_of_alone (host : Str) (alone : Alone host s) : Exclusive s := by
  have only : ∀ other, (s.scripts other).phase.snapshot.isSome → other = host := by
    intro other holds
    by_contra apart
    rw [alone other apart] at holds
    cases holds
  intro a b holds holds'
  rw [only a holds, only b holds']

def Own (host : Str) (a : RestartScripts.Action) : Prop := a = .start host ∨ ∃ ok, a = .proceed host ok

theorem others_of_run {actions : List RestartScripts.Action} (own : ∀ a ∈ actions, Own host a)
    (done : run (step digit) actions s = some t) : ∀ other, other ≠ host → t.scripts other = s.scripts other := by
  let same (v : RestartScripts.State) : Prop := ∀ other, other ≠ host → v.scripts other = s.scripts other
  have keep : ∀ a before after, same before → Own host a → step digit a before = some after → same after := by
    intro a before after known own taken other apart
    rw [← known other apart]
    rcases own with rfl | ⟨ok, rfl⟩
    · obtain ⟨script, -, rfl⟩ := Option.map_eq_some_iff.mp taken
      exact Function.update_of_ne apart ..
    · obtain ⟨moved, -, rfl⟩ := Option.map_eq_some_iff.mp taken
      exact Function.update_of_ne apart ..
  exact run_invariant_of_forall keep (fun _ _ => rfl) own done

/-- What one script does while the others stay where they are. -/
theorem along_of_run {actions : List RestartScripts.Action} (alone : Alone host s)
    (own : ∀ a ∈ actions, Own host a) (done : run (step digit) actions s = some t) :
    Along (step digit) Exclusive s t := by
  refine ⟨actions, done, ?_⟩
  rintro v ⟨before, after, rfl, reached⟩
  have others := others_of_run (fun a member => own a (List.mem_append_left after member)) reached
  apply exclusive_of_alone host
  intro other apart
  rw [others other apart]
  exact alone other apart

def sampleRoutes : List RouteConfig :=
  [⟨"a".toList, [⟨"http://a:1".toList, 5, false⟩, ⟨"http://a:2".toList, 5, false⟩]⟩,
    ⟨"b".toList, [⟨"http://b:1".toList, 5, false⟩]⟩]

def sampleFailing : List RestartScripts.Action :=
  .start "a".toList :: (List.replicate 5 (.proceed "a".toList true) ++ [.proceed "a".toList false])

def sampleDraining : List RestartScripts.Action :=
  .start "b".toList :: List.replicate 3 (.proceed "b".toList true)

def sampleState : RestartScripts.State :=
  (run (step Char.isDigit) (sampleFailing ++ sampleDraining) (.fresh sampleRoutes)).get rfl

theorem sample_along :
    Along (step Char.isDigit) Exclusive (.fresh sampleRoutes) sampleState ∧ Alone "a".toList sampleState := by
  let mid := (run (step Char.isDigit) sampleFailing (.fresh sampleRoutes)).get rfl
  have failed : run (step Char.isDigit) sampleFailing (.fresh sampleRoutes) = some mid := rfl
  have drained : run (step Char.isDigit) sampleDraining mid = some sampleState := rfl
  have own_a : ∀ action ∈ sampleFailing, Own "a".toList action := by simp [sampleFailing, Own]
  have own_b : ∀ action ∈ sampleDraining, Own "b".toList action := by simp [sampleDraining, Own]
  have alone_b : Alone "b".toList mid := by
    intro other _
    by_cases same : other = "a".toList
    · rw [same]
      rfl
    · rw [others_of_run own_a failed other same]
      rfl
  have alone_a : Alone "a".toList sampleState := by
    intro other apart
    by_cases same : other = "b".toList
    · rw [same]
      rfl
    · rw [others_of_run own_b drained other same, others_of_run own_a failed other apart]
      rfl
  have along := along_of_run (fun _ _ => rfl) own_a failed
  exact ⟨along.trans (along_of_run alone_b own_b drained), alone_a⟩

end Alone

section Traffic
variable {digit : Char → Bool} {first : List RouteConfig} {s : RestartScripts.State} {reg : BackendRegistry}
  {g : GroupId} {k i j : Nat} {route : RouteConfig} {c c' : BackendConfig}

theorem backends_of_loaded (loaded : reg.config = s.file) (group : reg.groups[k]? = some g) :
    (reg.group g).backends.map (fun b => (reg.backend b).config) = backendsAt s.file k := by
  rw [← loaded, backendsAt, BackendRegistry.config, List.getElem?_map, group]
  rfl

theorem Refines.undrained {t : Nat → Rolling.State Nat} (refines : Refines first s t) (loaded : reg.config = s.file)
    (group : reg.groups[k]? = some g) (was : first[k]? = some route) (here : route.backends[i]? = some c)
    (there : route.backends[j]? = some c') (apart : i ≠ j) (serving : c.drain = false)
    (serving' : c'.drain = false) : ∃ b ∈ (reg.group g).backends, (reg.backend b).drain = false := by
  have whole : backendsAt first k = route.backends := by
    rw [backendsAt, was]
    rfl
  have kept : ∀ {m : Nat} {d : BackendConfig}, route.backends[m]? = some d → d.drain = false →
      (t k).written m ≠ some true → ∃ b ∈ (reg.group g).backends, (reg.backend b).drain = false := by
    intro m d position up never
    have marked : (backendsAt s.file k)[m]? = some { d with drain := ((t k).written m).getD d.drain } := by
      rw [refines.file, backendsAt_mark, List.getElem?_mapIdx, whole, position]
      rfl
    have off : ((t k).written m).getD d.drain = false := by
      cases wrote : (t k).written m with
      | none => exact up
      | some flag =>
        cases flag with
        | true => exact absurd wrote never
        | false => rfl
    rw [off, ← backends_of_loaded loaded group, List.getElem?_map] at marked
    obtain ⟨b, present, same⟩ := Option.map_eq_some_iff.mp marked
    exact ⟨b, List.mem_of_getElem? present, congrArg BackendConfig.drain same⟩
  have flag : ∀ {m : Nat} {d : BackendConfig}, route.backends[m]? = some d → d.drain = false →
      (fleet first k).drained m = false := by
    intro m d position up
    show flagAt (backendsAt first k) m = false
    rw [flagAt, whole, position]
    exact up
  rcases (refines.orderly k).serving_of_two (flag here serving) (flag there serving') apart with left | right
  · exact kept here serving left
  · exact kept there serving' right

/-- The proxy has loaded the file as it stands, its `k`-th group belongs to a route that had two backends in
service at first, and those of its backends that are not drained can be selected. -/
structure Serving (first : List RouteConfig) (s : RestartScripts.State) (reg : BackendRegistry) (k : Nat)
    (g : GroupId) : Prop where
  loaded : reg.config = s.file
  group : reg.groups[k]? = some g
  pair : ∃ (route : RouteConfig) (i j : Nat) (c c' : BackendConfig), first[k]? = some route ∧ i ≠ j ∧
    route.backends[i]? = some c ∧ route.backends[j]? = some c' ∧ c.drain = false ∧ c'.drain = false
  able : ∀ b ∈ (reg.group g).backends, (reg.backend b).drain = false → (reg.backend b).healthy = true ∧
    (reg.backend b).activeConnections < (reg.backend b).maxConnections

/-- While no two scripts are between a read and a write, a route that had two backends in service at first
selects one whose container no script may have stopped, as long as each such container is behind one entry.
Where two scripts are, such a route can select a backend whose container is being restarted. -/
theorem restarts_keep_serving :
    (∀ digit first s, Along (step digit) Exclusive (.fresh first) s → ∀ reg k g, Serving first s reg k g →
      ∃ b, reg.selectBackend g = some b ∧ ∀ host, ∀ url ∈ (s.scripts host).away,
        ((entries first).map (·.url)).count url = 1 → (reg.backend b).url ≠ url) ∧
    ∃ digit first s, Reachable (step digit) (.fresh first) s ∧ ∃ reg k g, Serving first s reg k g ∧
      ∃ b host rest, reg.selectBackend g = some b ∧ (s.scripts host).phase = .restarting 0 rest ∧
        (reg.backend b).url ∈ (s.scripts host).away ∧
        ((entries first).map (·.url)).count (reg.backend b).url = 1 := by
  constructor
  · intro digit first s along reg k g serving
    obtain ⟨loaded, group, ⟨route, i, j, c, c', was, apart, here, there, up, up'⟩, able⟩ := serving
    obtain ⟨t, refines⟩ := refines_of_along along
    have undrained := refines.undrained loaded group was here there apart up up'
    obtain ⟨b, chosen, entry, off⟩ := UpdateRuns.selects_undrained group undrained able
    refine ⟨b, chosen, ?_⟩
    rintro host url away once rfl
    obtain ⟨d, listed, named, on⟩ := refines.away_drained away
    rw [loaded] at entry
    have once' : ((entries s.file).map (·.url)).count (reg.backend b).url = 1 := by
      rw [refines.file, urls_mark]
      exact once
    have same : (reg.backend b).config = d := entry_unique once' entry listed rfl named
    rw [← same, show (reg.backend b).config.drain = (reg.backend b).drain from rfl, off] at on
    cases on
  · let first : List RouteConfig :=
      [⟨"a".toList, [⟨"http://a:1".toList, 5, false⟩, ⟨"http://a:2".toList, 5, false⟩]⟩,
        ⟨"b".toList, [⟨"http://b:1".toList, 5, false⟩, ⟨"http://b:2".toList, 5, false⟩]⟩]
    let actions : List RestartScripts.Action :=
      [.start "a".toList, .proceed "a".toList true, .start "b".toList, .proceed "b".toList true,
        .proceed "a".toList true, .proceed "b".toList true, .proceed "a".toList true, .proceed "a".toList true]
    let s := (run (step Char.isDigit) actions (.fresh first)).get rfl
    have done : run (step Char.isDigit) actions (.fresh first) = some s := rfl
    have built : BackendRegistry.new 0 s.file = .ok _ := rfl
    refine ⟨Char.isDigit, first, s, ⟨actions, done⟩, _, 0, 0, ⟨(Reload.new_spec built).2, rfl, ?_, ?_⟩, 0,
      "a".toList, [1], rfl, rfl, by decide, rfl⟩
    · exact ⟨_, 0, 1, _, _, rfl, by decide, rfl, rfl, rfl, rfl⟩
    · decide

/-- The script of one host has failed with its container down, and the other host is in the middle of a
restart. -/
theorem restarts_keep_serving_aborted : ∃ (s : RestartScripts.State) (reg : BackendRegistry),
    Along (step Char.isDigit) Exclusive (.fresh sampleRoutes) s ∧ (s.scripts "a".toList).phase = .stopped .aborted ∧
    (s.scripts "a".toList).away = ["http://a:1".toList] ∧ (s.scripts "b".toList).phase = .sleeping 0 [] ∧
    BackendRegistry.new 0 s.file = .ok reg ∧
    ∃ b, reg.selectBackend 0 = some b ∧ (reg.backend b).url ≠ "http://a:1".toList := by
  obtain ⟨along, -⟩ := sample_along
  have built : BackendRegistry.new 0 sampleState.file = .ok _ := rfl
  have serving : Serving sampleRoutes sampleState _ 0 0 :=
    ⟨(Reload.new_spec built).2, rfl, ⟨_, 0, 1, _, _, rfl, by decide, rfl, rfl, rfl, rfl⟩, by decide⟩
  obtain ⟨b, chosen, up⟩ := restarts_keep_serving.1 _ _ _ along _ 0 0 serving
  exact ⟨sampleState, _, along, rfl, rfl, rfl, built, b, chosen, up "a".toList _ (List.mem_singleton.mpr rfl) rfl⟩

end Traffic

section Completion
variable {digit : Char → Bool} {first file file' : List RouteConfig} {s t : RestartScripts.State} {host : Str}
  {k n : Nat} {backends : List BackendConfig} {script script' : Script}

/-- `n` moves of a script in a row, whose commands succeed, while no other script moves. -/
def Works (digit : Char → Bool) (n : Nat) (file : List RouteConfig) (script : Script) (file' : List RouteConfig)
    (script' : Script) : Prop :=
  run (fun (_ : Unit) at_ => proceed digit true at_.1 at_.2) (List.replicate n ()) (file, script) =
    some (file', script')

theorem Works.cons {mid : List RouteConfig} {moved : Script} (first : proceed digit true file script = some (mid, moved))
    (later : Works digit n mid moved file' script') : Works digit (n + 1) file script file' script' :=
  run_cons_some.mpr ⟨(mid, moved), first, later⟩

theorem run_of_works (n : Nat) (s : RestartScripts.State) (works : Works digit n s.file (s.scripts host) file' script') :
    run (step digit) (List.replicate n (.proceed host true)) s =
      some ⟨file', Function.update s.scripts host script'⟩ := by
  induction n generalizing s with
  | zero =>
    cases works
    rw [Function.update_eq_self]
    rfl
  | succ n ih =>
    obtain ⟨⟨mid, moved⟩, taken, later⟩ := run_cons_some.mp works
    let next : RestartScripts.State := ⟨mid, Function.update s.scripts host moved⟩
    have stepped : step digit (.proceed host true) s = some next := by
      rw [step, taken]
      rfl
    have there : next.scripts host = moved := Function.update_self ..
    have rest := ih next (by rw [there]; exact later)
    rw [Function.update_idem] at rest
    exact run_cons_some.mpr ⟨next, stepped, rest⟩

theorem length_setDrain {config written : List RouteConfig} {idx : Nat} {drain : Bool}
    (wrote : setDrain config k idx drain = some written) (j : Nat) :
    (backendsAt written j).length = (backendsAt config j).length := by
  unfold setDrain at wrote
  split at wrote
  next =>
    cases wrote
    unfold backendsAt
    rw [List.getElem?_modify]
    cases config[j]? with
    | none => rfl
    | some route => by_cases same : k = j <;> simp [same]
  next => cases wrote

theorem setDrain_some {config : List RouteConfig} {idx : Nat} (inside : idx < (backendsAt config k).length)
    (drain : Bool) : ∃ written, setDrain config k idx drain = some written :=
  ⟨_, if_pos inside⟩

theorem restart_completes {idx : Nat} {rest down : List Nat} (inside : idx < (backendsAt file k).length) :
    ∃ written, (backendsAt written k).length = (backendsAt file k).length ∧
      ∀ n file' script', Works digit n written ⟨k, backends, .looping rest, down.filter (· != idx)⟩ file' script' →
        Works digit (n + 5) file ⟨k, backends, .restarting idx rest, down⟩ file' script' := by
  obtain ⟨written, wrote⟩ := setDrain_some inside false
  refine ⟨written, length_setDrain wrote k, fun n file' script' later => ?_⟩
  have written_back : proceed digit true file ⟨k, backends, .writing idx rest false file, down.filter (· != idx)⟩ =
      some (written, ⟨k, backends, .reloading idx rest false, down.filter (· != idx)⟩) := by
    simp only [proceed, wrote]
    rfl
  exact .cons rfl (.cons rfl (.cons written_back (.cons rfl (.cons rfl later))))

theorem loop_completes (rest down : List Nat) (file : List RouteConfig)
    (named : ∀ idx ∈ rest, ∃ backend, backends[idx]? = some backend ∧ (urlToService digit backend.url).isSome)
    (inside : ∀ idx ∈ rest, idx < (backendsAt file k).length) :
    ∃ n file' script', n ≤ 9 * rest.length + 1 ∧
      Works digit n file ⟨k, backends, .looping rest, down⟩ file' script' ∧ script'.phase = .stopped .complete := by
  induction rest generalizing file down with
  | nil => exact ⟨1, file, _, Nat.le_refl _, .cons rfl rfl, rfl⟩
  | cons idx rest ih =>
    obtain ⟨backend, listed, some_⟩ := named idx (List.mem_cons_self ..)
    obtain ⟨service, known⟩ := Option.isSome_iff_exists.mp some_
    have later : ∀ i ∈ rest, i ∈ idx :: rest := fun i member => List.mem_cons_of_mem idx member
    have restart : ∀ now, (backendsAt now k).length = (backendsAt file k).length →
        ∃ n file' script', n ≤ 9 * rest.length + 6 ∧
          Works digit n now ⟨k, backends, .restarting idx rest, idx :: down⟩ file' script' ∧
          script'.phase = .stopped .complete := by
      intro now same
      obtain ⟨written, size, onward⟩ := @restart_completes digit now k backends idx rest (idx :: down)
        (same ▸ inside idx (List.mem_cons_self ..))
      have behind : ∀ i ∈ rest, i < (backendsAt written k).length := by
        intro i member
        rw [size, same]
        exact inside i (later i member)
      obtain ⟨n, file', script', few, works, complete⟩ :=
        ih _ written (fun i member => named i (later i member)) behind
      exact ⟨n + 5, file', script', by omega, onward n file' script' works, complete⟩
    cases drained : backend.drain with
    | true =>
      obtain ⟨n, file', script', few, works, complete⟩ := restart file rfl
      refine ⟨n + 1, file', script', ?_, .cons ?_ works, complete⟩
      · rw [List.length_cons]
        omega
      · simp only [proceed, listed, known, drained]
        rfl
    | false =>
      obtain ⟨written, wrote⟩ := setDrain_some (inside idx (List.mem_cons_self ..)) true
      obtain ⟨n, file', script', few, works, complete⟩ := restart written (length_setDrain wrote k)
      have read : proceed digit true file ⟨k, backends, .looping (idx :: rest), down⟩ =
          some (file, ⟨k, backends, .writing idx rest true file, down⟩) := by
        simp only [proceed, listed, known, drained]
        rfl
      have out : proceed digit true file ⟨k, backends, .writing idx rest true file, down⟩ =
          some (written, ⟨k, backends, .reloading idx rest true, down⟩) := by
        simp only [proceed, wrote]
        rfl
      refine ⟨n + 4, file', script', ?_, .cons read (.cons out (.cons rfl (.cons rfl works))), complete⟩
      rw [List.length_cons]
      omega

theorem Refines.restored {maintenance : Nat → Rolling.State Nat} (refines : Refines first s maintenance)
    (owner : getBackends first host = some (k, backends)) (complete : (s.scripts host).phase = .stopped .complete) :
    backendsAt s.file k = backends.map fun c => { c with drain := false } := by
  obtain ⟨-, same⟩ := getBackends_some owner
  have settled := (refines.agrees host k backends owner).complete complete
  rw [refines.file, backendsAt_mark, same]
  ext1 i
  rw [List.getElem?_mapIdx, List.getElem?_map]
  cases here : (backendsAt first k)[i]? with
  | none => rfl
  | some c =>
    have member : i ∈ (fleet first k).members :=
      List.mem_range.mpr (List.getElem?_eq_some_iff.mp here).1
    simp only [Option.map_some, settled i member, Option.getD_some]

theorem start_completes (listed : getBackends s.file host = some (k, backends)) (several : backends ≠ [])
    (named : ∀ c ∈ backends, (urlToService digit c.url).isSome) (idle : (s.scripts host).phase.outline = .stopped) :
    ∃ n t, n ≤ 9 * backends.length + 1 ∧
      run (step digit) (.start host :: List.replicate n (.proceed host true)) s = some t ∧
      (t.scripts host).phase = .stopped .complete := by
  let order := buildRestartOrder backends
  have size : order.length = backends.length := by
    have perm : order.Perm (List.range backends.length) := List.filter_append_perm ..
    rw [perm.length_eq, List.length_range]
  have inside : ∀ idx ∈ order, idx < backends.length := by
    intro idx member
    have perm : order.Perm (List.range backends.length) := List.filter_append_perm ..
    exact List.mem_range.mp (perm.mem_iff.mp member)
  have reachable : ∀ idx ∈ order, ∃ backend, backends[idx]? = some backend ∧
      (urlToService digit backend.url).isSome := by
    intro idx member
    exact ⟨_, List.getElem?_eq_getElem (inside idx member), named _ (List.getElem_mem _)⟩
  obtain ⟨-, whole⟩ := getBackends_some listed
  obtain ⟨n, file', script', few, works, complete⟩ :=
    loop_completes order (s.scripts host).down s.file reachable (by rw [← whole]; exact inside)
  let begun : Script := ⟨k, backends, .looping order, (s.scripts host).down⟩
  have started : step digit (.start host) s = some ⟨s.file, Function.update s.scripts host begun⟩ := by
    have script : start host s.file (s.scripts host) = some begun := by
      unfold start
      cases phase : (s.scripts host).phase with
      | stopped outcome =>
        cases backends with
        | nil => exact absurd rfl several
        | cons c rest =>
          simp only [listed]
          rfl
      | writing idx rest drain config =>
        rw [phase] at idle
        cases drain <;> cases idle
      | reloading idx rest drain =>
        rw [phase] at idle
        cases drain <;> cases idle
      | _ =>
        rw [phase] at idle
        cases idle
    rw [step, script]
    rfl
  let next : RestartScripts.State := ⟨s.file, Function.update s.scripts host begun⟩
  have there : next.scripts host = begun := Function.update_self ..
  have done := run_of_works n next (by rw [there]; exact works)
  refine ⟨n, _, by omega, run_cons_some.mpr ⟨next, started, done⟩, ?_⟩
  simp only [Function.update_self]
  exact complete

/-- While no two scripts are between a read and a write, the proxy accepts each file as it accepts the first
one, and routes that are not the first of their host are left as they are. A script that has completed has
put its whole route back, whatever others have written; and wherever earlier runs stopped, one that is
started with nothing in its way completes. -/
theorem restarts_complete (along : Along (step digit) Exclusive (.fresh first) s) :
    (∀ now, (∃ reg, BackendRegistry.new now s.file = .ok reg) ↔ ∃ reg, BackendRegistry.new now first = .ok reg) ∧
    (∀ k, (∀ host backends, getBackends first host ≠ some (k, backends)) → s.file[k]? = first[k]?) ∧
    ∀ host k backends, getBackends first host = some (k, backends) →
      ((s.scripts host).phase = .stopped .complete →
        backendsAt s.file k = backends.map fun c => { c with drain := false }) ∧
      (backends ≠ [] → (∀ c ∈ backends, (urlToService digit c.url).isSome) →
        (s.scripts host).phase.outline = .stopped → Alone host s →
        ∃ n t, n ≤ 9 * backends.length + 1 ∧
          run (step digit) (.start host :: List.replicate n (.proceed host true)) s = some t ∧
          (t.scripts host).phase = .stopped .complete ∧
          backendsAt t.file k = backends.map fun c => { c with drain := false }) := by
  obtain ⟨maintenance, refines⟩ := refines_of_along along
  refine ⟨fun now => ?_, fun k unowned => ?_, fun host k backends owner => ⟨refines.restored owner, ?_⟩⟩
  · rw [Reload.new_ok_iff, Reload.new_ok_iff, refines.file, UpdateRuns.validate_congr hosts_mark]
  · have unwritten := refines.unowned k unowned
    rw [refines.file, getElem?_mark, unwritten]
    cases first[k]? with
    | none => rfl
    | some route => exact congrArg some (markRoute_none route)
  · intro several named idle alone
    have listed : getBackends s.file host = some (k, backendsAt s.file k) := by
      rw [refines.file, getBackends_mark, owner]
      rfl
    obtain ⟨-, same⟩ := getBackends_some owner
    have urls : (backendsAt s.file k).map (·.url) = backends.map (·.url) := by
      rw [refines.file, backendsAt_mark, urls_mapIdx, same]
    have size : (backendsAt s.file k).length = backends.length := by
      rw [← List.length_map (f := (·.url)), urls, List.length_map]
    have several' : backendsAt s.file k ≠ [] := by
      intro none
      rw [none] at size
      exact several (List.length_eq_zero_iff.mp size.symm)
    have named' : ∀ c ∈ backendsAt s.file k, (urlToService digit c.url).isSome := by
      intro c member
      have url : c.url ∈ backends.map (·.url) := by
        rw [← urls]
        exact List.mem_map_of_mem member
      obtain ⟨d, listed, same⟩ := List.mem_map.mp url
      rw [← same]
      exact named d listed
    obtain ⟨n, t, few, done, complete⟩ := start_completes listed several' named' idle
    have own : ∀ a ∈ RestartScripts.Action.start host :: List.replicate n (.proceed host true), Own host a := by
      intro a member
      rcases List.mem_cons.mp member with rfl | later
      · exact Or.inl rfl
      · exact Or.inr ⟨true, List.eq_of_mem_replicate later⟩
    obtain ⟨later, refines'⟩ := refines_of_along (along.trans (along_of_run alone own done))
    exact ⟨n, t, by omega, done, complete, refines'.restored owner complete⟩

/-- The container of one host does not become healthy, and another host is in the middle of a restart. -/
theorem restarts_complete_rerun : ∃ s : RestartScripts.State,
    Along (step Char.isDigit) Exclusive (.fresh sampleRoutes) s ∧ (s.scripts "a".toList).phase = .stopped .aborted ∧
    (s.scripts "b".toList).phase = .sleeping 0 [] ∧ (backendsAt s.file 0).map (·.drain) = [true, false] ∧
    ∃ n t, n ≤ 19 ∧
      run (step Char.isDigit) (.start "a".toList :: List.replicate n (.proceed "a".toList true)) s = some t ∧
      (backendsAt t.file 0).map (·.drain) = [false, false] := by
  obtain ⟨along, alone⟩ := sample_along
  have owner : getBackends sampleRoutes "a".toList = some (0, backendsAt sampleRoutes 0) := rfl
  obtain ⟨n, t, few, done, -, restored⟩ :=
    ((restarts_complete along).2.2 "a".toList 0 _ owner).2 (by decide) (by decide) rfl alone
  refine ⟨sampleState, along, rfl, rfl, rfl, n, t, few, done, ?_⟩
  rw [restored]
  rfl

end Completion

end TinyLb.RestartRuns
