import TinyLb.RollingUpdate

/-! The scripts that restart the services of one host each, with `rolling-update/rolling_update_lib.py`,
and the file that they share. A script reads the file, sets a flag in what it has read and writes that
back. No script is killed between the truncation of the file and the end of the dump, and nobody reads the
file in between: a write is one step. -/

namespace TinyLb.RestartScripts
open Text Config
open RollingUpdate (Outcome)

/-- `re.match(r"https?://([^:]+):\d+", url)`, where `digit` is what `\d` matches; it raises where there
is no match. -/
def urlToService (digit : Char → Bool) (url : Str) : Option Str :=
  ((stripPrefix "http://".toList url).or (stripPrefix "https://".toList url)).bind fun authority =>
    match authority.takeWhile (· != ':'), authority.dropWhile (· != ':') with
    | c :: service, ':' :: d :: _ => if digit d then some (c :: service) else none
    | _, _ => none

/-- The first route of the host. -/
def getBackends (config : List RouteConfig) (host : Str) : Option (Nat × List BackendConfig) :=
  match config.findIdx? fun route => route.host == host with
  | none => none
  | some i => config[i]?.map fun route => (i, route.backends)

def backendsAt (config : List RouteConfig) (routeIdx : Nat) : List BackendConfig :=
  (config[routeIdx]?.map (·.backends)).getD []

/-- The part of `set_drain` before the file is written; it raises for an index out of range. -/
def setDrain (config : List RouteConfig) (routeIdx backendIdx : Nat) (drain : Bool) :
    Option (List RouteConfig) :=
  if backendIdx < (backendsAt config routeIdx).length then
    some (config.modify routeIdx fun route =>
      { route with backends := route.backends.modify backendIdx fun backend => { backend with drain := drain } })
  else none

def flagAt (backends : List BackendConfig) (i : Nat) : Bool :=
  match backends[i]? with
  | some backend => backend.drain
  | none => false

def buildRestartOrder (backends : List BackendConfig) : List Nat :=
  (List.range backends.length).filter (flagAt backends) ++
    (List.range backends.length).filter fun i => !flagAt backends i

/-- Where `rolling_restart` is. In `writing` it has read the file and set the flag, in `reloading`
`docker kill -s HUP` runs, in `starting` it polls the health of the container. -/
inductive Phase where
  | stopped (outcome : Outcome)
  | looping (rest : List Nat)
  | writing (idx : Nat) (rest : List Nat) (drain : Bool) (config : List RouteConfig)
  | reloading (idx : Nat) (rest : List Nat) (drain : Bool)
  | sleeping (idx : Nat) (rest : List Nat)
  | restarting (idx : Nat) (rest : List Nat)
  | starting (idx : Nat) (rest : List Nat)
  | settling (rest : List Nat)
  deriving DecidableEq, Repr

/-- `backends` is the list as it was when the script was started. `down` are those whose containers a
script of the host has begun to restart and no script has found healthy since. -/
structure Script where
  routeIdx : Nat
  backends : List BackendConfig
  phase : Phase
  down : List Nat
  deriving DecidableEq, Repr

def Script.fresh : Script := ⟨0, [], .stopped .unstarted, []⟩

def Script.enter (script : Script) (phase : Phase) : Script := { script with phase := phase }

def Script.abort (script : Script) : Script := script.enter (.stopped .aborted)

def Script.restart (script : Script) (idx : Nat) (rest : List Nat) : Script :=
  { script with phase := .restarting idx rest, down := idx :: script.down }

/-- `wait_healthy` has returned true, and the file is read. -/
def Script.recover (script : Script) (idx : Nat) (rest : List Nat) (file : List RouteConfig) : Script :=
  { script with phase := .writing idx rest false file, down := script.down.filter (· != idx) }

def start (host : Str) (file : List RouteConfig) (script : Script) : Option Script :=
  match script.phase with
  | .stopped _ =>
      match getBackends file host with
      | none | some (_, []) => some script.abort
      | some (routeIdx, backends) =>
          some ⟨routeIdx, backends, .looping (buildRestartOrder backends), script.down⟩
  | _ => none

/-- What a script does next: the file afterwards, and where it is. A command that runs ends with the
success `ok`; a failing one raises. For `starting` it says whether the container became healthy in time. -/
def proceed (digit : Char → Bool) (ok : Bool) (file : List RouteConfig) (script : Script) :
    Option (List RouteConfig × Script) :=
  match script.phase with
  | .stopped _ => none
  | .looping [] => some (file, script.enter (.stopped .complete))
  | .looping (idx :: rest) =>
      match script.backends[idx]? with
      | none => some (file, script.abort)
      | some backend =>
          match urlToService digit backend.url with
          | none => some (file, script.abort)
          | some _ =>
              some (file, if backend.drain then script.restart idx rest
                else script.enter (.writing idx rest true file))
  | .writing idx rest drain config =>
      match setDrain config script.routeIdx idx drain with
      | none => some (file, script.abort)
      | some written => some (written, script.enter (.reloading idx rest drain))
  | .reloading idx rest drain =>
      some (file, if ok then script.enter (if drain then .sleeping idx rest else .settling rest) else script.abort)
  | .sleeping idx rest => some (file, script.restart idx rest)
  | .restarting idx rest => some (file, if ok then script.enter (.starting idx rest) else script.abort)
  | .starting idx rest => some (file, if ok then script.recover idx rest file else script.abort)
  | .settling rest => some (file, script.enter (.looping rest))

structure State where
  file : List RouteConfig
  scripts : Str → Script

def State.fresh (first : List RouteConfig) : State := ⟨first, fun _ => .fresh⟩

inductive Action where
  | start (host : Str)
  | proceed (host : Str) (ok : Bool)
  | kill (host : Str)
  deriving DecidableEq, Repr

def step (digit : Char → Bool) : Action → State → Option State
  | .start host, s =>
      (start host s.file (s.scripts host)).map fun script =>
        { s with scripts := Function.update s.scripts host script }
  | .proceed host ok, s =>
      (proceed digit ok s.file (s.scripts host)).map fun (file, script) =>
        ⟨file, Function.update s.scripts host script⟩
  | .kill host, s =>
      match (s.scripts host).phase with
      | .stopped _ => none
      | _ => some { s with scripts := Function.update s.scripts host (s.scripts host).abort }

def Phase.snapshot : Phase → Option (List RouteConfig)
  | .writing _ _ _ config => some config
  | _ => none

/-- No two scripts are between a read and a write. -/
def Exclusive (s : State) : Prop :=
  ∀ host host', (s.scripts host).phase.snapshot.isSome → (s.scripts host').phase.snapshot.isSome → host = host'

def Phase.away : Phase → Option Nat
  | .writing idx _ false _ | .reloading idx _ true => some idx
  | .sleeping idx _ | .restarting idx _ | .starting idx _ => some idx
  | _ => none

/-- The urls of the backends whose containers may be stopped, now or by what the script does next. -/
def Script.away (script : Script) : List Str :=
  (script.phase.away.toList ++ script.down).filterMap fun idx => script.backends[idx]?.map (·.url)

def Phase.outline : Phase → Rolling.Phase Nat
  | .stopped _ => .stopped
  | .looping rest | .settling rest | .reloading _ rest false => .choosing rest
  | .writing idx rest true _ => .choosing (idx :: rest)
  | .writing idx rest false _ | .reloading idx rest true => .away idx rest
  | .sleeping idx rest | .restarting idx rest | .starting idx rest => .away idx rest

section Marks
variable {written : Nat → Nat → Option Bool} {routes : List RouteConfig} {host : Str} {i k : Nat}

/-- The routes with the flags that were written over them, by route and backend. -/
def markRoute (written : Nat → Option Bool) (route : RouteConfig) : RouteConfig :=
  { route with backends := route.backends.mapIdx fun i backend =>
      { backend with drain := (written i).getD backend.drain } }

def mark (written : Nat → Nat → Option Bool) (routes : List RouteConfig) : List RouteConfig :=
  routes.mapIdx fun k route => markRoute (written k) route

theorem markRoute_none (route : RouteConfig) : markRoute (fun _ => none) route = route := by
  simp [markRoute, List.mapIdx_eq_zipIdx_map]

theorem mark_none (routes : List RouteConfig) : mark (fun _ _ => none) routes = routes := by
  simp [mark, markRoute_none, List.mapIdx_eq_zipIdx_map]

theorem getElem?_mark : (mark written routes)[k]? = routes[k]?.map (markRoute (written k)) := by
  rw [mark, List.getElem?_mapIdx]

theorem backendsAt_mark : backendsAt (mark written routes) k =
    (backendsAt routes k).mapIdx fun i backend => { backend with drain := (written k i).getD backend.drain } := by
  unfold backendsAt
  rw [getElem?_mark]
  cases routes[k]? with
  | none => rfl
  | some route => rfl

theorem markRoute_set (flags : Nat → Option Bool) (idx : Nat) (drain : Bool) (route : RouteConfig) :
    { markRoute flags route with backends := (markRoute flags route).backends.modify idx fun backend =>
      { backend with drain := drain } } = markRoute (Function.update flags idx (some drain)) route := by
  apply congrArg (RouteConfig.mk route.host)
  show (route.backends.mapIdx _).modify idx _ = route.backends.mapIdx _
  ext1 i
  rw [List.getElem?_modify, List.getElem?_mapIdx, List.getElem?_mapIdx]
  by_cases same : idx = i
  · rw [same, Function.update_self]
    cases route.backends[i]? with
    | none => rfl
    | some backend => simp
  · simp only [Function.update_of_ne (Ne.symm same), same, if_false]
    exact id_map' _

theorem setDrain_mark {idx : Nat} (inside : idx < (backendsAt routes k).length) (drain : Bool) :
    setDrain (mark written routes) k idx drain =
      some (mark (Function.update written k (Function.update (written k) idx (some drain))) routes) := by
  have bound : idx < (backendsAt (mark written routes) k).length := by
    rw [backendsAt_mark, List.length_mapIdx]
    exact inside
  rw [setDrain, if_pos bound]
  congr 1
  ext1 j
  rw [List.getElem?_modify, getElem?_mark, getElem?_mark]
  by_cases same : k = j
  · subst same
    rw [Function.update_self]
    cases routes[k]? with
    | none => rfl
    | some route => simp [markRoute_set]
  · simp only [Function.update_of_ne (Ne.symm same), same, if_false]
    exact id_map' _

theorem urls_mapIdx (flags : Nat → Option Bool) (backends : List BackendConfig) :
    (backends.mapIdx fun i backend => { backend with drain := (flags i).getD backend.drain }).map (·.url) =
      backends.map (·.url) := by
  ext1 i
  rw [List.getElem?_map, List.getElem?_mapIdx, List.getElem?_map, Option.map_map]
  rfl

theorem urls_mark : (RollingUpdate.entries (mark written routes)).map (·.url) =
    (RollingUpdate.entries routes).map (·.url) := by
  have each (l : List RouteConfig) : (RollingUpdate.entries l).map (·.url) =
      (l.map fun route => route.backends.map (·.url)).flatten := by
    rw [RollingUpdate.entries, List.map_flatMap, List.flatMap_def]
  rw [each, each]
  congr 1
  ext1 j
  rw [List.getElem?_map, List.getElem?_map, getElem?_mark, Option.map_map]
  congr 1
  funext route
  exact urls_mapIdx (written j) route.backends

theorem hosts_mark : (mark written routes).map (·.host) = routes.map (·.host) := by
  ext1 j
  rw [List.getElem?_map, List.getElem?_map, getElem?_mark, Option.map_map]
  rfl

theorem getBackends_mark : getBackends (mark written routes) host =
    (getBackends routes host).map fun found => (found.1, backendsAt (mark written routes) found.1) := by
  have same : ((mark written routes).findIdx? fun route => route.host == host) =
      routes.findIdx? fun route => route.host == host := by
    have named (l : List RouteConfig) : (l.findIdx? fun route => route.host == host) =
        (l.map (·.host)).findIdx? (· == host) := by
      rw [List.findIdx?_map]
      rfl
    rw [named, named, hosts_mark]
  unfold getBackends
  rw [same]
  cases routes.findIdx? fun route => route.host == host with
  | none => rfl
  | some j =>
    simp only [backendsAt, getElem?_mark, Option.map_map]
    cases here : routes[j]? with
    | none => rfl
    | some route => simp [here]

theorem getBackends_some {backends : List BackendConfig} (found : getBackends routes host = some (k, backends)) :
    (∃ route, routes[k]? = some route ∧ route.host = host) ∧ backends = backendsAt routes k := by
  unfold getBackends at found
  split at found
  next => cases found
  next j position =>
    obtain ⟨route, here, same⟩ := Option.map_eq_some_iff.mp found
    cases same
    obtain ⟨inside, matches_, -⟩ := List.findIdx?_eq_some_iff_getElem.mp position
    rw [List.getElem?_eq_getElem inside] at here
    cases here
    refine ⟨⟨_, List.getElem?_eq_getElem inside, by simpa using matches_⟩, ?_⟩
    simp [backendsAt, List.getElem?_eq_getElem inside]

def fleet (first : List RouteConfig) (k : Nat) : Rolling.Fleet Nat where
  members := List.range (backendsAt first k).length
  drained := flagAt (backendsAt first k)
  distinct := List.nodup_range

theorem flagAt_mark (member : i ∈ (fleet routes k).members) :
    flagAt (backendsAt (mark written routes) k) i = Rolling.isDrained (fleet routes k) (written k) i := by
  have inside : i < (backendsAt routes k).length := List.mem_range.mp member
  simp only [flagAt, backendsAt_mark, List.getElem?_mapIdx, List.getElem?_eq_getElem inside, Option.map_some,
    Rolling.isDrained, fleet]

theorem buildRestartOrder_mark :
    buildRestartOrder (backendsAt (mark written routes) k) = Rolling.order (fleet routes k) (written k) := by
  have same : ∀ i ∈ (fleet routes k).members, flagAt (backendsAt (mark written routes) k) i =
      Rolling.isDrained (fleet routes k) (written k) i := fun i member => flagAt_mark member
  have members : List.range (backendsAt (mark written routes) k).length = (fleet routes k).members := by
    rw [backendsAt_mark, List.length_mapIdx]
    rfl
  unfold buildRestartOrder Rolling.order
  rw [members, List.filter_congr same]
  congr 1
  apply List.filter_congr
  intro i member
  rw [same i member]

end Marks

end TinyLb.RestartScripts
