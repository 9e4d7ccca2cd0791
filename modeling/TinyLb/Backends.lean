import TinyLb.Arena
import TinyLb.Config
import TinyLb.Hosts

/-! Backends, backend groups and the registry, with the operations on them.

`Arc<Backend>` and `Arc<BackendGroup>` are indices into two arenas, so a group
that a request still holds after a reload is the same object as before. The
vectors behind the two `RwLock`s are the lists `BackendGroup.backends` and
`BackendRegistry.groups`. -/

namespace TinyLb.Backends
open Text Config Hosts

abbrev BackendId := Nat
abbrev GroupId := Nat
abbrev Instant := Nat

def usizeMax : UInt64 := 0xFFFFFFFFFFFFFFFF

structure Backend where
  url : Str
  maxConnections : UInt64
  drain : Bool
  healthy : Bool
  activeConnections : UInt64
  errorCount : UInt64
  lastHealthCheck : Instant
  deriving DecidableEq, Repr, Inhabited

/-- `Backend::new`, where the clock reads `now`. -/
def Backend.new (now : Instant) (config : BackendConfig) : Backend where
  url := config.url
  maxConnections := config.maxConnections
  drain := config.drain
  healthy := true
  activeConnections := 0
  errorCount := 0
  lastHealthCheck := now

/-- The two stores a reload makes into a backend it keeps. -/
def Backend.update (config : BackendConfig) (b : Backend) : Backend :=
  { b with maxConnections := config.maxConnections, drain := config.drain }

/-- `active_connections.fetch_add(1)`; it wraps. -/
def Backend.connect (b : Backend) : Backend :=
  { b with activeConnections := b.activeConnections + 1 }

/-- `active_connections.fetch_sub(1)`; it wraps. -/
def Backend.disconnect (b : Backend) : Backend :=
  { b with activeConnections := b.activeConnections - 1 }

/-- `error_count.fetch_add(1)`. -/
def Backend.countError (b : Backend) : Backend := { b with errorCount := b.errorCount + 1 }

/-- `error_count.swap(0)`, as the stats sampler does. -/
def Backend.takeErrors (b : Backend) : Backend := { b with errorCount := 0 }

/-- A health probe that ended at `now`. -/
def Backend.probed (now : Instant) (healthy : Bool) (b : Backend) : Backend :=
  { b with healthy := healthy, lastHealthCheck := now }

def Backend.config (b : Backend) : BackendConfig := ⟨b.url, b.maxConnections, b.drain⟩

structure LiveState where
  healthy : Bool
  activeConnections : UInt64
  errorCount : UInt64
  lastHealthCheck : Instant
  deriving DecidableEq, Repr

def LiveState.fresh (now : Instant) : LiveState := ⟨true, 0, 0, now⟩

def Backend.live (b : Backend) : LiveState :=
  ⟨b.healthy, b.activeConnections, b.errorCount, b.lastHealthCheck⟩

@[simp] theorem Backend.config_new (now : Instant) (c : BackendConfig) :
    (Backend.new now c).config = c := rfl

@[simp] theorem Backend.url_update (c : BackendConfig) (b : Backend) : (b.update c).url = b.url :=
  rfl

@[simp] theorem Backend.live_update (c : BackendConfig) (b : Backend) :
    (b.update c).live = b.live := rfl

@[simp] theorem Backend.update_update (c d : BackendConfig) (b : Backend) :
    (b.update c).update d = b.update d := rfl

theorem Backend.config_update {c : BackendConfig} {b : Backend} (same : b.url = c.url) :
    (b.update c).config = c := by
  simp only [Backend.config, Backend.update, same]

/-- A group cannot be built with a match kind other than the parse of its host. -/
structure BackendGroup where
  host : Str
  matchKind : HostMatch
  backends : List BackendId
  parsed : parse host = .ok matchKind
  deriving DecidableEq

instance : Inhabited BackendGroup := ⟨⟨[], .exact [], [], rfl⟩⟩

structure BackendRegistry where
  backendAt : Arena Backend
  groupAt : Arena BackendGroup
  groups : List GroupId
  deriving DecidableEq

namespace BackendRegistry

def empty : BackendRegistry := ⟨.empty, .empty, []⟩

def backend (reg : BackendRegistry) (b : BackendId) : Backend := reg.backendAt.get b

def group (reg : BackendRegistry) (g : GroupId) : BackendGroup := reg.groupAt.get g

def write (reg : BackendRegistry) (b : BackendId) (f : Backend → Backend) : BackendRegistry :=
  { reg with backendAt := reg.backendAt.modify b f }

@[simp] theorem size_write (reg : BackendRegistry) (b : BackendId) (f : Backend → Backend) :
    (reg.write b f).backendAt.size = reg.backendAt.size := Arena.size_modify ..

theorem backend_write_self (reg : BackendRegistry) {b : BackendId} (f : Backend → Backend)
    (known : b < reg.backendAt.size) : (reg.write b f).backend b = f (reg.backend b) :=
  reg.backendAt.get_modify_self f known

theorem backend_write_of_ne (reg : BackendRegistry) {b b' : BackendId} (f : Backend → Backend)
    (other : b ≠ b') : (reg.write b f).backend b' = reg.backend b' :=
  reg.backendAt.get_modify_of_ne f other

end BackendRegistry

/-- `Backend::new` on every configuration entry, in order. -/
def allocBackends (now : Instant) : List BackendConfig → Arena Backend →
    List BackendId × Arena Backend
  | [], arena => ([], arena)
  | config :: rest, arena =>
      let more := allocBackends now rest (arena.alloc (Backend.new now config))
      (arena.size :: more.1, more.2)

/-- `BackendGroup::new`; the host is parsed before any backend is built. -/
def BackendGroup.new (now : Instant) (route : RouteConfig) (arena : Arena Backend) :
    Except HostError (BackendGroup × Arena Backend) :=
  match parsed : parse route.host with
  | .error e => .error e
  | .ok matchKind =>
      let built := allocBackends now route.backends arena
      .ok (⟨route.host, matchKind, built.1, parsed⟩, built.2)

def pushGroups (now : Instant) : List RouteConfig → BackendRegistry →
    Except HostError BackendRegistry
  | [], reg => .ok reg
  | route :: rest, reg =>
      match BackendGroup.new now route reg.backendAt with
      | .error e => .error e
      | .ok (group, arena) =>
          pushGroups now rest ⟨arena, reg.groupAt.alloc group, reg.groups ++ [reg.groupAt.size]⟩

/-- `BackendRegistry::new`. -/
def BackendRegistry.new (now : Instant) (routes : List RouteConfig) :
    Except HostError BackendRegistry :=
  pushGroups now routes .empty

/-- The running minimum of `select_backend` over the rest of the group's list. -/
def scan (arena : Arena Backend) : List BackendId → Option BackendId → UInt64 → Option BackendId
  | [], best, _ => best
  | b :: rest, best, bestCount =>
      let backend := arena.get b
      if backend.drain then scan arena rest best bestCount
      else if !backend.healthy then scan arena rest best bestCount
      else if backend.activeConnections ≥ backend.maxConnections then scan arena rest best bestCount
      else if backend.activeConnections < bestCount then
        scan arena rest (some b) backend.activeConnections
      else scan arena rest best bestCount

/-- `BackendGroup::select_backend`. -/
def BackendRegistry.selectBackend (reg : BackendRegistry) (g : GroupId) : Option BackendId :=
  scan reg.backendAt (reg.group g).backends none usizeMax

/-- `backends.iter().find(|b| b.url == url)`. -/
def locate (arena : Arena Backend) (backends : List BackendId) (url : Str) : Option BackendId :=
  backends.find? fun b => (arena.get b).url == url

/-- The loop of `apply_backends`; `old` is the list before the call. -/
def mergeBackends (now : Instant) (old : List BackendId) : List BackendConfig → Arena Backend →
    List BackendId × Arena Backend
  | [], arena => ([], arena)
  | config :: rest, arena =>
      match locate arena old config.url with
      | some existing =>
          let more := mergeBackends now old rest (arena.modify existing (Backend.update config))
          (existing :: more.1, more.2)
      | none =>
          let more := mergeBackends now old rest (arena.alloc (Backend.new now config))
          (arena.size :: more.1, more.2)

/-- `BackendGroup::apply_backends`. -/
def BackendRegistry.applyBackends (reg : BackendRegistry) (now : Instant) (g : GroupId)
    (configs : List BackendConfig) : BackendRegistry :=
  let merged := mergeBackends now (reg.group g).backends configs reg.backendAt
  { reg with
    backendAt := merged.2
    groupAt := reg.groupAt.modify g fun group => { group with backends := merged.1 } }

/-- The two searches of `find_group`, over entries whose match kind is `kind`. -/
def findMatch {γ : Type} (kind : γ → HostMatch) (entries : List γ) (host : Str) : Option γ :=
  match entries.find? fun entry => (kind entry).isExactly host with
  | some entry => some entry
  | none =>
      (maxByKey Prod.fst (entries.filterMap fun entry =>
        ((kind entry).suffixLen host).map fun length => (length, entry))).map Prod.snd

/-- The part of a Host header that is compared: no port, lowercase. -/
def hostKey (header : Str) : Str := toAsciiLowercase (splitFirst ':' header)

/-- `BackendRegistry::find_group`. -/
def BackendRegistry.findGroup (reg : BackendRegistry) (header : Str) : Option GroupId :=
  findMatch (fun g => (reg.group g).matchKind) reg.groups (hostKey header)

/-- The first loop of `apply_config`. -/
def validate : List RouteConfig → Except HostError Unit
  | [] => .ok ()
  | route :: rest =>
      match parse route.host with
      | .error e => .error e
      | .ok _ => validate rest

namespace BackendRegistry

/-- `groups.iter().find(|g| g.host == host)`. -/
def locateGroup (reg : BackendRegistry) (host : Str) : Option GroupId :=
  reg.groups.find? fun g => (reg.group g).host == host

/-- One round of the second loop of `apply_config`: the group pushed for `route`.
The `unwrap` of `BackendGroup::new` panics where the result is `none`. -/
def applyRoute (reg : BackendRegistry) (now : Instant) (route : RouteConfig) :
    Option (GroupId × BackendRegistry) :=
  match reg.locateGroup route.host with
  | some existing => some (existing, reg.applyBackends now existing route.backends)
  | none =>
      match BackendGroup.new now route reg.backendAt with
      | .error _ => none
      | .ok (group, arena) =>
          some (reg.groupAt.size, { reg with backendAt := arena, groupAt := reg.groupAt.alloc group })

/-- The second loop; the table stays the old one until the loop is over. -/
def applyRoutes (now : Instant) : List RouteConfig → BackendRegistry →
    Option (List GroupId × BackendRegistry)
  | [], reg => some ([], reg)
  | route :: rest, reg =>
      match reg.applyRoute now route with
      | none => none
      | some (g, next) =>
          match applyRoutes now rest next with
          | none => none
          | some (ids, last) => some (g :: ids, last)

/-- `BackendRegistry::apply_config`: the answer and the registry afterwards, or
`none` where the call panics. -/
def applyConfig (reg : BackendRegistry) (now : Instant) (routes : List RouteConfig) :
    Option (Except HostError Unit × BackendRegistry) :=
  match validate routes with
  | .error e => some (.error e, reg)
  | .ok () =>
      match applyRoutes now routes reg with
      | none => none
      | some (ids, last) => some (.ok (), { last with groups := ids })

def route (reg : BackendRegistry) (g : GroupId) : RouteConfig :=
  ⟨(reg.group g).host, (reg.group g).backends.map fun b => (reg.backend b).config⟩

def config (reg : BackendRegistry) : List RouteConfig := reg.groups.map reg.route

end BackendRegistry

/-- Every pointer is to an allocated object, and no backend is in two groups. -/
structure Valid (reg : BackendRegistry) : Prop where
  table : ∀ g ∈ reg.groups, g < reg.groupAt.size
  owned : ∀ g, ∀ b ∈ (reg.group g).backends, b < reg.backendAt.size
  apart : ∀ g g' b, b ∈ (reg.group g).backends → b ∈ (reg.group g').backends → g = g'

theorem valid_empty : Valid .empty := by
  constructor <;> simp [BackendRegistry.empty, BackendRegistry.group, Arena.empty, Arena.get,
    default]

theorem valid_write {reg : BackendRegistry} (valid : Valid reg) (b : BackendId)
    (f : Backend → Backend) : Valid (reg.write b f) := by
  refine ⟨valid.table, fun g i present => ?_, valid.apart⟩
  rw [BackendRegistry.size_write]
  exact valid.owned g i present

theorem scan_mem_or {arena : Arena Backend} {ids : List BackendId} {best : Option BackendId}
    {bestCount : UInt64} {b : BackendId} (chosen : scan arena ids best bestCount = some b) :
    best = some b ∨ b ∈ ids ∧ (arena.get b).drain = false ∧ (arena.get b).healthy = true ∧
      (arena.get b).activeConnections < (arena.get b).maxConnections := by
  induction ids generalizing best bestCount with
  | nil => exact Or.inl chosen
  | cons x rest ih =>
    have skip : ∀ {best bestCount}, scan arena rest best bestCount = some b →
        best = some b ∨ b ∈ x :: rest ∧ (arena.get b).drain = false ∧
          (arena.get b).healthy = true ∧
          (arena.get b).activeConnections < (arena.get b).maxConnections :=
      fun later => (ih later).imp id fun ⟨present, able⟩ => ⟨List.mem_cons_of_mem _ present, able⟩
    simp only [scan] at chosen
    split at chosen
    · exact skip chosen
    split at chosen
    · exact skip chosen
    split at chosen
    · exact skip chosen
    next undrained healthy room =>
      split at chosen
      · rcases skip chosen with same | later
        · cases same
          refine Or.inr ⟨List.mem_cons_self .., ?_, ?_, UInt64.not_le.mp room⟩
          · simpa using undrained
          · simpa using healthy
        · exact Or.inr later
      · exact skip chosen

theorem selectBackend_some {reg : BackendRegistry} {g : GroupId} {b : BackendId}
    (chosen : reg.selectBackend g = some b) :
    b ∈ (reg.group g).backends ∧ (reg.backend b).drain = false ∧ (reg.backend b).healthy = true ∧
      (reg.backend b).activeConnections < (reg.backend b).maxConnections := by
  rcases scan_mem_or chosen with none | found
  · cases none
  · exact found

end TinyLb.Backends
