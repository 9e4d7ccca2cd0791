import TinyLb.Config
import TinyLb.Tables

/-! How the proxy reads its configuration from a document. The readers that serde derives and the TOML
library behind them are taken from outside: `Reader.Laws` says what is relied on. -/

namespace TinyLb.Decoding
open Config Tables

def Lists (key : String) (tables : List Table) (t : Table) : Prop :=
  t.lookup key.toList = some (.array (tables.map .table))

/-- The readers of `LbConfig`, `RouteConfig` and `BackendConfig`. -/
structure Reader where
  lb : Table → Option LbConfig
  route : Table → Option RouteConfig
  backend : Table → Option BackendConfig

/-- A field of a struct is read from its own key alone, and a list of structs that is an array of tables is
read table by table. `url` is a string; `drain` is a boolean and false where it is missing. -/
structure Reader.Laws (reader : Reader) : Prop where
  routes {t c tables} (read : reader.lb t = some c) (listed : Lists "routes" tables t) :
    List.Forall₂ (fun t r => reader.route t = some r) tables c.routes
  putRoutes {t c tables routes} (read : reader.lb t = some c)
    (each : List.Forall₂ (fun t r => reader.route t = some r) tables routes) :
    reader.lb (put "routes".toList (.array (tables.map .table)) t) = some { c with routes := routes }
  backends {t r tables} (read : reader.route t = some r) (listed : Lists "backends" tables t) :
    List.Forall₂ (fun t b => reader.backend t = some b) tables r.backends
  putBackends {t r tables backends} (read : reader.route t = some r)
    (each : List.Forall₂ (fun t b => reader.backend t = some b) tables backends) :
    reader.route (put "backends".toList (.array (tables.map .table)) t) = some { r with backends := backends }
  url {t b} (read : reader.backend t = some b) : t.lookup "url".toList = some (.string b.url)
  drain {t b} (read : reader.backend t = some b) :
    t.lookup "drain".toList = some (.boolean b.drain) ∨ t.lookup "drain".toList = none ∧ b.drain = false
  putDrain {t b} (read : reader.backend t = some b) (drain : Bool) :
    reader.backend (put "drain".toList (.boolean drain) t) = some { b with drain := drain }

/-- The sections that hold routes and backends are tables. -/
def Sectioned (doc : Table) : Prop :=
  ∃ routes, Lists "routes" routes doc ∧ ∀ route ∈ routes, ∃ backends, Lists "backends" backends route

section Reads
variable {reader : Reader} {doc t : Table} {c : LbConfig} {r : RouteConfig}

def ReadsRoute (reader : Reader) (t : Table) (r : RouteConfig) : Prop :=
  reader.route t = some r ∧ ∃ tables, Lists "backends" tables t ∧
    List.Forall₂ (fun t b => reader.backend t = some b) tables r.backends

def Reads (reader : Reader) (doc : Table) (c : LbConfig) : Prop :=
  reader.lb doc = some c ∧ ∃ tables, Lists "routes" tables doc ∧ List.Forall₂ (ReadsRoute reader) tables c.routes

theorem reads_of_sectioned (laws : reader.Laws) (sections : Sectioned doc) (read : reader.lb doc = some c) :
    Reads reader doc c := by
  obtain ⟨tables, listed, backends⟩ := sections
  refine ⟨read, tables, listed, ?_⟩
  have routes := laws.routes read listed
  refine List.forall₂_iff_zip.mpr ⟨routes.length_eq, fun {t r} here => ?_⟩
  have routeRead := List.forall₂_zip routes here
  obtain ⟨inner, innerListed⟩ := backends t (List.of_mem_zip here).1
  exact ⟨routeRead, inner, innerListed, laws.backends routeRead innerListed⟩

end Reads

section Derived
variable {α : Type}

def text : Value → Option Str
  | .string text => some text
  | _ => none

def flag : Value → Option Bool
  | .boolean b => some b
  | _ => none

/-- The integers of the library are of type `i64`. -/
def integerMax : Nat := 0x7FFFFFFFFFFFFFFF

def unsigned (size : Nat) : Value → Option Nat
  | .integer (.ofNat n) => if n < size ∧ n ≤ integerMax then some n else none
  | _ => none

def u64 (value : Value) : Option UInt64 := (unsigned UInt64.size value).map UInt64.ofNat

def u32 (value : Value) : Option UInt32 := (unsigned UInt32.size value).map UInt32.ofNat

def array (item : Value → Option α) : Value → Option (List α)
  | .array items => items.mapM item
  | _ => none

def structOf (fields : Table → Option α) : Value → Option α
  | .table t => fields t
  | _ => none

def required (decode : Value → Option α) (key : String) (t : Table) : Option α :=
  (t.lookup key.toList).bind decode

def defaulted (decode : Value → Option α) (default : α) (key : String) (t : Table) : Option α :=
  match t.lookup key.toList with
  | some value => decode value
  | none => some default

def optional (decode : Value → Option α) (key : String) (t : Table) : Option (Option α) :=
  match t.lookup key.toList with
  | some value => (decode value).map some
  | none => some none

def defaultMaxConnections : UInt64 := 5000

def backendConfig (t : Table) : Option BackendConfig := do
  let url ← required text "url" t
  let maxConnections ← defaulted u64 defaultMaxConnections "max_connections" t
  let drain ← defaulted flag false "drain" t
  return ⟨url, maxConnections, drain⟩

def routeConfig (t : Table) : Option RouteConfig := do
  let host ← required text "host" t
  let backends ← required (array (structOf backendConfig)) "backends" t
  return ⟨host, backends⟩

def defaultLogConfig : LogConfig := ⟨none, 50, 3, 60⟩

def logConfig (t : Table) : Option LogConfig := do
  let file ← optional text "file" t
  let maxSizeMb ← defaulted u64 defaultLogConfig.maxSizeMb "max_size_mb" t
  let maxFiles ← defaulted u32 defaultLogConfig.maxFiles "max_files" t
  let errorSummarySecs ← defaulted u64 defaultLogConfig.errorSummarySecs "error_summary_secs" t
  return ⟨file, maxSizeMb, maxFiles, errorSummarySecs⟩

def serverConfig (t : Table) : Option ServerConfig := do
  let bind ← required text "bind" t
  let tlsCert ← optional text "tls_cert" t
  let tlsKey ← optional text "tls_key" t
  return ⟨bind, tlsCert, tlsKey⟩

def healthConfig (t : Table) : Option HealthConfig := do
  let intervalSecs ← required u64 "interval_secs" t
  let timeoutSecs ← required u64 "timeout_secs" t
  let unhealthyCooldownSecs ← required u64 "unhealthy_cooldown_secs" t
  return ⟨intervalSecs, timeoutSecs, unhealthyCooldownSecs⟩

def lbConfig (t : Table) : Option LbConfig := do
  let server ← required (structOf serverConfig) "server" t
  let health ← required (structOf healthConfig) "health" t
  let routes ← required (array (structOf routeConfig)) "routes" t
  let log ← defaulted (structOf logConfig) defaultLogConfig "log" t
  return ⟨server, health, routes, log⟩

/-- The readers as `config.rs` has the structs, for documents whose sections are tables. -/
def derived : Reader := ⟨lbConfig, routeConfig, backendConfig⟩

section Fields
variable {decode : Value → Option α} {fields : Table → Option α} {key : String} {t t' : Table} {a : α}
  {l l' : List α} {tables : List Table}

theorem required_congr (same : t'.lookup key.toList = t.lookup key.toList) :
    required decode key t' = required decode key t := by
  rw [required, required, same]

theorem defaulted_congr (same : t'.lookup key.toList = t.lookup key.toList) :
    defaulted decode a key t' = defaulted decode a key t := by
  rw [defaulted, defaulted, same]

theorem tables_of_required (read : required (array (structOf fields)) key t = some l) (listed : Lists key tables t) :
    List.Forall₂ (fun t a => fields t = some a) tables l := by
  rw [required, listed] at read
  exact mapM_tables.mp read

theorem required_of_tables (each : List.Forall₂ (fun t a => fields t = some a) tables l) :
    required (array (structOf fields)) key (put key.toList (.array (tables.map .table)) t) = some l := by
  rw [required, lookup_put_self]
  exact mapM_tables.mpr each

end Fields

section Structs
variable {t : Table} {c : LbConfig} {r : RouteConfig} {b : BackendConfig}

theorem lbConfig_some (read : lbConfig t = some c) :
    required (structOf serverConfig) "server" t = some c.server ∧
      required (structOf healthConfig) "health" t = some c.health ∧
      required (array (structOf routeConfig)) "routes" t = some c.routes ∧
      defaulted (structOf logConfig) defaultLogConfig "log" t = some c.log := by
  obtain ⟨server, serverRead, read⟩ := Option.bind_eq_some_iff.mp read
  obtain ⟨health, healthRead, read⟩ := Option.bind_eq_some_iff.mp read
  obtain ⟨routes, routesRead, read⟩ := Option.bind_eq_some_iff.mp read
  obtain ⟨log, logRead, read⟩ := Option.bind_eq_some_iff.mp read
  cases read
  exact ⟨serverRead, healthRead, routesRead, logRead⟩

theorem routeConfig_some (read : routeConfig t = some r) :
    required text "host" t = some r.host ∧
      required (array (structOf backendConfig)) "backends" t = some r.backends := by
  obtain ⟨host, hostRead, read⟩ := Option.bind_eq_some_iff.mp read
  obtain ⟨backends, backendsRead, read⟩ := Option.bind_eq_some_iff.mp read
  cases read
  exact ⟨hostRead, backendsRead⟩

theorem backendConfig_some (read : backendConfig t = some b) :
    required text "url" t = some b.url ∧
      defaulted u64 defaultMaxConnections "max_connections" t = some b.maxConnections ∧
      defaulted flag false "drain" t = some b.drain := by
  obtain ⟨url, urlRead, read⟩ := Option.bind_eq_some_iff.mp read
  obtain ⟨most, mostRead, read⟩ := Option.bind_eq_some_iff.mp read
  obtain ⟨drain, drainRead, read⟩ := Option.bind_eq_some_iff.mp read
  cases read
  exact ⟨urlRead, mostRead, drainRead⟩

end Structs

theorem derived_laws : derived.Laws where
  routes read listed := tables_of_required (lbConfig_some read).2.2.1 listed
  backends read listed := tables_of_required (routeConfig_some read).2 listed
  putRoutes {t c tables routes} read each := by
    obtain ⟨server, health, -, log⟩ := lbConfig_some read
    have others (other : String) (apart : other.toList ≠ "routes".toList) :
        (put "routes".toList (.array (tables.map .table)) t).lookup other.toList = t.lookup other.toList :=
      lookup_put_of_ne apart
    simp only [derived, lbConfig]
    rw [required_congr (others _ (by decide)), server, required_congr (others _ (by decide)), health,
      @required_of_tables _ routeConfig _ _ _ _ each, defaulted_congr (others _ (by decide)), log]
    rfl
  putBackends {t r tables backends} read each := by
    have host := @lookup_put_of_ne "backends".toList "host".toList (.array (tables.map .table)) t (by decide)
    simp only [derived, routeConfig]
    rw [required_congr host, (routeConfig_some read).1, @required_of_tables _ backendConfig _ _ _ _ each]
    rfl
  url {t b} read := by
    obtain ⟨value, here, string⟩ := Option.bind_eq_some_iff.mp (backendConfig_some read).1
    cases value with
    | string text => cases string; exact here
    | _ => cases string
  drain {t b} read := by
    have drained := (backendConfig_some read).2.2
    unfold defaulted at drained
    split at drained
    next value here =>
      cases value with
      | boolean flag => cases drained; exact Or.inl here
      | _ => cases drained
    next absent => exact Or.inr ⟨absent, (Option.some.inj drained).symm⟩
  putDrain {t b} read drain := by
    obtain ⟨url, most, -⟩ := backendConfig_some read
    have sameUrl := @lookup_put_of_ne "drain".toList "url".toList (.boolean drain) t (by decide)
    have sameMost := @lookup_put_of_ne "drain".toList "max_connections".toList (.boolean drain) t (by decide)
    have drained : defaulted flag false "drain" (put "drain".toList (.boolean drain) t) = some drain := by
      rw [defaulted, lookup_put_self]
      rfl
    simp only [derived, backendConfig]
    rw [required_congr sameUrl, url, defaulted_congr sameMost, most, drained]
    rfl

end Derived

end TinyLb.Decoding
