import TinyLb.Reload
import TinyLb.Tls

/-! What the process runs on, and the body of `config_reload_loop` that replaces it: the
throttle window, then the routes, then the certificates. -/

namespace TinyLb.LiveConfig
open Config Hosts Backends Tls
open Reload hiding step

/-- `u64::saturating_mul`. -/
def saturatingMul (a b : UInt64) : UInt64 :=
  if a.toNat * b.toNat < UInt64.size then a * b else 0xFFFFFFFFFFFFFFFF

/-- The value that `set_window_secs` stores. -/
def windowOfSecs (secs : UInt64) : UInt64 := saturatingMul secs 1000

/-- The live state that a reload may replace. There is no resolver without TLS. -/
structure Process (Cert SigningKey : Type) where
  registry : BackendRegistry
  windowMs : UInt64
  resolver : Option (ReloadableCertResolver Cert SigningKey)

/-- What `main` and `run` set up from the first configuration, or `none` where they end the
process: a bad host, a certificate that cannot be loaded, or only one of the two paths. -/
def Process.start {Cert PrivateKey SigningKey : Type} (parsers : Parsers Cert PrivateKey SigningKey)
    (disk : Disk) (now : Instant) (config : LbConfig) : Option (Process Cert SigningKey) :=
  match BackendRegistry.new now config.routes, config.server.tlsCert, config.server.tlsKey with
  | .ok registry, some certPath, some keyPath =>
      match loadCertifiedKey parsers disk certPath keyPath with
      | .ok key => some ⟨registry, windowOfSecs config.log.errorSummarySecs, some (.new key)⟩
      | .error _ => none
  | .ok registry, none, none => some ⟨registry, windowOfSecs config.log.errorSummarySecs, none⟩
  | _, _, _ => none

section Reload
variable {Cert PrivateKey SigningKey : Type} {parsers : Parsers Cert PrivateKey SigningKey}
  {disk : Disk} {config : LbConfig} {now : Instant} {p : Process Cert SigningKey}

/-- The last part of the body: only a process with a resolver reads certificates, and only
when both paths are set; the answer is ignored. -/
def reloadCerts (parsers : Parsers Cert PrivateKey SigningKey) (disk : Disk) (config : LbConfig)
    (resolver : Option (ReloadableCertResolver Cert SigningKey)) :
    Option (ReloadableCertResolver Cert SigningKey) :=
  match resolver, config.server.tlsCert, config.server.tlsKey with
  | some resolver, some certPath, some keyPath =>
      some (resolver.tryReloadCerts parsers disk certPath keyPath).2
  | resolver, _, _ => resolver

/-- The body of the loop for a configuration that was read and parsed: the answer of
`apply_config` with the process afterwards, or `none` where the body panics. An `Err` is
logged, and the body goes on. -/
def reloadBody (parsers : Parsers Cert PrivateKey SigningKey) (disk : Disk) (now : Instant)
    (config : LbConfig) (p : Process Cert SigningKey) :
    Option (Except HostError Unit × Process Cert SigningKey) :=
  match p.registry.applyConfig now config.routes with
  | none => none
  | some (answer, registry) =>
      some (answer,
        { registry := registry
          windowMs := windowOfSecs config.log.errorSummarySecs
          resolver := reloadCerts parsers disk config p.resolver })

theorem reloadBody_isSome :
    ∃ answer after, reloadBody parsers disk now config p = some (answer, after) := by
  rw [reloadBody]
  obtain ⟨answer, registry, applied⟩ := applyConfig_isSome p.registry now config.routes
  rw [applied]
  exact ⟨answer, _, rfl⟩

/-- Reading the certificates again changes nothing: there is no resolver, the paths are not
both set, they cannot be loaded, or what they hold is served already. -/
def CertsKept (parsers : Parsers Cert PrivateKey SigningKey) (disk : Disk) (config : LbConfig)
    (p : Process Cert SigningKey) : Prop :=
  ∀ resolver certPath keyPath key, p.resolver = some resolver →
    config.server.tlsCert = some certPath → config.server.tlsKey = some keyPath →
    loadCertifiedKey parsers disk certPath keyPath = .ok key → resolver.resolve = some key

theorem reloadCerts_eq_self :
    reloadCerts parsers disk config p.resolver = p.resolver ↔ CertsKept parsers disk config p := by
  unfold reloadCerts CertsKept
  split
  next resolver certPath keyPath running cert key =>
    rw [running, cert, key, Option.some.injEq, ReloadableCertResolver.tryReloadCerts_eq_self]
    constructor
    · rintro served r c k loaded same rfl' rfl'' found
      cases same
      cases rfl'
      cases rfl''
      exact served loaded found
    · intro served loaded found
      exact served resolver certPath keyPath loaded rfl rfl rfl found
  next unset =>
    refine ⟨fun _ resolver certPath keyPath key running cert paths _ => ?_, fun _ => rfl⟩
    exact absurd paths (unset resolver certPath keyPath running cert)

theorem reloadBody_rejected {e : HostError} {registry : BackendRegistry}
    (rejected : p.registry.applyConfig now config.routes = some (.error e, registry)) :
    reloadBody parsers disk now config p = some (.error e,
      { registry := p.registry
        windowMs := windowOfSecs config.log.errorSummarySecs
        resolver := reloadCerts parsers disk config p.resolver }) := by
  have kept : registry = p.registry := by
    rcases applyConfig_cases rejected with ⟨_, _, _, same⟩ | ⟨_, _, _, accepted, _⟩
    · exact same
    · cases accepted
  rw [reloadBody, rejected, kept]

/-- A rejected configuration leaves the process as it was exactly where its throttle window
is the present one and its certificates are kept. -/
theorem rejected_reload_unchanged_iff {e : HostError} {registry : BackendRegistry}
    (rejected : p.registry.applyConfig now config.routes = some (.error e, registry)) :
    (∃ answer, reloadBody parsers disk now config p = some (answer, p)) ↔
      windowOfSecs config.log.errorSummarySecs = p.windowMs ∧ CertsKept parsers disk config p := by
  rw [reloadBody_rejected rejected, ← reloadCerts_eq_self]
  obtain ⟨table, window, resolver⟩ := p
  constructor
  · rintro ⟨answer, same⟩
    have fields := congrArg Prod.snd (Option.some.inj same)
    exact ⟨congrArg Process.windowMs fields, congrArg Process.resolver fields⟩
  · rintro ⟨sameWindow, sameResolver⟩
    refine ⟨.error e, ?_⟩
    simp only [] at sameWindow sameResolver
    rw [sameWindow, sameResolver]

end Reload

def noPem : Parsers Unit Unit Unit := ⟨fun _ => .ok [], fun _ => .ok none, fun _ => .error []⟩

def noFiles : Disk := fun _ => .error ⟨.notFound, "No such file or directory".toList⟩

/-- A bad route after a good one, the window unchanged, and certificates that are gone. -/
theorem rejected_reload_unchanged_iff_bad_wildcard :
    ∃ (p : Process Unit Unit) (config : LbConfig) (registry : BackendRegistry) (e : HostError),
      BackendRegistry.new 0 [⟨"a".toList, [⟨"u".toList, 5, false⟩]⟩] = .ok p.registry ∧
      p.resolver = some (.new ⟨[()], ()⟩) ∧ p.windowMs = 60000 ∧
      p.registry.applyConfig 7 config.routes = some (.error e, registry) ∧
      config.log.errorSummarySecs = 60 ∧
      config.server.tlsCert = some "cert.pem".toList ∧ config.server.tlsKey = some "key.pem".toList ∧
      ∃ answer, reloadBody noPem noFiles 7 config p = some (answer, p) := by
  let config : LbConfig := ⟨⟨"0.0.0.0:80".toList, some "cert.pem".toList, some "key.pem".toList⟩,
    ⟨10, 5, 30⟩, [⟨"b".toList, []⟩, ⟨"api.*.b".toList, []⟩], ⟨none, 50, 3, 60⟩⟩
  obtain ⟨table, built⟩ : ∃ table,
    BackendRegistry.new 0 [⟨"a".toList, [⟨"u".toList, 5, false⟩]⟩] = .ok table := ⟨_, rfl⟩
  have rejected : table.applyConfig 7 config.routes = some (.error _, table) := rfl
  let p : Process Unit Unit := ⟨table, 60000, some (.new ⟨[()], ()⟩)⟩
  refine ⟨p, config, table, _, built, rfl, rfl, rejected, rfl, rfl, rfl, ?_⟩
  have window : windowOfSecs 60 = 60000 := by decide
  refine (@rejected_reload_unchanged_iff _ _ _ noPem noFiles config 7 p _ _ rejected).mpr ⟨window, ?_⟩
  intro resolver certPath keyPath key _ _ _ loaded
  cases loaded

/-- A rejected configuration with a window of 0 turns throttling off. -/
theorem rejected_reload_sets_window :
    ∃ (p : Process Unit Unit) (config : LbConfig) (registry : BackendRegistry) (e : HostError),
      BackendRegistry.new 0 [⟨"a".toList, [⟨"u".toList, 5, false⟩]⟩] = .ok p.registry ∧
      p.registry.applyConfig 7 config.routes = some (.error e, registry) ∧
      ∃ after, reloadBody noPem noFiles 7 config p = some (.error e, after) ∧
        p.windowMs = 60000 ∧ after.windowMs = 0 := by
  let config : LbConfig := ⟨⟨"0.0.0.0:80".toList, none, none⟩, ⟨10, 5, 30⟩,
    [⟨"api.*.b".toList, []⟩], ⟨none, 50, 3, 0⟩⟩
  obtain ⟨table, built⟩ : ∃ table,
    BackendRegistry.new 0 [⟨"a".toList, [⟨"u".toList, 5, false⟩]⟩] = .ok table := ⟨_, rfl⟩
  have rejected : table.applyConfig 7 config.routes = some (.error _, table) := rfl
  have window : windowOfSecs 0 = 0 := by decide
  refine ⟨⟨table, 60000, none⟩, config, table, _, built, rejected, _, reloadBody_rejected rejected,
    rfl, ?_⟩
  simp only [config, window]

end TinyLb.LiveConfig
