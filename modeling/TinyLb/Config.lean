import TinyLb.Text

/-! The configuration file as the proxy sees it after parsing. `usize` and `u64`
are 64-bit words. -/

namespace TinyLb.Config
open Text

structure BackendConfig where
  url : Str
  maxConnections : UInt64
  drain : Bool
  deriving DecidableEq, Repr

structure RouteConfig where
  host : Str
  backends : List BackendConfig
  deriving DecidableEq, Repr

structure LogConfig where
  file : Option Str
  maxSizeMb : UInt64
  maxFiles : UInt32
  errorSummarySecs : UInt64
  deriving DecidableEq, Repr

structure ServerConfig where
  bind : Str
  tlsCert : Option Str
  tlsKey : Option Str
  deriving DecidableEq, Repr

structure HealthConfig where
  intervalSecs : UInt64
  timeoutSecs : UInt64
  unhealthyCooldownSecs : UInt64
  deriving DecidableEq, Repr

structure LbConfig where
  server : ServerConfig
  health : HealthConfig
  routes : List RouteConfig
  log : LogConfig
  deriving DecidableEq, Repr

end TinyLb.Config
