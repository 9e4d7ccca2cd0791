import TinyLb.Text

/-! Certificates: how they are read from PEM files, and the resolver that serves them. The
PEM and key parsers are a parameter, with the texts of their errors. -/

namespace TinyLb.Tls

abbrev Bytes := List UInt8

inductive ErrorKind where
  | notFound
  | permissionDenied
  | invalidData
  | other
  deriving DecidableEq, Repr

structure IoError where
  kind : ErrorKind
  text : Str
  deriving DecidableEq, Repr

abbrev Disk := Str → Except IoError Bytes

/-- `rustls_pemfile::certs`, `rustls_pemfile::private_key` and `any_supported_type`. -/
structure Parsers (Cert PrivateKey SigningKey : Type) where
  certs : Bytes → Except Str (List Cert)
  privateKey : Bytes → Except Str (Option PrivateKey)
  anySupportedType : PrivateKey → Except Str SigningKey

structure CertifiedKey (Cert SigningKey : Type) where
  cert : List Cert
  key : SigningKey
  deriving DecidableEq

section Load
variable {Cert PrivateKey SigningKey : Type}

def invalidData (text : Str) : IoError := ⟨.invalidData, text⟩

def openFile (disk : Disk) (what path : Str) : Except IoError Bytes :=
  (disk path).mapError fun e =>
    ⟨e.kind, "failed to open ".toList ++ what ++ " ".toList ++ path ++ ": ".toList ++ e.text⟩

/-- `load_certified_key`. -/
def loadCertifiedKey (parsers : Parsers Cert PrivateKey SigningKey) (disk : Disk)
    (certPath keyPath : Str) : Except IoError (CertifiedKey Cert SigningKey) := do
  let certFile ← openFile disk "cert".toList certPath
  let certs ← (parsers.certs certFile).mapError fun e => invalidData ("bad cert PEM: ".toList ++ e)
  if certs.isEmpty then throw (invalidData "no certificates found in PEM file".toList)
  let keyFile ← openFile disk "key".toList keyPath
  let found ← (parsers.privateKey keyFile).mapError fun e => invalidData ("bad key PEM: ".toList ++ e)
  let key ← match found with
    | some key => pure key
    | none => throw (invalidData "no private key found in PEM file".toList)
  let signingKey ← (parsers.anySupportedType key).mapError fun e =>
    invalidData ("unsupported key type: ".toList ++ e)
  return ⟨certs, signingKey⟩

end Load

structure ReloadableCertResolver (Cert SigningKey : Type) where
  certifiedKey : Option (CertifiedKey Cert SigningKey)
  deriving DecidableEq

namespace ReloadableCertResolver
variable {Cert PrivateKey SigningKey : Type}

def new (key : CertifiedKey Cert SigningKey) : ReloadableCertResolver Cert SigningKey := ⟨some key⟩

def reload (_ : ReloadableCertResolver Cert SigningKey) (key : CertifiedKey Cert SigningKey) :
    ReloadableCertResolver Cert SigningKey := ⟨some key⟩

def resolve (resolver : ReloadableCertResolver Cert SigningKey) :
    Option (CertifiedKey Cert SigningKey) := resolver.certifiedKey

/-- `try_reload_certs`: the answer, and the resolver afterwards. -/
def tryReloadCerts (resolver : ReloadableCertResolver Cert SigningKey)
    (parsers : Parsers Cert PrivateKey SigningKey) (disk : Disk) (certPath keyPath : Str) :
    Except IoError Unit × ReloadableCertResolver Cert SigningKey :=
  match loadCertifiedKey parsers disk certPath keyPath with
  | .ok key => (.ok (), resolver.reload key)
  | .error e => (.error e, resolver)

/-- A reload changes what is served unless it fails or reads what is served already. -/
theorem tryReloadCerts_eq_self {resolver : ReloadableCertResolver Cert SigningKey}
    {parsers : Parsers Cert PrivateKey SigningKey} {disk : Disk} {certPath keyPath : Str} :
    (resolver.tryReloadCerts parsers disk certPath keyPath).2 = resolver ↔
      ∀ key, loadCertifiedKey parsers disk certPath keyPath = .ok key →
        resolver.resolve = some key := by
  rw [tryReloadCerts]
  cases loaded : loadCertifiedKey parsers disk certPath keyPath with
  | error e => simp
  | ok key =>
    simp only [reload, Except.ok.injEq, forall_eq', resolve]
    constructor
    · intro same
      rw [← same]
    · intro served
      cases resolver
      exact congrArg mk served.symm

end ReloadableCertResolver

end TinyLb.Tls
