import TinyLb.Machine
import TinyLb.Tls
import Mathlib.Data.List.Basic

/-! Certificates that are renewed while they are served. `load_certified_key` reads the two files one
after the other, and either of them can be written in between. -/

namespace TinyLb.Renewal
open Tls Machine

section Reads
variable {Cert PrivateKey SigningKey : Type}

/-- The first half of `load_certified_key`. -/
def readCerts (parsers : Parsers Cert PrivateKey SigningKey) (disk : Disk) (certPath : Str) :
    Except IoError (List Cert) := do
  let certFile ← openFile disk "cert".toList certPath
  let certs ← (parsers.certs certFile).mapError fun e => invalidData ("bad cert PEM: ".toList ++ e)
  if certs.isEmpty then throw (invalidData "no certificates found in PEM file".toList)
  return certs

def readKey (parsers : Parsers Cert PrivateKey SigningKey) (disk : Disk) (keyPath : Str) :
    Except IoError SigningKey := do
  let keyFile ← openFile disk "key".toList keyPath
  let found ← (parsers.privateKey keyFile).mapError fun e => invalidData ("bad key PEM: ".toList ++ e)
  let key ← match found with
    | some key => pure key
    | none => throw (invalidData "no private key found in PEM file".toList)
  (parsers.anySupportedType key).mapError fun e => invalidData ("unsupported key type: ".toList ++ e)

variable {parsers : Parsers Cert PrivateKey SigningKey} {disk other : Disk} {certPath keyPath : Str}

theorem loadCertifiedKey_eq : loadCertifiedKey parsers disk certPath keyPath =
    (do
      let certs ← readCerts parsers disk certPath
      let key ← readKey parsers disk keyPath
      return ⟨certs, key⟩) := by
  unfold loadCertifiedKey readCerts
  cases openFile disk "cert".toList certPath with
  | error e => rfl
  | ok certFile =>
    cases parsed : parsers.certs certFile with
    | error e =>
      simp only [bind, Except.bind, parsed, Except.mapError]
    | ok certs =>
      cases empty : certs.isEmpty with
      | true =>
        simp only [bind, Except.bind, parsed, Except.mapError, empty]
        rfl
      | false =>
        simp only [bind, Except.bind, parsed, Except.mapError, empty]
        unfold readKey
        cases openFile disk "key".toList keyPath with
        | error e => rfl
        | ok keyFile =>
          simp only [bind, Except.bind]
          cases parsers.privateKey keyFile with
          | error e => rfl
          | ok found =>
            cases found with
            | none => rfl
            | some key =>
              cases parsers.anySupportedType key with
              | error e => rfl
              | ok signingKey => rfl

theorem load_of_reads {certs : List Cert} {key : SigningKey} (first : readCerts parsers disk certPath = .ok certs)
    (second : readKey parsers disk keyPath = .ok key) :
    loadCertifiedKey parsers disk certPath keyPath = .ok ⟨certs, key⟩ := by
  rw [loadCertifiedKey_eq, first, second]
  rfl

theorem readCerts_congr (same : disk certPath = other certPath) :
    readCerts parsers disk certPath = readCerts parsers other certPath := by
  unfold readCerts openFile
  rw [same]

theorem readKey_congr (same : disk keyPath = other keyPath) :
    readKey parsers disk keyPath = readKey parsers other keyPath := by
  unfold readKey openFile
  rw [same]

end Reads

/-- A reload that has read both files; `first` and `second` are the disk at the two reads. -/
structure Load (Cert SigningKey : Type) where
  certPath : Str
  keyPath : Str
  first : Disk
  second : Disk
  pair : CertifiedKey Cert SigningKey

/-- Where a reload stands. -/
inductive Loader (Cert SigningKey : Type) where
  | idle
  | started (certPath keyPath : Str)
  | certsRead (certPath keyPath : Str) (first : Disk) (certs : List Cert)
  | loaded (load : Load Cert SigningKey)

/-- `disks` is what the disk has held so far, and `loads` are the reloads that went through. -/
structure State (Cert SigningKey : Type) where
  disk : Disk
  resolver : ReloadableCertResolver Cert SigningKey
  loader : Loader Cert SigningKey
  disks : List Disk
  loads : List (Load Cert SigningKey)

inductive Action where
  | write (path : Str) (contents : Except IoError Bytes)
  | tryReload (certPath keyPath : Str)
  | readCerts
  | readKey
  | reload

section Machine
variable {Cert PrivateKey SigningKey : Type}

def State.start (disk : Disk) (pair : CertifiedKey Cert SigningKey) : State Cert SigningKey :=
  ⟨disk, .new pair, .idle, [disk], []⟩

def Disk.write (disk : Disk) (path : Str) (contents : Except IoError Bytes) : Disk :=
  fun other => if other = path then contents else disk other

/-- A file is written as a whole, or taken away. A read that fails ends the reload. -/
def step (parsers : Parsers Cert PrivateKey SigningKey) :
    Action → State Cert SigningKey → Option (State Cert SigningKey)
  | .write path contents, s =>
      let disk := Disk.write s.disk path contents
      some { s with disk := disk, disks := s.disks ++ [disk] }
  | .tryReload certPath keyPath, s =>
      match s.loader with
      | .idle => some { s with loader := .started certPath keyPath }
      | _ => none
  | .readCerts, s =>
      match s.loader with
      | .started certPath keyPath =>
          match Renewal.readCerts parsers s.disk certPath with
          | .ok certs => some { s with loader := .certsRead certPath keyPath s.disk certs }
          | .error _ => some { s with loader := .idle }
      | _ => none
  | .readKey, s =>
      match s.loader with
      | .certsRead certPath keyPath first certs =>
          match Renewal.readKey parsers s.disk keyPath with
          | .ok key => some { s with loader := .loaded ⟨certPath, keyPath, first, s.disk, ⟨certs, key⟩⟩ }
          | .error _ => some { s with loader := .idle }
      | _ => none
  | .reload, s =>
      match s.loader with
      | .loaded load => some { s with
          resolver := s.resolver.reload load.pair, loader := .idle, loads := s.loads ++ [load] }
      | _ => none

def Held (s : State Cert SigningKey) (first second : Disk) : Prop :=
  ∃ i j : Nat, i ≤ j ∧ s.disks[i]? = some first ∧ s.disks[j]? = some second

structure Read (parsers : Parsers Cert PrivateKey SigningKey) (s : State Cert SigningKey)
    (load : Load Cert SigningKey) : Prop where
  held : Held s load.first load.second
  certs : Renewal.readCerts parsers load.first load.certPath = .ok load.pair.cert
  key : Renewal.readKey parsers load.second load.keyPath = .ok load.pair.key

def latest (initial : CertifiedKey Cert SigningKey) (loads : List (Load Cert SigningKey)) :
    CertifiedKey Cert SigningKey :=
  match loads.getLast? with
  | none => initial
  | some load => load.pair

structure Traced (parsers : Parsers Cert PrivateKey SigningKey) (initial : CertifiedKey Cert SigningKey)
    (s : State Cert SigningKey) : Prop where
  disk : s.disks.getLast? = some s.disk
  certs : ∀ certPath keyPath first certs, s.loader = .certsRead certPath keyPath first certs →
    (∃ i : Nat, s.disks[i]? = some first) ∧ Renewal.readCerts parsers first certPath = .ok certs
  loaded : ∀ load, s.loader = .loaded load → Read parsers s load
  loads : ∀ load ∈ s.loads, Read parsers s load
  served : s.resolver.resolve = some (latest initial s.loads)

section Steps
variable {parsers : Parsers Cert PrivateKey SigningKey} {initial : CertifiedKey Cert SigningKey}
  {action : Action} {s t : State Cert SigningKey}

theorem held_now (traced : Traced parsers initial s) {i : Nat} {first : Disk} (found : s.disks[i]? = some first) :
    Held s first s.disk := by
  have last := traced.disk
  rw [List.getLast?_eq_getElem?] at last
  have inside := (List.getElem?_eq_some_iff.mp found).1
  exact ⟨i, s.disks.length - 1, by omega, found, last⟩

theorem Read.write {load : Load Cert SigningKey} {disk : Disk} (read : Read parsers s load)
    (disks : t.disks = s.disks ++ [disk]) : Read parsers t load := by
  obtain ⟨⟨i, j, order, first, second⟩, certs, key⟩ := read
  have keep : ∀ {k : Nat} {d : Disk}, s.disks[k]? = some d → t.disks[k]? = some d := by
    intro k d found
    rw [disks, List.getElem?_append_left (List.getElem?_eq_some_iff.mp found).1, found]
  exact ⟨⟨i, j, order, keep first, keep second⟩, certs, key⟩

theorem Read.same {load : Load Cert SigningKey} (read : Read parsers s load) (disks : t.disks = s.disks) :
    Read parsers t load := by
  obtain ⟨held, certs, key⟩ := read
  rw [Held, ← disks] at held
  exact ⟨held, certs, key⟩

theorem latest_concat (loads : List (Load Cert SigningKey)) (load : Load Cert SigningKey) :
    latest initial (loads ++ [load]) = load.pair := by
  rw [latest, List.getLast?_concat]

theorem Traced.move (traced : Traced parsers initial s) {loader : Loader Cert SigningKey}
    (idle : ∀ certPath keyPath first certs, loader ≠ .certsRead certPath keyPath first certs)
    (unread : ∀ load, loader ≠ .loaded load) : Traced parsers initial { s with loader := loader } where
  disk := traced.disk
  certs c k first certs here := absurd here (idle c k first certs)
  loaded load here := absurd here (unread load)
  loads load member := (traced.loads load member).same rfl
  served := traced.served

theorem step_traced (taken : step parsers action s = some t) (traced : Traced parsers initial s) :
    Traced parsers initial t := by
  cases action with
  | write path contents =>
    cases taken
    refine ⟨List.getLast?_concat .., fun c k first certs here => ?_, fun load here => ?_,
      fun load member => (traced.loads load member).write rfl, traced.served⟩
    · obtain ⟨⟨i, found⟩, read⟩ := traced.certs c k first certs here
      have inside := (List.getElem?_eq_some_iff.mp found).1
      exact ⟨⟨i, (List.getElem?_append_left inside).trans found⟩, read⟩
    · exact (traced.loaded load here).write rfl
  | tryReload c k =>
    simp only [step] at taken
    split at taken
    · cases taken
      exact traced.move (by simp) (by simp)
    · cases taken
  | readCerts =>
    simp only [step] at taken
    split at taken
    next c k here =>
      split at taken
      next certs read =>
        cases taken
        refine ⟨traced.disk, fun c' k' first certs' there => ?_, by simp, fun load member =>
          (traced.loads load member).same rfl, traced.served⟩
        cases there
        have last := traced.disk
        rw [List.getLast?_eq_getElem?] at last
        exact ⟨⟨_, last⟩, read⟩
      next =>
        cases taken
        exact traced.move (by simp) (by simp)
    next => cases taken
  | readKey =>
    simp only [step] at taken
    split at taken
    next c k first certs here =>
      obtain ⟨⟨i, found⟩, before⟩ := traced.certs c k first certs here
      split at taken
      next key read =>
        cases taken
        refine ⟨traced.disk, by simp, fun load there => ?_, fun load member =>
          (traced.loads load member).same rfl, traced.served⟩
        cases there
        exact ⟨held_now traced found, before, read⟩
      next =>
        cases taken
        exact traced.move (by simp) (by simp)
    next => cases taken
  | reload =>
    simp only [step] at taken
    split at taken
    next load here =>
      cases taken
      refine ⟨traced.disk, by simp, by simp, fun other member => ?_, ?_⟩
      · rcases List.mem_append.mp member with old | new
        · exact (traced.loads other old).same rfl
        · rw [List.mem_singleton.mp new]
          exact (traced.loaded load here).same rfl
      · rw [latest_concat]
        rfl
    next => cases taken

/-- A reload reads what the disk held at one moment, unless both files have changed between its reads. -/
theorem Read.together {load : Load Cert SigningKey} (read : Read parsers s load)
    (kept : load.first load.certPath = load.second load.certPath ∨
      load.first load.keyPath = load.second load.keyPath) :
    ∃ disk ∈ s.disks, loadCertifiedKey parsers disk load.certPath load.keyPath = .ok load.pair := by
  obtain ⟨⟨i, j, -, first, second⟩, certs, key⟩ := read
  rcases kept with same | same
  · rw [readCerts_congr same] at certs
    exact ⟨load.second, List.mem_of_getElem? second, load_of_reads certs key⟩
  · rw [← readKey_congr same] at key
    exact ⟨load.first, List.mem_of_getElem? first, load_of_reads certs key⟩

end Steps

/-- However reloads, writes to the files and handshakes are interleaved: the next handshake gets the pair
of the last reload that went through, or the first one; its certificates and its key are what the
disk held at two moments, in this order; and a pair that the disk never held at one moment is served only
where both files changed between the two reads. -/
theorem served_pair {parsers : Parsers Cert PrivateKey SigningKey} {disk : Disk}
    {initial : CertifiedKey Cert SigningKey} {actions : List Action} {s : State Cert SigningKey}
    (done : run (step parsers) actions (.start disk initial) = some s) :
    s.resolver.resolve = some (latest initial s.loads) ∧
    ∀ load ∈ s.loads, Read parsers s load ∧
      ((∀ disk ∈ s.disks, loadCertifiedKey parsers disk load.certPath load.keyPath ≠ .ok load.pair) →
        load.first load.certPath ≠ load.second load.certPath ∧
          load.first load.keyPath ≠ load.second load.keyPath) := by
  have start : Traced parsers initial (.start disk initial) := by
    refine ⟨rfl, ?_, ?_, ?_, rfl⟩ <;> simp [State.start]
  have traced := run_invariant (fun action s t traced taken => step_traced taken traced) start done
  refine ⟨traced.served, fun load member => ⟨traced.loads load member, fun never => ?_⟩⟩
  have together := (traced.loads load member).together
  refine ⟨fun same => ?_, fun same => ?_⟩
  · obtain ⟨found, listed, loaded⟩ := together (Or.inl same)
    exact never found listed loaded
  · obtain ⟨found, listed, loaded⟩ := together (Or.inr same)
    exact never found listed loaded

def plainPem : Parsers Bytes Bytes Bytes := ⟨fun text => .ok [text], fun text => .ok (some text), .ok⟩

/-- Both files are renewed between the reads, and the old certificate is served with the new key. -/
theorem served_pair_torn : ∃ (s : State Bytes Bytes) (load : Load Bytes Bytes),
    Reachable (step plainPem) (.start (fun _ => .ok [1]) ⟨[[1]], [1]⟩) s ∧ s.loads = [load] ∧
      s.resolver.resolve = some ⟨[[1]], [2]⟩ ∧ Read plainPem s load ∧
      load.first ['c'] ≠ load.second ['c'] ∧ load.first ['k'] ≠ load.second ['k'] := by
  let trace : List Action := [.tryReload ['c'] ['k'], .readCerts, .write ['c'] (.ok [2]),
    .write ['k'] (.ok [2]), .readKey, .reload]
  let before : Disk := fun _ => .ok [1]
  let between : Disk := Disk.write before ['c'] (.ok [2])
  let after : Disk := Disk.write between ['k'] (.ok [2])
  let load : Load Bytes Bytes := ⟨['c'], ['k'], before, after, ⟨[[1]], [2]⟩⟩
  have done : run (step plainPem) trace (.start before ⟨[[1]], [1]⟩) =
      some ⟨after, ⟨some ⟨[[1]], [2]⟩⟩, .idle, [before, between, after], [load]⟩ := rfl
  obtain ⟨served, reads⟩ := served_pair done
  obtain ⟨read, changed⟩ := reads load (List.mem_singleton.mpr rfl)
  refine ⟨_, load, ⟨trace, done⟩, rfl, served, read, changed ?_⟩
  intro disk listed
  simp only [List.mem_cons, List.not_mem_nil, or_false] at listed
  rcases listed with rfl | rfl | rfl <;> intro same <;> cases same

section Undisturbed
variable {parsers : Parsers Cert PrivateKey SigningKey} {s : State Cert SigningKey} {certPath keyPath : Str}

/-- Without a write in between the steps are one call of `try_reload_certs`. -/
theorem undisturbed_reload (idle : s.loader = .idle) : ∃ actions t,
    run (step parsers) (.tryReload certPath keyPath :: actions) s = some t ∧ t.loader = .idle ∧
      t.disk = s.disk ∧ t.resolver = (s.resolver.tryReloadCerts parsers s.disk certPath keyPath).2 := by
  have started : step parsers (.tryReload certPath keyPath) s =
      some { s with loader := .started certPath keyPath } := by
    simp only [step, idle]
  rw [ReloadableCertResolver.tryReloadCerts, loadCertifiedKey_eq]
  cases first : readCerts parsers s.disk certPath with
  | error e =>
    have ended : step parsers .readCerts { s with loader := .started certPath keyPath } =
        some { s with loader := .idle } := by
      simp only [step, first]
    exact ⟨[.readCerts], _, run_cons_some.mpr ⟨_, started, run_single.mpr ended⟩, rfl, rfl, rfl⟩
  | ok certs =>
    have read : step parsers .readCerts { s with loader := .started certPath keyPath } =
        some { s with loader := .certsRead certPath keyPath s.disk certs } := by
      simp only [step, first]
    cases second : readKey parsers s.disk keyPath with
    | error e =>
      have ended : step parsers .readKey { s with loader := .certsRead certPath keyPath s.disk certs } =
          some { s with loader := .idle } := by
        simp only [step, second]
      have rest := run_cons_some.mpr ⟨_, read, run_single.mpr ended⟩
      exact ⟨[.readCerts, .readKey], _, run_cons_some.mpr ⟨_, started, rest⟩, rfl, rfl, rfl⟩
    | ok key =>
      let load : Load Cert SigningKey := ⟨certPath, keyPath, s.disk, s.disk, ⟨certs, key⟩⟩
      have loaded : step parsers .readKey { s with loader := .certsRead certPath keyPath s.disk certs } =
          some { s with loader := .loaded load } := by
        simp only [step, second]
        rfl
      have stored : step parsers .reload { s with loader := .loaded load } = some { s with
          resolver := s.resolver.reload load.pair, loader := .idle, loads := s.loads ++ [load] } := by
        simp only [step]
      have rest := run_cons_some.mpr ⟨_, read, run_cons_some.mpr ⟨_, loaded, run_single.mpr stored⟩⟩
      exact ⟨[.readCerts, .readKey, .reload], _, run_cons_some.mpr ⟨_, started, rest⟩, rfl, rfl, rfl⟩

end Undisturbed

end Machine

end TinyLb.Renewal
