import TinyLb.BackendUrls
import TinyLb.Handshake
import TinyLb.HopByHop
import TinyLb.Machine

/-! Requests that go through several of these proxies, one behind the other: each has the next one as
its backend. -/

namespace TinyLb.Chains
open Text Http Forwarding Upgrade Handshake HopByHop Machine

/-- A proxy on the way, with the URL of the backend it has selected and the peer it was called by. -/
structure Hop where
  url : Str
  peer : Str
  deriving DecidableEq, Repr

/-- The fields that the libraries set to say how long a message is. -/
def framing : List Str := ["content-length".toList, "transfer-encoding".toList]

/-- What arrives of a request that has been sent: its path and query, and its headers as the libraries
frame them. -/
def receive (lib : Libraries) (frame : HeaderMap → HeaderMap) : Attempt → Option Incoming
  | .sent sent => (lib.parseUri sent.uri).map fun uri => ⟨⟨none, none, uri.pathAndQuery⟩, frame sent.headers⟩
  | .refused _ | .panicked => none

def Trimmed (value : HeaderValue) : Prop := ListFields.trim ListFields.isOws value = value

instance (value : HeaderValue) : Decidable (Trimmed value) := inferInstanceAs (Decidable (_ = _))

def Address (peer : Str) : Prop := peer ≠ [] ∧ peer.all (fun c => '!' ≤ c && c ≤ '~') = true

/-- What the libraries promise: a URI that has been read has the path and query of its text, and there are no
blanks around its authority; a handshake asks for an upgrade; and of a message that is sent the values
arrive, unless they are about framing or have blanks around them, and no value arrives with such. -/
structure Laws (lib : Libraries) (frame : HeaderMap → HeaderMap) : Prop where
  target : ∀ {scheme path : Str} {authority : Authority} {uri : Uri}, ':' ∉ scheme → path.head? = some '/' →
    '#' ∉ path → lib.parseUri (formatUri scheme authority.text path) = some uri → uri.target = path
  server : ∀ {text : Str} {uri : Uri} {authority : Authority}, lib.parseUri text = some uri →
    uri.authority = some authority → Trimmed authority.text
  handshake : ∀ {url : Str} {headers : HeaderMap}, lib.intoClientRequest url = some headers →
    headers.getAll upgrade = [websocket] ∧ headers.getAll connection = ["Upgrade".toList] ∧
      ∀ name, ∀ value ∈ headers.getAll name, Trimmed value
  framed : ∀ (headers : HeaderMap) {name : Str}, name ∉ framing →
    (∀ value ∈ headers.getAll name, Trimmed value) → (frame headers).getAll name = headers.getAll name
  trimmed : ∀ (headers : HeaderMap) (name : Str), ∀ value ∈ (frame headers).getAll name, Trimmed value

/-- The target and the values of the request are ones that stay as they are on the way. -/
structure Plain (request : Incoming) : Prop where
  slash : request.uri.target.head? = some '/'
  whole : '#' ∉ request.uri.target
  values : ∀ name, ∀ value ∈ request.headers.getAll name, Trimmed value

def hostRead (headers : HeaderMap) : Str := (firstReadable headers host).getD []

def authorityText (lib : Libraries) (url : Str) : Str :=
  (((lib.parseUri url).bind Uri.authority).map Authority.text).getD []

/-- The Host that the last proxy reads: the client's, or what the proxy before has set. -/
def lastHost (lib : Libraries) (request : Incoming) (hops : List Hop) : Str :=
  match hops.getLast? with
  | some prior => authorityText lib prior.url
  | none => hostRead request.headers

def joined : List Str → Option Str
  | [] => none
  | lines => some (List.intercalate ", ".toList lines)

section Fields
variable {headers sent : HeaderMap} {authority : Authority} {peer name value : Str}

theorem appendPeer_joined (lines : List Str) (peer : Str) : appendPeer (joined lines) peer = chain lines peer := by
  induction lines with
  | nil => rw [joined, appendPeer, chain_nil]
  | cons line rest ih =>
    rw [chain_cons, ← ih]
    cases rest with
    | nil => simp [joined, appendPeer, List.intercalate]
    | cons second rest => simp [joined, appendPeer, List.intercalate]

theorem Address.readable (address : Address peer) : peer.all Http.readable = true := by
  rw [List.all_eq_true]
  intro c member
  have visible := List.all_eq_true.mp address.2 c member
  simp only [Bool.and_eq_true, decide_eq_true_eq] at visible
  have above : ' ' ≤ c := UInt32.le_trans (by decide) visible.1
  simp [Http.readable, above, visible.2]

end Fields

section Hops
variable {lib : Libraries} {frame : HeaderMap → HeaderMap} {hop : Hop} {hops : List Hop}
  {request mid next last : Incoming}

theorem Laws.one (laws : Laws lib frame) {headers : HeaderMap} {name value : Str}
    (one : headers.getAll name = [value]) (other : name ∉ framing) (fine : Trimmed value) :
    (frame headers).getAll name = [value] := by
  rw [laws.framed headers other, one]
  intro v member
  rw [one, List.mem_singleton] at member
  rw [member]
  exact fine

structure Relayed (lib : Libraries) (request : Incoming) (hops : List Hop) (last : Incoming) : Prop where
  plain : Plain last
  target : last.uri.target = request.uri.target
  kind : isWebsocketUpgrade last.headers = isWebsocketUpgrade request.headers
  peers : firstReadable last.headers xForwardedFor =
    joined ((firstReadable request.headers xForwardedFor).toList ++ hops.map Hop.peer)
  host : isWebsocketUpgrade request.headers = false → hostRead last.headers = lastHost lib request hops
  fields : isWebsocketUpgrade request.headers = false → ∀ name, name ∉ ownFields → name ∉ framing →
    name ∉ hopByHop → last.headers.getAll name = request.headers.getAll name

theorem Relayed.append (relayed : Relayed lib request hops mid) (peer : Str) :
    appendPeer (firstReadable mid.headers xForwardedFor) peer =
      chain ((firstReadable request.headers xForwardedFor).toList ++ hops.map Hop.peer) peer := by
  rw [relayed.peers, appendPeer_joined]

end Hops

section Example
open BackendUrls

def asking : Incoming :=
  ⟨⟨none, none, some ⟨"/chat?q=1".toList, by decide⟩⟩,
    ⟨[(host, "a".toList), (xForwardedFor, "9.9.9.9".toList), ("cookie".toList, "k".toList)]⟩⟩

def upgrading : Incoming :=
  { asking with headers := ⟨asking.headers.entries ++ [(connection, "Upgrade".toList), (upgrade, websocket)]⟩ }

end Example

end TinyLb.Chains
