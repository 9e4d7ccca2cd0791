import TinyLb.AcceptKey
import TinyLb.Upgrade

/-! The two handshakes of a WebSocket session: the answer of `handle_request` to the client, and the
request of `proxy_websocket` to the backend. -/

namespace TinyLb.Handshake
open Text Http Forwarding Upgrade AcceptKey ListFields

def secWebsocketKey : Str := "sec-websocket-key".toList

def secWebsocketAccept : Str := "sec-websocket-accept".toList

def secWebsocketProtocol : Str := "sec-websocket-protocol".toList

/-- The headers of the response with status 101. -/
def switchingHeaders (headers : HeaderMap) : HeaderMap :=
  let key := (firstReadable headers secWebsocketKey).getD []
  let fields := [(upgrade, websocket), (connection, "Upgrade".toList),
    (secWebsocketAccept, computeAcceptKey key)]
  match headers.get secWebsocketProtocol with
  | some protocol => ⟨fields ++ [(secWebsocketProtocol, protocol)]⟩
  | none => ⟨fields⟩

/-- What becomes of a request once it has a backend. -/
inductive Handled where
  | switching (response : HeaderMap) (dial : Attempt)
  | proxied (attempt : Attempt)
  deriving DecidableEq, Repr

/-- The end of `handle_request`. -/
def handleRequest (lib : Libraries) (url : Str) (request : Incoming) (peer : Str) : Handled :=
  if isWebsocketUpgrade request.headers then
    .switching (switchingHeaders request.headers) (upgradeBranch lib url request peer)
  else .proxied (proxyHttp lib url request peer)

/-- The subprotocols that a handshake offers. -/
def offer (headers : HeaderMap) : List Str := members (headers.getAll secWebsocketProtocol)

/-- A subprotocol in the response is one that the client has offered, and the backend has been offered
it as well. -/
def SameSubprotocol (request : Incoming) (response : HeaderMap) (dial : Attempt) : Prop :=
  ∀ protocol ∈ response.getAll secWebsocketProtocol, protocol ∈ offer request.headers ∧
    ∀ sent, dial = .sent sent → protocol ∈ offer sent.headers

/-- What the library promises about the handshake it makes of a URL: it offers no subprotocol. -/
def OffersNone (lib : Libraries) : Prop :=
  ∀ url handshake, lib.intoClientRequest url = some handshake →
    handshake.getAll secWebsocketProtocol = []

def Undialable (lib : Libraries) (url : Str) (request : Incoming) : Prop :=
  ∀ backend authority, lib.parseUri url = some backend → backend.authority = some authority →
    lib.intoClientRequest (backendUrl backend authority request.uri.target) = none

section Subprotocols
variable {lib : Libraries} {url peer : Str} {request : Incoming} {response : HeaderMap} {dial : Attempt}

theorem getAll_switchingHeaders (headers : HeaderMap) :
    (switchingHeaders headers).getAll secWebsocketProtocol =
      (headers.get secWebsocketProtocol).toList := by
  unfold switchingHeaders
  cases headers.get secWebsocketProtocol <;> rfl

theorem undialable_iff (peer : Str) : Undialable lib url request ↔
    ∀ sent, upgradeBranch lib url request peer ≠ .sent sent := by
  constructor
  · intro undialable sent dialled
    obtain ⟨backend, authority, handshake, parsed, known, made, -⟩ := upgradeBranch_sent dialled
    rw [undialable backend authority parsed known] at made
    cases made
  · intro unsent backend authority parsed known
    cases made : lib.intoClientRequest (backendUrl backend authority request.uri.target) with
    | none => rfl
    | some handshake =>
      have dialled : ∃ sent, upgradeBranch lib url request peer = .sent sent := by
        simp only [upgradeBranch, proxyWebsocket, parsed, known, made]
        exact ⟨_, rfl⟩
      obtain ⟨sent, dialled⟩ := dialled
      exact absurd dialled (unsent sent)

theorem offer_sent {sent : Outgoing} (bare : OffersNone lib)
    (dialled : upgradeBranch lib url request peer = .sent sent) : offer sent.headers = [] := by
  obtain ⟨_, _, handshake, -, -, made, rfl⟩ := upgradeBranch_sent dialled
  rw [offer, HeaderMap.getAll_insert_of_ne _ _ (by decide), bare _ _ made]
  rfl

/-- The two handshakes agree exactly if the client offers nothing, or one subprotocol in its first line
and the backend cannot be dialled. -/
theorem same_subprotocol_iff (bare : OffersNone lib)
    (handled : handleRequest lib url request peer = .switching response dial) :
    SameSubprotocol request response dial ↔
      request.headers.getAll secWebsocketProtocol = [] ∨
        (∃ line, request.headers.get secWebsocketProtocol = some line ∧ IsElement line) ∧
          Undialable lib url request := by
  unfold handleRequest at handled
  split at handled
  next =>
    cases handled
    rw [SameSubprotocol, getAll_switchingHeaders, HeaderMap.get]
    cases lines : request.headers.getAll secWebsocketProtocol with
    | nil => exact iff_of_true (fun _ none => absurd none List.not_mem_nil) (Or.inl rfl)
    | cons line rest =>
      simp only [List.head?_cons, Option.toList_some, List.mem_singleton, forall_eq, reduceCtorEq,
        false_or, Option.some.injEq, exists_eq_left']
      constructor
      · rintro ⟨offered, agreed⟩
        obtain ⟨value, -, inside⟩ := List.mem_flatMap.mp offered
        refine ⟨isElement_of_mem inside, (undialable_iff peer).mpr fun sent dialled => ?_⟩
        have there := agreed sent dialled
        rw [offer_sent bare dialled] at there
        cases there
      · rintro ⟨element, undialable⟩
        refine ⟨?_, fun sent dialled => ?_⟩
        · rw [offer, lines, members, List.flatMap_cons, elements_element element]
          exact List.mem_append_left _ (List.mem_singleton.mpr rfl)
        · exact absurd dialled ((undialable_iff peer).mp undialable sent)
  next => cases handled

theorem onlyBackend_offersNone : OffersNone onlyBackend := by
  intro url handshake made
  cases made
  rfl

def upgrading (entries : List (Str × HeaderValue)) : Incoming :=
  ⟨⟨none, none, some root⟩,
    ⟨(upgrade, websocket) :: (connection, "keep-alive, Upgrade".toList) :: entries⟩⟩

theorem same_subprotocol_iff_none : ∃ response dial,
    handleRequest onlyBackend "http://b:80".toList (upgrading []) "1.1.1.1:9".toList =
      .switching response dial ∧ SameSubprotocol (upgrading []) response dial := by
  have upgrades : isWebsocketUpgrade (upgrading []).headers = true := by decide
  have handled : handleRequest onlyBackend "http://b:80".toList (upgrading []) "1.1.1.1:9".toList = _ :=
    if_pos upgrades
  exact ⟨_, _, handled, (same_subprotocol_iff onlyBackend_offersNone handled).mpr (Or.inl rfl)⟩

/-- The whole offer comes back to the client, and the backend gets none of it. -/
theorem same_subprotocol_two : ¬ ∀ lib url request peer response dial, OffersNone lib →
    handleRequest lib url request peer = .switching response dial →
    SameSubprotocol request response dial := by
  intro claimed
  let request := upgrading [(secWebsocketProtocol, "chat, superchat".toList)]
  have upgrades : isWebsocketUpgrade request.headers = true := by decide
  have handled : handleRequest onlyBackend "http://b:80".toList request "1.1.1.1:9".toList = _ :=
    if_pos upgrades
  have same := claimed _ _ _ _ _ _ onlyBackend_offersNone handled
  have offered := (same "chat, superchat".toList (by rw [getAll_switchingHeaders]; decide)).1
  exact absurd offered (by decide)

end Subprotocols

end TinyLb.Handshake
