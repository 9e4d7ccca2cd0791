import TinyLb.Http

/-! What `proxy_http` and `proxy_websocket` send to a backend: the URI they dial and the headers
of the request. -/

namespace TinyLb.Forwarding
open Http

/-- The calls into other libraries: the parser of URIs, and the handshake headers for a URL. -/
structure Libraries where
  parseUri : Str → Option Uri
  intoClientRequest : Str → Option HeaderMap

structure Incoming where
  uri : Uri
  headers : HeaderMap
  deriving DecidableEq, Repr

structure Outgoing where
  uri : Str
  headers : HeaderMap
  deriving DecidableEq, Repr

inductive ProxyError where
  | invalidBackendUrl
  | noAuthority
  | badBackendRequest
  deriving DecidableEq, Repr

/-- What has happened when the backend is about to be called; `panicked` is a failed `unwrap`. -/
inductive Attempt where
  | sent (request : Outgoing)
  | refused (error : ProxyError)
  | panicked
  deriving DecidableEq, Repr

/-- The headers that `proxy_http` does not forward. -/
def hopByHop : List Str :=
  ["connection".toList, "keep-alive".toList, "proxy-authenticate".toList, "proxy-authorization".toList,
    "te".toList, "trailers".toList, "transfer-encoding".toList, "upgrade".toList]

def xForwardedFor : Str := "x-forwarded-for".toList

def xForwardedHost : Str := "x-forwarded-host".toList

def xForwardedProto : Str := "x-forwarded-proto".toList

def host : Str := "host".toList

def newUri (backend : Uri) (authority : Authority) (request : Uri) : Str :=
  let scheme := match backend.scheme with
    | some scheme => scheme.text
    | none => "http".toList
  formatUri scheme authority.text request.target

def wsScheme (backend : Uri) : Str :=
  match backend.scheme with
  | some scheme =>
      if scheme.text = "https".toList ∨ scheme.text = "wss".toList then "wss".toList else "ws".toList
  | none => "ws".toList

/-- The URL that `proxy_websocket` dials. -/
def backendUrl (backend : Uri) (authority : Authority) (pathAndQuery : Str) : Str :=
  formatUri (wsScheme backend) authority.text pathAndQuery

def firstReadable (headers : HeaderMap) (name : Str) : Option Str := (headers.get name).bind toStr

/-- The `format!` of both paths. -/
def appendPeer (existing : Option Str) (peer : Str) : Str :=
  match existing with
  | some existing => existing ++ ", ".toList ++ peer
  | none => peer

/-- The headers of a forwarded request; `none` where an `unwrap` fails. -/
def forwardedHeaders (authority : Authority) (headers : HeaderMap) (peer : Str) : Option HeaderMap :=
  let hostValue := (firstReadable headers host).getD []
  let kept := hopByHop.foldl HeaderMap.remove headers
  match parseValue (appendPeer (firstReadable headers xForwardedFor) peer), parseValue authority.text with
  | some xff, some authority =>
      some ((((kept.insert xForwardedFor xff).insert xForwardedHost ((parseValue hostValue).getD [])).insert
        xForwardedProto "https".toList).insert host authority)
  | _, _ => none

/-- `proxy_http` up to `client.request`. -/
def proxyHttp (lib : Libraries) (url : Str) (request : Incoming) (peer : Str) : Attempt :=
  match lib.parseUri url with
  | none => .refused .invalidBackendUrl
  | some backend =>
      match backend.authority with
      | none => .refused .noAuthority
      | some authority =>
          let uri := newUri backend authority request.uri
          match lib.parseUri uri, forwardedHeaders authority request.headers peer with
          | some _, some headers => .sent ⟨uri, headers⟩
          | _, _ => .panicked

/-- `proxy_websocket` up to `connect_async`. -/
def proxyWebsocket (lib : Libraries) (url clientIp : Str) (existingXff : Option Str)
    (pathAndQuery : Str) : Attempt :=
  match lib.parseUri url with
  | none => .refused .invalidBackendUrl
  | some backend =>
      match backend.authority with
      | none => .refused .noAuthority
      | some authority =>
          let target := backendUrl backend authority pathAndQuery
          match lib.intoClientRequest target with
          | none => .refused .badBackendRequest
          | some handshake =>
              let value := (parseValue (appendPeer existingXff clientIp)).getD "unknown".toList
              .sent ⟨target, handshake.insert xForwardedFor value⟩

/-- The upgrade branch of `handle_request`, once the client has been upgraded. -/
def upgradeBranch (lib : Libraries) (url : Str) (request : Incoming) (peer : Str) : Attempt :=
  proxyWebsocket lib url peer (firstReadable request.headers xForwardedFor) request.uri.target

section Sent
variable {lib : Libraries} {url peer : Str} {request : Incoming} {sent : Outgoing}

theorem proxyHttp_sent (forwarded : proxyHttp lib url request peer = .sent sent) :
    ∃ backend authority headers, lib.parseUri url = some backend ∧ backend.authority = some authority ∧
      forwardedHeaders authority request.headers peer = some headers ∧
      sent = ⟨newUri backend authority request.uri, headers⟩ := by
  unfold proxyHttp at forwarded
  split at forwarded
  next => cases forwarded
  next backend parsed =>
    split at forwarded
    next => cases forwarded
    next authority known =>
      simp only at forwarded
      split at forwarded
      next headers _ built =>
        exact ⟨backend, authority, headers, parsed, known, built, (Attempt.sent.inj forwarded).symm⟩
      next => cases forwarded

theorem upgradeBranch_sent (dialled : upgradeBranch lib url request peer = .sent sent) :
    ∃ backend authority handshake, lib.parseUri url = some backend ∧ backend.authority = some authority ∧
      lib.intoClientRequest (backendUrl backend authority request.uri.target) = some handshake ∧
      sent = ⟨backendUrl backend authority request.uri.target, handshake.insert xForwardedFor
        ((parseValue (appendPeer (firstReadable request.headers xForwardedFor) peer)).getD
          "unknown".toList)⟩ := by
  unfold upgradeBranch proxyWebsocket at dialled
  split at dialled
  next => cases dialled
  next backend parsed =>
    split at dialled
    next => cases dialled
    next authority known =>
      simp only at dialled
      split at dialled
      next => cases dialled
      next handshake made =>
        exact ⟨backend, authority, handshake, parsed, known, made, (Attempt.sent.inj dialled).symm⟩

end Sent

section Target
variable {backend request : Uri} {authority : Authority}

/-- The URI names the configured server and asks it for what the request asks for. -/
structure Keeps (authority : Authority) (request : Uri) (uri : Str) : Prop where
  server : authorityPart uri = authority.text
  target : targetPart uri = request.target

theorem target_head (origin : request.pathAndQuery ≠ some .asterisk) :
    ∃ c, request.target.head? = some c ∧ inAuthority c = false := by
  unfold Uri.target
  split
  next pathAndQuery here =>
    rcases pathAndQuery.form with asterisk | slash | question
    · have same : pathAndQuery = .asterisk := by
        cases pathAndQuery
        cases asterisk
        rfl
      exact absurd (same ▸ here) origin
    · exact ⟨'/', slash, by decide⟩
    · exact ⟨'?', question, by decide⟩
  next => exact ⟨'/', rfl, by decide⟩

theorem authorityPart_iff {scheme : Str} (plain : ':' ∉ scheme) :
    authorityPart (formatUri scheme authority.text request.target) = authority.text ↔
      request.pathAndQuery ≠ some .asterisk := by
  constructor
  · intro server asterisk
    have target : request.target = ['*'] := by rw [Uri.target, asterisk]; rfl
    rw [target, authorityPart_format plain authority (by decide)] at server
    have lengths := congrArg List.length server
    rw [List.length_append, List.length_singleton] at lengths
    omega
  · intro origin
    obtain ⟨c, first, ends⟩ := target_head origin
    exact (parts_format plain authority first ends).1

theorem format_keeps_iff {scheme : Str} (plain : ':' ∉ scheme) :
    Keeps authority request (formatUri scheme authority.text request.target) ↔
      request.pathAndQuery ≠ some .asterisk := by
  constructor
  · exact fun keeps => (authorityPart_iff plain).mp keeps.server
  · intro origin
    obtain ⟨c, first, ends⟩ := target_head origin
    obtain ⟨server, target⟩ := parts_format plain authority first ends
    exact ⟨server, target⟩

theorem wsScheme_plain (backend : Uri) : ':' ∉ wsScheme backend := by
  unfold wsScheme
  split
  · split <;> decide
  · decide

/-- Both paths dial the configured server for every request but those with an asterisk target. -/
theorem dialled_authority_iff (backend : Uri) (authority : Authority) (request : Uri) :
    (Keeps authority request (newUri backend authority request) ↔
        request.pathAndQuery ≠ some .asterisk) ∧
      (Keeps authority request (backendUrl backend authority request.target) ↔
        request.pathAndQuery ≠ some .asterisk) := by
  refine ⟨?_, format_keeps_iff (wsScheme_plain backend)⟩
  refine format_keeps_iff ?_
  split
  next scheme _ => exact scheme.plain
  next => decide

/-- `OPTIONS *` for the backend `http://b:80` goes to the authority `b:80*`. -/
theorem dialled_authority_asterisk : ¬ ∀ backend authority request, backend.authority = some authority →
    Keeps authority request (newUri backend authority request) ∧
      Keeps authority request (backendUrl backend authority request.target) := by
  intro claimed
  let authority : Authority := ⟨"b:80".toList, by decide, by decide⟩
  have keeps := claimed ⟨some ⟨"http".toList, by decide⟩, some authority, none⟩ authority
    ⟨none, none, some .asterisk⟩ rfl
  exact absurd keeps.1.server (by decide)

end Target

section ForwardedFor
variable {lib : Libraries} {url peer : Str} {request : Incoming} {sent : Outgoing}

def chain (lines : List Str) (peer : Str) : Str := List.intercalate ", ".toList (lines ++ [peer])

theorem chain_nil (peer : Str) : chain [] peer = peer := by simp [chain, List.intercalate]

theorem chain_cons (line : Str) (lines : List Str) (peer : Str) :
    chain (line :: lines) peer = line ++ ", ".toList ++ chain lines peer := by
  cases lines <;> simp [chain, List.intercalate]

theorem length_chain (lines : List Str) (peer : Str) : peer.length ≤ (chain lines peer).length := by
  induction lines with
  | nil => rw [chain_nil]
  | cons line rest ih =>
    rw [chain_cons, List.length_append]
    omega

theorem toStr_readable {value : Str} (ascii : value.all readable = true) : toStr value = some value :=
  if_pos ascii

theorem parseValue_readable {text : Str} (ascii : text.all readable = true) :
    parseValue text = some text :=
  if_pos ascii

theorem appendPeer_eq_chain_iff {lines : List Str} (ascii : ∀ line ∈ lines, line.all readable = true)
    (peer : Str) : appendPeer (lines.head?.bind toStr) peer = chain lines peer ↔ lines.length ≤ 1 := by
  match lines with
  | [] => simp [appendPeer, chain_nil]
  | [line] =>
    have first := toStr_readable (ascii line (List.mem_cons_self ..))
    simp [appendPeer, chain_cons, chain_nil, first]
  | line :: second :: rest =>
    have first := toStr_readable (ascii line (List.mem_cons_self ..))
    rw [List.head?_cons, Option.bind_some, first, chain_cons, chain_cons]
    refine ⟨fun same => ?_, fun short => absurd short (by simp)⟩
    have lengths := congrArg List.length same
    have longer := length_chain rest peer
    simp only [appendPeer, List.length_append] at lengths
    have comma : ", ".toList.length = 2 := by decide
    omega

theorem appendPeer_readable {existing : Option Str} (ascii : peer.all readable = true)
    (before : ∀ text, existing = some text → text.all readable = true) :
    (appendPeer existing peer).all readable = true := by
  unfold appendPeer
  split
  next text =>
    rw [List.all_append, List.all_append, before text rfl, ascii]
    decide
  next => exact ascii

theorem firstReadable_readable {headers : HeaderMap} {name text : Str}
    (found : firstReadable headers name = some text) : text.all readable = true := by
  obtain ⟨value, -, read⟩ := Option.bind_eq_some_iff.mp found
  unfold toStr at read
  split at read
  next ascii =>
    cases read
    exact ascii
  next => cases read

theorem parse_appendPeer (ascii : peer.all readable = true) (headers : HeaderMap) :
    parseValue (appendPeer (firstReadable headers xForwardedFor) peer) =
      some (appendPeer (firstReadable headers xForwardedFor) peer) :=
  parseValue_readable (appendPeer_readable ascii fun _ found => firstReadable_readable found)

theorem forwardedHeaders_xff {authority : Authority} {headers forwarded : HeaderMap}
    (ascii : peer.all readable = true)
    (built : forwardedHeaders authority headers peer = some forwarded) :
    forwarded.getAll xForwardedFor = [appendPeer (firstReadable headers xForwardedFor) peer] := by
  unfold forwardedHeaders at built
  simp only [parse_appendPeer ascii, parseValue_readable authority.ascii, Option.some.injEq] at built
  rw [← built, HeaderMap.getAll_insert_of_ne _ _ (by decide),
    HeaderMap.getAll_insert_of_ne _ _ (by decide), HeaderMap.getAll_insert_of_ne _ _ (by decide),
    HeaderMap.getAll_insert_self]

theorem proxyHttp_xff (ascii : peer.all readable = true)
    (forwarded : proxyHttp lib url request peer = .sent sent) :
    sent.headers.getAll xForwardedFor = [appendPeer (firstReadable request.headers xForwardedFor) peer] := by
  obtain ⟨-, authority, headers, -, -, built, rfl⟩ := proxyHttp_sent forwarded
  exact forwardedHeaders_xff ascii built

theorem upgradeBranch_xff (ascii : peer.all readable = true)
    (dialled : upgradeBranch lib url request peer = .sent sent) :
    sent.headers.getAll xForwardedFor = [appendPeer (firstReadable request.headers xForwardedFor) peer] := by
  obtain ⟨-, -, handshake, -, -, -, rfl⟩ := upgradeBranch_sent dialled
  rw [parse_appendPeer ascii]
  exact HeaderMap.getAll_insert_self ..

/-- What both paths send is the same, and it is the whole chain exactly for requests with at most
one line. -/
theorem forwarded_for_chain_iff (lib : Libraries) (url : Str) {peer : Str} {request : Incoming}
    (ascii : peer.all readable = true)
    (lines : ∀ line ∈ request.headers.getAll xForwardedFor, line.all readable = true) :
    (∀ sent, proxyHttp lib url request peer = .sent sent →
      (sent.headers.getAll xForwardedFor = [chain (request.headers.getAll xForwardedFor) peer] ↔
        (request.headers.getAll xForwardedFor).length ≤ 1)) ∧
    (∀ dialled, upgradeBranch lib url request peer = .sent dialled →
      (dialled.headers.getAll xForwardedFor = [chain (request.headers.getAll xForwardedFor) peer] ↔
        (request.headers.getAll xForwardedFor).length ≤ 1)) ∧
    ∀ sent dialled, proxyHttp lib url request peer = .sent sent →
      upgradeBranch lib url request peer = .sent dialled →
      sent.headers.getAll xForwardedFor = dialled.headers.getAll xForwardedFor := by
  refine ⟨fun sent forwarded => ?_, fun dialled upgraded => ?_, fun sent dialled forwarded upgraded => ?_⟩
  · rw [proxyHttp_xff ascii forwarded, List.cons.injEq, and_iff_left rfl]
    exact appendPeer_eq_chain_iff lines peer
  · rw [upgradeBranch_xff ascii upgraded, List.cons.injEq, and_iff_left rfl]
    exact appendPeer_eq_chain_iff lines peer
  · rw [proxyHttp_xff ascii forwarded, upgradeBranch_xff ascii upgraded]

def onlyBackend : Libraries where
  parseUri text :=
    match Text.stripPrefix "http://b:80".toList text with
    | none => none
    | some path =>
        let known (path : PathAndQuery) : Uri :=
          ⟨some ⟨"http".toList, by decide⟩, some ⟨"b:80".toList, by decide, by decide⟩, some path⟩
        if slash : path.head? = some '/' then some (known ⟨path, Or.inr (Or.inl slash)⟩)
        else if path = [] then some (known ⟨['/'], by decide⟩)
        else none
  intoClientRequest _ := some ⟨[(host, "b:80".toList)]⟩

def atB : Authority := ⟨"b:80".toList, by decide, by decide⟩

def root : PathAndQuery := ⟨['/'], origin_form rfl⟩

def relayed (lines : List Str) : Incoming :=
  ⟨⟨none, none, some ⟨['/'], by decide⟩⟩, ⟨lines.map fun line => (xForwardedFor, line)⟩⟩

theorem forwarded_for_chain_one : ∃ sent dialled,
    proxyHttp onlyBackend "http://b:80".toList (relayed ["1.1.1.1".toList]) "2.2.2.2:9".toList =
      .sent sent ∧
    upgradeBranch onlyBackend "http://b:80".toList (relayed ["1.1.1.1".toList]) "2.2.2.2:9".toList =
      .sent dialled ∧
    sent.headers.getAll xForwardedFor = ["1.1.1.1, 2.2.2.2:9".toList] ∧
    dialled.headers.getAll xForwardedFor = ["1.1.1.1, 2.2.2.2:9".toList] := by
  have whole := @forwarded_for_chain_iff onlyBackend "http://b:80".toList "2.2.2.2:9".toList
    (relayed ["1.1.1.1".toList]) (by decide) (by decide)
  exact ⟨_, _, rfl, rfl, (whole.1 _ rfl).mpr (by decide), (whole.2.1 _ rfl).mpr (by decide)⟩

/-- Of two lines only the first is sent on. -/
theorem forwarded_for_chain_two : ¬ ∀ lib url peer request, peer.all readable = true →
    (∀ line ∈ request.headers.getAll xForwardedFor, line.all readable = true) →
    (∀ sent, proxyHttp lib url request peer = .sent sent →
      sent.headers.getAll xForwardedFor = [chain (request.headers.getAll xForwardedFor) peer]) ∧
    ∀ dialled, upgradeBranch lib url request peer = .sent dialled →
      dialled.headers.getAll xForwardedFor = [chain (request.headers.getAll xForwardedFor) peer] := by
  intro claimed
  have both := claimed onlyBackend "http://b:80".toList "3.3.3.3:9".toList
    (relayed ["1.1.1.1".toList, "2.2.2.2".toList]) (by decide) (by decide)
  exact absurd (both.1 _ rfl) (by decide)

end ForwardedFor

end TinyLb.Forwarding
