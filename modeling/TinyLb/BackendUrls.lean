import TinyLb.Backends
import TinyLb.Forwarding

/-! The three uses of a backend's URL: the health check asks it over HTTP, `proxy_http` takes its scheme
as it is, and `proxy_websocket` maps it to one for WebSockets. -/

namespace TinyLb.BackendUrls
open Text Http Forwarding Backends

/-- `Backend::health_url`. -/
def healthUrl (b : Backend) : Str :=
  if "ws://".toList.isPrefixOf b.url || "wss://".toList.isPrefixOf b.url then
    replace "wss://".toList "https://".toList (replace "ws://".toList "http://".toList b.url)
  else b.url

inductive UrlScheme where
  | http
  | https
  | ws
  | wss
  deriving DecidableEq, Repr

namespace UrlScheme

def text : UrlScheme → Str
  | .http => "http".toList
  | .https => "https".toList
  | .ws => "ws".toList
  | .wss => "wss".toList

def checked : UrlScheme → UrlScheme
  | .http | .ws => .http
  | .https | .wss => .https

def socket : UrlScheme → UrlScheme
  | .http | .ws => .ws
  | .https | .wss => .wss

def isWeb : UrlScheme → Bool
  | .http | .https => true
  | .ws | .wss => false

end UrlScheme

def schemePart (uri : Str) : Str := splitFirst ':' uri

def isSecure (uri : Str) : Bool := schemePart uri == "https".toList || schemePart uri == "wss".toList

/-- The URLs of the health check and of the two proxies stand for the same server, each with a scheme
of its own kind, and all of them are secure or none. -/
structure Agree (scheme : UrlScheme) (authority : Authority) (rest health http websocket : Str) :
    Prop where
  checked : health = formatUri scheme.checked.text authority.text rest
  forwarded : (schemePart http = "http".toList ∨ schemePart http = "https".toList) ∧
    authorityPart http = authority.text
  dialled : (schemePart websocket = "ws".toList ∨ schemePart websocket = "wss".toList) ∧
    authorityPart websocket = authority.text
  secure : isSecure health = isSecure http ∧ isSecure http = isSecure websocket

/-- What the library promises about a URL it has read: the scheme and the authority are those in the
text. -/
def Splits (lib : Libraries) : Prop :=
  ∀ (scheme : UrlScheme) (authority : Authority) (rest : Str) (uri : Uri),
    (∀ c, rest.head? = some c → c = '/' ∨ c = '?') →
    lib.parseUri (formatUri scheme.text authority.text rest) = some uri →
    uri.scheme.map Scheme.text = some scheme.text ∧ uri.authority = some authority

section Readings
variable {lib : Libraries} {b : Backend} {scheme : UrlScheme} {authority : Authority} {rest tail peer : Str}
  {backend : Uri} {request : Incoming}

theorem text_plain (scheme : UrlScheme) : ':' ∉ scheme.text := by
  cases scheme <;> decide

theorem schemePart_format {scheme : Str} (plain : ':' ∉ scheme) (authority target : Str) :
    schemePart (formatUri scheme authority target) = scheme := by
  rw [schemePart, formatUri, List.append_assoc, List.append_assoc]
  exact splitFirst_append plain _

theorem healthUrl_web (form : b.url = formatUri scheme.text authority.text rest)
    (web : scheme.isWeb = true) : healthUrl b = b.url := by
  have other : ("ws://".toList.isPrefixOf b.url || "wss://".toList.isPrefixOf b.url) = false := by
    rw [form]
    cases scheme
    · rfl
    · rfl
    · cases web
    · cases web
  rw [healthUrl, other, if_neg (by simp)]

theorem healthUrl_ws (form : b.url = "ws://".toList ++ tail) :
    healthUrl b = "http://".toList ++
      replace "wss://".toList "https://".toList (replace "ws://".toList "http://".toList tail) := by
  have noMatch : 'w' ∉ "http://".toList := by decide
  have leads : "ws://".toList.isPrefixOf b.url = true := by
    rw [form]
    exact List.isPrefixOf_iff_prefix.mpr (List.prefix_append _ _)
  have nonempty : "ws://".toList ≠ [] := by decide
  rw [healthUrl, leads, Bool.true_or, if_pos rfl, form, replace_match nonempty]
  exact replace_append noMatch

theorem healthUrl_wss (form : b.url = "wss://".toList ++ tail) :
    healthUrl b = "https://".toList ++
      replace "wss://".toList "https://".toList (replace "ws://".toList "http://".toList tail) := by
  have noMatch : 'w' ∉ "ss://".toList := by decide
  have elsewhere : ¬"ws://".toList <+: 'w' :: ("ss://".toList ++ tail) := by
    simp [List.cons_prefix_cons]
  have leads : "wss://".toList.isPrefixOf b.url = true := by
    rw [form]
    exact List.isPrefixOf_iff_prefix.mpr (List.prefix_append _ _)
  -- the first replacement passes over the scheme, since `ws` is followed by another letter there
  have passed : replace "ws://".toList "http://".toList ("wss://".toList ++ tail) =
      "wss://".toList ++ replace "ws://".toList "http://".toList tail := by
    change replaceFrom _ _ 0 ('w' :: ("ss://".toList ++ tail)) = _
    rw [replaceFrom_other elsewhere]
    exact congrArg ('w' :: ·) (replace_append noMatch)
  have nonempty : "wss://".toList ≠ [] := by decide
  rw [healthUrl, leads, Bool.or_true, if_pos rfl, form, passed, replace_match nonempty]

theorem healthUrl_iff (form : b.url = formatUri scheme.text authority.text rest) :
    healthUrl b = formatUri scheme.checked.text authority.text rest ↔ scheme.isWeb = true ∨
      ¬"ws://".toList <:+: authority.text ++ rest ∧ ¬"wss://".toList <:+: authority.text ++ rest := by
  have twice := @replace_replace_eq_self_iff "ws://".toList "http://".toList (authority.text ++ rest)
    "wss://".toList "https://".toList (by decide) (by decide) (by decide) (by decide)
  cases scheme with
  | http => exact iff_of_true (by rw [healthUrl_web form rfl, form]; rfl) (Or.inl rfl)
  | https => exact iff_of_true (by rw [healthUrl_web form rfl, form]; rfl) (Or.inl rfl)
  | ws =>
    have split : b.url = "ws://".toList ++ (authority.text ++ rest) := form
    rw [healthUrl_ws split, or_iff_right (by decide), ← twice]
    exact List.append_right_inj "http://".toList
  | wss =>
    have split : b.url = "wss://".toList ++ (authority.text ++ rest) := form
    rw [healthUrl_wss split, or_iff_right (by decide), ← twice]
    exact List.append_right_inj "https://".toList

theorem newUri_eq (named : backend.scheme.map Scheme.text = some scheme.text) (authority : Authority)
    (request : Uri) :
    newUri backend authority request = formatUri scheme.text authority.text request.target := by
  obtain ⟨known, here, same⟩ := Option.map_eq_some_iff.mp named
  rw [newUri, here, ← same]

theorem wsScheme_eq (named : backend.scheme.map Scheme.text = some scheme.text) :
    wsScheme backend = scheme.socket.text := by
  obtain ⟨known, here, same⟩ := Option.map_eq_some_iff.mp named
  rw [wsScheme, here]
  simp only [same]
  cases scheme <;> decide

theorem isSecure_format (scheme : UrlScheme) (authority target : Str) :
    isSecure (formatUri scheme.text authority target) = (scheme.checked == .https) := by
  rw [isSecure, schemePart_format (text_plain scheme)]
  cases scheme <;> decide

theorem proxyHttp_uri {sent : Outgoing} (parsed : lib.parseUri b.url = some backend)
    (known : backend.authority = some authority)
    (forwarded : proxyHttp lib b.url request peer = .sent sent) :
    sent.uri = newUri backend authority request.uri := by
  obtain ⟨other, authority', headers, read, here, -, rfl⟩ := proxyHttp_sent forwarded
  rw [parsed] at read
  cases read
  rw [known] at here
  cases here
  rfl

theorem upgradeBranch_uri {dialled : Outgoing} (parsed : lib.parseUri b.url = some backend)
    (known : backend.authority = some authority)
    (upgraded : upgradeBranch lib b.url request peer = .sent dialled) :
    dialled.uri = backendUrl backend authority request.uri.target := by
  obtain ⟨other, authority', handshake, read, here, -, rfl⟩ := upgradeBranch_sent upgraded
  rw [parsed] at read
  cases read
  rw [known] at here
  cases here
  rfl

theorem agree_iff (form : b.url = formatUri scheme.text authority.text rest)
    (named : backend.scheme.map Scheme.text = some scheme.text) :
    Agree scheme authority rest (healthUrl b) (newUri backend authority request.uri)
        (backendUrl backend authority request.uri.target) ↔
      scheme.isWeb = true ∧ request.uri.pathAndQuery ≠ some .asterisk := by
  have asked : newUri backend authority request.uri =
      formatUri scheme.text authority.text request.uri.target := newUri_eq named authority request.uri
  have dials : backendUrl backend authority request.uri.target =
      formatUri scheme.socket.text authority.text request.uri.target := by
    rw [backendUrl, wsScheme_eq named]
  rw [asked, dials]
  constructor
  · intro agree
    refine ⟨?_, (authorityPart_iff (text_plain scheme)).mp agree.forwarded.2⟩
    have kind := agree.forwarded.1
    rw [schemePart_format (text_plain scheme)] at kind
    cases scheme
    · rfl
    · rfl
    · exact absurd kind (by decide)
    · exact absurd kind (by decide)
  · rintro ⟨web, origin⟩
    have health : healthUrl b = formatUri scheme.checked.text authority.text rest :=
      (healthUrl_iff form).mpr (Or.inl web)
    refine ⟨health, ⟨?_, ?_⟩, ⟨?_, ?_⟩, ?_, ?_⟩
    · rw [schemePart_format (text_plain scheme)]
      cases scheme <;> first | decide | cases web
    · exact (authorityPart_iff (text_plain scheme)).mpr origin
    · rw [schemePart_format (text_plain scheme.socket)]
      cases scheme <;> decide
    · exact (authorityPart_iff (text_plain scheme.socket)).mpr origin
    · rw [health, isSecure_format, isSecure_format]
      cases scheme <;> rfl
    · rw [isSecure_format, isSecure_format]
      cases scheme <;> rfl

/-- The three readings of a URL agree exactly if its scheme is `http` or `https` and the request is not
for `*`. The health check alone reads more URLs as it should. -/
theorem readings_agree_iff (splits : Splits lib)
    (form : b.url = formatUri scheme.text authority.text rest)
    (path : ∀ c, rest.head? = some c → c = '/' ∨ c = '?')
    (parsed : lib.parseUri b.url = some backend) (request : Incoming) (peer : Str) :
    (∀ sent, proxyHttp lib b.url request peer = .sent sent →
      sent.uri = newUri backend authority request.uri) ∧
    (∀ dialled, upgradeBranch lib b.url request peer = .sent dialled →
      dialled.uri = backendUrl backend authority request.uri.target) ∧
    (Agree scheme authority rest (healthUrl b) (newUri backend authority request.uri)
        (backendUrl backend authority request.uri.target) ↔
      scheme.isWeb = true ∧ request.uri.pathAndQuery ≠ some .asterisk) ∧
    (healthUrl b = formatUri scheme.checked.text authority.text rest ↔ scheme.isWeb = true ∨
      ¬"ws://".toList <:+: authority.text ++ rest ∧ ¬"wss://".toList <:+: authority.text ++ rest) := by
  obtain ⟨named, known⟩ := splits scheme authority rest backend path (form ▸ parsed)
  refine ⟨fun sent forwarded => ?_, fun dialled upgraded => ?_, agree_iff form named, healthUrl_iff form⟩
  · exact proxyHttp_uri parsed known forwarded
  · exact upgradeBranch_uri parsed known upgraded

end Readings

section Example
variable {scheme : UrlScheme} {authority : Authority} {rest : Str}

theorem authorityPart_path {scheme : Str} (plain : ':' ∉ scheme) (authority : Authority)
    (path : ∀ c, rest.head? = some c → c = '/' ∨ c = '?') :
    authorityPart (formatUri scheme authority.text rest) = authority.text := by
  cases rest with
  | nil => rw [authorityPart_format plain authority rfl, List.append_nil]
  | cons c rest =>
    have ends : inAuthority c = false := by
      rcases path c rfl with rfl | rfl <;> decide
    exact (parts_format plain authority rfl ends).1

theorem of_slash (slash : rest.head? = some '/') (c : Char) (first : rest.head? = some c) :
    c = '/' ∨ c = '?' := by
  rw [slash] at first
  exact Or.inl (Option.some.inj first).symm

def reading (scheme : UrlScheme) (authority : Authority) : Libraries where
  parseUri text :=
    match stripPrefix (formatUri scheme.text authority.text []) text with
    | none => none
    | some path =>
        if slash : path.head? = some '/' then
          some ⟨some ⟨scheme.text, text_plain scheme⟩, some authority,
            some ⟨path, origin_form slash⟩⟩
        else none
  intoClientRequest _ := some ⟨[]⟩

theorem reading_some {text : Str} {uri : Uri} (read : (reading scheme authority).parseUri text = some uri) :
    (∃ path : Str, path.head? = some '/' ∧ text = formatUri scheme.text authority.text path) ∧
      uri.scheme.map Scheme.text = some scheme.text ∧ uri.authority = some authority := by
  unfold reading at read
  simp only at read
  split at read
  next => cases read
  next path found =>
    split at read
    next slash =>
      cases read
      refine ⟨⟨path, slash, ?_⟩, rfl, rfl⟩
      rw [stripPrefix_some.mp found, formatUri, List.append_nil]
      rfl
    next => cases read

theorem reading_splits (scheme : UrlScheme) (authority : Authority) : Splits (reading scheme authority) := by
  intro scheme' authority' rest uri path read
  obtain ⟨⟨path', slash, same⟩, named, known⟩ := reading_some read
  have schemes := congrArg schemePart same
  rw [schemePart_format (text_plain scheme'), schemePart_format (text_plain scheme)] at schemes
  have authorities := congrArg authorityPart same
  rw [authorityPart_path (text_plain scheme') authority' path,
    authorityPart_path (text_plain scheme) authority (of_slash slash)] at authorities
  have equal : authority' = authority := by
    cases authority
    cases authority'
    cases authorities
    rfl
  rw [schemes, equal]
  exact ⟨named, known⟩

def backendAt (url : Str) : Backend := Backend.new 0 ⟨url, 1, false⟩

def forPath (path : Str) (slash : path.head? = some '/') : Incoming :=
  ⟨⟨none, none, some ⟨path, origin_form slash⟩⟩, ⟨[]⟩⟩

/-- A URL with scheme-like text in its query. -/
theorem readings_agree_iff_query :
    healthUrl (backendAt "https://b:80/?u=ws://x".toList) = "https://b:80/?u=ws://x".toList ∧
      Agree .https atB "/?u=ws://x".toList (healthUrl (backendAt "https://b:80/?u=ws://x".toList))
        "https://b:80/chat".toList "wss://b:80/chat".toList := by
  have form : (backendAt "https://b:80/?u=ws://x".toList).url =
      formatUri (UrlScheme.text .https) atB.text "/?u=ws://x".toList := rfl
  obtain ⟨-, -, agree, health⟩ := readings_agree_iff (reading_splits .https atB) form (of_slash rfl) rfl
    (forPath "/chat".toList rfl) "1.1.1.1:9".toList
  exact ⟨health.mpr (Or.inl rfl), agree.mpr ⟨rfl, by decide⟩⟩

/-- For a backend with a `ws` URL `proxy_http` asks for `ws` as well. -/
theorem readings_agree_ws : ¬ ∀ lib, Splits lib → ∀ (b : Backend) scheme authority rest backend,
    b.url = formatUri (UrlScheme.text scheme) (Authority.text authority) rest →
    (∀ c, rest.head? = some c → c = '/' ∨ c = '?') → lib.parseUri b.url = some backend →
    ∀ request : Incoming, request.uri.pathAndQuery ≠ some .asterisk →
      Agree scheme authority rest (healthUrl b) (newUri backend authority request.uri)
        (backendUrl backend authority request.uri.target) := by
  intro claimed
  have agree := claimed _ (reading_splits .ws atB) (backendAt "ws://b:80/".toList) .ws atB "/".toList _ rfl
    (of_slash rfl) rfl (forPath "/chat".toList rfl) (by decide)
  exact absurd agree.forwarded.1 (by decide)

end Example

end TinyLb.BackendUrls
