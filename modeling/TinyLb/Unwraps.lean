import TinyLb.Forwarding

/-! Where `proxy_http` may panic: each of its `unwrap`s is on text the client or the configuration
has a part in. -/

namespace TinyLb.Unwraps
open Http Forwarding Text

def maxUriLength : Nat := 65534

/-- What the library promises about its parser of URIs: it fails on texts that are too long or
malformed, and the parts of URIs it has read make up a text that is not malformed. -/
structure UriLaws (lib : Libraries) (malformed : Str → Prop) : Prop where
  fails : ∀ text, lib.parseUri text = none ↔ maxUriLength < len text ∨ malformed text
  composed : ∀ {url text : Str} {backend target : Uri} {authority : Authority},
    lib.parseUri url = some backend → backend.authority = some authority →
    lib.parseUri text = some target → ¬malformed (newUri backend authority target)

def Delivered (lib : Libraries) (request : Incoming) : Prop :=
  ∃ text uri, lib.parseUri text = some uri ∧ uri.target = request.uri.target

def schemeText (backend : Uri) : Str :=
  match backend.scheme with
  | some scheme => scheme.text
  | none => "http".toList

def Fits (lib : Libraries) (url : Str) (request : Incoming) : Prop :=
  ∀ backend authority, lib.parseUri url = some backend → backend.authority = some authority →
    len (schemeText backend) + 3 + len authority.text + len request.uri.target ≤ maxUriLength

section Panics
variable {lib : Libraries} {malformed : Str → Prop} {url peer : Str} {request : Incoming}

theorem len_newUri (backend : Uri) (authority : Authority) (request : Uri) :
    len (newUri backend authority request) =
      len (schemeText backend) + 3 + len authority.text + len request.target := by
  have separator : len "://".toList = 3 := by decide
  change len (formatUri (schemeText backend) authority.text request.target) = _
  rw [formatUri, len_append, len_append, len_append, separator]

theorem forwardedHeaders_some (ascii : peer.all readable = true) (authority : Authority)
    (headers : HeaderMap) : ∃ forwarded, forwardedHeaders authority headers peer = some forwarded := by
  unfold forwardedHeaders
  simp only [parse_appendPeer ascii, parseValue_readable authority.ascii]
  exact ⟨_, rfl⟩

theorem parse_newUri_iff (laws : UriLaws lib malformed) (delivered : Delivered lib request)
    {backend : Uri} {authority : Authority} (parsed : lib.parseUri url = some backend)
    (known : backend.authority = some authority) :
    lib.parseUri (newUri backend authority request.uri) = none ↔
      maxUriLength < len (newUri backend authority request.uri) := by
  obtain ⟨text, uri, read, same⟩ := delivered
  have wellFormed := laws.composed parsed known read
  have equal : newUri backend authority uri = newUri backend authority request.uri := by
    rw [newUri, newUri, same]
  rw [equal] at wellFormed
  rw [laws.fails, or_iff_left wellFormed]

/-- The only `unwrap` that can fail is the one of the new URI. -/
theorem panicked_iff_long (laws : UriLaws lib malformed) (delivered : Delivered lib request)
    (ascii : peer.all readable = true) {backend : Uri} {authority : Authority}
    (parsed : lib.parseUri url = some backend) (known : backend.authority = some authority) :
    proxyHttp lib url request peer = .panicked ↔
      maxUriLength < len (newUri backend authority request.uri) := by
  obtain ⟨forwarded, built⟩ := forwardedHeaders_some ascii authority request.headers
  rw [← parse_newUri_iff laws delivered parsed known]
  unfold proxyHttp
  simp only [parsed, known, built]
  cases lib.parseUri (newUri backend authority request.uri) with
  | none => exact iff_of_true rfl rfl
  | some uri => exact iff_of_false (fun same => by cases same) (Option.some_ne_none uri)

/-- `proxy_http` panics for the requests whose target makes the URI of the backend too long. -/
theorem proxyHttp_panics_iff (laws : UriLaws lib malformed) (delivered : Delivered lib request)
    (ascii : peer.all readable = true) :
    proxyHttp lib url request peer ≠ .panicked ↔ Fits lib url request := by
  constructor
  · intro fine backend authority parsed known
    rw [← len_newUri, ← Nat.not_lt, ← panicked_iff_long laws delivered ascii parsed known]
    exact fine
  · intro fits panicked
    cases parsed : lib.parseUri url with
    | none =>
      simp only [proxyHttp, parsed] at panicked
      cases panicked
    | some backend =>
      cases known : backend.authority with
      | none =>
        simp only [proxyHttp, parsed, known] at panicked
        cases panicked
      | some authority =>
        have long := (panicked_iff_long laws delivered ascii parsed known).mp panicked
        have short := fits backend authority parsed known
        rw [len_newUri] at long
        omega

end Panics

section Example

theorem http_plain : ':' ∉ "http".toList := by decide

theorem b_readable : ['b'].all readable = true := by decide

theorem b_plain : ['b'].all inAuthority = true := by decide

def readParts (text : Str) : Option Uri :=
  if slash : text.head? = some '/' then some ⟨none, none, some ⟨text, origin_form slash⟩⟩
  else
    match stripPrefix "http://b".toList text with
    | none => none
    | some path =>
        if slash : path.head? = some '/' then
          some ⟨some ⟨"http".toList, http_plain⟩, some ⟨['b'], b_readable, b_plain⟩,
            some ⟨path, origin_form slash⟩⟩
        else none

def limited : Libraries where
  parseUri text := if maxUriLength < len text then none else readParts text
  intoClientRequest _ := none

theorem limited_parseUri (text : Str) :
    limited.parseUri text = if maxUriLength < len text then none else readParts text := rfl

theorem readParts_some {text : Str} {uri : Uri} (read : readParts text = some uri) :
    uri.target.head? = some '/' ∧
      ∀ authority, uri.authority = some authority → newUri uri authority = fun target =>
        "http://b".toList ++ target.target := by
  unfold readParts at read
  split at read
  next slash =>
    cases read
    exact ⟨slash, fun _ none => nomatch none⟩
  next =>
    split at read
    next => cases read
    next path _ =>
      split at read
      next slash =>
        cases read
        refine ⟨slash, fun authority same => ?_⟩
        cases same
        funext target
        rfl
      next => cases read

theorem readParts_format {target : Str} (slash : target.head? = some '/') :
    readParts ("http://b".toList ++ target) ≠ none := by
  have found : stripPrefix "http://b".toList ("http://b".toList ++ target) = some target :=
    stripPrefix_some.mpr rfl
  unfold readParts
  rw [found]
  split
  next => exact Option.some_ne_none _
  next => simp [slash]

theorem limited_laws : UriLaws limited fun text => readParts text = none where
  fails text := by
    rw [limited_parseUri]
    split
    next long => exact iff_of_true rfl (Or.inl long)
    next short => exact (or_iff_right short).symm
  composed := by
    intro url text backend target authority parsed known read
    have whole : ∀ {text uri}, limited.parseUri text = some uri → readParts text = some uri := by
      intro text uri read
      rw [limited_parseUri] at read
      split at read
      next => cases read
      next => exact read
    rw [(readParts_some (whole parsed)).2 authority known]
    exact readParts_format (readParts_some (whole read)).1

def bare (path : Str) (slash : path.head? = some '/') : Incoming :=
  ⟨⟨none, none, some ⟨path, origin_form slash⟩⟩, ⟨[]⟩⟩

theorem bare_delivered {path : Str} (slash : path.head? = some '/') (short : len path ≤ maxUriLength) :
    Delivered limited (bare path slash) := by
  refine ⟨path, ⟨none, none, some ⟨path, origin_form slash⟩⟩, ?_, rfl⟩
  rw [limited_parseUri, readParts]
  simp only [if_neg (Nat.not_lt.mpr short), dif_pos slash]

/-- A request for the root. -/
theorem proxyHttp_panics_iff_root :
    proxyHttp limited "http://b/".toList (bare ['/'] rfl) "1.1.1.1:9".toList ≠ .panicked := by
  apply (proxyHttp_panics_iff limited_laws (bare_delivered rfl (by decide)) (by decide)).mpr
  intro backend authority parsed known
  cases parsed
  cases known
  decide

theorem len_replicate (n : Nat) (c : Char) : len (List.replicate n c) = n * c.utf8Size := by
  induction n with
  | zero => exact (Nat.zero_mul _).symm
  | succ n ih => rw [List.replicate_succ, len, ih, Nat.succ_mul, Nat.add_comm]

/-- A target as long as a URI may be, for a backend whose name has one letter. -/
theorem proxyHttp_panics_long : ¬ ∀ lib malformed, UriLaws lib malformed → ∀ url request peer,
    Delivered lib request → peer.all readable = true →
    proxyHttp lib url request peer ≠ .panicked := by
  intro claimed
  let path : Str := '/' :: List.replicate 65533 'a'
  have length : len path = 65534 := by
    rw [show path = '/' :: List.replicate 65533 'a' from rfl, len, len_replicate,
      show Char.utf8Size 'a' = 1 from rfl, show Char.utf8Size '/' = 1 from rfl]
  have delivered := @bare_delivered path rfl (Nat.le_of_eq length)
  have ascii : ("1.1.1.1:9".toList).all readable = true := by decide
  apply claimed limited _ limited_laws "http://b/".toList (bare path rfl) _ delivered ascii
  apply (panicked_iff_long limited_laws delivered ascii rfl rfl).mpr
  rw [len_newUri]
  change 65534 < _ + len path
  omega

end Example

end TinyLb.Unwraps
