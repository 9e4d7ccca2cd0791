import TinyLb.Upgrade

/-! Which fields of a request or a response `proxy_http` passes on. It removes a fixed list of names;
the fields that are for one connection only also depend on the message. -/

namespace TinyLb.HopByHop
open Text Http Forwarding Upgrade

/-- The fields that are for one connection whatever the message says. -/
def fixedFields : List Str :=
  ["connection".toList, "keep-alive".toList, "proxy-authenticate".toList, "proxy-authorization".toList,
    "te".toList, "trailer".toList, "transfer-encoding".toList, "upgrade".toList]

/-- The fields that the Connection lines of a message name. -/
def nominated (headers : HeaderMap) : List Str :=
  (ListFields.members (headers.getAll connection)).map toAsciiLowercase

def IsHopByHop (headers : HeaderMap) (name : Str) : Prop := name ∈ fixedFields ∨ name ∈ nominated headers

def ownFields : List Str := [xForwardedFor, xForwardedHost, xForwardedProto, host]

def responseHeaders (headers : HeaderMap) : HeaderMap := hopByHop.foldl HeaderMap.remove headers

/-- The fields for one connection stay behind and all others go on, but for those in `own`, which are
replaced. -/
structure PassesOn (own : List Str) (received sent : HeaderMap) : Prop where
  dropped : ∀ name, IsHopByHop received name → sent.getAll name = []
  kept : ∀ name, ¬IsHopByHop received name → name ∉ own → sent.getAll name = received.getAll name
  replaced : ∀ name ∈ own, ¬IsHopByHop received name → ∃ value, sent.getAll name = [value]

/-- The fixed list serves for the message: it has no `trailer`, no `trailers` that is to be kept, and
its Connection lines name no field that is there and not in the list. -/
structure Covered (own : List Str) (received : HeaderMap) : Prop where
  trailer : received.getAll "trailer".toList = []
  trailers : received.getAll "trailers".toList = [] ∨ "trailers".toList ∈ nominated received
  named : ∀ name ∈ nominated received, name ∈ hopByHop ∨ name ∉ own ∧ received.getAll name = []

section Fields
variable {lib : Libraries} {url peer name : Str} {request : Incoming} {received sent : HeaderMap}
  {own : List Str}

theorem getAll_foldl_remove (names : List Str) (headers : HeaderMap) (name : Str) :
    (names.foldl HeaderMap.remove headers).getAll name =
      if name ∈ names then [] else headers.getAll name := by
  induction names generalizing headers with
  | nil => rfl
  | cons first rest ih =>
    rw [List.foldl_cons, ih]
    by_cases later : name ∈ rest
    · rw [if_pos later, if_pos (List.mem_cons_of_mem _ later)]
    · rw [if_neg later]
      by_cases same : name = first
      · rw [same, HeaderMap.getAll_remove_self, if_pos (List.mem_cons_self ..)]
      · rw [HeaderMap.getAll_remove_of_ne _ same, if_neg (by simp [same, later])]

structure Filtered (own : List Str) (received sent : HeaderMap) : Prop where
  rest : ∀ name, name ∉ own → sent.getAll name = if name ∈ hopByHop then [] else received.getAll name
  set : ∀ name ∈ own, ∃ value, sent.getAll name = [value]

theorem filtered_response (headers : HeaderMap) : Filtered [] headers (responseHeaders headers) where
  rest name _ := getAll_foldl_remove hopByHop headers name
  set _ member := nomatch member

theorem filtered_request {authority : Authority}
    (built : forwardedHeaders authority received peer = some sent) :
    Filtered ownFields received sent := by
  unfold forwardedHeaders at built
  simp only at built
  split at built
  next xff authority _ _ =>
    obtain rfl := Option.some.inj built
    refine ⟨fun name other => ?_, fun name member => ?_⟩
    · simp only [ownFields, List.mem_cons, List.not_mem_nil, or_false, not_or] at other
      obtain ⟨notFor, notHost, notProto, notOwn⟩ := other
      rw [HeaderMap.getAll_insert_of_ne _ _ notOwn, HeaderMap.getAll_insert_of_ne _ _ notProto,
        HeaderMap.getAll_insert_of_ne _ _ notHost, HeaderMap.getAll_insert_of_ne _ _ notFor]
      exact getAll_foldl_remove hopByHop received name
    · simp only [ownFields, List.mem_cons, List.not_mem_nil, or_false] at member
      rcases member with rfl | rfl | rfl | rfl
      · refine ⟨xff, ?_⟩
        rw [HeaderMap.getAll_insert_of_ne _ _ (by decide), HeaderMap.getAll_insert_of_ne _ _ (by decide),
          HeaderMap.getAll_insert_of_ne _ _ (by decide), HeaderMap.getAll_insert_self]
      · refine ⟨(parseValue ((firstReadable received host).getD [])).getD [], ?_⟩
        rw [HeaderMap.getAll_insert_of_ne _ _ (by decide), HeaderMap.getAll_insert_of_ne _ _ (by decide),
          HeaderMap.getAll_insert_self]
      · refine ⟨"https".toList, ?_⟩
        rw [HeaderMap.getAll_insert_of_ne _ _ (by decide), HeaderMap.getAll_insert_self]
      · exact ⟨authority, HeaderMap.getAll_insert_self ..⟩
  next => cases built

theorem filtered_sent {sent : Outgoing} (forwarded : proxyHttp lib url request peer = .sent sent) :
    Filtered ownFields request.headers sent.headers := by
  obtain ⟨-, authority, headers, -, -, built, rfl⟩ := proxyHttp_sent forwarded
  exact filtered_request built

theorem listed_iff (other : name ≠ "trailer".toList) (others : name ≠ "trailers".toList) :
    name ∈ hopByHop ↔ name ∈ fixedFields := by
  simp only [hopByHop, fixedFields, List.mem_cons, List.not_mem_nil, or_false, other, others, false_or]

theorem passesOn_iff (filtered : Filtered own received sent)
    (apart : ∀ name ∈ own, name ∉ hopByHop ∧ name ∉ fixedFields) :
    PassesOn own received sent ↔ Covered own received := by
  have fixed : "trailer".toList ∈ fixedFields := by decide
  have unlisted : "trailer".toList ∉ hopByHop := by decide
  have listed : "trailers".toList ∈ hopByHop := by decide
  have free : "trailers".toList ∉ fixedFields := by decide
  constructor
  · intro passes
    refine ⟨?_, ?_, fun name named => ?_⟩
    · have gone := passes.dropped _ (Or.inl fixed)
      rwa [filtered.rest _ fun mine => (apart _ mine).2 fixed, if_neg unlisted] at gone
    · by_cases named : "trailers".toList ∈ nominated received
      · exact Or.inr named
      · left
        have mine : "trailers".toList ∉ own := fun mine => (apart _ mine).1 listed
        have kept := passes.kept _ (not_or.mpr ⟨free, named⟩) mine
        rw [← kept, filtered.rest _ mine, if_pos listed]
    · by_cases inList : name ∈ hopByHop
      · exact Or.inl inList
      · right
        have gone := passes.dropped name (Or.inr named)
        have notMine : name ∉ own := by
          intro mine
          obtain ⟨value, there⟩ := filtered.set name mine
          rw [gone] at there
          cases there
        rw [filtered.rest name notMine, if_neg inList] at gone
        exact ⟨notMine, gone⟩
  · intro covered
    refine ⟨fun name hop => ?_, fun name plain notMine => ?_, fun name mine _ => filtered.set name mine⟩
    · by_cases mine : name ∈ own
      · rcases covered.named name (hop.resolve_left (apart name mine).2) with inList | ⟨notMine, -⟩
        · exact absurd inList (apart name mine).1
        · exact absurd mine notMine
      · rw [filtered.rest name mine]
        split
        next => rfl
        next notListed =>
          rcases hop with inFixed | named
          · by_cases same : name = "trailer".toList
            · rw [same]
              exact covered.trailer
            · have others : name ≠ "trailers".toList := fun equal => free (equal ▸ inFixed)
              exact absurd ((listed_iff same others).mpr inFixed) notListed
          · exact ((covered.named name named).resolve_left notListed).2
    · rw [filtered.rest name notMine]
      split
      next inList =>
        by_cases same : name = "trailers".toList
        · subst same
          exact (covered.trailers.resolve_right fun named => plain (Or.inr named)).symm
        · have other : name ≠ "trailer".toList := fun equal => unlisted (equal ▸ inList)
          exact absurd (Or.inl ((listed_iff other same).mp inList)) plain
      next => rfl

/-- A request is passed on as it should be exactly if the fixed list serves for it, and so is a
response. -/
theorem hop_by_hop_iff (lib : Libraries) (url peer : Str) (request : Incoming) :
    (∀ sent, proxyHttp lib url request peer = .sent sent →
      (PassesOn ownFields request.headers sent.headers ↔ Covered ownFields request.headers)) ∧
    ∀ response, PassesOn [] response (responseHeaders response) ↔ Covered [] response := by
  refine ⟨fun sent forwarded => ?_, fun response => ?_⟩
  · exact passesOn_iff (filtered_sent forwarded) (by decide)
  · exact passesOn_iff (filtered_response response) (by simp)

def carrying (entries : List (Str × HeaderValue)) : Incoming :=
  ⟨⟨none, none, some root⟩, ⟨entries⟩⟩

theorem hop_by_hop_iff_close : ∃ sent,
    proxyHttp onlyBackend "http://b:80".toList
      (carrying [(connection, "close".toList), ("accept".toList, "*/*".toList)]) "1.1.1.1:9".toList =
        .sent sent ∧
    sent.headers.getAll connection = [] ∧ sent.headers.getAll "accept".toList = ["*/*".toList] := by
  let request := carrying [(connection, "close".toList), ("accept".toList, "*/*".toList)]
  have forwarded : proxyHttp onlyBackend "http://b:80".toList request "1.1.1.1:9".toList = .sent _ := rfl
  have covered : Covered ownFields request.headers := ⟨by decide, by decide, by decide⟩
  have passes := ((hop_by_hop_iff _ _ _ request).1 _ forwarded).mpr covered
  have plain : ¬IsHopByHop request.headers "accept".toList := by
    unfold IsHopByHop
    decide
  exact ⟨_, forwarded, passes.dropped _ (Or.inl (by decide)), passes.kept _ plain (by decide)⟩

/-- `trailer` crosses, and so does a field that the Connection line names. -/
theorem hop_by_hop_trailer : ¬ ∀ lib url peer request sent, proxyHttp lib url request peer = .sent sent →
    PassesOn ownFields request.headers sent.headers := by
  intro claimed
  let request := carrying [(connection, "x-secret".toList), ("x-secret".toList, "1".toList),
    ("trailer".toList, "expires".toList)]
  have passes := claimed onlyBackend "http://b:80".toList "1.1.1.1:9".toList request _ rfl
  exact absurd (passes.dropped "trailer".toList (Or.inl (by decide))) (by decide)

end Fields

end TinyLb.HopByHop
