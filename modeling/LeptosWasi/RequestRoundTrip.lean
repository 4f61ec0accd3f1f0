import LeptosWasi.FirstClaim
import LeptosWasi.RequestParts

namespace LeptosWasi.RequestRoundTrip

open Http Policy Request LeptosWasi.Core Render FirstClaim Preview2 RequestParts HttpCrate

def encodeMethod : Method → WasiMethod
  | .get => .get
  | .head => .head
  | .post => .post
  | .put => .put
  | .delete => .delete
  | .connect => .connect
  | .options => .options
  | .trace => .trace
  | .patch => .patch
  | .extension name => .other name

def encodeScheme (scheme : Bytes) : WasiScheme :=
  if scheme = text "http" then .http else if scheme = text "https" then .https else .other scheme

def encodePath (path : Bytes) (query : Option Bytes) : Option Bytes :=
  if path = [] then none else some (displayPathAndQuery path query)

def encode (request : Http.Request) : RequestHead where
  method := encodeMethod request.method
  scheme := request.uri.scheme.map encodeScheme
  authority := request.uri.authority
  pathWithQuery := encodePath request.uri.path request.uri.query
  headers := request.headers.pairs

/-- The last of these headers came to a map that was not full. -/
def Fits (crate : HttpCrate) (pairs : List (HeaderName × HeaderValue)) : Prop :=
  ∀ before pair, pairs = before ++ [pair] →
    (Multimap.ofPairs before).entries.length < crate.maxNames

/-- A request that the builder of the `http` crate can build. -/
structure WellFormed (crate : HttpCrate) (request : Http.Request) : Prop where
  method : ∃ method, methodWasiToHttp method = some request.method
  uri : ∃ head, crate.uri head = some request.uri
  names : ∀ e ∈ request.headers.entries, ∃ name, headerName name = some e.1
  values : ∀ e ∈ request.headers.entries, ∀ value ∈ e.2, HeaderValue.fromStr value = some value
  size : Fits crate request.headers.pairs

section Method

theorem methodFromBytes_extension {name token : String}
    (h : methodFromBytes name = some (.extension token)) :
    token = name := by
  unfold methodFromBytes at h
  split at h
  case h_10 =>
    split_ifs at h
    exact (Method.extension.inj (Option.some.inj h)).symm
  all_goals cases h

theorem methodWasiToHttp_encode {method : WasiMethod}
    {m : Method} (h : methodWasiToHttp method = some m) :
    methodWasiToHttp (encodeMethod m) = some m := by
  cases m with
  | extension token =>
    cases method with
    | other name =>
      obtain rfl := methodFromBytes_extension h
      exact h
    | get | head | post | put | delete | connect | options | trace | patch => cases h
  | get | head | post | put | delete | connect | options | trace | patch => rfl

@[simp] theorem hostMethod_encode (m : Method) : hostMethod (encodeMethod m) = m := by
  cases m <;> rfl

end Method

section Headers

theorem isTokenChar_lt {c : Char} (h : isTokenChar c = true) : c.toNat < 128 := by
  simp only [isTokenChar, Bool.or_eq_true, decide_eq_true_eq, List.contains_iff_mem, List.mem_cons,
    List.not_mem_nil, or_false] at h
  omega

theorem isTokenChar_lower_code : ∀ n < 128, isTokenChar (.ofNat n) = true →
    isTokenChar (Char.ofNat n).toLower = true ∧
    (Char.ofNat n).toLower.toLower = (Char.ofNat n).toLower := by
  decide +kernel

theorem isTokenChar_lower {c : Char} (h : isTokenChar c = true) :
    isTokenChar c.toLower = true ∧ c.toLower.toLower = c.toLower := by
  have hcode := isTokenChar_lower_code c.toNat (isTokenChar_lt h)
  rw [Char.ofNat_toNat] at hcode
  exact hcode h

theorem headerName_idem {name lower : String} (h : headerName name = some lower) :
    headerName lower = some lower := by
  rw [headerName] at h
  split_ifs at h with hname
  obtain ⟨htoken, hlength⟩ := hname
  obtain rfl := Option.some.inj h
  rw [isToken, Bool.and_eq_true, List.all_eq_true] at htoken
  have hlower : (name.toList.map Char.toLower).map Char.toLower = name.toList.map Char.toLower := by
    rw [List.map_map]
    exact List.map_congr_left fun c hc => (isTokenChar_lower (htoken.2 c hc)).2
  rw [headerName, if_pos, String.toList_ofList, hlower]
  refine ⟨?_, by rw [String.toList_ofList, List.length_map]; exact hlength⟩
  rw [isToken, String.toList_ofList, Bool.and_eq_true, List.all_eq_true]
  refine ⟨?_, fun c hc => ?_⟩
  · rw [Bool.not_eq_true', List.isEmpty_eq_false_iff] at htoken ⊢
    exact fun hnil => htoken.1 (List.map_eq_nil_iff.mp hnil)
  · obtain ⟨d, hd, rfl⟩ := List.mem_map.mp hc
    exact (isTokenChar_lower (htoken.2 d hd)).1

theorem length_ofPairs_snoc (pairs : List (HeaderName × HeaderValue))
    (pair : HeaderName × HeaderValue) :
    (Multimap.ofPairs pairs).entries.length ≤
    (Multimap.ofPairs (pairs ++ [pair])).entries.length := by
  rw [Multimap.ofPairs_snoc, Multimap.length_append]
  split_ifs
  · exact Nat.le_refl _
  · exact Nat.le_succ _

theorem fits_snoc {crate : HttpCrate} {pairs : List (HeaderName × HeaderValue)}
    {pair : HeaderName × HeaderValue} :
    Fits crate (pairs ++ [pair]) ↔ (Multimap.ofPairs pairs).entries.length < crate.maxNames := by
  constructor
  · intro h
    exact h pairs pair rfl
  · intro h before last heq
    obtain ⟨rfl, -⟩ := List.append_inj' heq rfl
    exact h

theorem fits_pairs {crate : HttpCrate} {pairs : List (HeaderName × HeaderValue)}
    (h : Fits crate pairs) :
    Fits crate (Multimap.ofPairs pairs).pairs := by
  induction pairs using List.reverseRecOn with
  | nil =>
    intro before pair heq
    cases before <;> cases heq
  | append_singleton pairs pair ih =>
    obtain ⟨name, value⟩ := pair
    have hroom := fits_snoc.mp h
    intro before last heq
    cases hknown : (Multimap.ofPairs pairs).containsKey name with
    | true =>
      calc (Multimap.ofPairs before).entries.length
          ≤ (Multimap.ofPairs (before ++ [last])).entries.length := length_ofPairs_snoc before last
        _ = (Multimap.ofPairs pairs).entries.length := by
            rw [← heq, Multimap.ofPairs_pairs, Multimap.ofPairs_snoc,
              Multimap.length_append, if_pos hknown]
        _ < crate.maxNames := hroom
    | false =>
      have hnew : (Multimap.ofPairs (pairs ++ [(name, value)])).pairs =
          (Multimap.ofPairs pairs).pairs ++ [(name, value)] := by
        have hmem : name ∉ (Multimap.ofPairs pairs).entries.map Prod.fst := by
          intro hmem
          obtain ⟨⟨name, values⟩, he, rfl⟩ := List.mem_map.mp hmem
          rw [Multimap.containsKey, (Multimap.lookup_eq_some_iff _ name values).mpr he] at hknown
          cases hknown
        rw [Multimap.ofPairs_snoc, Multimap.pairs,
          Multimap.append_entries_new hmem, List.flatMap_append]
        rfl
      obtain ⟨rfl, -⟩ := List.append_inj' (hnew.symm.trans heq) rfl
      rwa [Multimap.ofPairs_pairs]

theorem addHeaders_snoc {crate : HttpCrate} {entries : List (String × Bytes)}
    {entry : String × Bytes} {headers : HeaderMap} :
    (entries ++ [entry]).foldlM crate.addHeader ∅ = some headers ↔
      ∃ before, entries.foldlM crate.addHeader ∅ = some before ∧
        crate.addHeader before entry = some headers := by
  rw [List.foldlM_append, Option.bind_eq_bind, Option.bind_eq_some_iff]
  simp only [List.foldlM_cons, List.foldlM_nil,
    Option.pure_def, Option.bind_eq_bind, Option.bind_fun_some]

theorem mapM_snoc {entries : List (String × Bytes)} {entry : String × Bytes}
    {pairs : List (HeaderName × HeaderValue)} :
    (entries ++ [entry]).mapM headerEntry = some pairs ↔
      ∃ before pair, entries.mapM headerEntry = some before ∧ headerEntry entry = some pair ∧
        pairs = before ++ [pair] := by
  rw [List.mapM_append]
  simp only [List.mapM_cons, List.mapM_nil, Option.pure_def,
    Option.bind_eq_bind, Option.bind_eq_some_iff, Option.some.injEq]
  aesop

/-- The headers are what the entries of the host make in their order, if each of
them is one and none came to a full map. -/
theorem addHeaders_iff (crate : HttpCrate) (entries : List (String × Bytes)) (headers : HeaderMap) :
    entries.foldlM crate.addHeader ∅ = some headers ↔
      ∃ pairs, entries.mapM headerEntry = some pairs ∧
        headers = .ofPairs pairs ∧ Fits crate pairs := by
  induction entries using List.reverseRecOn generalizing headers with
  | nil =>
    refine ⟨fun h => ?_, ?_⟩
    · obtain rfl : (∅ : HeaderMap) = headers := Option.some.inj h
      refine ⟨[], rfl, rfl, fun before pair heq => ?_⟩
      cases before <;> cases heq
    · rintro ⟨pairs, hpairs, rfl, -⟩
      obtain rfl : [] = pairs := Option.some.inj hpairs
      rfl
  | append_singleton entries entry ih =>
    rw [addHeaders_snoc]
    constructor
    · rintro ⟨before, hbefore, hadd⟩
      obtain ⟨pairs, hpairs, rfl, -⟩ := (ih before).mp hbefore
      rw [addHeader, Option.bind_eq_bind, Option.bind_eq_some_iff] at hadd
      obtain ⟨⟨name, value⟩, hentry, hadd⟩ := hadd
      dsimp only at hadd
      split_ifs at hadd with hroom
      obtain rfl := Option.some.inj hadd
      exact ⟨pairs ++ [(name, value)], mapM_snoc.mpr ⟨pairs, _, hpairs, hentry, rfl⟩,
        (Multimap.ofPairs_snoc pairs (name, value)).symm, fits_snoc.mpr hroom⟩
    · rintro ⟨pairs, hpairs, rfl, hfits⟩
      obtain ⟨before, ⟨name, value⟩, hbefore, hentry, rfl⟩ := mapM_snoc.mp hpairs
      have hroom := fits_snoc.mp hfits
      refine ⟨.ofPairs before, (ih _).mpr ⟨before, hbefore, rfl, ?_⟩, ?_⟩
      · rintro earlier pair rfl
        exact Nat.lt_of_le_of_lt (length_ofPairs_snoc earlier pair) hroom
      · rw [addHeader, hentry]
        exact (if_pos hroom).trans (congrArg some (Multimap.ofPairs_snoc before (name, value)).symm)

theorem mapM_forall₂ {entries : List (String × Bytes)} {pairs : List (HeaderName × HeaderValue)}
    (h : entries.mapM headerEntry = some pairs) :
    List.Forall₂ (fun entry pair => headerEntry entry = some pair) entries pairs := by
  induction entries generalizing pairs with
  | nil =>
    obtain rfl : [] = pairs := Option.some.inj h
    exact .nil
  | cons entry entries ih =>
    rw [List.mapM_cons, Option.bind_eq_bind, Option.bind_eq_some_iff] at h
    obtain ⟨pair, hpair, h⟩ := h
    rw [Option.bind_eq_bind, Option.bind_eq_some_iff] at h
    obtain ⟨rest, hrest, h⟩ := h
    obtain rfl : pair :: rest = pairs := Option.some.inj h
    exact .cons hpair (ih hrest)

theorem mapM_fixed {pairs : List (HeaderName × HeaderValue)}
    (h : ∀ pair ∈ pairs, headerEntry pair = some pair) :
    pairs.mapM headerEntry = some pairs := by
  induction pairs with
  | nil => rfl
  | cons pair pairs ih =>
    rw [List.mapM_cons, h pair List.mem_cons_self, ih fun p hp => h p (List.mem_cons_of_mem _ hp)]
    rfl

theorem headerEntry_eq {entry : String × Bytes} {pair : HeaderName × HeaderValue}
    (h : headerEntry entry = some pair) :
    headerName entry.1 = some pair.1 ∧ pair.2 = entry.2 ∧
    HeaderValue.fromStr pair.2 = some pair.2 := by
  rw [headerEntry, Option.bind_eq_bind, Option.bind_eq_some_iff] at h
  obtain ⟨name, hname, h⟩ := h
  rw [Option.bind_eq_bind, Option.bind_eq_some_iff] at h
  obtain ⟨value, hvalue, h⟩ := h
  obtain rfl := Option.some.inj h
  obtain rfl := HeaderValue.fromStr_eq_self hvalue
  exact ⟨hname, rfl, hvalue⟩

theorem getAll_converted {entries : List (String × Bytes)} {pairs : List (HeaderName × HeaderValue)}
    (h : entries.mapM headerEntry = some pairs) (name : HeaderName) :
    (Multimap.ofPairs pairs).getAll name =
      (entries.filter fun entry => decide (headerName entry.1 = some name)).map Prod.snd := by
  have hall := mapM_forall₂ h
  rw [Multimap.getAll_ofPairs]
  clear h
  induction hall with
  | nil => rfl
  | @cons entry pair entries pairs hpair hrest ih =>
    obtain ⟨hname, hvalue, -⟩ := headerEntry_eq hpair
    have hsame : headerName entry.1 = some name ↔ pair.1 = name := by rw [hname, Option.some.injEq]
    simp only [List.filter_cons, decide_eq_true_eq, hsame]
    split_ifs
    · rw [List.map_cons, List.map_cons, ih, hvalue]
    · exact ih

theorem mem_converted {entries : List (String × Bytes)} {pairs : List (HeaderName × HeaderValue)}
    (h : entries.mapM headerEntry = some pairs) {pair : HeaderName × HeaderValue}
    (hpair : pair ∈ pairs) :
    ∃ entry ∈ entries, headerEntry entry = some pair := by
  have hall := mapM_forall₂ h
  clear h
  induction hall with
  | nil => cases hpair
  | @cons entry first entries pairs hfirst hrest ih =>
    obtain rfl | hpair := List.mem_cons.mp hpair
    · exact ⟨entry, List.mem_cons_self, hfirst⟩
    · obtain ⟨found, hmem, hfound⟩ := ih hpair
      exact ⟨found, List.mem_cons_of_mem _ hmem, hfound⟩

end Headers

section Uris

variable {crate : HttpCrate}

theorem transpose_encode {α β : Type} {parse : α → Option β} {encode : β → α}
    (hencode : ∀ value part, parse value = some part → parse (encode part) = some part)
    {value : Option α}
    {part : Option β} (h : transpose parse value = some part) :
    transpose parse (part.map encode) = some part := by
  cases value with
  | none =>
    obtain rfl : none = part := Option.some.inj h
    rfl
  | some value =>
    obtain ⟨found, hfound, rfl⟩ := Option.map_eq_some_iff.mp h
    rw [Option.map_some, transpose, hencode value found hfound]
    rfl

theorem schemeWasiToHttp_encode (hcrate : crate.Documented) {value : WasiScheme} {scheme : Bytes}
    (h : crate.schemeWasiToHttp value = some scheme) :
    crate.schemeWasiToHttp (encodeScheme scheme) = some scheme := by
  rw [encodeScheme]
  split_ifs with hhttp hhttps
  · rw [hhttp]
    rfl
  · rw [hhttps]
    rfl
  · cases value with
    | http => exact absurd (Option.some.inj h).symm hhttp
    | https => exact absurd (Option.some.inj h).symm hhttps
    | other name =>
      obtain rfl := hcrate.scheme name scheme h
      exact h

theorem uri_encode (hcrate : crate.Documented) {head : RequestHead}
    {u : Uri} (h : crate.uri head = some u)
    (method : WasiMethod) (headers : List (String × Bytes)) :
    crate.uri ⟨method, u.scheme.map encodeScheme,
      u.authority, encodePath u.path u.query, headers⟩ = some u := by
  rw [HttpCrate.uri, Option.bind_eq_bind, Option.bind_eq_some_iff] at h
  obtain ⟨scheme, hscheme, h⟩ := h
  rw [Option.bind_eq_bind, Option.bind_eq_some_iff] at h
  obtain ⟨authority, hauthority, h⟩ := h
  rw [Option.bind_eq_some_iff] at h
  obtain ⟨pathAndQuery, hpath, h⟩ := h
  have hu : u = ⟨scheme, authority, (pathAndQuery.map Prod.fst).getD [],
    pathAndQuery.bind Prod.snd⟩ := by
    rw [uriFromParts] at h
    split_ifs at h <;> exact (Option.some.inj h).symm
  have hencoded : encodePath u.path u.query = pathAndQuery.map fun part =>
    displayPathAndQuery part.1 part.2 := by
    rw [hu]
    cases pathAndQuery with
    | none => rfl
    | some part =>
      cases value : head.pathWithQuery with
      | none => rw [value] at hpath; cases hpath
      | some value' =>
        rw [value] at hpath
        obtain ⟨found, hfound, hpart⟩ := Option.map_eq_some_iff.mp hpath
        obtain rfl := Option.some.inj hpart
        exact if_neg (hcrate.path value' found.1 found.2 hfound)
  have hscheme' := @transpose_encode _ _ crate.schemeWasiToHttp encodeScheme
    (fun _ _ => schemeWasiToHttp_encode hcrate) _ _ hscheme
  have hauthority' : transpose crate.parseAuthority authority = some authority := by
    have hkept := @transpose_encode _ _ crate.parseAuthority id (fun value part hpart => by
      obtain rfl := hcrate.authority value part hpart
      exact hpart) _ _ hauthority
    rwa [Option.map_id, id] at hkept
  have hpath' :=
    @transpose_encode _ _ crate.parsePathAndQuery (fun part => displayPathAndQuery part.1 part.2)
    (fun value part hpart => hcrate.display value part.1 part.2 hpart) _ _ hpath
  rw [HttpCrate.uri, hencoded]
  simp only [hu] at h ⊢
  simp only [hscheme', hauthority', hpath', Option.bind_eq_bind, Option.bind_some]
  exact h

end Uris

section Parts

variable {crate : HttpCrate}

theorem requestParts_ok {head : RequestHead} {parts : Http.Request}
    (h : crate.requestParts head = .ok parts) :
    methodWasiToHttp head.method = some parts.method ∧ crate.uri head = some parts.uri ∧
      head.headers.foldlM crate.addHeader ∅ = some parts.headers ∧ parts.body = [] := by
  rw [requestParts] at h
  split at h
  case h_1 method uri headers hmethod huri hheaders =>
    obtain rfl := Except.ok.inj h
    exact ⟨hmethod, huri, hheaders, rfl⟩
  case h_2 => cases h

theorem requestParts_error {head : RequestHead} {e : RequestError}
    (h : crate.requestParts head = .error e) :
    e = .http := by
  rw [requestParts] at h
  split at h
  · cases h
  · exact (Except.error.inj h).symm

theorem requestParts_encode (hcrate : crate.Documented) {request : Http.Request}
    (h : WellFormed crate request) :
    crate.requestParts (encode request) = .ok { request with body := [] } := by
  obtain ⟨method, hmethod⟩ := h.method
  obtain ⟨head, huri⟩ := h.uri
  have hpairs : ∀ pair ∈ request.headers.pairs, headerEntry pair = some pair := by
    rintro ⟨name, value⟩ hpair
    obtain ⟨e, he, hmem⟩ := List.mem_flatMap.mp hpair
    obtain ⟨value', hvalue, heq⟩ := List.mem_map.mp hmem
    obtain ⟨rfl, rfl⟩ := Prod.mk.inj heq
    obtain ⟨raw, hraw⟩ := h.names e he
    rw [headerEntry, headerName_idem hraw, h.values e he value' hvalue]
    rfl
  have hheaders : request.headers.pairs.foldlM crate.addHeader ∅ = some request.headers :=
    (addHeaders_iff crate _ _).mpr
      ⟨_, mapM_fixed hpairs, (Multimap.ofPairs_pairs request.headers).symm, h.size⟩
  have hmethod' := methodWasiToHttp_encode hmethod
  have huri' : crate.uri (encode request) = some request.uri := uri_encode hcrate huri _ _
  rw [requestParts, huri']
  simp only [encode, hmethod', hheaders]

theorem requestParts_wellFormed {head : RequestHead} {parts : Http.Request}
    (h : crate.requestParts head = .ok parts) : WellFormed crate parts := by
  obtain ⟨hmethod, huri, hheaders, -⟩ := requestParts_ok h
  obtain ⟨pairs, hpairs, hparts, hsize⟩ := (addHeaders_iff crate _ _).mp hheaders
  have hsource (e : HeaderName × List HeaderValue)
    (he : e ∈ parts.headers.entries) (value : HeaderValue)
      (hvalue : value ∈ e.2) : ∃ entry ∈ head.headers, headerEntry entry = some (e.1, value) := by
    have hall : parts.headers.getAll e.1 = e.2 := by
      rw [Multimap.getAll, (Multimap.lookup_eq_some_iff _ _ _).mpr he]
      rfl
    rw [← hall, hparts, Multimap.getAll_ofPairs] at hvalue
    obtain ⟨pair, hpair, rfl⟩ := List.mem_map.mp hvalue
    obtain ⟨hmem, hname⟩ := List.mem_filter.mp hpair
    obtain ⟨entry, hentry, hconverted⟩ := mem_converted hpairs hmem
    exact ⟨entry, hentry, hconverted.trans (congrArg some (Prod.ext (of_decide_eq_true hname) rfl))⟩
  refine ⟨⟨_, hmethod⟩, ⟨_, huri⟩, fun e he => ?_,
    fun e he value hvalue => ?_, hparts ▸ fits_pairs hsize⟩
  · obtain ⟨value, hvalue⟩ := List.exists_mem_of_ne_nil _ (parts.headers.nonempty e he)
    obtain ⟨entry, -, hentry⟩ := hsource e he value hvalue
    exact ⟨entry.1, (headerEntry_eq hentry).1⟩
  · obtain ⟨entry, -, hentry⟩ := hsource e he value hvalue
    exact (headerEntry_eq hentry).2.2

/-- Only an extension that has the name of a standard method is another method
for the host. -/
theorem requestParts_method {head : RequestHead}
    {parts : Http.Request} (h : crate.requestParts head = .ok parts) :
    hostMethod head.method = parts.method ∨
      ∃ name, head.method = .other name ∧ ∀ token, parts.method ≠ .extension token := by
  obtain ⟨hmethod, -⟩ := requestParts_ok h
  cases hhost : head.method with
  | other name =>
    rw [hhost] at hmethod
    by_cases hextension : ∃ token, parts.method = .extension token
    · obtain ⟨token, htoken⟩ := hextension
      rw [htoken] at hmethod
      obtain rfl := methodFromBytes_extension hmethod
      exact .inl htoken.symm
    · exact .inr ⟨name, rfl, not_exists.mp hextension⟩
  | get | head | post | put | delete | connect | options | trace | patch =>
    rw [hhost] at hmethod
    exact .inl (Option.some.inj hmethod)

end Parts

/-- The head of a request goes through the host unchanged. What the host sends
is converted without loss to a well-formed request, or answered with 400 before
the application runs. -/
theorem request_head_converted {crate : HttpCrate} (hcrate : crate.Documented) :
    (∀ request, WellFormed crate request →
      crate.requestParts (encode request) = .ok { request with body := [] } ∧
      ∀ body config, buildWithConfig (incoming crate (encode request) body) config =
        buildWithConfig ⟨.ok { request with body := [] }, request.method, body⟩ config) ∧
    (∀ head parts, crate.requestParts head = .ok parts →
      WellFormed crate parts ∧
      (∀ name, parts.headers.getAll name =
        (head.headers.filter fun entry => decide (headerName entry.1 = some name)).map Prod.snd) ∧
      (hostMethod head.method = parts.method ∨
        ∃ name, head.method = .other name ∧ ∀ token, parts.method ≠ .extension token)) ∧
    ∀ head e, crate.requestParts head = .error e → ∀ body config, ∃ core,
      buildWithConfig (incoming crate head body) config = some (.ok core) ∧
      ∀ crates app calls, (register crates core calls).2 = [] ∧
        ∀ core', (register crates core calls).1 = .ok core' →
          render crates app core' = (finish .get
            (plainResponse .badRequest (text "invalid request")), []) := by
  refine ⟨fun request h => ?_, fun head parts h => ?_, fun head e h body config => ?_⟩
  · have hparts := requestParts_encode hcrate h
    refine ⟨hparts, fun body config => ?_⟩
    have hmethod : hostMethod (encode request).method = request.method :=
      hostMethod_encode request.method
    rw [incoming, hparts, hmethod]
  · refine ⟨requestParts_wellFormed h, fun name => ?_, requestParts_method h⟩
    obtain ⟨-, -, hheaders, -⟩ := requestParts_ok h
    obtain ⟨pairs, hpairs, hconverted, -⟩ := (addHeaders_iff crate _ _).mp hheaders
    rw [hconverted, getAll_converted hpairs]
  · obtain rfl := requestParts_error h
    rw [incoming, h]
    refine ⟨_, rfl, fun crates app calls => ?_⟩
    exact render_rejected rfl calls

def plainCrate : HttpCrate where
  parseScheme := some
  parseAuthority := some
  parsePathAndQuery value :=
  if value.head? = some slash ∧ 63 ∉ value then some (value, none) else none
  maxNames := 24576

theorem plainCrate_documented : plainCrate.Documented where
  scheme value scheme h := (Option.some.inj h).symm
  authority value authority h := (Option.some.inj h).symm
  path value path query h := by
    simp only [plainCrate] at h
    split_ifs at h with hvalue
    obtain ⟨rfl, rfl⟩ := Prod.mk.inj (Option.some.inj h)
    rintro rfl
    cases hvalue.1
  display value path query h := by
    simp only [plainCrate] at h ⊢
    split_ifs at h with hvalue
    obtain ⟨rfl, rfl⟩ := Prod.mk.inj (Option.some.inj h)
    have hdisplay : displayPathAndQuery value none = value := List.append_nil value
    rw [hdisplay, if_pos hvalue]

/-- Two cookies around another header, as a host may order them. -/
def mixedHead : RequestHead :=
  ⟨.other "GET", some .https, some (text "example.com"), some (text "/a"),
    [("Cookie", text "a=1"), ("Accept", text "*/*"), ("cookie", text "b=2")]⟩

theorem request_head_converted_mixed :
    ∃ parts, plainCrate.requestParts mixedHead = .ok parts ∧
      parts.headers.getAll .cookie = [text "a=1", text "b=2"] ∧
      parts.method = .get := by
  obtain ⟨-, hconverted, -⟩ := request_head_converted plainCrate_documented
  have hparts : ∃ parts, plainCrate.requestParts mixedHead = .ok parts ∧ parts.method = .get :=
    ⟨_, rfl, rfl⟩
  obtain ⟨parts, hparts, hmethod⟩ := hparts
  refine ⟨parts, hparts, ?_, hmethod⟩
  rw [(hconverted mixedHead parts hparts).2.1]
  decide +kernel

end LeptosWasi.RequestRoundTrip
