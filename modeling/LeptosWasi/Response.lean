import LeptosWasi.Http

namespace LeptosWasi.Response

open Http

structure ResponseParts where
  headers : HeaderMap
  status : Option StatusCode

namespace ResponseParts

def default : ResponseParts := ⟨∅, none⟩

def setStatus (p : ResponseParts) (status : StatusCode) : ResponseParts :=
  { p with status := some status }

def clearStatus (p : ResponseParts) : ResponseParts := { p with status := none }

def insertHeader (p : ResponseParts) (key : HeaderName) (value : HeaderValue) : ResponseParts :=
  { p with headers := p.headers.insert key value }

def appendHeader (p : ResponseParts) (key : HeaderName) (value : HeaderValue) : ResponseParts :=
  { p with headers := p.headers.append key value }

def overwrite (_ parts : ResponseParts) : ResponseParts := parts

end ResponseParts

def listValued : List HeaderName :=
  [.setCookie, .cookie, .wwwAuthenticate, .link, .accept, .acceptEncoding, .acceptLanguage,
    .cacheControl, .warning]

def isListValued (name : HeaderName) : Bool := name ∈ listValued

/-- The loop of `extend_response`. An item without a name belongs to the
name carried over from the items before it. -/
def extendLoop : Option HeaderName → HeaderMap → List (Option HeaderName × HeaderValue) → HeaderMap
  | _, dest, [] => dest
  | currentName, dest, (name, value) :: rest =>
    let currentName := name.or currentName
    match currentName with
    | none => extendLoop currentName dest rest
    | some name =>
      if isListValued name then extendLoop currentName (dest.append name value) rest
      else extendLoop currentName (dest.insert name value) rest

def extendResponse (response : Http.Response) (opt : ResponseParts) :
    Http.Response × ResponseParts :=
  let response := { response with
    status := opt.status.getD response.status
    headers := extendLoop none response.headers opt.headers.iter }
  (response, { opt with headers := ∅ })

def setDefaultContentType (response : Http.Response) (contentType : Bytes) : Http.Response :=
  match HeaderValue.fromStr contentType with
  | some contentType =>
    { response with headers := response.headers.insertIfAbsent .contentType contentType }
  | none => response

/-- The SSR response: both the merge and the default content type come after
the first chunk of the stream. -/
def fromApp (chunks : List Bytes) (responseOptions : ResponseParts) :
    Http.Response × ResponseParts :=
  let response := Http.Response.new (.async (chunks.map .ok))
  let (response, responseOptions) := extendResponse response responseOptions
  (setDefaultContentType response (text "text/html; charset=utf-8"), responseOptions)

def merged (name : HeaderName) (own override : List HeaderValue) : List HeaderValue :=
  if isListValued name then own ++ override
  else
    match override.getLast? with
    | some value => [value]
    | none => own

theorem extendLoop_values (name : HeaderName) (values : List HeaderValue) (dest : HeaderMap)
    (rest : List (Option HeaderName × HeaderValue)) :
    ∃ dest' : HeaderMap,
      extendLoop (some name) dest (values.map (fun v => (none, v)) ++ rest) =
        extendLoop (some name) dest' rest ∧
      ∀ key, dest'.getAll key =
        if key = name then merged name (dest.getAll name) values else dest.getAll key := by
  induction values generalizing dest with
  | nil => exact ⟨dest, rfl, fun key => by split_ifs with h <;> simp [merged, h]⟩
  | cons value values ih =>
    by_cases hl : isListValued name = true
    · obtain ⟨dest', he, hg⟩ := ih (dest.append name value)
      refine ⟨dest', ?_, fun key => ?_⟩
      · rw [← he, List.map_cons, List.cons_append, extendLoop]
        simp [hl]
      · rw [hg]
        by_cases hk : key = name
        · simp [hk, merged, hl]
        · simp [hk]
    · obtain ⟨dest', he, hg⟩ := ih (dest.insert name value)
      refine ⟨dest', ?_, fun key => ?_⟩
      · rw [← he, List.map_cons, List.cons_append, extendLoop]
        simp [hl]
      · rw [hg]
        by_cases hk : key = name
        · subst hk
          cases values <;> simp [merged, hl, List.getLast?_cons]
        · simp [hk]

theorem extendLoop_entries (es : List (HeaderName × List HeaderValue))
    (hn : (es.map Prod.fst).Nodup) (hne : ∀ e ∈ es, e.2 ≠ [])
    (current : Option HeaderName) (dest : HeaderMap) (key : HeaderName) :
    (extendLoop current dest (Multimap.items es)).getAll key =
      merged key (dest.getAll key) ((es.lookup key).getD []) := by
  induction es generalizing current dest with
  | nil => simp [Multimap.items, extendLoop, merged]
  | cons e es ih =>
    obtain ⟨name, values⟩ := e
    rw [List.map_cons, List.nodup_cons] at hn
    cases values with
    | nil => exact absurd rfl (hne _ (List.mem_cons_self))
    | cons value values =>
      have hstart : extendLoop current dest (Multimap.items ((name, value :: values) :: es)) =
          extendLoop (some name) dest
            ((value :: values).map (fun v => (none, v)) ++ Multimap.items es) := by
        simp only [Multimap.items, List.flatMap_cons, List.cons_append, List.map_cons, extendLoop,
          Option.some_or, Option.none_or]
      obtain ⟨dest', he, hg⟩ := extendLoop_values name (value :: values) dest (Multimap.items es)
      rw [hstart, he, ih hn.2 (fun e he => hne e (List.mem_cons_of_mem _ he)), hg]
      by_cases hk : key = name
      · subst hk
        have hl : es.lookup key = none := Multimap.lookup_of_not_mem hn.1
        simp [hl, merged]
      · rw [if_neg hk, Multimap.lookup_cons_ne hk]

@[simp] theorem merged_nil (name : HeaderName) (own : List HeaderValue) :
    merged name own [] = own := by
  simp [merged]

theorem getAll_extendResponse (response : Http.Response) (opt : ResponseParts) (key : HeaderName) :
    (extendResponse response opt).1.headers.getAll key =
      merged key (response.headers.getAll key) (opt.headers.getAll key) :=
  extendLoop_entries opt.headers.entries opt.headers.nodup opt.headers.nonempty none _ key

@[simp] theorem extendResponse_status (response : Http.Response) (opt : ResponseParts) :
    (extendResponse response opt).1.status = opt.status.getD response.status := rfl

@[simp] theorem extendResponse_body (response : Http.Response) (opt : ResponseParts) :
    (extendResponse response opt).1.body = response.body := rfl

@[simp] theorem extendResponse_options (response : Http.Response) (opt : ResponseParts) :
    (extendResponse response opt).2 = { opt with headers := ∅ } := rfl

@[simp] theorem extendResponse_default (response : Http.Response) :
    (extendResponse response .default).1 = response := rfl

theorem setDefaultContentType_eq (response : Http.Response) {contentType value : Bytes}
    (hv : HeaderValue.fromStr contentType = some value) :
    setDefaultContentType response contentType =
      { response with headers := response.headers.insertIfAbsent .contentType value } := by
  simp only [setDefaultContentType, hv]

end LeptosWasi.Response
