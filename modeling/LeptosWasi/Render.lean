import LeptosWasi.Core

namespace LeptosWasi.Render

open Http Response Policy Routes ServerFns HttpUtil LeptosWasi.Core

/-- One run of the views: the chunks of the stream, the response options when
the first chunk is there, and what is written to them after the first merge. -/
structure Rendering where
  chunks : List Bytes
  options : ResponseParts
  late : ResponseParts → ResponseParts

/-- The application of one request: what its additional context writes and
what its views render in a mode, with or without islands navigation. -/
structure App where
  context : Request → ResponseParts → ResponseParts
  view : Request → SsrMode → Bool → ResponseParts → Rendering

def App.silent : App where
  context _ options := options
  view _ _ _ options := ⟨[], options, id⟩

def islandsRouterHeader : HeaderName := "islands-router"

def notFoundResponse : Http.Response := plainResponse .notFound (text "404 not found")

structure Answer where
  response : Option Http.Response
  options : ResponseParts
  effects : List Effect

section

variable (crates : Crates) (app : App)

def isIslandsRouterNavigation (req : Request) : Bool :=
  crates.islandsRouter && req.headers.containsKey islandsRouterHeader

def answerServerFn (req : Request) (handler : ServerFnHandler) : Answer :=
  let options := app.context req .default
  let headers := mirrorReferrerSpelling req.headers
  let (response, options) := handler { req with headers := headers } options
  { response := some
      (applyServerFnRedirect crates.parseUri response (acceptsHtml headers) (headers.get .referer))
    options := options
    effects := [.requestContext, .serverFn] }

def answerSsr (req : Request) (mode : SsrMode) : Answer :=
  let rendering :=
    app.view req mode (isIslandsRouterNavigation crates req) (app.context req .default)
  let (response, options) := fromApp rendering.chunks rendering.options
  { response := some response
    options := rendering.late options
    effects := [.requestContext, .appRender] }

def answer (core : HandlerCore) : Answer :=
  match core.selection with
  | .notFound => ⟨none, .default, []⟩
  | .preset response _ => ⟨some response, .default, []⟩
  | .serverFn handler => answerServerFn crates app core.req handler
  | .unclaimed =>
    match (crates.bestMatch core.ssrRouter core.req.uri.path).map RouteListing.mode with
    | some mode => answerSsr crates app core.req mode
    | none => ⟨none, .default, []⟩

def Answer.merge (a : Answer) : Http.Response :=
  (a.response.map fun response => (extendResponse response a.options).1).getD notFoundResponse

/-- What follows the merge, for every response. -/
def finish (method : Method) (response : Http.Response) : Http.Response :=
  let response := setDefaultNosniff response
  { response with
    headers := insertContentLength response.headers (syncLength response.body)
    body := if method = .head then .sync [] else response.body }

def render (core : HandlerCore) : Http.Response × List Effect :=
  let a := answer crates app core
  (finish core.req.method a.merge, a.effects)

end

theorem getAll_finish (method : Method) (response : Http.Response) (name : HeaderName) :
    (finish method response).headers.getAll name =
      if name = .contentLength ∧ response.headers.getAll .contentLength = [] then
        ((syncLength response.body).map HeaderValue.fromNat).toList
      else if name = .xContentTypeOptions ∧ response.headers.getAll .xContentTypeOptions = [] then
        [text "nosniff"]
      else response.headers.getAll name := by
  have hlength : (response.headers.insertIfAbsent .xContentTypeOptions (text "nosniff")).getAll
      .contentLength = response.headers.getAll .contentLength := by
    rw [Multimap.getAll_insertIfAbsent, if_neg (fun h => absurd h.1 (by decide))]
  rw [finish, getAll_insertContentLength, setDefaultNosniff,
    hlength, Multimap.getAll_insertIfAbsent]

end LeptosWasi.Render
