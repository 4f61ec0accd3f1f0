import LeptosWasi.Render

namespace LeptosWasi.Utils

open Http Response HttpUtil ServerFns LeptosWasi.Core Render

def redirectHeader : HeaderName := "serverfnredirect"

def writeRedirect (req : Request) (path : Bytes) (res : ResponseParts) : ResponseParts :=
  match HeaderValue.fromStr path with
  | some value =>
    let res := res.insertHeader .location value
    if acceptsHtml req.headers then res.setStatus .found else res.insertHeader redirectHeader []
  | none => res.setStatus .badRequest

/-- Without both contexts there is nothing to write to. -/
def redirect (req : Option Request) (path : Bytes) (res : Option ResponseParts) :
    Option ResponseParts :=
  match req, res with
  | some req, some res => some (writeRedirect req path res)
  | _, res => res

def redirects (req : Request) (paths : List Bytes) (res : ResponseParts) : ResponseParts :=
  (paths.foldl (fun res path => redirect (some req) path res) (some res)).getD res

/-- A server function that redirects, after all that it does. -/
def redirectingFn (req : Request) (paths : List Bytes) (handler : ServerFnHandler) :
    ServerFnHandler :=
  fun request options =>
    let (response, options) := handler request options
    (response, redirects req paths options)

/-- An application whose views redirect, up to the first chunk. -/
def redirectingApp (paths : List Bytes) (app : App) : App where
  context := app.context
  view req mode navigation options :=
    let rendering := app.view req mode navigation options
    { rendering with options := redirects req paths rendering.options }

end LeptosWasi.Utils
