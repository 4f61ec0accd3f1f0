import LeptosWasi.HttpUtil

namespace LeptosWasi.ServerFns

open Http Response Policy HttpUtil

/-- The boxed handler of a server function. It reads the request and may
write the response options of its reactive context. -/
abbrev ServerFnHandler := Request → ResponseParts → Http.Response × ResponseParts

/-- A registered server function type: where it is mounted and what running
it through its middleware does. -/
structure ServerFn where
  method : Method
  path : Bytes
  runOnServer : ServerFnHandler

def boxedHandler (f : ServerFn) (limit : Nat) : ServerFnHandler := fun request options =>
  if limit < request.body.length then (policyResponse (.bodyTooLarge limit), options)
  else f.runOnServer request options

def applyServerFnRedirect (parseUri : Bytes → Option (Option Bytes)) (response : Http.Response)
    (acceptsHtml : Bool) (referrer : Option HeaderValue) : Http.Response :=
  let status := response.status
  let promotable := status.isSuccess || status.isRedirection
  let target := fun value => (sanitizeReferrer parseUri value).getD (text "/")
  let promoted : Option HeaderValue :=
    if acceptsHtml && promotable && !response.headers.containsKey .location then referrer else none
  match promoted with
  | some referrer =>
    { response with
      status := .found
      headers := response.headers.insert .location (target referrer) }
  | none =>
    match response.headers.get .location with
    | some location =>
      if status.isRedirection then
        { response with headers := response.headers.insert .location (target location) }
      else response
    | none => response

end LeptosWasi.ServerFns
