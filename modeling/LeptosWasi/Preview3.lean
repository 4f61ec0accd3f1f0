import LeptosWasi.Core

namespace LeptosWasi.Preview3

open Http Policy LeptosWasi.Core

structure ErrorCode where
  name : String
deriving DecidableEq

def ErrorCode.internalError : ErrorCode := ⟨"internal-error"⟩

inductive CollectError where
  | lengthLimit
  | code (code : ErrorCode)
  | other
deriving DecidableEq

/-- A body as its data frames and how it ends. -/
structure IncomingBody where
  chunks : List Bytes
  failure : Option CollectError

abbrev LimitedCollect := Nat → IncomingBody → Except CollectError Bytes

/-- A limited body fails once the running total exceeds its limit, and else
ends as the body does. -/
structure LimitedCollect.Documented (collect : LimitedCollect) : Prop where
  exceeds : ∀ limit body, (∃ read, read <+: body.chunks ∧ limit < read.flatten.length) →
    collect limit body = .error .lengthLimit
  collects : ∀ limit chunks, (∀ read, read <+: chunks → read.flatten.length ≤ limit) →
    collect limit ⟨chunks, none⟩ = .ok chunks.flatten

def limitedCollect : LimitedCollect := fun limit body =>
  if limit < body.chunks.flatten.length then .error .lengthLimit
  else body.failure.elim (.ok body.chunks.flatten) .error

inductive Ingested where
  | collected (parts : Http.Request) (body : Bytes)
  | rejected (parts : Http.Request) (policy : RequestPolicyError)

inductive HandlerError where
  | wasi (code : ErrorCode)
  | responseStream
deriving DecidableEq

section

variable (collect : LimitedCollect)

/-- A configured budget may expire before the collection ends. -/
def ingest (parts : Http.Request) (body : IncomingBody) (config : HandlerConfig) (expired : Bool) :
    Except HandlerError Ingested :=
  match validateContentLength parts.headers config.maxRequestBodySize with
  | .error policy => .ok (.rejected parts policy)
  | .ok _ =>
    if config.requestBodyTimeoutNs.isSome && expired then
      .ok (.rejected parts (.bodyReadTimeout (config.requestBodyTimeoutNs.getD 0)))
    else
      match collect config.maxRequestBodySize body with
      | .ok body => .ok (.collected parts body)
      | .error .lengthLimit => .ok (.rejected parts (.bodyTooLarge config.maxRequestBodySize))
      | .error (.code code) => .error (.wasi code)
      | .error .other => .error (.wasi .internalError)

def fromIngested (ingested : Ingested) (config : HandlerConfig) : HandlerCore :=
  match ingested with
  | .collected parts body => HandlerCore.new { parts with body := body } config
  | .rejected parts policy =>
    (HandlerCore.new { parts with body := [] } config).withPreset
    (policyResponse policy) .requestPolicy

def buildWithConfig (parts : Http.Request) (body : IncomingBody) (config : HandlerConfig)
    (expired : Bool) : Except HandlerError HandlerCore :=
  (ingest collect parts body config expired).map fun ingested => fromIngested ingested config

end

theorem flatten_length_le_of_prefix {read chunks : List Bytes} (h : read <+: chunks) :
    read.flatten.length ≤ chunks.flatten.length := by
  obtain ⟨rest, rfl⟩ := h
  rw [List.flatten_append, List.length_append]
  omega

theorem limitedCollect_documented : limitedCollect.Documented where
  exceeds limit body h := by
    obtain ⟨read, hr, hlimit⟩ := h
    have hle := flatten_length_le_of_prefix hr
    exact if_pos (by omega)
  collects limit chunks h := by
    have hle := h chunks List.prefix_rfl
    exact if_neg (by change ¬ limit < chunks.flatten.length; omega)

theorem collect_clean {collect : LimitedCollect} (hc : collect.Documented) (limit : Nat)
    (chunks : List Bytes) :
    collect limit ⟨chunks, none⟩ =
      if limit < chunks.flatten.length then .error .lengthLimit else .ok chunks.flatten := by
  split_ifs with h
  · exact hc.exceeds limit ⟨chunks, none⟩ ⟨chunks, List.prefix_rfl, h⟩
  · refine hc.collects limit chunks fun read hr => ?_
    have hle := flatten_length_le_of_prefix hr
    omega

end LeptosWasi.Preview3
