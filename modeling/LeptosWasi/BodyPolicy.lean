import LeptosWasi.Preview2
import LeptosWasi.Preview3

namespace LeptosWasi.BodyPolicy

open Http Policy LeptosWasi.Core Request

inductive Verdict where
  | accepted (body : Bytes)
  | rejected (status : StatusCode)
deriving DecidableEq

def verdict (core : HandlerCore) : Verdict :=
  match core.selection with
  | .preset response .requestPolicy => .rejected response.status
  | _ => .accepted core.req.body

/-- The policy on the declared length and on the limit, for a whole body. -/
def limitPolicy (headers : HeaderMap) (limit : Nat) (body : Bytes) : Verdict :=
  match validateContentLength headers limit with
  | .error e => .rejected e.status
  | .ok _ => if limit < body.length then .rejected .payloadTooLarge else .accepted body

/-- The policy that also compares the declared length with the body. -/
def exactPolicy (headers : HeaderMap) (limit : Nat) (body : Bytes) : Verdict :=
  match validateContentLength headers limit with
  | .error e => .rejected e.status
  | .ok declared =>
    if limit < body.length then .rejected .payloadTooLarge
    else if declaredLengthMatches declared body.length then .accepted body
    else .rejected .badRequest

/-- A usable declared length is the length of the body, unless the body is
over the limit. -/
def Consistent (headers : HeaderMap) (limit : Nat) (body : Bytes) : Prop :=
  ∀ declared, validateContentLength headers limit = .ok (some declared) →
    limit < body.length ∨ declared = body.length

theorem exactPolicy_eq_limitPolicy_iff (headers : HeaderMap) (limit : Nat) (body : Bytes) :
    exactPolicy headers limit body = limitPolicy headers limit body ↔
    Consistent headers limit body := by
  unfold exactPolicy limitPolicy Consistent
  cases hv : validateContentLength headers limit with
  | error e => simp
  | ok declared =>
    by_cases hlimit : limit < body.length
    · simp [hlimit]
    · cases declared with
      | none => simp [hlimit, declaredLengthMatches]
      | some declared => simp [hlimit, declaredLengthMatches]

theorem limitPolicy_status {headers : HeaderMap} {limit : Nat} {body : Bytes} {status : StatusCode}
    (h : limitPolicy headers limit body = .rejected status) :
    status = .badRequest ∨ status = .payloadTooLarge := by
  rw [limitPolicy] at h
  cases hv : validateContentLength headers limit with
  | error e =>
    rw [hv] at h
    cases h
    exact validateContentLength_error hv
  | ok declared =>
    simp only [hv] at h
    split_ifs at h
    · cases h
      exact Or.inr rfl

theorem exactPolicy_status {headers : HeaderMap} {limit : Nat} {body : Bytes} {status : StatusCode}
    (h : exactPolicy headers limit body = .rejected status) :
    status = .badRequest ∨ status = .payloadTooLarge := by
  rw [exactPolicy] at h
  cases hv : validateContentLength headers limit with
  | error e =>
    rw [hv] at h
    cases h
    exact validateContentLength_error hv
  | ok declared =>
    simp only [hv] at h
    split_ifs at h
    · cases h
      exact Or.inr rfl
    · cases h
      exact Or.inl rfl

/-- Preview 2 enforces the exact policy on what the host delivers. -/
theorem preview2_verdict (parts : Http.Request) (config : HandlerConfig)
    (hbudget : config.requestBodyTimeoutNs = none) (hget : parts.method ≠ .get)
    (hhead : parts.method ≠ .head) (chunks : List Bytes) (iterations : List Iteration)
    (hread : iterations.map Iteration.read = chunks.map StreamRead.data ++ [.closed]) :
    ∃ core, Preview2.buildWithConfig ⟨.ok parts, parts.method, ⟨true, true, iterations⟩⟩ config =
        some (.ok core) ∧
      verdict core = exactPolicy parts.headers config.maxRequestBodySize chunks.flatten := by
  have hcollect := collectWasiBody_closed hget hhead parts.headers config.maxRequestBodySize chunks
    iterations hread
  simp only [Preview2.buildWithConfig, hbudget, hcollect, Option.map_some, Option.some.injEq]
  rw [exactPolicy]
  cases validateContentLength parts.headers config.maxRequestBodySize with
  | error e => exact ⟨_, rfl, rfl⟩
  | ok declared =>
    simp only
    split_ifs with hlimit hdeclared
    · exact ⟨_, rfl, rfl⟩
    · exact ⟨_, rfl, rfl⟩
    · exact ⟨_, rfl, rfl⟩

/-- Preview 3 enforces the limit only. -/
theorem preview3_verdict {collect : Preview3.LimitedCollect} (hc : collect.Documented)
    (parts : Http.Request) (config : HandlerConfig) (hbudget : config.requestBodyTimeoutNs = none)
    (chunks : List Bytes) (expired : Bool) :
    ∃ core, Preview3.buildWithConfig collect parts ⟨chunks, none⟩ config expired = .ok core ∧
      verdict core = limitPolicy parts.headers config.maxRequestBodySize chunks.flatten := by
  simp only [Preview3.buildWithConfig, Preview3.ingest, hbudget, Option.isSome_none, Bool.false_and,
    Bool.false_eq_true, if_false, Preview3.collect_clean hc]
  rw [limitPolicy]
  cases validateContentLength parts.headers config.maxRequestBodySize with
  | error e => exact ⟨_, rfl, rfl⟩
  | ok declared =>
    simp only
    split_ifs with hlimit
    · exact ⟨_, rfl, rfl⟩
    · exact ⟨_, rfl, rfl⟩

/-- The two previews agree on a body exactly when its declared length is
consistent with it, and neither looks at how the body was cut. -/
theorem previews_agree_iff {collect : Preview3.LimitedCollect} (hc : collect.Documented)
    (parts : Http.Request) (config : HandlerConfig) (hbudget : config.requestBodyTimeoutNs = none)
    (hget : parts.method ≠ .get) (hhead : parts.method ≠ .head) (chunks₂ chunks₃ : List Bytes)
    (hcut : chunks₂.flatten = chunks₃.flatten) (iterations : List Iteration)
    (hread : iterations.map Iteration.read = chunks₂.map StreamRead.data ++ [.closed])
    (expired : Bool) :
    ∃ core₂ core₃,
      Preview2.buildWithConfig ⟨.ok parts, parts.method, ⟨true, true, iterations⟩⟩ config =
        some (.ok core₂) ∧
      Preview3.buildWithConfig collect parts ⟨chunks₃, none⟩ config expired = .ok core₃ ∧
      verdict core₂ = exactPolicy parts.headers config.maxRequestBodySize chunks₂.flatten ∧
      verdict core₃ = limitPolicy parts.headers config.maxRequestBodySize chunks₂.flatten ∧
      (∀ status, verdict core₂ = .rejected status ∨ verdict core₃ = .rejected status →
        status = .badRequest ∨ status = .payloadTooLarge) ∧
      (verdict core₂ = verdict core₃ ↔
        Consistent parts.headers config.maxRequestBodySize chunks₂.flatten) := by
  obtain ⟨core₂, h₂, hv₂⟩ :=
    preview2_verdict parts config hbudget hget hhead chunks₂ iterations hread
  obtain ⟨core₃, h₃, hv₃⟩ := preview3_verdict hc parts config hbudget chunks₃ expired
  rw [← hcut] at hv₃
  refine ⟨core₂, core₃, h₂, h₃, hv₂, hv₃, fun status hs => ?_, ?_⟩
  · rw [hv₂, hv₃] at hs
    exact hs.elim exactPolicy_status limitPolicy_status
  · rw [hv₂, hv₃, exactPolicy_eq_limitPolicy_iff]

def readsOf (chunks : List Bytes) : List Iteration :=
  (chunks.map fun chunk => ⟨false, .data chunk, false⟩) ++ [⟨false, .closed, false⟩]

/-- Two bytes without a declared length, cut in two ways. -/
theorem previews_agree_undeclared :
    ∃ core₂ core₃,
      Preview2.buildWithConfig
          ⟨.ok ⟨.post, pathUri "/", ∅, []⟩, .post, ⟨true, true, readsOf [[97], [98]]⟩⟩ .default =
        some (.ok core₂) ∧
      Preview3.buildWithConfig Preview3.limitedCollect ⟨.post, pathUri "/", ∅, []⟩
        ⟨[[97, 98]], none⟩ .default false = .ok core₃ ∧
      verdict core₂ = verdict core₃ := by
  obtain ⟨core₂, core₃, h₂, h₃, _, _, _, hiff⟩ :=
    previews_agree_iff Preview3.limitedCollect_documented ⟨.post, pathUri "/", ∅, []⟩ .default rfl
      (by decide) (by decide) [[97], [98]] [[97, 98]] rfl (readsOf [[97], [98]]) rfl false
  exact ⟨core₂, core₃, h₂, h₃, hiff.mpr fun declared hd => by cases hd⟩

/-- A body of three bytes that is declared as five. -/
theorem previews_disagree_short_body :
    ∃ core₂ core₃,
      Preview2.buildWithConfig
          ⟨.ok ⟨.post, pathUri "/", (∅ : HeaderMap).insert .contentLength (text "5"), []⟩, .post,
            ⟨true, true, readsOf [text "abc"]⟩⟩ .default = some (.ok core₂) ∧
      Preview3.buildWithConfig Preview3.limitedCollect
          ⟨.post, pathUri "/", (∅ : HeaderMap).insert .contentLength (text "5"), []⟩
          ⟨[text "abc"], none⟩ .default false = .ok core₃ ∧
      verdict core₂ = .rejected .badRequest ∧ verdict core₃ = .accepted (text "abc") :=
  ⟨_, _, rfl, rfl, by decide +kernel, by decide +kernel⟩

end LeptosWasi.BodyPolicy
