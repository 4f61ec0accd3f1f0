import LeptosWasi.Preview2
import LeptosWasi.Preview3
import LeptosWasi.Registration
import LeptosWasi.Render

namespace LeptosWasi.FirstClaim

open Http Policy Routes ServerFns LeptosWasi.Core Render Registration

section

variable {crates : Crates} {app : App}

theorem render_claimed {core : HandlerCore} (hc : core.shortcut = true) (table : RouteTable)
    (registered : Bool) :
    render crates app { core with ssrRouter := table, routesRegistered := registered } =
      render crates app core := by
  rw [shortcut_iff] at hc
  cases hs : core.selection with
  | unclaimed => exact absurd hs hc
  | notFound => simp only [render, answer, hs]
  | preset response routeClass => simp only [render, answer, hs]
  | serverFn handler => simp only [render, answer, hs]

theorem render_after_claim {core core' : HandlerCore} (hc : core.shortcut = true)
    (h : core' = { core with routesRegistered := core'.routesRegistered }) :
    render crates app core' = render crates app core := by
  rw [h]
  exact render_claimed hc core.ssrRouter core'.routesRegistered

theorem render_preset {core : HandlerCore} {response : Http.Response} {routeClass : RouteClass}
    (hs : core.selection = .preset response routeClass) :
    render crates app core = (finish core.req.method response, []) := by
  simp only [render, answer, hs, Answer.merge, Option.map_some, Option.getD_some,
    Response.extendResponse_default]

theorem render_rejected {core : HandlerCore} {response : Http.Response}
    (hs : core.selection = .preset response .requestPolicy) (calls : List BuilderCall) :
    (register crates core calls).2 = [] ∧
      ∀ core', (register crates core calls).1 = .ok core' →
        render crates app core' = (finish core.req.method response, []) := by
  have hc : core.shortcut = true := by
    rw [shortcut_iff, hs]
    simp
  refine ⟨register_claimed_effects hc calls, fun core' h => ?_⟩
  obtain ⟨hcore, -⟩ :=
    register_claimed hc (Prod.ext h rfl : register crates core calls = (.ok core', _))
  rw [render_after_claim hc hcore, render_preset hs]

end

/-- The first call that claims a request decides the response. Whatever comes
after it runs nothing and changes nothing, and a rejected request runs nothing
at all. -/
theorem first_claim_wins (crates : Crates) (app : App) (req : Request) (config : HandlerConfig)
    (calls : List BuilderCall) :
    (∀ core effects, register crates (HandlerCore.new req config) calls = (.ok core, effects) →
      ((∀ call ∈ calls, claims req call = false) → core.selection = .unclaimed) ∧
      (∀ before call after, calls = before ++ call :: after → (∀ c ∈ before, claims req c = false) →
        claims req call = true →
          core.selection = claimed crates req config call ∧ core.selection ≠ .unclaimed) ∧
      (∀ before after, calls = before ++ after → ∃ mid e₁ e₂,
        register crates (HandlerCore.new req config) before = (.ok mid, e₁) ∧ effects = e₁ ++ e₂ ∧
          (mid.selection ≠ .unclaimed → core.selection = mid.selection ∧ e₂ = [] ∧
            render crates app core = render crates app mid)) ∧
      (core.selection ≠ .unclaimed → ∀ table registered,
        render crates app { core with ssrRouter := table, routesRegistered := registered } =
          render crates app core)) ∧
    (∀ start policy,
      start = Preview2.policyRejection policy req config ∨
        start = Preview3.fromIngested (.rejected req policy) config →
      (register crates start calls).2 = [] ∧ ∀ core, (register crates start calls).1 = .ok core →
        render crates app core = (finish req.method (policyResponse policy), [])) := by
  have hnew : (HandlerCore.new req config).shortcut = false := rfl
  refine ⟨fun core effects h => ⟨fun hno => ?_, fun before call after hcalls hno hcall => ?_,
    fun before after hcalls => ?_, fun hc table registered => ?_⟩, fun start policy hstart => ?_⟩
  · exact (register_unclaimed hnew hno h).1
  · rw [hcalls] at h
    obtain ⟨mid, e, _, hc, hsel, _, hcore⟩ := register_first_claim hnew hno hcall h
    rw [hcore]
    exact ⟨hsel, (shortcut_iff mid).mp hc⟩
  · rw [hcalls] at h
    obtain ⟨mid, e₁, e₂, hbefore, hafter, rfl⟩ := register_append h
    refine ⟨mid, e₁, e₂, hbefore, rfl, fun hc => ?_⟩
    obtain ⟨hcore, rfl⟩ := register_claimed ((shortcut_iff mid).mpr hc) hafter
    exact ⟨by rw [hcore], rfl, render_after_claim ((shortcut_iff mid).mpr hc) hcore⟩
  · exact render_claimed ((shortcut_iff core).mpr hc) table registered
  · obtain rfl | rfl := hstart
    · exact render_rejected rfl calls
    · exact render_rejected rfl calls

def pingFn : ServerFn where
  method := .post
  path := text "/api/ping"
  runOnServer _ options := (Http.Response.new (.sync (text "pong")), options)

/-- A server function before a prefix that covers its path. -/
theorem first_claim_wins_server_fn :
    ∃ core, register .originForm (HandlerCore.new ⟨.post, pathUri "/api/ping", ∅, []⟩ .default)
        [.withServerFn pingFn, .staticFilesHandlerWith (.ok (pathUri "/")) fun _ => none,
          .generateRoutes [] none] = (.ok core, []) ∧
      core.selection = .serverFn (boxedHandler pingFn defaultMaxRequestBodySize) := by
  obtain ⟨hrun, -⟩ :=
    first_claim_wins .originForm .silent ⟨.post, pathUri "/api/ping", ∅, []⟩ .default
    [.withServerFn pingFn, .staticFilesHandlerWith (.ok (pathUri "/")) fun _ => none,
      .generateRoutes [] none]
  exact ⟨_, rfl, ((hrun _ _ rfl).2.1 [] _ _ rfl (by simp) (by decide)).1⟩

end LeptosWasi.FirstClaim
