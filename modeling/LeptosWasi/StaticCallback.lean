import LeptosWasi.Core
import LeptosWasi.StaticPathSafety

namespace LeptosWasi.StaticCallback

open Http Policy LeptosWasi.Core StaticFiles HttpUtil StaticPathSafety Percent

/-- The path is the prefix or extends it at a separator. A separator at the
end of the prefix counts. -/
def AtBoundary (prefixPath reqPath : Bytes) : Prop :=
  reqPath = prefixPath ∨
    ∃ rest, reqPath = prefixPath ++ rest ∧
      (rest.head? = some slash ∨ prefixPath.getLast? = some slash)

theorem stripPrefix_eq_some {pre s rest : Bytes} :
    stripPrefix pre s = some rest ↔ s = pre ++ rest := by
  rw [stripPrefix]
  constructor
  · intro h
    split_ifs at h with hp
    obtain ⟨tail, rfl⟩ := List.isPrefixOf_iff_prefix.mp hp
    rw [List.drop_left, Option.some.injEq] at h
    rw [h]
  · rintro rfl
    rw [if_pos (List.isPrefixOf_iff_prefix.mpr (List.prefix_append pre rest)), List.drop_left]

theorem prefixMatches_iff (prefixPath reqPath : Bytes) :
    prefixMatches prefixPath reqPath = true ↔ AtBoundary prefixPath reqPath := by
  simp only [prefixMatches, AtBoundary, endsWithSlash,
    Bool.or_eq_true, beq_iff_eq, Option.any_eq_true,
    stripPrefix_eq_some]

theorem claimStatic_effects {crates : Crates} {core : HandlerCore} {prefixPath : Bytes}
    {handler : StaticRequest → Option Http.Response} {request : StaticRequest}
    (h : .staticCallback request ∈ (claimStatic crates core prefixPath handler).2) :
    (core.req.method = .get ∨ core.req.method = .head) ∧
      normalizeStaticPath (rawStaticPath prefixPath core.req.uri.path) = .ok request.path := by
  rw [claimStatic] at h
  simp only at h
  split_ifs at h with hm
  · cases h
  · refine ⟨by tauto, ?_⟩
    cases hn : normalizeStaticPath (rawStaticPath prefixPath core.req.uri.path) with
    | error e =>
      rw [hn] at h
      cases h
    | ok decoded =>
      rw [hn] at h
      have hr : request = staticRequest core.req decoded := by
        cases hh : handler (staticRequest core.req decoded) <;> simpa [hh] using h
      rw [hr]
      rfl

/-- A callback only ever sees a safe key, now and after any number of further
decodings, for a permitted method and a path under its prefix. -/
theorem staticFilesHandlerWith_callback_safe (crates : Crates) (core : HandlerCore)
    (pre : Except Bytes Uri) (handler : StaticRequest → Option Http.Response)
    (request : StaticRequest)
    (h : .staticCallback request ∈ (staticFilesHandlerWith crates core pre handler).2) :
    (core.req.method = .get ∨ core.req.method = .head) ∧
      ∃ prefixPath, staticPrefix pre = .ok prefixPath ∧ AtBoundary prefixPath core.req.uri.path ∧
        normalizeStaticPath (rawStaticPath prefixPath core.req.uri.path) = .ok request.path ∧
        ∀ n, SafeKey (decode^[n] request.path) ∧
          (decode^[n] request.path).splitOn slash =
          (request.path.splitOn slash).map decode^[n] := by
  rw [staticFilesHandlerWith] at h
  cases hp : staticPrefix pre with
  | error e =>
    rw [hp] at h
    cases h
  | ok prefixPath =>
    rw [hp] at h
    simp only at h
    split_ifs at h with hs hm
    · cases h
    · obtain ⟨hmethod, hn⟩ := claimStatic_effects h
      exact ⟨hmethod, prefixPath, rfl, (prefixMatches_iff _ _).mp hm,
        hn, normalizeStaticPath_safe hn⟩
    · cases h

/-- A key that is encoded twice, under a prefix without a final separator. -/
theorem callback_safe_encoded_twice :
    SafeKey (decode^[1] (text "a%41.txt")) ∧
      (decode^[1] (text "a%41.txt")).splitOn slash =
      ((text "a%41.txt").splitOn slash).map decode^[1] := by
  obtain ⟨_, _, _, _, _, hsafe⟩ :=
    staticFilesHandlerWith_callback_safe .originForm
      (HandlerCore.new ⟨.get, pathUri "/pkg/a%2541.txt", ∅, []⟩ .default) (.ok (pathUri "/pkg"))
      (fun _ => none) ⟨text "a%41.txt", none, none, none⟩ (by decide +kernel)
  exact hsafe 1

end LeptosWasi.StaticCallback
