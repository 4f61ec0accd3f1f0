import LeptosWasi.SsrStream

namespace LeptosWasi.SsrDelivery

open Http Response Routes PollStream Seen SsrStream

variable {S P D : Type} {v : Views S P D} {built : PinnedStream}

def scriptTag (nonce : Option Bytes) (chunk : Bytes) : Bytes :=
  match nonce with
  | none => text "<script>" ++ chunk ++ text "</script>"
  | some nonce => text "<script nonce=\"" ++ nonce ++ text "\">" ++ chunk ++ text "</script>"

def collects : SsrMode → Bool
  | .async | .static => true
  | .inOrder | .partiallyBlocked | .outOfOrder => false

def reorders : SsrMode → Bool
  | .partiallyBlocked | .outOfOrder => true
  | .async | .static | .inOrder => false

/-- The chunks of a page, as far as its streams were read: what the views
rendered, as one chunk where the mode collects it, and then every chunk of the
data for hydration in a tag of its own. -/
inductive PageChunks (v : Views S P D) (islandsRouter supportsOutOfOrder : Bool) (mode : SsrMode) :
    List Bytes → Bool → Prop
  | collected {html : List (Seen Write Bytes)} {s : S} (hm : collects mode = true)
      (h : Runs (v.html islandsRouter (reorders mode && supportsOutOfOrder)) v.start html true s) :
      PageChunks v islandsRouter supportsOutOfOrder mode [] false
  | views {html : List (Seen Write Bytes)} {s : S} (hm : collects mode = false)
      (h : Runs (v.html islandsRouter (reorders mode && supportsOutOfOrder)) v.start html false s) :
      PageChunks v islandsRouter supportsOutOfOrder mode (items html) false
  | scripts {html data : List (Seen Write Bytes)} {s : S} {p : P} {ended : Bool}
      (h : Runs (v.html islandsRouter (reorders mode && supportsOutOfOrder)) v.start html true s)
      (hd : Runs v.pendingData v.pendingStart data ended p) :
      PageChunks v islandsRouter supportsOutOfOrder mode
        ((if collects mode then [(items html).flatten] else items html) ++ (items data).map
          (scriptTag v.nonce)) ended

/-- The chunks of a page in the groups in which they were ready. -/
structure Page (v : Views S P D) (islandsRouter supportsOutOfOrder : Bool) (mode : SsrMode)
    (groups : List (List Bytes)) (ended : Bool) : Prop where
  chunks : PageChunks v islandsRouter supportsOutOfOrder mode groups.flatten ended
  sized : ∀ group ∈ groups, group ≠ [] ∧ group.length ≤ 32

def document (inject : Bytes → Bytes) : List (List Bytes) → List Bytes
  | [] => [inject []]
  | group :: groups => inject group.flatten :: groups.map List.flatten

section Built

variable {islandsRouter supportsOutOfOrder b : Bool} {mode : SsrMode} {writes : List Write}

theorem scripts_runs {log : List (Seen Write Bytes)}
    {p : P} (h : Runs v.scripts v.pendingStart log b p) :
    ∃ data, Runs v.pendingData v.pendingStart data b p ∧
      items log = (items data).map (scriptTag v.nonce) := by
  obtain ⟨data, hdata, rfl⟩ := map_runs h
  refine ⟨data, hdata, ?_⟩
  have hplain : text "<script" ++ text ">" = text "<script>" := by decide +kernel
  have hopen : text "<script" ++ text " nonce=\"" = text "<script nonce=\"" := by decide +kernel
  have hclose : text "\"" ++ text ">" = text "\">" := by decide +kernel
  rw [items_map]
  congr 1
  funext chunk
  cases v.nonce with
  | none => simp only [scriptTag, Option.elim_none, List.append_nil, hplain]
  | some nonce => simp only [scriptTag, Option.elim_some, ← hopen, ← hclose, List.append_assoc]

theorem collected_runs (hm : collects mode = true) {html : List (Seen Write Bytes)} {t : S}
    (h : Runs (v.html islandsRouter (reorders mode && supportsOutOfOrder)) v.start html true t)
    {log : List (Seen Write Bytes)} {s : Option Bool × P}
    (hrun : Runs (chain (once [] (items html).flatten) v.scripts)
      (some true, v.pendingStart) log b s) :
    PageChunks v islandsRouter supportsOutOfOrder mode (items log) b := by
  obtain ⟨fresh, hfirst, rfl, -⟩ | ⟨log₁, log₂, fresh, p, hfirst, hsecond, rfl, -⟩ :=
    chain_runs hrun
  · obtain ⟨rfl, -⟩ | ⟨rfl, -⟩ := once_runs hfirst
    · exact .collected hm h
    · have hpage :=
        PageChunks.scripts h (.stop : Runs v.pendingData v.pendingStart [] false v.pendingStart)
      rwa [hm] at hpage
  · obtain ⟨-, hb, -⟩ | ⟨rfl, -⟩ := once_runs hfirst
    · cases hb
    · obtain ⟨data, hdata, hitems⟩ := scripts_runs hsecond
      have hpage := PageChunks.scripts h hdata
      rw [hm] at hpage
      simpa [hitems] using hpage

theorem streamed_runs (hm : collects mode = false) {log : List (Seen Write Bytes)}
    {s : Option S × P}
    (hrun : Runs (chain (v.html islandsRouter (reorders mode && supportsOutOfOrder)) v.scripts)
      (some v.start, v.pendingStart) log b s) :
    PageChunks v islandsRouter supportsOutOfOrder mode (items log) b := by
  obtain ⟨s, hfirst, rfl, -⟩ | ⟨log₁, log₂, s, p, hfirst, hsecond, rfl, -⟩ := chain_runs hrun
  · exact .views hm hfirst
  · obtain ⟨data, hdata, hitems⟩ := scripts_runs hsecond
    have hpage := PageChunks.scripts hfirst hdata
    rw [hm] at hpage
    rwa [items_append, hitems]

theorem built_runs (h : Built v islandsRouter supportsOutOfOrder mode writes built)
    {log : List (Seen Write Bytes)} {s : built.State}
    (hrun : Runs built.source built.state log b s) :
    PageChunks v islandsRouter supportsOutOfOrder mode (items log) b := by
  cases h with
  | collected hm h =>
    have hinOrder : (reorders mode && supportsOutOfOrder) = false := by
      obtain rfl | rfl := hm <;> rfl
    rw [← hinOrder] at h
    exact collected_runs (by obtain rfl | rfl := hm <;> rfl) h hrun
  | inOrder => exact streamed_runs rfl hrun
  | outOfOrder hm =>
    obtain rfl | rfl := hm
    · exact streamed_runs rfl hrun
    · exact streamed_runs rfl hrun

end Built

/-- A run of the application's stream whose chunks were taken in groups. -/
structure Grouped (built : PinnedStream) (groups : List (List Bytes)) (ended : Bool) : Prop where
  runs : ∃ log s, Runs built.source built.state log ended s ∧ items log = groups.flatten
  sized : ∀ group ∈ groups, group ≠ [] ∧ group.length ≤ 32

theorem Grouped.page {islandsRouter supportsOutOfOrder ended : Bool}
    {mode : SsrMode} {writes : List Write}
    {groups : List (List Bytes)} (h : Grouped built groups ended)
    (hb : Built v islandsRouter supportsOutOfOrder mode writes built) :
    Page v islandsRouter supportsOutOfOrder mode groups ended := by
  obtain ⟨⟨log, s, hruns, hitems⟩, hsized⟩ := h
  exact ⟨hitems ▸ built_runs hb hruns, hsized⟩

section Groups

theorem grouped_runs {log : List (Seen Write Bytes)} {b : Bool} {o : Option built.State}
    (h : Runs (grouped built) (some built.state) log b o) :
    ∃ groups ended, Grouped built groups ended ∧ items log = groups.map List.flatten ∧
      (b = true → ended = true ∧ o = none) := by
  obtain ⟨log', hruns, rfl⟩ := map_runs h
  obtain ⟨appLog, ended, s, happ, rfl, hb, hitems, hsized⟩ := readyChunks_runs hruns
  refine ⟨items log', ended, ⟨⟨appLog, s, happ, hitems⟩, hsized⟩, by simp, fun hend => ?_⟩
  obtain rfl := hb hend
  exact ⟨rfl, rfl⟩

theorem grouped_runs_ended {log : List (Seen Write Bytes)} {b : Bool} {o : Option built.State}
    (h : Runs (grouped built) none log b o) : log = [] := by
  obtain ⟨log', hruns, rfl⟩ := map_runs h
  rw [(readyChunks_runs_ended hruns).1]
  rfl

theorem grouped_after_first {es : List Write} {first : Option Bytes} {s o : Option built.State}
    {log : List (Seen Write Bytes)} {b : Bool}
    (hn : Next (grouped built) (some built.state) es first s)
    (h : Runs (grouped built) s log b o) (inject : Bytes → Bytes) :
    ∃ groups ended, Grouped built groups ended ∧
      inject (first.getD []) :: items log = document inject groups ∧
      (b = true → ended = true) := by
  obtain ⟨log₁, hruns₁, -, hitems₁⟩ := hn.runs
  cases first with
  | none =>
    obtain ⟨groups, ended, hgrouped, hitems, hend⟩ := grouped_runs hruns₁
    obtain ⟨hended, rfl⟩ := hend rfl
    obtain rfl := grouped_runs_ended h
    rw [hitems₁] at hitems
    obtain rfl : groups = [] := by simpa using hitems.symm
    exact ⟨[], ended, hgrouped, rfl, fun _ => hended⟩
  | some chunk =>
    obtain ⟨groups, ended, hgrouped, hitems, hend⟩ := grouped_runs (hruns₁.append h)
    rw [items_append, hitems₁] at hitems
    cases groups with
    | nil => simp at hitems
    | cons group groups =>
      simp only [Option.toList_some, List.singleton_append, List.map_cons, List.cons.injEq]
        at hitems
      refine ⟨group :: groups, ended, hgrouped, ?_, fun hb => (hend hb).1⟩
      rw [document, ← hitems.1, ← hitems.2]
      rfl

end Groups

section Injected

variable {chunk : Bytes} {s : Option built.State}

theorem injected_runs {log : List (Seen Write Bytes)}
    {b : Bool} {st : Option Bool × Option built.State}
    (h : Runs (injected built chunk) (some true, s) log b st) :
    (log = [] ∧ b = false) ∨ ∃ log' o, Runs (grouped built) s log' b o ∧
      items log = chunk :: items log' := by
  obtain ⟨fresh, hruns, rfl, -⟩ | ⟨log₁, log₂, fresh, o, hfirst, hrest, rfl, -⟩ := chain_runs h
  · obtain ⟨rfl, -⟩ | ⟨rfl, -⟩ := once_runs hruns
    · exact Or.inl ⟨rfl, rfl⟩
    · exact Or.inr ⟨[], s, .stop, rfl⟩
  · obtain ⟨-, hb, -⟩ | ⟨rfl, -⟩ := once_runs hfirst
    · cases hb
    · exact Or.inr ⟨log₂, o, hrest, by simp⟩

end Injected

section Gated

variable {chunk : Bytes} {s : Option built.State}
    {d : D} {es es' : List Write} {first next : Option Bytes}
  {st st' : (Option Bool × Option built.State) × D × Option Bytes}
  {log : List (Seen Write Bytes)} {b : Bool}

/-- The first chunk of the response is the injected one, at once or after the
deferred futures. -/
theorem gated_next (h : Next (gated v built chunk) ((some true, s), d, none) es next st) :
    next = some chunk ∧ st.2.2 = none := by
  obtain ⟨log, hruns, -, hitems⟩ := h.runs
  obtain ⟨log', hinjected, hlog, hend⟩ := thenAwait_runs hruns
  cases next with
  | none =>
    rw [hend rfl, hitems] at hlog
    obtain ⟨-, hb⟩ | ⟨rest, o, -, hrest⟩ := injected_runs hinjected
    · cases hb
    · simp [hrest] at hlog
  | some a =>
    have hheld : st.2.2 = none := thenAwait_next h
    rw [hheld, hitems] at hlog
    obtain ⟨rfl, -⟩ | ⟨rest, o, -, hrest⟩ := injected_runs hinjected
    · simp at hlog
    · simp only [hrest, Option.toList_none, List.nil_append,
        Option.toList_some, List.append_nil] at hlog
      exact ⟨by rw [(List.cons.inj hlog).1], hheld⟩

end Gated

section Streams

variable {islandsRouter supportsOutOfOrder b : Bool}
    {mode : SsrMode} {writes : List Write} {r : Streaming D}

def inject (v : Views S P D) : Bytes → Bytes :=
  v.injectMetaContext (registerSplitPrefetches v.prefetches v.nonce v.manifest)

/-- After the first chunk, what the stream hands out is the rest of the
document, up to a chunk that waits for the deferred futures. -/
theorem streaming_runs (h : FromApp v islandsRouter supportsOutOfOrder mode writes r)
    {log : List (Seen Write Bytes)} {st : (Option Bool × Option r.built.State) × D × Option Bytes}
    (hrest : Runs (gated v r.built r.chunk) r.state log b st) :
    ∃ groups ended, Page v islandsRouter supportsOutOfOrder mode groups ended ∧
      r.firstChunk :: items log ++ st.2.2.toList = document (inject v) groups ∧
      (b = true → ended = true ∧ st.2.2 = none) := by
  cases h with
  | responded hb hd hn hf =>
    obtain ⟨rfl, -⟩ := gated_next hf
    obtain ⟨before, hruns, -, hitems⟩ := hf.runs
    obtain ⟨log', hinjected, hlog, hend⟩ := thenAwait_runs (hruns.append hrest)
    rw [items_append, hitems] at hlog
    obtain ⟨rfl, -⟩ | ⟨rest, o, hrest, hcons⟩ := injected_runs hinjected
    · simp at hlog
    · obtain ⟨groups, ended, hgrouped, hdocument, hended⟩ := grouped_after_first hn hrest (inject v)
      refine ⟨groups, ended, hgrouped.page ‹_›, ?_, fun hb => ⟨hended hb, hend hb⟩⟩
      rw [← hdocument, inject, ← hcons]
      simpa using hlog.symm

theorem streaming_start (h : FromApp v islandsRouter supportsOutOfOrder mode writes r) :
    r.state.2.2 = none := by
  cases h with
  | responded hb hd hn hf => exact (gated_next hf).2

end Streams

/-- What a consumer has seen of a response body, given the document so far:
all of it but for at most one chunk that is held back, or all of it and the
cleanup, with which the body ends. -/
inductive Delivered (document : List Bytes) (ended : Bool)
    (log : List (Seen BodyEffect (Except BodyError Bytes)))
    (b : Bool) : Prop
  | streaming (held : List Bytes) (hb : b = false) (hheld : held.length ≤ 1)
      (hitems : items log ++ held.map .ok = document.map .ok)
      (hview : ∀ e ∈ effects log, e ≠ .unsetOwner)
  | cleaned (before : List (Seen BodyEffect (Except BodyError Bytes))) (hended : ended = true)
      (hlog : log = before ++ [.effect .unsetOwner, .item (.ok [])])
      (hitems : items before = document.map .ok)
      (hview : ∀ e ∈ effects before, e ≠ .unsetOwner)

section Body

variable {r : Streaming D} {b : Bool}

theorem opening_runs {chunk : Bytes} {st : (Option Bool × Option r.built.State) × D × Option Bytes}
    {log : List (Seen BodyEffect Bytes)}
    {u : Option Bool × ((Option Bool × Option r.built.State) × D × Option Bytes)}
    (h : Runs (chain (once [] chunk) ((gated v r.built r.chunk).map .view id))
      (some true, st) log b u) :
    (∀ e ∈ effects log, e ≠ .unsetOwner) ∧
      ((log = [] ∧ b = false) ∨
        ∃ log' st', Runs (gated v r.built r.chunk) st log' b st' ∧
          items log = chunk :: items log') := by
  obtain ⟨fresh, hruns, rfl, -⟩ | ⟨log₁, log₂, fresh, st', hfirst, hrest, rfl, -⟩ := chain_runs h
  · obtain ⟨rfl, -⟩ | ⟨rfl, -⟩ := once_runs hruns
    · exact ⟨nofun, Or.inl ⟨rfl, rfl⟩⟩
    · exact ⟨by simp, Or.inr ⟨[], st, .stop, rfl⟩⟩
  · obtain ⟨-, hb, -⟩ | ⟨rfl, -⟩ := once_runs hfirst
    · cases hb
    · obtain ⟨log', hruns, rfl⟩ := map_runs hrest
      exact ⟨by simp, Or.inr ⟨log', st', hruns, by simp⟩⟩

/-- For every stream of the application and every consumer: the body hands out
the document, chunk by chunk and in order, whatever was ready when, and cleans
its owner up once, after the application's stream has ended. -/
theorem response_delivered {islandsRouter supportsOutOfOrder : Bool}
    {mode : SsrMode} {writes : List Write}
    (h : FromApp v islandsRouter supportsOutOfOrder mode writes r)
    {log : List (Seen BodyEffect (Except BodyError Bytes))} {u : BodyState r}
    (hrun : Runs (responseStream v r) r.bodyStart log b u) :
    ∃ groups ended, Page v islandsRouter supportsOutOfOrder mode groups ended ∧
      Delivered (document (inject v) groups) ended log b := by
  obtain ⟨log', hchain, rfl⟩ := map_runs hrun
  obtain ⟨o, hopening, rfl, -⟩ | ⟨log₁, log₂, o, fresh, hopening, hcleanup, rfl, -⟩ :=
    chain_runs hchain
  · obtain ⟨hview, ⟨rfl, -⟩ | ⟨rest, st', hrest, hitems⟩⟩ := opening_runs hopening
    · obtain ⟨groups, ended, hgrouped, hdocument, -⟩ := streaming_runs h .stop
      refine ⟨groups, ended, hgrouped, .streaming [r.firstChunk] rfl (Nat.le_refl 1) ?_ nofun⟩
      rw [← hdocument, streaming_start h]
      rfl
    · obtain ⟨groups, ended, hgrouped, hdocument, -⟩ := streaming_runs h hrest
      refine ⟨groups, ended, hgrouped, .streaming st'.2.2.toList rfl ?_ ?_ (by simpa using hview)⟩
      · cases st'.2.2 <;> simp
      · rw [items_map, hitems, ← hdocument, List.map_append]
  · obtain ⟨hview, ⟨-, hb⟩ | ⟨rest, st', hrest, hitems⟩⟩ := opening_runs hopening
    · cases hb
    obtain ⟨groups, ended, hgrouped, hdocument, hend⟩ := streaming_runs h hrest
    obtain ⟨hended, hnone⟩ := hend rfl
    rw [hnone, Option.toList_none, List.append_nil] at hdocument
    have hall : items (log₁.map (Seen.map id Except.ok)) =
        (document (inject v) groups).map (Except.ok : Bytes → Except BodyError Bytes) := by
      rw [items_map, hitems, ← hdocument]
    have hviews :
      ∀ e ∈ effects (log₁.map (Seen.map id (Except.ok : Bytes → Except BodyError Bytes))),
        e ≠ .unsetOwner := by simpa using hview
    obtain ⟨rfl, rfl, -⟩ | ⟨rfl, -⟩ := once_runs hcleanup
    · exact ⟨groups, ended, hgrouped,
        .streaming [] rfl (Nat.zero_le 1) (by simpa using hall) (by simpa using hviews)⟩
    · exact ⟨groups, ended, hgrouped, .cleaned _ hended (by simp [Seen.map]) hall hviews⟩

end Body

section Termination

/-- What the application waits for comes, and its streams end. -/
structure Finite (v : Views S P D) : Prop where
  html : ∀ branching outOfOrder, Ends (v.html branching outOfOrder) v.start
  pendingData : Ends v.pendingData v.pendingStart
  deferred : ∀ d, v.deferred.Opens d

variable {islandsRouter supportsOutOfOrder : Bool}
    {mode : SsrMode} {writes : List Write} {r : Streaming D}

theorem built_ends (hv : Finite v)
    (h : Built v islandsRouter supportsOutOfOrder mode writes built) :
    Ends built.source built.state := by
  have hscripts : Ends v.scripts v.pendingStart := map_ends hv.pendingData
  cases h with
  | collected hm h => exact chain_ends (once_ends true) hscripts
  | inOrder => exact chain_ends (hv.html _ _) hscripts
  | outOfOrder hm => exact chain_ends (hv.html _ _) hscripts

theorem exists_built (hv : Finite v) (islandsRouter supportsOutOfOrder : Bool) (mode : SsrMode) :
    ∃ writes built, Built v islandsRouter supportsOutOfOrder mode writes built := by
  obtain ⟨log, s, hruns⟩ := (hv.html islandsRouter false).runs
  cases mode with
  | async => exact ⟨_, _, .collected (Or.inl rfl) hruns⟩
  | static => exact ⟨_, _, .collected (Or.inr rfl) hruns⟩
  | inOrder => exact ⟨_, _, .inOrder⟩
  | partiallyBlocked => exact ⟨_, _, .outOfOrder (Or.inl rfl)⟩
  | outOfOrder => exact ⟨_, _, .outOfOrder (Or.inr rfl)⟩

theorem grouped_ends (h : Ends built.source built.state) :
    Ends (grouped built) (some built.state) :=
  map_ends (readyChunks_ends (by decide) h)

theorem grouped_next_ends {es : List Write} {first : Option Bytes} {s : Option built.State}
    (h : Ends (grouped built) (some built.state))
    (hn : Next (grouped built) (some built.state) es first s) :
    Ends (grouped built) s := by
  cases first with
  | some chunk => exact hn.ends h rfl
  | none =>
    obtain ⟨log, hruns, -, -⟩ := hn.runs
    obtain ⟨_, _, -, -, hend⟩ := grouped_runs hruns
    obtain ⟨-, rfl⟩ := hend rfl
    exact map_ends readyChunks_ends_ended

theorem gated_ends (hv : Finite v) {s : Option built.State}
    (h : Ends (grouped built) s) (chunk : Bytes) (d : D) :
    Ends (gated v built chunk) ((some true, s), d, none) :=
  thenAwait_ends hv.deferred (chain_ends (once_ends true) h) d

theorem response_ends (hv : Finite v)
    (h : FromApp v islandsRouter supportsOutOfOrder mode writes r) :
    Ends (responseStream v r) r.bodyStart := by
  have hgated : Ends (gated v r.built r.chunk) r.state := by
    cases h with
    | responded hb hd hn hf =>
      obtain ⟨rfl, -⟩ := gated_next hf
      exact hf.ends (gated_ends hv (grouped_next_ends (grouped_ends (built_ends hv hb)) hn) _ _) rfl
  exact map_ends (chain_ends (chain_ends (once_ends true) (map_ends hgated)) (once_ends true))

theorem exists_fromApp (hv : Finite v) (islandsRouter supportsOutOfOrder : Bool) (mode : SsrMode) :
    ∃ writes r, FromApp v islandsRouter supportsOutOfOrder mode writes r := by
  obtain ⟨es₁, built, hb⟩ := exists_built hv islandsRouter supportsOutOfOrder mode
  obtain ⟨es₂, d, hd⟩ := (hv.deferred v.deferredStart).awaited
  obtain ⟨es₃, first, s, hn, -⟩ := (grouped_ends (built_ends hv hb)).waits
  have hgrouped := grouped_next_ends (grouped_ends (built_ends hv hb)) hn
  obtain ⟨es₄, chunk, st, hf, -⟩ := (gated_ends hv hgrouped (inject v (first.getD [])) d).waits
  exact ⟨_, _, .responded hb hd hn hf⟩

/-- When what the application waits for comes, there is a response, and every
consumer that polls on has all of the document and sees the cleanup. -/
theorem response_complete (hv : Finite v) (islandsRouter supportsOutOfOrder : Bool)
    (mode : SsrMode) :
    (∃ writes r, FromApp v islandsRouter supportsOutOfOrder mode writes r) ∧
    ∀ writes r, FromApp v islandsRouter supportsOutOfOrder mode writes r →
      Ends (responseStream v r) r.bodyStart ∧
      ∀ log u, Runs (responseStream v r) r.bodyStart log true u →
        ∃ groups, Page v islandsRouter supportsOutOfOrder mode groups true ∧
          items log = (document (inject v) groups).map .ok ++ [.ok []] ∧
          (∃ before, log = before ++ [.effect .unsetOwner, .item (.ok [])] ∧
            ∀ e ∈ effects before, e ≠ .unsetOwner) := by
  refine ⟨exists_fromApp hv _ _ mode, fun writes r h => ⟨response_ends hv h, fun log u hrun => ?_⟩⟩
  obtain ⟨groups, ended, hgrouped, hdelivered⟩ := response_delivered h hrun
  cases hdelivered with
  | streaming held hb => cases hb
  | cleaned before hended hlog hitems hview =>
    subst hended hlog
    exact ⟨groups, hgrouped, by simp [hitems], before, rfl, hview⟩

end Termination

section Page

def page : Views (List (Option Bytes)) (List (Option Bytes)) Unit where
  context := []
  start := [some (text "<html>"), none, some (text "</html>")]
  html _ _ := script
  pendingStart := [some (text "data")]
  pendingData := script
  nonce := none
  deferredStart := ()
  deferred d := (d, [], true)
  prefetches := []
  manifest := none
  injectMetaContext _ chunk := chunk

theorem page_finite : Finite page where
  html _ _ := script_ends _
  pendingData := script_ends _
  deferred _ := .ready rfl

theorem response_complete_page :
    ∃ writes r, FromApp page false true .async writes r ∧ Ends (responseStream page r) r.bodyStart ∧
      ∃ log u, Runs (responseStream page r) r.bodyStart log true u ∧
        ∃ groups, Page page false true .async groups true ∧
          items log = (document (inject page) groups).map .ok ++ [.ok []] := by
  obtain ⟨⟨writes, r, h⟩, hall⟩ := response_complete page_finite false true .async
  obtain ⟨hends, hruns⟩ := hall writes r h
  obtain ⟨log, u, hrun⟩ := hends.runs
  obtain ⟨groups, hpage, hitems, -⟩ := hruns log u hrun
  exact ⟨writes, r, h, hends, log, u, hrun, groups, hpage, hitems⟩

theorem response_delivered_page :
    ∃ writes, ∃ r : Streaming Unit, FromApp page false true .inOrder writes r ∧
      ∃ log u, Runs (responseStream page r) r.bodyStart log true u ∧
        ∃ groups ended, Page page false true .inOrder groups ended ∧
          Delivered (document (inject page) groups) ended log true := by
  obtain ⟨writes, r, h⟩ := exists_fromApp page_finite false true .inOrder
  obtain ⟨log, u, hrun⟩ := (response_ends page_finite h).runs
  exact ⟨writes, r, h, log, u, hrun, response_delivered h hrun⟩

end Page

end LeptosWasi.SsrDelivery
