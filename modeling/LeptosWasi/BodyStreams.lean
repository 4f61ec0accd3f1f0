import LeptosWasi.OptionsMerge
import LeptosWasi.SsrDelivery
import LeptosWasi.TracedResponse

namespace LeptosWasi.BodyStreams

open Http Response Routes PollStream Seen SsrStream SsrDelivery TracedResponse

variable {S ε B E : Type}

def framePoll : Poll (Except BodyError Bytes) → PollFrame BodyError
  | .pending => .pending
  | .item (.ok bytes) => .frame (.data bytes)
  | .item (.error e) => .error e
  | .done => .ended

def streamBody (A : PollStream S ε (Except BodyError Bytes)) : HttpBody S BodyError where
  pollFrame s :=
    let (s, _, r) := A.poll s
    (s, framePoll r)
  isEndStream _ := false

def polls (body : HttpBody B E) : Nat → B → List (PollFrame E)
  | 0, _ => []
  | n + 1, b => (body.pollFrame b).2 :: polls body n (body.pollFrame b).1

/-- What the loop of `body_stream` makes of a frame. It goes on after trailers
and after errors. After trailers it polls again at once, which is a poll of its
own here. -/
def yieldPoll (mapErr : E → BodyError) : PollFrame E → Poll (Except BodyError Bytes)
  | .frame (.data bytes) => .item (.ok bytes)
  | .frame (.trailers _) => .pending
  | .error e => .item (.error (mapErr e))
  | .pending => .pending
  | .ended => .done

def bodyStream (body : HttpBody B E) (mapErr : E → BodyError) :
    PollStream B ε (Except BodyError Bytes) where
  poll b :=
    let (b, r) := body.pollFrame b
    (b, [], yieldPoll mapErr r)

def ClosesAt (results : List (PollFrame E)) : Prop :=
  ∃ before, results = before ++ [.ended] ∧ .ended ∉ before

def frameItem (mapErr : E → BodyError) : PollFrame E → Option (Except BodyError Bytes)
  | .frame (.data bytes) => some (.ok bytes)
  | .error e => some (.error (mapErr e))
  | .frame (.trailers _) | .pending | .ended => none

theorem closesAt_cons {r : PollFrame E} {results : List (PollFrame E)}
    (hr : r ≠ .ended) (h : ClosesAt results) :
    ClosesAt (r :: results) := by
  obtain ⟨before, rfl, hbefore⟩ := h
  refine ⟨r :: before, rfl, fun hmem => ?_⟩
  obtain heq | hmem := List.mem_cons.mp hmem
  · exact hr heq.symm
  · exact hbefore hmem

section Script

variable {A : PollStream S ε (Except BodyError Bytes)}
    {s t : S} {log : List (Seen ε (Except BodyError Bytes))}

theorem streamBody_scripted (h : Runs A s log true t) :
    ∃ k pending, polls (streamBody A) k s = polls responseBody k ⟨.async (items log), pending⟩ ∧
      ClosesAt (polls (streamBody A) k s) := by
  generalize hb : true = b at h
  induction h with
  | stop => cases hb
  | @next s s' t es r log b hp hr _ ih =>
    obtain ⟨k, pending, hpolls, hcloses⟩ := ih hb
    have hpoll : (streamBody A).pollFrame s = (s', framePoll r) := by simp only [streamBody, hp]
    cases r with
    | done => cases hr
    | pending =>
      refine ⟨k + 1, true :: pending, ?_, ?_⟩
      · simp only [polls, hpoll, hpolls, items_append, items_map_effect, Poll.seen, List.nil_append]
        rfl
      · simp only [polls, hpoll]
        exact closesAt_cons (by simp [framePoll]) hcloses
    | item item =>
      refine ⟨k + 1, false :: pending, ?_, ?_⟩
      · simp only [polls, hpoll, hpolls, items_append,
          items_map_effect, Poll.seen, List.nil_append, items_item,
          items_nil, List.cons_append]
        cases item <;> rfl
      · simp only [polls, hpoll]
        exact closesAt_cons (by cases item <;> simp [framePoll]) hcloses
  | @done s s' es hp =>
    have hpoll : (streamBody A).pollFrame s = (s', .ended) := by
      simp only [streamBody, hp, framePoll]
    refine ⟨1, [], ?_, [], ?_, List.not_mem_nil⟩
    · simp only [polls, hpoll, items_map_effect]
      rfl
    · simp only [polls, hpoll, List.nil_append]

end Script

section Conversion

variable {body : HttpBody B E} {mapErr : E → BodyError}

theorem yieldPoll_isDone (r : PollFrame E) : (yieldPoll mapErr r).isDone = true ↔ r = .ended := by
  cases r with
  | frame frame => cases frame <;> simp [yieldPoll, Poll.isDone]
  | _ => simp [yieldPoll, Poll.isDone]

theorem yieldPoll_seen (r : PollFrame E) :
    items ((yieldPoll mapErr r).seen : List (Seen ε (Except BodyError Bytes))) =
      (frameItem mapErr r).toList := by
  cases r with
  | frame frame => cases frame <;> rfl
  | _ => rfl

theorem bodyStream_runs {k : Nat} {b : B} (h : ClosesAt (polls body k b)) :
    ∃ log t, Runs (bodyStream (ε := ε) body mapErr) b log true t ∧
      items log = (polls body k b).filterMap (frameItem mapErr) := by
  induction k generalizing b with
  | zero =>
    obtain ⟨before, hbefore, -⟩ := h
    simp [polls] at hbefore
  | succ k ih =>
    obtain ⟨before, hbefore, hopen⟩ := h
    obtain ⟨b', r, hpoll⟩ : ∃ b' r, body.pollFrame b = (b', r) := ⟨_, _, rfl⟩
    have hyield : (bodyStream (ε := ε) body mapErr).poll b = (b', [], yieldPoll mapErr r) := by
      simp only [bodyStream, hpoll]
    simp only [polls, hpoll] at hbefore ⊢
    cases before with
    | nil =>
      obtain ⟨rfl, hnil⟩ := List.cons.inj hbefore
      exact ⟨_, b', .done hyield, by simp [hnil, frameItem]⟩
    | cons r' before =>
      obtain ⟨rfl, hrest⟩ := List.cons.inj hbefore
      obtain ⟨log, t, hruns, hitems⟩ :=
        ih ⟨before, hrest, fun hmem => hopen (List.mem_cons_of_mem _ hmem)⟩
      have hdone : (yieldPoll mapErr r).isDone = false := by
        rw [Bool.eq_false_iff, Ne, yieldPoll_isDone]
        rintro rfl
        exact hopen List.mem_cons_self
      refine ⟨_, t, .next hyield hdone hruns, ?_⟩
      rw [items_append, items_append, yieldPoll_seen, hitems, List.filterMap_cons]
      cases frameItem mapErr r <;> rfl

/-- A body that is polled to its end is, converted, polled like a script of its
data frames and errors. -/
theorem bodyStream_scripted {k : Nat} {b : B} (h : ClosesAt (polls body k b)) :
    ∃ n pending, polls (streamBody (bodyStream (ε := ε) body mapErr)) n b =
        polls responseBody n ⟨.async ((polls body k b).filterMap (frameItem mapErr)), pending⟩ ∧
      ClosesAt (polls (streamBody (bodyStream (ε := ε) body mapErr)) n b) := by
  obtain ⟨log, t, hruns, hitems⟩ := @bodyStream_runs ε _ _ _ mapErr _ _ h
  rw [← hitems]
  exact streamBody_scripted hruns

end Conversion

section Rendered

variable {S P D : Type} {v : Views S P D} {islandsRouter supportsOutOfOrder : Bool} {mode : SsrMode}
  {writes : List Write} {r : Streaming D}

theorem fromApp_body (chunks : List Bytes) (options : ResponseParts) :
    (fromApp chunks options).1.body = .async (chunks.map .ok) := by
  simp only [fromApp, setDefaultContentType]
  split <;> rfl

/-- A response whose head is that of the options: their status, all values of
the names that are lists, the last value of the others, and the content type of
a page where they have none. -/
structure HeadOf (options : ResponseParts) (response : Http.Response) : Prop where
  status : response.status = options.status.getD .ok
  listed : ∀ name, isListValued name → response.headers.getAll name = options.headers.getAll name
  single : ∀ name, ¬ isListValued name → ∀ hne : options.headers.getAll name ≠ [],
    response.headers.getAll name = [(options.headers.getAll name).getLast hne]
  absent : ∀ name, name ≠ .contentType → options.headers.getAll name = [] →
    response.headers.getAll name = []
  contentType : options.headers.getAll .contentType = [] →
    response.headers.getAll .contentType = [text "text/html; charset=utf-8"]

theorem headOf_fromApp (chunks : List Bytes) (options : ResponseParts) :
    HeadOf options (fromApp chunks options).1 := by
  have hplain : ∀ name, (name ≠ .contentType ∨ options.headers.getAll .contentType ≠ []) →
      (fromApp chunks options).1.headers.getAll name =
        merged name [] (options.headers.getAll name) := by
    intro name hname
    have hset : ¬ (name = .contentType ∧ options.headers.getAll .contentType = []) := by tauto
    rw [OptionsMerge.getAll_fromApp, if_neg hset, OptionsMerge.getAll_mergedOnce]
  constructor
  · simp only [fromApp, setDefaultContentType_eq _ OptionsMerge.htmlContentType_valid]
    rfl
  · intro name hlist
    have hname : name ≠ .contentType := by
      rintro rfl
      exact absurd hlist (by decide)
    rw [hplain name (Or.inl hname), OptionsMerge.merged_listValued hlist, List.nil_append]
  · intro name hlist hne
    have hname : name ≠ .contentType ∨ options.headers.getAll .contentType ≠ [] := by
      by_cases h : name = .contentType
      · exact Or.inr (h ▸ hne)
      · exact Or.inl h
    rw [hplain name hname, OptionsMerge.merged_single hlist _ hne]
  · intro name hname hnone
    rw [hplain name (Or.inl hname), hnone, merged_nil]
  · intro hnone
    rw [OptionsMerge.getAll_fromApp, if_pos ⟨rfl, hnone⟩]

/-- What the body of a streamed response returns at each poll is what a script
of its chunks returns: the document and the empty chunk of the cleanup. The
script is the body of the response that the render phase works with, whose head
has what was written before the first chunk. -/
theorem fromApp_scripted (h : FromApp v islandsRouter supportsOutOfOrder mode writes r)
    {log : List (Seen BodyEffect (Except BodyError Bytes))} {u : BodyState r}
    (hrun : Runs (responseStream v r) r.bodyStart log true u) (options : ResponseParts) :
    ∃ groups k pending, Page v islandsRouter supportsOutOfOrder mode groups true ∧
      ClosesAt (polls (streamBody (responseStream v r)) k r.bodyStart) ∧
      polls (streamBody (responseStream v r)) k r.bodyStart = polls responseBody k
        ⟨(fromApp (document (inject v) groups ++ [[]]) (applyWrites writes options)).1.body,
          pending⟩ ∧
      HeadOf (applyWrites writes options)
        (fromApp (document (inject v) groups ++ [[]]) (applyWrites writes options)).1 := by
  obtain ⟨groups, ended, hpage, hdelivered⟩ := response_delivered h hrun
  obtain ⟨k, pending, hpolls, hcloses⟩ := streamBody_scripted hrun
  cases hdelivered with
  | streaming held hb => cases hb
  | cleaned before hended hlog hitems hview =>
    subst hended hlog
    refine ⟨groups, k, pending, hpage, hcloses, hpolls.trans ?_, headOf_fromApp _ _⟩
    have hbody :
      (fromApp (document (inject v) groups ++ [[]]) (applyWrites writes options)).1.body =
        .async (items before ++ [.ok []]) := by
      rw [hitems, fromApp_body, List.map_append]
      rfl
    rw [hbody, items_append]
    rfl

def cookie : ResponseParts := .appendHeader .default .setCookie (text "a=1")

theorem fromApp_scripted_page :
    ∃ (writes : List Write) (r : Streaming Unit), FromApp page false true .inOrder writes r ∧
      ∃ groups k pending, Page page false true .inOrder groups true ∧
        ClosesAt (polls (streamBody (responseStream page r)) k r.bodyStart) ∧
        polls (streamBody (responseStream page r)) k r.bodyStart = polls responseBody k
          ⟨(fromApp (document (inject page) groups ++ [[]]) (applyWrites writes cookie)).1.body,
            pending⟩ ∧
        HeadOf (applyWrites writes cookie)
          (fromApp (document (inject page) groups ++ [[]]) (applyWrites writes cookie)).1 := by
  obtain ⟨writes, r, h⟩ := exists_fromApp page_finite false true .inOrder
  obtain ⟨log, u, hrun⟩ := (response_ends page_finite h).runs
  exact ⟨writes, r, h, fromApp_scripted h hrun cookie⟩

end Rendered

end LeptosWasi.BodyStreams
