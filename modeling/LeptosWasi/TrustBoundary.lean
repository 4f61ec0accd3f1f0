import LeptosWasi.IngressBulkheads
import LeptosWasi.Library.Histories

namespace LeptosWasi.TrustedIngress

open Http

variable {A C : Type}

/-- What the names of the crates' functions say of them. A reserved header is one
that only the ingress may set. -/
structure Crates.Documented (crates : Crates A C) (reserved : HeaderName → Prop) : Prop where
  stripped : ∀ headers name, reserved name →
    (crates.stripReservedAuthHeaders headers).getAll name = []
  kept : ∀ headers name, ¬ reserved name →
    (crates.stripReservedAuthHeaders headers).getAll name = headers.getAll name
  security : ∀ headers name, reserved name →
    (crates.applySecurityHeaders headers).getAll name = headers.getAll name
  context : reserved crates.authContextHeader
  requestId : ¬ reserved crates.requestIdHeader
  cacheControl : ¬ reserved HeaderName.cacheControl
  distinct : [crates.authContextHeader, crates.requestIdHeader, authorization, host].Nodup

def outputsOf (i : Nat) (events : List Event) : List Output :=
  events.filterMap fun
    | .output j output => if j = i then some output else none
    | .arrived _ _ => none

def Output.ends : Output → Bool
  | .responded _ | .disconnected => true
  | .asked _ | .answered _ | .sent _ _ => false

def AllOpen (outs : List Output) : Prop := ∀ o ∈ outs, o.ends = false

section Boundary

variable (ingress : Ingress A C) (reserved : HeaderName → Prop)
    (outs : List Output) (request : Request)

def Allowed (value : Bytes) (context : A) : Prop :=
  ∃ asked status body claims, outs = [.asked asked, .answered (.answered (status, body))] ∧
    asked.headers.getAll authorization = [value] ∧
    ingress.crates.parseAuthnResponse status body = .allow claims ∧
    ingress.crates.intoContext claims = some context

/-- Where the context of a request comes from. -/
def Promoted (context : A) : Prop :=
  ∃ value, ingress.crates.authorizationValue request.headers = some value ∧
    match ingress.profile, value with
    | .edgeAuthenticated, some value => Allowed ingress outs value context
    | _, _ => outs = [] ∧ ingress.crates.anonymous = some context

/-- Headers for a terminal: the context that was promoted and nothing else that
is reserved, no credential, and what the client sent otherwise. -/
structure Trusted (headers : HeaderMap) : Prop where
  context : ∃ context value, Promoted ingress outs request context ∧
    ingress.crates.encodeAuthContext context = some value ∧
    headers.getAll ingress.crates.authContextHeader = [value]
  spoofed : ∀ name, reserved name → name ≠ ingress.crates.authContextHeader →
    headers.getAll name = []
  bearer : headers.getAll authorization = []
  identified : ingress.profile ≠ .proxyBaseline →
    ∃ id, headers.getAll ingress.crates.requestIdHeader = [id]
  others : ∀ name, ¬ reserved name → name ≠ authorization → name ≠ host →
    (name ≠ ingress.crates.requestIdHeader ∨ ingress.profile = .proxyBaseline) →
    headers.getAll name = request.headers.getAll name
  origin : ingress.profile ≠ .proxyBaseline →
    ∃ decision, ingress.crates.evaluateCors request.method request.headers = some decision ∧
      decision.status = none

/-- What may be seen of a request after what was seen of it. -/
def MayFollow : List Output → Output → Prop
  | earlier, .asked asked => earlier = [] ∧ ingress.profile = .edgeAuthenticated ∧
      ∃ value, ingress.crates.authorizationValue request.headers = some (some value) ∧
        asked.headers.getAll authorization = [value]
  | earlier, .answered _ => ∃ asked, earlier = [.asked asked]
  | earlier, .sent _ sent => sent.method = request.method ∧ sent.body = request.body ∧
      Trusted ingress reserved earlier request sent.headers
  | earlier, .responded response => AllOpen earlier ∧ ∀ name, reserved name →
      response.headers.getAll name = []
  | earlier, .disconnected => AllOpen earlier

structure Passing (passed : Passed) : Prop where
  headers : passed.headers = ingress.crates.stripReservedAuthHeaders
    (request.headers.remove authorization)
  origin : ingress.profile ≠ .proxyBaseline →
    ∃ decision, ingress.crates.evaluateCors request.method request.headers = some decision ∧
      decision.status = none

def Clean (response : ResponseHead) : Prop :=
  ∀ name, reserved name → response.headers.getAll name = []

structure Asking (passed : Passed) (value : Bytes) : Prop where
  passing : Passing ingress request passed
  profile : ingress.profile = .edgeAuthenticated
  value : ingress.crates.authorizationValue request.headers = some (some value)

/-- What a stage knows of what was seen of its request. -/
def Stage.Knows : Stage A → Prop
  | .identify | .route _ | .policy _ => outs = []
  | .broker passed value => outs = [] ∧ Asking ingress request passed value
  | .authenticating passed => ∃ value asked, Asking ingress request passed value ∧
      asked.headers.getAll authorization = [value] ∧ outs = [.asked asked]
  | .authenticated passed result => ∃ value, Asking ingress request passed value ∧ AllOpen outs ∧
      ∀ context, result = .ok context → Allowed ingress outs value context
  | .select passed | .terminal passed _ =>
    AllOpen outs ∧ Trusted ingress reserved outs request passed.headers
  | .sending _ _ => AllOpen outs
  | .leaving (some response) => AllOpen outs ∧ Clean reserved response
  | .body _ | .leaving none | .finished => True

end Boundary

variable {ingress : Ingress A C} {reserved : HeaderName → Prop}
    {outs : List Output} {request : Request}
  {passed : Passed} {context : A} {m m' : Shared} {stage stage' : Stage A} {out : List Output}

theorem Crates.Documented.apart {crates : Crates A C} (hd : crates.Documented reserved) :
    crates.authContextHeader ≠ crates.requestIdHeader ∧ crates.authContextHeader ≠ authorization ∧
      crates.authContextHeader ≠ host ∧ crates.requestIdHeader ≠ authorization ∧
      crates.requestIdHeader ≠ host ∧
      authorization ≠ host := by
  have h := hd.distinct
  simp only [List.nodup_cons, List.mem_cons, List.not_mem_nil, or_false, not_or] at h
  obtain ⟨⟨hci, hca, hch⟩, ⟨hia, hih⟩, hah, -⟩ := h
  exact ⟨hci, hca, hch, hia, hih, hah⟩

section Responses

variable (hd : ingress.crates.Documented reserved)

include hd

theorem finish_clean (headers : HeaderMap) (id : Bytes)
    (name : HeaderName) (hname : reserved name) :
    (ingress.finishResponseHeaders headers id).getAll name = [] := by
  have hne : name ≠ ingress.crates.requestIdHeader := fun h => hd.requestId (h ▸ hname)
  rw [Ingress.finishResponseHeaders]
  dsimp only
  split
  · exact hd.stripped headers name hname
  · have hsecure : (ingress.crates.applySecurityHeaders
      (ingress.crates.stripReservedAuthHeaders headers)).getAll name =
        [] := by rw [hd.security _ name hname, hd.stripped headers name hname]
    split
    · rw [Multimap.getAll_insert, if_neg hne, hsecure]
    · exact hsecure

theorem reject_clean (rejection : Rejection) (id : Bytes) (cors : Option HeaderMap) :
    Clean reserved (ingress.reject rejection (some id) cors) :=
    fun name hname => finish_clean hd _ id name hname

theorem reject_unidentified_clean : Clean reserved (ingress.reject .unavailable none none) := by
  intro name hname
  have hne : name ≠ HeaderName.cacheControl := fun h => hd.cacheControl (h ▸ hname)
  have hempty :
    ((∅ : HeaderMap).insert HeaderName.cacheControl (text "no-store")).getAll name = [] := by
    rw [Multimap.getAll_insert, if_neg hne, Multimap.getAll_empty]
  rw [Ingress.reject]
  by_cases hp : ingress.profile = .proxyBaseline
  · simpa [hp] using hempty
  · simpa [hp, hd.security _ name hname] using hempty

end Responses

theorem install_getAll {headers installed : HeaderMap} {id : Bytes}
    (h : ingress.installTrustedHeaders headers context id = some installed) :
    ∃ value, ingress.crates.encodeAuthContext context = some value ∧
      ∃ id', ∀ name, installed.getAll name =
      if name = ingress.crates.requestIdHeader ∧ ingress.profile ≠ .proxyBaseline then [id']
      else if name = ingress.crates.authContextHeader then [value] else headers.getAll name := by
  simp only [Ingress.installTrustedHeaders, Option.bind_eq_bind, Option.bind_eq_some_iff] at h
  obtain ⟨value, hv, h⟩ := h
  refine ⟨value, hv, ?_⟩
  split at h
  · rename_i hp
    cases h
    exact ⟨[], fun name => by simp [hp]⟩
  · rename_i hp
    obtain ⟨id', -, h⟩ := Option.bind_eq_some_iff.mp h
    cases h
    exact ⟨id', fun name => by simp [hp]⟩

/-- What the ingress installs over clean headers can be trusted. -/
theorem install_trusted (hd : ingress.crates.Documented reserved)
    (hp : Passing ingress request passed)
    (hc : Promoted ingress outs request context) {headers : HeaderMap}
    (hi : ingress.installTrustedHeaders passed.headers context passed.id = some headers) :
    Trusted ingress reserved outs request (headers.remove host) := by
  obtain ⟨hci, hca, hch, hia, hih, hah⟩ := hd.apart
  obtain ⟨value, hv, id, hget⟩ := install_getAll hi
  -- Away from what is installed the headers are those that passed.
  have hpassed {name : HeaderName} (hn : name ≠ ingress.crates.requestIdHeader ∨
    ingress.profile = .proxyBaseline)
      (hnc : name ≠ ingress.crates.authContextHeader) : headers.getAll name =
        (ingress.crates.stripReservedAuthHeaders (request.headers.remove authorization)).getAll
        name := by
    rw [hget, if_neg (fun h => hn.elim (fun hn => hn h.1) h.2), if_neg hnc, hp.headers]
  refine ⟨⟨context, value, hc, hv, ?_⟩, ?_, ?_, ?_, ?_, hp.origin⟩
  · rw [Multimap.getAll_remove, if_neg hch, hget, if_neg (fun h => hci h.1), if_pos rfl]
  · intro name hname hnc
    rw [Multimap.getAll_remove]
    split
    · rfl
    · rw [hpassed (.inl fun h => hd.requestId (h ▸ hname)) hnc, hd.stripped _ name hname]
  · rw [Multimap.getAll_remove, if_neg hah, hpassed (.inl (Ne.symm hia)) (Ne.symm hca)]
    by_cases hr : reserved authorization
    · exact hd.stripped _ _ hr
    · rw [hd.kept _ _ hr, Multimap.getAll_remove, if_pos rfl]
  · intro hprofile
    exact ⟨id, by rw [Multimap.getAll_remove, if_neg hih, hget, if_pos ⟨rfl, hprofile⟩]⟩
  · intro name hname hna hnh hn
    rw [Multimap.getAll_remove, if_neg hnh, hpassed hn (fun h => hname (h ▸ hd.context)),
      hd.kept _ _ hname,
      Multimap.getAll_remove, if_neg hna]

theorem allOpen_nil : AllOpen [] := fun _ h => absurd h List.not_mem_nil

theorem evaluateCors_passing {cors : Option CorsDecision}
    (h : ingress.evaluateCors request = .ok cors)
    (hs : cors.bind CorsDecision.status = none) (id : Bytes) : Passing ingress request
      ⟨id, cors, ingress.crates.stripReservedAuthHeaders
        (request.headers.remove authorization)⟩ := by
  refine ⟨rfl, fun hp => ?_⟩
  rw [Ingress.evaluateCors, if_neg hp] at h
  split at h
  · rename_i decision he
    cases h
    exact ⟨decision, he, hs⟩
  · cases h

theorem brokerResult_ok {reply : Reply (StatusCode × Bytes)}
    (h : (ingress.brokerResult m reply).2 = .ok context) :
    ∃ status body claims, reply = .answered (status, body) ∧
      ingress.crates.parseAuthnResponse status body = .allow claims ∧
      ingress.crates.intoContext claims = some context := by
  cases reply with
  | failed => cases h
  | timedOut => cases h
  | answered response =>
    rw [Ingress.brokerResult] at h
    split at h
    · cases h
    · cases h
    · rename_i claims hparse
      split at h
      · rename_i hinto
        cases h
        exact ⟨_, _, claims, rfl, hparse, hinto⟩
      · cases h

theorem brokerRequest_authorization (hd : ingress.crates.Documented reserved)
    {value id body : Bytes} {asked : Request}
    (h : ingress.brokerRequest value id body = some asked) :
    asked.headers.getAll authorization = [value] := by
  obtain ⟨-, -, -, hia, -, hah⟩ := hd.apart
  have hac : authorization ≠ HeaderName.contentType := by decide
  simp only [Ingress.brokerRequest, Option.bind_eq_bind,
    Option.bind_eq_some_iff, Option.some.injEq] at h
  obtain ⟨value', hv, id', -, rfl⟩ := h
  rw [HeaderValue.fromStr_eq_self hv]
  simp [hah, hac, Ne.symm hia]

section Stages

variable (hd : ingress.crates.Documented reserved)

include hd

theorem promoted_knows (hp : Passing ingress request passed)
    (hopen : AllOpen outs) (result : Except Rejection A)
    (hc : ∀ context, result = .ok context → Promoted ingress outs request context) :
    (ingress.promoted passed result).Knows ingress reserved outs request := by
  cases result with
  | error rejection => exact ⟨hopen, reject_clean hd _ _ _⟩
  | ok context =>
    rw [Ingress.promoted]
    split
    · rename_i headers hi
      exact ⟨hopen, install_trusted hd hp (hc context rfl) hi⟩
    · exact ⟨hopen, reject_clean hd _ _ _⟩

theorem policy_knows (id : Bytes) :
    (ingress.policy request id).Knows ingress reserved [] request := by
  rw [Ingress.policy]
  split
  · exact ⟨allOpen_nil, reject_clean hd _ _ _⟩
  · rename_i cors hcors
    dsimp only
    split
    · exact ⟨allOpen_nil, fun name hname => finish_clean hd _ _ name hname⟩
    · exact ⟨allOpen_nil, reject_clean hd _ _ _⟩
    · rename_i value hs hv
      have hp := evaluateCors_passing hcors hs id
      split
      · rename_i value hprofile
        exact ⟨rfl, hp, hprofile, hv⟩
      · rename_i hn
        refine promoted_knows hd hp allOpen_nil _ fun context hc => ⟨_, hv, ?_⟩
        have hanonymous : ingress.crates.anonymous = some context := by
          rw [Ingress.anonymousContext] at hc
          split at hc
          · rename_i h
            cases hc
            exact h
          · cases hc
        split
        · rename_i hprofile
          exact absurd rfl (hn _ hprofile)
        · exact ⟨rfl, hanonymous⟩

theorem local_knows (hl : Local ingress m stage request out m' stage')
    (hk : stage.Knows ingress reserved outs request) :
    (∀ o ∈ out, MayFollow ingress reserved request outs o) ∧ out.length ≤ 1 ∧
      stage'.Knows ingress reserved (outs ++ out) request := by
  cases hl with
  | identify =>
    cases hk
    refine ⟨fun _ h => absurd h List.not_mem_nil, Nat.zero_le _, ?_⟩
    rw [Ingress.identify, List.append_nil]
    split
    · rfl
    · split
      · rfl
      · rfl
      · exact ⟨allOpen_nil, reject_unidentified_clean hd⟩
  | policy =>
    cases hk
    exact ⟨fun _ h => absurd h List.not_mem_nil, Nat.zero_le _, policy_knows hd _⟩
  | answered reply =>
    obtain ⟨value, asked, ha, hvalue, rfl⟩ := hk
    refine ⟨?_, Nat.le_refl _, value, ha, ?_, ?_⟩
    · rintro o (_ | ⟨_, ⟨⟩⟩)
      exact ⟨asked, rfl⟩
    · rintro o (_ | ⟨_, _ | ⟨_, ⟨⟩⟩⟩) <;> rfl
    · intro context hc
      obtain ⟨status, body, claims, rfl, hparse, hinto⟩ := brokerResult_ok hc
      exact ⟨asked, status, body, claims, rfl, hvalue, hparse, hinto⟩
  | select loads _ =>
    refine ⟨fun _ h => absurd h List.not_mem_nil, Nat.zero_le _, ?_⟩
    rw [Ingress.select, List.append_nil]
    split
    · exact hk
    · exact ⟨hk.1, reject_clean hd _ _ _⟩
  | replied reply =>
    cases reply with
    | answered response =>
      refine ⟨?_, Nat.le_refl _, trivial⟩
      rintro o (_ | ⟨_, ⟨⟩⟩)
      exact ⟨hk, fun name hname => finish_clean hd _ _ name hname⟩
    | failed =>
      refine ⟨fun _ h => absurd h List.not_mem_nil, Nat.zero_le _, ?_⟩
      exact ⟨(List.append_nil outs).symm ▸ hk, reject_clean hd _ _ _⟩
    | timedOut =>
      refine ⟨fun _ h => absurd h List.not_mem_nil, Nat.zero_le _, ?_⟩
      exact ⟨(List.append_nil outs).symm ▸ hk, reject_clean hd _ _ _⟩

theorem leased_knows {g : GateId} (hw : ingress.wants request stage = some g)
    (hk : stage.Knows ingress reserved outs request) :
    (∀ o ∈ (ingress.leased m request stage).2.2, MayFollow ingress reserved request outs o) ∧
      (ingress.leased m request stage).2.2.length ≤ 1 ∧
      (ingress.leased m request stage).2.1.Knows ingress reserved
      (outs ++ (ingress.leased m request stage).2.2)
        request := by
  cases stage with
  | route id =>
    cases hk
    exact ⟨fun _ h => absurd h List.not_mem_nil, Nat.zero_le _, rfl⟩
  | broker passed value =>
    obtain ⟨rfl, ha⟩ := hk
    rw [Ingress.leased, Ingress.askBroker]
    split
    · exact ⟨fun _ h => absurd h List.not_mem_nil,
        Nat.zero_le _, value, ha, allOpen_nil, fun _ h => by cases h⟩
    · split
      · exact ⟨fun _ h => absurd h List.not_mem_nil,
          Nat.zero_le _, value, ha, allOpen_nil, fun _ h => by cases h⟩
      · rename_i asked hasked
        have hvalue := brokerRequest_authorization hd hasked
        refine ⟨?_, Nat.le_refl _, value, asked, ha, hvalue, rfl⟩
        rintro o (_ | ⟨_, ⟨⟩⟩)
        exact ⟨rfl, ha.profile, value, ha.value, hvalue⟩
  | terminal passed index =>
    obtain ⟨hopen, htrusted⟩ := hk
    rw [Ingress.leased, Ingress.send]
    split
    · refine ⟨?_, Nat.le_refl _, ?_⟩
      · rintro o (_ | ⟨_, ⟨⟩⟩)
        exact ⟨rfl, rfl, htrusted⟩
      · intro o ho
        rcases List.mem_append.mp ho with ho | ho
        · exact hopen o ho
        · rw [List.mem_singleton.mp ho]
          rfl
    · refine ⟨fun _ h => absurd h List.not_mem_nil, Nat.zero_le _, ?_⟩
      exact ⟨(List.append_nil outs).symm ▸ hopen, reject_clean hd _ _ _⟩
  | _ => cases hw

theorem refused_knows {g : GateId} (hw : ingress.wants request stage = some g)
    (hk : stage.Knows ingress reserved outs request) :
    AllOpen outs ∧ (ingress.refused stage).Knows ingress reserved outs request := by
  have hopen : AllOpen outs := by
    cases stage with
    | route id => exact hk ▸ allOpen_nil
    | broker passed value => exact hk.1 ▸ allOpen_nil
    | terminal passed index => exact hk.1
    | _ => cases hw
  refine ⟨hopen, ?_⟩
  cases stage with
  | route _ | broker _ _ | terminal _ _ => exact ⟨hopen, reject_clean hd _ _ _⟩
  | _ => cases hw

theorem released_knows (hr : stage.releases = true)
    (hk : stage.Knows ingress reserved outs request) :
    (ingress.released stage).Knows ingress reserved outs request := by
  cases stage with
  | authenticated passed result =>
    obtain ⟨value, ha, hopen, hallowed⟩ := hk
    refine promoted_knows hd ha.passing hopen _ fun context hc => ⟨some value, ha.value, ?_⟩
    rw [ha.profile]
    exact hallowed context hc
  | leaving response => exact hk
  | _ => cases hr

end Stages

structure Tracked (ingress : Ingress A C) (reserved : HeaderName → Prop)
    (events : List Event) (s : State A) : Prop where
  arrived : ∀ i request, .arrived i request ∈ events →
    ∃ c, s.calls[i]? = some c ∧ c.request = request
  unseen : ∀ i, s.calls.length ≤ i → outputsOf i events = []
  justified : ∀ i c, s.calls[i]? = some c →
    Justified (MayFollow ingress reserved c.request) (outputsOf i events) ∧
      c.stage.Knows ingress reserved (outputsOf i events) c.request

section History

variable {events : List Event} {s s' : State A} {i : Nat} {c c' : Call A}

theorem outputsOf_append (j : Nat) (events more : List Event) :
    outputsOf j (events ++ more) = outputsOf j events ++ outputsOf j more := List.filterMap_append

theorem outputsOf_self (i : Nat) (out : List Output) : outputsOf i (out.map (.output i)) = out := by
  rw [outputsOf, List.filterMap_map]
  refine (List.filterMap_congr fun o _ => ?_).trans List.filterMap_some
  exact if_pos rfl

theorem outputsOf_other {j : Nat} (hij : i ≠ j) (out : List Output) :
    outputsOf j (out.map (.output i)) = [] := by
  rw [outputsOf, List.filterMap_map, List.filterMap_eq_nil_iff]
  exact fun o _ => if_neg hij

theorem Tracked.update {out : List Output} (ht : Tracked ingress reserved events s)
    (hi : s.calls[i]? = some c)
    (hs : s'.calls = s.calls) (hrequest : c'.request = c.request)
    (hout : ∀ o ∈ out, MayFollow ingress reserved c.request (outputsOf i events) o)
    (hlen : out.length ≤ 1)
    (hk : c'.stage.Knows ingress reserved (outputsOf i events ++ out) c.request) :
    Tracked ingress reserved (events ++ out.map (.output i)) (s'.setCall i c') := by
  have hlt := (List.getElem?_eq_some_iff.mp hi).1
  have hcalls : (s'.setCall i c').calls = s.calls.set i c' := by rw [State.setCall, hs]
  have hself : (s'.setCall i c').calls[i]? = some c' := by rw [hcalls, List.getElem?_set_self hlt]
  have hother {j : Nat} (hij : i ≠ j) : (s'.setCall i c').calls[j]? = s.calls[j]? := by
    rw [hcalls, List.getElem?_set_ne hij]
  refine ⟨?_, ?_, ?_⟩
  · intro j request hm
    rcases List.mem_append.mp hm with hm | hm
    · obtain ⟨b, hj, hb⟩ := ht.arrived j request hm
      by_cases hij : i = j
      · subst hij
        rw [hi] at hj
        cases hj
        exact ⟨c', hself, hrequest.trans hb⟩
      · exact ⟨b, (hother hij).trans hj, hb⟩
    · obtain ⟨o, -, ⟨⟩⟩ := List.mem_map.mp hm
  · intro j hj
    rw [hcalls, List.length_set] at hj
    rw [outputsOf_append, ht.unseen j hj, outputsOf_other (by omega), List.append_nil]
  · intro j b hj
    by_cases hij : i = j
    · subst hij
      rw [hself] at hj
      cases hj
      rw [hrequest, outputsOf_append, outputsOf_self]
      refine ⟨?_, hk⟩
      have hjust := (ht.justified i c hi).1
      cases out with
      | nil => rwa [List.append_nil]
      | cons o rest =>
        obtain rfl : rest = [] :=
          List.length_eq_zero_iff.mp (Nat.le_zero.mp (Nat.le_of_succ_le_succ hlen))
        exact hjust.snoc (hout o List.mem_cons_self)
    · rw [hother hij] at hj
      rw [outputsOf_append, outputsOf_other hij, List.append_nil]
      exact ht.justified j b hj

theorem Tracked.quiet (ht : Tracked ingress reserved events s)
    (hi : s.calls[i]? = some c) (hs : s'.calls = s.calls)
    (hrequest : c'.request = c.request)
    (hk : c'.stage.Knows ingress reserved (outputsOf i events) c.request) :
    Tracked ingress reserved (events ++ []) (s'.setCall i c') :=
  have hout : ∀ o ∈ [], MayFollow ingress reserved c.request (outputsOf i events) o := fun _ h =>
    absurd h List.not_mem_nil
  ht.update hi hs hrequest hout (Nat.zero_le _) (by rwa [List.append_nil])

theorem Tracked.seen {o : Output} (ht : Tracked ingress reserved events s)
    (hi : s.calls[i]? = some c)
    (hs : s'.calls = s.calls) (hrequest : c'.request = c.request)
    (ho : MayFollow ingress reserved c.request (outputsOf i events) o)
    (hk : c'.stage.Knows ingress reserved (outputsOf i events ++ [o]) c.request) :
    Tracked ingress reserved (events ++ [.output i o]) (s'.setCall i c') :=
  have hout : ∀ o' ∈ [o], MayFollow ingress reserved c.request (outputsOf i events) o' := fun _ h =>
    List.mem_singleton.mp h ▸ ho
  ht.update hi hs hrequest hout (Nat.le_refl _) hk

theorem Tracked.same (ht : Tracked ingress reserved events s) (hcalls : s'.calls = s.calls) :
    Tracked ingress reserved (events ++ []) s' := by
  rw [List.append_nil]
  exact ⟨hcalls ▸ ht.arrived, hcalls ▸ ht.unseen, hcalls ▸ ht.justified⟩

theorem Tracked.arrive (ht : Tracked ingress reserved events s) (hc : c.stage = .identify)
    (hcalls : s'.calls = s.calls ++ [c]) :
    Tracked ingress reserved (events ++ [.arrived s.calls.length c.request]) s' := by
  have hnone (j : Nat) : outputsOf j [.arrived s.calls.length c.request] = [] := rfl
  have hlast : s'.calls[s.calls.length]? = some c := by rw [hcalls, List.getElem?_concat_length]
  refine ⟨?_, ?_, ?_⟩
  · intro j request hm
    rcases List.mem_append.mp hm with hm | hm
    · obtain ⟨b, hj, hb⟩ := ht.arrived j request hm
      exact ⟨b, by rw [hcalls, List.getElem?_append_left (List.getElem?_eq_some_iff.mp hj).1,
        hj], hb⟩
    · cases List.mem_singleton.mp hm
      exact ⟨c, hlast, rfl⟩
  · intro j hj
    rw [hcalls, List.length_append] at hj
    rw [outputsOf_append, hnone, List.append_nil, ht.unseen j (Nat.le_of_succ_le hj)]
  · intro j b hj
    rw [outputsOf_append, hnone, List.append_nil]
    by_cases hlt : j < s.calls.length
    · rw [hcalls, List.getElem?_append_left hlt] at hj
      exact ht.justified j b hj
    · have hle : j < s.calls.length + 1 := by
        have := (List.getElem?_eq_some_iff.mp hj).1
        rwa [hcalls, List.length_append] at this
      obtain rfl : j = s.calls.length := by omega
      rw [hlast] at hj
      cases hj
      rw [ht.unseen _ (Nat.le_refl _), hc]
      exact ⟨.nil, rfl⟩

theorem awaits_open (hw : c.stage.awaits = true)
    (hk : c.stage.Knows ingress reserved outs request) : AllOpen outs := by
  revert hw hk
  cases c.stage with
  | authenticating passed =>
    rintro - ⟨_, _, _, _, rfl⟩ o ho
    rw [List.mem_singleton.mp ho]
    rfl
  | sending passed index => exact fun _ hk => hk
  | _ => exact fun hw => by cases hw

theorem Tracked.step {more : List Event} (hd : ingress.crates.Documented reserved)
    (hkept : Kept ingress s)
    (ht : Tracked ingress reserved events s) (h : Step ingress s more s') :
    Tracked ingress reserved (events ++ more) s' := by
  cases h with
  | arrive request => exact ht.arrive (c := ⟨request, .identify, [], none, true⟩) rfl rfl
  | proceed h hl =>
    obtain ⟨hout, hlen, hk⟩ := local_knows hd hl (ht.justified _ _ h).2
    exact ht.update h rfl rfl hout hlen hk
  | acquire h hw ha => exact ht.quiet h rfl rfl (ht.justified _ _ h).2
  | queue h ha hn hc hm => exact ht.same rfl
  | admitted h ha hs =>
    have hw := ((hkept.owned _ (List.mem_of_getElem? h)).acquiring _ ha).1
    obtain ⟨hout, hlen, hk⟩ := leased_knows hd hw (ht.justified _ _ h).2
    exact ht.update h rfl rfl hout hlen hk
  | refused h ha hs =>
    have hw := ((hkept.owned _ (List.mem_of_getElem? h)).acquiring _ ha).1
    exact ht.quiet h rfl rfl (refused_knows hd hw (ht.justified _ _ h).2).2
  | release h hr hh hm =>
    have hk := (ht.justified _ _ h).2
    refine ht.quiet h rfl ?_ ?_
    · split <;> rfl
    · split
      · exact released_knows hd hr hk
      · exact hk
  | closed h hb => exact ht.quiet h rfl rfl trivial
  | disconnected h hw => exact ht.seen h rfl rfl (awaits_open hw (ht.justified _ _ h).2) trivial
  | canceled h ha hm =>
    have hw := ((hkept.owned _ (List.mem_of_getElem? h)).acquiring _ ha).1
    exact ht.seen h rfl rfl (refused_knows hd hw (ht.justified _ _ h).2).1 trivial
  | @finish i c response h hl hh =>
    have hk := (ht.justified _ _ h).2
    rw [hl] at hk
    cases response with
    | none => exact ht.quiet h rfl rfl trivial
    | some response => exact ht.seen h rfl rfl hk trivial

end History

/-- The trust boundary holds for every request, however requests interleave: what
a terminal gets carries the context that was promoted for that request and
nothing that its client forged, and no response shows a reserved header. -/
theorem requests_trusted (hd : ingress.crates.Documented reserved)
    {labels : List (List Event)} {s : State A}
    (h : (requests ingress).Run labels s) {i : Nat} (ha : .arrived i request ∈ labels.flatten) :
    Justified (MayFollow ingress reserved request) (outputsOf i labels.flatten) ∧
      ∀ request', .arrived i request' ∈ labels.flatten → request' = request := by
  have ht : Kept ingress s ∧ Tracked ingress reserved labels.flatten s := by
    refine h.invariant (fun labels s => Kept ingress s ∧
      Tracked ingress reserved labels.flatten s) ?_ ?_
    · rintro _ rfl
      refine ⟨kept (.start rfl),
        ⟨fun i _ h => absurd h List.not_mem_nil, fun _ _ => rfl, fun i c h => ?_⟩⟩
      exact absurd h (by simp [State.start])
    · rintro labels s more s' ⟨hk, ht⟩ hs
      rw [List.flatten_append, List.flatten_singleton]
      exact ⟨hk.step hs, ht.step hd hk hs⟩
  obtain ⟨c, hc, rfl⟩ := ht.2.arrived i request ha
  refine ⟨(ht.2.justified i c hc).1, fun request' ha' => ?_⟩
  obtain ⟨c', hc', rfl⟩ := ht.2.arrived i request' ha'
  rw [Option.some.inj (hc'.symm.trans hc)]

theorem plainCrates_documented : plainCrates.Documented (· = "x-wasi-auth-context") where
  stripped headers name hname := by
    rw [hname]
    exact (Multimap.getAll_remove _ _ _).trans (if_pos rfl)
  kept headers name hname := (Multimap.getAll_remove _ _ _).trans (if_neg hname)
  security headers name hname := by
    rw [hname]
    exact (Multimap.getAll_insert _ _ _ _).trans (if_neg (by decide))
  context := rfl
  requestId := by decide
  cacheControl := by decide
  distinct := by decide

def edgeIngress : Ingress Bytes Bytes := { plainIngress with profile := .edgeAuthenticated }

theorem forged_run : ∃ events s, Seen edgeIngress (.arrived 0 forged :: events) s ∧
    ∃ asked sent response,
    events = [.output 0 (.asked asked), .output 0 (.answered (.answered (.ok, text "user-7"))),
      .output 0 (.sent 0 sent), .output 0 (.responded response)] ∧
      asked.headers.getAll authorization = [text "Bearer 7"] ∧
      sent.headers.getAll "x-wasi-auth-context" = [text "user-7"] ∧
      sent.headers.getAll authorization = [] := by
  have hstart : Seen edgeIngress [] (.start edgeIngress) := ⟨[], rfl, .start rfl⟩
  have hidentified := (hstart.next (.arrive forged)).proceed (i := 0) rfl .identify
  have hadmitted := hidentified.admitted (i := 0) rfl rfl rfl rfl (by decide) (by decide)
  have hpolicy := hadmitted.proceed (i := 0) rfl .policy
  have hasked := hpolicy.admitted (i := 0) rfl rfl rfl rfl (by decide) (by decide)
  have hanswered := hasked.proceed (i := 0) rfl (.answered (.answered (.ok, text "user-7")))
  have hdropping := hanswered.quiet (.release (i := 0) rfl rfl rfl rfl)
  have hpromoted := hdropping.quiet (.release (i := 0) rfl rfl rfl rfl)
  have hselected := hpromoted.proceed (i := 0) rfl (.select [(true, 0)] rfl)
  have hsent := hselected.admitted (i := 0) rfl rfl rfl rfl (by decide) (by decide)
  have hreplied := hsent.proceed (i := 0) rfl (.replied (.answered ⟨.ok, ∅⟩))
  exact ⟨_, _, hreplied, _, _, _, rfl, rfl, rfl, rfl⟩

/-- A request with a forged context and a credential: the broker is asked, and
the terminal sees the broker's context. -/
theorem requests_trusted_forged : ∃ asked sent response,
    asked.headers.getAll authorization = [text "Bearer 7"] ∧
      sent.headers.getAll "x-wasi-auth-context" = [text "user-7"] ∧
      sent.headers.getAll authorization = [] ∧
      Justified (MayFollow edgeIngress (· = "x-wasi-auth-context") forged) [.asked asked,
        .answered (.answered (.ok, text "user-7")), .sent 0 sent, .responded response] := by
  obtain ⟨_, s, ⟨labels, hlabels, hrun⟩, asked, sent, response, rfl, hasked, hcontext, hbearer⟩ :=
    forged_run
  have hdocumented : edgeIngress.crates.Documented (· = "x-wasi-auth-context") :=
    plainCrates_documented
  have htrusted := (requests_trusted hdocumented (i := 0) hrun (hlabels ▸ List.mem_cons_self)).1
  rw [hlabels] at htrusted
  exact ⟨asked, sent, response, hasked, hcontext, hbearer, htrusted⟩

end LeptosWasi.TrustedIngress
