import LeptosWasi.IngressRequests
import LeptosWasi.AdmissionAccounting
import LeptosWasi.Library.Custody

namespace LeptosWasi.TrustedIngress

open Http Admission AdmissionAccounting

variable {A C : Type} {ingress : Ingress A C} {s s' : State A}
    {i : Nat} {c c' : Call A} {t : Ticket}

def Ingress.uses (ingress : Ingress A C) (request : Request) : Stage A → List GateId
  | .identify | .route _ | .leaving _ | .finished => []
  | .policy _ | .broker _ _ | .select _ | .terminal _ _ =>
    [.route (ingress.routeClass request.uri.path)]
  | .authenticating _ | .authenticated _ _ =>
    [.broker, .route (ingress.routeClass request.uri.path)]
  | .sending _ index | .body index =>
    [.terminal index, .route (ingress.routeClass request.uri.path)]

def Stage.isLeaving : Stage A → Bool
  | .leaving _ => true
  | _ => false

def Stage.isFinished : Stage A → Bool
  | .finished => true
  | _ => false

def Call.tickets (c : Call A) : List Ticket := c.acquiring.toList ++ c.held

def isDone : Caller → Bool
  | .dropped | .overloaded | .canceled => true
  | _ => false

def inAcquire : Caller → Bool
  | .dropping | .dropped | .canceled => false
  | _ => true

/-- The leases of a request are those that its stage needs. Only the first one
may be half dropped. -/
structure Owned (ingress : Ingress A C) (s : State A) (c : Call A) : Prop where
  uses : c.stage.isLeaving = true ∨ c.held.map Ticket.gate = ingress.uses c.request c.stage
  head : ∀ t rest, c.held = t :: rest →
    (s.caller t = some .leased ∨ s.caller t = some .dropping ∧ c.stage.releases = true) ∧
      ∀ t' ∈ rest, s.caller t' = some .leased
  acquiring : ∀ t, c.acquiring = some t →
    ingress.wants c.request c.stage = some t.gate ∧
    ∀ caller, s.caller t = some caller → inAcquire caller = true
  guarded : c.guarded = !c.stage.isFinished
  finished : c.stage.isFinished = true → c.tickets = []

structure Kept (ingress : Ingress A C) (s : State A) : Prop where
  gates : ∀ g, ∃ moves, (admission (ingress.limit g) (ingress.maxQueue g)).Run moves (s.gates g)
  custody : Custody Call.tickets s.calls s.caller isDone
  owned : ∀ c ∈ s.calls, Owned ingress s c
  active : s.shared.activeRequests = s.calls.countP Call.guarded

section Stages

variable {m m' : Shared} {request : Request} {stage stage' : Stage A}
    {out : List Output} {g : GateId}

theorem promoted_uses (passed : Passed) (result : Except Rejection A) :
    ((ingress.promoted passed result).isLeaving = true ∨
      ingress.uses request (ingress.promoted passed result) =
      [.route (ingress.routeClass request.uri.path)]) ∧
      (ingress.promoted passed result).isFinished = false := by
  cases result with
  | error rejection => exact ⟨.inl rfl, rfl⟩
  | ok context =>
    rw [Ingress.promoted]
    split
    · exact ⟨.inr rfl, rfl⟩
    · exact ⟨.inl rfl, rfl⟩

theorem policy_uses (id : Bytes) :
    ((ingress.policy request id).isLeaving = true ∨
      ingress.uses request (ingress.policy request id) =
      [.route (ingress.routeClass request.uri.path)]) ∧
      (ingress.policy request id).isFinished = false := by
  rw [Ingress.policy]
  split
  · exact ⟨.inl rfl, rfl⟩
  · dsimp only
    split
    · exact ⟨.inl rfl, rfl⟩
    · exact ⟨.inl rfl, rfl⟩
    · split
      · exact ⟨.inr rfl, rfl⟩
      · exact promoted_uses _ _

theorem Local.stages (h : Local ingress m stage request out m' stage') :
    ingress.wants request stage = none ∧ stage.releases = false ∧ stage.isLeaving = false ∧
      stage.isFinished = false ∧ stage'.isFinished = false ∧
      (stage'.isLeaving = true ∨ ingress.uses request stage' = ingress.uses request stage) := by
  cases h with
  | identify =>
    refine ⟨rfl, rfl, rfl, rfl, ?_⟩
    rw [Ingress.identify]
    split
    · exact ⟨rfl, .inr rfl⟩
    · split
      · exact ⟨rfl, .inr rfl⟩
      · exact ⟨rfl, .inr rfl⟩
      · exact ⟨rfl, .inl rfl⟩
  | policy => exact ⟨rfl, rfl, rfl, rfl, (policy_uses _).symm⟩
  | answered reply => exact ⟨rfl, rfl, rfl, rfl, rfl, .inr rfl⟩
  | select loads _ =>
    refine ⟨rfl, rfl, rfl, rfl, ?_⟩
    rw [Ingress.select]
    split
    · exact ⟨rfl, .inr rfl⟩
    · exact ⟨rfl, .inl rfl⟩
  | replied reply =>
    refine ⟨rfl, rfl, rfl, rfl, ?_⟩
    cases reply with
    | answered response => exact ⟨rfl, .inr rfl⟩
    | failed => exact ⟨rfl, .inl rfl⟩
    | timedOut => exact ⟨rfl, .inl rfl⟩

theorem Local.activeRequests (h : Local ingress m stage request out m' stage') :
    m'.activeRequests = m.activeRequests := by
  cases h with
  | identify =>
    rw [Ingress.identify]
    split
    · rfl
    · split <;> rfl
  | policy => rfl
  | answered reply =>
    cases reply with
    | answered response =>
      rw [Ingress.brokerResult]
      split
      · rfl
      · rfl
      · split <;> rfl
    | failed => rfl
    | timedOut => rfl
  | select loads _ =>
    rw [Ingress.select]
    split <;> rfl
  | replied reply => cases reply <;> rfl

theorem leased_stages (m : Shared) (h : ingress.wants request stage = some g) :
    (ingress.leased m request stage).1.activeRequests = m.activeRequests ∧
      (ingress.leased m request stage).2.1.isFinished = false ∧
      ((ingress.leased m request stage).2.1.isLeaving = true ∨
      ingress.uses request
        (ingress.leased m request stage).2.1 = g :: ingress.uses request stage) := by
  cases stage with
  | route id =>
    cases h
    exact ⟨rfl, rfl, .inr rfl⟩
  | broker passed value =>
    cases h
    rw [Ingress.leased, Ingress.askBroker]
    split
    · exact ⟨rfl, rfl, .inr rfl⟩
    · split <;> exact ⟨rfl, rfl, .inr rfl⟩
  | terminal passed index =>
    cases h
    rw [Ingress.leased, Ingress.send]
    split
    · exact ⟨rfl, rfl, .inr rfl⟩
    · exact ⟨rfl, rfl, .inl rfl⟩
  | _ => cases h

theorem refused_isLeaving (h : ingress.wants request stage = some g) :
    (ingress.refused stage).isLeaving = true := by
  cases stage with
  | route _ | broker _ _ | terminal _ _ => rfl
  | _ => cases h

theorem released_stages (h : stage.releases = true) :
    (ingress.released stage).isFinished = false ∧ ((ingress.released stage).isLeaving = true ∨
      ingress.uses request (ingress.released stage) = (ingress.uses request stage).tail) := by
  cases stage with
  | authenticated passed result => exact (promoted_uses passed result).symm
  | leaving response => exact ⟨rfl, .inl rfl⟩
  | _ => cases h

end Stages

section Tickets

@[simp] theorem setGate_self (s : State A) (g : GateId) (gate : Admission.State) :
    (s.setGate g gate).gates g = gate := Function.update_self ..

@[simp] theorem setGate_ne (s : State A) {g g' : GateId} (gate : Admission.State) (hg : g' ≠ g) :
    (s.setGate g gate).gates g' = s.gates g' := Function.update_of_ne hg ..

theorem ticket_eq {g : GateId} {n : Nat} (hg : t.gate = g) (hn : t.caller = n) : t = ⟨g, n⟩ := by
  rw [← hg, ← hn]

theorem caller_event {e : Admission.Event} {gate : Admission.State}
    (h : (s.gates t.gate).apply (.event t.caller e) = some gate) :
    ∃ caller caller' g, s.caller t = some caller ∧
      (s.gates t.gate).gate.act e caller = some (g, caller') ∧
      (s.setGate t.gate gate).caller t = some caller' ∧ gate.callers[t.caller]? = some caller' ∧
      ∀ t', t' ≠ t → (s.setGate t.gate gate).caller t' = s.caller t' := by
  simp only [Admission.State.apply, Option.bind_eq_bind, Option.bind_eq_some_iff] at h
  obtain ⟨caller, hc, ⟨g, caller'⟩, hact, hg⟩ := h
  cases hg
  have hlt := (List.getElem?_eq_some_iff.mp hc).1
  have hset : ((s.gates t.gate).callers.set t.caller caller')[t.caller]? = some caller' :=
    List.getElem?_set_self hlt
  refine ⟨caller, caller', g, hc, hact, ?_, hset, ?_⟩
  · rw [State.caller, setGate_self]
    exact hset
  · intro t' ht
    rw [State.caller, State.caller]
    by_cases hg : t'.gate = t.gate
    · rw [hg, setGate_self]
      exact List.getElem?_set_ne fun hcaller => ht (ticket_eq hg hcaller.symm)
    · rw [setGate_ne s _ hg]

theorem caller_arrive (s : State A) (g : GateId) :
    s.caller ⟨g, (s.gates g).callers.length⟩ = none ∧
      (s.setGate g (s.gates g).arrive).caller ⟨g, (s.gates g).callers.length⟩ =
        some (.entered (s.gates g).gate.queued) ∧
      ∀ t, t ≠ ⟨g, (s.gates g).callers.length⟩ →
        (s.setGate g (s.gates g).arrive).caller t = s.caller t := by
  refine ⟨List.getElem?_eq_none (Nat.le_refl _), ?_, ?_⟩
  · rw [State.caller, setGate_self, Admission.State.arrive]
    exact List.getElem?_concat_length
  · intro t ht
    rw [State.caller, State.caller]
    by_cases hg : t.gate = g
    · rw [hg, setGate_self, Admission.State.arrive, List.getElem?_append]
      split
      · rfl
      · rename_i hlt
        have hne : t.caller ≠ (s.gates g).callers.length := fun hcaller =>
          ht (ticket_eq hg hcaller)
        rw [List.getElem?_eq_none (Nat.le_of_not_lt hlt), List.getElem?_eq_none]
        rw [List.length_singleton]
        omega
    · rw [setGate_ne s _ hg]

theorem gates_setGate {g : GateId} {m : Move} {gate : Admission.State}
    (hk : ∀ g, ∃ moves, (admission (ingress.limit g) (ingress.maxQueue g)).Run moves (s.gates g))
    (h : (s.gates g).apply m = some gate) (g' : GateId) :
    ∃ moves, (admission (ingress.limit g') (ingress.maxQueue g')).Run moves
      ((s.setGate g gate).gates g') := by
  by_cases hg : g' = g
  · subst hg
    obtain ⟨moves, hrun⟩ := hk g'
    rw [setGate_self]
    exact ⟨_, hrun.next h⟩
  · rw [setGate_ne s _ hg]
    exact hk g'

end Tickets

theorem Owned.congr (h : Owned ingress s c) (hc : ∀ t ∈ c.tickets, s'.caller t = s.caller t) :
    Owned ingress s' c := by
  have hheld : ∀ t ∈ c.held, s'.caller t = s.caller t :=
    fun t ht => hc t (List.mem_append_right _ ht)
  refine ⟨h.uses, ?_, ?_, h.guarded, h.finished⟩
  · intro t rest hr
    obtain ⟨hhead, htail⟩ := h.head t rest hr
    rw [hheld t (hr ▸ List.mem_cons_self)]
    exact ⟨hhead, fun t' ht => (hheld t' (hr ▸ List.mem_cons_of_mem _ ht)).trans (htail t' ht)⟩
  · intro t ha
    rw [hc t (List.mem_append_left _ (Option.mem_toList.mpr ha))]
    exact h.acquiring t ha

theorem Kept.update (hk : Kept ingress s) (hi : s.calls[i]? = some c)
    (hcalls : s'.calls = s.calls.set i c')
    (hgates : ∀ g, ∃ moves,
      (admission (ingress.limit g) (ingress.maxQueue g)).Run moves (s'.gates g))
    (hframe : ∀ t, t ∉ c.tickets → t ∉ c'.tickets → s'.caller t = s.caller t)
    (hnew : ∀ t ∈ c'.tickets, t ∈ c.tickets ∨ s.caller t = none)
    (hpresent : ∀ t ∈ c'.tickets, s'.caller t ≠ none)
    (hnodup : c'.tickets.Nodup)
    (hdone : ∀ t ∈ c.tickets, t ∉ c'.tickets → ∀ caller, s'.caller t = some caller →
      isDone caller = true)
    (howned : Owned ingress s' c')
    (hactive : s'.shared.activeRequests + c.guarded.toNat =
      s.shared.activeRequests + c'.guarded.toNat) :
    Kept ingress s' := by
  refine ⟨hgates, ?_, ?_, ?_⟩
  · rw [hcalls]
    exact hk.custody.set hi hframe hnew hpresent hnodup hdone
  · intro b hb
    rw [hcalls] at hb
    obtain ⟨j, hj⟩ := List.getElem?_of_mem hb
    by_cases hij : i = j
    · subst hij
      rw [List.getElem?_set_self (List.getElem?_eq_some_iff.mp hi).1] at hj
      cases hj
      exact howned
    · rw [List.getElem?_set_ne hij] at hj
      exact (hk.owned b (List.mem_of_getElem? hj)).congr fun t ht =>
        hk.custody.frame hi hj hij hframe hnew ht
  · have hcount := countP_set_add Call.guarded hi c'
    have hsum := hk.active
    rw [hcalls]
    omega

theorem Kept.proceed (hk : Kept ingress s) (hi : s.calls[i]? = some c)
    (hcalls : s'.calls = s.calls.set i c')
    (hgates : s'.gates = s.gates) (hperm : c'.tickets.Perm c.tickets) (howned : Owned ingress s' c')
    (hactive : s'.shared.activeRequests + c.guarded.toNat =
      s.shared.activeRequests + c'.guarded.toNat) :
    Kept ingress s' := by
  have hcaller : s'.caller = s.caller := by
    funext t
    rw [State.caller, hgates, State.caller]
  have hmem := List.mem_of_getElem? hi
  refine hk.update hi hcalls (hgates ▸ hk.gates) (fun t _ _ => by rw [hcaller])
    (fun t ht => .inl (hperm.mem_iff.mp ht)) (fun t ht => ?_)
    (hperm.nodup_iff.mpr (hk.custody.nodup c hmem))
    (fun t ht hn => absurd (hperm.mem_iff.mpr ht) hn) howned hactive
  rw [hcaller]
  exact hk.custody.present c hmem t (hperm.mem_iff.mp ht)

theorem Owned.all_leased (h : Owned ingress s c) (hr : c.stage.releases = false) :
    ∀ t ∈ c.held, s.caller t = some .leased := by
  intro t ht
  cases hh : c.held with
  | nil => exact absurd (hh ▸ ht) List.not_mem_nil
  | cons t₀ rest =>
    obtain ⟨hhead, htail⟩ := h.head t₀ rest hh
    rcases List.mem_cons.mp (hh ▸ ht) with rfl | hm
    · exact hhead.resolve_right fun hd => absurd hd.2 (by rw [hr]; exact Bool.false_ne_true)
    · exact htail t hm

theorem Owned.acquiring_eq_none (h : Owned ingress s c)
    (hw : ingress.wants c.request c.stage = none) :
    c.acquiring = none := by
  cases ha : c.acquiring with
  | none => rfl
  | some t =>
    rw [(h.acquiring t ha).1] at hw
    cases hw

theorem head_of_leased {held : List Ticket} {stage : Stage A}
    (h : ∀ t ∈ held, s.caller t = some .leased) (t : Ticket)
    (rest : List Ticket) (hh : held = t :: rest) :
    (s.caller t = some .leased ∨ s.caller t = some .dropping ∧ stage.releases = true) ∧
      ∀ t' ∈ rest, s.caller t' = some .leased :=
  ⟨.inl (h t (hh ▸ List.mem_cons_self)), fun t' ht => h t' (hh ▸ List.mem_cons_of_mem _ ht)⟩

section Wants

variable {request : Request} {stage : Stage A} {g : GateId}

theorem releases_of_wants (h : ingress.wants request stage = some g) :
    stage.releases = false ∧ stage.isLeaving = false ∧ stage.isFinished = false := by
  cases stage with
  | route _ | broker _ _ | terminal _ _ => exact ⟨rfl, rfl, rfl⟩
  | _ => cases h

theorem wants_of_releases (h : stage.releases = true) : ingress.wants request stage = none := by
  cases stage with
  | authenticated _ _ | leaving _ => rfl
  | _ => cases h

theorem releases_isFinished (h : stage.releases = true) : stage.isFinished = false := by
  cases stage with
  | authenticated _ _ | leaving _ => rfl
  | _ => cases h

theorem released_isLeaving (h : stage.isLeaving = true) :
    (ingress.released stage).isLeaving = true := by
  cases stage with
  | leaving _ => rfl
  | _ => cases h

theorem awaits_stages (h : stage.awaits = true) :
    ingress.wants request stage = none ∧ stage.releases = false ∧ stage.isFinished = false := by
  cases stage with
  | authenticating _ | sending _ _ => exact ⟨rfl, rfl, rfl⟩
  | _ => cases h

theorem isFinished_of_isLeaving (h : stage.isLeaving = true) : stage.isFinished = false := by
  cases stage with
  | leaving _ => rfl
  | _ => cases h

end Wants

/-- No event but a dropped future takes a caller out of `acquire` before it has a
lease. -/
theorem act_inAcquire {gate gate' : AdmissionGate} {e : Admission.Event} {caller caller' : Caller}
    (h : gate.act e caller = some (gate', caller')) (hc : e ≠ .cancel) (hn : caller ≠ .leased)
    (hin : inAcquire caller = true) : inAcquire caller' = true := by
  cases e with
  | cancel => exact absurd rfl hc
  | grant =>
    cases caller with
    | waiting permit =>
      cases permit with
      | true => cases h
      | false =>
        rw [AdmissionGate.act] at h
        split at h <;> cases h
        rfl
    | _ => cases h
  | expire =>
    cases caller with
    | waiting permit =>
      cases h
      rfl
    | _ => cases h
  | advance =>
    cases caller with
    | leased => exact absurd rfl hn
    | dropping => cases hin
    | observed queued =>
      simp only [AdmissionGate.act, AdmissionGate.advance] at h
      split at h
      · cases h
        rfl
      · split at h <;> (cases h; rfl)
    | waiting permit =>
      cases permit <;> cases h
      rfl
    | left permit => cases permit <;> (cases h; rfl)
    | entered _ | resumed _ | counted _ =>
      cases h
      rfl
    | _ => cases h

theorem cancel_caller {gate gate' : AdmissionGate} {caller caller' : Caller}
    (h : gate.act .cancel caller = some (gate', caller')) : caller' = .canceled := by
  cases caller with
  | waiting permit =>
    cases h
    rfl
  | _ => cases h

theorem Owned.uses_eq (h : Owned ingress s c) (hl : c.stage.isLeaving = false) :
    c.held.map Ticket.gate = ingress.uses c.request c.stage :=
  h.uses.resolve_left (by rw [hl]; exact Bool.false_ne_true)

namespace Kept

theorem arrive (hk : Kept ingress s) (request : Request) :
    Kept ingress ⟨s.gates, { s.shared with activeRequests := s.shared.activeRequests + 1 },
      s.calls ++ [⟨request, .identify, [], none, true⟩]⟩ := by
  refine ⟨hk.gates, hk.custody.snoc rfl, ?_, ?_⟩
  · intro b hb
    rcases List.mem_append.mp hb with hb | hb
    · exact (hk.owned b hb).congr fun _ _ => rfl
    · rw [List.mem_singleton.mp hb]
      exact ⟨.inr rfl, fun _ _ h => (by cases h),
        fun _ h => (by cases h), rfl, fun h => (by cases h)⟩
  · rw [List.countP_append, ← hk.active]
    rfl

theorem proceeded {out : List Output} {m : Shared} {stage : Stage A} (hk : Kept ingress s)
    (hi : s.calls[i]? = some c) (hl : Local ingress s.shared c.stage c.request out m stage) :
    Kept ingress (({ s with shared := m } : State A).setCall i { c with stage := stage }) := by
  obtain ⟨hw, hr, hleaving, hf, hf', huses⟩ := hl.stages
  have ho := hk.owned c (List.mem_of_getElem? hi)
  refine hk.proceed hi rfl rfl (List.Perm.refl _)
    ⟨?_, ?_, ?_, ?_, ?_⟩ (congrArg (· + _) hl.activeRequests)
  · exact huses.imp_right fun huses => (ho.uses_eq hleaving).trans huses.symm
  · exact head_of_leased (ho.all_leased hr)
  · intro t ha
    rw [ho.acquiring_eq_none hw] at ha
    cases ha
  · rw [hf', ← hf]
    exact ho.guarded
  · intro h
    rw [hf'] at h
    cases h

theorem acquire {g : GateId} (hk : Kept ingress s) (hi : s.calls[i]? = some c)
    (hw : ingress.wants c.request c.stage = some g) (ha : c.acquiring = none) :
    Kept ingress ((s.setGate g (s.gates g).arrive).setCall i
      { c with acquiring := some ⟨g, (s.gates g).callers.length⟩ }) := by
  have hmem := List.mem_of_getElem? hi
  have ho := hk.owned c hmem
  obtain ⟨hnone, hself, hother⟩ := caller_arrive s g
  obtain ⟨hr, -, hf⟩ := releases_of_wants hw
  have htickets : c.tickets = c.held := by
    rw [Call.tickets, ha, Option.toList_none, List.nil_append]
  have hne : ∀ t ∈ c.held, t ≠ ⟨g, (s.gates g).callers.length⟩ := by
    rintro t ht rfl
    exact hk.custody.present c hmem _ (htickets ▸ ht) hnone
  refine hk.update hi rfl (gates_setGate (m := .arrive) hk.gates rfl) ?_ ?_ ?_ ?_ ?_
    ⟨ho.uses, ?_, ?_, ho.guarded, ?_⟩ rfl
  · intro t _ ht
    exact hother t fun h => ht (h ▸ List.mem_cons_self)
  · intro t ht
    rcases List.mem_cons.mp ht with rfl | ht
    · exact .inr hnone
    · exact .inl (htickets ▸ ht)
  · intro t ht
    rcases List.mem_cons.mp ht with rfl | ht
    · exact fun h => Option.some_ne_none _ (hself.symm.trans h)
    · exact fun h =>
        hk.custody.present c hmem t (htickets ▸ ht) ((hother t (hne t ht)).symm.trans h)
  · exact List.nodup_cons.mpr ⟨fun h => hne _ h rfl, htickets ▸ hk.custody.nodup c hmem⟩
  · intro t ht hn
    exact absurd (List.mem_cons_of_mem _ (htickets ▸ ht)) hn
  · exact head_of_leased fun t ht => (hother t (hne t ht)).trans (ho.all_leased hr t ht)
  · intro t ht
    cases ht
    refine ⟨hw, fun caller hc => ?_⟩
    rw [Option.some.inj (hc.symm.trans hself)]
    rfl
  · intro h
    exact absurd h (by rw [hf]; exact Bool.false_ne_true)

theorem queue {e : Admission.Event} {gate : Admission.State}
    (hk : Kept ingress s) (hi : s.calls[i]? = some c)
    (ha : c.acquiring = some t) (hn : s.caller t ≠ some .leased) (hc : e ≠ .cancel)
    (hm : (s.gates t.gate).apply (.event t.caller e) = some gate) :
    Kept ingress (s.setGate t.gate gate) := by
  have hmem := List.mem_of_getElem? hi
  have ho := hk.owned c hmem
  obtain ⟨hw, hin⟩ := ho.acquiring t ha
  obtain ⟨hr, -, hf⟩ := releases_of_wants hw
  obtain ⟨caller, caller', g, hcaller, hact, hself, -, hother⟩ := caller_event hm
  have htickets : c.tickets = t :: c.held := by rw [Call.tickets, ha]; rfl
  have hnodup : (t :: c.held).Nodup := htickets ▸ hk.custody.nodup c hmem
  have hne : ∀ t' ∈ c.held, t' ≠ t := fun t' ht h => (List.nodup_cons.mp hnodup).1 (h ▸ ht)
  have hset : s.calls = s.calls.set i c := by
    obtain ⟨hlt, rfl⟩ := List.getElem?_eq_some_iff.mp hi
    exact (List.set_getElem_self hlt).symm
  refine hk.update hi hset (gates_setGate hk.gates hm) ?_
    (fun _ => .inl) ?_ (hk.custody.nodup c hmem)
    (fun t ht hn => absurd ht hn) ⟨ho.uses, ?_, ?_, ho.guarded, ho.finished⟩ rfl
  · intro t' ht' _
    exact hother t' fun h => ht' (h ▸ htickets ▸ List.mem_cons_self)
  · intro t' ht'
    by_cases h : t' = t
    · subst h
      exact fun h => Option.some_ne_none _ (hself.symm.trans h)
    · exact fun hnone => hk.custody.present c hmem t' ht' ((hother t' h).symm.trans hnone)
  · exact head_of_leased fun t' ht => (hother t' (hne t' ht)).trans (ho.all_leased hr t' ht)
  · intro t' ht'
    rw [ha] at ht'
    cases ht'
    refine ⟨hw, fun caller₁ hc₁ => ?_⟩
    rw [Option.some.inj (hc₁.symm.trans hself)]
    exact act_inAcquire hact hc (fun h => hn (h ▸ hcaller)) (hin caller hcaller)

theorem admitted (hk : Kept ingress s) (hi : s.calls[i]? = some c) (ha : c.acquiring = some t)
    (hs : s.caller t = some .leased) :
    Kept ingress
      (({ s with shared := (ingress.leased s.shared c.request c.stage).1 } : State A).setCall i
      ⟨c.request, (ingress.leased s.shared c.request c.stage).2.1,
        t :: c.held, none, c.guarded⟩) := by
  have ho := hk.owned c (List.mem_of_getElem? hi)
  obtain ⟨hw, -⟩ := ho.acquiring t ha
  obtain ⟨hr, hleaving, hf⟩ := releases_of_wants hw
  obtain ⟨hactive, hf', huses⟩ := leased_stages s.shared hw
  have htickets : c.tickets = t :: c.held := by rw [Call.tickets, ha]; rfl
  refine hk.proceed hi rfl rfl (List.Perm.of_eq htickets.symm)
    ⟨?_, ?_, ?_, ?_, ?_⟩ (congrArg (· + _) hactive)
  · refine huses.imp_right fun huses => ?_
    rw [huses, ← ho.uses_eq hleaving]
    rfl
  · refine head_of_leased fun t' ht => ?_
    rcases List.mem_cons.mp ht with rfl | ht
    · exact hs
    · exact ho.all_leased hr t' ht
  · intro t' ht
    cases ht
  · rw [hf', ← hf]
    exact ho.guarded
  · intro h
    rw [hf'] at h
    cases h

theorem turned {stage : Stage A} {caller : Caller} (hk : Kept ingress s) (hi : s.calls[i]? = some c)
    (ha : c.acquiring = some t) (hs' : s'.caller t = some caller) (hdone : isDone caller = true)
    (hother : ∀ t', t' ≠ t → s'.caller t' = s.caller t')
    (hgates : ∀ g, ∃ moves,
      (admission (ingress.limit g) (ingress.maxQueue g)).Run moves (s'.gates g))
    (hcalls : s'.calls = s.calls.set i { c with stage := stage, acquiring := none })
    (hl : stage.isLeaving = true) (hactive : s'.shared.activeRequests = s.shared.activeRequests) :
    Kept ingress s' := by
  have hmem := List.mem_of_getElem? hi
  have ho := hk.owned c hmem
  obtain ⟨hr, -, hf⟩ := releases_of_wants (ho.acquiring t ha).1
  have htickets : c.tickets = t :: c.held := by rw [Call.tickets, ha]; rfl
  obtain ⟨hnot, hnodup⟩ := List.nodup_cons.mp (htickets ▸ hk.custody.nodup c hmem)
  have hne : ∀ t' ∈ c.held, t' ≠ t := fun t' ht h => hnot (h ▸ ht)
  have hf' := isFinished_of_isLeaving hl
  refine hk.update hi hcalls hgates ?_ ?_ ?_ hnodup ?_
    ⟨.inl hl, ?_, ?_, ?_, ?_⟩ (congrArg (· + _) hactive)
  · intro t' ht' _
    exact hother t' fun h => ht' (h ▸ htickets ▸ List.mem_cons_self)
  · intro t' ht'
    exact .inl (htickets ▸ List.mem_cons_of_mem _ ht')
  · intro t' ht'
    rw [hother t' (hne t' ht'), ho.all_leased hr t' ht']
    exact Option.some_ne_none _
  · intro t' ht' hn caller' hc
    rcases List.mem_cons.mp (htickets ▸ ht') with rfl | ht'
    · rw [Option.some.inj (hc.symm.trans hs')]
      exact hdone
    · exact absurd ht' hn
  · exact head_of_leased fun t' ht => (hother t' (hne t' ht)).trans (ho.all_leased hr t' ht)
  · intro t' ht
    cases ht
  · rw [hf', ← hf]
    exact ho.guarded
  · intro h
    rw [hf'] at h
    cases h

theorem leaves {held : List Ticket} {response : Option ResponseHead}
    (hk : Kept ingress s) (hi : s.calls[i]? = some c)
    (hw : ingress.wants c.request c.stage = none)
    (hr : c.stage.releases = false) (hf : c.stage.isFinished = false)
    (hheld : held.Perm c.held) :
    Kept ingress (s.setCall i { c with stage := .leaving response, held := held }) := by
  have ho := hk.owned c (List.mem_of_getElem? hi)
  have hnone := ho.acquiring_eq_none hw
  refine hk.proceed hi rfl rfl (hheld.append_left _) ⟨.inl rfl, ?_, ?_, ?_, ?_⟩ rfl
  · exact head_of_leased fun t ht => ho.all_leased hr t (hheld.mem_iff.mp ht)
  · intro t ha
    rw [hnone] at ha
    cases ha
  · rw [ho.guarded, hf]
    rfl
  · intro h
    cases h

theorem release {rest : List Ticket} {gate : Admission.State}
    (hk : Kept ingress s) (hi : s.calls[i]? = some c)
    (hr : c.stage.releases = true) (hh : c.held = t :: rest)
    (hm : (s.gates t.gate).apply (.event t.caller .advance) = some gate) :
    Kept ingress ((s.setGate t.gate gate).setCall i
      (if gate.callers[t.caller]? = some .dropped
        then { c with stage := ingress.released c.stage, held := rest }
        else c)) := by
  have hmem := List.mem_of_getElem? hi
  have ho := hk.owned c hmem
  have hnone := ho.acquiring_eq_none (wants_of_releases hr)
  have htickets : c.tickets = t :: rest := by rw [Call.tickets, hnone, hh]; rfl
  obtain ⟨hnot, hnodup⟩ := List.nodup_cons.mp (htickets ▸ hk.custody.nodup c hmem)
  have hne : ∀ t' ∈ rest, t' ≠ t := fun t' ht h => hnot (h ▸ ht)
  obtain ⟨hhead, htail⟩ := ho.head t rest hh
  obtain ⟨caller, caller', g, hcaller, hact, hself, hgate, hother⟩ := caller_event hm
  have hrest : ∀ t' ∈ rest, (s.setGate t.gate gate).caller t' = some .leased := fun t' ht =>
    (hother t' (hne t' ht)).trans (htail t' ht)
  have hframe : ∀ t', t' ∉ c.tickets → (s.setGate t.gate gate).caller t' = s.caller t' :=
    fun t' ht => hother t' fun h => ht (h ▸ htickets ▸ List.mem_cons_self)
  rw [hgate]
  rcases hhead with hleased | ⟨hdropping, -⟩
  · -- The first half of a drop: the count.
    rw [hleased] at hcaller
    cases hcaller
    cases hact
    rw [if_neg (by simp)]
    refine hk.update hi rfl (gates_setGate hk.gates hm)
      (fun t' ht _ => hframe t' ht) (fun _ => .inl) ?_
      (hk.custody.nodup c hmem) (fun t' ht hn => absurd ht hn)
      ⟨ho.uses, ?_, ?_, ho.guarded, ho.finished⟩ rfl
    · intro t' ht
      rcases List.mem_cons.mp (htickets ▸ ht) with rfl | ht
      · exact fun h => Option.some_ne_none _ (hself.symm.trans h)
      · exact fun h => Option.some_ne_none _ ((hrest t' ht).symm.trans h)
    · intro t' rest' h
      rw [hh] at h
      cases h
      exact ⟨.inr ⟨hself, hr⟩, hrest⟩
    · intro t' ha
      rw [hnone] at ha
      cases ha
  · -- The second half: the permit.
    rw [hdropping] at hcaller
    cases hcaller
    cases hact
    obtain ⟨hf', huses⟩ := @released_stages _ _ ingress c.request _ hr
    rw [if_pos rfl]
    have htickets' : Call.tickets
      { c with stage := ingress.released c.stage, held := rest } = rest := by
      rw [Call.tickets, hnone]
      rfl
    refine hk.update hi rfl (gates_setGate hk.gates hm) (fun t' ht _ => hframe t' ht) ?_ ?_
      (by rwa [htickets']) ?_ ⟨?_, head_of_leased hrest, ?_, ?_, ?_⟩ rfl
    · intro t' ht
      exact .inl (htickets ▸ List.mem_cons_of_mem _ (htickets' ▸ ht))
    · intro t' ht
      exact fun h => Option.some_ne_none _ ((hrest t' (htickets' ▸ ht)).symm.trans h)
    · intro t' ht hn caller hc
      rcases List.mem_cons.mp (htickets ▸ ht) with rfl | ht
      · rw [Option.some.inj (hc.symm.trans hself)]
        rfl
      · exact absurd (htickets'.symm ▸ ht) hn
    · cases hleaving : c.stage.isLeaving with
      | true => exact .inl (released_isLeaving hleaving)
      | false =>
        refine huses.imp_right fun huses => ?_
        rw [huses, ← ho.uses_eq hleaving, hh]
        rfl
    · intro t' ha
      rw [hnone] at ha
      cases ha
    · rw [hf', ho.guarded, releases_isFinished hr]
    · intro h
      rw [hf'] at h
      cases h

theorem finish {response : Option ResponseHead} (hk : Kept ingress s) (hi : s.calls[i]? = some c)
    (hl : c.stage = .leaving response) (hh : c.held = []) :
    Kept ingress (({ s with
      shared := { s.shared with activeRequests := s.shared.activeRequests - 1 } } :
        State A).setCall i
      { c with stage := .finished, guarded := false }) := by
  have ho := hk.owned c (List.mem_of_getElem? hi)
  have hnone := ho.acquiring_eq_none (by rw [hl]; rfl)
  have hguarded : c.guarded = true := by
    rw [ho.guarded, hl]
    rfl
  have hle := toNat_le_countP Call.guarded hi
  rw [hguarded, ← hk.active] at hle
  refine hk.proceed hi rfl rfl (List.Perm.refl _) ⟨?_, ?_, ?_, rfl, fun _ => ?_⟩ ?_
  · rw [hh]
    exact .inr rfl
  · intro t rest h
    rw [hh] at h
    cases h
  · intro t ha
    rw [hnone] at ha
    cases ha
  · rw [Call.tickets, hnone, hh]
    rfl
  · rw [hguarded]
    exact Nat.sub_add_cancel hle

theorem step {events : List Event} (hk : Kept ingress s) (h : Step ingress s events s') :
    Kept ingress s' := by
  cases h with
  | arrive request => exact hk.arrive request
  | proceed h hl => exact hk.proceeded h hl
  | acquire h hw ha => exact hk.acquire h hw ha
  | queue h ha hn hc hm => exact hk.queue h ha hn hc hm
  | admitted h ha hs => exact hk.admitted h ha hs
  | refused h ha hs =>
    have hw := ((hk.owned _ (List.mem_of_getElem? h)).acquiring _ ha).1
    exact hk.turned h ha hs rfl (fun _ _ => rfl) hk.gates rfl (refused_isLeaving hw) rfl
  | release h hr hh hm => exact hk.release h hr hh hm
  | closed h hb =>
    refine hk.leaves h ?_ ?_ ?_ (List.reverse_perm _) <;> rw [hb] <;> rfl
  | disconnected h hw =>
    obtain ⟨hw, hr, hf⟩ := @awaits_stages _ _ ingress _ _ hw
    exact hk.leaves h hw hr hf (List.Perm.refl _)
  | canceled h ha hm =>
    obtain ⟨caller, caller', g, -, hact, hself, -, hother⟩ := caller_event hm
    exact hk.turned h ha hself (by rw [cancel_caller hact]; rfl) hother
      (gates_setGate hk.gates hm) rfl rfl rfl
  | finish h hl hh => exact hk.finish h hl hh

end Kept

theorem kept {labels : List (List Event)} (h : (requests ingress).Run labels s) :
    Kept ingress s := by
  refine h.invariant (fun _ s => Kept ingress s) ?_ fun _ _ _ _ hk hs => hk.step hs
  rintro _ rfl
  refine ⟨fun g => ⟨[], .start rfl⟩, ⟨?_, ?_, ?_, ?_⟩, ?_, rfl⟩
  · exact fun a ha => absurd ha List.not_mem_nil
  · exact fun a ha => absurd ha List.not_mem_nil
  · exact fun i j a b t hi => absurd hi (by simp [State.start])
  · exact fun t caller h => absurd h (by simp [State.caller, State.start, Admission.State.start])
  · exact fun a ha => absurd ha List.not_mem_nil

theorem Owned.has_lease {g : GateId} (h : Owned ingress s c)
    (hg : g ∈ ingress.uses c.request c.stage) :
    ∃ t ∈ c.held, t.gate = g ∧ ∃ caller, s.caller t = some caller ∧ holdsPermit caller = true := by
  have huses : c.held.map Ticket.gate = ingress.uses c.request c.stage := by
    refine h.uses_eq ?_
    cases hs : c.stage with
    | leaving _ =>
      rw [hs] at hg
      exact absurd hg List.not_mem_nil
    | _ => rfl
  rw [← huses] at hg
  obtain ⟨t, ht, hgate⟩ := List.mem_map.mp hg
  refine ⟨t, ht, hgate, ?_⟩
  cases hh : c.held with
  | nil => exact absurd (hh ▸ ht) List.not_mem_nil
  | cons t₀ rest =>
    obtain ⟨hhead, htail⟩ := h.head t₀ rest hh
    rcases List.mem_cons.mp (hh ▸ ht) with rfl | hm
    · rcases hhead with hleased | ⟨hdropping, -⟩
      · exact ⟨_, hleased, rfl⟩
      · exact ⟨_, hdropping, rfl⟩
    · exact ⟨_, htail t hm, rfl⟩

/-- What the gates and the guards are for. -/
structure Contained (ingress : Ingress A C) (s : State A) : Prop where
  gates : ∀ g, ∃ moves, (admission (ingress.limit g) (ingress.maxQueue g)).Run moves (s.gates g)
  bulkhead : ∀ g, s.calls.countP
    (fun c => decide (g ∈ ingress.uses c.request c.stage)) ≤ ingress.limit g
  active : s.shared.activeRequests = s.calls.countP fun c => !c.stage.isFinished
  idle : (∀ c ∈ s.calls, c.stage.isFinished = true) →
    s.shared.activeRequests = 0 ∧ ∀ g, (s.gates g).gate.active = 0 ∧
      (s.gates g).gate.permits = ingress.limit g

theorem Kept.bulkhead (hk : Kept ingress s) (g : GateId) :
    s.calls.countP (fun c => decide (g ∈ ingress.uses c.request c.stage)) ≤ ingress.limit g := by
  obtain ⟨moves, hrun⟩ := hk.gates g
  have hpermits := (run_accounted hrun).permits
  calc s.calls.countP (fun c => decide (g ∈ ingress.uses c.request c.stage))
      ≤ (s.gates g).callers.countP holdsPermit := by
        refine hk.custody.countP_le (f := fun n => ⟨g, n⟩) fun c hc hg => ?_
        obtain ⟨⟨_, n⟩, ht, rfl, caller, hcaller, hholds⟩ :=
          (hk.owned c hc).has_lease (of_decide_eq_true hg)
        exact ⟨n, caller, List.mem_append_right _ ht, hcaller, hholds⟩
    _ ≤ ingress.limit g := hpermits ▸ Nat.le_add_left _ _

theorem Kept.idle (hk : Kept ingress s) (hall : ∀ c ∈ s.calls, c.stage.isFinished = true)
    (g : GateId) :
    (s.gates g).gate.active = 0 ∧ (s.gates g).gate.permits = ingress.limit g := by
  obtain ⟨moves, hrun⟩ := hk.gates g
  have haccounts := run_accounted hrun
  have hdone : ∀ caller ∈ (s.gates g).callers, isDone caller = true := by
    intro caller hm
    obtain ⟨n, hn⟩ := List.getElem?_of_mem hm
    by_contra hopen
    obtain ⟨c, hc, ht⟩ := hk.custody.covered ⟨g, n⟩ caller hn (Bool.eq_false_iff.mpr hopen)
    rw [(hk.owned c hc).finished (hall c hc)] at ht
    exact List.not_mem_nil ht
  have hzero {p : Caller → Bool} (hp : ∀ caller, isDone caller = true → p caller = false) :
      (s.gates g).callers.countP p = 0 :=
    List.countP_eq_zero.mpr fun caller hm => Bool.eq_false_iff.mp (hp caller (hdone caller hm))
  have hlive := hzero (p := live) fun caller h => by cases caller <;> first | rfl | cases h
  have hholds := hzero (p := holdsPermit) fun caller h => by cases caller <;> first | rfl | cases h
  have hpermits := haccounts.permits
  rw [hholds, Nat.add_zero] at hpermits
  exact ⟨haccounts.active.trans hlive, hpermits⟩

/-- Whatever requests come, however they interleave and wherever they are
dropped, no gate lets more requests through than its limit, and when all
requests are over every permit is back. -/
theorem requests_contained {labels : List (List Event)} (h : (requests ingress).Run labels s) :
    Contained ingress s := by
  have hk := kept h
  have hactive : s.shared.activeRequests = s.calls.countP fun c => !c.stage.isFinished := by
    rw [hk.active]
    refine List.countP_congr fun c hc => ?_
    rw [(hk.owned c hc).guarded]
  refine ⟨hk.gates, hk.bulkhead, hactive, fun hall => ⟨?_, hk.idle hall⟩⟩
  rw [hactive, List.countP_eq_zero]
  intro c hc
  rw [hall c hc]
  exact Bool.false_ne_true

def Seen (ingress : Ingress A C) (events : List Event) (s : State A) : Prop :=
  ∃ labels, labels.flatten = events ∧ (requests ingress).Run labels s

section Admitted

variable {events more : List Event} {g : GateId}
    {gate gate' : AdmissionGate} {callers : List Caller}
  {caller caller' : Caller} {e : Admission.Event}

theorem Seen.next (h : Seen ingress events s) (hs : Step ingress s more s') :
    Seen ingress (events ++ more) s' := by
  obtain ⟨labels, rfl, hrun⟩ := h
  exact ⟨labels ++ [more], by simp, hrun.next hs⟩

theorem Seen.quiet (h : Seen ingress events s) (hs : Step ingress s [] s') :
    Seen ingress events s' :=
  List.append_nil events ▸ h.next hs

theorem Seen.proceed {out : List Output} {m : Shared} {stage : Stage A} (h : Seen ingress events s)
    (hi : s.calls[i]? = some c) (hl : Local ingress s.shared c.stage c.request out m stage) :
    Seen ingress (events ++ out.map (.output i))
      (State.setCall ⟨s.gates, m, s.calls⟩ i { c with stage := stage }) :=
  h.next (.proceed hi hl)

theorem Seen.queue (h : Seen ingress events ((s.setGate g ⟨gate, callers ++ [caller]⟩).setCall i c))
    (hi : i < s.calls.length) (ha : c.acquiring = some ⟨g, callers.length⟩) (hn : caller ≠ .leased)
    (hc : e ≠ .cancel) (hact : gate.act e caller = some (gate', caller')) :
    Seen ingress events ((s.setGate g ⟨gate', callers ++ [caller']⟩).setCall i c) := by
  have hcall : ((s.setGate g ⟨gate, callers ++ [caller]⟩).setCall i c).calls[i]? = some c :=
    List.getElem?_set_self hi
  have hgates : ((s.setGate g ⟨gate, callers ++ [caller]⟩).setCall i c).gates g = ⟨gate,
    callers ++ [caller]⟩ :=
    setGate_self s g _
  have hcaller : ((s.setGate g ⟨gate, callers ++ [caller]⟩).setCall i c).caller
    ⟨g, callers.length⟩ = some caller := by
    rw [State.caller, hgates]
    exact List.getElem?_concat_length
  have hmove : (((s.setGate g ⟨gate, callers ++ [caller]⟩).setCall i c).gates g).apply
    (.event callers.length e) =
      some ⟨gate', callers ++ [caller']⟩ := by
    rw [hgates, Admission.State.apply]
    simp [hact]
  have hstep := h.quiet (.queue hcall ha (by simpa [hcaller] using hn) hc hmove)
  have hupdate : ((s.setGate g ⟨gate, callers ++ [caller]⟩).setCall i c).setGate g
    ⟨gate', callers ++ [caller']⟩ =
      (s.setGate g ⟨gate', callers ++ [caller']⟩).setCall i c := by
    simp only [State.setGate, State.setCall, Function.update_idem]
  rwa [hupdate] at hstep

def AdmissionGate.lend (gate : AdmissionGate) : AdmissionGate :=
  { gate with
    permits := gate.permits - 1
    active := gate.active + 1
    maxActiveObserved := max gate.maxActiveObserved (gate.active + 1)
    maxQueuedObserved := max gate.maxQueuedObserved (gate.queued + 1) }

/-- A request on its own that finds a permit gets a lease. -/
theorem Seen.admitted (h : Seen ingress events s) (hi : s.calls[i]? = some c)
    (hw : ingress.wants c.request c.stage = some g)
    (ha : c.acquiring = none) (hg : s.gates g = ⟨gate, callers⟩)
    (hqueue : gate.queued < gate.maxQueue) (hfree : 0 < gate.permits) :
    Seen ingress (events ++ (ingress.leased s.shared c.request c.stage).2.2.map (.output i))
      (State.setCall ⟨(s.setGate g ⟨AdmissionGate.lend gate, callers ++ [.leased]⟩).gates,
          (ingress.leased s.shared c.request c.stage).1, s.calls⟩ i
        ⟨c.request, (ingress.leased s.shared c.request c.stage).2.1,
          ⟨g, callers.length⟩ :: c.held, none,
          c.guarded⟩) := by
  have hlt := (List.getElem?_eq_some_iff.mp hi).1
  have hentered := h.quiet (.acquire hi hw ha)
  rw [hg] at hentered
  have hobserved := hentered.queue (e := .advance) hlt rfl nofun nofun rfl
  have hpermit := hobserved.queue (e := .advance) hlt rfl nofun nofun
    ((if_neg (Nat.not_le.mpr hqueue)).trans (if_pos hfree))
  have hleft := hpermit.queue (e := .advance) hlt rfl nofun nofun rfl
  have hcounted := hleft.queue (e := .advance) hlt rfl nofun nofun rfl
  have hleased := hcounted.queue (e := .advance) hlt rfl nofun nofun rfl
  have hcall := hleased.next (.admitted (List.getElem?_set_self hlt) rfl ?_)
  · simp only [State.setCall, List.set_set] at hcall
    exact hcall
  · rw [State.caller]
    exact (congrArg (fun gate : Admission.State => gate.callers[callers.length]?)
      (setGate_self s g _)).trans
      List.getElem?_concat_length

end Admitted

section Example

def plainCrates : Crates Bytes Bytes where
  authContextHeader := "x-wasi-auth-context"
  requestIdHeader := HeaderName.xRequestId
  canonicalize headers :=
    match headers.getAll HeaderName.xRequestId with
    | [] => some none
    | [id] => some (some id)
    | _ => none
  evaluateCors _ _ := some ⟨none, ∅⟩
  authorizationValue headers := some (headers.get authorization)
  stripReservedAuthHeaders headers := headers.remove "x-wasi-auth-context"
  applySecurityHeaders headers := headers.insert HeaderName.xContentTypeOptions (text "nosniff")
  anonymous := some (text "anonymous")
  intoContext := some
  encodeAuthContext := some
  authnRequest := some
  parseAuthnResponse status body := if status = .ok then .allow body else .unavailable
  parseUri bytes :=
    if bytes = text "http://127.0.0.1:3001/counter" then
      some ⟨some (text "http"), some (text "127.0.0.1:3001"), text "/counter", none⟩
    else none

def plainIngress : Ingress Bytes Bytes where
  crates := plainCrates
  profile := .edgeAnonymous
  routePolicy := []
  terminals := [text "http://127.0.0.1:3001"]
  brokerUri := ⟨some (text "http"), some (text "127.0.0.1:3002"), text "/authenticate", none⟩
  processId := 1
  limit _ := one
  maxQueue _ := one

/-- A request with a credential and a context of its own making. -/
def forged : Request :=
  ⟨.get, ⟨none, none, text "/counter", none⟩,
    ((∅ : HeaderMap).append "x-wasi-auth-context" (text "admin")).append authorization
    (text "Bearer 7"), []⟩

theorem contended_run :
    ∃ s, Seen plainIngress [.arrived 0 forged, .arrived 1 forged] s ∧ s.calls.length = 2 ∧
      s.caller ⟨.route .public, 0⟩ = some .leased ∧
      s.caller ⟨.route .public, 1⟩ = some (.waiting false) := by
  have hstart : Seen plainIngress [] (.start plainIngress) := ⟨[], rfl, .start rfl⟩
  have hboth := (hstart.next (.arrive forged)).next (.arrive forged)
  have hfirst := hboth.proceed (i := 0) rfl .identify
  have hadmitted := hfirst.admitted (i := 0) rfl rfl rfl rfl (by decide) (by decide)
  have hsecond := hadmitted.proceed (i := 1) rfl .identify
  have hentered := hsecond.quiet (.acquire (i := 1) rfl rfl rfl)
  have hobserved :=
    hentered.quiet (.queue (i := 1) (e := .advance) rfl rfl (by decide) (by decide) rfl)
  have hwaiting :=
    hobserved.quiet (.queue (i := 1) (e := .advance) rfl rfl (by decide) (by decide) rfl)
  exact ⟨_, hwaiting, rfl, rfl, rfl⟩

/-- Of two requests to one route, the second waits for the lease of the first. -/
theorem requests_contained_contended : ∃ s, Contained plainIngress s ∧ s.calls.length = 2 ∧
    s.caller ⟨.route .public, 0⟩ = some .leased ∧
    s.caller ⟨.route .public, 1⟩ = some (.waiting false) := by
  obtain ⟨s, ⟨labels, -, hrun⟩, hcontended⟩ := contended_run
  exact ⟨s, requests_contained hrun, hcontended⟩

end Example

end LeptosWasi.TrustedIngress
