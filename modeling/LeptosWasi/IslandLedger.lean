import LeptosWasi.CounterIsland
import LeptosWasi.CounterLedger
import LeptosWasi.Library.Selections

namespace LeptosWasi.CounterIsland

open Http CounterStore

def Event.begins : Event → Option OperationId
  | .started operation => some operation
  | .store _ | .mounted | .loaded _ | .repeated _ | .incremented _ _ | .closed => none

def Event.confirms : Event → Option (OperationId × Nat)
  | .incremented operation (.ok value) => some (operation, value)
  | .incremented _ (.error _) | .store _ | .mounted |
      .loaded _ | .started _ | .repeated _ | .closed => none

def started (events : List Event) : List OperationId := events.filterMap Event.begins

def confirmed (events : List Event) : List (OperationId × Nat) := events.filterMap Event.confirms

/-- The operations whose outcome an open island does not know. -/
def outstanding (islands : List Island) : List OperationId := islands.filterMap Island.operationId

structure Island.Tidy (value : Nat) (island : Island) : Prop where
  shown : island.count ≤ value
  pending : ∀ args, island.incrementPending = some args → island.operationId = some args.operationId
  unsettled : island.operationId.isSome = true →
    island.incrementPending.isSome = true ∨ isErr island.incrementValue = true

namespace Island

variable {island : Island} {value : Nat} {result : Except ServerFnError Nat}

theorem Tidy.mono {more : Nat} (h : island.Tidy value) (hle : value ≤ more) : island.Tidy more :=
  ⟨Nat.le_trans h.shown hle, h.pending, h.unsettled⟩

theorem mount_tidy : mount.Tidy value := by
  refine ⟨Nat.zero_le _, ?_, ?_⟩
  · intro args h
    cases h
  · intro h
    cases h

theorem Tidy.loaded (h : island.Tidy value) (hresult : ∀ v, result = .ok v → v ≤ value) :
    (island.loaded result).Tidy value := by
  refine ⟨?_, h.pending, h.unsettled⟩
  cases result with
  | ok v => exact hresult v rfl
  | error e => exact h.shown

theorem Tidy.increment (h : island.Tidy value) (fresh : OperationId) :
    (island.increment fresh).Tidy value := by
  refine ⟨h.shown, ?_, fun _ => .inl rfl⟩
  intro args hargs
  obtain rfl := Option.some.inj hargs
  rfl

theorem Tidy.incremented (h : island.Tidy value) (hresult : ∀ v, result = .ok v → v ≤ value) :
    (island.incremented result).Tidy value := by
  cases result with
  | ok v =>
    refine ⟨hresult v rfl, ?_, ?_⟩
    · intro args hargs
      cases hargs
    · intro hsome
      cases hsome
  | error e =>
    refine ⟨h.shown, ?_, fun _ => .inr rfl⟩
    intro args hargs
    cases hargs

theorem Tidy.ready (h : island.Tidy value) (hstatus : island.status = .ready) :
    island.operationId = none := by
  rw [status] at hstatus
  split_ifs at hstatus with hload hsaving hfailed
  rw [← Option.not_isSome_iff_eq_none]
  intro hsome
  obtain hpending | herr := h.unsettled hsome
  · exact hsaving hpending
  · exact hfailed (by rw [actionFailed, herr, Bool.or_true])

end Island

section Results

variable {deployment : Deployment} {log : List CounterStore.Event}
    {response : Except CounterStoreError Nat}
  {result : Except ServerFnError Nat} {value : Nat}

theorem read_of_returns (hresponse : Responds deployment.config log .read response)
    (hresult : Returns (getCount deployment.configuration fun _ _ => response) result)
    (h : result = .ok value) :
    .read deployment.config.counterId (.ok value) ∈ log := by
  subst h
  rw [Deployment.configuration, deployment.loaded] at hresult
  obtain hcalled | ⟨e, he⟩ := hresult
  · cases response with
    | ok v =>
      obtain rfl := Except.ok.inj hcalled
      exact hresponse.1
    | error e => cases hcalled
  · cases he

theorem answered_of_returns {operation : OperationId} {current : Nat}
    (hresponse : Responds deployment.config log (.increment operation) response)
    (hresult : Returns (incrementCount deployment.configuration
      (fun _ _ => response) current operation) result)
    (h : result = .ok value) :
    .answered deployment.config.counterId operation (.ok value) ∈ log := by
  subst h
  rw [Deployment.configuration, deployment.loaded] at hresult
  obtain hcalled | ⟨e, he⟩ := hresult
  · cases hvalid : validIdentifier operation with
    | false =>
      rw [incrementCount, incrementConfiguredCount, hvalid] at hcalled
      cases hcalled
    | true =>
      rw [incrementCount, incrementConfiguredCount, hvalid] at hcalled
      cases response with
      | ok v =>
        obtain rfl := Except.ok.inj hcalled
        exact hresponse.1
      | error e => cases hcalled
  · cases he

end Results

structure Kept (config : StoreConfig) (events : List Event) (s : State) : Prop where
  store : CounterStore.store.Run s.log s.store
  begun : s.started = started events
  settled : s.started.Perm
    ((confirmed events).map Prod.fst ++ (outstanding s.islands ++ s.abandoned))
  nodup : s.started.Nodup
  form : ∀ operation ∈ s.started, isOperationId operation = true
  answered : ∀ operation value, (operation, value) ∈ confirmed events →
    .answered config.counterId operation (.ok value) ∈ s.log
  requested : ∀ operation, .requested config.counterId operation ∈ s.log → operation ∈ s.started
  tidy : ∀ island ∈ s.islands, island.Tidy (s.store.db.readCounter config.counterId)

section Kept

variable {config : StoreConfig} {events : List Event} {s : State} {i : Nat} {island : Island}

theorem Kept.justified (hk : Kept config events s) : Justified CounterStore.Allowed s.log :=
  (kept_of_run hk.store).justified

theorem Kept.value (hk : Kept config events s) :
    s.store.db.readCounter config.counterId = (ledger config.counterId s.log).length :=
  (kept_of_run hk.store).represents.value _

theorem Kept.tidy_set (hk : Kept config events s) {island' : Island}
    (h : island'.Tidy (s.store.db.readCounter config.counterId)) :
    ∀ x ∈ s.islands.set i island', x.Tidy (s.store.db.readCounter config.counterId) := by
  intro x hx
  obtain hx | rfl := List.mem_or_eq_of_mem_set hx
  · exact hk.tidy x hx
  · exact h

theorem confirmed_snoc_none {e : Event} (h : e.confirms = none) :
    confirmed (events ++ [e]) = confirmed events := by
  rw [confirmed, List.filterMap_append, List.filterMap_cons_none h,
    List.filterMap_nil, List.append_nil, confirmed]

theorem started_snoc_none {e : Event} (h : e.begins = none) :
    started (events ++ [e]) = started events := by
  rw [started, List.filterMap_append, List.filterMap_cons_none h,
    List.filterMap_nil, List.append_nil, started]

theorem outstanding_set (hisland : s.islands[i]? = some island) {island' : Island}
    (h : island'.operationId = island.operationId) :
    (outstanding (s.islands.set i island')).Perm (outstanding s.islands) := by
  have hset := List.filterMap_set_perm Island.operationId hisland island'
  rw [h] at hset
  exact (List.perm_append_left_iff _).mp hset

theorem Kept.update (hk : Kept config events s) (hisland : s.islands[i]? = some island)
    {island' : Island} {e : Event}
    (hsame : island'.operationId = island.operationId)
    (htidy : island'.Tidy (s.store.db.readCounter config.counterId)) (hbegins : e.begins = none)
    (hconfirms : e.confirms = none) :
    Kept config (events ++ [e]) { s with islands := s.islands.set i island' } where
  store := hk.store
  begun := hk.begun.trans (started_snoc_none hbegins).symm
  settled := by
    rw [confirmed_snoc_none hconfirms]
    exact hk.settled.trans (((outstanding_set hisland hsame).symm.append_right _).append_left _)
  nodup := hk.nodup
  form := hk.form
  answered := by
    rw [confirmed_snoc_none hconfirms]
    exact hk.answered
  requested := hk.requested
  tidy := hk.tidy_set htidy

theorem Kept.stored (hk : Kept config events s) {e : CounterStore.Event}
    {store : CounterStore.State}
    (h : CounterStore.Step s.store e store)
    (hrequest : ∀ operation, e = .requested config.counterId operation → operation ∈ s.started) :
    Kept config (events ++ [.store e]) { s with store := store, log := s.log ++ [e] } := by
  have hrun : CounterStore.store.Run (s.log ++ [e]) store := hk.store.next h
  have hmore : s.store.db.readCounter config.counterId ≤ store.db.readCounter config.counterId := by
    rw [hk.value, (kept_of_run hrun).represents.value, ledger_snoc, List.length_append]
    exact Nat.le_add_right _ _
  refine ⟨hrun, hk.begun.trans (started_snoc_none rfl).symm, ?_, hk.nodup, hk.form, ?_, ?_, ?_⟩
  · rw [confirmed_snoc_none rfl]
    exact hk.settled
  · rw [confirmed_snoc_none rfl]
    exact fun operation value hmem => List.mem_append_left _ (hk.answered operation value hmem)
  · intro operation hmem
    obtain hmem | hmem := List.mem_append.mp hmem
    · exact hk.requested operation hmem
    · exact hrequest operation (List.mem_singleton.mp hmem).symm
  · exact fun island hisland => (hk.tidy island hisland).mono hmore

theorem Kept.begin (hk : Kept config events s) (hisland : s.islands[i]? = some island)
    {operation : OperationId}
    (hnone : island.operationId = none) (hfresh : operation ∉ s.started)
    (hform : isOperationId operation = true) :
    Kept config (events ++ [.started operation])
      { s with
        islands := s.islands.set i (island.increment operation)
        started := s.started ++ [operation] } := by
  have hset := List.filterMap_set_perm Island.operationId hisland (island.increment operation)
  have hself : (island.increment operation).operationId = some operation := by
    rw [Island.increment, hnone, Option.getD_none]
  rw [hnone, hself] at hset
  refine ⟨hk.store, ?_, ?_, ?_, ?_, ?_, ?_, ?_⟩
  · rw [hk.begun, started, started, List.filterMap_append]
    rfl
  · rw [confirmed_snoc_none rfl]
    have h := (hk.settled.append_right [operation]).trans List.perm_append_comm
    refine h.trans ((List.perm_append_comm_assoc _ _ _).trans (List.Perm.append_left _ ?_))
    rw [← List.append_assoc]
    exact (hset.append_right _).symm
  · exact List.nodup_append.mpr ⟨hk.nodup, List.nodup_singleton _, fun a ha b hb => by
      rintro rfl
      exact hfresh (List.mem_singleton.mp hb ▸ ha)⟩
  · intro o ho
    obtain ho | ho := List.mem_append.mp ho
    · exact hk.form o ho
    · exact List.mem_singleton.mp ho ▸ hform
  · rw [confirmed_snoc_none rfl]
    exact hk.answered
  · exact fun o hmem => List.mem_append_left _ (hk.requested o hmem)
  · exact hk.tidy_set ((hk.tidy island (List.mem_of_getElem? hisland)).increment operation)

theorem Kept.confirm (hk : Kept config events s)
    (hisland : s.islands[i]? = some island) {operation : OperationId}
    {value : Nat} (hoperation : island.operationId = some operation)
    (hanswered : .answered config.counterId operation (.ok value) ∈ s.log) :
    Kept config (events ++ [.incremented operation (.ok value)])
      { s with islands := s.islands.set i (island.incremented (.ok value)) } := by
  have hset := List.filterMap_set_perm Island.operationId hisland (island.incremented (.ok value))
  rw [hoperation] at hset
  have hconfirmed :
      confirmed (events ++ [.incremented operation (.ok value)]) =
        confirmed events ++ [(operation, value)] := by
    rw [confirmed, confirmed, List.filterMap_append]
    rfl
  have hle : value ≤ s.store.db.readCounter config.counterId := by
    obtain ⟨place, rfl, hplace⟩ := answered_place hk.justified hanswered
    rw [hk.value]
    exact (List.getElem?_eq_some_iff.mp hplace).1
  refine ⟨hk.store, hk.begun.trans (started_snoc_none rfl).symm,
    ?_, hk.nodup, hk.form, ?_, hk.requested,
    hk.tidy_set ?_⟩
  · rw [hconfirmed, List.map_append, List.append_assoc,
      ← List.append_assoc ([(operation, value)].map _)]
    exact hk.settled.trans ((hset.symm.append_right _).append_left _)
  · rw [hconfirmed]
    intro o v hmem
    obtain hmem | hmem := List.mem_append.mp hmem
    · exact hk.answered o v hmem
    · obtain ⟨rfl, rfl⟩ := Prod.mk.inj (List.mem_singleton.mp hmem)
      exact hanswered
  · refine (hk.tidy island (List.mem_of_getElem? hisland)).incremented ?_
    rintro v hv
    obtain rfl := Except.ok.inj hv
    exact hle

theorem kept_step {deployment : Deployment} {s' : State}
    {e : Event} (hk : Kept deployment.config events s)
    (h : Step deployment s e s') : Kept deployment.config (events ++ [e]) s' := by
  cases h with
  | store h hrequest => exact hk.stored h hrequest
  | mounted =>
    refine ⟨hk.store, hk.begun.trans (started_snoc_none rfl).symm,
      ?_, hk.nodup, hk.form, ?_, hk.requested, ?_⟩
    · rw [confirmed_snoc_none rfl, outstanding, List.filterMap_append]
      exact (List.append_nil _).symm ▸ hk.settled
    · rw [confirmed_snoc_none rfl]
      exact hk.answered
    · intro island hisland
      obtain hisland | hisland := List.mem_append.mp hisland
      · exact hk.tidy island hisland
      · obtain rfl := List.mem_singleton.mp hisland
        exact Island.mount_tidy
  | loaded hisland hpending hresponse hresult =>
    refine hk.update hisland rfl ?_ rfl rfl
    refine (hk.tidy _ (List.mem_of_getElem? hisland)).loaded fun v hv => ?_
    rw [hk.value]
    exact read_le hk.justified (read_of_returns hresponse hresult hv)
  | started hisland hpending hnone hfresh hform => exact hk.begin hisland hnone hfresh hform
  | repeated hisland hpending hsome =>
    refine hk.update hisland ?_ ((hk.tidy _ (List.mem_of_getElem? hisland)).increment _) rfl rfl
    rw [Island.increment, hsome, Option.getD_some]
  | @incremented i island args response result hisland hpending hresponse hresult =>
    have hoperation := (hk.tidy _ (List.mem_of_getElem? hisland)).pending _ hpending
    cases result with
    | ok value => exact hk.confirm hisland hoperation (answered_of_returns hresponse hresult rfl)
    | error e =>
      refine hk.update hisland rfl ?_ rfl rfl
      refine (hk.tidy _ (List.mem_of_getElem? hisland)).incremented ?_
      intro v hv
      cases hv
  | @closed i island hisland =>
    have herase := List.filterMap_eraseIdx_perm Island.operationId hisland
    refine ⟨hk.store, hk.begun.trans (started_snoc_none rfl).symm,
      ?_, hk.nodup, hk.form, ?_, hk.requested, ?_⟩
    · rw [confirmed_snoc_none rfl]
      refine hk.settled.trans (List.Perm.append_left _ ?_)
      refine (herase.append_right _).trans ?_
      rw [List.append_assoc]
      exact (List.perm_append_comm_assoc _ _ _).trans (List.perm_append_comm.append_left _)
    · rw [confirmed_snoc_none rfl]
      exact hk.answered
    · exact fun island hmem => hk.tidy island (List.mem_of_mem_eraseIdx hmem)

theorem kept_start : Kept config [] ⟨.start, [], [], [], []⟩ := by
  refine ⟨.start rfl, rfl, .refl _, List.nodup_nil, ?_, ?_, ?_, ?_⟩
  · intro operation h
    cases h
  · intro operation value h
    cases h
  · intro operation h
    cases h
  · intro island h
    cases h

end Kept

variable {deployment : Deployment} {config : StoreConfig} {events : List Event} {s : State}

theorem kept_of_run (h : (pages deployment).Run events s) : Kept deployment.config events s := by
  refine h.invariant (Kept deployment.config) ?_ fun _ _ _ _ hk hs => kept_step hk hs
  rintro s rfl
  exact kept_start

theorem Kept.confirmed_nodup (hk : Kept config events s) :
    ((confirmed events).map Prod.fst).Nodup :=
  (List.nodup_append.mp (hk.settled.nodup_iff.mp hk.nodup)).1

theorem Kept.confirmed_le (hk : Kept config events s) :
    (confirmed events).length ≤ s.store.db.readCounter config.counterId := by
  have hsubset : (confirmed events).map Prod.fst ⊆ ledger config.counterId s.log := by
    intro operation hmem
    obtain ⟨⟨o, value⟩, hconfirmed, rfl⟩ := List.mem_map.mp hmem
    obtain ⟨place, -, hplace⟩ := answered_place hk.justified (hk.answered o value hconfirmed)
    exact List.mem_of_getElem? hplace
  rw [hk.value, ← List.length_map Prod.fst]
  exact (List.subperm_of_subset hk.confirmed_nodup hsubset).length_le

theorem Kept.le_started (hk : Kept config events s) :
    s.store.db.readCounter config.counterId ≤ (started events).length := by
  have hsubset : ledger config.counterId s.log ⊆ s.started :=
    fun operation hmem => hk.requested operation (requested_of_ledger hk.justified hmem)
  rw [hk.value, ← hk.begun]
  exact (List.subperm_of_subset (ledger_nodup hk.justified _) hsubset).length_le

/-- What is not confirmed is outstanding in an island, or was when it closed. -/
theorem Kept.account (hk : Kept config events s) :
    (started events).length = (confirmed events).length +
    (outstanding s.islands).length + s.abandoned.length := by
  rw [← hk.begun, hk.settled.length_eq, List.length_append,
    List.length_append, List.length_map, Nat.add_assoc]

theorem Kept.values_nodup (hk : Kept config events s) :
    ((confirmed events).map Prod.snd).Nodup := by
  refine List.Nodup.map_on ?_ hk.confirmed_nodup.of_map
  rintro ⟨operation, value⟩ hmem ⟨other, more⟩ hother hvalue
  have hsame :=
    (answered_agree hk.justified (hk.answered _ _ hmem) (hk.answered _ _ hother)).mpr hvalue
  exact Prod.ext hsame hvalue

theorem validateIdentifier_of_isOperationId {operation : OperationId}
    (h : isOperationId operation = true) :
    validateIdentifier operation = true := by
  rw [isOperationId, Bool.and_eq_true, beq_iff_eq, List.all_eq_true] at h
  obtain ⟨hlength, hbytes⟩ := h
  rw [validateIdentifier, Bool.and_eq_true, Bool.and_eq_true,
    Bool.not_eq_true', List.isEmpty_eq_false_iff,
    decide_eq_true_eq, List.all_eq_true]
  refine ⟨⟨?_, ?_⟩, fun b hb => ?_⟩
  · rintro rfl
    cases hlength
  · rw [hlength]
    decide
  · have hb := of_decide_eq_true (hbytes b hb)
    rw [isIdentifierByte, Bool.or_eq_true, Bool.or_eq_true, Bool.or_eq_true, decide_eq_true_eq]
    refine .inl (.inl (.inl ?_))
    obtain ⟨hlow, hhigh⟩ | ⟨hlow, hhigh⟩ := hb
    · exact .inl ⟨hlow, hhigh⟩
    · exact .inr (.inr ⟨hlow, UInt8.le_trans hhigh (by decide)⟩)

/-- A click counts once, however often its island has to repeat it. -/
theorem clicks_counted_once (h : (pages deployment).Run events s) :
    (confirmed events).length ≤ s.store.db.readCounter deployment.config.counterId ∧
      s.store.db.readCounter deployment.config.counterId ≤ (started events).length ∧
      ((∀ island ∈ s.islands, island.operationId = none) → s.abandoned = [] →
        s.store.db.readCounter deployment.config.counterId = (started events).length) ∧
      ((confirmed events).map Prod.snd).Nodup ∧
      (∀ operation value, (operation, value) ∈ confirmed events →
        ∃ place, value = place + 1 ∧
        (ledger deployment.config.counterId s.log)[place]? = some operation) ∧
      (∀ island ∈ s.islands, island.count ≤ s.store.db.readCounter deployment.config.counterId ∧
        (island.status = .ready → island.operationId = none)) ∧
      ∀ operation, .answered deployment.config.counterId operation
        (.error .invalidRequest) ∉ s.log := by
  have hk := kept_of_run h
  refine ⟨hk.confirmed_le, hk.le_started, fun hnone habandoned => ?_, hk.values_nodup,
    fun operation value hmem => ?_, fun island hisland => ?_, fun operation hmem => ?_⟩
  · have hempty : outstanding s.islands = [] := List.filterMap_eq_nil_iff.mpr hnone
    have haccount := hk.account
    rw [hempty, habandoned] at haccount
    have hle := hk.confirmed_le
    have hge := hk.le_started
    simp only [List.length_nil] at haccount
    omega
  · exact answered_place hk.justified (hk.answered operation value hmem)
  · exact ⟨(hk.tidy island hisland).shown, (hk.tidy island hisland).ready⟩
  · obtain ⟨before, after, hlog, hrequested, hinvalid⟩ := hk.justified.of_mem hmem
    have hstarted := hk.requested operation (hlog ▸ List.mem_append_left _ hrequested)
    have hcounter : validateIdentifier deployment.config.counterId = true := deployment.valid
    rw [hcounter, validateIdentifier_of_isOperationId (hk.form operation hstarted)] at hinvalid
    cases hinvalid

def demo : Deployment where
  parseUri url :=
    if url = text "http://127.0.0.1:4040" then
      some ⟨some (text "http"), some ⟨text "127.0.0.1:4040", text "127.0.0.1", some 4040⟩,
        text "/", none⟩
    else none
  environment :=
    [(text "COUNTER_STORE_URL", text "http://127.0.0.1:4040"), (text "COUNTER_ID", text "d")]
  config := ⟨text "127.0.0.1:4040", [100]⟩
  loaded := rfl

def clicked : OperationId := List.replicate 32 48

def repeatedClick : List Event :=
  [.mounted, .store (.read [100] (.ok 0)), .loaded (.ok 0),
    .started clicked, .store (.requested [100] clicked),
    .store .quiet, .store .quiet, .store .quiet,
    .store .quiet, .store .quiet, .store (.counted [100] clicked),
    .store .quiet, .incremented clicked (.error []),
    .repeated clicked, .store (.requested [100] clicked),
    .store .quiet, .store .quiet, .store .quiet, .store .quiet, .store .quiet,
    .store (.answered [100] clicked (.ok 1)), .incremented clicked (.ok 1)]

theorem repeatedClick_run :
    ∃ s, (pages demo).Run repeatedClick s ∧ s.islands.map Island.operationId = [none] ∧
      s.abandoned = [] := by
  have hmounted := (System.Run.start (S := pages demo) rfl).next .mounted
  have hread := hmounted.next (.store (.read [100] rfl rfl) (by intro _ h; cases h))
  have hloaded :=
    hread.next (@Step.loaded _ _ 0 _ (.ok 0) (.ok 0) rfl rfl ⟨.head _, by decide⟩ (.inl rfl))
  have hstarted := hloaded.next (@Step.started _ _ 0 _ clicked rfl rfl rfl (by decide) rfl)
  have hrequested := hstarted.next (.store (.arrive [100] clicked) (by
    intro operation h
    cases h
    exact List.mem_singleton_self _))
  have hbegun := hrequested.next (.store (.advance (i := 0) rfl rfl) (by intro _ h; cases h))
  have hensured := hbegun.next (.store (.advance (i := 0) rfl rfl) (by intro _ h; cases h))
  have hreserved := hensured.next (.store (.advance (i := 0) rfl rfl) (by intro _ h; cases h))
  have hincremented := hreserved.next (.store (.advance (i := 0) rfl rfl) (by intro _ h; cases h))
  have hvalued := hincremented.next (.store (.advance (i := 0) rfl rfl) (by intro _ h; cases h))
  have hcommitted := hvalued.next (.store (.advance (i := 0) rfl rfl) (by intro _ h; cases h))
  have hdropped := hcommitted.next (.store (.drop (i := 0) rfl rfl) (by intro _ h; cases h))
  have hfailed := hdropped.next
    (@Step.incremented _ _ 0 _ ⟨0, clicked⟩ (.error .timeout)
      (.error []) rfl rfl trivial (.inr ⟨[], rfl⟩))
  have hrepeated := hfailed.next (@Step.repeated _ _ 0 _ clicked rfl rfl rfl)
  have hrequested := hrepeated.next (.store (.arrive [100] clicked) (by
    intro operation h
    cases h
    exact List.mem_singleton_self _))
  have hbegun := hrequested.next (.store (.advance (i := 1) rfl rfl) (by intro _ h; cases h))
  have hensured := hbegun.next (.store (.advance (i := 1) rfl rfl) (by intro _ h; cases h))
  have hreserved := hensured.next (.store (.advance (i := 1) rfl rfl) (by intro _ h; cases h))
  have hvalued := hreserved.next (.store (.advance (i := 1) rfl rfl) (by intro _ h; cases h))
  have hcommitted := hvalued.next (.store (.advance (i := 1) rfl rfl) (by intro _ h; cases h))
  have hanswered := hcommitted.next (.store (.advance (i := 1) rfl rfl) (by intro _ h; cases h))
  have hconfirmed := hanswered.next
    (@Step.incremented _ _ 0 _ ⟨0, clicked⟩ (.ok 1) (.ok 1) rfl rfl
      ⟨List.mem_append_right _ (.head _), by decide⟩ (.inl rfl))
  exact ⟨_, hconfirmed, rfl, rfl⟩

theorem clicks_counted_once_repeated :
    ∃ s, (pages demo).Run repeatedClick s ∧ s.store.db.readCounter demo.config.counterId = 1 := by
  obtain ⟨s, h, hislands, habandoned⟩ := repeatedClick_run
  obtain ⟨-, -, hsettled, -⟩ := clicks_counted_once h
  refine ⟨s, h, hsettled (fun island hisland => ?_) habandoned⟩
  have hmem := List.mem_map_of_mem hisland (f := Island.operationId)
  rw [hislands] at hmem
  exact List.mem_singleton.mp hmem

end LeptosWasi.CounterIsland
