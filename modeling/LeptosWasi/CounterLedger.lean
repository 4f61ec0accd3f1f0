import Mathlib.Data.List.Induction
import LeptosWasi.CounterStore
import LeptosWasi.Library.Histories

namespace LeptosWasi.CounterStore

def Event.counts (counter : CounterId) : Event → Option OperationId
  | .counted c operation => if c = counter then some operation else none
  | .requested _ _ | .answered _ _ _ | .read _ _ | .quiet => none

/-- The operations that have been counted, in their order. -/
def ledger (counter : CounterId) (events : List Event) : List OperationId :=
  events.filterMap (Event.counts counter)

/-- What a store may show after the events before: an operation counts once, an
answer is the place of its operation in the order of all, and only what is
invalid is refused as such. -/
def Allowed (before : List Event) : Event → Prop
  | .requested _ _ | .quiet => True
  | .counted counter operation =>
    validateIdentifier counter = true ∧ validateIdentifier operation = true ∧
      .requested counter operation ∈ before ∧ operation ∉ ledger counter before
  | .answered counter operation (.ok value) =>
    ∃ place, value = place + 1 ∧ (ledger counter before)[place]? = some operation
  | .answered counter operation (.error .invalidRequest) =>
    .requested counter operation ∈ before ∧
    (validateIdentifier counter && validateIdentifier operation) = false
  | .answered counter operation (.error .unavailable) =>
    .requested counter operation ∈ before ∧
    (validateIdentifier counter && validateIdentifier operation) = true
  | .read counter (.ok value) =>
    validateIdentifier counter = true ∧ value = (ledger counter before).length
  | .read counter (.error .invalidRequest) => validateIdentifier counter = false
  | .read counter (.error .unavailable) => validateIdentifier counter = true

namespace Database

variable (db : Database) (counter : CounterId) (operation : OperationId)

def count : Database where
  counters := Function.update db.counters counter (some (db.readCounter counter + 1))
  operations :=
    Function.update db.operations (counter, operation) (some (some (db.readCounter counter + 1)))

@[simp] theorem insertCounter_operations :
    (db.insertCounter counter).operations = db.operations := by
  rw [insertCounter]
  split <;> rfl

theorem insertCounter_self :
    (db.insertCounter counter).counters counter = some (db.readCounter counter) := by
  rw [insertCounter, readCounter]
  cases h : db.counters counter with
  | none => exact Function.update_self ..
  | some value => exact h

@[simp] theorem readCounter_insertCounter (c : CounterId) :
    (db.insertCounter counter).readCounter c = db.readCounter c := by
  rw [insertCounter]
  cases h : db.counters counter with
  | none =>
    by_cases hc : c = counter
    · subst hc
      simp [readCounter, h]
    · simp [readCounter, Function.update_of_ne hc]
  | some value => rfl

theorem update_insertCounter (value : Option Nat) :
    Function.update (db.insertCounter counter).counters counter value =
      Function.update db.counters counter value := by
  rw [insertCounter]
  cases db.counters counter with
  | none => exact Function.update_idem ..
  | some value => rfl

@[simp] theorem count_operations (key : CounterId × OperationId) :
    (db.count counter operation).operations key =
      if key = (counter, operation) then some (some (db.readCounter counter + 1))
        else db.operations key :=
  Function.update_apply ..

@[simp] theorem readCounter_count (c : CounterId) :
    (db.count counter operation).readCounter c =
      if c = counter then db.readCounter counter + 1 else db.readCounter c := by
  by_cases hc : c = counter
  · subst hc
    simp [readCounter, count]
  · simp [readCounter, count, hc]

theorem count_of_statements {w w' : Database} {value : Nat}
    (hreserve : (db.insertCounter counter).reserve counter operation = (w, true))
    (hincrement : w.increment counter = some (w', value)) :
    db.operations (counter, operation) = none ∧ value = db.readCounter counter + 1 ∧
      w'.saveResult counter operation value = db.count counter operation := by
  rw [reserve, insertCounter_operations] at hreserve
  cases hrow : db.operations (counter, operation) with
  | some row =>
    rw [hrow] at hreserve
    cases hreserve
  | none =>
    rw [hrow] at hreserve
    obtain rfl := congrArg Prod.fst hreserve
    simp only [increment, insertCounter_self] at hincrement
    split_ifs at hincrement
    obtain ⟨rfl, rfl⟩ := Prod.mk.inj (Option.some.inj hincrement)
    refine ⟨rfl, rfl, ?_⟩
    simp only [saveResult, Function.update_self, Function.update_idem, update_insertCounter, count]

end Database

def Stage.Sees (db : Database) (counter : CounterId) (operation : OperationId) : Stage → Prop
  | .received | .dropped | .answered (.error _) => True
  | .begun w => w = db
  | .ensured w => w = db.insertCounter counter
  | .reserved w fresh => (db.insertCounter counter).reserve counter operation = (w, fresh)
  | .incremented w value =>
    db.operations (counter, operation) = none ∧ value = db.readCounter counter + 1 ∧
      w.saveResult counter operation value = db.count counter operation
  | .valued w value =>
    db.operations (counter, operation) = none ∧ value = db.readCounter counter + 1 ∧
        w = db.count counter operation ∨
      db.operations (counter, operation) = some (some value) ∧ w = db.insertCounter counter
  | .committed value | .answered (.ok value) =>
    db.operations (counter, operation) = some (some value)

/-- The committed database holds what the events have counted. -/
structure Represents (db : Database) (events : List Event) : Prop where
  value : ∀ counter, db.readCounter counter = (ledger counter events).length
  result : ∀ counter operation row, db.operations (counter, operation) = some row →
    ∃ place, row = some (place + 1) ∧ (ledger counter events)[place]? = some operation
  missing : ∀ counter operation, db.operations (counter, operation) = none →
    operation ∉ ledger counter events

structure Kept (events : List Event) (s : State) : Prop where
  represents : Represents s.db events
  sees : ∀ (i : Nat) (call : Call), s.calls[i]? = some call →
    call.stage.Sees s.db call.counter call.operation
  valid : ∀ (i : Nat) (call : Call), s.calls[i]? = some call →
    call.stage.isOpen = true → call.isValid = true
  requested : ∀ (i : Nat) (call : Call), s.calls[i]? = some call →
    .requested call.counter call.operation ∈ events
  single : ∀ (i j : Nat) (a b : Call), s.calls[i]? = some a →
    s.calls[j]? = some b → a.stage.isOpen = true →
    b.stage.isOpen = true → i = j
  justified : Justified Allowed events

theorem ledger_snoc (counter : CounterId) (events : List Event) (e : Event) :
    ledger counter (events ++ [e]) = ledger counter events ++ (e.counts counter).toList := by
  rw [ledger, List.filterMap_append, ledger]
  cases h : e.counts counter <;> simp [h]

theorem ledger_snoc_none {events : List Event} {e : Event} (h : ∀ counter, e.counts counter = none)
    (counter : CounterId) : ledger counter (events ++ [e]) = ledger counter events := by
  rw [ledger_snoc, h, Option.toList_none, List.append_nil]

section Represents

variable {db : Database} {events : List Event} {counter : CounterId} {operation : OperationId}

theorem Represents.silent (h : Represents db events)
    {e : Event} (he : ∀ counter, e.counts counter = none) :
    Represents db (events ++ [e]) where
  value c := (h.value c).trans (congrArg List.length (ledger_snoc_none he c).symm)
  result c o row hrow := by
    rw [ledger_snoc_none he]
    exact h.result c o row hrow
  missing c o hrow := by
    rw [ledger_snoc_none he]
    exact h.missing c o hrow

theorem Represents.insertCounter (h : Represents db events) :
    Represents (db.insertCounter counter) events where
  value c := by
    rw [Database.readCounter_insertCounter]
    exact h.value c
  result c o row hrow := by
    rw [Database.insertCounter_operations] at hrow
    exact h.result c o row hrow
  missing c o hrow := by
    rw [Database.insertCounter_operations] at hrow
    exact h.missing c o hrow

theorem Represents.count (h : Represents db events) :
    Represents (db.count counter operation) (events ++ [.counted counter operation]) := by
  have hself : ledger counter
    (events ++ [.counted counter operation]) = ledger counter events ++ [operation] := by
    rw [ledger_snoc, Event.counts, if_pos rfl]
    rfl
  have hother (c : CounterId) (hc : c ≠ counter) :
      ledger c (events ++ [.counted counter operation]) = ledger c events := by
    rw [ledger_snoc, Event.counts, if_neg (Ne.symm hc), Option.toList_none, List.append_nil]
  have hmore (c : CounterId) (o : OperationId) (place : Nat)
    (hplace : (ledger c events)[place]? = some o) :
      (ledger c (events ++ [.counted counter operation]))[place]? = some o := by
    rw [ledger_snoc]
    exact List.getElem?_append_left (List.getElem?_eq_some_iff.mp hplace).1 ▸ hplace
  refine ⟨fun c => ?_, fun c o row hrow => ?_, fun c o hrow => ?_⟩
  · rw [Database.readCounter_count]
    split_ifs with hc
    · rw [hc, hself, List.length_append, h.value]
      rfl
    · rw [hother c hc, h.value]
  · rw [Database.count_operations] at hrow
    split_ifs at hrow with hkey
    · obtain ⟨rfl, rfl⟩ := Prod.mk.inj hkey
      refine ⟨(ledger c events).length, ?_, ?_⟩
      · rw [← h.value]
        exact (Option.some.inj hrow).symm
      · rw [hself]
        exact List.getElem?_concat_length
    · obtain ⟨place, hvalue, hplace⟩ := h.result c o row hrow
      exact ⟨place, hvalue, hmore c o place hplace⟩
  · rw [Database.count_operations] at hrow
    split_ifs at hrow with hkey
    have hold := h.missing c o hrow
    by_cases hc : c = counter
    · subst hc
      rw [hself, List.mem_append, List.mem_singleton, not_or]
      refine ⟨hold, ?_⟩
      rintro rfl
      exact hkey rfl
    · rw [hother c hc]
      exact hold

end Represents

inductive Moved (events : List Event) (db : Database)
    (call : Call) (db' : Database) (stage : Stage) : Prop
  | commits (value : Nat) (hopen : call.stage.isOpen = true) (hstage : stage = .committed value)
    (hdb : db.operations (call.counter, call.operation) = none ∧
      value = db.readCounter call.counter + 1 ∧
        db' = db.count call.counter call.operation ∨
      db.operations (call.counter, call.operation) = some (some value) ∧
      db' = db.insertCounter call.counter)
  | stays (hdb : db' = db) (hsees : stage.Sees db call.counter call.operation)
    (hevent : (∀ counter, (call.event db stage).counts counter = none) ∧
      Allowed events (call.event db stage))

theorem allowed_answer {events : List Event} {db : Database}
    {call : Call} {value : Nat} (h : Represents db events)
    (hresult : db.operations (call.counter, call.operation) = some (some value)) :
    Allowed events (.answered call.counter call.operation (.ok value)) := by
  obtain ⟨place, hvalue, hplace⟩ := h.result _ _ _ hresult
  exact ⟨place, Option.some.inj hvalue, hplace⟩

theorem Represents.reserved_again {events : List Event} {db w : Database} {counter : CounterId}
    {operation : OperationId} (h : Represents db events)
    (hsees : (Stage.reserved w false).Sees db counter operation) :
    ∃ value, db.operations (counter, operation) = some (some value) ∧
      w = db.insertCounter counter ∧ w.savedResult counter operation = .ok value := by
  rw [Stage.Sees, Database.reserve, Database.insertCounter_operations] at hsees
  cases hrow : db.operations (counter, operation) with
  | none =>
    rw [hrow] at hsees
    cases hsees
  | some row =>
    rw [hrow] at hsees
    obtain rfl := congrArg Prod.fst hsees
    obtain ⟨place, rfl, hplace⟩ := h.result _ _ _ hrow
    refine ⟨place + 1, rfl, rfl, ?_⟩
    rw [Database.savedResult, Database.insertCounter_operations, hrow]

theorem advance_moved {events : List Event} {db db' : Database}
    {call : Call} {free : Bool} {stage : Stage}
    (hdb : Represents db events) (hrequested : .requested call.counter call.operation ∈ events)
    (hsees : call.stage.Sees db call.counter call.operation)
    (hvalid : call.stage.isOpen = true → call.isValid = true)
    (h : call.advance db free = some (db', stage)) : Moved events db call db' stage := by
  have hrefused (hopen : call.stage.isOpen = true) :
      (∀ counter, (call.event db (.answered (.error .unavailable))).counts counter = none) ∧
        Allowed events (call.event db (.answered (.error .unavailable))) :=
        ⟨fun _ => rfl, hrequested, hvalid hopen⟩
  rw [Call.advance] at h
  cases hstage : call.stage with
  | received =>
    rw [hstage] at h
    dsimp only at h
    split_ifs at h with hinvalid
    · obtain ⟨rfl, rfl⟩ := Prod.mk.inj (Option.some.inj h)
      refine .stays rfl trivial ⟨fun _ => rfl, ?_⟩
      rw [Bool.not_eq_true'] at hinvalid
      exact ⟨hrequested, hinvalid⟩
    · obtain ⟨rfl, rfl⟩ := Prod.mk.inj (Option.some.inj h)
      exact .stays rfl rfl ⟨fun _ => rfl, trivial⟩
  | begun w =>
    rw [hstage] at h hsees
    obtain rfl := hsees
    obtain ⟨rfl, rfl⟩ := Prod.mk.inj (Option.some.inj h)
    exact .stays rfl rfl ⟨fun _ => rfl, trivial⟩
  | ensured w =>
    rw [hstage] at h hsees
    obtain rfl := hsees
    obtain ⟨rfl, rfl⟩ := Prod.mk.inj (Option.some.inj h)
    exact .stays rfl rfl ⟨fun _ => rfl, trivial⟩
  | reserved w fresh =>
    have hopen : call.stage.isOpen = true := by rw [hstage]; rfl
    rw [hstage] at h hsees
    cases fresh with
    | true =>
      dsimp only at h
      cases hincrement : w.increment call.counter with
      | some found =>
        obtain ⟨w', value⟩ := found
        rw [hincrement] at h
        obtain ⟨rfl, rfl⟩ := Prod.mk.inj (Option.some.inj h)
        exact .stays rfl (Database.count_of_statements _ _ _ hsees hincrement)
          ⟨fun _ => rfl, trivial⟩
      | none =>
        rw [hincrement] at h
        obtain ⟨rfl, rfl⟩ := Prod.mk.inj (Option.some.inj h)
        exact .stays rfl trivial (hrefused hopen)
    | false =>
      obtain ⟨value, hrow, hw, hsaved⟩ := hdb.reserved_again hsees
      dsimp only at h
      rw [hsaved] at h
      obtain ⟨rfl, rfl⟩ := Prod.mk.inj (Option.some.inj h)
      exact .stays rfl (.inr ⟨hrow, hw⟩) ⟨fun _ => rfl, trivial⟩
  | incremented w value =>
    rw [hstage] at h hsees
    obtain ⟨rfl, rfl⟩ := Prod.mk.inj (Option.some.inj h)
    exact .stays rfl (.inl hsees) ⟨fun _ => rfl, trivial⟩
  | valued w value =>
    have hopen : call.stage.isOpen = true := by rw [hstage]; rfl
    rw [hstage] at h hsees
    dsimp only at h
    split_ifs at h
    · obtain ⟨rfl, rfl⟩ := Prod.mk.inj (Option.some.inj h)
      exact .commits value hopen rfl hsees
    · obtain ⟨rfl, rfl⟩ := Prod.mk.inj (Option.some.inj h)
      exact .stays rfl trivial (hrefused hopen)
  | committed value =>
    rw [hstage] at h hsees
    obtain ⟨rfl, rfl⟩ := Prod.mk.inj (Option.some.inj h)
    exact .stays rfl hsees ⟨fun _ => rfl, allowed_answer hdb hsees⟩
  | answered result => rw [hstage] at h; cases h
  | dropped => rw [hstage] at h; cases h

theorem Call.advance_isOpen {call : Call} {db db' : Database} {free : Bool} {stage : Stage}
    (h : call.advance db free = some (db', stage)) (hopen : stage.isOpen = true) :
    call.stage.isOpen = true ∨ call.isValid = true ∧ free = true := by
  cases hstage : call.stage with
  | received =>
    rw [Call.advance, hstage] at h
    dsimp only at h
    split_ifs at h with hinvalid hfree
    · obtain ⟨rfl, rfl⟩ := Prod.mk.inj (Option.some.inj h)
      cases hopen
    · rw [Bool.not_eq_true', Bool.not_eq_false] at hinvalid
      exact .inr ⟨hinvalid, hfree⟩
  | committed value =>
    rw [Call.advance, hstage] at h
    obtain ⟨rfl, rfl⟩ := Prod.mk.inj (Option.some.inj h)
    cases hopen
  | answered result => rw [Call.advance, hstage] at h; cases h
  | dropped => rw [Call.advance, hstage] at h; cases h
  | begun w => exact .inl rfl
  | ensured w => exact .inl rfl
  | reserved w fresh => exact .inl rfl
  | incremented w value => exact .inl rfl
  | valued w value => exact .inl rfl

/-- A call without a transaction sees the same of a database with more results. -/
theorem Stage.Sees.of_closed {db db' : Database}
    {counter : CounterId} {operation : OperationId} {stage : Stage}
    (h : stage.Sees db counter operation) (hclosed : stage.isOpen = false)
    (hmore : ∀ key value, db.operations key = some (some value) →
      db'.operations key = some (some value)) :
    stage.Sees db' counter operation := by
  cases stage with
  | received => trivial
  | dropped => trivial
  | committed value => exact hmore _ _ h
  | answered result =>
    cases result with
    | ok value => exact hmore _ _ h
    | error e => trivial
  | begun w => cases hclosed
  | ensured w => cases hclosed
  | reserved w fresh => cases hclosed
  | incremented w value => cases hclosed
  | valued w value => cases hclosed

section Kept

variable {events : List Event} {s : State} {i : Nat} {call : Call} {stage : Stage}

theorem State.getElem?_setStage {j : Nat} {c : Call} (h : (s.setStage i call stage)[j]? = some c) :
    j = i ∧ c = { call with stage } ∨ j ≠ i ∧ s.calls[j]? = some c := by
  rw [State.setStage, List.getElem?_set] at h
  split_ifs at h with hj
  · exact .inl ⟨hj.symm, (Option.some.inj h).symm⟩
  · exact .inr ⟨Ne.symm hj, h⟩

theorem State.not_open_of_free (hfree : s.free = true) (hcall : s.calls[i]? = some call) :
    call.stage.isOpen = false := by
  have h := List.all_eq_true.mp hfree call (List.mem_of_getElem? hcall)
  rwa [Bool.not_eq_true'] at h

theorem Kept.setStage (hk : Kept events s) (hcall : s.calls[i]? = some call)
    {db : Database} {e : Event}
    (hrep : Represents db (events ++ [e])) (hsees : stage.Sees db call.counter call.operation)
    (hdb : db = s.db ∨ call.stage.isOpen = true)
    (hmore : ∀ key value, s.db.operations key = some (some value) →
      db.operations key = some (some value))
    (hopen : stage.isOpen = true → call.stage.isOpen = true ∨ call.isValid = true ∧ s.free = true)
    (hallowed : Allowed events e) : Kept (events ++ [e]) ⟨db, s.setStage i call stage⟩ where
  represents := hrep
  sees j c hj := by
    obtain ⟨rfl, rfl⟩ | ⟨hne, hj⟩ := State.getElem?_setStage hj
    · exact hsees
    · have hold := hk.sees j c hj
      obtain rfl | hcallopen := hdb
      · exact hold
      · refine hold.of_closed ?_ hmore
        rw [← Bool.not_eq_true]
        exact fun hc => hne (hk.single j i c call hj hcall hc hcallopen)
  valid j c hj hc := by
    obtain ⟨rfl, rfl⟩ | ⟨hne, hj⟩ := State.getElem?_setStage hj
    · obtain h | ⟨h, -⟩ := hopen hc
      · exact hk.valid j call hcall h
      · exact h
    · exact hk.valid j c hj hc
  requested j c hj := by
    refine List.mem_append_left _ ?_
    obtain ⟨rfl, rfl⟩ | ⟨hne, hj⟩ := State.getElem?_setStage hj
    · exact hk.requested j call hcall
    · exact hk.requested j c hj
  single j k a b ha hb haopen hbopen := by
    -- Another open call excludes both that this one is open and that it opens.
    have hother (l : Nat) (c : Call) (hl : s.calls[l]? = some c)
      (hne : l ≠ i) (hc : c.stage.isOpen = true) :
        stage.isOpen = false := by
      rw [← Bool.not_eq_true]
      intro hstage
      obtain h | ⟨-, hfree⟩ := hopen hstage
      · exact hne (hk.single l i c call hl hcall hc h)
      · rw [State.not_open_of_free hfree hl] at hc
        cases hc
    obtain ⟨rfl, rfl⟩ | ⟨hnej, hj⟩ := State.getElem?_setStage ha
    · obtain ⟨rfl, rfl⟩ | ⟨hnek, hk'⟩ := State.getElem?_setStage hb
      · rfl
      · rw [hother k b hk' hnek hbopen] at haopen
        cases haopen
    · obtain ⟨rfl, rfl⟩ | ⟨hnek, hk'⟩ := State.getElem?_setStage hb
      · rw [hother j a hj hnej haopen] at hbopen
        cases hbopen
      · exact hk.single j k a b hj hk' haopen hbopen
  justified := hk.justified.snoc hallowed

theorem Kept.moved (hk : Kept events s) (hcall : s.calls[i]? = some call) {db : Database}
    (hmoved : Moved events s.db call db stage)
    (hopen : stage.isOpen = true → call.stage.isOpen = true ∨ call.isValid = true ∧ s.free = true) :
    Kept (events ++ [call.event s.db stage]) ⟨db, s.setStage i call stage⟩ := by
  cases hmoved with
  | stays hdb hsees hevent =>
    subst hdb
    exact hk.setStage hcall (hk.represents.silent hevent.1) hsees
      (.inl rfl) (fun _ _ h => h) hopen hevent.2
  | commits value hcallopen hstage hdb =>
    subst hstage
    obtain ⟨hrow, rfl, rfl⟩ | ⟨hrow, rfl⟩ := hdb
    · -- A new operation.
      rw [Call.event, hrow, Option.isNone_none, if_pos rfl]
      have hvalid : validateIdentifier call.counter = true ∧
        validateIdentifier call.operation = true :=
        Bool.and_eq_true_iff.mp (hk.valid i call hcall hcallopen)
      refine hk.setStage hcall hk.represents.count ?_ (.inr hcallopen) ?_ hopen ?_
      · rw [Stage.Sees, Database.count_operations, if_pos rfl]
      · intro key value hkey
        rw [Database.count_operations, if_neg]
        · exact hkey
        · rintro rfl
          rw [hrow] at hkey
          cases hkey
      · exact ⟨hvalid.1, hvalid.2, hk.requested i call hcall, hk.represents.missing _ _ hrow⟩
    · -- A repeated one.
      rw [Call.event, hrow, Option.isNone_some, if_neg Bool.false_ne_true]
      refine hk.setStage hcall (hk.represents.insertCounter.silent fun _ => rfl) ?_
        (.inr hcallopen) ?_ hopen trivial
      · rw [Stage.Sees, Database.insertCounter_operations]
        exact hrow
      · intro key value hkey
        rw [Database.insertCounter_operations]
        exact hkey

theorem Kept.arrive (hk : Kept events s) (counter : CounterId) (operation : OperationId) :
    Kept (events ++ [.requested counter operation])
      ⟨s.db, s.calls ++ [⟨counter, operation, .received⟩]⟩ := by
  have hcases {j : Nat} {c : Call}
    (h : (s.calls ++ [⟨counter, operation, .received⟩])[j]? = some c) :
      s.calls[j]? = some c ∨ c = ⟨counter, operation, .received⟩ := by
    rw [List.getElem?_append] at h
    split_ifs at h
    · exact .inl h
    · exact .inr (List.mem_singleton.mp (List.mem_of_getElem? h))
  refine ⟨hk.represents.silent fun _ => rfl, fun j c hj => ?_,
    fun j c hj hc => ?_, fun j c hj => ?_,
    fun j k a b hj hk' ha hb => ?_, hk.justified.snoc trivial⟩
  · obtain hj | rfl := hcases hj
    · exact hk.sees j c hj
    · trivial
  · obtain hj | rfl := hcases hj
    · exact hk.valid j c hj hc
    · cases hc
  · obtain hj | rfl := hcases hj
    · exact List.mem_append_left _ (hk.requested j c hj)
    · exact List.mem_append_right _ (List.mem_singleton_self _)
  · obtain hj | rfl := hcases hj
    · obtain hk' | rfl := hcases hk'
      · exact hk.single j k a b hj hk' ha hb
      · cases hb
    · cases ha

theorem Kept.quiet (hk : Kept events s) {e : Event} (he : ∀ counter, e.counts counter = none)
    (hallowed : Allowed events e) : Kept (events ++ [e]) s where
  represents := hk.represents.silent he
  sees := hk.sees
  valid := hk.valid
  requested j c hj := List.mem_append_left _ (hk.requested j c hj)
  single := hk.single
  justified := hk.justified.snoc hallowed

end Kept

theorem fail_moved {events : List Event} {db : Database} {call : Call} {stage : Stage}
    (hrequested : .requested call.counter call.operation ∈ events) (h : call.fail = some stage) :
    Moved events db call db stage := by
  rw [Call.fail] at h
  split_ifs at h with hvalid
  obtain rfl := Option.some.inj h
  exact .stays rfl trivial ⟨fun _ => rfl, hrequested, (Bool.and_eq_true_iff.mp hvalid).1⟩

theorem drop_moved {events : List Event} {db : Database} {call : Call} {stage : Stage}
    (h : call.drop = some stage) : Moved events db call db stage := by
  rw [Call.drop] at h
  split_ifs at h
  obtain rfl := Option.some.inj h
  exact .stays rfl trivial ⟨fun _ => rfl, trivial⟩

theorem kept_start : Kept [] State.start := by
  refine ⟨⟨fun _ => rfl, ?_, ?_⟩, ?_, ?_, ?_, ?_, .nil⟩
  · intro counter operation row h
    cases h
  · intro counter operation _
    exact List.not_mem_nil
  all_goals intros; simp_all [State.start]

theorem kept_step {events : List Event} {s s' : State}
    {e : Event} (hk : Kept events s) (h : Step s e s') :
    Kept (events ++ [e]) s' := by
  cases h with
  | arrive counter operation => exact hk.arrive counter operation
  | advance hcall h =>
    exact hk.moved hcall
      (advance_moved hk.represents (hk.requested _ _ hcall)
        (hk.sees _ _ hcall) (hk.valid _ _ hcall) h)
      (Call.advance_isOpen h)
  | fail hcall h =>
    refine hk.moved hcall (fail_moved (hk.requested _ _ hcall) h) fun hopen => ?_
    rw [Call.fail] at h
    split_ifs at h
    obtain rfl := Option.some.inj h
    cases hopen
  | drop hcall h =>
    refine hk.moved hcall (drop_moved h) fun hopen => ?_
    rw [Call.drop] at h
    split_ifs at h
    obtain rfl := Option.some.inj h
    cases hopen
  | read counter hvalid hfree => exact hk.quiet (fun _ => rfl) ⟨hvalid, hk.represents.value counter⟩
  | readInvalid counter hinvalid => exact hk.quiet (fun _ => rfl) hinvalid
  | readFailed counter hvalid => exact hk.quiet (fun _ => rfl) hvalid

theorem kept_of_run {events : List Event} {s : State} (h : store.Run events s) : Kept events s := by
  refine h.invariant Kept ?_ fun _ _ _ _ hk hs => kept_step hk hs
  rintro s rfl
  exact kept_start

theorem ledger_nodup {events : List Event} (h : Justified Allowed events) (counter : CounterId) :
    (ledger counter events).Nodup := by
  induction events using List.reverseRecOn with
  | nil => exact List.nodup_nil
  | append_singleton events e ih =>
    have hold := ih h.of_append
    have hallowed : Allowed events e := h events e [] rfl
    rw [ledger_snoc]
    cases e with
    | counted c operation =>
      rw [Event.counts]
      split_ifs with hc
      · subst hc
        refine List.nodup_append.mpr ⟨hold, List.nodup_singleton _, ?_⟩
        rintro a ha b hb rfl
        obtain rfl := List.mem_singleton.mp hb
        exact hallowed.2.2.2 ha
      · rwa [Option.toList_none, List.append_nil]
    | requested c operation => rwa [Event.counts, Option.toList_none, List.append_nil]
    | answered c operation result => rwa [Event.counts, Option.toList_none, List.append_nil]
    | read c value => rwa [Event.counts, Option.toList_none, List.append_nil]
    | quiet => rwa [Event.counts, Option.toList_none, List.append_nil]

theorem answered_place {events : List Event} (h : Justified Allowed events) {counter : CounterId}
    {operation : OperationId} {value : Nat}
    (hmem : .answered counter operation (.ok value) ∈ events) :
    ∃ place, value = place + 1 ∧ (ledger counter events)[place]? = some operation := by
  obtain ⟨before, after, rfl, place, hvalue, hplace⟩ := h.of_mem hmem
  refine ⟨place, hvalue, ?_⟩
  rw [ledger, List.filterMap_append]
  exact List.getElem?_append_left (List.getElem?_eq_some_iff.mp hplace).1 ▸ hplace

theorem read_le {events : List Event} (h : Justified Allowed events)
    {counter : CounterId} {value : Nat}
    (hmem : .read counter (.ok value) ∈ events) : value ≤ (ledger counter events).length := by
  obtain ⟨before, after, rfl, -, hvalue⟩ := h.of_mem hmem
  rw [hvalue, ledger, ledger, List.filterMap_append, List.length_append]
  exact Nat.le_add_right _ _

theorem requested_of_ledger {events : List Event}
    (h : Justified Allowed events) {counter : CounterId}
    {operation : OperationId} (hmem : operation ∈ ledger counter events) :
    .requested counter operation ∈ events := by
  obtain ⟨e, he, hcounts⟩ := List.mem_filterMap.mp hmem
  cases e with
  | counted c o =>
    rw [Event.counts] at hcounts
    split_ifs at hcounts with hc
    obtain rfl := Option.some.inj hcounts
    subst hc
    obtain ⟨before, after, rfl, -, -, hrequested, -⟩ := h.of_mem he
    exact List.mem_append_left _ hrequested
  | requested c o => cases hcounts
  | answered c o result => cases hcounts
  | read c value => cases hcounts
  | quiet => cases hcounts

theorem answered_agree {events : List Event} (h : Justified Allowed events) {counter : CounterId}
    {operation other : OperationId} {value more : Nat}
    (hmem : .answered counter operation (.ok value) ∈ events)
    (hother : .answered counter other (.ok more) ∈ events) : operation = other ↔ value = more := by
  obtain ⟨place, rfl, hplace⟩ := answered_place h hmem
  obtain ⟨place', rfl, hplace'⟩ := answered_place h hother
  obtain ⟨hlt, hget⟩ := List.getElem?_eq_some_iff.mp hplace
  obtain ⟨hlt', hget'⟩ := List.getElem?_eq_some_iff.mp hplace'
  rw [← hget, ← hget', (ledger_nodup h counter).getElem_inj_iff, Nat.add_right_cancel_iff]

section Progress

variable {events : List Event} {s : State} {i : Nat} {call : Call}

/-- The call goes on by its own statements, and nothing else happens. -/
inductive Alone (i : Nat) : State → List Event → State → Prop
  | stop {s : State} : Alone i s [] s
  | next {s s' : State} {call : Call} {db : Database} {stage : Stage} {events : List Event}
      (hcall : s.calls[i]? = some call) (h : call.advance s.db s.free = some (db, stage))
      (hrest : Alone i ⟨db, s.setStage i call stage⟩ events s') :
      Alone i s (call.event s.db stage :: events) s'

/-- On its own, the call comes to an answer. -/
def Answers (s : State) (i : Nat) (call : Call) : Prop :=
  ∃ before value s', Alone i s (before ++ [.answered call.counter call.operation (.ok value)]) s' ∧
    s'.calls[i]? = some { call with stage := .answered (.ok value) }

theorem Alone.run {more : List Event} {s' : State}
    (h : Alone i s more s') (hrun : store.Run events s) :
    store.Run (events ++ more) s' := by
  induction h generalizing events with
  | stop => rwa [List.append_nil]
  | next hcall h hrest ih =>
    rw [← List.singleton_append, ← List.append_assoc]
    exact ih (hrun.next (.advance hcall h))

theorem getElem?_setStage_self (hcall : s.calls[i]? = some call) (stage : Stage) :
    (s.setStage i call stage)[i]? = some { call with stage } := by
  rw [State.setStage, List.getElem?_set_self (List.getElem?_eq_some_iff.mp hcall).1]

theorem Answers.after (hrun : store.Run events s)
    (hcall : s.calls[i]? = some call) {db : Database} {stage : Stage}
    (h : call.advance s.db s.free = some (db, stage))
    (hanswers : store.Run (events ++ [call.event s.db stage]) ⟨db, s.setStage i call stage⟩ →
      (s.setStage i call stage)[i]? = some { call with stage } →
      Answers ⟨db, s.setStage i call stage⟩ i { call with stage }) : Answers s i call := by
  obtain ⟨before, value, s', halone, hanswered⟩ :=
    hanswers (hrun.next (.advance hcall h)) (getElem?_setStage_self hcall stage)
  exact ⟨_ :: before, value, s', .next hcall h halone, hanswered⟩

theorem answers_committed (hcall : s.calls[i]? = some call)
    {value : Nat} (hstage : call.stage = .committed value) :
    Answers s i call := by
  have hadvance : call.advance s.db s.free = some (s.db, .answered (.ok value)) := by
    rw [Call.advance, hstage]
  exact ⟨[], value, _, .next hcall hadvance .stop, getElem?_setStage_self hcall _⟩

theorem answers_valued (hrun : store.Run events s)
    (hcall : s.calls[i]? = some call) {w : Database} {value : Nat}
    (hstage : call.stage = .valued w value) : Answers s i call := by
  have hsees := (kept_of_run hrun).sees i call hcall
  have hsome : (w.counters call.counter).isSome = true := by
    rw [hstage] at hsees
    obtain ⟨-, -, rfl⟩ | ⟨-, rfl⟩ := hsees
    · simp [Database.count]
    · rw [Database.insertCounter_self, Option.isSome_some]
  have hadvance : call.advance s.db s.free = some (w, .committed value) := by
    rw [Call.advance, hstage]
    exact if_pos hsome
  exact .after hrun hcall hadvance fun _ hcall => answers_committed hcall rfl

theorem answers_incremented (hrun : store.Run events s)
    (hcall : s.calls[i]? = some call) {w : Database}
    {value : Nat} (hstage : call.stage = .incremented w value) : Answers s i call := by
  have hadvance : call.advance s.db s.free =
      some (s.db, .valued (w.saveResult call.counter call.operation value) value) := by
        rw [Call.advance, hstage]
  exact .after hrun hcall hadvance fun hrun hcall => answers_valued hrun hcall rfl

theorem answers_reserved (hrun : store.Run events s)
    (hcall : s.calls[i]? = some call) {w : Database} {fresh : Bool}
    (hstage : call.stage = .reserved w fresh) (hroom : s.db.readCounter call.counter + 1 < 2 ^ 63) :
    Answers s i call := by
  have hkept := kept_of_run hrun
  have hsees := hkept.sees i call hcall
  rw [hstage, Stage.Sees, Database.reserve, Database.insertCounter_operations] at hsees
  cases hrow : s.db.operations (call.counter, call.operation) with
  | none =>
    rw [hrow] at hsees
    obtain ⟨rfl, rfl⟩ := Prod.mk.inj hsees
    obtain ⟨w', hincrement⟩ : ∃ w', Database.increment
        { s.db.insertCounter call.counter with
          operations := Function.update s.db.operations
            (call.counter, call.operation) (some none) } call.counter =
        some (w', s.db.readCounter call.counter + 1) := by
      rw [Database.increment, Database.insertCounter_self]
      exact ⟨_, if_pos hroom⟩
    have hadvance : call.advance s.db s.free =
        some (s.db, .incremented w' (s.db.readCounter call.counter + 1)) := by
      rw [Call.advance, hstage]
      simp only [hincrement]
    exact .after hrun hcall hadvance fun hrun hcall => answers_incremented hrun hcall rfl
  | some row =>
    rw [hrow] at hsees
    obtain ⟨rfl, rfl⟩ := Prod.mk.inj hsees
    obtain ⟨place, rfl, -⟩ := hkept.represents.result _ _ _ hrow
    have hadvance : call.advance s.db s.free =
        some (s.db, .valued (s.db.insertCounter call.counter) (place + 1)) := by
      rw [Call.advance, hstage]
      simp only [Database.savedResult, Database.insertCounter_operations, hrow]
    exact .after hrun hcall hadvance fun hrun hcall => answers_valued hrun hcall rfl

theorem answers_ensured (hrun : store.Run events s) (hcall : s.calls[i]? = some call) {w : Database}
    (hstage : call.stage = .ensured w) (hroom : s.db.readCounter call.counter + 1 < 2 ^ 63) :
    Answers s i call := by
  have hadvance : call.advance s.db s.free = some (s.db,
      .reserved (w.reserve call.counter call.operation).1
        (w.reserve call.counter call.operation).2) := by
    rw [Call.advance, hstage]
  exact .after hrun hcall hadvance fun hrun hcall => answers_reserved hrun hcall rfl hroom

theorem answers_begun (hrun : store.Run events s) (hcall : s.calls[i]? = some call) {w : Database}
    (hstage : call.stage = .begun w) (hroom : s.db.readCounter call.counter + 1 < 2 ^ 63) :
    Answers s i call := by
  have hadvance : call.advance s.db s.free = some
    (s.db, .ensured (w.insertCounter call.counter)) := by
    rw [Call.advance, hstage]
  exact .after hrun hcall hadvance fun hrun hcall => answers_ensured hrun hcall rfl hroom

/-- A call that is left alone is answered, from wherever it is. -/
theorem answers_undisturbed (hrun : store.Run events s) (hcall : s.calls[i]? = some call)
    (hover : call.stage.isOver = false) (hwaits : call.stage = .received →
      call.isValid = true ∧ s.free = true)
    (hroom : s.db.readCounter call.counter + 1 < 2 ^ 63) : Answers s i call := by
  cases hstage : call.stage with
  | received =>
    obtain ⟨hvalid, hfree⟩ := hwaits hstage
    have hadvance : call.advance s.db s.free = some (s.db, .begun s.db) := by
      rw [Call.advance, hstage]
      simp [hvalid, hfree]
    exact .after hrun hcall hadvance fun hrun hcall => answers_begun hrun hcall rfl hroom
  | begun w => exact answers_begun hrun hcall hstage hroom
  | ensured w => exact answers_ensured hrun hcall hstage hroom
  | reserved w fresh => exact answers_reserved hrun hcall hstage hroom
  | incremented w value => exact answers_incremented hrun hcall hstage
  | valued w value => exact answers_valued hrun hcall hstage
  | committed value => exact answers_committed hcall hstage
  | answered result => rw [hstage] at hover; cases hover
  | dropped => rw [hstage] at hover; cases hover

end Progress

/-- However often an operation is requested, and whichever of its calls fail or
are dropped, it counts at most once and is answered with its place. -/
theorem operations_counted_once {events : List Event} {s : State} (h : store.Run events s) :
    Justified Allowed events ∧
      (∀ counter, (ledger counter events).Nodup ∧
        s.db.readCounter counter = (ledger counter events).length) ∧
      (∀ counter operation other value more, .answered counter operation (.ok value) ∈ events →
        .answered counter other (.ok more) ∈ events → (operation = other ↔ value = more)) ∧
      ∀ (i : Nat) (call : Call), s.calls[i]? = some call → call.stage.isOver = false →
        (call.stage = .received → call.isValid = true ∧ s.free = true) →
        s.db.readCounter call.counter + 1 < 2 ^ 63 →
        ∃ before value s',
        Alone i s (before ++ [.answered call.counter call.operation (.ok value)]) s' ∧
          s'.calls[i]? = some { call with stage := .answered (.ok value) } ∧
          store.Run (events ++ (before ++ [.answered call.counter call.operation (.ok value)]))
            s' := by
  have hkept := kept_of_run h
  refine ⟨hkept.justified,
    fun counter => ⟨ledger_nodup hkept.justified counter, hkept.represents.value counter⟩,
    fun counter operation other value more hmem hother =>
    answered_agree hkept.justified hmem hother,
    fun i call hcall hover hwaits hroom => ?_⟩
  obtain ⟨before, value, s', halone, hanswered⟩ := answers_undisturbed h hcall hover hwaits hroom
  exact ⟨before, value, s', halone, hanswered, halone.run h⟩

def replayed : List Event :=
  [.requested [97] [120], .requested [97] [120],
    .quiet, .quiet, .quiet, .quiet, .quiet, .counted [97] [120], .quiet,
    .quiet, .quiet, .quiet, .quiet, .quiet, .answered [97] [120] (.ok 1)]

theorem replayed_run : ∃ s, store.Run replayed s := by
  have hboth :=
    ((System.Run.start (S := store) rfl).next (.arrive [97] [120])).next (.arrive [97] [120])
  have hbegun := hboth.next (.advance (i := 0) rfl rfl)
  have hensured := hbegun.next (.advance (i := 0) rfl rfl)
  have hreserved := hensured.next (.advance (i := 0) rfl rfl)
  have hincremented := hreserved.next (.advance (i := 0) rfl rfl)
  have hvalued := hincremented.next (.advance (i := 0) rfl rfl)
  have hcommitted := hvalued.next (.advance (i := 0) rfl rfl)
  have hdropped := hcommitted.next (.drop (i := 0) rfl rfl)
  have hbegun := hdropped.next (.advance (i := 1) rfl rfl)
  have hensured := hbegun.next (.advance (i := 1) rfl rfl)
  have hreserved := hensured.next (.advance (i := 1) rfl rfl)
  have hvalued := hreserved.next (.advance (i := 1) rfl rfl)
  have hcommitted := hvalued.next (.advance (i := 1) rfl rfl)
  have hanswered := hcommitted.next (.advance (i := 1) rfl rfl)
  exact ⟨_, hanswered⟩

theorem operations_counted_once_replayed :
    ∃ s, store.Run replayed s ∧ Justified Allowed replayed ∧ s.db.readCounter [97] = 1 := by
  obtain ⟨s, h⟩ := replayed_run
  obtain ⟨hjustified, hvalue, -, -⟩ := operations_counted_once h
  exact ⟨s, h, hjustified, (hvalue [97]).2⟩

end LeptosWasi.CounterStore
