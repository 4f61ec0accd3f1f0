import LeptosWasi.CounterStore

namespace LeptosWasi.CounterIsland

open Http CounterStore

inductive CounterStoreError where
  | invalidConfiguration
  | requestFailed
  | timeout
  | invalidResponse
  | responseTooLarge
deriving DecidableEq

/-- What the `http` crate finds in a URL. -/
structure Authority where
  text : Bytes
  host : Bytes
  port : Option Nat

structure Uri where
  scheme : Option Bytes
  authority : Option Authority
  path : Bytes
  query : Option Bytes

structure StoreConfig where
  authority : Bytes
  counterId : CounterId
deriving DecidableEq

def validIdentifier (value : Bytes) : Bool := validateIdentifier value

/-- Plain HTTP to a port of the local host, at the root. -/
def StoreConfig.parse (parseUri : Bytes → Option Uri) (url counterId : Bytes) :
    Except CounterStoreError StoreConfig :=
  match parseUri url with
  | none => .error .invalidConfiguration
  | some uri =>
    if uri.scheme ≠ some (text "http") ∨ uri.query.isSome ∨
      (uri.path ≠ [] ∧ uri.path ≠ text "/") then
      .error .invalidConfiguration
    else match uri.authority with
      | none => .error .invalidConfiguration
      | some authority =>
        if (authority.host ≠ text "127.0.0.1" ∧ authority.host ≠ text "localhost") ∨
          authority.port.isNone ∨
            validIdentifier counterId = false then
          .error .invalidConfiguration
        else .ok ⟨authority.text, counterId⟩

def uniqueEnvironmentValue (environment : List (Bytes × Bytes)) (key : Bytes) :
    Except CounterStoreError (Option Bytes) :=
  match (environment.filter fun entry => entry.1 == key).map Prod.snd with
  | [] => .ok none
  | [value] => .ok (some value)
  | _ :: _ :: _ => .error .invalidConfiguration

def loadConfig (parseUri : Bytes → Option Uri) (environment : List (Bytes × Bytes)) :
    Except CounterStoreError (Option StoreConfig) := do
  let some url ← uniqueEnvironmentValue environment (text "COUNTER_STORE_URL") | return none
  let counterId ← uniqueEnvironmentValue environment (text "COUNTER_ID")
  some <$> StoreConfig.parse parseUri url (counterId.getD (text "demo"))

theorem StoreConfig.parse_ok {parseUri : Bytes → Option Uri}
    {url counterId : Bytes} {config : StoreConfig}
    (h : StoreConfig.parse parseUri url counterId = .ok config) :
    config.counterId = counterId ∧ validIdentifier counterId = true ∧
      ∃ uri authority, parseUri url = some uri ∧
        uri.scheme = some (text "http") ∧ uri.query = none ∧
        uri.authority = some authority ∧ config.authority = authority.text ∧
        authority.port.isSome = true ∧
        (authority.host = text "127.0.0.1" ∨ authority.host = text "localhost") := by
  rw [parse] at h
  cases huri : parseUri url with
  | none => rw [huri] at h; cases h
  | some uri =>
    rw [huri] at h
    dsimp only at h
    split_ifs at h with hform
    cases hauthority : uri.authority with
    | none => rw [hauthority] at h; cases h
    | some authority =>
      rw [hauthority] at h
      dsimp only at h
      split_ifs at h with hlocal
      obtain rfl := Except.ok.inj h
      simp only [not_or, not_and, ne_eq, not_not, Bool.not_eq_true, Option.isSome_eq_false_iff,
        Option.isNone_iff_eq_none] at hform hlocal
      obtain ⟨hscheme, hquery, -⟩ := hform
      obtain ⟨hhost, hport, hvalid⟩ := hlocal
      exact ⟨rfl, by simpa using hvalid, uri, authority, rfl, hscheme, hquery, hauthority, rfl,
        Option.isSome_iff_ne_none.mpr hport, or_iff_not_imp_left.mpr hhost⟩

/-- A deployment whose environment configures a store. -/
structure Deployment where
  parseUri : Bytes → Option Uri
  environment : List (Bytes × Bytes)
  config : StoreConfig
  loaded : loadConfig parseUri environment = .ok (some config)

def Deployment.configuration (deployment : Deployment) :
    Except CounterStoreError (Option StoreConfig) :=
  loadConfig deployment.parseUri deployment.environment

theorem Deployment.valid (deployment : Deployment) :
    validIdentifier deployment.config.counterId = true := by
  have h := deployment.loaded
  rw [loadConfig] at h
  cases hurl : uniqueEnvironmentValue deployment.environment (text "COUNTER_STORE_URL") with
  | error e => rw [hurl] at h; cases h
  | ok url =>
    rw [hurl] at h
    cases url with
    | none => cases h
    | some url =>
      cases hid : uniqueEnvironmentValue deployment.environment (text "COUNTER_ID") with
      | error e => simp only [hid, bind, Except.bind] at h; cases h
      | ok counterId =>
        cases hparse : StoreConfig.parse deployment.parseUri url (counterId.getD (text "demo")) with
        | error e =>
          simp only [hid, bind, Except.bind, hparse] at h
          cases h
        | ok config =>
          simp only [hid, bind, Except.bind, hparse] at h
          obtain rfl := Option.some.inj (Except.ok.inj h)
          obtain ⟨hcounter, hvalid, -⟩ := StoreConfig.parse_ok hparse
          rw [hcounter]
          exact hvalid

inductive RequestKind where
  | read
  | increment (operation : OperationId)

section ServerFunctions

variable (config : Except CounterStoreError (Option StoreConfig))
  (request : StoreConfig → RequestKind → Except CounterStoreError Nat)

def readConfiguredCount : Except CounterStoreError (Option Nat) := do
  let some config ← config | return none
  some <$> request config .read

def incrementConfiguredCount (operation : OperationId) : Except CounterStoreError (Option Nat) := do
  let some config ← config | return none
  if validIdentifier operation = false then throw .invalidConfiguration
  some <$> request config (.increment operation)

abbrev ServerFnError := Bytes

def counterStoreError (_ : CounterStoreError) : ServerFnError := text "counter store unavailable"

def getCount : Except ServerFnError Nat := do
  if let some value ← (readConfiguredCount config request).mapError counterStoreError then
    return value
  return 0

/-- Without a store the page keeps the count. -/
def incrementCount (current : Nat) (operation : OperationId) : Except ServerFnError Nat := do
  if let some value ←
    (incrementConfiguredCount config request operation).mapError counterStoreError then
    return value
  if current + 1 < 2 ^ 32 then return current + 1
  throw (text "counter reached its maximum value")

end ServerFunctions

structure IncrementCount where
  current : Nat
  operationId : OperationId

structure Island where
  count : Nat
  loadFinished : Bool
  operationId : Option OperationId
  loadPending : Bool
  loadValue : Option (Except ServerFnError Nat)
  incrementPending : Option IncrementCount
  incrementValue : Option (Except ServerFnError Nat)

inductive Status where
  | loadingSavedCount
  | saving
  | updateFailed
  | ready
deriving DecidableEq

def isErr : Option (Except ServerFnError Nat) → Bool
  | some (.error _) => true
  | some (.ok _) | none => false

namespace Island

def mount : Island := ⟨0, false, none, true, none, none, none⟩

variable (island : Island)

def pending : Bool := island.loadPending || island.incrementPending.isSome

def actionFailed : Bool := isErr island.loadValue || isErr island.incrementValue

def loaded (result : Except ServerFnError Nat) : Island :=
  { island with
    count := match result with
      | .ok storedCount => storedCount
      | .error _ => island.count
    loadFinished := true
    loadPending := false
    loadValue := some result }

def increment (fresh : OperationId) : Island :=
  let operationId := island.operationId.getD fresh
  { island with
    operationId := some operationId
    incrementPending := some ⟨island.count, operationId⟩ }

def incremented (result : Except ServerFnError Nat) : Island :=
  { island with
    count := match result with
      | .ok nextCount => nextCount
      | .error _ => island.count
    operationId := match result with
      | .ok _ => none
      | .error _ => island.operationId
    incrementPending := none
    incrementValue := some result }

def status : Status :=
  if !island.loadFinished || island.loadPending then .loadingSavedCount
  else if island.incrementPending.isSome then .saving
  else if island.actionFailed then .updateFailed
  else .ready

end Island

def isOperationId (operation : OperationId) : Bool :=
  operation.length == 32 && operation.all fun b => decide (48 ≤ b ∧ b ≤ 57 ∨ 97 ≤ b ∧ b ≤ 102)

/-- A store with the pages that use its counter: what the store has done, the
open islands, the operations they have started, and the unsettled ones of the
islands that were closed. -/
structure State where
  store : CounterStore.State
  log : List CounterStore.Event
  islands : List Island
  started : List OperationId
  abandoned : List OperationId

inductive Event where
  | store (e : CounterStore.Event)
  | mounted
  | loaded (result : Except ServerFnError Nat)
  | started (operation : OperationId)
  | repeated (operation : OperationId)
  | incremented (operation : OperationId) (result : Except ServerFnError Nat)
  | closed

/-- What a request can come back with: an answer of the store that 32 bits
hold, or an error, whatever the store has done. -/
def Responds (config : StoreConfig) (log : List CounterStore.Event) :
    RequestKind → Except CounterStoreError Nat → Prop
  | .read, .ok value => .read config.counterId (.ok value) ∈ log ∧ value < 2 ^ 32
  | .increment operation, .ok value =>
    .answered config.counterId operation (.ok value) ∈ log ∧ value < 2 ^ 32
  | _, .error _ => True

/-- What an action's call of a server function can come back with. -/
def Returns (called result : Except ServerFnError Nat) : Prop :=
  result = called ∨ ∃ e, result = .error e

variable (deployment : Deployment)

/-- The steps of the pages and their store. A request for the counter is one of
an island, and can reach the store late and more than once. -/
inductive Step : State → Event → State → Prop
  | store {s : State} {e : CounterStore.Event} {store : CounterStore.State}
      (h : CounterStore.Step s.store e store)
    (hrequest : ∀ operation, e = .requested deployment.config.counterId operation →
      operation ∈ s.started) :
    Step s (.store e) { s with store := store, log := s.log ++ [e] }
  | mounted {s : State} : Step s .mounted { s with islands := s.islands ++ [.mount] }
  | loaded {s : State} {i : Nat} {island : Island} {response : Except CounterStoreError Nat}
    {result : Except ServerFnError Nat} (hisland : s.islands[i]? = some island)
    (hpending : island.loadPending = true)
    (hresponse : Responds deployment.config s.log .read response)
    (hresult : Returns (getCount deployment.configuration fun _ _ => response) result) :
    Step s (.loaded result) { s with islands := s.islands.set i (island.loaded result) }
  | started {s : State} {i : Nat} {island : Island}
      {operation : OperationId} (hisland : s.islands[i]? = some island)
    (hpending : island.pending = false) (hnone : island.operationId = none)
    (hfresh : operation ∉ s.started)
    (hform : isOperationId operation = true) :
    Step s (.started operation)
      { s with
        islands := s.islands.set i (island.increment operation)
        started := s.started ++ [operation] }
  | repeated {s : State} {i : Nat} {island : Island}
      {operation : OperationId} (hisland : s.islands[i]? = some island)
    (hpending : island.pending = false) (hsome : island.operationId = some operation) :
    Step s (.repeated operation) { s with islands := s.islands.set i (island.increment operation) }
  | incremented {s : State} {i : Nat} {island : Island} {args : IncrementCount}
    {response : Except CounterStoreError Nat} {result : Except ServerFnError Nat}
    (hisland : s.islands[i]? = some island) (hpending : island.incrementPending = some args)
    (hresponse : Responds deployment.config s.log (.increment args.operationId) response)
    (hresult : Returns
      (incrementCount deployment.configuration (fun _ _ => response) args.current args.operationId)
      result) :
    Step s (.incremented args.operationId result)
      { s with islands := s.islands.set i (island.incremented result) }
  | closed {s : State} {i : Nat} {island : Island} (hisland : s.islands[i]? = some island) :
    Step s .closed
      { s with
        islands := s.islands.eraseIdx i
        abandoned := s.abandoned ++ island.operationId.toList }

def pages : System State Event where
  init s := s = ⟨.start, [], [], [], []⟩
  step := Step deployment

end LeptosWasi.CounterIsland
