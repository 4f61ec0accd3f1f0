import LeptosWasi.Executor

namespace LeptosWasi.Initialization

open Pollables LeptosWasi.Executor

abbrev ThreadId := Nat

structure Handle where
  id : Nat
  queue : Nat
  mode : Mode
deriving DecidableEq

inductive Preview2InitState where
  | initialized (executor : Handle)
  | conflict
deriving DecidableEq

def Preview2InitState.result (state : Preview2InitState) (requestedMode : Mode) :
    Except ExecutorError Handle :=
  match state with
  | .initialized executor =>
    if executor.mode = requestedMode then .ok executor else .error .preview2ModeMismatch
  | .conflict => .error .spawnerAlreadyInitialized

structure Frame where
  mode : Mode
  executor : Handle

/-- `PREVIEW2_EXECUTOR` and `PREVIEW2_SPAWNER_STATE` of a thread, and its calls
that have not returned, the innermost first. -/
structure Thread where
  slot : Option Handle
  state : Option Preview2InitState
  pending : List Frame

/-- The process: `POLLABLE_QUEUE`, the next address, and the threads. -/
structure Process where
  pollableQueue : Option Nat
  fresh : Nat
  threads : ThreadId → Thread

namespace Process

def setThread (p : Process) (t : ThreadId) (thread : Thread) : Process :=
  { p with threads := Function.update p.threads t thread }

def initializeWaitQueue (p : Process) : Process × Nat :=
  match p.pollableQueue with
  | some queue => (p, queue)
  | none => ({ p with pollableQueue := some p.fresh, fresh := p.fresh + 1 }, p.fresh)

/-- `Executor::new`. The slot is borrowed only while the call runs, which calls
nothing that could come back to it. -/
def new (p : Process) (t : ThreadId) (mode : Mode) : Process × Except ExecutorError Handle :=
  match (p.threads t).slot with
  | some executor =>
    (p, if executor.mode ≠ mode then .error .preview2ModeMismatch else .ok executor)
  | none =>
    let (p, queue) := p.initializeWaitQueue
    let executor : Handle := ⟨p.fresh, queue, mode⟩
    ({ p with fresh := p.fresh + 1 }.setThread t { p.threads t with slot := some executor },
      .ok executor)

end Process

def settle (cell : Option Preview2InitState) (initialized : Preview2InitState) (mode : Mode) :
    Option Preview2InitState × Except ExecutorError Handle :=
  let cell := cell.or (some initialized)
  (cell, (cell.elim (.error .preview2InitializationReentrant) fun state => state.result mode))

inductive Event where
  | newReturned (t : ThreadId) (mode : Mode) (result : Except ExecutorError Handle)
  | installing (t : ThreadId) (executor : Handle)
  | installed (t : ThreadId) (executor : Handle) (accepted : Bool)
  | initReturned (t : ThreadId) (mode : Mode) (result : Except ExecutorError Handle)

/-- A step of any thread. While an executor is being installed its thread may
make further calls, and others make theirs. The spawner accepts an executor or
has another one. -/
inductive Step : Process → List Event → Process → Prop
  | new {p : Process} (t : ThreadId) (mode : Mode) :
    Step p [.newReturned t mode (p.new t mode).2] (p.new t mode).1
  | initKnown {p : Process} {t : ThreadId} {state : Preview2InitState} (mode : Mode)
      (h : (p.threads t).state = some state) : Step p [.initReturned t mode (state.result mode)] p
  | initFailed {p p' : Process} {t : ThreadId} {mode : Mode}
      {e : ExecutorError} (h : (p.threads t).state = none)
      (hn : p.new t mode = (p', .error e)) : Step p [.initReturned t mode (.error e)] p'
  | initCreated {p p' : Process} {t : ThreadId} {mode : Mode}
      {executor : Handle} (h : (p.threads t).state = none)
      (hn : p.new t mode = (p', .ok executor)) :
      Step p [.installing t executor]
        (p'.setThread t { p'.threads t with pending := ⟨mode, executor⟩ :: (p'.threads t).pending })
  | installed {p : Process} {t : ThreadId} {frame : Frame}
      {rest : List Frame} {cell : Option Preview2InitState}
      {result : Except ExecutorError Handle} (accepted : Bool)
      (h : (p.threads t).pending = frame :: rest)
      (hs : settle (p.threads t).state
        (if accepted then .initialized frame.executor else .conflict) frame.mode =
        (cell, result)) :
      Step p [.installed t frame.executor accepted, .initReturned t frame.mode result]
        (p.setThread t { p.threads t with state := cell, pending := rest })

def Process.start : Process := ⟨none, 0, fun _ => ⟨none, none, []⟩⟩

def initSystem : System Process (List Event) where
  init p := p = .start
  step := Step

end LeptosWasi.Initialization
