import LeptosWasi.TracedResponse
import LeptosWasi.TrustedIngress

namespace LeptosWasi.StreamGuard

open Http TracedResponse TrustedIngress

inductive Stage where
  | requestTotal
  | policy
  | authnQueue
  | authnSend
  | authnBody
  | terminalQueue
  | terminalSend
  | terminalFirstByte
  | terminalBody
  | responseTotal
deriving DecidableEq

inductive Metric where
  | error (errorClass : ErrorClass)
  | record (stage : Stage) (elapsed : Nat)
  | responseBodyAbort
deriving DecidableEq

/-- What a poll sees of the clock: when it polls the timers and which of them
have fired, and the time that it reads when it is done with the inner body. No
timer fires before its deadline. -/
structure Tick where
  polled : Nat
  returned : Nat
  fired : Nat → Bool
  ordered : polled ≤ returned
  not_early : ∀ deadline, fired deadline = true → deadline ≤ polled

def Tick.OnTime (tick : Tick) (slack : Nat) : Prop :=
  ∀ deadline, deadline + slack ≤ tick.polled → tick.fired deadline = true

inductive BoxError (E : Type) where
  | inner (error : E)
  | timedOut (message : String)

def deadlineExceeded {E : Type} : BoxError E := .timedOut "trusted ingress stream deadline exceeded"

/-- The timers are their deadlines. -/
structure GuardedBody (B : Type) where
  inner : B
  idle : Nat
  total : Nat
  bodyStarted : Nat
  requestStarted : Nat
  idleDuration : Nat
  completed : Bool

namespace GuardedBody

variable {B E : Type}

def new (inner : B) (now requestStarted idleDuration totalDuration : Nat) : GuardedBody B :=
  ⟨inner, now + idleDuration, now + totalDuration, now, requestStarted, idleDuration, false⟩

def finish (g : GuardedBody B) (now : Nat) : List Metric :=
  [.record .terminalBody (now - g.bodyStarted), .record .responseTotal (now - g.requestStarted)]

def pollFrame (body : HttpBody B E) (g : GuardedBody B) (tick : Tick) :
    GuardedBody B × PollFrame (BoxError E) × List Metric :=
  if tick.fired g.total || tick.fired g.idle then
    ({ g with completed := true }, .error deadlineExceeded,
      .error .streamTimeout :: g.finish tick.returned)
  else
    let (inner, poll) := body.pollFrame g.inner
    let g := { g with inner := inner }
    match poll with
    | .frame frame => ({ g with idle := tick.returned + g.idleDuration }, .frame frame, [])
    | .error error =>
      ({ g with completed := true }, .error (.inner error),
        .error .terminalTransport :: g.finish tick.returned)
    | .ended => ({ g with completed := true }, .ended, g.finish tick.returned)
    | .pending => (g, .pending, [])

def drop (g : GuardedBody B) (now : Nat) : List Metric :=
  if g.completed then [] else .responseBodyAbort :: g.finish now

end GuardedBody

structure Session (B E : Type) where
  guard : GuardedBody B
  log : List (Tick × PollFrame (BoxError E))
  metrics : List Metric

namespace Session

variable {B E : Type}

def start (guard : GuardedBody B) : Session B E := ⟨guard, [], []⟩

def poll (body : HttpBody B E) (s : Session B E) (tick : Tick) : Session B E :=
  let (guard, result, metrics) := s.guard.pollFrame body tick
  ⟨guard, s.log ++ [(tick, result)], s.metrics ++ metrics⟩

def dropped (s : Session B E) (now : Nat) : List Metric := s.metrics ++ s.guard.drop now

end Session

/-- A consumer that obeys the contract of `http_body::Body`, as time goes on. It
may stop after any poll. -/
def consumer {B E : Type} (body : HttpBody B E) (guard : GuardedBody B) :
    System (Session B E) Tick where
  init s := s = .start guard
  step s tick s' :=
    (∀ entry ∈ s.log, entry.2.closes = false ∧ entry.1.returned ≤ tick.polled) ∧
      guard.bodyStarted ≤ tick.polled ∧ s' = s.poll body tick

end LeptosWasi.StreamGuard
