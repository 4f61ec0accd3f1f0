import Mathlib.Algebra.Group.Nat.Defs
import Mathlib.Logic.Function.Iterate
import LeptosWasi.Library.Runs

namespace LeptosWasi.Latency

structure LatencyMetric where
  count : Nat
  totalMicros : Nat
  maxMicros : Nat
  buckets : Fin 32 → Nat

def recordedMicros (duration : Nat) : Nat :=
  max (if duration < 2 ^ 64 then duration else 2 ^ 64 - 1) 1

/-- A bucket is for a power of two and what is below the next, the last one for
all that is longer. -/
def bucketOf (micros : Nat) : Fin 32 := ⟨min micros.log2 31, by omega⟩

/-- The atomic updates of `record`, in their order. -/
inductive Update where
  | count
  | totalMicros
  | maxMicros
  | bucket
deriving DecidableEq

namespace Update

def position : Update → Nat
  | .count => 0
  | .totalMicros => 1
  | .maxMicros => 2
  | .bucket => 3

def next : Update → Option Update
  | .count => some .totalMicros
  | .totalMicros => some .maxMicros
  | .maxMicros => some .bucket
  | .bucket => none

def apply (metric : LatencyMetric) (micros : Nat) : Update → LatencyMetric
  | .count => { metric with count := (metric.count + 1) % 2 ^ 64 }
  | .totalMicros => { metric with totalMicros := (metric.totalMicros + micros) % 2 ^ 64 }
  | .maxMicros => { metric with maxMicros := max metric.maxMicros micros }
  | .bucket =>
    { metric with
      buckets := fun k => if k = bucketOf micros then (metric.buckets k + 1) % 2 ^ 64
        else metric.buckets k }

end Update

namespace LatencyMetric

def new : LatencyMetric := ⟨0, 0, 0, fun _ => 0⟩

end LatencyMetric

/-- A call of `quantile`, between its loads. -/
inductive Scan where
  | begun
  | scanning (count index seen : Nat)
  | finished (count result : Nat)
deriving DecidableEq

def target (count percentile : Nat) : Nat := (min (count * percentile) (2 ^ 64 - 1) + 99) / 100

namespace Scan

def step (metric : LatencyMetric) (percentile : Nat) : Scan → Scan
  | .begun => if metric.count = 0 then .finished 0 0 else .scanning metric.count 0 0
  | .scanning count index seen =>
    if h : index < 32 then
      let seen := min (seen + metric.buckets ⟨index, h⟩) (2 ^ 64 - 1)
      if target count percentile ≤ seen then .finished count (2 ^ (index + 1))
        else .scanning count (index + 1) seen
    else .finished count (2 ^ 64 - 1)
  | .finished count result => .finished count result

def isFinished : Scan → Bool
  | .finished _ _ => true
  | .begun | .scanning _ _ _ => false

def result : Scan → Nat
  | .finished _ result => result
  | .begun | .scanning _ _ _ => 0

end Scan

def LatencyMetric.quantile (metric : LatencyMetric) (percentile : Nat) : Nat :=
  ((Scan.step metric percentile)^[34] .begun).result

structure Recorder where
  micros : Nat
  next : Option Update

structure Reader where
  percentile : Nat
  scan : Scan

structure State where
  metric : LatencyMetric
  recorders : List Recorder
  readers : List Reader

inductive Event where
  | recorded (micros : Nat)
  | updated (update : Update) (micros : Nat)
  | read
deriving DecidableEq

/-- Any number of tasks record and read one metric. -/
inductive Step : State → Event → State → Prop
  | record {s : State} (duration : Nat) :
    Step s (.recorded (recordedMicros duration))
      { s with recorders := s.recorders ++ [⟨recordedMicros duration, some .count⟩] }
  | update {s : State} {i : Nat} {recorder : Recorder} {update : Update}
    (hrecorder : s.recorders[i]? = some recorder) (hnext : recorder.next = some update) :
    Step s (.updated update recorder.micros)
      { s with
        metric := update.apply s.metric recorder.micros
        recorders := s.recorders.set i { recorder with next := update.next } }
  | quantile {s : State} (percentile : Nat) :
    Step s .read { s with readers := s.readers ++ [⟨percentile, .begun⟩] }
  | load {s : State} {i : Nat} {reader : Reader} (hreader : s.readers[i]? = some reader)
    (hscan : reader.scan.isFinished = false) :
    Step s .read
      { s with
        readers := s.readers.set i
          { reader with scan := reader.scan.step s.metric reader.percentile } }

def recording : System State Event where
  init s := s = ⟨.new, [], []⟩
  step := Step

end LeptosWasi.Latency
