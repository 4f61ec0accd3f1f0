import Mathlib.Data.Nat.Log
import LeptosWasi.LatencyMetric
import LeptosWasi.Library.Ranks
import LeptosWasi.Library.Selections

namespace LeptosWasi.Latency

section Buckets

variable {m n : Nat}

theorem bucketOf_mono : Monotone bucketOf := by
  intro m n h
  have hlog : m.log2 ≤ n.log2 := by
    rw [Nat.log2_eq_log_two, Nat.log2_eq_log_two]
    exact Nat.log_mono_right h
  rw [bucketOf, bucketOf, Fin.mk_le_mk]
  omega

theorem bucketOf_of_lt (h : m < 2 ^ 32) : (bucketOf m : Nat) = m.log2 := by
  have hlog : m.log2 < 32 := by
    rw [Nat.log2_eq_log_two]
    exact Nat.log_lt_of_lt_pow' (by decide) h
  exact min_eq_left (Nat.le_of_lt_succ hlog)

theorem bucketOf_of_le (h : 2 ^ 32 ≤ m) : (bucketOf m : Nat) = 31 := by
  have hlog : 32 ≤ m.log2 := by
    rw [Nat.log2_eq_log_two]
    exact Nat.le_log_of_pow_le (by decide) h
  exact min_eq_right (Nat.le_of_succ_le hlog)

theorem lt_of_bucketOf (h : (bucketOf m : Nat) < 31) : m < 2 ^ ((bucketOf m : Nat) + 1) := by
  have hlt : m < 2 ^ 32 := by
    by_contra hge
    rw [bucketOf_of_le (Nat.le_of_not_lt hge)] at h
    exact absurd h (Nat.lt_irrefl 31)
  rw [bucketOf_of_lt hlt]
  exact Nat.lt_log2_self

theorem bucketOf_end (hpos : 0 < m) :
    (m < 2 ^ 32 → m < 2 ^ ((bucketOf m : Nat) + 1) ∧ 2 ^ ((bucketOf m : Nat) + 1) ≤ 2 * m) ∧
      (2 ^ 32 ≤ m → 2 ^ ((bucketOf m : Nat) + 1) = 2 ^ 32) := by
  constructor
  · intro h
    rw [bucketOf_of_lt h, Nat.pow_succ']
    exact ⟨Nat.pow_succ' ▸ Nat.lt_log2_self, Nat.mul_le_mul_left 2 (Nat.log2_self_le hpos.ne')⟩
  · intro h
    rw [bucketOf_of_le h]

def before (samples : List Nat) (index : Nat) : Nat :=
  samples.countP fun m => decide ((bucketOf m : Nat) < index)

def inBucket (samples : List Nat) (k : Fin 32) : Nat :=
  samples.countP fun m => decide (bucketOf m = k)

theorem before_zero (samples : List Nat) : before samples 0 = 0 :=
  List.countP_eq_zero.mpr fun _ _ => by simp

theorem before_succ (samples : List Nat) (k : Fin 32) :
    before samples (k + 1) = before samples k + inBucket samples k := by
  induction samples with
  | nil => rfl
  | cons m samples ih =>
    simp only [before, inBucket, List.countP_cons, decide_eq_true_eq] at ih ⊢
    rw [ih]
    have hiff : bucketOf m = k ↔ (bucketOf m : Nat) = k := Fin.ext_iff
    split_ifs <;> omega

theorem before_mono (samples : List Nat) (h : m ≤ n) : before samples m ≤ before samples n :=
  List.countP_mono_left fun _ _ hz => decide_eq_true ((of_decide_eq_true hz).trans_le h)

theorem before_le_length (samples : List Nat) : before samples n ≤ samples.length :=
  List.countP_le_length

end Buckets

section Quantile

variable {metric : LatencyMetric} {samples : List Nat} {percentile : Nat} {b : Fin 32}

theorem scan_iterate (hcount : metric.count = samples.length) (hpos : samples ≠ [])
    (hbuckets : ∀ k, metric.buckets k = inBucket samples k) (hfew : samples.length < 2 ^ 64)
    (hbefore : before samples b < target samples.length percentile)
    (index : Nat) (hle : index ≤ b) :
    (Scan.step metric percentile)^[index + 1] .begun = .scanning samples.length index
    (before samples index) := by
  induction index with
  | zero =>
    rw [Function.iterate_one, Scan.step, hcount,
      if_neg (fun h => hpos (List.length_eq_zero_iff.mp h)), before_zero]
  | succ index ih =>
    have hlt : index < 32 := by omega
    rw [Function.iterate_succ_apply', ih (Nat.le_of_succ_le hle), Scan.step, dif_pos hlt, hbuckets,
      ← before_succ samples ⟨index, hlt⟩]
    have hseen := (before_mono samples hle).trans_lt hbefore
    have hlength := before_le_length samples (n := index + 1)
    have hmin : min (before samples (index + 1)) (2 ^ 64 - 1) = before samples (index + 1) := by
      omega
    simp only [hmin]
    exact if_neg (Nat.not_le.mpr hseen)

theorem quantile_eq (hcount : metric.count = samples.length) (hpos : samples ≠ [])
    (hbuckets : ∀ k, metric.buckets k = inBucket samples k) (hfew : samples.length < 2 ^ 64)
    (hbefore : before samples b < target samples.length percentile)
    (hthrough : target samples.length percentile ≤ before samples (b + 1)) :
    metric.quantile percentile = 2 ^ ((b : Nat) + 1) := by
  have hscan := scan_iterate hcount hpos hbuckets hfew hbefore b le_rfl
  have hfound : (Scan.step metric percentile)^[(b : Nat) + 2] .begun =
      .finished samples.length (2 ^ ((b : Nat) + 1)) := by
    rw [Function.iterate_succ_apply', hscan, Scan.step,
      dif_pos b.isLt, hbuckets, ← before_succ samples b]
    have hlength := before_le_length samples (n := (b : Nat) + 1)
    have hmin : min (before samples (b + 1)) (2 ^ 64 - 1) = before samples (b + 1) := by omega
    simp only [hmin]
    exact if_pos hthrough
  have hsplit : 34 = (32 - (b : Nat)) + (b + 2) := by omega
  rw [LatencyMetric.quantile, hsplit, Function.iterate_add_apply,
    hfound, Function.iterate_fixed rfl]
  rfl

end Quantile

def Event.sample : Event → Option Nat
  | .recorded micros => some micros
  | .updated _ _ | .read => none

def Event.passes (update : Update) : Event → Option Nat
  | .updated u micros => if u = update then some micros else none
  | .recorded _ | .read => none

def samples (events : List Event) : List Nat := events.filterMap Event.sample

/-- The samples that have made an update. -/
def passed (update : Update) (events : List Event) : List Nat :=
  events.filterMap (Event.passes update)

def Recorder.awaits (update : Update) (recorder : Recorder) : Option Nat :=
  match recorder.next with
  | some u => if u.position ≤ update.position then some recorder.micros else none
  | none => none

def waiting (update : Update) (recorders : List Recorder) : List Nat :=
  recorders.filterMap (Recorder.awaits update)

theorem awaits_next (recorder : Recorder) {update : Update}
    (hnext : recorder.next = some update) (u : Update) :
    if u = update then
      recorder.awaits u = some recorder.micros ∧
      Recorder.awaits u { recorder with next := update.next } = none
    else Recorder.awaits u { recorder with next := update.next } = recorder.awaits u := by
  rw [Recorder.awaits, Recorder.awaits, hnext]
  cases u <;> cases update <;> simp [Update.position, Update.next]

def Scan.Sees (percentile : Nat) (binned : List Nat) : Scan → Prop
  | .begun => True
  | .scanning _ index seen => index ≤ 32 ∧ seen ≤ before binned index
  | .finished count result => count = 0 ∧ result = 0 ∨ result = 2 ^ 64 - 1 ∨
      ∃ k : Fin 32, result = 2 ^ ((k : Nat) + 1) ∧ target count percentile ≤ before binned (k + 1)

theorem before_append (binned more : List Nat) (index : Nat) :
    before binned index ≤ before (binned ++ more) index := by
  rw [before, before, List.countP_append]
  exact Nat.le_add_right _ _

section Scan

variable {percentile : Nat} {binned : List Nat} {scan : Scan}

theorem Scan.Sees.append (h : scan.Sees percentile binned) (more : List Nat) :
    scan.Sees percentile (binned ++ more) := by
  cases scan with
  | begun => trivial
  | scanning _ index seen => exact ⟨h.1, h.2.trans (before_append _ _ _)⟩
  | finished count result =>
    obtain h | h | ⟨k, hresult, htarget⟩ := h
    · exact .inl h
    · exact .inr (.inl h)
    · exact .inr (.inr ⟨k, hresult, htarget.trans (before_append _ _ _)⟩)

theorem Scan.Sees.step (h : scan.Sees percentile binned) {metric : LatencyMetric}
    (hbuckets : ∀ k, metric.buckets k ≤ inBucket binned k) :
    (scan.step metric percentile).Sees percentile binned := by
  cases scan with
  | begun =>
    rw [Scan.step]
    split_ifs
    · exact .inl ⟨rfl, rfl⟩
    · exact ⟨Nat.zero_le 32, Nat.zero_le _⟩
  | scanning count index seen =>
    rw [Scan.step]
    split_ifs with hindex
    · have hmore : min (seen + metric.buckets ⟨index, hindex⟩)
        (2 ^ 64 - 1) ≤ before binned (index + 1) := by
        rw [before_succ binned ⟨index, hindex⟩]
        exact (Nat.min_le_left _ _).trans (Nat.add_le_add h.2 (hbuckets _))
      dsimp only
      split_ifs with htarget
      · exact .inr (.inr ⟨⟨index, hindex⟩, rfl, htarget.trans hmore⟩)
      · exact ⟨hindex, hmore⟩
    · exact .inr (.inl rfl)
  | finished count result => exact h

end Scan

structure Kept (events : List Event) (s : State) : Prop where
  account : ∀ update, (samples events).Perm (passed update events ++ waiting update s.recorders)
  positive : ∀ m ∈ samples events, 0 < m
  count : s.metric.count = (passed .count events).length % 2 ^ 64
  total : s.metric.totalMicros = (passed .totalMicros events).foldl (· + ·) 0 % 2 ^ 64
  maximum : s.metric.maxMicros = (passed .maxMicros events).foldl max 0
  buckets : ∀ k, s.metric.buckets k = inBucket (passed .bucket events) k % 2 ^ 64
  sees : ∀ reader ∈ s.readers, reader.scan.Sees reader.percentile (passed .bucket events)

section Kept

variable {events : List Event} {s : State}

theorem passed_snoc (update : Update) (events : List Event) (e : Event) :
    passed update (events ++ [e]) = passed update events ++ (e.passes update).toList := by
  rw [passed, passed, List.filterMap_append]
  cases h : e.passes update <;> simp [h]

theorem samples_snoc (events : List Event) (e : Event) :
    samples (events ++ [e]) = samples events ++ e.sample.toList := by
  rw [samples, samples, List.filterMap_append]
  cases h : e.sample <;> simp [h]

theorem Kept.record (hk : Kept events s) (duration : Nat) :
    Kept (events ++ [.recorded (recordedMicros duration)])
      { s with recorders := s.recorders ++ [⟨recordedMicros duration, some .count⟩] } := by
  have hpassed (update : Update) : passed update (events ++ [.recorded (recordedMicros duration)]) =
      passed update events := by
    rw [passed_snoc, Event.passes, Option.toList_none, List.append_nil]
  have hsamples : samples (events ++ [.recorded (recordedMicros duration)]) =
      samples events ++ [recordedMicros duration] := samples_snoc _ _
  refine ⟨fun update => ?_, ?_, ?_, ?_, ?_, ?_, ?_⟩
  · have hwaiting : waiting update (s.recorders ++ [⟨recordedMicros duration, some .count⟩]) =
        waiting update s.recorders ++ [recordedMicros duration] := by
      rw [waiting, List.filterMap_append]
      rfl
    rw [hpassed, hsamples, hwaiting, ← List.append_assoc]
    exact (hk.account update).append_right _
  · intro m hm
    rw [hsamples] at hm
    obtain hm | hm := List.mem_append.mp hm
    · exact hk.positive m hm
    · rw [List.mem_singleton.mp hm]
      exact Nat.lt_of_lt_of_le Nat.one_pos (Nat.le_max_right _ 1)
  all_goals simp only [hpassed]
  · exact hk.count
  · exact hk.total
  · exact hk.maximum
  · exact hk.buckets
  · exact hk.sees

theorem waiting_update {i : Nat} {recorder : Recorder} (hrecorder : s.recorders[i]? = some recorder)
    {update : Update} (hnext : recorder.next = some update) (u : Update) :
    (passed u (events ++ [.updated update recorder.micros]) ++
      waiting u (s.recorders.set i { recorder with next := update.next })).Perm
      (passed u events ++ waiting u s.recorders) := by
  have hset :=
    List.filterMap_set_perm (Recorder.awaits u) hrecorder { recorder with next := update.next }
  have hawaits := awaits_next recorder hnext u
  rw [passed_snoc, Event.passes, List.append_assoc]
  refine List.Perm.append_left _ ?_
  split_ifs at hawaits with hu
  · rw [hawaits.1, hawaits.2] at hset
    rw [if_pos hu.symm]
    exact hset
  · rw [hawaits] at hset
    rw [if_neg (Ne.symm hu)]
    exact (List.perm_append_left_iff _).mp hset

theorem Kept.update (hk : Kept events s) {i : Nat} {recorder : Recorder} {update : Update}
    (hrecorder : s.recorders[i]? = some recorder) (hnext : recorder.next = some update) :
    Kept (events ++ [.updated update recorder.micros])
      { s with
        metric := update.apply s.metric recorder.micros
        recorders := s.recorders.set i { recorder with next := update.next } } := by
  have hsamples : samples (events ++ [.updated update recorder.micros]) = samples events := by
    rw [samples_snoc, Event.sample, Option.toList_none, List.append_nil]
  have hpassed (u : Update) := passed_snoc u events (.updated update recorder.micros)
  refine ⟨fun u => ?_, ?_, ?_, ?_, ?_, ?_, ?_⟩
  · rw [hsamples]
    exact (hk.account u).trans (waiting_update hrecorder hnext u).symm
  · rw [hsamples]
    exact hk.positive
  · rw [hpassed]
    cases update with
    | count => simp [Update.apply, Event.passes, hk.count]
    | totalMicros => simpa [Update.apply, Event.passes] using hk.count
    | maxMicros => simpa [Update.apply, Event.passes] using hk.count
    | bucket => simpa [Update.apply, Event.passes] using hk.count
  · rw [hpassed]
    cases update with
    | count => simpa [Update.apply, Event.passes] using hk.total
    | totalMicros => simp [Update.apply, Event.passes, hk.total]
    | maxMicros => simpa [Update.apply, Event.passes] using hk.total
    | bucket => simpa [Update.apply, Event.passes] using hk.total
  · rw [hpassed]
    cases update with
    | count => simpa [Update.apply, Event.passes] using hk.maximum
    | totalMicros => simpa [Update.apply, Event.passes] using hk.maximum
    | maxMicros => simp [Update.apply, Event.passes, hk.maximum]
    | bucket => simpa [Update.apply, Event.passes] using hk.maximum
  · intro k
    rw [hpassed]
    cases update with
    | count => simpa [Update.apply, Event.passes] using hk.buckets k
    | totalMicros => simpa [Update.apply, Event.passes] using hk.buckets k
    | maxMicros => simpa [Update.apply, Event.passes] using hk.buckets k
    | bucket =>
      have hold := hk.buckets k
      rw [Event.passes, if_pos rfl, Option.toList_some, inBucket, List.countP_append, ← inBucket]
      simp only [Update.apply, hold, List.countP_singleton, decide_eq_true_eq]
      by_cases hk' : k = bucketOf recorder.micros
      · rw [if_pos hk', if_pos hk'.symm, Nat.mod_add_mod]
      · rw [if_neg hk', if_neg (Ne.symm hk'), Nat.add_zero]
  · intro reader hreader
    rw [hpassed]
    exact (hk.sees reader hreader).append _

theorem Kept.read (hk : Kept events s) {readers : List Reader}
    (hreaders : ∀ reader ∈ readers, reader.scan.Sees reader.percentile (passed .bucket events)) :
    Kept (events ++ [.read]) { s with readers := readers } := by
  have hsamples : samples (events ++ [.read]) = samples events := by
    rw [samples_snoc, Event.sample, Option.toList_none, List.append_nil]
  have hpassed (u : Update) : passed u (events ++ [.read]) = passed u events := by
    rw [passed_snoc, Event.passes, Option.toList_none, List.append_nil]
  refine ⟨fun u => ?_, ?_, ?_, ?_, ?_, ?_, ?_⟩
  all_goals simp only [hsamples, hpassed]
  · exact hk.account u
  · exact hk.positive
  · exact hk.count
  · exact hk.total
  · exact hk.maximum
  · exact hk.buckets
  · exact hreaders

theorem Kept.bucket_le (hk : Kept events s) (k : Fin 32) :
    s.metric.buckets k ≤ inBucket (passed .bucket events) k :=
  hk.buckets k ▸ Nat.mod_le _ _

theorem kept_step {s' : State} {e : Event} (hk : Kept events s) (h : Step s e s') :
    Kept (events ++ [e]) s' := by
  cases h with
  | record duration => exact hk.record duration
  | update hrecorder hnext => exact hk.update hrecorder hnext
  | quantile percentile =>
    refine hk.read fun reader hreader => ?_
    obtain hreader | hreader := List.mem_append.mp hreader
    · exact hk.sees reader hreader
    · rw [List.mem_singleton.mp hreader]
      trivial
  | load hreader hscan =>
    refine hk.read fun reader hmem => ?_
    obtain hmem | rfl := List.mem_or_eq_of_mem_set hmem
    · exact hk.sees reader hmem
    · exact (hk.sees _ (List.mem_of_getElem? hreader)).step hk.bucket_le

theorem kept_of_run (h : recording.Run events s) : Kept events s := by
  refine h.invariant Kept ?_ fun _ _ _ _ hk hs => kept_step hk hs
  rintro s rfl
  refine ⟨fun _ => .refl _, ?_, rfl, rfl, rfl, fun _ => rfl, ?_⟩
  · intro m hm
    cases hm
  · intro reader hreader
    cases hreader

end Kept

theorem before_bucketOf {samples : List Nat} {x : Nat}
    {place : Nat} (h : List.IsRank place x samples) :
    before samples (bucketOf x) < place ∧ place ≤ before samples (bucketOf x + 1) := by
  have hclass := h.monotone bucketOf_mono
  rw [List.IsRank, List.countP_map, List.countP_map] at hclass
  refine ⟨hclass.1, hclass.2.trans (List.countP_mono_left fun m _ hm => ?_)⟩
  exact decide_eq_true (Nat.lt_succ_of_le (of_decide_eq_true hm))

section Quiescent

variable {events : List Event} {s : State}

/-- When no call of `record` is open, every sample has made every update. -/
theorem Kept.passed_perm (hk : Kept events s)
    (hidle : ∀ recorder ∈ s.recorders, recorder.next = none)
    (update : Update) : (samples events).Perm (passed update events) := by
  have hwaiting : waiting update s.recorders = [] := by
    refine List.filterMap_eq_nil_iff.mpr fun recorder hrecorder => ?_
    rw [Recorder.awaits, hidle recorder hrecorder]
  have haccount := hk.account update
  rwa [hwaiting, List.append_nil] at haccount

theorem Kept.quantile (hk : Kept events s) (hidle : ∀ recorder ∈ s.recorders, recorder.next = none)
    {percentile : Nat} (hpos : 0 < percentile) (hle : percentile ≤ 100)
    (hsome : samples events ≠ [])
    (hfew : (samples events).length * percentile < 2 ^ 64) :
    ∃ x ∈ samples events, List.IsRank (target (samples events).length percentile) x
      (samples events) ∧
      s.metric.quantile percentile = 2 ^ ((bucketOf x : Nat) + 1) := by
  have hlength : 0 < (samples events).length := List.length_pos_iff.mpr hsome
  have hlt : (samples events).length < 2 ^ 64 := (Nat.le_mul_of_pos_right _ hpos).trans_lt hfew
  have hproduct : (samples events).length * percentile ≤ (samples events).length * 100 :=
    Nat.mul_le_mul_left _ hle
  have hproductpos : 0 < (samples events).length * percentile := Nat.mul_pos hlength hpos
  have htarget : target
    (samples events).length percentile = ((samples events).length * percentile + 99) / 100 := by
    rw [target, Nat.min_eq_left (by omega)]
  obtain ⟨x, hx, hrank⟩ := List.exists_isRank (l := samples events)
    (r := target (samples events).length percentile) (by omega) (by omega)
  obtain ⟨hbefore, hthrough⟩ := before_bucketOf hrank
  refine ⟨x, hx, hrank, quantile_eq ?_ hsome ?_ hlt hbefore hthrough⟩
  · rw [hk.count, ← (hk.passed_perm hidle .count).length_eq, Nat.mod_eq_of_lt hlt]
  · intro k
    have hbinned : inBucket (passed .bucket events) k = inBucket (samples events) k :=
      ((hk.passed_perm hidle .bucket).countP_eq _).symm
    rw [hk.buckets, hbinned]
    exact Nat.mod_eq_of_lt (List.countP_le_length.trans_lt hlt)

end Quiescent

/-- A metric tells its samples: exactly when no call of `record` is open, and
a quantile is above as many samples as it should be at any time. -/
theorem latencies_reported {events : List Event} {s : State} (h : recording.Run events s) :
    ((∀ recorder ∈ s.recorders, recorder.next = none) →
      s.metric.count = (samples events).length % 2 ^ 64 ∧
        s.metric.totalMicros = (samples events).foldl (· + ·) 0 % 2 ^ 64 ∧
        s.metric.maxMicros = (samples events).foldl max 0 ∧
        ∀ percentile, 0 < percentile → percentile ≤ 100 → samples events ≠ [] →
          (samples events).length * percentile < 2 ^ 64 →
          ∃ x ∈ samples events,
            List.IsRank (((samples events).length * percentile + 99) / 100) x (samples events) ∧
              (x < 2 ^ 32 → x < s.metric.quantile percentile ∧
                s.metric.quantile percentile ≤ 2 * x) ∧
              (2 ^ 32 ≤ x → s.metric.quantile percentile = 2 ^ 32)) ∧
      ∀ reader ∈ s.readers, ∀ count result, reader.scan = .finished count result →
        count = 0 ∧ result = 0 ∨ result = 2 ^ 64 - 1 ∨ result = 2 ^ 32 ∨
          result < 2 ^ 32 ∧
            target count reader.percentile ≤ (passed .bucket events).countP fun m =>
            decide (m < result) := by
  have hk := kept_of_run h
  refine ⟨fun hidle => ⟨?_, ?_, ?_, ?_⟩, ?_⟩
  · rw [hk.count, (hk.passed_perm hidle .count).length_eq]
  · rw [hk.total, (hk.passed_perm hidle .totalMicros).foldl_eq]
  · rw [hk.maximum, (hk.passed_perm hidle .maxMicros).foldl_eq]
  · intro percentile hpos hle hsome hfew
    obtain ⟨x, hx, hrank, hquantile⟩ := hk.quantile hidle hpos hle hsome hfew
    have hbounds := bucketOf_end (hk.positive x hx)
    rw [target, Nat.min_eq_left (by omega)] at hrank
    exact ⟨x, hx, hrank, hquantile ▸ hbounds⟩
  · intro reader hreader count result hscan
    have hsees := hk.sees reader hreader
    rw [hscan] at hsees
    obtain hzero | hmax | ⟨k, hresult, htarget⟩ := hsees
    · exact .inl hzero
    · exact .inr (.inl hmax)
    · have hk32 := k.isLt
      by_cases hlast : (k : Nat) = 31
      · exact .inr (.inr (.inl (by rw [hresult, hlast])))
      · refine .inr (.inr (.inr ⟨?_, htarget.trans (List.countP_mono_left fun m _ hm => ?_)⟩))
        · rw [hresult]
          exact Nat.pow_lt_pow_right (by decide) (by omega)
        · have hbucket : (bucketOf m : Nat) ≤ k := Nat.le_of_lt_succ (of_decide_eq_true hm)
          refine decide_eq_true ((lt_of_bucketOf (by omega)).trans_le ?_)
          rw [hresult]
          exact Nat.pow_le_pow_right (by decide) (by omega)

/-- Two calls of `record` that overlap, and a quantile that is read when only one
of them is binned. -/
def racing : List Event :=
  [.recorded 100, .recorded 400, .updated .count 100,
    .updated .count 400, .updated .totalMicros 100,
    .updated .maxMicros 100, .updated .bucket 100,
    .read, .read, .read, .read, .read, .read, .read, .read, .read,
    .updated .totalMicros 400, .updated .maxMicros 400, .updated .bucket 400]

theorem racing_run : ∃ s, recording.Run racing s ∧
    (∀ recorder ∈ s.recorders, recorder.next = none) ∧
    ⟨50, .finished 2 128⟩ ∈ s.readers := by
  have hcalled := ((System.Run.start (S := recording) rfl).next (.record 100)).next (.record 400)
  have hcounted := (hcalled.next (.update (i := 0) rfl rfl)).next (.update (i := 1) rfl rfl)
  have hadded := (hcounted.next (.update (i := 0) rfl rfl)).next (.update (i := 0) rfl rfl)
  have hbinned := (hadded.next (.update (i := 0) rfl rfl)).next (.quantile 50)
  have hbegun := hbinned.next (.load (i := 0) rfl rfl)
  have hscanned := (hbegun.next (.load (i := 0) rfl rfl)).next (.load (i := 0) rfl rfl)
  have hscanned := (hscanned.next (.load (i := 0) rfl rfl)).next (.load (i := 0) rfl rfl)
  have hscanned := (hscanned.next (.load (i := 0) rfl rfl)).next (.load (i := 0) rfl rfl)
  have hread := hscanned.next (.load (i := 0) rfl rfl)
  have hadded := (hread.next (.update (i := 1) rfl rfl)).next (.update (i := 1) rfl rfl)
  have hdone := hadded.next (.update (i := 1) rfl rfl)
  refine ⟨_, hdone, ?_, ?_⟩
  · intro recorder hrecorder
    obtain rfl | hrecorder := List.mem_cons.mp hrecorder
    · rfl
    · obtain rfl := List.mem_singleton.mp hrecorder
      rfl
  · exact List.mem_singleton.mpr rfl

theorem latencies_reported_racing :
    ∃ s, recording.Run racing s ∧ s.metric.count = 2 ∧ s.metric.totalMicros = 500 ∧
    s.metric.maxMicros = 400 ∧
    (∃ x ∈ samples racing, List.IsRank 2 x (samples racing) ∧
      (x < 2 ^ 32 → x < s.metric.quantile 99)) ∧
    target 2 50 ≤ (passed .bucket racing).countP fun m => decide (m < 128) := by
  obtain ⟨s, hrun, hidle, hreader⟩ := racing_run
  obtain ⟨hquiescent, hreads⟩ := latencies_reported hrun
  obtain ⟨hcount, htotal, hmax, hquantiles⟩ := hquiescent hidle
  obtain ⟨x, hx, hrank, hbounds, -⟩ := hquantiles 99 (by decide) (by decide) (by decide) (by decide)
  refine ⟨s, hrun, hcount, htotal, hmax, ⟨x, hx, hrank, fun hlt => (hbounds hlt).1⟩, ?_⟩
  obtain ⟨hzero, -⟩ | hlast | hlast | ⟨-, htarget⟩ := hreads _ hreader 2 128 rfl
  · cases hzero
  · cases hlast
  · cases hlast
  · exact htarget

end LeptosWasi.Latency
