import Mathlib.Data.List.Induction
import LeptosWasi.ContentLengthPolicy
import LeptosWasi.Request

namespace LeptosWasi.BodyCollection

open Http Policy ContentLengthPolicy Request

section Streaks

variable {α : Type} [DecidableEq α]

def trailing (x : α) (xs : List α) : Nat := (xs.reverse.takeWhile (· = x)).length

theorem trailing_concat (x y : α) (xs : List α) :
    trailing x (xs ++ [y]) = if y = x then trailing x xs + 1 else 0 := by
  rw [trailing, List.reverse_append, List.reverse_singleton,
    List.singleton_append, List.takeWhile_cons]
  by_cases h : y = x
  · simp [h, trailing]
  · simp [h]

theorem replicate_suffix_iff (x : α) (k : Nat) (xs : List α) :
    List.replicate k x <:+ xs ↔ k ≤ trailing x xs := by
  induction k generalizing xs with
  | zero => simp
  | succ k ih =>
    obtain rfl | ⟨xs, y, rfl⟩ := List.eq_nil_or_concat' xs
    · simp [trailing]
    · have hlast : ∀ t, List.replicate (k + 1) x = t ++ [y] ↔ t = List.replicate k x ∧ y = x := by
        intro t
        rw [List.replicate_succ']
        constructor
        · intro h
          obtain ⟨ht, hy⟩ := List.append_inj' h rfl
          exact ⟨ht.symm, (List.head_eq_of_cons_eq hy).symm⟩
        · rintro ⟨rfl, rfl⟩
          rfl
      rw [trailing_concat, List.suffix_concat_iff]
      simp only [hlast, and_assoc, exists_eq_left, ih]
      split_ifs with h <;> simp [h]

theorem replicate_infix_concat_iff (x y : α) (k : Nat) (xs : List α) :
    List.replicate (k + 1) x <:+: xs ++ [y] ↔
      List.replicate (k + 1) x <:+: xs ∨ y = x ∧ k ≤ trailing x xs := by
  rw [List.infix_concat_iff, replicate_suffix_iff, trailing_concat, or_comm]
  refine or_congr_right ?_
  split_ifs with h <;> simp [h]

end Streaks

def readBytes : StreamRead → Bytes
  | .data bytes => bytes
  | .closed | .lastOperationFailed => []

def received (past : List Iteration) : Bytes := past.flatMap fun host => readBytes host.read

/-- What the loop can observe of the timer in an iteration: it asks before
the read, and polls after an empty one. -/
def TimerObserved (host : Iteration) : Prop :=
  host.expired ∨ host.read = .data [] ∧ host.polledTimer

def Nourished (iterations : List Iteration) : Prop :=
  ¬ List.replicate emptyBodyReadCap (.data []) <:+: iterations.map Iteration.read

/-- Iterations after which nothing has decided how the body ends. -/
structure Undecided (maxBodySize : Nat) (timeoutNs : Option Nat)
    (past : List Iteration) : Prop where
  reading : ∀ host ∈ past, ∃ bytes, host.read = .data bytes
  quiet : timeoutNs.isSome → ∀ host ∈ past, ¬ TimerObserved host
  nourished : timeoutNs.isSome → Nourished past
  within : (received past).length ≤ maxBodySize

inductive Ending (maxBodySize : Nat) (timeoutNs : Option Nat)
    (past : List Iteration) (host : Iteration) :
    Except RequestError Bytes → Prop
  | timeout {nanoseconds : Nat} (htimer : timeoutNs = some nanoseconds)
      (hready : host.expired ∨ host.read = .data [] ∧
        host.polledTimer ∧ Nourished (past ++ [host])) :
      Ending maxBodySize timeoutNs past host (.error (.bodyReadTimeout nanoseconds))
  | starved (htimer : timeoutNs.isSome) (hready : ¬ host.expired)
      (hstreak : ¬ Nourished (past ++ [host])) :
      Ending maxBodySize timeoutNs past host (.error .bodyStreamUnavailable)
  | closed (hquiet : timeoutNs.isSome → ¬ TimerObserved host) (hread : host.read = .closed) :
      Ending maxBodySize timeoutNs past host (.ok (received past))
  | failed (hquiet : timeoutNs.isSome → ¬ TimerObserved host)
      (hread : host.read = .lastOperationFailed) :
      Ending maxBodySize timeoutNs past host (.error .wasiIo)
  | tooLarge (hquiet : timeoutNs.isSome → ¬ TimerObserved host) {bytes : Bytes}
      (hread : host.read = .data bytes)
      (hover : maxBodySize < (received past).length + bytes.length) :
      Ending maxBodySize timeoutNs past host (.error (.bodyTooLarge maxBodySize))

def stateAfter (timeoutNs : Option Nat) (past : List Iteration) : ReadState where
  body := received past
  consecutiveEmpty :=
    if timeoutNs.isSome then trailing (.data []) (past.map Iteration.read) else 0

theorem received_concat (past : List Iteration) (host : Iteration) :
    received (past ++ [host]) = received past ++ readBytes host.read := by
  rw [received, List.flatMap_append, List.flatMap_singleton]
  rfl

theorem nourished_concat_iff (past : List Iteration) (host : Iteration) :
    Nourished (past ++ [host]) ↔
      Nourished past ∧
        (host.read = .data [] →
          trailing (.data []) (past.map Iteration.read) + 1 < emptyBodyReadCap) := by
  rw [Nourished, Nourished, List.map_append, List.map_singleton, emptyBodyReadCap,
    replicate_infix_concat_iff _ _ 63, not_or, not_and]
  refine and_congr_right fun _ => imp_congr_right fun _ => ?_
  omega

theorem undecided_nil (maxBodySize : Nat) (timeoutNs : Option Nat) :
    Undecided maxBodySize timeoutNs [] :=
  ⟨by simp, by simp, fun _ => by simp [Nourished, emptyBodyReadCap], Nat.zero_le _⟩

section Steps

variable {maxBodySize : Nat} {timeoutNs : Option Nat} {past : List Iteration} {host : Iteration}

theorem Undecided.init {more : List Iteration}
    (h : Undecided maxBodySize timeoutNs (past ++ more)) :
    Undecided maxBodySize timeoutNs past := by
  refine ⟨fun x hx => h.reading x (List.mem_append_left _ hx),
    fun ht x hx => h.quiet ht x (List.mem_append_left _ hx), fun ht hstreak => ?_, ?_⟩
  · refine h.nourished ht (hstreak.trans ?_)
    rw [List.map_append]
    exact (List.prefix_append _ _).isInfix
  · have hwithin := h.within
    rw [received, List.flatMap_append, List.length_append] at hwithin
    exact Nat.le_of_add_right_le hwithin

theorem undecided_concat_iff :
    Undecided maxBodySize timeoutNs (past ++ [host]) ↔
      Undecided maxBodySize timeoutNs past ∧ ∃ bytes, host.read = .data bytes ∧
        (timeoutNs.isSome → ¬ TimerObserved host ∧ Nourished (past ++ [host])) ∧
        (received past).length + bytes.length ≤ maxBodySize := by
  constructor
  · intro h
    obtain ⟨bytes, hread⟩ := h.reading host (by simp)
    have hwithin := h.within
    rw [received_concat, hread, List.length_append] at hwithin
    exact ⟨h.init, bytes, hread, fun ht => ⟨h.quiet ht host (by simp), h.nourished ht⟩, hwithin⟩
  · rintro ⟨h, bytes, hread, hhost, hwithin⟩
    refine ⟨?_, fun ht => ?_, fun ht => (hhost ht).2, ?_⟩
    · rw [List.forall_mem_append, List.forall_mem_singleton]
      exact ⟨h.reading, bytes, hread⟩
    · rw [List.forall_mem_append, List.forall_mem_singleton]
      exact ⟨h.quiet ht, (hhost ht).1⟩
    · rw [received_concat, hread, List.length_append]
      exact hwithin

theorem readStep_after {bytes : Bytes} (hread : host.read = .data bytes)
    (hstreak : timeoutNs.isSome → bytes ≠ []) :
    readStep maxBodySize (stateAfter timeoutNs past) host.read =
      if maxBodySize < (received past).length + bytes.length then
        .done (.error (.bodyTooLarge maxBodySize))
      else .again (stateAfter timeoutNs (past ++ [host])) := by
  have hcount : (stateAfter timeoutNs (past ++ [host])).consecutiveEmpty = 0 := by
    rw [stateAfter]
    split_ifs with ht
    · have hne : host.read ≠ .data [] := by
        rw [hread, ne_eq, StreamRead.data.injEq]
        exact hstreak ht
      rw [List.map_append, List.map_singleton, trailing_concat, if_neg hne]
    · rfl
  have hafter : stateAfter timeoutNs (past ++ [host]) = ⟨received past ++ bytes, 0⟩ := by
    have hreceived : received (past ++ [host]) = received past ++ bytes := by
      rw [received_concat, hread]
      rfl
    rw [← hcount, ← hreceived]
    rfl
  rw [hread, readStep_data, hafter]
  rfl

theorem noteEmptyBodyRead_after (nanoseconds : Nat) (hpast : Nourished past)
    (hread : host.read = .data []) :
    (Nourished (past ++ [host]) ∧ noteEmptyBodyRead (stateAfter (some nanoseconds) past) =
      .ok (stateAfter (some nanoseconds) (past ++ [host]))) ∨
    (¬ Nourished (past ++ [host]) ∧ noteEmptyBodyRead (stateAfter (some nanoseconds) past) =
      .error .bodyStreamUnavailable) := by
  have hbody : received (past ++ [host]) = received past := by
    rw [received_concat, hread, readBytes, List.append_nil]
  rw [nourished_concat_iff, noteEmptyBodyRead]
  simp only [hpast, hread, true_and, true_imp_iff, stateAfter, Option.isSome_some, if_true, hbody,
    List.map_append, List.map_singleton, trailing_concat]
  by_cases hcount : emptyBodyReadCap ≤ trailing (.data []) (past.map Iteration.read) + 1
  · exact Or.inr ⟨Nat.not_lt.mpr hcount, if_pos hcount⟩
  · exact Or.inl ⟨Nat.lt_of_not_le hcount, if_neg hcount⟩

theorem readStep_decides (h : Undecided maxBodySize timeoutNs past)
    (hquiet : timeoutNs.isSome → ¬ TimerObserved host)
    (hstreak : timeoutNs.isSome → host.read ≠ .data []) :
    (Undecided maxBodySize timeoutNs (past ++ [host]) ∧
      readStep maxBodySize (stateAfter timeoutNs past) host.read =
        .again (stateAfter timeoutNs (past ++ [host]))) ∨
    ∃ r, Ending maxBodySize timeoutNs past host r ∧
      readStep maxBodySize (stateAfter timeoutNs past) host.read = .done r := by
  cases hread : host.read with
  | closed => exact Or.inr ⟨_, .closed hquiet hread, rfl⟩
  | lastOperationFailed => exact Or.inr ⟨_, .failed hquiet hread, rfl⟩
  | data bytes =>
    have hne : timeoutNs.isSome → bytes ≠ [] := fun ht he => hstreak ht (by rw [hread, he])
    rw [← hread, readStep_after hread hne]
    by_cases hover : maxBodySize < (received past).length + bytes.length
    · exact Or.inr ⟨_, .tooLarge hquiet hread hover, if_pos hover⟩
    · refine Or.inl ⟨undecided_concat_iff.mpr ⟨h, bytes, hread, fun ht => ⟨hquiet ht, ?_⟩,
        Nat.le_of_not_lt hover⟩, if_neg hover⟩
      exact (nourished_concat_iff past host).mpr ⟨h.nourished ht, fun he => absurd he (hstreak ht)⟩

/-- One iteration after undecided ones leaves the body undecided or ends it,
and the loop does the same. -/
theorem loopStep_after (h : Undecided maxBodySize timeoutNs past) (host : Iteration) :
    (Undecided maxBodySize timeoutNs (past ++ [host]) ∧
      loopStep maxBodySize timeoutNs (stateAfter timeoutNs past) host =
        .again (stateAfter timeoutNs (past ++ [host]))) ∨
    ∃ r, Ending maxBodySize timeoutNs past host r ∧
      loopStep maxBodySize timeoutNs (stateAfter timeoutNs past) host = .done r := by
  cases timeoutNs with
  | none => exact readStep_decides h (fun ht => by cases ht) (fun ht => by cases ht)
  | some nanoseconds =>
    rw [loopStep]
    by_cases hexpired : host.expired = true
    · exact Or.inr ⟨_, .timeout rfl (Or.inl hexpired), if_pos hexpired⟩
    rw [if_neg hexpired]
    by_cases hread : host.read = .data []
    · rw [if_pos hread]
      obtain ⟨hfed, hnote⟩ | ⟨hstarved, hnote⟩ :=
        noteEmptyBodyRead_after nanoseconds (h.nourished rfl) hread
      · rw [hnote]
        by_cases hpolled : host.polledTimer = true
        · exact Or.inr ⟨_, .timeout rfl (Or.inr ⟨hread, hpolled, hfed⟩), if_pos hpolled⟩
        · have hquiet : ¬ TimerObserved host := fun ho => ho.elim hexpired fun hp => hpolled hp.2
          refine Or.inl
            ⟨undecided_concat_iff.mpr ⟨h, [], hread, fun _ => ⟨hquiet, hfed⟩, h.within⟩, ?_⟩
          exact if_neg hpolled
      · rw [hnote]
        exact Or.inr ⟨_, .starved rfl hexpired hstarved, rfl⟩
    · rw [if_neg hread]
      exact readStep_decides h (fun _ ho => ho.elim hexpired fun hp => hread hp.1) fun _ => hread

theorem Ending.not_undecided {r : Except RequestError Bytes}
    (h : Ending maxBodySize timeoutNs past host r) :
    ¬ Undecided maxBodySize timeoutNs (past ++ [host]) := by
  intro hu
  obtain ⟨-, bytes, hread, hhost, hwithin⟩ := undecided_concat_iff.mp hu
  cases h with
  | timeout htimer hready =>
    exact (hhost (htimer ▸ rfl)).1 (hready.imp_right fun hp => ⟨hp.1, hp.2.1⟩)
  | starved htimer _ hstreak => exact hstreak (hhost htimer).2
  | closed _ hclosed =>
    rw [hread] at hclosed
    cases hclosed
  | failed _ hfailed =>
    rw [hread] at hfailed
    cases hfailed
  | tooLarge _ hdata hover =>
    obtain rfl := StreamRead.data.inj (hread.symm.trans hdata)
    omega

theorem loopStep_eq_readStep (s : ReadState) (hquiet : timeoutNs.isSome → ¬ TimerObserved host)
    (hstreak : timeoutNs.isSome → host.read ≠ .data []) :
    loopStep maxBodySize timeoutNs s host = readStep maxBodySize s host.read := by
  cases timeoutNs with
  | none => rfl
  | some nanoseconds =>
    have hexpired : ¬ host.expired := fun h => hquiet rfl (Or.inl h)
    rw [loopStep, if_neg hexpired, if_neg (hstreak rfl)]

theorem loopStep_of_ending (hpast : Undecided maxBodySize timeoutNs past)
    {r : Except RequestError Bytes}
    (h : Ending maxBodySize timeoutNs past host r) :
    loopStep maxBodySize timeoutNs (stateAfter timeoutNs past) host = .done r := by
  cases h with
  | timeout htimer hready =>
    subst htimer
    rw [loopStep]
    by_cases hexpired : host.expired = true
    · rw [if_pos hexpired]
    · obtain ⟨hread, hpolled, hfed⟩ := hready.resolve_left hexpired
      obtain ⟨-, hnote⟩ | ⟨hstarved, -⟩ := noteEmptyBodyRead_after _ (hpast.nourished rfl) hread
      · rw [if_neg hexpired, if_pos hread, hnote]
        exact if_pos hpolled
      · exact absurd hfed hstarved
  | starved htimer hexpired hstreak =>
    obtain ⟨nanoseconds, rfl⟩ := Option.isSome_iff_exists.mp htimer
    have hread : host.read = .data [] := by
      by_contra hne
      exact hstreak
        ((nourished_concat_iff past host).mpr ⟨hpast.nourished rfl, fun he => absurd he hne⟩)
    obtain ⟨hfed, -⟩ | ⟨-, hnote⟩ :=
      noteEmptyBodyRead_after nanoseconds (hpast.nourished rfl) hread
    · exact absurd hfed hstreak
    · rw [loopStep, if_neg hexpired, if_pos hread, hnote]
  | closed hquiet hread =>
    rw [loopStep_eq_readStep _ hquiet (fun _ => by simp [hread]), hread]
    rfl
  | failed hquiet hread =>
    rw [loopStep_eq_readStep _ hquiet (fun _ => by simp [hread]), hread]
    rfl
  | tooLarge hquiet hread hover =>
    rename_i bytes
    have hne : bytes ≠ [] := by
      rintro rfl
      exact absurd hpast.within (Nat.not_le_of_lt hover)
    have hstreak : timeoutNs.isSome → host.read ≠ .data [] := fun _ he =>
      hne (StreamRead.data.inj (hread.symm.trans he))
    rw [loopStep_eq_readStep _ hquiet hstreak, readStep_after hread fun _ => hne, if_pos hover]

end Steps

section Runs

variable {maxBodySize : Nat} {timeoutNs : Option Nat}

theorem loopStep_of_undecided {past : List Iteration} {host : Iteration}
    (h : Undecided maxBodySize timeoutNs (past ++ [host])) :
    loopStep maxBodySize timeoutNs (stateAfter timeoutNs past) host =
      .again (stateAfter timeoutNs (past ++ [host])) := by
  obtain ⟨-, hstep⟩ | ⟨r, hending, -⟩ := loopStep_after h.init host
  · exact hstep
  · exact absurd h hending.not_undecided

theorem readLoop_append {past : List Iteration} (h : Undecided maxBodySize timeoutNs past)
    (rest : List Iteration) :
    readLoop maxBodySize timeoutNs .initial (past ++ rest) =
      readLoop maxBodySize timeoutNs (stateAfter timeoutNs past) rest := by
  induction past using List.reverseRecOn generalizing rest with
  | nil => cases timeoutNs <;> rfl
  | append_singleton past host ih =>
    rw [List.append_assoc, ih h.init, List.singleton_append, readLoop, loopStep_of_undecided h]

theorem readLoop_after_iff {past : List Iteration} (h : Undecided maxBodySize timeoutNs past)
    (rest : List Iteration) (r : Except RequestError Bytes) :
    readLoop maxBodySize timeoutNs (stateAfter timeoutNs past) rest = some r ↔
      ∃ more host later, rest = more ++ host :: later ∧
        Undecided maxBodySize timeoutNs (past ++ more) ∧
        Ending maxBodySize timeoutNs (past ++ more) host r := by
  induction rest generalizing past with
  | nil =>
    refine iff_of_false (Option.some_ne_none r).symm ?_
    rintro ⟨more, host, later, hrest, -⟩
    exact List.append_ne_nil_of_right_ne_nil more (List.cons_ne_nil host later) hrest.symm
  | cons x rest ih =>
    rw [readLoop]
    obtain ⟨hgoes, hstep⟩ | ⟨r', hending, hstep⟩ := loopStep_after h x
    · rw [hstep]
      refine (ih hgoes).trans ⟨?_, ?_⟩
      · rintro ⟨more, host, later, hrest, hmore⟩
        refine ⟨x :: more, host, later, by rw [hrest, List.cons_append], ?_⟩
        rwa [List.append_cons]
      · rintro ⟨more, host, later, hrest, hundecided, hend⟩
        cases more with
        | nil =>
          obtain ⟨rfl, -⟩ := List.cons.inj hrest
          rw [List.append_nil] at hend
          exact absurd hgoes hend.not_undecided
        | cons y more =>
          obtain ⟨rfl, hmore⟩ := List.cons.inj hrest
          rw [List.append_cons] at hundecided hend
          exact ⟨more, host, later, hmore, hundecided, hend⟩
    · rw [hstep]
      constructor
      · intro hr
        obtain rfl := Option.some.inj hr
        exact ⟨[], x, rest, rfl, by rwa [List.append_nil], by rwa [List.append_nil]⟩
      · rintro ⟨more, host, later, hrest, hundecided, hend⟩
        cases more with
        | nil =>
          obtain ⟨rfl, -⟩ := List.cons.inj hrest
          rw [List.append_nil] at hend
          have hdone := (loopStep_of_ending h hend).symm.trans hstep
          exact congrArg some (LoopStep.done.inj hdone).symm
        | cons y more =>
          obtain ⟨rfl, -⟩ := List.cons.inj hrest
          rw [List.append_cons] at hundecided
          exact absurd hundecided.init hending.not_undecided

/-- The loop ends where the first iterations that are not undecided end it. -/
theorem readLoop_eq_some_iff (iterations : List Iteration) (r : Except RequestError Bytes) :
    readLoop maxBodySize timeoutNs .initial iterations = some r ↔
      ∃ past host later, iterations = past ++ host :: later ∧ Undecided maxBodySize timeoutNs past ∧
        Ending maxBodySize timeoutNs past host r := by
  have h := readLoop_after_iff (undecided_nil maxBodySize timeoutNs) iterations r
  rwa [← readLoop_append (undecided_nil maxBodySize timeoutNs)] at h

def collectReads (maxBodySize : Nat) : Bytes → List StreamRead → Option (Except RequestError Bytes)
  | _, [] => none
  | body, .closed :: _ => some (.ok body)
  | _, .lastOperationFailed :: _ => some (.error .wasiIo)
  | body, .data bytes :: rest =>
    if maxBodySize < body.length + bytes.length then some (.error (.bodyTooLarge maxBodySize))
    else collectReads maxBodySize (body ++ bytes) rest

theorem collectReads_filter (reads : List StreamRead)
    {body : Bytes} (hbody : body.length ≤ maxBodySize) :
    collectReads maxBodySize body
      (reads.filter (· ≠ .data [])) = collectReads maxBodySize body reads := by
  induction reads generalizing body with
  | nil => rfl
  | cons read reads ih =>
    cases read with
    | closed => rfl
    | lastOperationFailed => rfl
    | data bytes =>
      by_cases hempty : bytes = []
      · subst hempty
        rw [List.filter_cons_of_neg (by simp), ih hbody, collectReads, List.append_nil, if_neg]
        exact Nat.not_lt.mpr hbody
      · rw [List.filter_cons_of_pos (by simp [hempty]), collectReads, collectReads]
        split_ifs with hover
        · rfl
        · exact ih (by rw [List.length_append]; omega)

theorem readLoop_eq_collectReads {past : List Iteration} (h : Undecided maxBodySize timeoutNs past)
    (iterations : List Iteration) (hquiet : timeoutNs.isSome →
      ∀ host ∈ iterations, ¬ TimerObserved host)
    (hfed : timeoutNs.isSome → Nourished (past ++ iterations)) :
    readLoop maxBodySize timeoutNs (stateAfter timeoutNs past) iterations =
      collectReads maxBodySize (received past) (iterations.map Iteration.read) := by
  induction iterations generalizing past with
  | nil => rfl
  | cons host rest ih =>
    have hhost : timeoutNs.isSome → ¬ TimerObserved host := fun ht => hquiet ht host (by simp)
    rw [readLoop, List.map_cons]
    obtain ⟨hgoes, hstep⟩ | ⟨r, hending, hstep⟩ := loopStep_after h host
    · obtain ⟨-, bytes, hread, -, hwithin⟩ := undecided_concat_iff.mp hgoes
      rw [hstep, hread, collectReads, if_neg (Nat.not_lt.mpr hwithin)]
      simp only
      rw [ih hgoes (fun ht x hx => hquiet ht x (List.mem_cons_of_mem _ hx))
        (fun ht => by rw [← List.append_cons]; exact hfed ht), received_concat, hread]
      rfl
    · rw [hstep]
      cases hending with
      | timeout htimer hready =>
        exact absurd (hready.imp_right fun hp => ⟨hp.1, hp.2.1⟩) (hhost (htimer ▸ rfl))
      | starved htimer _ hstreak =>
        refine absurd (fun hin => hfed htimer (hin.trans ?_)) hstreak
        have hlead : past ++ [host] <+: past ++ host :: rest :=
          ⟨rest, (List.append_cons _ _ _).symm⟩
        exact (List.IsPrefix.map _ hlead).isInfix
      | closed _ hread => rw [hread, collectReads]
      | failed _ hread => rw [hread, collectReads]
      | tooLarge _ hread hover => rw [hread, collectReads, if_pos hover]

def loopStates (maxBodySize : Nat) (timeoutNs : Option Nat) :
    ReadState → List Iteration → List ReadState
  | s, [] => [s]
  | s, host :: rest =>
    s :: match loopStep maxBodySize timeoutNs s host with
      | .done _ => []
      | .again s => loopStates maxBodySize timeoutNs s rest

theorem loopStates_after {past : List Iteration} (h : Undecided maxBodySize timeoutNs past)
    (iterations : List Iteration) :
    ∀ s ∈ loopStates maxBodySize timeoutNs (stateAfter timeoutNs past) iterations,
      s.body.length ≤ maxBodySize := by
  induction iterations generalizing past with
  | nil =>
    rw [loopStates, List.forall_mem_singleton]
    exact h.within
  | cons host rest ih =>
    rw [loopStates, List.forall_mem_cons]
    refine ⟨h.within, ?_⟩
    obtain ⟨hgoes, hstep⟩ | ⟨r, -, hstep⟩ := loopStep_after h host
    · rw [hstep]
      exact ih hgoes
    · rw [hstep]
      simp

end Runs

/-- The length that the headers declare, if any. -/
def DeclaredAs (headers : HeaderMap) : Option Nat → Prop
  | none => headers.getAll .contentLength = []
  | some d => Declares headers d

/-- The stream closes, and nothing before that ends the collection. -/
def ClosesWith (maxBodySize : Nat) (timeoutNs : Option Nat)
    (iterations : List Iteration) (b : Bytes) : Prop :=
  ∃ past host later, iterations = past ++ host :: later ∧ Undecided maxBodySize timeoutNs past ∧
    (timeoutNs.isSome → ¬ TimerObserved host) ∧ host.read = .closed ∧ b = received past

/-- A chunk takes the running total over the limit, and nothing before that
ends the collection. -/
def Overflows (maxBodySize : Nat) (timeoutNs : Option Nat) (iterations : List Iteration) : Prop :=
  ∃ past host later bytes, iterations = past ++ host :: later ∧
    Undecided maxBodySize timeoutNs past ∧
    (timeoutNs.isSome → ¬ TimerObserved host) ∧ host.read = .data bytes ∧
    maxBodySize < (received past).length + bytes.length

theorem readLoop_ok_iff (maxBodySize : Nat) (timeoutNs : Option Nat)
    (iterations : List Iteration) (b : Bytes) :
    readLoop maxBodySize timeoutNs .initial iterations = some (.ok b) ↔
      ClosesWith maxBodySize timeoutNs iterations b := by
  rw [readLoop_eq_some_iff]
  constructor
  · rintro ⟨past, host, later, hits, hpast, hending⟩
    cases hending with
    | closed hquiet hread => exact ⟨past, host, later, hits, hpast, hquiet, hread, rfl⟩
  · rintro ⟨past, host, later, hits, hpast, hquiet, hread, rfl⟩
    exact ⟨past, host, later, hits, hpast, .closed hquiet hread⟩

theorem readLoop_tooLarge_iff (maxBodySize : Nat)
    (timeoutNs : Option Nat) (iterations : List Iteration) :
    readLoop maxBodySize timeoutNs .initial iterations = some (.error (.bodyTooLarge maxBodySize)) ↔
      Overflows maxBodySize timeoutNs iterations := by
  rw [readLoop_eq_some_iff]
  constructor
  · rintro ⟨past, host, later, hits, hpast, hending⟩
    cases hending with
    | tooLarge hquiet hread hover => exact ⟨past, host, later, _, hits, hpast, hquiet, hread, hover⟩
  · rintro ⟨past, host, later, bytes, hits, hpast, hquiet, hread, hover⟩
    exact ⟨past, host, later, hits, hpast, .tooLarge hquiet hread hover⟩

section Collection

variable {method : Method} {headers : HeaderMap} {maxBodySize : Nat}

theorem validateContentLength_declared {declared : Option Nat}
    (hdeclared : DeclaredAs headers declared)
    (hmax : maxBodySize < 2 ^ usizeBits) :
    validateContentLength headers maxBodySize =
      if declared.any (maxBodySize < ·) then .error (.bodyTooLarge maxBodySize)
        else .ok declared := by
  cases declared with
  | none => exact (validateContentLengthFor_none_iff hmax).mpr hdeclared
  | some d =>
    rw [Option.any_some]
    by_cases hover : maxBodySize < d
    · rw [decide_eq_true hover, if_pos rfl]
      exact (validateContentLengthFor_tooLarge_iff hmax maxBodySize).mpr ⟨rfl, d, hdeclared, hover⟩
    · rw [decide_eq_false hover, if_neg Bool.false_ne_true]
      exact (validateContentLengthFor_some_iff hmax d).mpr ⟨hdeclared, Nat.le_of_not_lt hover⟩

theorem declaredLengthMatches_iff (declared : Option Nat) (actual : Nat) :
    declaredLengthMatches declared actual = true ↔ ∀ d ∈ declared, actual = d := by
  cases declared with
  | none => simp [declaredLengthMatches]
  | some d =>
    rw [declaredLengthMatches, Option.all_some, decide_eq_true_eq, eq_comm]
    simp

theorem checkDeclared_ok_iff (declared : Option Nat)
    (collected : Except RequestError Bytes) (b : Bytes) :
    checkDeclared declared collected = .ok b ↔ collected = .ok b ∧
    ∀ d ∈ declared, b.length = d := by
  cases collected with
  | error e => exact iff_of_false error_ne_ok fun h => error_ne_ok h.1
  | ok body =>
    simp only [checkDeclared, bind, Except.bind, declaredLengthMatches_iff]
    split_ifs with hmatch
    · refine ⟨fun h => ?_, And.left⟩
      obtain rfl := Except.ok.inj h
      exact ⟨rfl, hmatch⟩
    · refine iff_of_false not_false ?_
      rintro ⟨hb, hd⟩
      apply hmatch
      rwa [Except.ok.inj hb]

theorem checkDeclared_tooLarge_iff (declared : Option Nat) (collected : Except RequestError Bytes)
    (limit : Nat) : checkDeclared declared collected = .error (.bodyTooLarge limit) ↔
      collected = .error (.bodyTooLarge limit) := by
  cases collected with
  | error e => rfl
  | ok body =>
    refine iff_of_false (fun h => ?_) fun h => nomatch h
    simp only [checkDeclared, bind, Except.bind] at h
    split_ifs at h <;> cases h

theorem collectWasiBody_opened (hget : method ≠ .get)
    (hhead : method ≠ .head) {declared : Option Nat}
    (hvalid : validateContentLength headers maxBodySize = .ok declared) (body : IncomingBody)
    (timeoutNs : Option Nat) :
    collectWasiBody method headers body maxBodySize timeoutNs =
      if !body.consumable then some (.error .bodyAlreadyConsumed)
      else if !body.streamable then some (.error .bodyStreamUnavailable)
      else (readLoop maxBodySize timeoutNs .initial body.iterations).map
        (checkDeclared declared) := by
  simp only [collectWasiBody, hvalid, hget, hhead, or_self, if_false]

theorem collectWasiBody_ok_iff (hget : method ≠ .get)
    (hhead : method ≠ .head) {declared : Option Nat}
    (hdeclared : DeclaredAs headers declared) (hmax : maxBodySize < 2 ^ usizeBits)
    (timeoutNs : Option Nat)
    (body : IncomingBody) (b : Bytes) :
    collectWasiBody method headers body maxBodySize timeoutNs = some (.ok b) ↔
      (body.consumable ∧ body.streamable) ∧ ClosesWith maxBodySize timeoutNs body.iterations b ∧
        b.length ≤ maxBodySize ∧ ∀ d ∈ declared, b.length = d := by
  have hwithin : ClosesWith maxBodySize timeoutNs body.iterations b → b.length ≤ maxBodySize := by
    rintro ⟨past, -, -, -, hpast, -, -, rfl⟩
    exact hpast.within
  have hvalid := validateContentLength_declared hdeclared hmax
  split_ifs at hvalid with hover
  · refine iff_of_false (fun h => ?_) fun ⟨_, _, hb, hd⟩ => ?_
    · simp only [collectWasiBody, hvalid] at h
      cases h
    · obtain ⟨d, hdmem, hlt⟩ := (Option.any_eq_true _ _).mp hover
      have hlength : b.length = d := hd d hdmem
      have hlt : maxBodySize < d := of_decide_eq_true hlt
      omega
  · rw [collectWasiBody_opened hget hhead hvalid]
    cases body.consumable with
    | false => simp
    | true =>
      cases body.streamable with
      | false => simp
      | true =>
        simp only [Bool.not_true, Bool.false_eq_true,
          if_false, Option.map_eq_some_iff, checkDeclared_ok_iff,
          and_self, true_and]
        constructor
        · rintro ⟨r, hloop, rfl, hd⟩
          have hcloses := (readLoop_ok_iff maxBodySize timeoutNs body.iterations b).mp hloop
          exact ⟨hcloses, hwithin hcloses, hd⟩
        · rintro ⟨hcloses, -, hd⟩
          exact ⟨.ok b, (readLoop_ok_iff maxBodySize timeoutNs body.iterations b).mpr hcloses,
            rfl, hd⟩

theorem collectWasiBody_tooLarge_iff (hget : method ≠ .get)
    (hhead : method ≠ .head) {declared : Option Nat}
    (hdeclared : DeclaredAs headers declared) (hmax : maxBodySize < 2 ^ usizeBits)
    (timeoutNs : Option Nat)
    (body : IncomingBody) :
    collectWasiBody method headers body maxBodySize timeoutNs = some
      (.error (.bodyTooLarge maxBodySize)) ↔
      (body.consumable ∧ body.streamable) ∧ (∀ d ∈ declared, d ≤ maxBodySize) ∧
        Overflows maxBodySize timeoutNs body.iterations := by
  have hvalid := validateContentLength_declared hdeclared hmax
  split_ifs at hvalid with hover
  · refine iff_of_false (fun h => ?_) fun ⟨_, hd, _⟩ => ?_
    · simp only [collectWasiBody, hvalid] at h
      cases h
    · obtain ⟨d, hdmem, hlt⟩ := (Option.any_eq_true _ _).mp hover
      exact absurd (of_decide_eq_true hlt) (Nat.not_lt.mpr (hd d hdmem))
  · have hle : ∀ d ∈ declared, d ≤ maxBodySize := by
      intro d hd
      by_contra hlt
      exact hover ((Option.any_eq_true _ _).mpr ⟨d, hd, decide_eq_true (Nat.lt_of_not_le hlt)⟩)
    rw [collectWasiBody_opened hget hhead hvalid, ← readLoop_tooLarge_iff]
    cases body.consumable with
    | false => simp
    | true =>
      cases body.streamable with
      | false => simp
      | true =>
        simp only [Bool.not_true, Bool.false_eq_true, if_false, Option.map_eq_some_iff,
          checkDeclared_tooLarge_iff, and_self, true_and, exists_eq_right]
        exact ⟨fun h => ⟨hle, h⟩, fun h => h.2⟩

def chunksAndEnding (iterations : List Iteration) : List StreamRead :=
  (iterations.map Iteration.read).filter (· ≠ .data [])

theorem collectWasiBody_budget {declared : Option Nat}
    (hget : method ≠ .get) (hhead : method ≠ .head)
    (hvalid : validateContentLength headers maxBodySize = .ok declared) (nanoseconds : Nat)
    (timed plain : IncomingBody) (hconsumable : timed.consumable = plain.consumable)
    (hstreamable : timed.streamable = plain.streamable)
    (hquiet : ∀ host ∈ timed.iterations, ¬ TimerObserved host) (hfed : Nourished timed.iterations)
    (hsame : chunksAndEnding timed.iterations = chunksAndEnding plain.iterations) :
    collectWasiBody method headers timed maxBodySize (some nanoseconds) =
      collectWasiBody method headers plain maxBodySize none := by
  have hbudget :=
    readLoop_eq_collectReads (undecided_nil maxBodySize (some nanoseconds)) timed.iterations
    (fun _ => hquiet) fun _ => hfed
  have hblocking := readLoop_eq_collectReads (undecided_nil maxBodySize none) plain.iterations
    (fun h => by cases h) fun h => by cases h
  rw [← readLoop_append (undecided_nil maxBodySize _), List.nil_append,
    ← collectReads_filter _ (undecided_nil maxBodySize (some nanoseconds)).within] at hbudget
  rw [← readLoop_append (undecided_nil maxBodySize _), List.nil_append,
    ← collectReads_filter _ (undecided_nil maxBodySize none).within] at hblocking
  rw [collectWasiBody_opened hget hhead hvalid, collectWasiBody_opened hget hhead hvalid,
    hconsumable,
    hstreamable, hbudget, hblocking]
  rw [chunksAndEnding, chunksAndEnding] at hsame
  rw [hsame]

/-- Preview 2 body collection is exact, stays within its limit, and is the
same with a budget that never expires. -/
theorem collect_wasi_body_exact (hget : method ≠ .get)
    (hhead : method ≠ .head) {declared : Option Nat}
    (hdeclared : DeclaredAs headers declared) (hmax : maxBodySize < 2 ^ usizeBits)
    (timeoutNs : Option Nat)
    (body : IncomingBody) :
    (∀ b, collectWasiBody method headers body maxBodySize timeoutNs = some (.ok b) ↔
      (body.consumable ∧ body.streamable) ∧ ClosesWith maxBodySize timeoutNs body.iterations b ∧
        b.length ≤ maxBodySize ∧ ∀ d ∈ declared, b.length = d) ∧
    (collectWasiBody method headers body maxBodySize timeoutNs = some
      (.error (.bodyTooLarge maxBodySize)) ↔
      (body.consumable ∧ body.streamable) ∧ (∀ d ∈ declared, d ≤ maxBodySize) ∧
        Overflows maxBodySize timeoutNs body.iterations) ∧
    (∀ d ∈ declared, maxBodySize < d → collectWasiBody method headers body maxBodySize timeoutNs =
      some (.error (.policy (.bodyTooLarge maxBodySize)))) ∧
    (∀ s ∈ loopStates maxBodySize timeoutNs .initial body.iterations, s.body.length ≤ maxBodySize) ∧
    (∀ nanoseconds, timeoutNs = some nanoseconds → ∀ plain : IncomingBody,
      body.consumable = plain.consumable → body.streamable = plain.streamable →
      (∀ host ∈ body.iterations, ¬ TimerObserved host) → Nourished body.iterations →
      chunksAndEnding body.iterations = chunksAndEnding plain.iterations →
      collectWasiBody method headers body maxBodySize timeoutNs =
        collectWasiBody method headers plain maxBodySize none) := by
  refine ⟨collectWasiBody_ok_iff hget hhead hdeclared hmax timeoutNs body,
    collectWasiBody_tooLarge_iff hget hhead hdeclared hmax timeoutNs body,
    fun d hd hlt => ?_, ?_, ?_⟩
  · have hvalid := validateContentLength_declared hdeclared hmax
    rw [if_pos ((Option.any_eq_true _ _).mpr ⟨d, hd, decide_eq_true hlt⟩)] at hvalid
    simp only [collectWasiBody, hvalid]
  · have hstates := loopStates_after (undecided_nil maxBodySize timeoutNs) body.iterations
    cases timeoutNs <;> exact hstates
  · rintro nanoseconds rfl plain hconsumable hstreamable hquiet hfed hsame
    cases hvalid : validateContentLength headers maxBodySize with
    | error e => simp only [collectWasiBody, hvalid]
    | ok declared =>
      exact collectWasiBody_budget hget hhead hvalid nanoseconds body plain
        hconsumable hstreamable hquiet hfed hsame

end Collection

def declaredTwo : HeaderMap := (∅ : HeaderMap).insert .contentLength (text "2")

/-- A body of two bytes that arrive one after the other, as a host with a
timer reports it. -/
def trickled : IncomingBody :=
  ⟨true, true, [⟨false, .data [], false⟩, ⟨false, .data [97], false⟩, ⟨false, .data [98], true⟩,
    ⟨false, .closed, false⟩]⟩

theorem collect_wasi_body_exact_trickled :
    ClosesWith 16 (some 1000) trickled.iterations [97, 98] ∧
      collectWasiBody .post declaredTwo trickled 16 (some 1000) =
        collectWasiBody .post declaredTwo ⟨true, true, trickled.iterations.tail⟩ 16 none := by
  have hitems : lengthItems declaredTwo = [text "2"] := by decide +kernel
  have hdeclared : DeclaredAs declaredTwo (some 2) := by
    refine (declares_iff_items declaredTwo 2).mpr ⟨by rw [hitems]; simp, ?_⟩
    rw [hitems, List.forall_mem_singleton]
    exact ⟨by decide +kernel, by decide +kernel, by decide +kernel, by decide⟩
  obtain ⟨hok, -, -, -, hbudget⟩ := collect_wasi_body_exact (by decide : Method.post ≠ .get)
    (by decide : Method.post ≠ .head) hdeclared (by decide : 16 < 2 ^ usizeBits)
    (some 1000) trickled
  refine ⟨((hok [97, 98]).mp (by decide +kernel)).2.1,
    hbudget 1000 rfl _ rfl rfl ?_ ?_ (by decide +kernel)⟩
  · simp [trickled, TimerObserved]
  · rw [Nourished]
    decide +kernel

end LeptosWasi.BodyCollection
