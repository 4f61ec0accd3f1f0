import LeptosWasi.PollableInvariant
import LeptosWasi.RunUntil

namespace LeptosWasi.RunUntilInvariant

open Pollables PollableInvariant Executor RunUntil RunUntil.Machine

variable {Q P W T : Type}

def Live (w : World P W) (handle : Nat) : Prop := ∃ inner, w.polls[handle]? = some (some inner)

/-- The invariant of a queue whose registrations may all be lost. -/
abbrev Intact (w : World P W) : Prop := Consistent (fun _ => True) w

/-- A change of a world that creates no future and brings none back. -/
structure Operates (w w' : World P W) : Prop where
  intact : Intact w → Intact w'
  length : w'.polls.length = w.polls.length
  live : ∀ handle, Live w' handle → Live w handle

section Worlds

variable {w w' w'' : World P W}

theorem Operates.refl (w : World P W) : Operates w w := ⟨id, rfl, fun _ => id⟩

theorem Operates.trans (h : Operates w w') (h' : Operates w' w'') : Operates w w'' :=
  ⟨h'.intact ∘ h.intact, h'.length.trans h.length, fun handle => h.live handle ∘ h'.live handle⟩

theorem dropWait_polls (w : World P W) (handle : Nat) :
    (w.dropWait true handle).polls = w.polls.set handle none := by
  rw [World.dropWait]
  split
  · dsimp only
    split <;> rfl
  · rfl

theorem live_dropWait {handle handle' : Nat} :
    Live (w.dropWait true handle) handle' ↔ handle ≠ handle' ∧ Live w handle' := by
  rw [Live, dropWait_polls, List.getElem?_set, Live]
  by_cases hsame : handle = handle'
  · subst hsame
    by_cases hlt : handle < w.polls.length <;> simp [hlt]
  · simp [hsame]

theorem operates_dropWait (w : World P W) (handle : Nat) : Operates w (w.dropWait true handle) where
  intact h := h.dropWait handle
  length := by rw [dropWait_polls, List.length_set]
  live _ h := (live_dropWait.mp h).2

theorem pollWait_polls (willWake : W → W → Bool) (w : World P W) (handle : Nat) (waker : W) :
    (w.pollWait willWake true handle waker).1.polls = w.polls ∨
      Live w handle ∧ ∃ inner, (w.pollWait willWake true handle waker).1.polls = w.polls.set handle
        (some inner) := by
  rw [World.pollWait]
  cases hj : w.polls[handle]?.join with
  | none => exact Or.inl rfl
  | some inner =>
    cases inner with
    | unregistered pollable =>
      refine Or.inr ⟨⟨_, Option.join_eq_some_iff.mp hj⟩, ?_⟩
      cases hr : w.register pollable waker with
      | ok result =>
        obtain ⟨-, -, hw⟩ := register_ok hr
        simp only [hr, hw]
        exact ⟨_, rfl⟩
      | error error =>
        simp only [hr]
        exact ⟨_, rfl⟩
    | registered r => exact Or.inl rfl
    | failed error => exact Or.inl rfl

theorem operates_pollWait (willWake : W → W → Bool) (w : World P W) (handle : Nat) (waker : W) :
    Operates w (w.pollWait willWake true handle waker).1 := by
  have hintact : Intact w → Intact (w.pollWait willWake true handle waker).1 :=
    fun h => h.pollStep (pollWait_step w willWake true handle waker)
  obtain hpolls | ⟨hlive, inner, hpolls⟩ := pollWait_polls willWake w handle waker
  · refine ⟨hintact, by rw [hpolls], fun handle' h => ?_⟩
    rwa [Live, hpolls] at h
  · refine ⟨hintact, by rw [hpolls, List.length_set], fun handle' h => ?_⟩
    rw [Live, hpolls, List.getElem?_set] at h
    by_cases hsame : handle = handle'
    · exact hsame ▸ hlive
    · rwa [if_neg hsame] at h

theorem operates_settled (hw : Intact w) {flagged : List (TableEntry P × Bool)}
    (hf : Flags w flagged)
    {entries : List (TableEntry P)} (hkept : List.Sublist entries (kept flagged)) :
    Operates w (settled w flagged entries) :=
  ⟨fun _ => (hw.settled hf hkept).mono fun _ _ => trivial, rfl, fun _ => id⟩

theorem operates_dispatchReady (hw : Intact w) (ready : List Nat) :
    Operates w (w.dispatchReady ready).1 := by
  obtain ⟨flagged, hf, heq, -⟩ := dispatchReady_settles hw ready
  rw [heq]
  exact operates_settled hw hf (List.Sublist.refl _)

theorem operates_sweepReady (hw : Intact w) (ready : P → Bool) :
    Operates w (w.sweepReady ready).1 := by
  obtain ⟨flagged, hf, heq, -⟩ := sweepReady_settles hw ready
  rw [heq]
  exact operates_settled hw hf (List.Sublist.refl _)

theorem operates_abandon (hw : Intact w) (ready : P → Bool) :
    Operates w (w.abandonLeftoverPollables ready).1 := by
  rw [abandon_settles hw]
  apply operates_settled hw _ (List.nil_sublist _)
  simp [Flags, Function.comp_def]

def dropAll (w : World P W) (handles : List Nat) : World P W := handles.foldl (·.dropWait true ·) w

theorem operates_dropAll (w : World P W) (handles : List Nat) : Operates w (dropAll w handles) := by
  induction handles generalizing w with
  | nil => exact .refl w
  | cons handle handles ih => exact (operates_dropWait w handle).trans (ih _)

theorem live_dropAll {handles : List Nat} {handle : Nat} (h : Live (dropAll w handles) handle) :
    handle ∉ handles := by
  induction handles generalizing w with
  | nil => exact List.not_mem_nil
  | cons first handles ih =>
    rw [List.mem_cons, not_or]
    refine ⟨?_, ih h⟩
    have hlive := (operates_dropAll (w.dropWait true first) handles).live handle h
    exact (live_dropWait.mp hlive).1.symm

end Worlds

section Tasks

variable {e e' e'' : ExecutorInner P W T}

structure Ages (e e' : ExecutorInner P W T) : Prop where
  aborted : e'.aborted = e.aborted
  status : ∀ task status, e.tasks[task]? = some status → ∃ status', e'.tasks[task]? = some status' ∧
    (status = .completed ↔ status' = .completed) ∧
    (task ∈ e.aborted → status = .runnable → status' = .runnable)

theorem Ages.of_tasks (haborted : e'.aborted = e.aborted)
    (htasks : e'.tasks = e.tasks) : Ages e e' :=
  ⟨haborted, fun task status h => ⟨status, by rw [htasks, h], Iff.rfl, fun _ => id⟩⟩

theorem Ages.refl (e : ExecutorInner P W T) : Ages e e := .of_tasks rfl rfl

theorem Ages.trans (h : Ages e e') (h' : Ages e' e'') : Ages e e'' where
  aborted := h'.aborted.trans h.aborted
  status task status hs := by
    obtain ⟨status', hs', hends, hruns⟩ := h.status task status hs
    obtain ⟨status'', hs'', hends', hruns'⟩ := h'.status task status' hs'
    refine ⟨status'', hs'', hends.trans hends', fun ha hr => ?_⟩
    exact hruns' (h.aborted ▸ ha) (hruns ha hr)

theorem ages_wake (e : ExecutorInner P W T) (task : Nat) : Ages e (e.wake task) := by
  refine ⟨rfl, fun task' status h => ?_⟩
  rw [ExecutorInner.wake]
  simp only [List.getElem?_modify, h]
  by_cases hsame : task = task'
  · cases status <;> simp [hsame]
  · cases status <;> simp [hsame]

theorem ages_wakeAll (wk : Wakers W) (e : ExecutorInner P W T) (wakers : List W) :
    Ages e (e.wakeAll wk wakers) := by
  rw [ExecutorInner.wakeAll]
  induction wakers.flatMap wk.tasks generalizing e with
  | nil => exact .refl e
  | cons task tasks ih => exact (ages_wake e task).trans (ih _)

theorem ages_append {tasks : List Task} (haborted : e'.aborted = e.aborted)
    (htasks : e'.tasks = e.tasks ++ tasks) : Ages e e' := by
  refine ⟨haborted, fun task status h => ⟨status, ?_, Iff.rfl, fun _ => id⟩⟩
  rw [htasks, List.getElem?_append_left (List.getElem?_eq_some_iff.mp h).1, h]

end Tasks

def Completed (m : Machine Q P W T) (task : Nat) : Prop := m.executor.tasks[task]? = some .completed

/-- A future that no task will poll: its task was aborted or has ended. -/
def Gone (m : Machine Q P W T) (task : Nat) : Prop := task ∈ m.executor.aborted ∨ Completed m task

structure Retires (m m' : Machine Q P W T) : Prop where
  aborted : ∀ task ∈ m.executor.aborted, task ∈ m'.executor.aborted
  completed : ∀ task, Completed m task → Completed m' task

/-- The invariant of a thread: its current queue is the process queue if there
is one, a future that waits is held by a task that has not ended, and an
aborted task has ended or can run. -/
structure Sound (process : Q) (m : Machine Q P W T) : Prop where
  intact : Intact m.world
  current : m.current = none ∨ m.current = some process
  aligned : m.holders.length = m.world.polls.length
  held : ∀ handle task, Live m.world handle → m.holders[handle]? = some (.task task) → m.Alive task
  aborted : ∀ task ∈ m.executor.aborted, m.executor.Runnable task ∨ Completed m task

section Machine

variable {process : Q} {m m' : Machine Q P W T}

theorem Retires.refl (m : Machine Q P W T) : Retires m m := ⟨fun _ => id, fun _ => id⟩

theorem Retires.trans {m'' : Machine Q P W T} (h : Retires m m') (h' : Retires m' m'') :
    Retires m m'' :=
  ⟨fun task => h'.aborted task ∘ h.aborted task, fun task => h'.completed task ∘ h.completed task⟩

theorem Retires.gone (h : Retires m m') {task : Nat} (hg : Gone m task) : Gone m' task :=
  hg.imp (h.aborted task) (h.completed task)

theorem Ages.alive (h : Ages m.executor m'.executor) {task : Nat} (ha : m.Alive task) :
    m'.Alive task := by
  obtain ⟨status, hs, hne⟩ := ha
  obtain ⟨status', hs', hends, -⟩ := h.status task status hs
  exact ⟨status', hs', fun he => hne (hends.mpr he)⟩

theorem Ages.length_le (h : Ages m.executor m'.executor) :
    m.executor.tasks.length ≤ m'.executor.tasks.length := by
  by_contra hlt
  obtain ⟨status, hs, -⟩ := h.status _ _ (List.getElem?_eq_getElem (Nat.lt_of_not_le hlt))
  exact absurd (List.getElem?_eq_some_iff.mp hs).1 (Nat.lt_irrefl _)

theorem Ages.retires (h : Ages m.executor m'.executor) : Retires m m' := by
  refine ⟨fun task ha => h.aborted ▸ ha, fun task hc => ?_⟩
  obtain ⟨status', hs', hends, -⟩ := h.status task .completed hc
  rw [Completed, hs', hends.mp rfl]

theorem Ages.settled (h : Ages m.executor m'.executor) {task : Nat} (ha : task ∈ m.executor.aborted)
    (hs : m.executor.Runnable task ∨ Completed m task) :
    m'.executor.Runnable task ∨ Completed m' task := by
  obtain hr | hc := hs
  · obtain ⟨status', hs', -, hruns⟩ := h.status task .runnable hr
    left
    rw [ExecutorInner.Runnable, hs', hruns ha rfl]
  · obtain ⟨status', hs', hends, -⟩ := h.status task .completed hc
    right
    rw [Completed, hs', hends.mp rfl]

theorem Sound.of_parts (h : Sound process m) (hworld : Operates m.world m'.world)
    (hcurrent : m'.current = none ∨ m'.current = some process) (hholders : m'.holders = m.holders)
    (hages : Ages m.executor m'.executor) : Sound process m' where
  intact := hworld.intact h.intact
  current := hcurrent
  aligned := by rw [hholders, hworld.length]; exact h.aligned
  held handle task hl hh := hages.alive (h.held handle task (hworld.live handle hl) (hholders ▸ hh))
  aborted task ha := by
    rw [hages.aborted] at ha
    exact hages.settled ha (h.aborted task ha)

theorem Sound.setWorld (h : Sound process m) {w : World P W} (hworld : Operates m.world w) :
    Sound process (m.setWorld w) :=
  h.of_parts hworld h.current rfl (.of_tasks rfl rfl)

theorem Sound.assign (h : Sound process m) (handles : List Nat) {holder : Holder}
    (halive : ∀ task, holder = .task task → m.Alive task) :
    Sound process (m.assign handles holder) := by
  refine ⟨h.intact, h.current, ?_, ?_, h.aborted⟩
  · rw [Machine.assign, List.length_mapIdx]
    exact h.aligned
  · intro handle task hl hh
    simp only [Machine.assign, List.getElem?_mapIdx, Option.map_eq_some_iff] at hh
    obtain ⟨old, hold, heq⟩ := hh
    split_ifs at heq with hmem
    · exact halive task heq
    · exact h.held handle task hl (heq ▸ hold)

theorem Sound.wait (h : Sound process m) (pollable : P) {actor : Holder}
    (halive : ∀ task, actor = .task task → m.Alive task) :
    Sound process { m.setWorld (m.world.newWaitPoll pollable) with
      holders := m.holders ++ [actor] } := by
  refine ⟨h.intact.newWaitPoll pollable, h.current, ?_, ?_, h.aborted⟩
  · change (m.holders ++ [actor]).length = (m.world.polls ++ [_]).length
    rw [List.length_append, List.length_append, h.aligned]
    rfl
  · intro handle task hl hh
    dsimp only at hh
    obtain hlt | hge := Nat.lt_or_ge handle m.holders.length
    · rw [List.getElem?_append_left hlt] at hh
      obtain ⟨inner, hinner⟩ := hl
      change (m.world.polls ++ [_])[handle]? = _ at hinner
      rw [List.getElem?_append_left (h.aligned ▸ hlt)] at hinner
      exact h.held handle task ⟨inner, hinner⟩ hh
    · rw [List.getElem?_append_right hge] at hh
      obtain hlast := (List.getElem?_eq_some_iff.mp hh).2
      rw [List.getElem_singleton] at hlast
      exact halive task hlast

theorem mem_held {holder : Holder} {handle : Nat} :
    handle ∈ m.held holder ↔ m.holders[handle]? = some holder := by
  rw [Machine.held, List.mem_filter, List.mem_range, decide_eq_true_iff]
  exact and_iff_right_of_imp fun h => (List.getElem?_eq_some_iff.mp h).1

theorem enter_alive (m : Machine Q P W T) (handles : List Nat) :
    (m.enter handles).Alive m.executor.tasks.length :=
  ⟨.runnable, List.getElem?_concat_length, by decide⟩

theorem Sound.enter (h : Sound process m) (handles : List Nat) :
    Sound process (m.enter handles) := by
  have hspawned : Sound process
    { m with executor := { m.executor with tasks := m.executor.tasks ++ [.runnable] } } :=
    h.of_parts (.refl _) h.current rfl (ages_append rfl rfl)
  apply hspawned.assign handles
  intro task heq
  obtain rfl := Holder.task.inj heq
  exact enter_alive m handles

theorem abort_alive (m : Machine Q P W T) (root : Nat) {task : Nat} (ha : m.Alive task) :
    (m.abort root).Alive task := by
  obtain ⟨status, hs, hends⟩ := ha
  obtain ⟨status', hs', hsame, -⟩ :=
    (ages_wake { m.executor with aborted := [] } root).status task status hs
  exact ⟨status', hs', fun he => hends (hsame.mpr he)⟩

theorem abort_retires (m : Machine Q P W T) (root : Nat) : Retires m (m.abort root) := by
  refine ⟨fun task ha => List.mem_cons_of_mem root ha, fun task hc => ?_⟩
  obtain ⟨status', hs', hsame, -⟩ :=
    (ages_wake { m.executor with aborted := [] } root).status task .completed hc
  exact hs'.trans (congrArg some (hsame.mp rfl))

theorem Sound.abort (h : Sound process m) {root : Nat} (hroot : root < m.executor.tasks.length) :
    Sound process (m.abort root) := by
  refine ⟨h.intact, h.current, h.aligned, ?_, ?_⟩
  · intro handle task hl hh
    exact abort_alive m root (h.held handle task hl hh)
  · intro task ha
    change (m.executor.tasks.modify root _)[task]? = _ ∨ (m.executor.tasks.modify root _)[task]? = _
    rw [List.getElem?_modify]
    by_cases hsame : root = task
    · subst hsame
      rw [List.getElem?_eq_getElem hroot]
      cases m.executor.tasks[root] <;> simp
    · obtain heq | ha := List.mem_cons.mp ha
      · exact absurd heq.symm hsame
      · have hold := h.aborted task ha
        rw [ExecutorInner.Runnable, Completed] at hold
        simpa [hsame] using hold

section Queue

variable [DecidableEq Q]

theorem onQueue_eq (hcurrent : m.current = none ∨ m.current = some process)
    (f : World P W → World P W) :
    m.onQueue process f = m.setWorld (f m.world) := by
  have hqueue : m.pollableQueue process = process := by
    rw [pollableQueue]
    obtain h | h := hcurrent <;> rw [h] <;> rfl
  rw [onQueue]
  exact if_pos hqueue

theorem dropHeld_eq (hcurrent : m.current = none ∨ m.current = some process) (holder : Holder) :
    m.dropHeld process holder = m.setWorld (dropAll m.world (m.held holder)) := by
  have hfold : ∀ (handles : List Nat) (m : Machine Q P W T),
    (m.current = none ∨ m.current = some process) →
      handles.foldl (fun m handle => m.onQueue process (·.dropWait true handle)) m =
        m.setWorld (dropAll m.world handles) := by
    intro handles
    induction handles with
    | nil => exact fun m _ => rfl
    | cons handle handles ih =>
      intro m hm
      rw [List.foldl_cons, onQueue_eq hm]
      exact ih (m.setWorld (m.world.dropWait true handle)) hm
  exact hfold (m.held holder) m hcurrent

theorem Sound.dropHeld (h : Sound process m) (holder : Holder) :
    Sound process (m.dropHeld process holder) := by
  rw [dropHeld_eq h.current]
  exact h.setWorld (operates_dropAll _ _)

theorem complete_parts (hcurrent : m.current = none ∨ m.current = some process) (task : Nat) :
    (m.complete process task).executor.tasks = m.executor.tasks.set task .completed ∧
      (m.complete process task).executor.aborted = m.executor.aborted ∧
      (m.complete process task).world = dropAll m.world (m.held (.task task)) ∧
      (m.complete process task).current = m.current ∧
      (m.complete process task).holders = m.holders := by
  rw [Machine.complete, dropHeld_eq hcurrent]
  exact ⟨rfl, rfl, rfl, rfl, rfl⟩

theorem Sound.complete (h : Sound process m) (task : Nat) :
    Sound process (m.complete process task) := by
  obtain ⟨htasks, haborted, hworld, hcurrent, hholders⟩ := complete_parts h.current task
  have hops := operates_dropAll m.world (m.held (.task task))
  refine ⟨?_, ?_, ?_, ?_, ?_⟩
  · rw [hworld]
    exact hops.intact h.intact
  · rw [hcurrent]
    exact h.current
  · rw [hholders, hworld, hops.length]
    exact h.aligned
  · intro handle task' hl hh
    rw [hworld] at hl
    rw [hholders] at hh
    have hne : task ≠ task' := by
      rintro rfl
      exact live_dropAll hl (mem_held.mpr hh)
    obtain ⟨status, hs, hends⟩ := h.held handle task' (hops.live handle hl) hh
    exact ⟨status, by rw [htasks, List.getElem?_set_ne hne, hs], hends⟩
  · intro task' ha
    rw [haborted] at ha
    rw [ExecutorInner.Runnable, Completed, htasks]
    by_cases hsame : task = task'
    · subst hsame
      have hlt : task < m.executor.tasks.length := by
        obtain hr | hc := h.aborted task ha
        · exact (List.getElem?_eq_some_iff.mp hr).1
        · exact (List.getElem?_eq_some_iff.mp hc).1
      exact Or.inr (List.getElem?_set_self hlt)
    · rw [List.getElem?_set_ne hsame]
      exact h.aborted task' ha

theorem complete_retires (hcurrent : m.current = none ∨ m.current = some process) (task : Nat) :
    Retires m (m.complete process task) := by
  obtain ⟨htasks, haborted, -⟩ := complete_parts hcurrent task
  refine ⟨fun task' ha => haborted ▸ ha, fun task' hc => ?_⟩
  rw [Completed, htasks]
  by_cases hsame : task = task'
  · subst hsame
    exact List.getElem?_set_self (List.getElem?_eq_some_iff.mp hc).1
  · exact (List.getElem?_set_ne hsame).trans hc

theorem Sound.refuse (h : Sound process m) (handles : List Nat) :
    Sound process (m.refuse process handles) :=
  (h.enter handles).complete _

theorem refuse_tasks (hcurrent : m.current = none ∨ m.current = some process) (handles : List Nat) :
    (m.refuse process handles).executor.tasks = m.executor.tasks ++ [.completed] := by
  obtain ⟨htasks, -⟩ := complete_parts (m := m.enter handles) hcurrent m.executor.tasks.length
  refine htasks.trans ?_
  change (m.executor.tasks ++ [Executor.Task.runnable]).set m.executor.tasks.length .completed = _
  rw [List.set_append_right _ _ (Nat.le_refl _), Nat.sub_self]
  rfl

theorem refuse_parts (hcurrent : m.current = none ∨ m.current = some process) (handles : List Nat) :
    Ages m.executor (m.refuse process handles).executor ∧
      Completed (m.refuse process handles) m.executor.tasks.length ∧
      (m.refuse process handles).current = m.current := by
  obtain ⟨-, haborted, -, hsame, -⟩ :=
    complete_parts (m := m.enter handles) hcurrent m.executor.tasks.length
  have htasks := refuse_tasks hcurrent handles
  refine ⟨ages_append haborted htasks, ?_, hsame⟩
  rw [Completed, htasks]
  exact List.getElem?_concat_length

end Queue

theorem ages_settled (wk : Wakers W) (e : ExecutorInner P W T) (w : World P W) (wakers : List W) :
    Ages e ({ e with world := w }.wakeAll wk wakers) := by
  have hsame : Ages e { e with world := w } := .of_tasks rfl rfl
  exact hsame.trans (ages_wakeAll wk { e with world := w } wakers)

theorem pollHost_parts (wk : Wakers W) (mode : Mode) (guestProgress : Bool) (poller : Poller P)
    {e : ExecutorInner P W T} (hw : Intact e.world) :
    Operates e.world (e.pollHost wk mode guestProgress poller).executor.world ∧
      Ages e (e.pollHost wk mode guestProgress poller).executor := by
  rw [ExecutorInner.pollHost]
  cases hostWait mode guestProgress with
  | sweep =>
    refine ⟨?_, ages_settled wk e _ _⟩
    exact (ExecutorInner.wakeAll_world wk _ _).symm ▸ operates_sweepReady hw poller.ready
  | block =>
    refine ⟨?_, ages_settled wk e _ _⟩
    exact (ExecutorInner.wakeAll_world wk _ _).symm ▸ operates_dispatchReady hw _

theorem abandon_parts (wk : Wakers W) (poller : Poller P)
    {e : ExecutorInner P W T} (hw : Intact e.world) :
    Operates e.world (e.abandonLeftoverPollables wk poller).world ∧
      Ages e (e.abandonLeftoverPollables wk poller) ∧
      (e.abandonLeftoverPollables wk poller).world.queue.entries = [] := by
  have hworld : (e.abandonLeftoverPollables wk poller).world =
      (e.world.abandonLeftoverPollables poller.ready).1 :=
      ExecutorInner.wakeAll_world wk _ _
  refine ⟨?_, ages_settled wk e _ _, ?_⟩
  · rw [hworld]
    exact operates_abandon hw poller.ready
  · rw [hworld]
    rfl

end Machine

end LeptosWasi.RunUntilInvariant
