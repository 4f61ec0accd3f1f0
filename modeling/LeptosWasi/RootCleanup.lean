import LeptosWasi.RunUntilInvariant

namespace LeptosWasi.RootCleanup

open Pollables PollableInvariant RunUntil RunUntil.Machine RunUntilInvariant
open Executor hiding Action

variable {Q P W T : Type}

def FreeOf (m : Machine Q P W T) (holder : Holder) : Prop :=
  ∀ r ∈ queued m.world, ∃ handle other, Holds m.world handle r ∧
    m.holders[handle]? = some other ∧ other ≠ holder

/-- A call left the thread as it was, up to a task in the pool that is aborted
already and that keeps what the root future held. -/
structure Untouched (call : Call Q P W T) (after : Machine Q P W T) : Prop where
  world : after.world = call.before.world
  others : after.others = call.before.others
  root : call.root = call.before.executor.tasks.length
  tasks : after.executor.tasks = call.before.executor.tasks ++ [.runnable]
  aborted : after.executor.aborted = call.root :: call.before.executor.aborted
  outer : after.executor.root = call.before.executor.root
  receiver : after.executor.receiver = call.before.executor.receiver
  holders : ∀ handle, handle ∉ call.handles → after.holders[handle]? = call.before.holders[handle]?

/-- What a call leaves when it returns. The root of a call that failed outside
of the pool has been dropped. -/
structure LeavesNothing (call : Call Q P W T) (result : Except ExecutorError T)
    (after : Machine Q P W T) : Prop where
  current : after.current = call.before.current
  drained : ∀ output, result = .ok output → after.world.queue.entries = []
  dropped : ∀ error, result = .error error → call.nested = false ∨ call.accepted = false →
    FreeOf after (.task call.root)
  output : ∀ error, result = .error error → call.nested = false →
    call.accepted = true → FreeOf after .output
  ended : ∀ error, result = .error error → call.nested = false ∨ call.accepted = false →
    Completed after call.root
  fails : call.nested = true → ∃ error, result = .error error
  untouched : call.nested = true → call.accepted = true → Untouched call after

theorem leavesNothing_refused {call : Call Q P W T}
    {after : Machine Q P W T} (error : ExecutorError)
    (haccepted : call.accepted = false) (hcurrent : after.current = call.before.current)
    (hcompleted : Completed after call.root) (hfree : FreeOf after (.task call.root)) :
    LeavesNothing call (.error error) after where
  current := hcurrent
  drained output h := by cases h
  dropped _ _ _ := hfree
  output _ _ _ ha := absurd ha (ne_true_of_eq_false haccepted)
  ended _ _ _ := hcompleted
  fails _ := ⟨error, rfl⟩
  untouched _ ha := absurd ha (ne_true_of_eq_false haccepted)

theorem leavesNothing_nested {call : Call Q P W T} {after : Machine Q P W T} (error : ExecutorError)
    (hnested : call.nested = true) (haccepted : call.accepted = true)
    (hcurrent : after.current = call.before.current) (huntouched : Untouched call after) :
    LeavesNothing call (.error error) after where
  current := hcurrent
  drained output h := by cases h
  dropped _ _ h := by
    rw [hnested, haccepted] at h
    simp at h
  output _ _ hn := absurd hnested (ne_true_of_eq_false hn)
  ended _ _ h := by
    rw [hnested, haccepted] at h
    simp at h
  fails _ := ⟨error, rfl⟩
  untouched _ _ := huntouched

/-- A root that failed is gone, and it has ended unless its call was nested and
the pool took it. -/
structure RootGone (m : Machine Q P W T) (call : Call Q P W T) : Prop where
  gone : Gone m call.root
  ended : call.nested = false ∨ call.accepted = false → Completed m call.root

/-- Every call in the journal left nothing when it returned. The root of a call
that failed was not polled since and will not be, and that of a nested call was
not polled at all. -/
def Journaled (m : Machine Q P W T) (journal : List (Entry Q P W T)) : Prop :=
  ∀ newer call result after older, journal = newer ++ .returned call result after :: older →
    LeavesNothing call result after ∧ (call.nested = true → .polled call.root ∉ older) ∧
      ∀ error, result = .error error → .polled call.root ∉ newer ∧ RootGone m call

structure Inv (process : Q) (t : Thread Q P W T) : Prop where
  sound : Sound process t.machine
  journaled : Journaled t.machine t.journal
  known : ∀ task, .polled task ∈ t.journal → task < t.machine.executor.tasks.length

section Journal

variable {m m' : Machine Q P W T} {journal : List (Entry Q P W T)}

theorem journaled_nil (m : Machine Q P W T) : Journaled m [] := by
  intro newer call result after older h
  cases newer <;> cases h

theorem RootGone.mono {call : Call Q P W T} (h : RootGone m call) (hr : Retires m m') :
    RootGone m' call :=
  ⟨hr.gone h.gone, hr.completed call.root ∘ h.ended⟩

theorem Journaled.mono (h : Journaled m journal) (hr : Retires m m') : Journaled m' journal := by
  intro newer call result after older heq
  obtain ⟨hleaves, hnew, hfails⟩ := h newer call result after older heq
  exact ⟨hleaves, hnew, fun error he => (hfails error he).imp_right (·.mono hr)⟩

theorem Journaled.polled (h : Journaled m journal) {task : Nat} (hn : ¬ Gone m task) :
    Journaled m (.polled task :: journal) := by
  intro newer call result after older heq
  cases newer with
  | nil => cases heq
  | cons entry newer =>
    obtain ⟨rfl, hrest⟩ := List.cons.inj heq
    obtain ⟨hleaves, hnew, hfails⟩ := h newer call result after older hrest
    refine ⟨hleaves, hnew, fun error he => ?_⟩
    obtain ⟨hpolled, hgone⟩ := hfails error he
    refine ⟨?_, hgone⟩
    rw [List.mem_cons, not_or]
    refine ⟨?_, hpolled⟩
    intro hsame
    obtain rfl := Entry.polled.inj hsame
    exact hn hgone.gone

theorem Journaled.returned (h : Journaled m journal)
    {call : Call Q P W T} {result : Except ExecutorError T}
    {after : Machine Q P W T} (hleaves : LeavesNothing call result after)
    (hnew : call.nested = true → .polled call.root ∉ journal)
    (hgone : ∀ error, result = .error error → RootGone m call) :
    Journaled m (.returned call result after :: journal) := by
  intro newer call' result' after' older heq
  cases newer with
  | nil =>
    cases heq
    exact ⟨hleaves, hnew, fun error he => ⟨List.not_mem_nil, hgone error he⟩⟩
  | cons entry newer =>
    obtain ⟨rfl, hrest⟩ := List.cons.inj heq
    obtain ⟨hleaves', hnew', hfails⟩ := h newer call' result' after' older hrest
    refine ⟨hleaves', hnew', fun error he => ?_⟩
    obtain ⟨hpolled, hgone'⟩ := hfails error he
    refine ⟨?_, hgone'⟩
    rw [List.mem_cons, not_or]
    refine ⟨?_, hpolled⟩
    intro hsame
    cases hsame

end Journal

section Holders

variable {process : Q} {m : Machine Q P W T}

theorem freeOf_of_dropped (h : Sound process m) {holder : Holder}
    (hnone : ∀ handle, Live m.world handle → m.holders[handle]? ≠ some holder) :
    FreeOf m holder := by
  intro r hr
  obtain ⟨handle, hh⟩ := h.intact.live r hr
  have hlt : handle < m.holders.length := by
    rw [h.aligned]
    exact (List.getElem?_eq_some_iff.mp hh).1
  have hother := List.getElem?_eq_getElem hlt
  refine ⟨handle, m.holders[handle], hh, hother, ?_⟩
  rintro rfl
  exact hnone handle ⟨_, hh⟩ hother

theorem freeOf_of_completed (h : Sound process m) {task : Nat} (hc : Completed m task) :
    FreeOf m (.task task) := by
  apply freeOf_of_dropped h
  intro handle hl hh
  obtain ⟨status, hs, hends⟩ := h.held handle task hl hh
  rw [hc] at hs
  exact hends (Option.some.inj hs).symm

theorem dropHeld_freeOf [DecidableEq Q] (h : Sound process m) (holder : Holder) :
    FreeOf (m.dropHeld process holder) holder := by
  apply freeOf_of_dropped (h.dropHeld holder)
  rw [dropHeld_eq h.current]
  exact fun handle hl hh => live_dropAll hl (mem_held.mpr hh)

end Holders

theorem wake_last (tasks : List Executor.Task) :
    (tasks ++ [Executor.Task.runnable]).modify tasks.length
    (fun t => if t = .waiting then .runnable else t) =
      tasks ++ [Executor.Task.runnable] := by
  apply List.ext_getElem?
  intro i
  rw [List.getElem?_modify]
  by_cases hi : tasks.length = i
  · subst hi
    simp
  · simp [hi]

section Threads

variable {process : Q} {t t' t'' : Thread Q P W T}

theorem Inv.change (h : Inv process t) {m : Machine Q P W T} (hs : Sound process m)
    (hlength : t.machine.executor.tasks.length ≤ m.executor.tasks.length)
    (hretires : Retires t.machine m) : Inv process ⟨m, t.journal⟩ :=
  ⟨hs, h.journaled.mono hretires, fun task hp => Nat.lt_of_lt_of_le (h.known task hp) hlength⟩

theorem Inv.returned (h : Inv process t) (call : Call Q P W T) (result : Except ExecutorError T)
    (hleaves : LeavesNothing call result t.machine)
    (hnew : call.nested = true → .polled call.root ∉ t.journal)
    (hgone : ∀ error, result = .error error → RootGone t.machine call) :
    Inv process (t.returned call result t.machine) := by
  refine ⟨h.sound, h.journaled.returned hleaves hnew hgone, fun task hp => ?_⟩
  obtain heq | hp := List.mem_cons.mp hp
  · cases heq
  · exact h.known task hp

structure Keeps (process : Q) (t t' : Thread Q P W T) : Prop where
  inv : Inv process t'
  current : t'.machine.current = t.machine.current
  length : t.machine.executor.tasks.length ≤ t'.machine.executor.tasks.length
  retires : Retires t.machine t'.machine

theorem Keeps.refl (h : Inv process t) : Keeps process t t := ⟨h, rfl, Nat.le_refl _, .refl _⟩

theorem Keeps.trans (h : Keeps process t t') (h' : Keeps process t' t'') : Keeps process t t'' :=
  ⟨h'.inv, h'.current.trans h.current, Nat.le_trans h.length h'.length, h.retires.trans h'.retires⟩

theorem Inv.keeps (h : Inv process t) {m : Machine Q P W T} (hs : Sound process m)
    (hcurrent : m.current = t.machine.current) (hages : Ages t.machine.executor m.executor) :
    Keeps process t ⟨m, t.journal⟩ :=
  ⟨h.change hs hages.length_le hages.retires, hcurrent, hages.length_le, hages.retires⟩

theorem send_keeps (h : Inv process t) (handles : List Nat) (output : T) :
    Keeps process t
      (t.update fun m => { m.assign handles .output with executor := m.executor.send output }) := by
  have hassigned : Sound process (t.machine.assign handles .output) := h.sound.assign handles nofun
  refine h.keeps ?_ rfl (.of_tasks rfl rfl)
  exact hassigned.of_parts (.refl _) h.sound.current rfl (.of_tasks rfl rfl)

def unmarked (t : Thread Q P W T) (task : Nat) : Thread Q P W T :=
  ⟨{ t.machine with executor := { t.machine.executor with
    tasks := t.machine.executor.tasks.set task .waiting } },
    .polled task :: t.journal⟩

theorem unmarked_keeps {task : Nat} (h : Inv process t)
    (hr : t.Runnable task) (ha : ¬ t.Aborted task) :
    Keeps process t (unmarked t task) ∧
      ∀ task', t.machine.Alive task' → (unmarked t task).machine.Alive task' := by
  have hages : Ages t.machine.executor (unmarked t task).machine.executor := by
    refine ⟨rfl, fun task' status hs => ?_⟩
    by_cases hsame : task = task'
    · subst hsame
      obtain rfl : status = .runnable := Option.some.inj (hs.symm.trans hr)
      refine ⟨.waiting, List.getElem?_set_self (List.getElem?_eq_some_iff.mp hr).1, by simp, ?_⟩
      exact fun haborted => absurd haborted ha
    · exact ⟨status, (List.getElem?_set_ne hsame).trans hs, Iff.rfl, fun _ => id⟩
  have hgone : ¬ Gone t.machine task := by
    rintro (haborted | hc)
    · exact ha haborted
    · rw [Completed, show t.machine.executor.tasks[task]? = some .runnable from hr] at hc
      cases hc
  refine ⟨⟨⟨h.sound.of_parts (.refl _) h.sound.current rfl hages, ?_, ?_⟩, rfl, hages.length_le,
    hages.retires⟩, fun _ => hages.alive⟩
  · exact (h.journaled.polled hgone).mono hages.retires
  · intro task' hp
    apply Nat.lt_of_lt_of_le _ hages.length_le
    obtain heq | hp := List.mem_cons.mp hp
    · obtain rfl := Entry.polled.inj heq
      exact (List.getElem?_eq_some_iff.mp hr).1
    · exact h.known task' hp

def failedInside (process : Q) (m : Machine Q P W T) (handles : List Nat) : Machine Q P W T :=
  (CurrentQueueGuard.install process (m.enter handles)).1.drop
    (CurrentQueueGuard.install process (m.enter handles)).2.driveInside.2

theorem failedInside_eq (process : Q) (m : Machine Q P W T) (handles : List Nat) :
    failedInside process m handles =
      { m.enter handles with
        executor := { (m.enter handles).executor with spawnFailed := false } } := by
  obtain ⟨⟨world, tasks, spawnFailed, root, receiver, aborted⟩, current, others, holders⟩ := m
  cases spawnFailed <;> rfl

theorem sound_failedInside {m : Machine Q P W T} (h : Sound process m) (handles : List Nat) :
    Sound process (failedInside process m handles) := by
  rw [failedInside_eq]
  exact (h.enter handles).of_parts (.refl _) h.current rfl (.of_tasks rfl rfl)

theorem untouched_inside (process : Q) (t : Thread Q P W T) (handles : List Nat) :
    Untouched ⟨t.machine.executor.tasks.length, handles, true, true, t.machine⟩
      ((failedInside process t.machine handles).abort t.machine.executor.tasks.length) := by
  rw [failedInside_eq]
  refine ⟨rfl, rfl, rfl, wake_last _, rfl, rfl, rfl, fun handle hn => ?_⟩
  simp only [Machine.abort, Machine.enter, Machine.assign, List.getElem?_mapIdx]
  cases t.machine.holders[handle]? with
  | none => rfl
  | some old => exact congrArg some (if_neg hn)

variable [DecidableEq Q]

/-- A call inside a running task fails. It aborts its root, which stays in the
pool, or the pool has refused the root. -/
theorem runUntilInside_keeps (h : Inv process t) (accepted : Bool) (handles : List Nat) :
    Keeps process t (t.runUntilInside process accepted handles) ∧
      ∀ task, t.machine.Alive task →
        (t.runUntilInside process accepted handles).machine.Alive task := by
  cases accepted with
  | true =>
    let root := t.machine.executor.tasks.length
    let after := (failedInside process t.machine handles).abort root
    have huntouched := untouched_inside process t handles
    have hsound : Sound process after := by
      apply (sound_failedInside h.sound handles).abort
      simp [failedInside_eq, Machine.enter, Machine.assign, root]
    have hages : Ages t.machine.executor (failedInside process t.machine handles).executor := by
      rw [failedInside_eq]
      exact ages_append rfl rfl
    have hretires : Retires t.machine after := hages.retires.trans (abort_retires _ root)
    have hlength : t.machine.executor.tasks.length ≤ after.executor.tasks.length := by
      rw [congrArg List.length huntouched.tasks, List.length_append]
      exact Nat.le_add_right _ _
    refine ⟨⟨?_, rfl, hlength, hretires⟩, fun task ha => abort_alive _ root (hages.alive ha)⟩
    apply (h.change hsound hlength hretires).returned ⟨root, handles, true, true, t.machine⟩
    · exact leavesNothing_nested _ rfl rfl rfl huntouched
    · exact fun _ hp => absurd (h.known root hp) (Nat.lt_irrefl _)
    · exact fun _ _ => ⟨Or.inl List.mem_cons_self, by simp⟩
  | false =>
    obtain ⟨hages, hcompleted, hcurrent⟩ := refuse_parts h.sound.current handles
    have hsound := h.sound.refuse handles
    have hrefused := h.change hsound hages.length_le hages.retires
    refine ⟨⟨?_, hcurrent, hages.length_le, hages.retires⟩, fun _ => hages.alive⟩
    apply hrefused.returned
    · exact leavesNothing_refused _ rfl hcurrent hcompleted (freeOf_of_completed hsound hcompleted)
    · exact fun _ hp => absurd (h.known _ hp) (Nat.lt_irrefl _)
    · exact fun _ _ => ⟨Or.inr hcompleted, fun _ => hcompleted⟩

theorem act_keeps (wk : Wakers W) {actor : Holder} (h : Inv process t)
    (halive : ∀ task, actor = .task task → t.machine.Alive task) (action : Action P W) :
    Keeps process t (t.act wk process actor action) ∧
      ∀ task, t.machine.Alive task → (t.act wk process actor action).machine.Alive task := by
  have hcurrent := h.sound.current
  have hplain : ∀ m : Machine Q P W T, Sound process m → m.current = t.machine.current →
      Ages t.machine.executor m.executor →
      Keeps process t ⟨m, t.journal⟩ ∧ ∀ task, t.machine.Alive task → m.Alive task :=
    fun m hs hc hages => ⟨h.keeps hs hc hages, fun _ => hages.alive⟩
  have hqueue : ∀ f, Operates t.machine.world (f t.machine.world) →
      Keeps process t (t.update (·.onQueue process f)) ∧
        ∀ task, t.machine.Alive task → (t.update (·.onQueue process f)).machine.Alive task := by
    intro f hf
    have hsame : t.update (·.onQueue process f) = t.update (·.setWorld (f t.machine.world)) := by
      rw [Thread.update, onQueue_eq hcurrent]
      rfl
    rw [hsame]
    exact hplain _ (h.sound.setWorld hf) rfl (.of_tasks rfl rfl)
  cases action with
  | wait pollable => exact hplain _ (h.sound.wait pollable halive) rfl (.of_tasks rfl rfl)
  | poll handle waker => exact hqueue _ (operates_pollWait wk.willWake _ handle waker)
  | drop handle => exact hqueue _ (operates_dropWait _ handle)
  | give handle holder =>
    cases holder with
    | none =>
      refine hplain _ (h.sound.assign [handle] ?_) rfl (.of_tasks rfl rfl)
      exact nofun
    | some task =>
      rw [Thread.act, Thread.update]
      split_ifs with ha
      · refine hplain _ (h.sound.assign [handle] ?_) rfl (.of_tasks rfl rfl)
        exact fun task' heq => Holder.task.inj heq ▸ ha
      · exact hplain _ h.sound rfl (.refl _)
  | wake task =>
    have hages := ages_wake t.machine.executor task
    exact hplain _ (h.sound.of_parts (.refl _) hcurrent rfl hages) rfl hages
  | spawn accepted handles =>
    cases accepted with
    | true => exact hplain _ (h.sound.enter handles) rfl (ages_append rfl rfl)
    | false =>
      obtain ⟨hages, -, hsame⟩ := refuse_parts hcurrent handles
      have hs := h.sound.refuse handles
      refine hplain _ ?_ hsame (hages.trans (.of_tasks rfl rfl))
      exact hs.of_parts (.refl _) hs.current rfl (.of_tasks rfl rfl)
  | runUntil accepted handles => exact runUntilInside_keeps h accepted handles
  | pollLocal => exact hplain _ h.sound rfl (.refl _)

theorem acts_keeps (wk : Wakers W) {task : Nat} (actions : List (Action P W)) (h : Inv process t)
    (halive : t.machine.Alive task) :
    Keeps process t (t.acts wk process (.task task) actions) ∧
      (t.acts wk process (.task task) actions).machine.Alive task := by
  induction actions generalizing t with
  | nil => exact ⟨.refl h, halive⟩
  | cons action actions ih =>
    obtain ⟨hkeeps, hstays⟩ := act_keeps wk h (fun task' heq => Holder.task.inj heq ▸ halive) action
    obtain ⟨hkeeps', halive'⟩ := ih hkeeps.inv (hstays task halive)
    exact ⟨hkeeps.trans hkeeps', halive'⟩

theorem polled_keeps (wk : Wakers W) {task : Nat} (actions : List (Action P W)) (h : Inv process t)
    (hr : t.Runnable task) (ha : ¬ t.Aborted task) :
    Keeps process t (t.polled wk process task actions) := by
  obtain ⟨hstart, hstays⟩ := unmarked_keeps h hr ha
  have halive := hstays task ⟨.runnable, hr, by decide⟩
  exact hstart.trans (acts_keeps wk actions hstart.inv halive).1

theorem complete_keeps (h : Inv process t) (task : Nat) :
    Keeps process t (t.update (·.complete process task)) := by
  obtain ⟨htasks, -, -, hcurrent, -⟩ := complete_parts h.sound.current task
  have hlength := Nat.le_of_eq ((congrArg List.length htasks).trans List.length_set).symm
  have hretires := complete_retires h.sound.current task
  exact ⟨h.change (h.sound.complete task) hlength hretires, hcurrent, hlength, hretires⟩

theorem pollTask_keeps {wk : Wakers W} (h : Inv process t) (hp : t.PollTask wk process t') :
    Keeps process t t' := by
  cases hp with
  | pending actions hr ha => exact polled_keeps wk actions h hr ha
  | done actions hr ha hroot =>
    have hpolled := polled_keeps wk actions h hr ha
    exact hpolled.trans (complete_keeps hpolled.inv _)
  | output actions handles output hr ha hroot =>
    have hpolled := polled_keeps wk actions h hr ha
    have hsent := send_keeps hpolled.inv handles output
    exact (hpolled.trans hsent).trans (complete_keeps hsent.inv _)
  | discarded actions hr ha =>
    have halive : t.machine.Alive _ := ⟨.runnable, hr, by decide⟩
    have hacts := (acts_keeps wk actions h halive).1
    exact hacts.trans (complete_keeps hacts.inv _)

theorem polls_keeps {wk : Wakers W} (h : Inv process t) (hp : Thread.Polls wk process t t') :
    Keeps process t t' := by
  induction hp with
  | refl => exact .refl h
  | tail _ hstep ih => exact ih.trans (pollTask_keeps ih.inv hstep)

end Threads

section Steps

variable {wk : Wakers W} {process : Q} {mode : Mode} {t t' : Thread Q P W T}

theorem pollHost_keeps (wk : Wakers W) (mode : Mode)
    (guestProgress : Bool) (poller : Poller P) (h : Inv process t) :
    Keeps process t (State.pollHost wk mode guestProgress poller t) := by
  obtain ⟨hworld, hages⟩ := pollHost_parts wk mode guestProgress poller h.sound.intact
  exact h.keeps (h.sound.of_parts hworld h.sound.current rfl hages) rfl hages

theorem Inv.setCurrent (h : Inv process t) {current : Option Q}
    (hcurrent : current = none ∨ current = some process) :
    Inv process (t.update fun m => { m with current := current }) :=
  h.change (h.sound.of_parts (.refl _) hcurrent rfl (.refl _))
    (Nat.le_refl _) (Ages.retires (.of_tasks rfl rfl))

structure Framed (process : Q) (t : Thread Q P W T) (frame : Frame Q P W T) : Prop where
  nested : frame.call.nested = false
  accepted : frame.call.accepted = true
  previous : frame.guard.previous = frame.call.before.current
  process : frame.guard.previous = none ∨ frame.guard.previous = some process
  root : frame.call.root < t.machine.executor.tasks.length

theorem Framed.keeps {frame : Frame Q P W T} (h : Framed process t frame)
    (hk : Keeps process t t') :
    Framed process t' frame :=
  ⟨h.nested, h.accepted, h.previous, h.process, Nat.lt_of_lt_of_le h.root hk.length⟩

theorem finish_inv {frame : Frame Q P W T} (h : Inv process t) (hf : Framed process t frame)
    (poller : Poller P) (output : T) : Inv process (State.finish wk poller t frame output) := by
  obtain ⟨hworld, hages, hdrained⟩ := abandon_parts wk poller h.sound.intact
  have habandoned : Sound process { t.machine with
      executor := t.machine.executor.abandonLeftoverPollables wk poller, current :=
        frame.guard.previous } :=
    h.sound.of_parts hworld hf.process rfl hages
  have hnested : frame.call.nested ≠ true := ne_true_of_eq_false hf.nested
  have hgiven : Sound process (State.finish wk poller t frame output).machine :=
    habandoned.assign _ nofun
  have hretires : Retires t.machine (State.finish wk poller t frame output).machine :=
    Ages.retires hages
  apply (h.change hgiven hages.length_le hretires).returned
  · exact ⟨hf.previous, fun _ _ => hdrained, nofun,
      nofun, nofun, fun hn => absurd hn hnested, fun hn => absurd hn hnested⟩
  · exact fun hn => absurd hn hnested
  · exact nofun

theorem start_inv (h : Inv process t) (handles : List Nat) :
    Inv process (State.start process t handles) ∧
      Framed process (State.start process t handles) (State.entered process t true handles) := by
  have hages : Ages t.machine.executor t.machine.executor.spawnRoot := ages_append rfl rfl
  have hspawned : Sound process { t.machine with executor := t.machine.executor.spawnRoot } :=
    h.sound.of_parts (.refl _) h.sound.current rfl hages
  have hroot : ({ t.machine with executor := t.machine.executor.spawnRoot } : Machine Q P W T).Alive
      t.machine.executor.tasks.length := ⟨.runnable, List.getElem?_concat_length, by decide⟩
  have hassigned := hspawned.assign handles (fun task heq => Holder.task.inj heq ▸ hroot)
  constructor
  · have hinstalled : Sound process (State.start process t handles).machine :=
      hassigned.of_parts (.refl _) (Or.inr rfl) rfl (.of_tasks rfl rfl)
    exact h.change hinstalled hages.length_le (Ages.retires hages)
  · refine ⟨rfl, rfl, rfl, h.sound.current, ?_⟩
    obtain ⟨status, hs, -⟩ := hroot
    exact (List.getElem?_eq_some_iff.mp hs).1

theorem leaves_running {s : State Q P W T} {result : Except ExecutorError T}
    (hl : s.leaves = some result) :
    ∀ last, s.control ≠ .returned last := by
  rintro last hlast
  rw [State.leaves, hlast] at hl
  cases hl

theorem leave_inv {frame : Frame Q P W T} (h : Inv process t) (hf : Framed process t frame)
    (error : ExecutorError) : Inv process (State.leave t frame error) ∧
      Framed process (State.leave t frame error) frame ∧
      (State.leave t frame error).machine.current = frame.guard.previous := by
  rw [State.leave]
  split_ifs
  · have hflag : Sound process
      { t.machine with executor := { t.machine.executor with spawnFailed := false } } :=
      h.sound.of_parts (.refl _) h.sound.current rfl (.of_tasks rfl rfl)
    have hinv := h.change hflag (Nat.le_refl _) (Ages.retires (.of_tasks rfl rfl))
    exact ⟨hinv.setCurrent hf.process,
      ⟨hf.nested, hf.accepted, hf.previous, hf.process, hf.root⟩, rfl⟩
  · exact ⟨h.setCurrent hf.process, ⟨hf.nested, hf.accepted, hf.previous, hf.process, hf.root⟩, rfl⟩

variable [DecidableEq Q] {pool : ThreadPool wk process P T} {s s' : State Q P W T}

theorem runGuest_keeps {guestProgress : Bool} (h : Inv process t)
    (hg : State.runGuest pool mode t guestProgress t') : Keeps process t t' := by
  cases mode with
  | preemptive => exact polls_keeps h (pool.one_polls hg)
  | stalled => exact polls_keeps h (pool.stalled_polls hg.1)

theorem refused_inv (h : Inv process t) (handles : List Nat) :
    Inv process (t.returned (State.entered process t false handles).call (.error .taskSpawnFailed)
      (t.machine.refuse process handles)) := by
  obtain ⟨hages, hcompleted, hcurrent⟩ := refuse_parts h.sound.current handles
  have hsound := h.sound.refuse handles
  apply (h.change hsound hages.length_le hages.retires).returned
  · exact leavesNothing_refused _ rfl hcurrent hcompleted (freeOf_of_completed hsound hcompleted)
  · exact nofun
  · exact fun _ _ => ⟨Or.inr hcompleted, fun _ => hcompleted⟩

theorem fail_inv {frame : Frame Q P W T} (h : Inv process t) (hf : Framed process t frame)
    (hrestored : t.machine.current = frame.guard.previous)
    (hroot : Completed t.machine frame.call.root)
    (error : ExecutorError) : Inv process (State.fail process t frame error) := by
  have hsound := h.sound.dropHeld .output
  have hdrop := dropHeld_eq h.sound.current .output
  have hcompleted : Completed (t.machine.dropHeld process .output) frame.call.root := by
    rw [hdrop]
    exact hroot
  have hcurrent : (t.machine.dropHeld process .output).current = frame.call.before.current := by
    rw [hdrop]
    exact hrestored.trans hf.previous
  have hages : Ages t.machine.executor (t.machine.dropHeld process .output).executor := by
    rw [hdrop]
    exact .of_tasks rfl rfl
  have hnested : frame.call.nested ≠ true := ne_true_of_eq_false hf.nested
  apply (h.change hsound hages.length_le hages.retires).returned
  · exact ⟨hcurrent, nofun, fun _ _ _ => freeOf_of_completed hsound hcompleted,
      fun _ _ _ _ => dropHeld_freeOf h.sound .output, fun _ _ _ => hcompleted,
      fun hn => absurd hn hnested, fun hn => absurd hn hnested⟩
  · exact fun hn => absurd hn hnested
  · exact fun _ _ => ⟨Or.inr hcompleted, fun _ => hcompleted⟩

/-- The abort ends the loop of a call, and the pool discards the root. -/
theorem abort_completes {frame : Frame Q P W T} (h : Inv process t) (hf : Framed process t frame)
    (hrun : pool.runUntilStalled (t.update (·.abort frame.call.root)) t') :
    Keeps process (t.update (·.abort frame.call.root)) t' ∧
    Completed t'.machine frame.call.root := by
  have haborted : Inv process (t.update (·.abort frame.call.root)) :=
    h.change (h.sound.abort hf.root) (Nat.le_of_eq (List.length_modify _ _ _).symm)
      (abort_retires t.machine frame.call.root)
  have hkeeps := polls_keeps haborted (pool.stalled_polls hrun)
  refine ⟨hkeeps, ?_⟩
  obtain ha | hc := hkeeps.retires.gone (Or.inl List.mem_cons_self)
  · exact (hkeeps.inv.sound.aborted _ ha).resolve_left (pool.stalled_idle hrun _)
  · exact hc

structure Steady (process : Q) (s : State Q P W T) : Prop where
  inv : Inv process s.thread
  framed : (∀ last, s.control ≠ .returned last) → Framed process s.thread s.frame
  restored : ∀ error, s.control = .failed error → s.thread.machine.current = s.frame.guard.previous

theorem steady_step (h : Steady process s) (hstep : State.Step pool mode s () s') :
    Steady process s' := by
  obtain ⟨hinv, hframed, hrestored⟩ := h
  cases hstep with
  | outside action hcalls =>
    refine ⟨(act_keeps wk hinv ?_ action).1.inv, fun hn => absurd rfl (hn _), nofun⟩
    exact nofun
  | @pollLocal t t' last frame guestProgress poller hg =>
    have hinstalled := hinv.setCurrent (Or.inr rfl)
    have hguest := runGuest_keeps hinstalled hg
    have hhost := pollHost_keeps wk mode guestProgress poller hguest.inv
    exact ⟨hhost.inv.setCurrent hinv.sound.current, fun hn => absurd rfl (hn _), nofun⟩
  | runUntil handles =>
    obtain ⟨hstart, hf⟩ := start_inv hinv handles
    exact ⟨hstart, fun _ => hf, nofun⟩
  | refused handles => exact ⟨refused_inv hinv handles, fun hn => absurd rfl (hn _), nofun⟩
  | runGuest hl hg =>
    have hguest := runGuest_keeps hinv hg
    exact ⟨hguest.inv, fun _ => (hframed nofun).keeps hguest, nofun⟩
  | @pollHost t frame guestProgress poller hl =>
    have hhost := pollHost_keeps wk mode guestProgress poller hinv
    exact ⟨hhost.inv, fun _ => (hframed nofun).keeps hhost, nofun⟩
  | iterate hl => exact ⟨hinv, fun _ => hframed nofun, nofun⟩
  | finished poller hl =>
    exact ⟨finish_inv hinv (hframed (leaves_running hl)) poller _,
      fun hn => absurd rfl (hn _), nofun⟩
  | leave hl =>
    obtain ⟨hleft, hf, hcurrent⟩ := leave_inv hinv (hframed (leaves_running hl)) _
    exact ⟨hleft, fun _ => hf, fun _ _ => hcurrent⟩
  | @fail t t' frame error hrun =>
    have hf := hframed nofun
    obtain ⟨hkeeps, hcompleted⟩ := abort_completes hinv hf hrun
    have hcurrent := hkeeps.current.trans (hrestored _ rfl)
    have hknown := (List.getElem?_eq_some_iff.mp hcompleted).1
    have hf' : Framed process t' frame := ⟨hf.nested, hf.accepted, hf.previous, hf.process, hknown⟩
    exact ⟨fail_inv hkeeps.inv hf' hcurrent hcompleted error, fun hn => absurd rfl (hn _), nofun⟩

theorem run_steady {steps : List Unit} (h : (threadSystem pool mode).Run steps s) :
    Steady process s := by
  apply h.invariant fun _ s => Steady process s
  · rintro ⟨t, control, frame⟩ ⟨rfl, rfl⟩
    refine ⟨⟨⟨consistent_initial _, Or.inl rfl, rfl, ?_, nofun⟩, journaled_nil _, nofun⟩,
      fun hn => absurd rfl (hn _), nofun⟩
    rintro handle task ⟨inner, hinner⟩
    simp [Machine.world, Machine.initial, ExecutorInner.withQueue, World.initial] at hinner
  · exact fun _ s _ s' hs hstep => steady_step hs hstep

/-- `run_until` leaves nothing of its root behind. The queue is empty after an
output. A root that failed is not polled again, and it has been dropped with its
registrations when its call returns. The task of a nested call is left in the
pool instead, aborted, until it is dropped too, and all else is as it was. -/
theorem run_until_leaves_nothing (pool : ThreadPool wk process P T)
    (mode : Mode) (steps : List Unit)
    (s : State Q P W T) (h : (threadSystem pool mode).Run steps s)
    (newer older : List (Entry Q P W T))
    (call : Call Q P W T) (result : Except ExecutorError T) (after : Machine Q P W T)
    (hj : s.thread.journal = newer ++ .returned call result after :: older) :
    LeavesNothing call result after ∧ (call.nested = true → .polled call.root ∉ older) ∧
      ∀ error, result = .error error → .polled call.root ∉ newer ∧
        (call.nested = true ∧ call.accepted = true ∧ s.thread.Aborted call.root ∧
            s.thread.Runnable call.root ∨
          Completed s.thread.machine call.root ∧ FreeOf s.thread.machine (.task call.root)) := by
  have hsteady := run_steady h
  have hsound := hsteady.inv.sound
  obtain ⟨hleaves, hnew, hfails⟩ := hsteady.inv.journaled newer call result after older hj
  refine ⟨hleaves, hnew, fun error he => ?_⟩
  obtain ⟨hpolled, hgone⟩ := hfails error he
  refine ⟨hpolled, ?_⟩
  by_cases hc : Completed s.thread.machine call.root
  · exact Or.inr ⟨hc, freeOf_of_completed hsound hc⟩
  · have ha : call.root ∈ s.thread.machine.executor.aborted := hgone.gone.resolve_right hc
    have hpool : call.nested = true ∧ call.accepted = true := by
      by_contra hn
      apply hc
      apply hgone.ended
      cases hnested : call.nested <;> simp_all
    exact Or.inl ⟨hpool.1, hpool.2, ha, (hsound.aborted call.root ha).resolve_right hc⟩

end Steps

section Nested

theorem idle_of_tasks {e : ExecutorInner P W T} (h : .runnable ∉ e.tasks) : e.Idle :=
  fun _ hr => h (List.mem_of_getElem? hr)

def quiet : Wakers Unit := ⟨fun _ _ => true, fun _ => []⟩

/-- A root starts to wait and moves the future into the root of a nested call. -/
def nesting : Thread Unit Unit Unit Unit :=
  (State.start () ⟨.initial, []⟩ []).polled quiet () 0 [.wait (), .poll 0 (), .runUntil true [0]]

def afterNesting : Thread Unit Unit Unit Unit := nesting.update (·.complete () 1)

def outerFrame : Frame Unit Unit Unit Unit := State.entered () ⟨.initial, []⟩ true []

theorem nesting_run : (threadSystem (ThreadPool.anyOrder quiet ()) .stalled).Run [(), ()]
    ⟨afterNesting, .guestRan false, outerFrame⟩ := by
  have hstart : (threadSystem (ThreadPool.anyOrder quiet ()) .stalled).Run []
      ⟨⟨.initial, []⟩, .returned none, outerFrame⟩ := .start ⟨rfl, rfl⟩
  have hcall : (threadSystem (ThreadPool.anyOrder quiet ()) .stalled).Run [()]
      ⟨State.start () ⟨.initial, []⟩ [], .head, outerFrame⟩ := .next hstart (.runUntil [])
  have houter : Thread.PollTask quiet () (State.start () ⟨.initial, []⟩ []) nesting :=
    .pending _ rfl List.not_mem_nil
  have hinner : Thread.PollTask quiet () nesting afterNesting :=
    .discarded [] rfl List.mem_cons_self
  have htasks : afterNesting.machine.executor.tasks = [.waiting, .completed] := rfl
  have hidle : afterNesting.machine.executor.Idle := idle_of_tasks (htasks ▸ by decide)
  exact .next hcall (.runGuest rfl ⟨⟨.tail (.single houter) hinner, hidle⟩, rfl⟩)

def stalled : Thread Unit Unit Unit Unit :=
  (State.leave afterNesting outerFrame .stalled).update fun m => (m.abort 0).complete () 0

theorem stalled_run :
    (threadSystem (ThreadPool.anyOrder quiet ()) .stalled).Run [(), (), (), (), ()]
    ⟨State.fail () stalled outerFrame .stalled, .returned (some (.error .stalled)),
      outerFrame⟩ := by
  have hhost : (threadSystem (ThreadPool.anyOrder quiet ()) .stalled).Run [(), (), ()]
      ⟨afterNesting, .hostRan false false, outerFrame⟩ :=
    .next (nesting_run) (.pollHost ⟨fun _ => [], fun _ => false⟩ rfl)
  have hleave : (threadSystem (ThreadPool.anyOrder quiet ()) .stalled).Run [(), (), (), ()]
      ⟨State.leave afterNesting outerFrame .stalled, .failed .stalled, outerFrame⟩ :=
    .next hhost (.leave rfl)
  have hroot : Thread.PollTask quiet ()
    ((State.leave afterNesting outerFrame .stalled).update (·.abort 0))
      stalled := .discarded [] rfl List.mem_cons_self
  have htasks : stalled.machine.executor.tasks = [.completed, .completed] := rfl
  have hidle : stalled.machine.executor.Idle := idle_of_tasks (htasks ▸ by decide)
  exact .next hleave (.fail ⟨.single hroot, hidle⟩)

theorem run_until_leaves_nothing_stalled :
    LeavesNothing outerFrame.call (.error .stalled)
      (State.fail () stalled outerFrame .stalled).machine ∧
      Completed (State.fail () stalled outerFrame .stalled).machine 0 ∧
      FreeOf (State.fail () stalled outerFrame .stalled).machine (.task 0) := by
  obtain ⟨hleaves, -, hfails⟩ := run_until_leaves_nothing _ _ _ _ stalled_run [] _ _ _ _ rfl
  refine ⟨hleaves, ?_⟩
  obtain ⟨-, ⟨hnested, -⟩ | hended⟩ := hfails _ rfl
  · cases hnested
  · exact hended

/-- A future that waits already and that moves into the root of a nested call
is still queued when the call fails. -/
theorem nested_registration_queued :
    ¬ ∀ (wk : Wakers Unit) (pool : ThreadPool wk () Unit Unit) (mode : Mode) (steps : List Unit)
      (s : State Unit Unit Unit Unit) (newer older : List (Entry Unit Unit Unit Unit))
      (call : Call Unit Unit Unit Unit) (error : ExecutorError)
      (after : Machine Unit Unit Unit Unit),
      (threadSystem pool mode).Run steps s →
        s.thread.journal = newer ++ .returned call (.error error) after :: older →
          error ∈ [.stalled, .taskSpawnFailed, .reentrantPoll] →
          FreeOf after (.task call.root) := by
  intro hall
  have hfree := hall quiet _ _ _ _ [] [.polled 0] _ _ _ nesting_run rfl (by decide)
  obtain ⟨handle, other, hh, hother, hne⟩ := hfree 0 List.mem_cons_self
  cases handle with
  | zero => exact hne (Option.some.inj hother).symm
  | succ handle => cases hh

end Nested

end LeptosWasi.RootCleanup
