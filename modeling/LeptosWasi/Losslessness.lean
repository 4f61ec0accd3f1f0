import LeptosWasi.ExactlyOnce

namespace LeptosWasi.Losslessness

open Http Response Render LeptosWasi.Core ResponseTransfer ExactlyOnce

def transferSystem (body : Body) : System (Transfer × Nat) (List HostCall) where
  init s := s = (.start body, 0)
  step s calls s' := Transfer.Step s.1 s.2 calls s'.1 s'.2

/-- The bytes that a call passes to the output stream, and those of them that
the host takes. -/
def passedBy : HostCall → Bytes
  | .write bytes _ => bytes
  | _ => []

def takenBy : HostCall → Bytes
  | .write bytes (.ok ()) => bytes
  | _ => []

def passed (calls : List HostCall) : Bytes := calls.flatMap passedBy

def taken (calls : List HostCall) : Bytes := calls.flatMap takenBy

def allChunks : List (Except BodyError Bytes) → Bytes
  | [] => []
  | .ok bytes :: items => bytes ++ allChunks items
  | .error _ :: items => allChunks items

def chunksBeforeError : List (Except BodyError Bytes) → Bytes
  | .ok bytes :: items => bytes ++ chunksBeforeError items
  | _ => []

def contents (rest : List (Except BodyError Bytes) → Bytes) : Body → Bytes
  | .sync bytes => bytes
  | .async items => rest items

/-- Every write is preceded at once by a check whose capacity covers it. -/
def Guarded (calls : List HostCall) : Prop :=
  ∀ before bytes reply after, calls = before ++ .write bytes reply :: after →
    bytes ≠ [] ∧ ∃ earlier capacity, before = earlier ++ [.checkWrite (.ok capacity)] ∧
      bytes.length ≤ capacity

theorem passed_append (calls calls' : List HostCall) :
    passed (calls ++ calls') = passed calls ++ passed calls' :=
  List.flatMap_append

theorem taken_append (calls calls' : List HostCall) :
    taken (calls ++ calls') = taken calls ++ taken calls' :=
  List.flatMap_append

theorem Guarded.append {calls calls' : List HostCall} (h : Guarded calls) (h' : Guarded calls') :
    Guarded (calls ++ calls') := by
  intro before bytes reply after heq
  obtain ⟨middle, hbefore, hrest⟩ | ⟨middle, hcalls, hrest⟩ := List.append_eq_append_iff.mp heq
  · obtain ⟨hne, earlier, capacity, hmiddle, hle⟩ := h' middle bytes reply after hrest
    exact ⟨hne, calls ++ earlier, capacity, by rw [hbefore, hmiddle, List.append_assoc], hle⟩
  · cases middle with
    | nil =>
      obtain ⟨-, earlier, capacity, hnil, -⟩ := h' [] bytes reply after hrest.symm
      exact absurd hnil (List.append_ne_nil_of_right_ne_nil earlier (List.cons_ne_nil _ _)).symm
    | cons call middle =>
      obtain ⟨rfl, -⟩ := List.cons.inj hrest
      exact h before bytes reply middle hcalls

theorem guarded_of_no_write {calls : List HostCall}
    (h : ∀ bytes reply, .write bytes reply ∉ calls) :
    Guarded calls := by
  rintro before bytes reply after rfl
  exact absurd (by simp) (h bytes reply)

theorem guarded_write {capacity : Nat} {bytes : Bytes}
    (hne : bytes ≠ []) (hle : bytes.length ≤ capacity)
    (reply : Except StreamError Unit) :
    Guarded [.checkWrite (.ok capacity), .write bytes reply] := by
  intro before bytes' reply' after heq
  obtain _ | ⟨call, _ | ⟨call', before⟩⟩ := before
  · cases (List.cons.inj heq).1
  · obtain ⟨rfl, hrest⟩ := List.cons.inj heq
    obtain ⟨hwrite, -⟩ := List.cons.inj hrest
    cases hwrite
    exact ⟨hne, [], capacity, rfl, hle⟩
  · have hlen := congrArg List.length heq
    simp only [List.length_cons, List.length_nil, List.cons_append, List.length_append] at hlen
    omega

section Writes

theorem writeCount_le (capacity length : Nat) :
    Transfer.writeCount capacity length ≤ capacity ∧
    Transfer.writeCount capacity length ≤ length := by
  rw [Transfer.writeCount]
  split_ifs <;> omega

theorem writeCount_pos {capacity length : Nat} (hc : capacity ≠ 0) (hl : 0 < length) :
    0 < Transfer.writeCount capacity length := by
  have hmax : 0 < Transfer.usizeMax := by decide
  rw [Transfer.writeCount]
  split_ifs <;> omega

theorem slice_fits {capacity : Nat} {bytes : Bytes} (hb : bytes ≠ []) (hc : capacity ≠ 0) :
    bytes.take (Transfer.writeCount capacity bytes.length) ≠ [] ∧
      (bytes.take (Transfer.writeCount capacity bytes.length)).length =
        Transfer.writeCount capacity bytes.length ∧
      Transfer.writeCount capacity bytes.length ≤ capacity := by
  have hpos := writeCount_pos hc (List.length_pos_iff.mpr hb)
  obtain ⟨hcapacity, hlength⟩ := writeCount_le capacity bytes.length
  have hlen : (bytes.take (Transfer.writeCount capacity bytes.length)).length =
      Transfer.writeCount capacity bytes.length := by
    rw [List.length_take]
    omega
  exact ⟨List.length_pos_iff.mp (by rw [hlen]; exact hpos), hlen, hcapacity⟩

theorem step_guarded {point point' : Transfer} {n n' : Nat} {calls : List HostCall}
    (h : Transfer.Step point n calls point' n') : Guarded calls := by
  cases h with
  | written capacity hb hc | writeFailed capacity e hb hc =>
    obtain ⟨hne, hlen, hle⟩ := slice_fits hb hc
    exact guarded_write hne (by rw [hlen]; exact hle) _
  | _ => exact guarded_of_no_write (by simp)

theorem step_counts {point point' : Transfer} {n n' : Nat} {calls : List HostCall}
    (h : Transfer.Step point n calls point' n') (before : List HostCall)
    (hn : n = min (taken before).length (2 ^ 64 - 1)) :
    n' = min (taken (before ++ calls)).length (2 ^ 64 - 1) := by
  rw [taken_append, List.length_append]
  cases h with
  | written capacity hb hc =>
    obtain ⟨-, hlen, -⟩ := slice_fits hb hc
    simp only [taken, takenBy, List.flatMap_cons,
      List.flatMap_nil, List.nil_append, List.append_nil, hlen,
      Transfer.saturatingAdd] at hn ⊢
    omega
  | _ => exact hn

end Writes

section Conservation

variable {rest : List (Except BodyError Bytes) → Bytes}

/-- A way to sum up the items that are left of a stream, up to an error at
least. -/
structure Sums (rest : List (Except BodyError Bytes) → Bytes) : Prop where
  nil : rest [] = []
  ok : ∀ bytes items, rest (.ok bytes :: items) = bytes ++ rest items

theorem sums_allChunks : Sums allChunks := ⟨rfl, fun _ _ => rfl⟩

theorem sums_chunksBeforeError : Sums chunksBeforeError := ⟨rfl, fun _ _ => rfl⟩

/-- What a transfer has yet to pass on, as long as nothing has failed. -/
def left (rest : List (Except BodyError Bytes) → Bytes) : Transfer → Bytes
  | .next items => rest items
  | .write bytes items | .await bytes items => bytes ++ (items.map rest).getD []
  | .flush | .flushed | .complete _ | .closed _ => []

def Failed : Transfer → Prop
  | .complete (.error _) | .closed (.error _) => True
  | _ => False

/-- Until it fails, a step moves bytes from what is left to what is passed on. -/
theorem step_conserves (hrest : Sums rest) {point point' : Transfer}
    {n n' : Nat} {calls : List HostCall}
    (h : Transfer.Step point n calls point' n') (hok : ¬ Failed point') :
    passed calls ++ left rest point' = left rest point := by
  cases h with
  | exhausted => exact hrest.nil.symm
  | chunk => exact (hrest.ok _ _).symm
  | written capacity hb hc =>
    simp only [passed, passedBy, List.flatMap_cons,
      List.flatMap_nil, List.nil_append, List.append_nil, left]
    rw [← List.append_assoc, List.take_append_drop]
  | streamError | checkFailed | writeFailed | awaitFailed | flushFailed | flushedFailed =>
    exact absurd trivial hok
  | _ => rfl

theorem step_passes {point point' : Transfer} {n n' : Nat} {calls : List HostCall}
    (h : Transfer.Step point n calls point' n') : passed calls <+: left rest point := by
  cases h with
  | writeFailed capacity e hb hc =>
    simp only [passed, passedBy, List.flatMap_cons,
      List.flatMap_nil, List.nil_append, List.append_nil, left]
    exact (List.take_prefix _ _).trans (List.prefix_append _ _)
  | written capacity hb hc =>
    simp only [passed, passedBy, List.flatMap_cons,
      List.flatMap_nil, List.nil_append, List.append_nil, left]
    exact (List.take_prefix _ _).trans (List.prefix_append _ _)
  | _ => exact List.nil_prefix

end Conservation

section Runs

structure Transferred (body : Body) (calls : List HostCall)
    (point : Transfer) (n : Nat) : Prop where
  guarded : Guarded calls
  counted : n = min (taken calls).length (2 ^ 64 - 1)
  within : passed calls <+: contents allChunks body
  conserved : ∀ rest, Sums rest → ¬ Failed point →
    passed calls ++ left rest point = contents rest body
  streamError : ∀ e, point = .complete (.error (.responseStream e)) →
    passed calls = contents chunksBeforeError body

variable {body : Body} {calls calls' : List HostCall} {point point' : Transfer} {n n' : Nat}

theorem transferred_start (body : Body) : Transferred body [] (.start body) 0 := by
  refine ⟨guarded_of_no_write (by simp), rfl, List.nil_prefix, fun rest _ _ => ?_, fun e h => ?_⟩
  · cases body with
    | sync bytes => exact List.append_nil bytes
    | async items => rfl
  · cases body <;> cases h

theorem step_from (h : Transfer.Step point n calls point' n') : ¬ Failed point := by
  cases h <;> exact fun hf => hf

theorem step_streamError (h : Transfer.Step point n calls point' n') {e : BodyError}
    (he : point' = .complete (.error (.responseStream e))) :
    calls = [] ∧ left chunksBeforeError point = [] := by
  subst he
  cases h
  exact ⟨rfl, rfl⟩

theorem transferred_step (h : Transferred body calls point n)
    (hs : Transfer.Step point n calls' point' n') :
    Transferred body (calls ++ calls') point' n' := by
  have hopen := step_from hs
  have hall := h.conserved allChunks sums_allChunks hopen
  refine ⟨h.guarded.append (step_guarded hs), step_counts hs calls h.counted,
    ?_, fun rest hrest hok => ?_,
    fun e he => ?_⟩
  · rw [passed_append, ← hall]
    exact (List.prefix_append_right_inj _).mpr (step_passes hs)
  · rw [passed_append, List.append_assoc, step_conserves hrest hs hok, h.conserved rest hrest hopen]
  · obtain ⟨rfl, hleft⟩ := step_streamError hs he
    have hbefore := h.conserved chunksBeforeError sums_chunksBeforeError hopen
    rw [hleft, List.append_nil] at hbefore
    rw [List.append_nil, hbefore]

theorem run_next {labels : List (List HostCall)} (h : (transferSystem body).Run labels (point, n))
    (hs : Transfer.Step point n calls point' n') :
    (transferSystem body).Run (labels ++ [calls]) (point', n') :=
  h.next hs

theorem run_transferred {labels : List (List HostCall)}
    (h : (transferSystem body).Run labels (point, n)) :
    Transferred body labels.flatten point n := by
  have hrun := h.invariant (fun labels s => Transferred body labels.flatten s.1 s.2)
    (by rintro s rfl; exact transferred_start body)
    (by
      intro labels s label s' hs hstep
      rw [List.flatten_append, List.flatten_singleton]
      exact transferred_step hs hstep)
  exact hrun

/-- A transfer passes on a prefix of its body, and the whole of it when it
succeeds. Every write keeps to the capacity that was just checked. -/
theorem transfer_lossless (body : Body) (labels : List (List HostCall))
    (point : Transfer) (responseBytes : Nat)
    (h : (transferSystem body).Run labels (point, responseBytes)) :
    passed labels.flatten <+: contents allChunks body ∧
    (point = .complete (.ok ()) → passed labels.flatten = contents allChunks body) ∧
    (∀ e, point = .complete (.error (.responseStream e)) →
      passed labels.flatten = contents chunksBeforeError body) ∧
    Guarded labels.flatten ∧ responseBytes = min (taken labels.flatten).length (2 ^ 64 - 1) := by
  obtain ⟨hguarded, hcounted, hwithin, hconserved, hstream⟩ := run_transferred h
  refine ⟨hwithin, ?_, hstream, hguarded, hcounted⟩
  rintro rfl
  have hall := hconserved allChunks sums_allChunks (fun hf => hf)
  rwa [left, List.append_nil] at hall

/-- Three bytes for a host that is full at first and then takes two at once. -/
theorem transfer_lossless_full_host :
    passed [.checkWrite (.ok 0), .subscribe, .checkWrite (.ok 2), .write [1, 2] (.ok ()),
      .checkWrite (.ok (2 ^ 40)), .write [3] (.ok ()), .flush (.ok ()), .subscribe] =
      contents allChunks (.sync [1, 2, 3]) := by
  have hstart : (transferSystem (.sync [1, 2, 3])).Run [] (.write [1, 2, 3] none, 0) := .start rfl
  have hawaited := run_next (run_next hstart (.full (by decide))) .awaited
  have hfirst := run_next hawaited (.written 2 (by decide) (by decide))
  have hsecond := run_next hfirst (.written (2 ^ 40) (by decide) (by decide))
  have hdone := run_next (run_next (run_next hsecond .bufferWritten) .flush) .flushed
  exact (transfer_lossless _ _ _ _ hdone).2.1 rfl

end Runs

section Sending

variable {crates : Crates} {host : FreshResponse} {out : ResponseOutparam}

def Sending (crates : Crates) (labels : List Label) : Sender → Prop
  | .building _ _ _ | .built _ | .rendering _ _ => passed (callsOf labels) = []
  | .transfer (.closed _) _ | .ended _ => True
  | .transfer point n => ∃ core app earlier calls, callsOf labels = earlier ++ calls.flatten ∧
      passed earlier = [] ∧ (transferSystem (render crates app core).1.body).Run calls (point, n)

theorem sending_transfer_iff {labels : List Label} {point : Transfer} {n : Nat}
    (hopen : ∀ result, point ≠ .closed result) :
    Sending crates labels (.transfer point n) ↔
      ∃ core app earlier calls, callsOf labels = earlier ++ calls.flatten ∧ passed earlier = [] ∧
        (transferSystem (render crates app core).1.body).Run calls (point, n) := by
  cases point with
  | closed result => exact absurd rfl (hopen result)
  | _ => exact Iff.rfl

theorem prepare_passes (response : Http.Response) (setup : Preparation) :
    passed (prepare response setup).1 = [] := by
  rw [prepare]
  cases setup.fromList with
  | error e => rfl
  | ok _ => cases setup.setStatusCode <;> cases setup.body <;> cases setup.write <;> rfl

theorem run_sending {labels : List Label} {s : Sender}
    (h : (senderSystem crates host out).Run labels s) :
    Sending crates labels s := by
  apply h.invariant (fun labels s => Sending crates labels s)
  · rintro s ⟨request, config, rfl⟩
    rfl
  · intro labels s label s' hs hstep
    have hsilent : ∀ event, passed (callsOf labels) = [] →
      passed (callsOf (labels ++ [⟨event, []⟩])) = [] := by
      intro event
      rw [callsOf_concat, List.append_nil]
      exact id
    cases hstep with
    | built _ | call _ _ | handleWithContext _ => exact hsilent _ hs
    | @prepared handler app out' outgoing calls setup _ hp =>
      have hstart : ∀ result, Transfer.start
        (render crates app handler.core).1.body ≠ .closed result := by
        cases (render crates app handler.core).1.body <;> rintro result ⟨⟩
      rw [sending_transfer_iff hstart]
      refine ⟨handler.core, app, _, [], (List.append_nil _).symm, ?_, .start rfl⟩
      have hpassed := prepare_passes (render crates app handler.core).1 setup
      rw [hp] at hpassed
      have hnone : passed (callsOf labels) = [] := hs
      rw [callsOf_concat, passed_append, passed_append, hnone, hpassed]
      rfl
    | @transfer point n calls point' n' ht =>
      obtain ⟨-, -, hpoint, hpoint'⟩ := transfer_calls ht
      obtain ⟨core, app, earlier, sent, hcalls, hearlier, hrun⟩ :=
        (sending_transfer_iff hpoint).mp hs
      rw [sending_transfer_iff hpoint']
      refine ⟨core, app, earlier, sent ++ [calls], ?_, hearlier, run_next hrun ht⟩
      rw [callsOf_concat, hcalls, List.flatten_append, List.flatten_singleton, List.append_assoc]
    | buildFailed | callFailed | unused | dropRendering |
        noOutparam | unprepared | dropTransfer | close
    | finish => exact trivial

/-- What a sender passes on before it closes its output is a prefix of the
body that it rendered. -/
theorem run_passed {labels : List Label} {point : Transfer} {n : Nat}
    (h : (senderSystem crates host out).Run labels (.transfer point n))
    (hopen : ∀ result, point ≠ .closed result) :
    ∃ core app, passed (callsOf labels) <+: contents allChunks (render crates app core).1.body := by
  obtain ⟨core, app, earlier, calls, hcalls, hearlier, hrun⟩ :=
    (sending_transfer_iff hopen).mp (run_sending h)
  refine ⟨core, app, ?_⟩
  rw [hcalls, passed_append, hearlier, List.nil_append]
  exact (run_transferred hrun).within

end Sending

end LeptosWasi.Losslessness
