import Csopesy.Echo
import Csopesy.Stopping

/-! # How soon a thread answers

Two bounds on the steps of one thread, whatever the other one does meanwhile.

A key that is posted makes `dirty_` true, and the worker does not sleep on a set flag: at
most twelve steps later it has passed a frame with the key to `Terminal::write`, unless
the scheduler was stopped (`echo_written_soon`).  No timeout, deadline or interval occurs
in the bound.

A thread inside `mu_` leaves it within three of its steps, and of the terminal these call
the clock alone (`mu_left_soon`).  So slow output never delays a post.
-/
namespace Csopesy
open Transition

namespace ConsoleApp
variable {a b : ConsoleApp} {params : Parameters}

/-- A step of a worker. -/
def ofWorker : Act → Bool
  | .worker _ _ => true
  | .input _ => false

/-! ## From a key to the frame in flight -/

/-- The steps of a worker until its tick has cleared a set `dirty_`. -/
def toTick : WorkerPc → Nat
  | .ticking _ => 1
  | .sized _ => 2
  | .stepping => 3
  | .leaving => 4
  | .entering _ | .rechecking _ => 5
  | .check | .woken _ _ => 6
  | .top | .blocked _ => 7
  | .parking _ | .writing => 8
  | .unwritten _ => 9
  | .built _ | .unborn | .exited => 10

theorem toTick_bounds (pc : WorkerPc) : 0 < toTick pc ∧ toTick pc ≤ 10 := by
  cases pc <;> simp [toTick]

/-- While `dirty_` is set and `stop_` is not, a worker comes closer to its tick. -/
theorem toTick_lt {i : Nat} {sh sh' : Shared} {pc pc' : WorkerPc} {act : WorkerAct}
    (h : WorkerStep i sh pc act sh' pc') (hdirty : sh.sched.dirty = true)
    (hstop : sh.sched.stop = false) (hdirty' : sh'.sched.dirty = true) :
    toTick pc' < toTick pc := by
  have hpred : ∀ seen, sh.sched.waitPredicate seen = true := by
    intro seen
    simp [Scheduler.waitPredicate, hdirty]
  cases h with
  | exit hs | stop hs => exact absurd (hstop.symm.trans hs) Bool.false_ne_true
  | refuse hp | rerefuse hp => exact absurd (hp.symm.trans (hpred _)) Bool.false_ne_true
  | @tick sz now =>
    exact absurd ((sh.sched.tick_dirty sz.1 now).symm.trans hdirty') Bool.false_ne_true
  | _ => simp [toTick]

/-- A frame that shows the current document is built and not yet written. -/
def EchoInFlight (a : ConsoleApp) : Prop :=
  ∃ i frame, a.handle = some i ∧ (a.workers i).pending = some frame ∧
    Shows frame a.sched.interp.document

/-- The steps of the worker until `dirty_` is clear. -/
def untilClean (a : ConsoleApp) : Nat :=
  if a.sched.dirty then (a.handle.elim 10 fun i => toTick (a.workers i)) else 0

theorem untilClean_of_dirty (hdirty : a.sched.dirty = true) :
    untilClean a = a.handle.elim 10 fun i => toTick (a.workers i) := if_pos hdirty

theorem untilClean_bounds (hdirty : a.sched.dirty = true) :
    0 < untilClean a ∧ untilClean a ≤ 10 := by
  rw [untilClean_of_dirty hdirty]
  cases a.handle with
  | none => exact ⟨Nat.zero_lt_succ 9, Nat.le_refl 10⟩
  | some i => exact toTick_bounds _

theorem untilClean_input {act : InputAct} (h : InputStep a act b) (hdirty : a.sched.dirty = true) :
    b.sched.dirty = true ∧ untilClean b ≤ untilClean a := by
  have hdirty' : b.sched.dirty = true := by
    rcases h.sched_cases with heq | ⟨ph, c, -, -, heq⟩
    · rw [heq]
      exact hdirty
    · rw [heq]
      cases c with
      | postEvent ev => rfl
      | wake | requestStop => exact hdirty
  refine ⟨hdirty', ?_⟩
  rw [untilClean_of_dirty hdirty', untilClean_of_dirty hdirty]
  have hsame : b.handle = a.handle → b.spawned = a.spawned →
      (b.handle.elim 10 fun i => toTick (b.workers i)) ≤
        a.handle.elim 10 fun i => toTick (a.workers i) := by
    intro hhandle hspawned
    rw [hhandle]
    cases a.handle with
    | none => exact Nat.le_refl 10
    | some i =>
      rcases h.worker_cases i with heq | ⟨seen, hblocked, hwoken⟩ | ⟨rfl, hnew, -⟩
      · exact le_of_eq (congrArg toTick heq)
      · show toTick (b.workers i) ≤ toTick (a.workers i)
        rw [hblocked, hwoken]
        exact Nat.le_succ 6
      · omega
  cases h with
  | start hw h =>
    rw [hw]
    exact (toTick_bounds _).2
  | @join ph i hph hw hi h =>
    rw [hw]
    show 10 ≤ toTick (a.workers i)
    rw [hi]
    exact Nat.le_refl 10
  | _ => exact hsame rfl rfl

/-- **One step** while `dirty_` is set and `stop_` is not. -/
theorem untilClean_step (hr : (system params).Reachable a) {act : Act} (h : Step a act b)
    (hdirty : a.sched.dirty = true) (hstop : a.sched.stop = false) :
    (b.sched.dirty = true ∨ EchoInFlight b) ∧
      untilClean b + (if ofWorker act then 1 else 0) ≤ untilClean a := by
  cases h with
  | input h =>
    obtain ⟨hdirty', hle⟩ := untilClean_input h hdirty
    exact ⟨.inl hdirty', hle⟩
  | @worker i pc pc' act sh hpc h =>
    have hhandle : a.handle = some i :=
      (wellFormed params a hr).single i (hpc ▸ h.live)
    have hbefore : untilClean a = toTick pc := by
      rw [untilClean_of_dirty hdirty, hhandle]
      exact congrArg toTick hpc
    have hafter : Function.update a.workers i pc' i = pc' := Function.update_self ..
    cases hdirty' : sh.sched.dirty with
    | true =>
      refine ⟨.inl rfl, ?_⟩
      have hlt := toTick_lt h hdirty hstop hdirty'
      have hnow : untilClean { a with toShared := sh, workers := Function.update a.workers i pc' } =
          toTick pc' := by
        rw [untilClean_of_dirty hdirty']
        show a.handle.elim 10 (fun j => toTick (Function.update a.workers i pc' j)) = toTick pc'
        rw [hhandle]
        exact congrArg toTick hafter
      rw [hnow, hbefore]
      exact hlt
    | false =>
      -- only a tick clears the flag, and it builds the frame
      rcases h.sched_cases with heq | ⟨sz, now, rfl, rfl, heq, rfl⟩
      · exact absurd (hdirty'.symm.trans (heq ▸ hdirty)) Bool.false_ne_true
      · refine ⟨.inr ⟨i, Scheduler.frameOf a.sched.interp sz.1, hhandle, ?_, ?_⟩, ?_⟩
        · show (Function.update a.workers i _ i).pending = _
          rw [hafter, pending_tick, hdirty, Bool.or_true, if_pos rfl]
        · have hdoc : sh.sched.interp.document = a.sched.interp.document := by
            have hinterp : sh.sched.interp = _ :=
              (congrArg Scheduler.interp heq).trans (a.sched.tick_interp sz.1 now)
            rw [hinterp]
            split <;> rfl
          show Shows _ sh.sched.interp.document
          rw [hdoc]
          exact frameOf_shows _ sz
        · rw [hbefore]
          have hclean : untilClean { a with
              toShared := sh, workers := Function.update a.workers i
                (.built (a.sched.tickLocked none sz.1 now).2.2) } = 0 :=
            if_neg (by simp [hdirty'])
          rw [hclean]
          exact Nat.le_refl 1

/-! ## From the frame in flight to the terminal -/

/-- The terminal's input only grows. -/
theorem writes_step {act : Act} (h : Step a act b) : ∃ rest, b.writes = a.writes ++ rest := by
  cases h with
  | input h =>
    cases h with
    | paint hne h => exact ⟨_, rfl⟩
    | farewell h => exact ⟨_, rfl⟩
    | _ => exact ⟨[], (List.append_nil _).symm⟩
  | worker hpc h =>
    cases h with
    | write hne => exact ⟨_, rfl⟩
    | _ => exact ⟨[], (List.append_nil _).symm⟩

theorem writes_run {labels : List Act} (h : (system params).Run a labels b) :
    ∃ rest, b.writes = a.writes ++ rest := by
  induction h with
  | nil => exact ⟨[], (List.append_nil _).symm⟩
  | cons hst _ ih =>
    obtain ⟨rest, heq⟩ := writes_step hst
    obtain ⟨rest', heq'⟩ := ih
    exact ⟨rest ++ rest', by rw [heq', heq, List.append_assoc]⟩

/-- The steps of worker `i` until its frame is passed to `Terminal::write`. -/
def untilWritten (i : Nat) (a : ConsoleApp) : Nat :=
  match a.workers i with
  | .built _ => 2
  | .unwritten _ => 1
  | _ => 0

theorem untilWritten_of_pending {i : Nat} {frame : Bytes}
    (h : (a.workers i).pending = some frame) : 0 < untilWritten i a ∧ untilWritten i a ≤ 2 := by
  unfold untilWritten
  cases hpc : a.workers i with
  | built f => exact ⟨Nat.zero_lt_succ 1, Nat.le_refl 2⟩
  | unwritten f => exact ⟨Nat.zero_lt_succ 0, Nat.le_succ 1⟩
  | _ =>
    rw [hpc] at h
    exact absurd h (by simp [WorkerPc.pending])

/-- **One step** while worker `i` has a frame to write. -/
theorem untilWritten_step (hr : (system params).Reachable a) {act : Act} (h : Step a act b)
    {i : Nat} {frame : Bytes} (hpending : (a.workers i).pending = some frame) :
    ((b.workers i).pending = some frame ∨
      b.writes = a.writes ++ [⟨.worker i, frame⟩]) ∧
      untilWritten i b + (if ofWorker act then 1 else 0) ≤ untilWritten i a := by
  have ha := wellFormed params a hr
  have hlive : (a.workers i).live = true := by
    cases hpc : a.workers i with
    | unborn | exited =>
      rw [hpc] at hpending
      exact absurd hpending (by simp [WorkerPc.pending])
    | _ => rfl
  cases h with
  | input h =>
    -- the input thread wakes sleepers only
    have hsame : b.workers i = a.workers i := by
      rcases h.worker_cases i with heq | ⟨seen, hblocked, -⟩ | ⟨rfl, -, -, -, -⟩
      · exact heq
      · rw [hblocked] at hpending
        exact absurd hpending (by simp [WorkerPc.pending])
      · rw [ha.fresh _ (Nat.le_refl _)] at hlive
        exact absurd hlive Bool.false_ne_true
    refine ⟨.inl (hsame ▸ hpending), le_of_eq ?_⟩
    unfold untilWritten
    rw [hsame]
    rfl
  | @worker j pc pc' act sh hpc h =>
    obtain rfl := ha.live_unique (i := j) (j := i) (hpc ▸ h.live) hlive
    have hafter : Function.update a.workers j pc' j = pc' := Function.update_self ..
    rw [hpc] at hpending
    have hbefore : untilWritten j a = untilWritten j { a with workers := fun _ => pc } := by
      unfold untilWritten
      rw [hpc]
    have hnow : untilWritten j
        { a with toShared := sh, workers := Function.update a.workers j pc' } =
        untilWritten j { a with workers := fun _ => pc' } := by
      unfold untilWritten
      show (match Function.update a.workers j pc' j with
        | .built _ => 2
        | .unwritten _ => 1
        | _ => 0) = _
      rw [hafter]
    rw [hbefore, hnow]
    show ((Function.update a.workers j pc' j).pending = some frame ∨ _) ∧ _
    rw [hafter]
    cases h with
    | unlock => exact ⟨.inl hpending, Nat.le_refl 2⟩
    | @write f hne =>
      have hsome : some f = some frame := by
        rw [← hpending]
        simp [WorkerPc.pending, hne]
      obtain rfl := Option.some.inj hsome
      exact ⟨.inr rfl, Nat.le_refl 1⟩
    | skip => exact absurd hpending (by simp [WorkerPc.pending])
    | _ => exact absurd hpending (by simp [WorkerPc.pending])

/-- **The echo is written soon.**  From a state with `dirty_` set, in any run in which the
worker makes twelve steps and the scheduler is not stopped, a frame that shows the
document of a later state goes to `Terminal::write`. -/
theorem echo_written_soon (ha : (system params).Reachable a) (hdirty : a.sched.dirty = true)
    {labels : List Act} (hrun : (system params).Run a labels b) (hstop : b.sched.stop = false)
    (hcount : 12 ≤ labels.countP ofWorker) :
    ∃ pre post c i frame rest, labels = pre ++ post ∧ (system params).Run a pre c ∧
      (system params).Run c post b ∧ Shows frame c.sched.interp.document ∧
      b.writes = a.writes ++ rest ∧ ⟨.worker i, frame⟩ ∈ rest := by
  have hrunning : ∀ {c labels}, (system params).Run c labels b → c.sched.stop = false := by
    intro c labels hrun
    by_contra hne
    refine absurd (hstop.symm.trans ?_) Bool.false_ne_true
    rw [run_sched_eq hrun]
    refine run_stop (Bool.eq_true_of_not_eq_false hne) _ fun op hop => ?_
    obtain ⟨act, -, hact⟩ := List.mem_filterMap.mp hop
    exact op?_threaded hact
  obtain ⟨hpos, hten⟩ := untilClean_bounds hdirty
  obtain ⟨pre, c, post, rfl, hpre, hpost, ⟨i, frame, -, hpending, hshows⟩, hbound, -⟩ :=
    hrun.leads_to (P := fun a => a.sched.dirty = true) (Q := EchoInFlight) (p := ofWorker)
      (q := fun _ => True) (f := untilClean)
      (fun s act u bs hr hs hst hrest => by
        obtain ⟨hnext, hle⟩ := untilClean_step hr hst hs (hrunning (.cons hst hrest))
        exact ⟨hnext, hle, trivial⟩)
      (fun s hs => (untilClean_bounds hs).1) ha hdirty (by omega)
  rw [List.countP_append] at hcount
  obtain ⟨hpos', htwo⟩ := untilWritten_of_pending hpending
  obtain ⟨mid, d, late, rfl, hmid, hlate, ⟨rest, hrest, hwritten⟩, -⟩ :=
    hpost.leads_to (p := ofWorker) (q := fun _ => True) (f := untilWritten i)
      (P := fun d => (d.workers i).pending = some frame ∧ ∃ rest, d.writes = c.writes ++ rest)
      (Q := fun d => ∃ rest, d.writes = c.writes ++ rest ∧ ⟨.worker i, frame⟩ ∈ rest)
      (fun s act u bs hr hs hst hrest => by
        obtain ⟨hpending, rest, heq⟩ := hs
        obtain ⟨hnext, hle⟩ := untilWritten_step hr hst hpending
        refine ⟨?_, hle, trivial⟩
        rcases hnext with hnext | hwrite
        · obtain ⟨rest', heq'⟩ := writes_step hst
          exact .inl ⟨hnext, rest ++ rest', by rw [heq', heq, List.append_assoc]⟩
        · refine .inr ⟨rest ++ [⟨.worker i, frame⟩], ?_, by simp⟩
          rw [hwrite, heq, List.append_assoc])
      (fun s hs => (untilWritten_of_pending hs.1).1) (hpre.reachable ha)
      ⟨hpending, [], (List.append_nil _).symm⟩ (by omega)
  obtain ⟨early, hearly⟩ := writes_run hpre
  obtain ⟨last, hlast⟩ := writes_run hlate
  refine ⟨pre, mid ++ late, c, i, frame, early ++ rest ++ last, rfl, hpre, hpost, hshows, ?_, ?_⟩
  · rw [hlast, hrest, hearly]
    simp only [List.append_assoc]
  · exact List.mem_append_left _ (List.mem_append_right _ hwritten)

/-- A key, and a worker that goes through one round from the head of its loop. -/
theorem echo_written_soon_key :
    ∃ a b labels, (system {}).Reachable a ∧ a.sched.dirty = true ∧ (system {}).Run a labels b ∧
      ∃ pre post c i frame rest, labels = pre ++ post ∧ (system {}).Run a pre c ∧
        (system {}).Run c post b ∧ Shows frame c.sched.interp.document ∧
        b.writes = a.writes ++ rest ∧ ⟨.worker i, frame⟩ ∈ rest := by
  obtain ⟨a, ha, -, hmu, hsched, htop⟩ := reachable_typed {} [KeyEvent.mk .char 0x61]
  have hdirty : a.sched.dirty = true := by
    rw [hsched]
    rfl
  have hstop : a.sched.stop = false := by
    rw [hsched]
    rfl
  obtain ⟨b, hround, hticking, hkept, -⟩ :=
    ticking_run htop hmu hstop hdirty ⟨{}, Size.default_visible⟩
  obtain ⟨c, hwritten, hwriting, hfree, -, hticked, -⟩ :=
    written_run hticking (by rw [hkept]; exact hdirty) 0
  have hstop' : c.sched.stop = false := by
    rw [hticked, (b.sched.tickLocked_flags {} 0).1, hkept]
    exact hstop
  have hnext : ∃ d, (system {}).Run c [.worker 0 .written, .worker 0 .lock, .worker 0 .enter] d ∧
      d.sched.stop = false :=
    ⟨_, .cons (.worker hwriting .written) <|
      .cons (.worker rfl (.lock hfree)) <|
      .cons (.worker rfl (.enter hstop')) (.nil _), hstop'⟩
  obtain ⟨d, hnext, hstop''⟩ := hnext
  have hrun := (hround.append hwritten).append hnext
  exact ⟨a, d, _, ha, hdirty, hrun, echo_written_soon ha hdirty hrun hstop'' (by decide)⟩

/-! ## Leaving `mu_` -/

def ofThread (th : Thread) : Act → Bool
  | .input _ => th == .input
  | .worker i _ => th == .worker i

/-- The members of `Terminal` that the steps call, `flush` as the end of `write`.  The input
thread calls `readEvent` between its calls of the scheduler. -/
inductive TerminalCall
  | size
  | nowMs
  | write
deriving DecidableEq, Repr

/-- What the step calls, or returns from. -/
def terminalCall : Act → Option TerminalCall
  | .input (.draw _) | .worker _ (.size _) => some .size
  -- `pollTimeoutMsLocked` while the marquee runs, and the body of `tick`
  | .worker _ .enter | .worker _ (.tick _ _) => some .nowMs
  | .input .paint | .input .painted | .input .farewell | .input .finish => some .write
  | .worker _ .write | .worker _ .written => some .write
  | _ => none

/-- The steps of a worker inside `mu_`. -/
def WorkerPc.toUnlock : WorkerPc → Nat
  | .check => 3
  | .entering _ | .rechecking _ | .ticking _ => 2
  | .parking _ | .leaving | .built _ => 1
  | _ => 0

/-- The steps of the input thread inside `mu_`. -/
def InputPc.toUnlock : InputPc → Nat
  | .locked _ _ => 2
  | .updated _ _ => 1
  | _ => 0

def toUnlock (th : Thread) (a : ConsoleApp) : Nat :=
  match th with
  | .input => InputPc.toUnlock a.input
  | .worker i => WorkerPc.toUnlock (a.workers i)

theorem toUnlock_bounds {th : Thread} (h : a.inside th = true) :
    0 < toUnlock th a ∧ toUnlock th a ≤ 3 := by
  cases th with
  | input =>
    have hin : a.input.inside = true := h
    show 0 < InputPc.toUnlock a.input ∧ InputPc.toUnlock a.input ≤ 3
    cases hpc : a.input with
    | locked | updated => simp [InputPc.toUnlock]
    | _ =>
      rw [hpc] at hin
      exact absurd hin Bool.false_ne_true
  | worker i =>
    have hin : (a.workers i).inside = true := h
    show 0 < WorkerPc.toUnlock (a.workers i) ∧ WorkerPc.toUnlock (a.workers i) ≤ 3
    cases hpc : a.workers i with
    | check | entering | parking | rechecking | leaving | ticking | built =>
      simp [WorkerPc.toUnlock]
    | _ =>
      rw [hpc] at hin
      exact absurd hin Bool.false_ne_true

/-- A worker inside `mu_` comes closer to its unlock, and reads the clock at most. -/
theorem toUnlock_worker {i : Nat} {sh sh' : Shared} {pc pc' : WorkerPc} {act : WorkerAct}
    (h : WorkerStep i sh pc act sh' pc') (hin : pc.inside = true) :
    WorkerPc.toUnlock pc' < WorkerPc.toUnlock pc ∧
      ∀ call ∈ terminalCall (.worker i act), call = .nowMs := by
  cases h with
  | exit | pass | refuse | block | repass | rerefuse | stop | leave | unlock =>
    exact ⟨by simp [WorkerPc.toUnlock], fun call hcall => absurd hcall (Option.not_mem_none call)⟩
  | enter | tick =>
    exact ⟨by simp [WorkerPc.toUnlock], fun call hcall => (Option.some.inj hcall).symm⟩
  | _ => exact absurd hin Bool.false_ne_true

theorem toUnlock_input {act : InputAct} (h : InputStep a act b) (hin : a.input.inside = true) :
    InputPc.toUnlock b.input < InputPc.toUnlock a.input ∧
      ∀ call ∈ terminalCall (.input act), call = .nowMs := by
  cases h with
  | update h | unlock h =>
    rw [h]
    exact ⟨by simp [InputPc.toUnlock], fun call hcall => absurd hcall (Option.not_mem_none call)⟩
  | draw sz h | skip h | paint hne h | painted h | start hw h | startAgain hw h
  | call c hph h | lock hmu h | notifyAll hc h | notifyOne hj h | notifyNone hnone h
  | join hph hw hi h | joinNothing hph hw h | farewell h | finish h =>
    rw [h] at hin
    exact absurd hin Bool.false_ne_true

/-- **One step** while `th` is inside `mu_`. -/
theorem toUnlock_step (hr : (system params).Reachable a) {act : Act} (h : Step a act b)
    {th : Thread} (hin : a.inside th = true) :
    toUnlock th b + (if ofThread th act then 1 else 0) ≤ toUnlock th a ∧
      (ofThread th act = true → ∀ call ∈ terminalCall act, call = .nowMs) := by
  have ha := wellFormed params a hr
  cases th with
  | input =>
    have hin' : a.input.inside = true := hin
    cases h with
    | input h =>
      obtain ⟨hlt, hcall⟩ := toUnlock_input h hin'
      exact ⟨hlt, fun _ => hcall⟩
    | worker hpc h => exact ⟨Nat.le_refl _, fun hno => absurd hno (by simp [ofThread])⟩
  | worker i =>
    have hin' : (a.workers i).inside = true := hin
    cases h with
    | input h =>
      refine ⟨le_of_eq (congrArg WorkerPc.toUnlock ?_), fun hno => absurd hno (by simp [ofThread])⟩
      rcases h.worker_cases i with heq | ⟨seen, hblocked, -⟩ | ⟨rfl, -, -, -, -⟩
      · exact heq
      · rw [hblocked] at hin'
        exact absurd hin' Bool.false_ne_true
      · rw [ha.fresh _ (Nat.le_refl _)] at hin'
        exact absurd hin' Bool.false_ne_true
    | @worker j pc pc' act sh hpc h =>
      have hlive : (a.workers i).live = true := by
        cases hpc : a.workers i with
        | unborn | exited =>
          rw [hpc] at hin'
          exact absurd hin' Bool.false_ne_true
        | _ => rfl
      obtain rfl := ha.live_unique (i := j) (j := i) (hpc ▸ h.live) hlive
      rw [hpc] at hin'
      obtain ⟨hlt, hcall⟩ := toUnlock_worker h hin'
      refine ⟨?_, fun _ => hcall⟩
      rw [show ofThread (.worker j) (.worker j act) = true from beq_self_eq_true _, if_pos rfl]
      show WorkerPc.toUnlock (Function.update a.workers j pc' j) + 1 ≤
        WorkerPc.toUnlock (a.workers j)
      rw [Function.update_self, hpc]
      exact hlt

/-- **`mu_` is left soon.**  In any run a thread inside `mu_` is outside after at most three
of its steps, which call no member of the terminal but `nowMs`. -/
theorem mu_left_soon (ha : (system params).Reachable a) {th : Thread} (hin : a.inside th = true)
    {labels : List Act} (hrun : (system params).Run a labels b)
    (hcount : 3 ≤ labels.countP (ofThread th)) :
    ∃ pre c post, labels = pre ++ post ∧ (system params).Run a pre c ∧
      (system params).Run c post b ∧ c.inside th = false ∧ pre.countP (ofThread th) ≤ 3 ∧
      ∀ act ∈ pre, ofThread th act = true → ∀ call ∈ terminalCall act, call = .nowMs := by
  obtain ⟨-, hthree⟩ := toUnlock_bounds hin
  obtain ⟨pre, c, post, rfl, hpre, hpost, hout, hbound, hquiet⟩ :=
    hrun.leads_to (P := fun a => a.inside th = true) (Q := fun a => a.inside th = false)
      (p := ofThread th)
      (q := fun act => ofThread th act = true → ∀ call ∈ terminalCall act, call = .nowMs)
      (f := toUnlock th)
      (fun s act u bs hr hs hst _ => by
        obtain ⟨hle, hquiet⟩ := toUnlock_step hr hst hs
        refine ⟨?_, hle, hquiet⟩
        cases u.inside th with
        | true => exact .inl rfl
        | false => exact .inr rfl)
      (fun s hs => (toUnlock_bounds hs).1) ha hin (by omega)
  exact ⟨pre, c, post, rfl, hpre, hpost, hout, hbound.trans hthree, hquiet⟩

/-- A worker at its check of `stop_`, with a key to echo. -/
theorem mu_left_soon_check :
    ∃ a b labels, (system {}).Reachable a ∧ a.inside (.worker 0) = true ∧
      (system {}).Run a labels b ∧ ∃ pre c post, labels = pre ++ post ∧ (system {}).Run a pre c ∧
        (system {}).Run c post b ∧ c.inside (.worker 0) = false ∧
        pre.countP (ofThread (.worker 0)) ≤ 3 ∧
        ∀ act ∈ pre, ofThread (.worker 0) act = true →
          ∀ call ∈ terminalCall act, call = .nowMs := by
  obtain ⟨a, ha, -, hmu, hsched, htop⟩ := reachable_typed {} [KeyEvent.mk .char 0x61]
  have hstop : a.sched.stop = false := by
    rw [hsched]
    rfl
  have hpass : a.sched.waitPredicate a.sched.wakeTick = true := by
    rw [hsched]
    rfl
  have hlocked : ∃ c, (system {}).Reachable c ∧ c.workers 0 = .check ∧ c.sched = a.sched :=
    ⟨_, ha.step (.worker htop (.lock hmu)), rfl, rfl⟩
  obtain ⟨c, hc, hcheck, hsame⟩ := hlocked
  rw [← hsame] at hstop hpass
  have hrun : ∃ b, (system {}).Run c [.worker 0 .enter, .worker 0 .test, .worker 0 .leave] b :=
    ⟨_, .cons (.worker hcheck (.enter hstop)) <|
      .cons (.worker rfl (.pass hpass)) <|
      .cons (.worker rfl (.leave hstop)) (.nil _)⟩
  obtain ⟨b, hrun⟩ := hrun
  have hin : c.inside (.worker 0) = true := congrArg WorkerPc.inside hcheck
  exact ⟨c, b, _, hc, hin, hrun, mu_left_soon hc hin hrun (by decide)⟩

end ConsoleApp
end Csopesy
