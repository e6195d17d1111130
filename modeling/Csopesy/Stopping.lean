import Csopesy.ConsoleAppInvariants

/-! # Stopping

The terminal receives the first frame, then whole frames of workers, then the
goodbye line, and never two strings at once.  After `requestStop` has set `stop_`
a worker ticks at most once more: the flag is never cleared, and each tick leaves
the worker on the far side of a check of it (`ticks_after_stop`).  After `join`
has returned, a worker only locks, checks and exits, also one that a later
`start` creates (`after_join`).  Together these are the order of a shutdown
(`shutdown_order`).
-/
namespace Csopesy
open Transition

/-- From the goodbye line on. -/
def InputPc.ended : InputPc → Bool
  | farewell => true
  | pc => pc.phase == .closed

theorem InputPc.pastJoin_of_ended {pc : InputPc} (h : pc.ended = true) :
    pc.phase.pastJoin = true := by
  cases pc with
  | farewell => rfl
  | start | drawing | painting => exact Bool.noConfusion h
  | ready ph | calling ph _ | locked ph _ | updated ph _ | notifying ph _ =>
    cases ph with
    | closed => rfl
    | _ => exact Bool.noConfusion h

theorem Phase.afterCall_closed (ph : Phase) (c : Call) :
    (ph.afterCall c == .closed) = (ph == .closed) := by
  cases ph with
  | looping => by_cases hc : c = .requestStop <;> simp [Phase.afterCall, hc]
  | _ => rfl

theorem Phase.afterJoin_closed (ph : Phase) : (ph.afterJoin == .closed) = (ph == .closed) := by
  cases ph <;> rfl

namespace ConsoleApp
variable {a b : ConsoleApp}

/-! ## What the terminal receives -/

/-- The first frame, then whole frames of workers. -/
def Opening (writes : List Write) : Prop :=
  ∃ first frames, writes = ⟨.input, first⟩ :: frames ∧ IsFrame first ∧
    ∀ w ∈ frames, (∃ i, w.author = .worker i) ∧ IsFrame w.bytes

/-- The same, and the goodbye line at the end. -/
def Closing (writes : List Write) : Prop :=
  ∃ before, Opening before ∧ writes = before ++ [⟨.input, farewell⟩]

theorem Opening.append {writes : List Write} (h : Opening writes) (i : Nat) {frame : Bytes}
    (hframe : IsFrame frame) : Opening (writes ++ [⟨.worker i, frame⟩]) := by
  obtain ⟨first, frames, rfl, hfirst, hframes⟩ := h
  refine ⟨first, frames ++ [⟨.worker i, frame⟩], rfl, hfirst, fun w hw => ?_⟩
  rcases List.mem_append.mp hw with hw | hw
  · exact hframes w hw
  · rw [List.mem_singleton.mp hw]
    exact ⟨⟨i, rfl⟩, hframe⟩

/-- How far the terminal's input has come, by where the input thread is. -/
structure WritesInOrder (a : ConsoleApp) : Prop where
  before : a.input.drawn = false → a.writes = []
  during : a.input.drawn = true → a.input.ended = false → Opening a.writes
  after : a.input.ended = true → Closing a.writes

theorem WritesInOrder.of_eq (h : WritesInOrder a) (hdrawn : b.input.drawn = a.input.drawn)
    (hended : b.input.ended = a.input.ended) (hwrites : b.writes = a.writes) :
    WritesInOrder b := by
  refine ⟨?_, ?_, ?_⟩ <;> rw [hwrites]
  · rw [hdrawn]
    exact h.before
  · rw [hdrawn, hended]
    exact h.during
  · rw [hended]
    exact h.after

theorem writesInOrder_input (params : Parameters) (hr : (system params).Reachable a)
    (hw : WritesInOrder a) {act : InputAct} (h : InputStep a act b) : WritesInOrder b := by
  have hframe := (pending_isFrame params a hr).1
  cases h with
  | skip h => exact absurd rfl (hframe _ h).ne_nil
  | paint hne h =>
    -- this is the first write of all
    have hnil := hw.before (by rw [h]; rfl)
    refine ⟨fun hd => Bool.noConfusion hd, fun _ _ => ?_, fun he => Bool.noConfusion he⟩
    show Opening (a.writes ++ _)
    rw [hnil]
    exact ⟨_, [], rfl, hframe _ h, fun w hw => absurd hw List.not_mem_nil⟩
  | farewell h =>
    refine ⟨fun hd => Bool.noConfusion hd, fun _ he => Bool.noConfusion he, fun _ => ?_⟩
    exact ⟨a.writes, hw.during (by rw [h]; rfl) (by rw [h]; rfl), rfl⟩
  | @start ph hw' h | @startAgain ph hw' h =>
    refine hw.of_eq (by rw [h]; rfl) ?_ rfl
    rw [h]
    cases ph <;> rfl
  | @notifyAll ph c hc h =>
    refine hw.of_eq (by rw [h]; rfl) ?_ rfl
    rw [h]
    exact Phase.afterCall_closed ph c
  | join hph hw' hi h | joinNothing hph hw' h =>
    refine hw.of_eq (by rw [h]; rfl) ?_ rfl
    rw [h]
    exact Phase.afterJoin_closed _
  | draw sz h | painted h | call c hph h | lock hmu h | update h | unlock h | notifyOne hj h
  | notifyNone hnone h | finish h =>
    exact hw.of_eq (by rw [h]; rfl) (by rw [h]; rfl) rfl

theorem writesInOrder_worker (params : Parameters) (hr : (system params).Reachable a)
    (hw : WritesInOrder a) {i : Nat} {pc pc' : WorkerPc} {act : WorkerAct} {sh : Shared}
    (hpc : a.workers i = pc) (h : WorkerStep i a.toShared pc act sh pc') :
    WritesInOrder { a with toShared := sh, workers := Function.update a.workers i pc' } := by
  have ha := wellFormed params a hr
  have hlive := h.live
  cases h with
  | @write frame hne =>
    have hframe : IsFrame frame :=
      (pending_isFrame params a hr).2 i frame (by simp [hpc, WorkerPc.pending, hne])
    have hended : a.input.ended = false := by
      -- past the join this worker would not be at its write
      by_contra he
      have hpast := InputPc.pastJoin_of_ended (Bool.eq_true_of_not_eq_false he)
      have hquiet := ha.quiet hpast i
      rw [hpc] at hquiet
      exact Bool.noConfusion hquiet
    have hdrawn : a.input.drawn = true := ha.drawn_of_live (hpc ▸ hlive)
    refine ⟨fun hd => ?_, fun _ _ => (hw.during hdrawn hended).append i hframe, fun he => ?_⟩
    · exact Bool.noConfusion (hdrawn.symm.trans hd)
    · exact Bool.noConfusion (hended.symm.trans he)
  | _ => exact hw.of_eq rfl rfl rfl

/-- **Transcript.** -/
theorem writesInOrder (params : Parameters) : (system params).Invariant WritesInOrder := by
  refine LTS.Invariant.of_step ?_ ?_
  · rintro a rfl
    exact ⟨fun _ => rfl, fun hd => Bool.noConfusion hd, fun he => Bool.noConfusion he⟩
  · intro a act b hr hw h
    cases h with
    | input h => exact writesInOrder_input params hr hw h
    | worker hpc h => exact writesInOrder_worker params hr hw hpc h

/-- Is the thread in `Terminal::write`? -/
def writing (a : ConsoleApp) : Thread → Bool
  | .input => a.input == .painting || a.input == .farewell
  | .worker i => a.workers i == .writing

/-- No two calls of `Terminal::write` overlap. -/
theorem writing_unique (ha : WellFormed a) {th th' : Thread} (h : a.writing th = true)
    (h' : a.writing th' = true) : th = th' := by
  have hworker : ∀ {i}, a.writing (.worker i) = true → a.workers i = .writing := by
    intro i hi
    exact eq_of_beq hi
  have hmix : ∀ {i}, a.writing .input = true → a.writing (.worker i) = true → False := by
    intro i hinput hi
    have hpc := hworker hi
    rcases Bool.or_eq_true_iff.mp hinput with hp | hp
    · refine ha.not_opened (i := i) (by rw [hpc]; rfl) ?_
      rw [eq_of_beq hp]
      rfl
    · have hquiet := ha.quiet (by rw [eq_of_beq hp]; rfl) i
      rw [hpc] at hquiet
      exact Bool.noConfusion hquiet
  cases th with
  | input =>
    cases th' with
    | input => rfl
    | worker j => exact (hmix h h').elim
  | worker i =>
    cases th' with
    | input => exact (hmix h' h).elim
    | worker j =>
      exact congrArg Thread.worker
        (ha.live_unique (by rw [hworker h]; rfl) (by rw [hworker h']; rfl))

/-! ## Ticks after `requestStop` -/

/-- `stop_` is never cleared. -/
theorem run_stop {s : Scheduler} (hs : s.stop = true) (ops : List Scheduler.Op)
    (hops : ∀ op ∈ ops, op.Threaded) : (s.run ops).stop = true := by
  refine Scheduler.run_preserves (I := fun s => s.stop = true) (fun s op hop hs => ?_) hops hs
  cases op with
  | postEvent ev => exact hs
  | wake => exact hs
  | requestStop => rfl
  | tick ev sz now =>
    cases ev with
    | some ev => exact hop.elim
    | none => exact (s.tickLocked_flags sz now).1.trans hs

theorem stop_step {act : Act} (h : Step a act b) (hstop : a.sched.stop = true) :
    b.sched.stop = true := by
  rw [Step.sched_eq h]
  refine run_stop hstop _ fun op hop => ?_
  exact op?_threaded (Option.mem_toList.mp hop)

/-- The call of `tick`. -/
def isTickCall : Act → Bool
  | .worker _ (.size _) => true
  | _ => false

/-- The locked part of a tick. -/
def isTick : Act → Bool
  | .worker _ (.tick _ _) => true
  | _ => false

/-- A weight of the program points that a worker can still reach after the stop,
for one kind of step: each such step uses it up. -/
structure Weighs (weight : WorkerPc → Nat) (p : Act → Bool) : Prop where
  top : weight .top = 0
  woken : ∀ seen, weight (.woken seen false) ≤ weight (.blocked seen)
  input : ∀ act, p (.input act) = false
  worker : ∀ {i sh pc act sh' pc'}, WorkerStep i sh pc act sh' pc' → sh.sched.stop = true →
    weight pc' + (if p (.worker i act) then 1 else 0) ≤ weight pc

/-- The weight of the worker that `worker_` holds. -/
def remaining (weight : WorkerPc → Nat) (a : ConsoleApp) : Nat :=
  match a.handle with
  | none => 0
  | some i => weight (a.workers i)

theorem remaining_of_none (weight : WorkerPc → Nat) (h : a.handle = none) :
    remaining weight a = 0 := by
  unfold remaining
  rw [h]

theorem remaining_of_some (weight : WorkerPc → Nat) {i : Nat} (h : a.handle = some i) :
    remaining weight a = weight (a.workers i) := by
  unfold remaining
  rw [h]

/-- The input thread wakes, replaces or joins the worker: no weight is added. -/
theorem remaining_input {weight : WorkerPc → Nat} {p : Act → Bool} (hweight : Weighs weight p)
    {act : InputAct} (h : InputStep a act b) : remaining weight b ≤ remaining weight a := by
  have hhandle : b.handle = a.handle ∨ b.handle = none ∨
      (b.handle = some a.spawned ∧ b.workers a.spawned = .top) := by
    cases h with
    | start hw h => exact .inr (.inr ⟨rfl, Function.update_self ..⟩)
    | join hph hw hi h => exact .inr (.inl rfl)
    | _ => exact .inl rfl
  obtain hsame | hnone | ⟨hnew, htop⟩ := hhandle
  · cases hi : a.handle with
    | none =>
      rw [remaining_of_none weight (hsame.trans hi)]
      exact Nat.zero_le _
    | some i =>
      rw [remaining_of_some weight (hsame.trans hi), remaining_of_some weight hi]
      obtain heq | ⟨seen, hblocked, hwoken⟩ | ⟨-, -, -, -, htop⟩ := h.worker_cases i
      · rw [heq]
      · rw [hblocked, hwoken]
        exact hweight.woken seen
      · rw [htop, hweight.top]
        exact Nat.zero_le _
  · rw [remaining_of_none weight hnone]
    exact Nat.zero_le _
  · -- a worker at the head of its loop has no weight
    rw [remaining_of_some weight hnew, htop, hweight.top]
    exact Nat.zero_le _

theorem remaining_worker {weight : WorkerPc → Nat} {p : Act → Bool} (hweight : Weighs weight p)
    (ha : WellFormed a) (hstop : a.sched.stop = true) {i : Nat} {pc pc' : WorkerPc}
    {act : WorkerAct} {sh : Shared} (hpc : a.workers i = pc)
    (h : WorkerStep i a.toShared pc act sh pc') :
    remaining weight { a with toShared := sh, workers := Function.update a.workers i pc' } +
      (if p (.worker i act) then 1 else 0) ≤ remaining weight a := by
  -- the worker that steps is the one `worker_` holds
  have hhandle : a.handle = some i := ha.single i (hpc ▸ h.live)
  have hafter : remaining weight
      { a with toShared := sh, workers := Function.update a.workers i pc' } = weight pc' := by
    rw [remaining_of_some weight (i := i) ?_]
    · exact congrArg weight (Function.update_self ..)
    · exact hhandle
  rw [hafter, remaining_of_some weight hhandle, hpc]
  exact hweight.worker h hstop

theorem remaining_step {weight : WorkerPc → Nat} {p : Act → Bool} (hweight : Weighs weight p)
    (ha : WellFormed a) (hstop : a.sched.stop = true) {act : Act} (h : Step a act b) :
    remaining weight b + (if p act then 1 else 0) ≤ remaining weight a := by
  cases h with
  | @input b act h =>
    rw [hweight.input act, if_neg Bool.false_ne_true]
    exact remaining_input hweight h
  | worker hpc h => exact remaining_worker hweight ha hstop hpc h

/-- At most the weight at the moment of the stop. -/
theorem countP_after_stop (params : Parameters) {weight : WorkerPc → Nat} {p : Act → Bool}
    (hweight : Weighs weight p) (ha : (system params).Reachable a) (hstop : a.sched.stop = true)
    {labels : List Act} (hrun : (system params).Run a labels b) :
    labels.countP p ≤ remaining weight a := by
  refine hrun.countP_le (P := fun a => a.sched.stop = true) (fun a act b hr hs h => ?_) ha hstop
  exact ⟨stop_step h hs, remaining_step hweight (wellFormed params a hr) hs h⟩

/-- Before the call of `tick`, past the last check of `stop_`. -/
def tickCallWeight : WorkerPc → Nat
  | .stepping => 1
  | _ => 0

/-- Before the locked part of a tick, past the last check of `stop_`. -/
def tickWeight : WorkerPc → Nat
  | .stepping | .sized _ | .ticking _ => 1
  | _ => 0

theorem tickCall_weighs : Weighs tickCallWeight isTickCall where
  top := rfl
  woken _ := Nat.le_refl 0
  input _ := rfl
  worker h hstop := by
    cases h with
    | leave hgo => exact absurd (hgo.symm.trans hstop) Bool.false_ne_true
    | _ => simp [tickCallWeight, isTickCall]

theorem tick_weighs : Weighs tickWeight isTick where
  top := rfl
  woken _ := Nat.le_refl 0
  input _ := rfl
  worker h hstop := by
    cases h with
    | leave hgo => exact absurd (hgo.symm.trans hstop) Bool.false_ne_true
    | _ => simp [tickWeight, isTick]

theorem remaining_le_one {weight : WorkerPc → Nat} (h : ∀ pc, weight pc ≤ 1) (a : ConsoleApp) :
    remaining weight a ≤ 1 := by
  unfold remaining
  split
  · exact Nat.zero_le 1
  · exact h _

/-- **At most one tick after the stop**, counted by calls and by locked parts. -/
theorem ticks_after_stop (params : Parameters) (ha : (system params).Reachable a)
    (hstop : a.sched.stop = true) {labels : List Act} (hrun : (system params).Run a labels b) :
    labels.countP isTickCall ≤ 1 ∧ labels.countP isTick ≤ 1 := by
  constructor
  · refine (countP_after_stop params tickCall_weighs ha hstop hrun).trans
      (remaining_le_one (fun pc => ?_) a)
    cases pc <;> simp [tickCallWeight]
  · refine (countP_after_stop params tick_weighs ha hstop hrun).trans
      (remaining_le_one (fun pc => ?_) a)
    cases pc <;> simp [tickWeight]

/-! ## After the join -/

theorem pastJoin_step {act : Act} (h : Step a act b) (ha : a.input.phase.pastJoin = true) :
    b.input.phase.pastJoin = true := by
  cases h with
  | worker hpc h => exact ha
  | input h =>
    cases h with
    | start hw h | startAgain hw h =>
      rw [h] at ha
      exact (Phase.afterStart_pastJoin _).trans ha
    | notifyAll hc h =>
      rw [h] at ha
      exact (Phase.afterCall_pastJoin _ _).trans ha
    | join hph hw hi h | joinNothing hph hw h =>
      exact Phase.afterJoin_pastJoin hph
    | farewell h | finish h => rfl
    | draw sz h | skip h | paint hne h | painted h | call c hph h | lock hmu h | update h | unlock h
    | notifyOne hj h | notifyNone hnone h =>
      rw [h] at ha
      exact ha

/-- **After the join.**  In every state from the return of `join` on, a running
worker is before its first check of `stop_`, and its step is a lock or the exit
and leaves the guarded state and the terminal alone. -/
theorem after_join (params : Parameters) (ha : (system params).Reachable a)
    (hjoined : a.input.phase.pastJoin = true) {labels : List Act}
    (hrun : (system params).Run a labels b) :
    (∀ i, (b.workers i).live = true → b.workers i = .top ∨ b.workers i = .check) ∧
    ∀ i act c, Step b (.worker i act) c →
      (act = .lock ∨ act = .exit) ∧ c.sched = b.sched ∧ c.writes = b.writes := by
  have hb : b.input.phase.pastJoin = true :=
    hrun.preserves (P := fun a => a.input.phase.pastJoin = true) (p := fun _ => True)
      (fun a act b _ _ ha h => pastJoin_step h ha) ha (fun _ _ => trivial) hjoined
  have hwf := wellFormed params b (hrun.reachable ha)
  have hstop := hwf.stopped (InputPc.stopRequested_of_stopped (Phase.stopped_of_pastJoin hb))
  constructor
  · intro i hlive
    have hquiet := hwf.quiet hb i
    cases hpc : b.workers i with
    | top => exact .inl rfl
    | check => exact .inr rfl
    | unborn | exited =>
      rw [hpc] at hlive
      exact Bool.noConfusion hlive
    | _ =>
      rw [hpc] at hquiet
      exact Bool.noConfusion hquiet
  · intro i act c h
    cases h with
    | worker hpc h =>
      obtain ⟨hact, hsched, hwrites, -⟩ := h.quiet hstop (hpc ▸ hwf.quiet hb i)
      exact ⟨hact, hsched, hwrites⟩

/-- **The order of a shutdown.**  In every reachable state the terminal has received
nothing before the first frame is drawn; from then on the first frame and whole worker
frames; and from the goodbye line on the same and that line.  No two writes overlap; at
most one worker runs; once `stop_` is set at most one more tick is called and at most one
more is executed; and once `join` has returned no worker ticks, writes or changes the
guarded state, also one that is started later. -/
theorem shutdown_order (params : Parameters) {a : ConsoleApp} (ha : (system params).Reachable a) :
    WritesInOrder a ∧
    (∀ th th', a.writing th = true → a.writing th' = true → th = th') ∧
    (∀ i j, (a.workers i).live = true → (a.workers j).live = true → i = j) ∧
    (a.sched.stop = true → ∀ labels b, (system params).Run a labels b →
      labels.countP isTickCall ≤ 1 ∧ labels.countP isTick ≤ 1) ∧
    (a.input.phase.pastJoin = true → ∀ labels b, (system params).Run a labels b →
      (∀ i, (b.workers i).live = true → b.workers i = .top ∨ b.workers i = .check) ∧
      ∀ i act c, Step b (.worker i act) c →
        (act = .lock ∨ act = .exit) ∧ c.sched = b.sched ∧ c.writes = b.writes) := by
  have hwf := wellFormed params a ha
  refine ⟨writesInOrder params a ha, fun th th' => writing_unique hwf, fun i j => hwf.live_unique,
    ?_, ?_⟩
  · exact fun hstop labels b hrun => ticks_after_stop params ha hstop hrun
  · exact fun hjoined labels b hrun => after_join params ha hjoined hrun

/-- A shutdown before the worker's first check, and a start between the join and the goodbye
line: the two writes are the first frame and that line, and no worker changes anything in any
continuation. -/
theorem shutdown_order_early :
    ∃ a, (system {}).Reachable a ∧ 2 ≤ a.spawned ∧ a.writes.length = 2 ∧ Closing a.writes ∧
      ∀ labels b, (system {}).Run a labels b → ∀ i act c, Step b (.worker i act) c →
        c.sched = b.sched ∧ c.writes = b.writes := by
  obtain ⟨a, ha, hinput, hmu, -, hhandle, htop, hwrites⟩ :=
    reachable_looping {} ⟨{}, Size.default_visible⟩
  have hspawned : 1 ≤ a.spawned := by
    by_contra hnone
    have hunborn := (wellFormed {} a ha).fresh 0 (by omega)
    exact WorkerPc.noConfusion (htop.symm.trans hunborn)
  have hrun : ∃ b, (system {}).Run a [.input (.call .requestStop), .input .lock,
      .input (.update .requestStop), .input .unlock, .input (.notify .requestStop),
      .worker 0 .lock, .worker 0 .exit, .input .join, .input .start,
      .worker a.spawned .lock, .worker a.spawned .exit, .input .farewell] b ∧
      b.input = .farewell ∧ b.spawned = a.spawned + 1 ∧
      b.writes = a.writes ++ [⟨.input, farewell⟩] :=
    ⟨_, .cons (.input (.call .requestStop rfl hinput)) <|
      .cons (.input (.lock hmu rfl)) <|
      .cons (.input (.update rfl)) <|
      .cons (.input (.unlock rfl)) <|
      .cons (.input (.notifyAll (by simp) rfl)) <|
      .cons (.worker (congrArg WorkerPc.notified htop) (.lock rfl)) <|
      .cons (.worker rfl (.exit rfl)) <|
      .cons (.input (.join rfl hhandle rfl rfl)) <|
      .cons (.input (.start rfl rfl)) <|
      .cons (.worker (Function.update_self ..) (.lock rfl)) <|
      .cons (.worker (Function.update_self ..) (.exit rfl)) <|
      .cons (.input (.farewell rfl)) (.nil _), rfl, rfl, rfl⟩
  obtain ⟨b, hrun, hinput', hspawned', hwrites'⟩ := hrun
  have hb := hrun.reachable ha
  have horder := shutdown_order {} hb
  have hended : b.input.ended = true := by
    rw [hinput']
    rfl
  refine ⟨b, hb, by omega, ?_, horder.1.after hended, fun labels c hrun i act d hstep => ?_⟩
  · rw [hwrites', hwrites]
    rfl
  · exact ((horder.2.2.2.2 (by rw [hinput']; rfl) labels c hrun).2 i act d hstep).2

end ConsoleApp
end Csopesy
