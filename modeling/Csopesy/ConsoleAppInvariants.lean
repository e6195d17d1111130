import Csopesy.ConsoleApp

/-! # Basic invariants of the threads

Who is inside `mu_`, which worker `worker_` holds, what the input thread's phase
says about `stop_` and about the workers (`WellFormed`), and what the holder of
`mu_` knows about the guarded state while it stays inside (`Guarded`).  Each is
kept by every step of every thread, hence holds in every reachable state.
-/
namespace Csopesy
open Transition

namespace ConsoleApp

/-- The invariant the other results rest on. -/
structure WellFormed (a : ConsoleApp) : Prop where
  owned : Monitor.Owned a.mu a.inside
  /-- At most one worker runs: the one `worker_` holds. -/
  single : ∀ i, (a.workers i).live = true → a.handle = some i
  fresh : ∀ i, a.spawned ≤ i → a.workers i = .unborn
  unstarted : a.input.phase = .opened → a.handle = none
  stopped : a.input.stopRequested = true → a.sched.stop = true
  /-- After the join, no worker gets past its first check. -/
  quiet : a.input.phase.pastJoin = true → ∀ i, (a.workers i).quiet = true

namespace WellFormed
variable {a b : ConsoleApp}

theorem init (params : Parameters) : WellFormed { sched := Scheduler.create params } where
  owned th := by cases th <;> simp [inside, InputPc.inside, WorkerPc.inside]
  single i hi := absurd hi (by simp [WorkerPc.live])
  fresh _ _ := rfl
  unstarted _ := rfl
  stopped h := absurd h (by simp [InputPc.stopRequested, InputPc.phase, Phase.stopped])
  quiet _ _ := rfl

/-- Two running workers are one. -/
theorem live_unique (ha : WellFormed a) {i j : Nat} (hi : (a.workers i).live = true)
    (hj : (a.workers j).live = true) : i = j :=
  Option.some.inj ((ha.single i hi).symm.trans (ha.single j hj))

/-- A worker steps only once the input thread is past its start. -/
theorem not_opened (ha : WellFormed a) {i : Nat} (hi : (a.workers i).live = true) :
    a.input.phase ≠ .opened := by
  intro hphase
  exact absurd ((ha.unstarted hphase).symm.trans (ha.single i hi)) (by simp)

/-- The first frame is drawn before a worker runs. -/
theorem drawn_of_live (ha : WellFormed a) {i : Nat} (hi : (a.workers i).live = true) :
    a.input.drawn = true := by
  by_contra hdrawn
  have hopened := InputPc.opened_of_not_drawn (Bool.eq_false_of_not_eq_true hdrawn)
  exact ha.not_opened hi hopened

/-! ## Steps of the input thread -/

section Input
variable {act : InputAct} (ha : WellFormed a) (h : InputStep a act b)
include ha h

theorem owned_input : Monitor.Owned b.mu b.inside := by
  refine ha.owned.step .input h.handover ?_
  rintro (- | j) hj
  · exact absurd rfl hj
  · show (b.workers j).inside = (a.workers j).inside
    rcases h.worker_cases j with heq | ⟨seen, hblocked, hwoken⟩ | ⟨rfl, -, -, -, htop⟩
    · rw [heq]
    · rw [hblocked, hwoken]
      rfl
    · rw [htop, ha.fresh _ (Nat.le_refl _)]
      rfl

theorem single_input (i : Nat) (hi : (b.workers i).live = true) : b.handle = some i := by
  have hhandle : (a.workers i).live = true → b.handle = some i ∨ a.workers i = .exited := by
    intro hlive
    have hsome := ha.single i hlive
    cases h with
    | start hw h => exact absurd (hw.symm.trans hsome) (by simp)
    | @join ph j hph hw hj h =>
      obtain rfl := Option.some.inj (hw.symm.trans hsome)
      exact .inr hj
    | _ => exact .inl hsome
  rcases h.worker_cases i with heq | ⟨seen, hblocked, -⟩ | ⟨-, -, -, hnew, -⟩
  · rw [heq] at hi
    rcases hhandle hi with hb | hexited
    · exact hb
    · rw [hexited] at hi
      exact absurd hi Bool.false_ne_true
  · rcases hhandle (by rw [hblocked]; rfl) with hb | hexited
    · exact hb
    · exact absurd (hblocked.symm.trans hexited) (by simp)
  · exact hnew

theorem fresh_input (i : Nat) (hi : b.spawned ≤ i) : b.workers i = .unborn := by
  have hle : a.spawned ≤ b.spawned := by
    cases h with
    | start hw h => exact Nat.le_succ _
    | _ => exact Nat.le_refl _
  have hold := ha.fresh i (hle.trans hi)
  rcases h.worker_cases i with heq | ⟨seen, hblocked, -⟩ | ⟨-, hspawned, -⟩
  · exact heq.trans hold
  · exact absurd (hblocked.symm.trans hold) (by simp)
  · omega

theorem unstarted_input (hb : b.input.phase = .opened) : b.handle = none := by
  have hstay := ha.unstarted
  cases h with
  | start hw h => exact absurd hb (Phase.afterStart_ne_opened _)
  | startAgain hw h => exact absurd hb (Phase.afterStart_ne_opened _)
  | notifyAll hc h =>
    rw [h] at hstay
    exact hstay (Phase.afterCall_eq_opened hb)
  | join hph hw hi h => rfl
  | joinNothing hph hw h => exact hw
  | farewell h | finish h => exact absurd hb (by simp [InputPc.phase])
  | call c hph h | lock hmu h | update h | unlock h | notifyOne hj h | notifyNone hnone h
  | draw sz h | skip h | paint hne h | painted h =>
    rw [h] at hstay
    exact hstay hb

theorem stopped_input (hb : b.input.stopRequested = true) : b.sched.stop = true := by
  have hstay := ha.stopped
  cases h with
  | @update ph c h =>
    rw [h] at hstay
    cases c with
    | requestStop => rfl
    | postEvent ev => exact hstay (by simpa [InputPc.stopRequested, InputPc.phase] using hb)
    | wake => exact hstay (by simpa [InputPc.stopRequested, InputPc.phase] using hb)
  | @startAgain ph hw h | @start ph hw h =>
    rw [h] at hstay
    exact hstay ((Phase.afterStart_stopped ph).symm.trans hb)
  | notifyAll hc h =>
    rw [h] at hstay
    exact hstay (Phase.afterCall_stopped hb)
  | @notifyOne ph j seen hj h | @notifyNone ph hnone h =>
    rw [h] at hstay
    exact hstay (Bool.or_eq_true_iff.mpr (.inl hb))
  | @join ph i hph hw hi h | @joinNothing ph hph hw h =>
    rw [h] at hstay
    exact hstay hph
  | farewell h | finish h =>
    rw [h] at hstay
    exact hstay rfl
  | call c hph h | lock hmu h | unlock h | draw sz h | skip h | paint hne h | painted h =>
    rw [h] at hstay
    exact hstay hb

theorem quiet_input (hb : b.input.phase.pastJoin = true) (i : Nat) :
    (b.workers i).quiet = true := by
  have hstay : a.input.phase.pastJoin = true → (b.workers i).quiet = true := by
    intro hphase
    have hquiet := ha.quiet hphase i
    rcases h.worker_cases i with heq | ⟨seen, hblocked, -⟩ | ⟨-, -, -, -, htop⟩
    · rw [heq]
      exact hquiet
    · rw [hblocked] at hquiet
      exact absurd hquiet Bool.false_ne_true
    · rw [htop]
      rfl
  have hidle : a.handle = none ∨ (∃ j, a.handle = some j ∧ a.workers j = .exited) →
      (a.workers i).quiet = true := by
    intro hworker
    refine WorkerPc.quiet_of_not_live ?_
    cases hlive : (a.workers i).live with
    | false => rfl
    | true =>
      have hsome := ha.single i hlive
      rcases hworker with hnone | ⟨j, hj, hexited⟩
      · exact absurd (hnone.symm.trans hsome) (by simp)
      · obtain rfl := Option.some.inj (hj.symm.trans hsome)
        rw [hexited] at hlive
        exact hlive.symm
  cases h with
  -- a join returns only once no worker runs
  | @join ph j hph hw hj h => exact hidle (.inr ⟨j, hw, hj⟩)
  | joinNothing hph hw h => exact hidle (.inl hw)
  | @start ph hw h | @startAgain ph hw h =>
    rw [h] at hstay
    exact hstay ((Phase.afterStart_pastJoin ph).symm.trans hb)
  | @notifyAll ph c hc h =>
    rw [h] at hstay
    exact hstay ((Phase.afterCall_pastJoin ph c).symm.trans hb)
  | farewell h | finish h =>
    rw [h] at hstay
    exact hstay rfl
  | call c hph h | lock hmu h | update h | unlock h | notifyOne hj h | notifyNone hnone h
  | draw sz h | skip h | paint hne h | painted h =>
    rw [h] at hstay
    exact hstay hb

end Input

theorem input {act : InputAct} (ha : WellFormed a) (h : InputStep a act b) : WellFormed b where
  owned := ha.owned_input h
  single := ha.single_input h
  fresh := ha.fresh_input h
  unstarted := ha.unstarted_input h
  stopped := ha.stopped_input h
  quiet := ha.quiet_input h

/-! ## Steps of a worker -/

theorem worker (ha : WellFormed a) {i : Nat} {pc pc' : WorkerPc} {act : WorkerAct} {sh : Shared}
    (hpc : a.workers i = pc) (h : WorkerStep i a.toShared pc act sh pc') :
    WellFormed { a with toShared := sh, workers := Function.update a.workers i pc' } := by
  have hlive : (a.workers i).live = true := by
    rw [hpc]
    exact h.live
  have hother : ∀ j, j ≠ i → Function.update a.workers i pc' j = a.workers j :=
    fun j hj => Function.update_of_ne hj ..
  refine ⟨?_, ?_, ?_, ha.unstarted, ?_, ?_⟩
  · refine ha.owned.step (.worker i) ?_ ?_
    · show Monitor.Handover (.worker i) a.mu (a.workers i).inside sh.mu
        (Function.update a.workers i pc' i).inside
      rw [Function.update_self, hpc]
      exact h.handover
    · rintro (- | j) hj
      · rfl
      · have hne : j ≠ i := fun he => hj (congrArg Thread.worker he)
        show (Function.update a.workers i pc' j).inside = (a.workers j).inside
        rw [hother j hne]
  · intro j hj
    by_cases hne : j = i
    · subst hne
      exact ha.single j hlive
    · have hj' : (Function.update a.workers i pc' j).live = true := hj
      rw [hother j hne] at hj'
      exact ha.single j hj'
  · intro j hj
    have hne : j ≠ i := by
      rintro rfl
      rw [ha.fresh j hj] at hlive
      exact absurd hlive Bool.false_ne_true
    show Function.update a.workers i pc' j = .unborn
    rw [hother j hne]
    exact ha.fresh j hj
  · intro hb
    show sh.sched.stop = true
    rw [h.stop_eq]
    exact ha.stopped hb
  · intro hb j
    -- past the join `stop_` is set, so a worker that steps locks or exits
    have hstop := ha.stopped (InputPc.stopRequested_of_stopped (Phase.stopped_of_pastJoin hb))
    by_cases hne : j = i
    · subst hne
      show (Function.update a.workers j pc' j).quiet = true
      rw [Function.update_self]
      exact (h.quiet hstop (hpc ▸ ha.quiet hb j)).2.2.2
    · show (Function.update a.workers i pc' j).quiet = true
      rw [hother j hne]
      exact ha.quiet hb j

/-- **Step lemma.** -/
theorem step (ha : WellFormed a) {act : Act} (h : Step a act b) : WellFormed b := by
  cases h with
  | input h => exact ha.input h
  | worker hpc h => exact ha.worker hpc h

end WellFormed

theorem wellFormed (params : Parameters) : (system params).Invariant WellFormed := by
  refine LTS.Invariant.of_step ?_ ?_
  · rintro a rfl
    exact .init params
  · exact fun a act b _ ha h => ha.step h

/-! ## What the holder of `mu_` knows -/

/-- What a worker has read of the guarded state, and relies on while it stays
inside `mu_`. -/
def Knows (s : Scheduler) : WorkerPc → Prop
  | .entering seen => s.stop = false ∧ s.wakeTick = seen
  | .parking seen => s.waitPredicate seen = false
  | _ => True

theorem Knows.of_outside {s : Scheduler} {pc : WorkerPc} (h : pc.inside = false) : Knows s pc := by
  cases pc with
  | entering | parking => exact Bool.noConfusion h
  | _ => trivial

theorem Knows.worker {i : Nat} {sh sh' : Shared} {pc pc' : WorkerPc} {act : WorkerAct}
    (h : WorkerStep i sh pc act sh' pc') : Knows sh'.sched pc' := by
  cases h with
  | enter hstop => exact ⟨hstop, rfl⟩
  | refuse hp => exact hp
  | rerefuse hp => exact hp
  | _ => trivial

/-- **The mutex protects what its holder knows.** -/
theorem knows (params : Parameters) :
    (system params).Invariant (fun a => ∀ i, Knows a.sched (a.workers i)) := by
  refine LTS.Invariant.of_step ?_ ?_
  · rintro a rfl i
    trivial
  · intro a act b hr hk h i
    have howned := (wellFormed params a hr).owned
    have houtside : ∀ th, a.inside th = true → th ≠ .worker i → (a.workers i).inside = false := by
      intro th hth hne
      cases hin : (a.workers i).inside with
      | false => rfl
      | true => exact absurd (howned.unique hth (show a.inside (.worker i) = true from hin)) hne
    cases h with
    | input h =>
      have hold : Knows b.sched (a.workers i) := by
        rcases h.sched_cases with heq | ⟨ph, c, -, hlocked, -⟩
        · rw [heq]
          exact hk i
        · -- the input thread is inside, so no worker is
          refine .of_outside (houtside .input ?_ (by simp))
          show a.input.inside = true
          rw [hlocked]
          rfl
      rcases h.worker_cases i with heq | ⟨seen, -, hwoken⟩ | ⟨-, -, -, -, htop⟩
      · rw [heq]
        exact hold
      · rw [hwoken]
        trivial
      · rw [htop]
        trivial
    | @worker j pc pc' act sh hpc h =>
      show Knows sh.sched (Function.update a.workers j pc' i)
      by_cases hij : i = j
      · subst hij
        rw [Function.update_self]
        exact .worker h
      · rw [Function.update_of_ne hij]
        rcases h.sched_cases with heq | ⟨sz, now, -, hticking, -, -⟩
        · rw [heq]
          exact hk i
        · refine .of_outside (houtside (.worker j) ?_ (by simpa using Ne.symm hij))
          show (a.workers j).inside = true
          rw [hpc, hticking]
          rfl

/-! ## The guarded state -/

/-- **The threads refine the scheduler's operations.**  Seen from the guarded
state, any interleaving is a sequence of whole operations. -/
theorem refines_machine (params : Parameters) :
    LTS.Refines (system params) (Scheduler.machine params) (fun a => a.sched) where
  init := by
    rintro a rfl
    rfl
  step a act b _ h := by
    have hsched := Step.sched_eq h
    cases hop : op? act with
    | none =>
      rw [hop] at hsched
      exact .inl hsched
    | some op =>
      rw [hop] at hsched
      exact .inr ⟨op, op?_threaded hop, hsched⟩

/-! ## Frames in flight -/

/-- A whole frame: `buildFrame` of some session at a visible size. -/
def IsFrame (frame : Bytes) : Prop :=
  ∃ (it : Interpreter) (sz : VisibleSize), frame = Scheduler.frameOf it sz.1

theorem IsFrame.ne_nil {frame : Bytes} (h : IsFrame frame) : frame ≠ [] := by
  obtain ⟨it, sz, rfl⟩ := h
  exact fun hnil => (Scheduler.frameOf_eq_nil_iff _ _).mp hnil sz.2

/-- A frame begins with an escape sequence, the goodbye line does not. -/
theorem IsFrame.ne_farewell {frame : Bytes} (h : IsFrame frame) : frame ≠ farewell := by
  obtain ⟨it, sz, rfl⟩ := h
  intro heq
  have hhead : (Scheduler.frameOf it sz.1).head? = some 0x1B := by
    unfold Scheduler.frameOf
    rw [Renderer.buildFrame_eq _ _ _ _ _ sz.2.1 sz.2.2]
    rfl
  rw [heq] at hhead
  exact absurd hhead (by decide)

/-- What is in flight after the locked part of a tick. -/
theorem pending_tick (s : Scheduler) (sz : VisibleSize) (now : Int) :
    (WorkerPc.built (s.tickLocked none sz.1 now).2.2).pending =
      if Scheduler.due s.interp now || s.dirty then some (Scheduler.frameOf s.interp sz.1)
      else none := by
  have hne : (Scheduler.frameOf s.interp sz.1).isEmpty = false := by
    simpa using IsFrame.ne_nil ⟨s.interp, sz, rfl⟩
  rw [WorkerPc.pending, Scheduler.tickLocked_frame]
  split <;> simp [hne]

theorem pending_isFrame_worker {i : Nat} {sh sh' : Shared} {pc pc' : WorkerPc} {act : WorkerAct}
    (h : WorkerStep i sh pc act sh' pc') (hpc : ∀ frame, pc.pending = some frame → IsFrame frame)
    (frame : Bytes) (hframe : pc'.pending = some frame) : IsFrame frame := by
  cases h with
  | @tick sz now =>
    rw [pending_tick] at hframe
    split at hframe
    · exact ⟨_, sz, (Option.some.inj hframe).symm⟩
    · exact absurd hframe (by simp)
  | unlock => exact hpc frame hframe
  | _ => exact absurd hframe (by simp [WorkerPc.pending])

/-- What is built and not yet written is a whole frame. -/
theorem pending_isFrame (params : Parameters) : (system params).Invariant (fun a =>
    (∀ frame, a.input = .drawing frame → IsFrame frame) ∧
      ∀ i frame, (a.workers i).pending = some frame → IsFrame frame) := by
  refine LTS.Invariant.of_step ?_ ?_
  · rintro a rfl
    exact ⟨fun frame h => absurd h (by simp), fun i frame h => absurd h (by simp [WorkerPc.pending])⟩
  · rintro a act b - ⟨hdrawing, hpending⟩ h
    cases h with
    | input h =>
      refine ⟨?_, fun i frame hframe => ?_⟩
      · cases h with
        | @draw sz h =>
          intro frame hframe
          exact ⟨a.sched.interp, sz, (InputPc.drawing.inj hframe).symm⟩
        | _ => exact fun frame hframe => absurd hframe (by simp)
      · rcases h.worker_cases i with heq | ⟨seen, -, hwoken⟩ | ⟨-, -, -, -, htop⟩
        · exact hpending i frame (heq ▸ hframe)
        · rw [hwoken] at hframe
          exact absurd hframe (by simp [WorkerPc.pending])
        · rw [htop] at hframe
          exact absurd hframe (by simp [WorkerPc.pending])
    | @worker i pc pc' act sh hpc h =>
      refine ⟨hdrawing, fun j frame hframe => ?_⟩
      have hframe' : (Function.update a.workers i pc' j).pending = some frame := hframe
      by_cases hj : j = i
      · subst hj
        rw [Function.update_self] at hframe'
        exact pending_isFrame_worker h (hpc ▸ hpending j) frame hframe'
      · rw [Function.update_of_ne hj] at hframe'
        exact hpending j frame hframe'

/-! ## Runs that exist -/

/-- The application gets to its input loop, with the first frame on the screen and
one worker at the head of its loop. -/
theorem opened_run (params : Parameters) (sz : VisibleSize) :
    ∃ a, (system params).Run { sched := Scheduler.create params }
        [.input (.draw sz), .input .paint, .input .painted, .input .start] a ∧
      a.input = .ready .looping ∧ a.mu = none ∧ a.sched = Scheduler.create params ∧
      a.handle = some 0 ∧ a.workers 0 = .top ∧
      a.writes = [⟨.input, Scheduler.frameOf (Scheduler.create params).interp sz.1⟩] := by
  have hne : Scheduler.frameOf (Scheduler.create params).interp sz.1 ≠ [] :=
    fun h => (Scheduler.frameOf_eq_nil_iff _ _).mp h sz.2
  exact ⟨_, .cons (.input (.draw sz rfl)) <|
    .cons (.input (.paint hne rfl)) <|
    .cons (.input (.painted rfl)) <|
    .cons (.input (.start rfl rfl)) (.nil _), rfl, rfl, rfl, rfl, rfl, rfl⟩

theorem reachable_looping (params : Parameters) (sz : VisibleSize) :
    ∃ a, (system params).Reachable a ∧ a.input = .ready .looping ∧ a.mu = none ∧
      a.sched = Scheduler.create params ∧ a.handle = some 0 ∧ a.workers 0 = .top ∧
      a.writes = [⟨.input, Scheduler.frameOf (Scheduler.create params).interp sz.1⟩] := by
  obtain ⟨a, hrun, ha⟩ := opened_run params sz
  exact ⟨a, hrun.reachable (.init rfl), ha⟩

/-- A key can be posted whenever the input thread is ready and `mu_` is free. -/
theorem posted_run {params : Parameters} {a : ConsoleApp} (hinput : a.input = .ready .looping)
    (hmu : a.mu = none) (ev : KeyEvent) :
    ∃ b, (system params).Run a [.input (.call (.postEvent ev)), .input .lock,
        .input (.update (.postEvent ev)), .input .unlock, .input (.notify (.postEvent ev))] b ∧
      b.input = .ready .looping ∧ b.mu = none ∧ b.sched = a.sched.postEvent ev ∧
      (∀ i, b.workers i = (a.workers i).notified) ∧ b.writes = a.writes :=
  ⟨_, .cons (.input (.call (.postEvent ev) rfl hinput)) <|
    .cons (.input (.lock hmu rfl)) <|
    .cons (.input (.update rfl)) <|
    .cons (.input (.unlock rfl)) <|
    .cons (.input (.notifyAll Call.noConfusion rfl)) (.nil _), rfl, rfl, rfl, fun _ => rfl, rfl⟩

theorem reachable_postEvent {params : Parameters} {a : ConsoleApp}
    (ha : (system params).Reachable a) (hinput : a.input = .ready .looping) (hmu : a.mu = none)
    (ev : KeyEvent) :
    ∃ b, (system params).Reachable b ∧ b.input = .ready .looping ∧ b.mu = none ∧
      b.sched = a.sched.postEvent ev ∧ (∀ i, b.workers i = (a.workers i).notified) ∧
      b.writes = a.writes := by
  obtain ⟨b, hrun, hb⟩ := posted_run hinput hmu ev
  exact ⟨b, hrun.reachable ha, hb⟩

/-- A worker with nothing to do goes to sleep. -/
theorem reachable_blocked {params : Parameters} {a : ConsoleApp}
    (ha : (system params).Reachable a) {i : Nat} (htop : a.workers i = .top) (hmu : a.mu = none)
    (hpred : a.sched.waitPredicate a.sched.wakeTick = false) :
    ∃ b, (system params).Reachable b ∧ b.workers i = .blocked a.sched.wakeTick ∧
      b.sched = a.sched ∧ b.mu = none ∧ b.input = a.input ∧ b.writes = a.writes := by
  have hstop : a.sched.stop = false := by
    simp only [Scheduler.waitPredicate, Bool.or_eq_false_iff] at hpred
    exact hpred.1.1
  have h1 := ha.step (.worker htop (.lock hmu))
  have h2 := h1.step (.worker (Function.update_self ..) (.enter hstop))
  have h3 := h2.step (.worker (Function.update_self ..) (.refuse hpred))
  have h4 := h3.step (.worker (Function.update_self ..) .block)
  exact ⟨_, h4, Function.update_self .., rfl, rfl, rfl, rfl⟩

/-- A worker with something to do gets to its tick. -/
theorem ticking_run {params : Parameters} {a : ConsoleApp} {i : Nat} (htop : a.workers i = .top)
    (hmu : a.mu = none) (hstop : a.sched.stop = false) (hdirty : a.sched.dirty = true)
    (sz : VisibleSize) :
    ∃ b, (system params).Run a [.worker i .lock, .worker i .enter, .worker i .test,
        .worker i .leave, .worker i (.size sz), .worker i .lock] b ∧
      b.workers i = .ticking sz ∧ b.sched = a.sched ∧ b.input = a.input ∧
      b.writes = a.writes := by
  have hpred : a.sched.waitPredicate a.sched.wakeTick = true := by
    simp [Scheduler.waitPredicate, hdirty]
  exact ⟨_, .cons (.worker htop (.lock hmu)) <|
    .cons (.worker (Function.update_self ..) (.enter hstop)) <|
    .cons (.worker (Function.update_self ..) (.pass hpred)) <|
    .cons (.worker (Function.update_self ..) (.leave hstop)) <|
    .cons (.worker (Function.update_self ..) (.size sz)) <|
    .cons (.worker (Function.update_self ..) (.lockTick rfl)) (.nil _),
    Function.update_self .., rfl, rfl, rfl⟩

theorem reachable_ticking {params : Parameters} {a : ConsoleApp}
    (ha : (system params).Reachable a) {i : Nat} (htop : a.workers i = .top) (hmu : a.mu = none)
    (hstop : a.sched.stop = false) (hdirty : a.sched.dirty = true)
    (sz : VisibleSize) :
    ∃ b, (system params).Reachable b ∧ b.workers i = .ticking sz ∧ b.sched = a.sched ∧
      b.input = a.input := by
  obtain ⟨b, hrun, hticking, hsched, hinput, -⟩ := ticking_run htop hmu hstop hdirty sz
  exact ⟨b, hrun.reachable ha, hticking, hsched, hinput⟩

/-- A tick that owes a frame is followed by its write. -/
theorem written_run {params : Parameters} {a : ConsoleApp} {i : Nat} {sz : VisibleSize}
    (hticking : a.workers i = .ticking sz) (hdirty : a.sched.dirty = true) (now : Int) :
    ∃ b, (system params).Run a [.worker i (.tick sz now), .worker i .unlock, .worker i .write] b ∧
      b.workers i = .writing ∧ b.mu = none ∧ b.input = a.input ∧
      b.sched = (a.sched.tickLocked none sz.1 now).1 ∧
      b.writes = a.writes ++ [⟨.worker i, Scheduler.frameOf a.sched.interp sz.1⟩] := by
  have hframe : (a.sched.tickLocked none sz.1 now).2.2 = Scheduler.frameOf a.sched.interp sz.1 := by
    rw [Scheduler.tickLocked_frame, hdirty, Bool.or_true, if_pos rfl]
  have hne : (a.sched.tickLocked none sz.1 now).2.2 ≠ [] := by
    rw [hframe]
    exact fun hnil => (Scheduler.frameOf_eq_nil_iff _ _).mp hnil sz.2
  refine ⟨_, .cons (.worker hticking (.tick now)) <|
    .cons (.worker (Function.update_self ..) .unlock) <|
    .cons (.worker (Function.update_self ..) (.write hne)) (.nil _),
    Function.update_self .., rfl, rfl, rfl, ?_⟩
  rw [← hframe]

/-- Any keys can be typed before the worker takes its first step. -/
theorem reachable_typed (params : Parameters) (keys : List KeyEvent) :
    ∃ a, (system params).Reachable a ∧ a.input = .ready .looping ∧ a.mu = none ∧
      a.sched = (Scheduler.create params).run (keys.map .postEvent) ∧ a.workers 0 = .top := by
  have hloop : ∃ a, (system params).Reachable a ∧ a.input = .ready .looping ∧ a.mu = none ∧
      a.sched = Scheduler.create params ∧ a.workers 0 = .top := by
    obtain ⟨a, ha, hinput, hmu, hsched, -, htop, -⟩ :=
      reachable_looping params ⟨{}, Size.default_visible⟩
    exact ⟨a, ha, hinput, hmu, hsched, htop⟩
  generalize Scheduler.create params = s at hloop ⊢
  induction keys generalizing s with
  | nil => exact hloop
  | cons ev keys ih =>
    obtain ⟨a, ha, hinput, hmu, rfl, htop⟩ := hloop
    obtain ⟨b, hb, hinput', hmu', hsched', hworkers, -⟩ := reachable_postEvent ha hinput hmu ev
    refine ih _ ⟨b, hb, hinput', hmu', hsched', ?_⟩
    rw [hworkers, htop]
    rfl

end ConsoleApp
end Csopesy
