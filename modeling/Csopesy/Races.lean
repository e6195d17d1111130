import Csopesy.Application
import Csopesy.ConsoleAppInvariants

/-! # Data races

Which variables each step of a thread reads and writes, and that no two threads ever come to
conflicting steps at once.  `ConsoleApp::run` reads `quit_` and `pollingMs` without `mu_`:
no worker writes these, and the input thread writes `quit_` in its own calls only.  Its first
frame reads without `mu_` what a worker writes, but no worker exists yet.

The lists are read off the source, and the model agrees with them: a step changes nothing it
does not write (`Step.unwritten`), and goes the same way whatever the value of a variable it
neither reads nor writes (`Step.patch`).  The flag of the signal handler is a
`volatile sig_atomic_t` and `worker_` belongs to the input thread; both are left out.
-/
namespace Csopesy
open Transition

/-- The variables that both threads can reach: the members of the scheduler, of the
interpreter, and of the parameters and the process they share. -/
inductive Variable
  | stop | dirty | wakeTick
  | line | message | quit
  | text | refreshMs | pollingMs | developers | versionDate | noTty
  | state | cycles | lastRenderMs | hasRendered
deriving DecidableEq, Repr

namespace Variable

/-- The variable with the value it has in `u`. -/
def patchInterp (v : Variable) (u it : Interpreter) : Interpreter :=
  match v with
  | line => { it with line := u.line }
  | message => { it with message := u.message }
  | quit => { it with quit := u.quit }
  | text => { it with params := { it.params with text := u.params.text } }
  | refreshMs => { it with params := { it.params with refreshMs := u.params.refreshMs } }
  | pollingMs => { it with params := { it.params with pollingMs := u.params.pollingMs } }
  | developers => { it with params := { it.params with developers := u.params.developers } }
  | versionDate => { it with params := { it.params with versionDate := u.params.versionDate } }
  | noTty => { it with params := { it.params with noTty := u.params.noTty } }
  | state => { it with proc := { it.proc with state := u.proc.state } }
  | cycles => { it with proc := { it.proc with cycles := u.proc.cycles } }
  | lastRenderMs => { it with proc := { it.proc with lastRenderMs := u.proc.lastRenderMs } }
  | hasRendered => { it with proc := { it.proc with hasRendered := u.proc.hasRendered } }
  | stop | dirty | wakeTick => it

def patch (v : Variable) (u s : Scheduler) : Scheduler :=
  match v with
  | stop => { s with stop := u.stop }
  | dirty => { s with dirty := u.dirty }
  | wakeTick => { s with wakeTick := u.wakeTick }
  | v => { s with interp := v.patchInterp u.interp s.interp }

/-- The variable has the same value in both. -/
def Kept (v : Variable) (s t : Scheduler) : Prop := v.patch s t = t

/-- What `feed` and the commands behind it read and write. -/
def keyed : List Variable := [line, message, quit, text, refreshMs, state, hasRendered]

/-- What `buildFrame` is passed. -/
def framed : List Variable := [text, developers, versionDate, cycles, line, message]

/-- What `tick` reads. -/
def ticked : List Variable := [dirty, state, hasRendered, lastRenderMs, refreshMs] ++ framed

end Variable

/-! ## What the steps read and write -/

/-- Every call reads and writes the same variables. -/
def Call.touched : Call → List Variable
  | postEvent _ => .dirty :: Variable.keyed
  | wake => [.wakeTick]
  | requestStop => [.stop]

def InputAct.writes : InputAct → List Variable
  | update c => c.touched
  | _ => []

def InputAct.reads : InputAct → List Variable
  | draw _ => Variable.framed
  | update c => c.touched
  | _ => []

def WorkerAct.writes : WorkerAct → List Variable
  | tick _ _ => [.dirty, .cycles, .lastRenderMs, .hasRendered]
  | _ => []

def WorkerAct.reads : WorkerAct → List Variable
  | exit | leave => [.stop]
  -- `wakeTick_`, and `pollTimeoutMsLocked` for the argument of `wait_for`
  | enter => [.stop, .wakeTick, .pollingMs, .state, .refreshMs, .lastRenderMs]
  | test => [.stop, .dirty, .wakeTick]
  | tick _ _ => Variable.ticked
  | _ => []

namespace Application.Event

def writes : Event → List Variable
  | .input act => act.writes
  | .worker _ act => act.writes
  | .read _ | .test _ | .flag _ => []

def reads : Event → List Variable
  | .input act => act.reads
  | .worker _ act => act.reads
  -- the argument of `readEvent`
  | .read _ => [.pollingMs]
  | .test _ => [.quit]
  | .flag _ => []

def thread : Event → Thread
  | .worker i _ => .worker i
  | _ => .input

def Touches (e : Event) (v : Variable) : Prop := v ∈ e.reads ∨ v ∈ e.writes

/-- One writes what the other reads or writes. -/
def Conflicts (e e' : Event) : Prop :=
  ∃ v, (v ∈ e.writes ∧ e'.Touches v) ∨ (e.Touches v ∧ v ∈ e'.writes)

end Application.Event

/-! ## A key and a tick -/

namespace Variable
variable {v : Variable} (u it : Interpreter)

theorem setText_patch (hv : v ∉ keyed) (t : Bytes) :
    (v.patchInterp u it).params.setText t =
      ((v.patchInterp u { it with params := (it.params.setText t).1 }).params,
        (it.params.setText t).2) := by
  unfold Parameters.setText
  dsimp only
  split
  · rfl
  · split
    · cases v <;> first | exact absurd (by decide) hv | rfl
    · rfl

theorem runCommand_patch (hv : v ∉ keyed) (cmd arg : Bytes) :
    (v.patchInterp u it).runCommand cmd arg =
      (v.patchInterp u (it.runCommand cmd arg).1, (it.runCommand cmd arg).2) := by
  have hrespond : ∀ (it : Interpreter) (m : Bytes), (v.patchInterp u it).respond m =
      (v.patchInterp u (it.respond m).1, (it.respond m).2) := by
    intro it m
    cases v <;> first | exact absurd (by decide) hv | rfl
  unfold Interpreter.runCommand
  cases lookup cmd with
  | help | unknown => exact hrespond it _
  | exit => cases v <;> first | exact absurd (by decide) hv | rfl
  | start =>
    have hstate : (v.patchInterp u it).proc.state = it.proc.state := by
      cases v <;> first | exact absurd (by decide) hv | rfl
    dsimp only
    unfold MarqueeProcess.start
    rw [hstate]
    by_cases hs : it.proc.state = .running
    · rw [if_pos hs, if_pos hs]
      exact hrespond it _
    · rw [if_neg hs, if_neg hs]
      cases v <;> first | exact absurd (by decide) hv | rfl
  | stop =>
    have hstate : (v.patchInterp u it).proc.state = it.proc.state := by
      cases v <;> first | exact absurd (by decide) hv | rfl
    dsimp only
    unfold MarqueeProcess.stop
    rw [hstate]
    by_cases hs : it.proc.state = .stopped
    · rw [if_pos hs, if_pos hs]
      exact hrespond it _
    · rw [if_neg hs, if_neg hs]
      cases v <;> first | exact absurd (by decide) hv | rfl
  | setText =>
    dsimp only
    split
    · exact hrespond it _
    · rw [setText_patch u it hv]
      generalize it.params.setText arg = r
      obtain ⟨p, r⟩ := r
      cases r <;> cases v <;> first | exact absurd (by decide) hv | rfl
  | setSpeed =>
    dsimp only
    split
    · exact hrespond it _
    · cases parseFullInteger arg with
      | none => exact hrespond it _
      | some requested => cases v <;> first | exact absurd (by decide) hv | rfl

theorem executeLine_patch (hv : v ∉ keyed) (raw : Bytes) :
    (v.patchInterp u it).executeLine raw =
      (v.patchInterp u (it.executeLine raw).1, (it.executeLine raw).2) := by
  have hrespond : ∀ m : Bytes, (v.patchInterp u it).respond m =
      (v.patchInterp u (it.respond m).1, (it.respond m).2) := by
    intro m
    cases v <;> first | exact absurd (by decide) hv | rfl
  unfold Interpreter.executeLine
  dsimp only
  split
  · exact hrespond _
  · split
    · exact hrespond _
    · exact runCommand_patch u it hv _ _

theorem submit_patch (hv : v ∉ keyed) :
    (v.patchInterp u it).submit = v.patchInterp u it.submit := by
  have hline : (v.patchInterp u it).line = it.line := by
    cases v <;> first | exact absurd (by decide) hv | rfl
  have hcleared : { v.patchInterp u it with line := [] } =
      v.patchInterp u { it with line := [] } := by
    cases v <;> first | exact absurd (by decide) hv | rfl
  unfold Interpreter.submit
  rw [hline, hcleared]
  dsimp only
  rw [executeLine_patch u { it with line := [] } hv it.line]
  generalize Interpreter.executeLine { it with line := [] } it.line = r
  cases v <;> first | exact absurd (by decide) hv | rfl

/-- **A key** neither reads nor writes any other variable. -/
theorem feed_patch (hv : v ∉ keyed) (ev : KeyEvent) :
    ((v.patchInterp u it).feed ev).1 = v.patchInterp u (it.feed ev).1 := by
  unfold Interpreter.feed
  cases ev.type with
  | char =>
    dsimp only
    split
    · cases v <;> first | exact absurd (by decide) hv | rfl
    · rfl
  | backspace => cases v <;> first | exact absurd (by decide) hv | rfl
  | enter => exact submit_patch u it hv
  | eof =>
    dsimp only
    rw [submit_patch u it hv]
    cases v <;> first | exact absurd (by decide) hv | rfl
  | none | tab | escape | arrowUp | arrowDown | arrowLeft | arrowRight => rfl

theorem frameOf_patch (hv : v ∉ framed) (sz : Size) :
    Scheduler.frameOf (v.patchInterp u it) sz = Scheduler.frameOf it sz := by
  cases v <;> first | exact absurd (by decide) hv | rfl

/-- **A tick** neither reads nor writes any other variable. -/
theorem tickLocked_patch (u s : Scheduler) (hv : v ∉ ticked) (sz : Size) (now : Int) :
    (v.patch u s).tickLocked none sz now =
      (v.patch u (s.tickLocked none sz now).1, (s.tickLocked none sz now).2) := by
  have hframed : v ∉ framed := fun h => hv (List.mem_append_right _ h)
  have hframe : Scheduler.frameOf (v.patch u s).interp sz = Scheduler.frameOf s.interp sz := by
    cases v <;> exact frameOf_patch u.interp s.interp hframed sz
  have hdue : Scheduler.due (v.patch u s).interp now = Scheduler.due s.interp now := by
    cases v <;> first | exact absurd (by decide) hv | rfl
  have hdirty : (v.patch u s).dirty = s.dirty := by
    cases v <;> first | exact absurd (by decide) hv | rfl
  rcases s.tickLocked_cases sz now with ⟨hd, h⟩ | ⟨hd, hs, h⟩ | ⟨hd, hs, h⟩
  · rcases (v.patch u s).tickLocked_cases sz now with ⟨-, h'⟩ | ⟨hd', -⟩ | ⟨hd', -⟩
    · rw [h, h', hframe]
      cases v <;> first | exact absurd (by decide) hv | rfl
    · exact absurd (hd'.symm.trans (hdue.trans hd)) Bool.false_ne_true
    · exact absurd (hd'.symm.trans (hdue.trans hd)) Bool.false_ne_true
  · rcases (v.patch u s).tickLocked_cases sz now with ⟨hd', -⟩ | ⟨-, -, h'⟩ | ⟨-, hs', -⟩
    · exact absurd (hd.symm.trans (hdue.symm.trans hd')) Bool.false_ne_true
    · rw [h, h', hframe]
      cases v <;> first | exact absurd (by decide) hv | rfl
    · exact absurd (hs'.symm.trans (hdirty.trans hs)) Bool.false_ne_true
  · rcases (v.patch u s).tickLocked_cases sz now with ⟨hd', -⟩ | ⟨-, hs', -⟩ | ⟨-, -, h'⟩
    · exact absurd (hd.symm.trans (hdue.symm.trans hd')) Bool.false_ne_true
    · exact absurd (hs.symm.trans (hdirty.symm.trans hs')) Bool.false_ne_true
    · rw [h, h']

end Variable

/-! ## One step of a thread -/

section Patch
variable {v : Variable}

def Shared.patch (v : Variable) (u : Scheduler) (sh : Shared) : Shared :=
  { sh with sched := v.patch u sh.sched }

def ConsoleApp.patch (v : Variable) (u : Scheduler) (a : ConsoleApp) : ConsoleApp :=
  { a with sched := v.patch u a.sched }

/-- A call neither reads nor writes any other variable. -/
theorem Call.exec_patch (u s : Scheduler) {c : Call} (hv : v ∉ c.touched) :
    ((v.patch u s).exec c.op).1 = v.patch u (s.exec c.op).1 := by
  cases c with
  | postEvent ev =>
    have hkeyed : v ∉ Variable.keyed := fun h => hv (List.mem_cons_of_mem _ h)
    have hfeed := Variable.feed_patch u.interp s.interp hkeyed ev
    change (v.patch u s).postEvent ev = v.patch u (s.postEvent ev)
    unfold Scheduler.postEvent
    cases v with
    | dirty => exact absurd List.mem_cons_self hv
    | stop | wakeTick => rfl
    | line | message | quit | text | refreshMs | state | hasRendered =>
      exact absurd (by decide) hkeyed
    | pollingMs | developers | versionDate | noTty | cycles | lastRenderMs =>
      exact congrArg (fun it => { s with interp := it, dirty := true }) hfeed
  | wake => cases v <;> first | exact absurd (by decide) hv | rfl
  | requestStop => cases v <;> first | exact absurd (by decide) hv | rfl

theorem InputStep.patch (u : Scheduler) {a b : ConsoleApp} {act : InputAct}
    (h : InputStep a act b) (hv : v ∉ act.reads) : InputStep (a.patch v u) act (b.patch v u) := by
  cases h with
  | draw sz h =>
    have hframe : Scheduler.frameOf (v.patch u a.sched).interp sz.1 =
        Scheduler.frameOf a.sched.interp sz.1 := by
      cases v <;> exact Variable.frameOf_patch u.interp a.sched.interp hv sz.1
    have hdraw := InputStep.draw (a := a.patch v u) sz h
    rwa [show (a.patch v u).sched = v.patch u a.sched from rfl, hframe] at hdraw
  | skip h => exact .skip h
  | paint hne h => exact .paint hne h
  | painted h => exact .painted h
  | start hw h => exact .start hw h
  | startAgain hw h => exact .startAgain hw h
  | call c hph h => exact .call c hph h
  | lock hmu h => exact .lock hmu h
  | @update ph c h =>
    have hupdate := InputStep.update (a := a.patch v u) h
    rwa [show (a.patch v u).sched = v.patch u a.sched from rfl, Call.exec_patch u _ hv] at hupdate
  | unlock h => exact .unlock h
  | notifyAll hc h => exact .notifyAll hc h
  | notifyOne hj h => exact .notifyOne hj h
  | notifyNone hnone h => exact .notifyNone hnone h
  | join hph hw hi h => exact .join hph hw hi h
  | joinNothing hph hw h => exact .joinNothing hph hw h
  | farewell h => exact .farewell h
  | finish h => exact .finish h

theorem WorkerStep.patch (u : Scheduler) {i : Nat} {sh sh' : Shared} {pc pc' : WorkerPc}
    {act : WorkerAct} (h : WorkerStep i sh pc act sh' pc') (hv : v ∉ act.reads) :
    WorkerStep i (sh.patch v u) pc act (sh'.patch v u) pc' := by
  have hstop : v ≠ .stop → (v.patch u sh.sched).stop = sh.sched.stop := by
    intro hne
    cases v <;> first | exact absurd rfl hne | rfl
  have hpred : v ∉ WorkerAct.test.reads → ∀ seen,
      (v.patch u sh.sched).waitPredicate seen = sh.sched.waitPredicate seen := by
    intro hne seen
    cases v <;> first | exact absurd (by decide) hne | rfl
  cases h with
  | lock hmu => exact .lock hmu
  | exit h => exact .exit ((hstop fun he => hv (he ▸ List.mem_cons_self)).trans h)
  | enter h =>
    have hwake : (v.patch u sh.sched).wakeTick = sh.sched.wakeTick := by
      cases v <;> first | exact absurd (by decide) hv | rfl
    rw [← hwake]
    exact .enter ((hstop fun he => hv (he ▸ List.mem_cons_self)).trans h)
  | pass hp => exact .pass ((hpred hv _).trans hp)
  | refuse hp => exact .refuse ((hpred hv _).trans hp)
  | block => exact .block
  | wake timedOut => exact .wake timedOut
  | relock hmu => exact .relock hmu
  | repass hp => exact .repass ((hpred hv _).trans hp)
  | rerefuse hp => exact .rerefuse ((hpred hv _).trans hp)
  | timeout hmu => exact .timeout hmu
  | stop h => exact .stop ((hstop fun he => hv (he ▸ List.mem_cons_self)).trans h)
  | leave h => exact .leave ((hstop fun he => hv (he ▸ List.mem_cons_self)).trans h)
  | size sz => exact .size sz
  | lockTick hmu => exact .lockTick hmu
  | @tick sz now =>
    have htick : WorkerStep i (sh.patch v u) _ _ _ _ := @WorkerStep.tick i (sh.patch v u) sz now
    rwa [show (sh.patch v u).sched = v.patch u sh.sched from rfl,
      Variable.tickLocked_patch u sh.sched hv sz.1 now] at htick
  | unlock => exact .unlock
  | skip => exact .skip
  | write hne => exact .write hne
  | written => exact .written

/-! ## What a step changes -/

theorem Variable.kept_refl (v : Variable) (s : Scheduler) : v.Kept s s := by cases v <;> rfl

/-- A call changes nothing it does not touch: it does not notice the value put back. -/
theorem Call.exec_kept (s : Scheduler) {c : Call} (hv : v ∉ c.touched) :
    v.Kept s (s.exec c.op).1 := by
  have hpatch := Call.exec_patch s s hv
  rw [v.kept_refl s] at hpatch
  exact hpatch.symm

theorem Variable.tickLocked_kept (s : Scheduler) {sz : VisibleSize} {now : Int}
    (hv : v ∉ (WorkerAct.tick sz now).writes) : v.Kept s (s.tickLocked none sz.1 now).1 := by
  have hlist : v ∉ [dirty, cycles, lastRenderMs, hasRendered] := hv
  rcases s.tickLocked_cases sz.1 now with ⟨-, h⟩ | ⟨-, -, h⟩ | ⟨-, -, h⟩
  · rw [h]
    cases v <;> first | exact absurd (by decide) hlist | rfl
  · rw [h]
    cases v <;> first | exact absurd (by decide) hlist | rfl
  · rw [h]
    exact v.kept_refl s

theorem InputStep.kept {a b : ConsoleApp} {act : InputAct} (h : InputStep a act b)
    (hv : v ∉ act.writes) : v.Kept a.sched b.sched := by
  cases h with
  | update h => exact Call.exec_kept _ hv
  | _ => exact v.kept_refl a.sched

theorem WorkerStep.kept {i : Nat} {sh sh' : Shared} {pc pc' : WorkerPc} {act : WorkerAct}
    (h : WorkerStep i sh pc act sh' pc') (hv : v ∉ act.writes) : v.Kept sh.sched sh'.sched := by
  cases h with
  | tick now => exact Variable.tickLocked_kept _ hv
  | _ => exact v.kept_refl sh.sched

end Patch

namespace Application
variable {τ : Type} {readEvent : τ → Option KeyEvent × τ} {params : Parameters} {term : τ}
  {x y : Application τ} {e : Event} {v : Variable}

def patch (v : Variable) (u : Scheduler) (x : Application τ) : Application τ :=
  { x with app := x.app.patch v u }

/-- **A step changes nothing it does not write.** -/
theorem Step.kept (h : Step readEvent x e y) (hv : v ∉ e.writes) :
    v.Kept x.app.sched y.app.sched := by
  cases h with
  | input h hnext => exact h.kept hv
  | worker h =>
    cases h with
    | worker hpc h => exact h.kept hv
  | event hloop hread h => exact h.kept List.not_mem_nil
  | noEvent | quit | noQuit | poll | clear | signal => exact v.kept_refl _

/-- **A step goes the same way** whatever the value of a variable it does not touch. -/
theorem Step.patch (h : Step readEvent x e y) (u : Scheduler) (hv : ¬ e.Touches v) :
    Step readEvent (x.patch v u) e (y.patch v u) := by
  obtain ⟨hreads, hwrites⟩ := not_or.mp hv
  cases h with
  | input h hnext => exact .input (h.patch u hreads) hnext
  | worker h =>
    cases h with
    | worker hpc h => exact .worker (.worker hpc (h.patch u hreads))
  | event hloop hread h => exact .event hloop hread (h.patch u List.not_mem_nil)
  | noEvent hloop hread => exact .noEvent hloop hread
  | quit hloop hquit | noQuit hloop hquit =>
    have hkept : (v.patch u x.app.sched).interp.quit = x.app.sched.interp.quit := by
      cases v <;> first | exact absurd (by decide) hreads | rfl
    first
      | exact .quit hloop (hkept.trans hquit)
      | exact .noQuit hloop (hkept.trans hquit)
  | poll hloop h => exact .poll hloop h
  | clear hloop hrequested h => exact .clear hloop hrequested h
  | signal h => exact .signal h

/-! ## No conflict -/

/-- A worker reads and writes inside `mu_` only. -/
theorem inside_of_touches {i : Nat} {sh sh' : Shared} {pc pc' : WorkerPc} {act : WorkerAct}
    (h : WorkerStep i sh pc act sh' pc') (hv : v ∈ act.reads ∨ v ∈ act.writes) :
    pc.inside = true := by
  cases h with
  | exit | enter | pass | refuse | repass | rerefuse | stop | leave | tick => rfl
  | lock | block | wake | relock | timeout | size | lockTick | unlock | skip | write | written =>
    exact absurd hv (by simp [WorkerAct.reads, WorkerAct.writes])

/-- No worker writes what the input thread reads without `mu_`. -/
theorem not_mem_writes {act : WorkerAct} (hv : v = .pollingMs ∨ v = .quit) : v ∉ act.writes := by
  cases act with
  | tick sz now =>
    change v ∉ [.dirty, .cycles, .lastRenderMs, .hasRendered]
    rcases hv with rfl | rfl
    · decide
    · decide
  | _ => exact List.not_mem_nil

/-- The input thread and a worker. -/
theorem not_conflicts {i : Nat} {act : WorkerAct} (hx : ConsoleApp.WellFormed x.app)
    (h : Step readEvent x e y) (hinput : e.thread = .input) {b : ConsoleApp}
    (hworker : ConsoleApp.Step x.app (.worker i act) b)
    (hv : (v ∈ e.writes ∧ (v ∈ act.reads ∨ v ∈ act.writes)) ∨ (e.Touches v ∧ v ∈ act.writes)) :
    False := by
  rcases hworker with - | ⟨hpc, hstep⟩
  have hinside : (x.app.workers i).inside = true := by
    rw [hpc]
    exact inside_of_touches hstep (hv.elim And.right fun h => .inr h.2)
  have htouches : e.Touches v := hv.elim (fun h => .inr h.1) And.left
  cases h with
  | input h hnext =>
    cases h with
    | draw sz h =>
      -- no worker exists yet
      refine hx.not_opened (i := i) ?_ (by rw [h]; rfl)
      rw [hpc]
      exact hstep.live
    | update h =>
      have hlocked : x.app.inside .input = true := by
        change x.app.input.inside = true
        rw [h]
        rfl
      exact Thread.noConfusion (hx.owned.unique (y := .worker i) hlocked hinside)
    | _ => exact htouches.elim List.not_mem_nil List.not_mem_nil
  | worker h => exact Thread.noConfusion hinput
  | event | noEvent =>
    have hpolling : v = .pollingMs :=
      htouches.elim List.mem_singleton.mp (absurd · List.not_mem_nil)
    exact hv.elim (fun h => List.not_mem_nil h.1) fun h => not_mem_writes (.inl hpolling) h.2
  | quit | noQuit =>
    have hquit : v = .quit := htouches.elim List.mem_singleton.mp (absurd · List.not_mem_nil)
    exact hv.elim (fun h => List.not_mem_nil h.1) fun h => not_mem_writes (.inr hquit) h.2
  | poll | clear | signal => exact htouches.elim List.not_mem_nil List.not_mem_nil

/-- Two threads never come to conflicting steps at once. -/
theorem never_conflicts (params : Parameters) (term : τ) :
    (system readEvent params term).Invariant fun x => ∀ e y e' y',
      Step readEvent x e y → Step readEvent x e' y' → e.thread ≠ e'.thread → ¬ e.Conflicts e' := by
  intro x hx e y e' y' h h' hne hconflict
  have hwell : ConsoleApp.WellFormed x.app := ConsoleApp.wellFormed params _ (app_reachable hx)
  obtain ⟨v, hv⟩ := hconflict
  by_cases hinput : e.thread = .input
  · cases h' with
    | @worker b i act h' => exact not_conflicts hwell h hinput h' hv
    | _ => exact hne hinput
  · by_cases hinput' : e'.thread = .input
    · cases h with
      | @worker b i act h =>
        exact not_conflicts hwell h' hinput' h (hv.symm.imp And.symm And.symm)
      | _ => exact hinput rfl
    · -- two running workers are one
      cases h with
      | worker h =>
        cases h' with
        | worker h' =>
          rcases h with - | ⟨hpc, hstep⟩
          rcases h' with - | ⟨hpc', hstep'⟩
          have hlive := hstep.live
          have hlive' := hstep'.live
          rw [← hpc] at hlive
          rw [← hpc'] at hlive'
          exact hne (congrArg Thread.worker (hwell.live_unique hlive hlive'))
        | _ => exact hinput' rfl
      | _ => exact hinput rfl

/-- **No data race** on a `Variable`.  In no reachable state can two threads take steps of
which one writes a variable that the other reads or writes.  A step keeps every variable it
does not write, and goes the same way whatever the value of one it does not touch.  The
shutdown flag is no `Variable`: the signal handler writes it while the input thread reads
it. -/
theorem race_free (params : Parameters) (term : τ) :
    ((system readEvent params term).Invariant fun x => ∀ e y e' y',
      Step readEvent x e y → Step readEvent x e' y' → e.thread ≠ e'.thread → ¬ e.Conflicts e') ∧
    (∀ x e y v, Step readEvent x e y → v ∉ e.writes → v.Kept x.app.sched y.app.sched) ∧
    ∀ x e y v u, Step readEvent x e y → ¬ e.Touches v →
      Step readEvent (x.patch v u) e (y.patch v u) :=
  ⟨never_conflicts params term, fun _ _ _ _ h hv => h.kept hv, fun _ _ _ _ u h hv => h.patch u hv⟩

end Application
end Csopesy
