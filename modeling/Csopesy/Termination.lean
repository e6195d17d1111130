import Csopesy.InputLoop
import Csopesy.Stopping

/-! # The application comes to its end

No thread of the application waits for ever.  In every reachable state before the return
of `run`, the input thread or a worker can take a step (`never_stuck`): whoever holds
`mu_` can go on, and `join` waits for a worker that can.

Behind a quit request or a signal that the loop will see (`Ending`), the input thread has
a bounded number of steps left, whatever else is delivered or signalled (`ending_bounded`).
Once `stop_` is set the workers have a bounded number left as well, so threads that go on
bring `run` to its return (`returns_after_stop`).
-/
namespace Csopesy
open Transition

namespace ConsoleApp
variable {a b : ConsoleApp}

/-! ## Workers can go on -/

/-- `worker_` holds a thread that was started. -/
theorem handle_started (params : Parameters) :
    (system params).Invariant (fun a => ∀ i, a.handle = some i → a.workers i ≠ .unborn) := by
  refine LTS.Invariant.of_step ?_ ?_
  · rintro a rfl i hi
    exact absurd hi (by simp)
  · rintro a act b - ha h i hi
    cases h with
    | input h =>
      have hold : a.handle = some i → b.workers i ≠ .unborn := by
        intro hi
        rcases h.worker_cases i with heq | ⟨seen, -, hwoken⟩ | ⟨-, -, -, -, htop⟩
        · rw [heq]
          exact ha i hi
        · rw [hwoken]
          exact WorkerPc.noConfusion
        · rw [htop]
          exact WorkerPc.noConfusion
      cases h with
      | @start ph hw h =>
        obtain rfl := Option.some.inj hi
        show Function.update a.workers a.spawned .top a.spawned ≠ .unborn
        rw [Function.update_self]
        exact WorkerPc.noConfusion
      | join hph hw hj h => exact absurd hi (by simp)
      | _ => exact hold hi
    | @worker j pc pc' act sh hpc h =>
      show Function.update a.workers j pc' i ≠ .unborn
      by_cases hij : i = j
      · subst hij
        rw [Function.update_self]
        cases h <;> exact WorkerPc.noConfusion
      · rw [Function.update_of_ne hij]
        exact ha i hi

/-- A running worker can go on unless the input thread holds `mu_`. -/
theorem worker_steps (ha : WellFormed a) {i : Nat} (hlive : (a.workers i).live = true)
    (hmu : a.mu ≠ some .input) : ∃ act b, Step a (.worker i act) b := by
  have hfree : (a.workers i).inside = false → a.mu = none := by
    intro hout
    cases howner : a.mu with
    | none => rfl
    | some th =>
      have hin := (ha.owned th).mp howner
      cases th with
      | input => exact absurd howner hmu
      | worker j =>
        -- the owner runs, so it is this worker
        have hj : (a.workers j).live = true := by
          have hin' : (a.workers j).inside = true := hin
          cases hpc : a.workers j with
          | unborn | exited =>
            rw [hpc] at hin'
            exact absurd hin' Bool.false_ne_true
          | _ => rfl
        obtain rfl := ha.live_unique hj hlive
        exact absurd (hout.symm.trans hin) Bool.false_ne_true
  cases hpc : a.workers i with
  | unborn | exited =>
    rw [hpc] at hlive
    exact absurd hlive Bool.false_ne_true
  | top => exact ⟨_, _, .worker hpc (.lock (hfree (by rw [hpc]; rfl)))⟩
  | check =>
    cases hstop : a.sched.stop with
    | true => exact ⟨_, _, .worker hpc (.exit hstop)⟩
    | false => exact ⟨_, _, .worker hpc (.enter hstop)⟩
  | entering seen =>
    cases hp : a.sched.waitPredicate seen with
    | true => exact ⟨_, _, .worker hpc (.pass hp)⟩
    | false => exact ⟨_, _, .worker hpc (.refuse hp)⟩
  | parking seen => exact ⟨_, _, .worker hpc .block⟩
  | blocked seen => exact ⟨_, _, .worker hpc (.wake true)⟩
  | woken seen timedOut =>
    have hnone := hfree (by rw [hpc]; rfl)
    cases timedOut with
    | true => exact ⟨_, _, .worker hpc (.timeout hnone)⟩
    | false => exact ⟨_, _, .worker hpc (.relock hnone)⟩
  | rechecking seen =>
    cases hp : a.sched.waitPredicate seen with
    | true => exact ⟨_, _, .worker hpc (.repass hp)⟩
    | false => exact ⟨_, _, .worker hpc (.rerefuse hp)⟩
  | leaving =>
    cases hstop : a.sched.stop with
    | true => exact ⟨_, _, .worker hpc (.stop hstop)⟩
    | false => exact ⟨_, _, .worker hpc (.leave hstop)⟩
  | stepping => exact ⟨_, _, .worker hpc (.size ⟨{}, Size.default_visible⟩)⟩
  | sized sz => exact ⟨_, _, .worker hpc (.lockTick (hfree (by rw [hpc]; rfl)))⟩
  | ticking sz => exact ⟨_, _, .worker hpc (.tick 0)⟩
  | built frame => exact ⟨_, _, .worker hpc .unlock⟩
  | unwritten frame =>
    by_cases hne : frame = []
    · subst hne
      exact ⟨_, _, .worker hpc .skip⟩
    · exact ⟨_, _, .worker hpc (.write hne)⟩
  | writing => exact ⟨_, _, .worker hpc .written⟩

/-- `mu_` is free, or held by a worker that can go on, or by the input thread. -/
theorem lock_or_worker (ha : WellFormed a) (hinput : a.input.inside = false) :
    a.mu = none ∨ ∃ i act b, Step a (.worker i act) b := by
  cases howner : a.mu with
  | none => exact .inl rfl
  | some th =>
    have hin := (ha.owned th).mp howner
    cases th with
    | input => exact absurd (hinput.symm.trans hin) Bool.false_ne_true
    | worker i =>
      refine .inr ⟨i, worker_steps ha (i := i) ?_ (by rw [howner]; simp)⟩
      have hin' : (a.workers i).inside = true := hin
      cases hpc : a.workers i with
      | unborn | exited =>
        rw [hpc] at hin'
        exact absurd hin' Bool.false_ne_true
      | _ => rfl

/-- `join` returns, or waits for a worker that can go on. -/
theorem join_or_worker {params : Parameters} (hr : (system params).Reachable a) {ph : Phase}
    (hph : ph.stopped = true) (h : a.input = .ready ph) :
    (∃ b, InputStep a .join b) ∨ ∃ i act b, Step a (.worker i act) b := by
  have ha := wellFormed params a hr
  cases hhandle : a.handle with
  | none => exact .inl ⟨_, .joinNothing hph hhandle h⟩
  | some i =>
    cases hlive : (a.workers i).live with
    | true =>
      refine .inr ⟨i, worker_steps ha hlive fun howner => ?_⟩
      have hin : a.input.inside = true := (ha.owned .input).mp howner
      rw [h] at hin
      exact absurd hin Bool.false_ne_true
    | false =>
      have hexited : a.workers i = .exited := by
        cases hpc : a.workers i with
        | exited => rfl
        | unborn => exact absurd hpc (handle_started params a hr i hhandle)
        | _ =>
          rw [hpc] at hlive
          exact absurd hlive Bool.true_eq_false.mp
      exact .inl ⟨_, .join hph hhandle hexited h⟩

end ConsoleApp

namespace Application
variable {τ : Type} {readEvent : τ → Option KeyEvent × τ} {params : Parameters} {term : τ}

/-- A step of the input thread or of a worker. -/
def Event.own : Event → Bool
  | .flag .deliver => false
  | _ => true

/-- A step of the input thread. -/
def Event.ofInput : Event → Bool
  | .worker _ _ | .flag .deliver => false
  | _ => true

/-- The input thread in a call goes on, or waits for a worker that can. -/
theorem call_steps {x : Application τ} (hx : (system readEvent params term).Reachable x)
    {ph : Phase} {c : Call} (hcall : x.app.input.call? = some (ph, c)) (hc : c ≠ .wake)
    (hnext : ∀ act, act = .lock ∨ act = .update c ∨ act = .unlock ∨ act = .notify c →
      ∃ pc, x.loop.next act = some pc) :
    ∃ e y, e.own = true ∧ Step readEvent x e y := by
  have ha := ConsoleApp.wellFormed params x.app (app_reachable hx)
  cases hpc : x.app.input with
  | calling ph' c' =>
    rw [hpc] at hcall
    rcases ConsoleApp.lock_or_worker ha (by rw [hpc]; rfl) with hmu | ⟨i, act, b, hstep⟩
    · obtain ⟨pc, hpc'⟩ := hnext .lock (.inl rfl)
      exact ⟨_, _, rfl, .input (.lock hmu hpc) hpc'⟩
    · exact ⟨_, _, rfl, .worker hstep⟩
  | locked ph' c' =>
    rw [hpc] at hcall
    obtain ⟨-, rfl⟩ := Prod.mk.inj (Option.some.inj hcall)
    obtain ⟨pc, hpc'⟩ := hnext (.update c') (.inr (.inl rfl))
    exact ⟨_, _, rfl, .input (.update hpc) hpc'⟩
  | updated ph' c' =>
    obtain ⟨pc, hpc'⟩ := hnext .unlock (.inr (.inr (.inl rfl)))
    exact ⟨_, _, rfl, .input (.unlock hpc) hpc'⟩
  | notifying ph' c' =>
    rw [hpc] at hcall
    obtain ⟨-, rfl⟩ := Prod.mk.inj (Option.some.inj hcall)
    obtain ⟨pc, hpc'⟩ := hnext (.notify c') (.inr (.inr (.inr rfl)))
    exact ⟨_, _, rfl, .input (.notifyAll hc hpc) hpc'⟩
  | _ =>
    rw [hpc] at hcall
    exact absurd hcall (by simp [InputPc.call?])

/-- **The application is never stuck.**  Until `run` has returned, a thread can go on
without waiting for a signal. -/
theorem never_stuck {x : Application τ} (hx : (system readEvent params term).Reachable x)
    (hloop : x.loop ≠ .returned) : ∃ e y, e.own = true ∧ Step readEvent x e y := by
  obtain ⟨hat, hflag⟩ := placed params term x hx
  cases hpc : x.loop with
  | opening =>
    rw [hpc] at hat
    obtain ⟨hphase, hcall⟩ := hat
    cases hinput : x.app.input with
    | start =>
      exact ⟨_, _, rfl, .input (.draw ⟨{}, Size.default_visible⟩ hinput) (by rw [hpc]; rfl)⟩
    | drawing frame =>
      by_cases hne : frame = []
      · subst hne
        exact ⟨_, _, rfl, .input (.skip hinput) (by rw [hpc]; rfl)⟩
      · exact ⟨_, _, rfl, .input (.paint hne hinput) (by rw [hpc]; rfl)⟩
    | painting => exact ⟨_, _, rfl, .input (.painted hinput) (by rw [hpc]; rfl)⟩
    | ready ph =>
      rw [hinput] at hphase
      obtain rfl : ph = .opened := hphase
      have hhandle := (ConsoleApp.wellFormed params x.app (app_reachable hx)).unstarted
        (by rw [hinput]; rfl)
      exact ⟨_, _, rfl, .input (.start hhandle hinput) (by rw [hpc]; rfl)⟩
    | farewell =>
      rw [hinput] at hphase
      exact Phase.noConfusion hphase
    | _ =>
      rw [hinput] at hcall
      exact absurd hcall (by simp [InputPc.call?])
  | reading =>
    rw [hpc] at hat
    cases hread : readEvent x.term with
    | mk ev t =>
      cases ev with
      | none => exact ⟨_, _, rfl, .noEvent hpc hread⟩
      | some ev => exact ⟨_, _, rfl, .event hpc hread (.call (.postEvent ev) rfl hat)⟩
  | posting =>
    rw [hpc] at hat
    obtain ⟨ev, hcall⟩ := hat
    refine call_steps hx hcall Call.noConfusion fun act hact => ?_
    rw [hpc]
    rcases hact with rfl | rfl | rfl | rfl <;> exact ⟨_, rfl⟩
  | testing =>
    cases hquit : x.app.sched.interp.quit with
    | true => exact ⟨_, _, rfl, .quit hpc hquit⟩
    | false => exact ⟨_, _, rfl, .noQuit hpc hquit⟩
  | polling =>
    have hnone : x.flag.requested = none := hflag.mpr (by rw [hpc]; exact LoopPc.noConfusion)
    have hread : x.flag.next .read =
        some { x.flag with requested := some x.flag.g_shutdownRequested } := by
      unfold ShutdownFlag.next
      rw [hnone]
    exact ⟨_, _, rfl, .poll hpc hread⟩
  | clearing =>
    have hsome : x.flag.requested ≠ none := fun h => (hflag.mp h) hpc
    obtain ⟨requested, hrequested⟩ := Option.ne_none_iff_exists'.mp hsome
    have hclear : x.flag.next .clear = some { x.flag with
        g_shutdownRequested := false, requested := none,
        owed := x.flag.owed && !requested } := by
      unfold ShutdownFlag.next
      rw [hrequested]
    exact ⟨_, _, rfl, .clear hpc hrequested hclear⟩
  | stopping | destroying =>
    rw [hpc] at hat
    rcases hat with hready | hcall
    · exact ⟨_, _, rfl, .input (.call .requestStop rfl hready) (by rw [hpc]; rfl)⟩
    · refine call_steps hx hcall Call.noConfusion fun act hact => ?_
      rw [hpc]
      rcases hact with rfl | rfl | rfl | rfl <;> exact ⟨_, rfl⟩
  | joining | rejoining =>
    rw [hpc] at hat
    rcases ConsoleApp.join_or_worker (app_reachable hx) rfl hat with
      ⟨b, hstep⟩ | ⟨i, act, b, hstep⟩
    · exact ⟨_, _, rfl, .input hstep (by rw [hpc]; rfl)⟩
    · exact ⟨_, _, rfl, .worker hstep⟩
  | leaving =>
    rw [hpc] at hat
    rcases hat with hready | hfarewell
    · exact ⟨_, _, rfl, .input (.farewell hready) (by rw [hpc]; rfl)⟩
    · exact ⟨_, _, rfl, .input (.finish hfarewell) (by rw [hpc]; rfl)⟩
  | returned => exact absurd hpc hloop

variable (params term) in
/-- The input thread leaves the loop behind a quit and stops the worker. -/
theorem stopping_run {x : Application τ} (hloop : x.loop = .testing)
    (hinput : x.app.input = .ready .looping) (hmu : x.app.mu = none)
    (hquit : x.app.sched.interp.quit = true) :
    ∃ y, (system readEvent params term).Run x [.test true, .input (.call .requestStop),
        .input .lock, .input (.update .requestStop), .input .unlock,
        .input (.notify .requestStop)] y ∧
      y.loop = .joining ∧ y.app.input = .ready .stopping ∧ y.app.mu = none ∧
      y.app.sched.stop = true ∧ y.app.handle = x.app.handle ∧
      ∀ i, y.app.workers i = (x.app.workers i).notified :=
  ⟨_, .cons (.quit hloop hquit) <|
    .cons (.input (.call .requestStop rfl hinput) rfl) <|
    .cons (.input (.lock hmu rfl) rfl) <|
    .cons (.input (.update rfl) rfl) <|
    .cons (.input (.unlock rfl) rfl) <|
    .cons (.input (.notifyAll Call.noConfusion rfl) rfl) (.nil _),
    rfl, rfl, rfl, rfl, rfl, fun _ => rfl⟩

/-- The input thread is in its join, and the worker it waits for is inside `mu_`. -/
theorem never_stuck_joining :
    ∃ x, (system scripted {} [some { type := .eof }]).Reachable x ∧ x.loop = .joining ∧
      x.app.handle = some 0 ∧ x.app.inside (.worker 0) = true ∧
      ∃ e y, e.own = true ∧ Step scripted x e y := by
  obtain ⟨labels, x, hrun, hloop, hinput, hmu, hquit, -, -, -, hhandle, htop, -⟩ :=
    eof_run scripted [some { type := .eof }] rfl rfl
  obtain ⟨y, hrun', hloop', -, hmu', -, hhandle', hworkers⟩ :=
    stopping_run {} [some { type := .eof }] hloop hinput hmu hquit
  have htop' : y.app.workers 0 = .top := (hworkers 0).trans (congrArg WorkerPc.notified htop)
  have hlocked : ∃ z, Step scripted y (.worker 0 .lock) z ∧ z.loop = y.loop ∧
      z.app.handle = y.app.handle ∧ z.app.workers 0 = .check :=
    ⟨_, .worker (.worker htop' (.lock hmu')), rfl, rfl, rfl⟩
  obtain ⟨z, hstep, hsame, hheld, hcheck⟩ := hlocked
  have hz := ((hrun.append hrun').reachable (.init rfl)).step hstep
  have hjoining : z.loop = .joining := hsame.trans hloop'
  refine ⟨z, hz, hjoining, hheld.trans (hhandle'.trans hhandle), congrArg WorkerPc.inside hcheck,
    never_stuck hz ?_⟩
  rw [hjoining]
  exact LoopPc.noConfusion

/-! ## The steps of the input thread that are left -/

/-- The steps of the input thread inside its place of `run`. -/
def ahead : InputPc → Nat
  | .start => 3
  | .drawing _ => 2
  | .painting => 1
  | .ready .looping | .ready .closed => 4
  | .ready .joined => 1
  | .calling _ _ => 3
  | .locked _ _ => 2
  | .updated _ _ => 1
  | _ => 0

/-- The steps of the input thread until `run` returns, when this round is the last. -/
def toGo : LoopPc → InputPc → Nat
  | .opening, pc => 23 + ahead pc
  | .reading, _ => 22
  | .posting, pc => 18 + ahead pc
  | .testing, _ => 17
  | .polling, _ => 16
  | .clearing, _ => 15
  | .stopping, pc => 10 + ahead pc
  | .joining, _ => 9
  | .leaving, pc => 7 + ahead pc
  | .destroying, pc => 2 + ahead pc
  | .rejoining, _ => 1
  | .returned, _ => 0

theorem Moves.toGo_lt {pc pc' : LoopPc} {ipc ipc' : InputPc} (h : Moves pc ipc pc' ipc') :
    toGo pc' ipc' < toGo pc ipc := by
  cases h with
  | lock ph c h | update ph c h | unlock ph c h =>
    cases pc with
    | opening => exact absurd h.2 (by simp [InputPc.call?])
    | posting | stopping | destroying => simp [toGo, ahead]
    | leaving => exact (h.elim InputPc.noConfusion InputPc.noConfusion)
    | _ => exact InputPc.noConfusion h
  | _ => simp [toGo, ahead]

/-- The loop is left, or its next test leaves it: a quit was requested, or the flag is set
outside `shutdownRequested`, or was read as set. -/
def Ending (x : Application τ) : Prop :=
  x.loop.left = true ∨ x.app.sched.interp.quit = true ∨
    (x.flag.g_shutdownRequested = true ∧ x.loop ≠ .clearing) ∨ x.flag.requested = some true

/-- In its last round the loop reads a set flag. -/
theorem Ending.requested {x : Application τ} (hx : (system readEvent params term).Reachable x)
    (h : Ending x) (hloop : x.loop = .clearing) : x.flag.requested = some true := by
  rcases h with hleft | hquit | ⟨-, hne⟩ | hrequested
  · rw [hloop] at hleft
    exact absurd hleft Bool.false_ne_true
  · have hseen := (quit_seen params term x hx hquit).1
    rw [hloop] at hseen
    exact absurd hseen.symm Bool.false_ne_true
  · exact absurd hloop hne
  · exact hrequested

/-- Inside the loop a step that leaves the flag alone and does not come to its clearing. -/
theorem Ending.inside {x y : Application τ} (h : Ending x) (hleft : x.loop.left = false)
    (hquit : x.app.sched.interp.quit = true → y.app.sched.interp.quit = true)
    (hflag : y.flag = x.flag) (hloop : y.loop ≠ .clearing) : Ending y := by
  rcases h with hl | hq | ⟨hg, -⟩ | hr
  · exact absurd (hleft.symm.trans hl) Bool.false_ne_true
  · exact .inr (.inl (hquit hq))
  · exact .inr (.inr (.inl ⟨hflag ▸ hg, hloop⟩))
  · exact .inr (.inr (.inr (hflag ▸ hr)))

theorem left_next {pc pc' : LoopPc} {act : InputAct} (h : pc.next act = some pc')
    (hpc : pc.left = true) : pc'.left = true := by
  unfold LoopPc.next at h
  split at h
  all_goals first
    | (obtain rfl := Option.some.inj h
       first
         | rfl
         | exact absurd hpc Bool.false_ne_true)
    | exact absurd h (by simp)

/-- **Step lemma.**  The last round stays the last, and each of its steps brings the input
thread closer to the return. -/
theorem Ending.step {x y : Application τ} {e : Event}
    (hx : (system readEvent params term).Reachable x) (h : Ending x)
    (hstep : Step readEvent x e y) :
    Ending y ∧ toGo y.loop y.app.input + (if e.ofInput then 1 else 0) ≤
      toGo x.loop x.app.input := by
  have hat := (placed params term x hx).input
  have hquit := quit_step hstep
  have hrequested := h.requested hx
  cases hstep with
  | @input b act pc hstep hnext =>
    refine ⟨?_, (moves hat hstep hnext).toGo_lt⟩
    rcases h with hleft | hq | ⟨hg, -⟩ | hr
    · exact .inl (left_next hnext hleft)
    · exact .inr (.inl (hquit hq))
    · exact .inr (.inr (.inl ⟨hg, (next_ne_clearing hnext).2⟩))
    · exact .inr (.inr (.inr hr))
  | @worker b i act hstep =>
    obtain ⟨-, hinput⟩ := still_worker hstep
    refine ⟨?_, le_of_eq (congrArg (toGo x.loop) hinput)⟩
    rcases h with hleft | hq | hg | hr
    · exact .inl hleft
    · exact .inr (.inl (hquit hq))
    · exact .inr (.inr (.inl hg))
    · exact .inr (.inr (.inr hr))
  | event hloop hread hstep =>
    have hleft : x.loop.left = false := by
      rw [hloop]
      rfl
    rw [hloop]
    cases hstep with
    | call c hph hpc =>
      exact ⟨h.inside hleft hquit rfl LoopPc.noConfusion, Nat.le_refl 22⟩
  | noEvent hloop hread =>
    have hleft : x.loop.left = false := by
      rw [hloop]
      rfl
    rw [hloop]
    exact ⟨h.inside hleft hquit rfl LoopPc.noConfusion, show 18 ≤ 22 by omega⟩
  | quit hloop hq =>
    rw [hloop] at hat ⊢
    have hready : x.app.input = .ready .looping := hat
    refine ⟨.inl rfl, ?_⟩
    rw [hready]
    exact show 15 ≤ 17 by omega
  | noQuit hloop hq =>
    have hleft : x.loop.left = false := by
      rw [hloop]
      rfl
    rw [hloop]
    exact ⟨h.inside hleft hquit rfl LoopPc.noConfusion, Nat.le_refl 17⟩
  | poll hloop hnext =>
    rw [hloop]
    refine ⟨?_, Nat.le_refl 16⟩
    obtain ⟨-, hread⟩ := ShutdownFlag.next_read hnext
    rcases h with hleft | hq | ⟨hg, -⟩ | hr
    · rw [hloop] at hleft
      exact absurd hleft Bool.false_ne_true
    · exact .inr (.inl (hquit hq))
    · exact .inr (.inr (.inr (hread.trans (congrArg some hg))))
    · -- no read is open before this one
      have hnone := (placed params term x hx).flag.mpr (by rw [hloop]; exact LoopPc.noConfusion)
      exact absurd (hnone.symm.trans hr) (by simp)
  | @clear flag requested hloop hreq hnext =>
    obtain rfl : requested = true := Option.some.inj (hreq.symm.trans (hrequested hloop))
    rw [hloop] at hat ⊢
    have hready : x.app.input = .ready .looping := hat
    refine ⟨.inl rfl, ?_⟩
    rw [hready]
    exact Nat.le_refl 15
  | signal hnext =>
    obtain ⟨hg, hr⟩ := ShutdownFlag.next_deliver hnext
    refine ⟨?_, Nat.le_refl _⟩
    rcases h with hleft | hq | ⟨-, hne⟩ | hreq
    · exact .inl hleft
    · exact .inr (.inl hq)
    · exact .inr (.inr (.inl ⟨hg, hne⟩))
    · exact .inr (.inr (.inr (hr.trans hreq)))

theorem ahead_le (pc : InputPc) : ahead pc ≤ 4 := by
  unfold ahead
  split <;> omega

theorem toGo_le (pc : LoopPc) (ipc : InputPc) : toGo pc ipc ≤ 27 := by
  have h := ahead_le ipc
  cases pc <;> simp only [toGo] <;> omega

/-- **The last round is short.**  Whatever else is typed and signalled, the input thread
makes at most as many steps as are ahead of it. -/
theorem ending_bounded {x y : Application τ} {labels : List Event}
    (hx : (system readEvent params term).Reachable x) (hend : Ending x)
    (hrun : (system readEvent params term).Run x labels y) :
    Ending y ∧ labels.countP Event.ofInput ≤ toGo x.loop x.app.input ∧
      labels.countP Event.ofInput ≤ 27 := by
  have hcount : labels.countP Event.ofInput ≤ toGo x.loop x.app.input :=
    hrun.countP_le (P := Ending) (fun x e y hr h hstep => h.step hr hstep) hx hend
  refine ⟨?_, hcount, hcount.trans (toGo_le _ _)⟩
  exact hrun.preserves (P := Ending) (p := fun _ => True)
    (fun x e y hr _ h hstep => (h.step hr hstep).1) hx (fun _ _ => trivial) hend

/-- Behind Ctrl+D at most 17 steps of the input thread follow. -/
theorem ending_bounded_eof :
    ∃ x, (system scripted {} [some { type := .eof }]).Reachable x ∧ Ending x ∧
      ∀ labels y, (system scripted {} [some { type := .eof }]).Run x labels y →
        labels.countP Event.ofInput ≤ 17 := by
  obtain ⟨labels, x, hrun, hloop, -, -, hquit, -⟩ :=
    eof_run scripted [some { type := .eof }] rfl rfl
  have hend : Ending x := .inr (.inl hquit)
  have hx := hrun.reachable (.init rfl)
  refine ⟨x, hx, hend, fun labels y hrun => ?_⟩
  have hcount := (ending_bounded hx hend hrun).2.1
  rw [hloop] at hcount
  exact hcount

/-! ## The steps of a worker that are left -/

/-- The steps of a worker until it exits, once `stop_` is set. -/
def toExit : WorkerPc → Nat
  | .unborn | .exited => 0
  | .check | .leaving => 1
  | .top | .entering _ | .rechecking _ => 2
  | .writing | .woken _ _ => 3
  | .unwritten _ | .blocked _ => 4
  | .built _ | .parking _ => 5
  | .ticking _ => 6
  | .sized _ => 7
  | .stepping => 8

theorem toExit_lt {i : Nat} {sh sh' : Shared} {pc pc' : WorkerPc} {act : WorkerAct}
    (h : WorkerStep i sh pc act sh' pc') (hstop : sh.sched.stop = true) :
    toExit pc' < toExit pc := by
  have hpred : ∀ seen, sh.sched.waitPredicate seen = true := by
    intro seen
    simp [Scheduler.waitPredicate, hstop]
  cases h with
  | enter hgo | leave hgo => exact absurd (hgo.symm.trans hstop) Bool.false_ne_true
  | refuse hp | rerefuse hp => exact absurd (hp.symm.trans (hpred _)) Bool.false_ne_true
  | _ => simp [toExit]

open ConsoleApp (remaining remaining_of_none remaining_of_some)

/-- Behind the loop the input thread starts no worker, and wakes or joins the one there
is. -/
theorem remaining_moves {a b : ConsoleApp} {act : InputAct} (h : InputStep a act b)
    (hact : act ≠ .start) : remaining toExit b ≤ remaining toExit a := by
  have hhandle : b.handle = a.handle ∨ b.handle = none := by
    cases h with
    | start hw h => exact absurd rfl hact
    | join hph hw hi h => exact .inr rfl
    | _ => exact .inl rfl
  have hspawned : b.spawned = a.spawned := by
    cases h with
    | start hw h => exact absurd rfl hact
    | _ => rfl
  rcases hhandle with hsame | hnone
  · cases hi : a.handle with
    | none =>
      rw [remaining_of_none toExit (hsame.trans hi)]
      exact Nat.zero_le _
    | some i =>
      rw [remaining_of_some toExit (hsame.trans hi), remaining_of_some toExit hi]
      obtain heq | ⟨seen, hblocked, hwoken⟩ | ⟨hi, hnew, -⟩ := h.worker_cases i
      · rw [heq]
      · rw [hblocked, hwoken]
        exact Nat.le_succ 3
      · omega
  · rw [remaining_of_none toExit hnone]
    exact Nat.zero_le _

theorem remaining_worker {a : ConsoleApp} (ha : ConsoleApp.WellFormed a)
    (hstop : a.sched.stop = true) {i : Nat} {act : WorkerAct} {b : ConsoleApp}
    (h : ConsoleApp.Step a (.worker i act) b) : remaining toExit b < remaining toExit a := by
  cases h with
  | @worker _ pc pc' _ sh hpc h =>
    have hhandle : a.handle = some i := ha.single i (hpc ▸ h.live)
    rw [remaining_of_some toExit hhandle, hpc]
    refine lt_of_eq_of_lt (remaining_of_some toExit (i := i) hhandle) ?_
    show toExit (Function.update a.workers i pc' i) < toExit pc
    rw [Function.update_self]
    exact toExit_lt h hstop

/-- `stop_` is set behind the loop only. -/
theorem left_of_stop (params : Parameters) (term : τ) :
    (system readEvent params term).Invariant
      (fun x => x.app.sched.stop = true → x.loop.left = true) := by
  refine LTS.Invariant.of_step ?_ ?_
  · rintro x rfl hstop
    exact absurd hstop Bool.false_ne_true
  · intro x e y hx hleft hstep hstop
    have hat := (placed params term x hx).input
    cases hstep with
    | @input b act pc hstep hnext =>
      have hstop' : b.sched.stop = true := hstop
      rcases hstep.sched_cases with heq | ⟨ph, c, rfl, hlocked, heq⟩
      · rw [heq] at hstop'
        exact left_next hnext (hleft hstop')
      · rw [heq] at hstop'
        cases c with
        | requestStop =>
          -- only the places behind the loop call `requestStop`
          have hmoves := moves hat hstep hnext
          rw [hlocked] at hmoves
          generalize b.input = after at hmoves
          generalize x.loop = place at hmoves
          show pc.left = true
          cases hmoves with
          | update ph c h =>
            cases pc with
            | posting =>
              obtain ⟨ev, hcall⟩ := h
              exact Call.noConfusion (Prod.mk.inj (Option.some.inj hcall)).2
            | opening => exact absurd h.2 (by simp [InputPc.call?])
            | reading | testing | polling | clearing => exact InputPc.noConfusion h
            | stopping | joining | leaving | destroying | rejoining | returned => rfl
        | postEvent | wake => exact left_next hnext (hleft hstop')
    | worker hstep =>
      refine hleft ?_
      cases hstep with
      | worker hpc h => exact h.stop_eq.symm.trans hstop
    | event hloop hread hstep =>
      cases hstep
      have hx := hleft hstop
      rw [hloop] at hx
      exact absurd hx Bool.false_ne_true
    | noEvent hloop | noQuit hloop | poll hloop =>
      have hx := hleft hstop
      rw [hloop] at hx
      exact absurd hx Bool.false_ne_true
    | clear hloop =>
      have hx := hleft hstop
      rw [hloop] at hx
      exact absurd hx Bool.false_ne_true
    | quit => rfl
    | signal => exact hleft hstop

/-- The steps of both threads that are left. -/
def allLeft (x : Application τ) : Nat := toGo x.loop x.app.input + remaining toExit x.app

theorem allLeft_lt {x y : Application τ} {e : Event}
    (hx : (system readEvent params term).Reachable x) (hstop : x.app.sched.stop = true)
    (hstep : Step readEvent x e y) (he : e.own = true) :
    y.app.sched.stop = true ∧ allLeft y < allLeft x := by
  have hleft := left_of_stop params term x hx hstop
  have hat := (placed params term x hx).input
  cases hstep with
  | @input b act pc hstep hnext =>
    have hact : act ≠ .start := by
      rintro rfl
      cases hpc : x.loop with
      | opening =>
        rw [hpc] at hleft
        exact absurd hleft Bool.false_ne_true
      | _ =>
        rw [hpc] at hnext
        exact absurd hnext (by simp [LoopPc.next])
    exact ⟨ConsoleApp.stop_step (.input hstep) hstop,
      Nat.add_lt_add_of_lt_of_le (moves hat hstep hnext).toGo_lt (remaining_moves hstep hact)⟩
  | @worker b i act hstep =>
    obtain ⟨-, hinput⟩ := still_worker hstep
    have hlt := remaining_worker (ConsoleApp.wellFormed params x.app (app_reachable hx)) hstop hstep
    refine ⟨ConsoleApp.stop_step hstep hstop, ?_⟩
    show toGo x.loop b.input + remaining toExit b < allLeft x
    rw [hinput]
    exact Nat.add_lt_add_left hlt _
  | event hloop | noEvent hloop | noQuit hloop | quit hloop | poll hloop | clear hloop =>
    rw [hloop] at hleft
    exact absurd hleft Bool.false_ne_true
  | signal => exact absurd he Bool.false_ne_true

/-- **`run` returns.**  Once `stop_` is set, threads that go on, in whatever order, bring
`run` to its return. -/
theorem returns_after_stop {s : Nat → Application τ}
    (hs : (system readEvent params term).Reachable (s 0)) (hstop : (s 0).app.sched.stop = true)
    (hstep : ∀ i, (s i).loop ≠ .returned →
      ∃ e, e.own = true ∧ Step readEvent (s i) e (s (i + 1))) :
    ∃ i, i ≤ allLeft (s 0) ∧ (s i).loop = .returned := by
  by_contra hnever
  have hrunning : ∀ i, i ≤ allLeft (s 0) → (s i).loop ≠ .returned :=
    fun i hi hreturned => hnever ⟨i, hi, hreturned⟩
  have hdrop : ∀ i, i ≤ allLeft (s 0) + 1 → (system readEvent params term).Reachable (s i) ∧
      (s i).app.sched.stop = true ∧ allLeft (s i) + i ≤ allLeft (s 0) := by
    intro i
    induction i with
    | zero => exact fun _ => ⟨hs, hstop, Nat.le_refl _⟩
    | succ i ih =>
      intro hi
      obtain ⟨hr, hstop', hle⟩ := ih (by omega)
      obtain ⟨e, he, hst⟩ := hstep i (hrunning i (by omega))
      obtain ⟨hstop'', hlt⟩ := allLeft_lt hr hstop' hst he
      exact ⟨hr.step hst, hstop'', by omega⟩
  obtain ⟨-, -, hle⟩ := hdrop (allLeft (s 0) + 1) (Nat.le_refl _)
  omega

/-- The steps from the join to the return, with the worker at the head of its loop. -/
def lastSteps : List Event :=
  [.worker 0 .lock, .worker 0 .exit, .input .join, .input .farewell, .input .finish,
    .input (.call .requestStop), .input .lock, .input (.update .requestStop), .input .unlock,
    .input (.notify .requestStop), .input .join]

variable (params term) in
/-- The worker exits, and `run` returns. -/
theorem returning_run {y : Application τ} (hloop : y.loop = .joining)
    (hinput : y.app.input = .ready .stopping) (hmu : y.app.mu = none)
    (hstop : y.app.sched.stop = true) (hhandle : y.app.handle = some 0)
    (htop : y.app.workers 0 = .top) :
    ∃ z, (system readEvent params term).Run y lastSteps z ∧ z.loop = .returned :=
  ⟨_, .cons (.worker (.worker htop (.lock hmu))) <|
    .cons (.worker (.worker rfl (.exit hstop))) <|
    .cons (.input (.join rfl hhandle rfl hinput) (by rw [hloop]; rfl)) <|
    .cons (.input (.farewell rfl) rfl) <|
    .cons (.input (.finish rfl) rfl) <|
    .cons (.input (.call .requestStop rfl rfl) rfl) <|
    .cons (.input (.lock rfl rfl) rfl) <|
    .cons (.input (.update rfl) rfl) <|
    .cons (.input (.unlock rfl) rfl) <|
    .cons (.input (.notifyAll Call.noConfusion rfl) rfl) <|
    .cons (.input (.joinNothing rfl rfl rfl) rfl) (.nil _), rfl⟩

/-- The input thread stops the worker, which exits, and returns. -/
theorem returns_after_stop_eof :
    ∃ s : Nat → Application (List (Option KeyEvent)),
      (system scripted {} [some { type := .eof }]).Reachable (s 0) ∧ (s 0).loop = .joining ∧
      ∃ i, (s i).loop = .returned := by
  obtain ⟨labels, x, hrun, hloop, hinput, hmu, hquit, -, -, -, hhandle, htop, -⟩ :=
    eof_run scripted [some { type := .eof }] rfl rfl
  obtain ⟨y, hrun', hloop', hinput', hmu', hstop, hhandle', hworkers⟩ :=
    stopping_run {} [some { type := .eof }] hloop hinput hmu hquit
  have htop' : y.app.workers 0 = .top := (hworkers 0).trans (congrArg WorkerPc.notified htop)
  obtain ⟨z, hrun'', hloop''⟩ :=
    returning_run {} [some { type := .eof }] hloop' hinput' hmu' hstop (hhandle'.trans hhandle)
      htop'
  obtain ⟨s, hzero, hsteps, hrest⟩ := hrun''.exists_sequence
  have hy := (hrun.append hrun').reachable (.init rfl)
  have hr : (system scripted {} [some { type := .eof }]).Reachable (s 0) := by
    rw [hzero]
    exact hy
  refine ⟨s, hr, by rw [hzero]; exact hloop', ?_⟩
  obtain ⟨i, -, hi⟩ := returns_after_stop hr (by rw [hzero]; exact hstop) fun i hne => by
    by_cases hlt : i < lastSteps.length
    · obtain ⟨e, he, hstep⟩ := hsteps i hlt
      have hall : ∀ e ∈ lastSteps, e.own = true := by decide
      exact ⟨e, hall e he, hstep⟩
    · exact absurd (by rw [hrest i (Nat.le_of_not_lt hlt)]; exact hloop'') hne
  exact ⟨i, hi⟩

end Application
end Csopesy
