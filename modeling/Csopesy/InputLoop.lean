import Csopesy.Application
import Csopesy.Independence

/-! # What the input loop reads, feeds and leaves for

The loop of `ConsoleApp::run` tests `quit_` without the lock, between two posts.  No
worker writes what it reads there (`still_worker`), so the test sees exactly what the last
post left.  Hence, for any interleaving with the workers and the signal handler, the
session is `feedUntilQuit` on the keys that the terminal delivered: no key is lost, and
none is read once a quit was requested (`session_follows_keys`).  The loop is left for a
quit, or for a signal that was delivered (`loop_left_cause`).
-/
namespace Csopesy
open Transition

namespace LoopPc

/-- The places from which the loop reads on without a further test of `quit_`. -/
def readsOn : LoopPc → Bool
  | opening | reading | polling | clearing => true
  | _ => false

theorem readsOn_of_next {pc pc' : LoopPc} {act : InputAct} (h : pc.next act = some pc')
    (hpc' : pc'.readsOn = true) : pc = .opening ∧ ∀ c, act ≠ .update c := by
  unfold next at h
  split at h
  all_goals first
    | (obtain rfl := Option.some.inj h
       first
         | exact ⟨rfl, fun c => InputAct.noConfusion⟩
         | exact absurd hpc' Bool.false_ne_true)
    | exact absurd h (by simp)

theorem next_call {pc pc' : LoopPc} {act : InputAct} (h : pc.next act = some pc')
    (ev : KeyEvent) : act ≠ .call (.postEvent ev) := by
  rintro rfl
  cases pc <;> exact absurd h (by simp [next])

end LoopPc

namespace Interpreter

theorem Outcome.quit_eq {it it' : Interpreter} (h : Outcome it it') (hquit : it.quit = true) :
    it'.quit = true := by
  cases h with
  | quit m => rfl
  | message | start | stop | text | refresh => exact hquit

theorem KeyOutcome.quit_eq {it it' : Interpreter} (h : KeyOutcome it it') (hquit : it.quit = true) :
    it'.quit = true := by
  cases h with
  | ignored | typed | erased => exact hquit
  | submitted => exact it.submit_outcome.quit_eq hquit
  | ended => rfl

/-- One more key, while no quit was requested. -/
theorem feedUntilQuit_concat {it it' : Interpreter} {keys : List KeyEvent}
    (h : it.feedUntilQuit keys = (it', [])) (hquit : it'.quit = false) (ev : KeyEvent) :
    it.feedUntilQuit (keys ++ [ev]) = ((it'.feed ev).1, []) := by
  induction keys generalizing it with
  | nil =>
    obtain rfl : it = it' := (Prod.mk.inj h).1
    rw [List.nil_append, feedUntilQuit]
    split <;> rfl
  | cons key keys ih =>
    rw [feedUntilQuit] at h
    rw [List.cons_append, feedUntilQuit]
    by_cases hkey : (it.feed key).1.quit = true
    · rw [if_pos hkey] at h
      obtain rfl := (Prod.mk.inj h).1
      exact absurd (hquit.symm.trans hkey) Bool.false_ne_true
    · rw [if_neg hkey] at h ⊢
      exact ih h

end Interpreter

namespace Application
variable {τ : Type} {readEvent : τ → Option KeyEvent × τ} {params : Parameters} {term : τ}

/-- The keys that `readEvent` delivered. -/
def keysRead (labels : List Event) : List KeyEvent :=
  labels.filterMap fun
    | .read ev => ev
    | _ => none

/-- The key that was read and is not fed yet. -/
def unfed : InputPc → List KeyEvent
  | .calling _ (.postEvent ev) | .locked _ (.postEvent ev) => [ev]
  | _ => []

/-! ## What one step does to the session -/

/-- **A worker leaves alone what the input thread reads without the lock.** -/
theorem still_worker {a b : ConsoleApp} {i : Nat} {act : WorkerAct}
    (h : ConsoleApp.Step a (.worker i act) b) :
    b.sched.interp.still = a.sched.interp.still ∧ b.input = a.input := by
  cases h with
  | worker hpc h =>
    refine ⟨?_, rfl⟩
    rcases h.sched_cases with heq | ⟨sz, now, -, -, heq, -⟩
    · exact congrArg (fun s : Scheduler => s.interp.still) heq
    · exact (congrArg (fun s : Scheduler => s.interp.still) heq).trans (a.sched.tick_still sz.1 now)

/-- The input thread leaves the session alone, or feeds the key that was read. -/
theorem unfed_input {a b : ConsoleApp} {act : InputAct} (h : InputStep a act b)
    (hact : ∀ ev, act ≠ .call (.postEvent ev)) :
    (b.sched.interp = a.sched.interp ∧ unfed b.input = unfed a.input) ∨
    ∃ ev, act = .update (.postEvent ev) ∧ unfed a.input = [ev] ∧ unfed b.input = [] ∧
      b.sched.interp = (a.sched.interp.feed ev).1 := by
  cases h with
  | @call ph c hph h =>
    refine .inl ⟨rfl, ?_⟩
    rw [h]
    cases c with
    | postEvent ev => exact absurd rfl (hact ev)
    | wake | requestStop => rfl
  | @lock ph c hmu h =>
    refine .inl ⟨rfl, ?_⟩
    rw [h]
    cases c <;> rfl
  | @update ph c h =>
    rw [h]
    cases c with
    | postEvent ev => exact .inr ⟨ev, rfl, rfl, rfl, rfl⟩
    | wake | requestStop => exact .inl ⟨rfl, rfl⟩
  | draw sz h | skip h | paint hne h | painted h | start hw h | startAgain hw h | unlock h
  | notifyAll hc h | notifyOne hj h | notifyNone hnone h | join hph hw hi h | joinNothing hph hw h
  | farewell h | finish h =>
    rw [h]
    exact .inl ⟨rfl, rfl⟩

theorem keysRead_append (labels labels' : List Event) :
    keysRead (labels ++ labels') = keysRead labels ++ keysRead labels' := List.filterMap_append

/-! ## The session -/

/-- **A requested quit is seen.**  It finds the loop neither where it reads on without a
further test nor with a key still to be fed. -/
theorem quit_seen (params : Parameters) (term : τ) :
    (system readEvent params term).Invariant (fun x => x.app.sched.interp.quit = true →
      x.loop.readsOn = false ∧ unfed x.app.input = []) := by
  refine LTS.Invariant.of_step ?_ ?_
  · rintro x rfl hquit
    exact absurd hquit Bool.false_ne_true
  · intro x e y _ hx hstep hquit
    have hreading : x.loop.readsOn = true → x.app.sched.interp.quit = false := by
      intro hread
      by_contra hne
      have hseen := (hx (Bool.eq_true_of_not_eq_false hne)).1
      exact absurd (hseen.symm.trans hread) Bool.false_ne_true
    cases hstep with
    | @input b act pc hstep hnext =>
      have hon : pc.readsOn = true → x.loop.readsOn = true := by
        intro hread
        rw [(LoopPc.readsOn_of_next hnext hread).1]
        rfl
      rcases unfed_input hstep (LoopPc.next_call hnext) with
        ⟨hinterp, hunfed⟩ | ⟨ev, rfl, -, hnone, -⟩
      · obtain ⟨hread, hnone⟩ := hx ((congrArg Interpreter.quit hinterp).symm.trans hquit)
        refine ⟨?_, hunfed.trans hnone⟩
        by_contra hne
        exact absurd (hread.symm.trans (hon (Bool.eq_true_of_not_eq_false hne))) Bool.false_ne_true
      · refine ⟨?_, hnone⟩
        by_contra hne
        exact (LoopPc.readsOn_of_next hnext (Bool.eq_true_of_not_eq_false hne)).2 _ rfl
    | worker hstep =>
      obtain ⟨hstill, hinput⟩ := still_worker hstep
      obtain ⟨hread, hnone⟩ := hx ((congrArg Interpreter.quit hstill).symm.trans hquit)
      exact ⟨hread, (congrArg unfed hinput).trans hnone⟩
    | event hloop hread hstep =>
      cases hstep
      have hopen := hreading (by rw [hloop]; rfl)
      exact absurd (hopen.symm.trans hquit) Bool.false_ne_true
    | noEvent hloop hread =>
      have hopen := hreading (by rw [hloop]; rfl)
      exact absurd (hopen.symm.trans hquit) Bool.false_ne_true
    | quit hloop hq => exact ⟨rfl, (hx hq).2⟩
    | noQuit hloop hq => exact absurd (hq.symm.trans hquit) Bool.false_ne_true
    | poll hloop hflag =>
      have hopen := hreading (by rw [hloop]; rfl)
      exact absurd (hopen.symm.trans hquit) Bool.false_ne_true
    | clear hloop hrequested hflag =>
      have hopen := hreading (by rw [hloop]; rfl)
      exact absurd (hopen.symm.trans hquit) Bool.false_ne_true
    | signal hflag => exact hx hquit

/-- The keys read are the fed ones and at most one more, and the session is where the fed
ones lead by the loop that stops at the first quit. -/
def Follows (params : Parameters) (labels : List Event) (x : Application τ) : Prop :=
  ∃ fed it, keysRead labels = fed ++ unfed x.app.input ∧
    Interpreter.feedUntilQuit { params := params } fed = (it, []) ∧
    it.still = x.app.sched.interp.still

theorem Follows.quiet {labels : List Event} {x y : Application τ} {e : Event}
    (h : Follows params labels x) (he : keysRead [e] = [])
    (hstill : y.app.sched.interp.still = x.app.sched.interp.still)
    (hunfed : unfed y.app.input = unfed x.app.input) : Follows params (labels ++ [e]) y := by
  obtain ⟨fed, it, hkeys, hfed, hit⟩ := h
  refine ⟨fed, it, ?_, hfed, hit.trans hstill.symm⟩
  rw [keysRead_append, he, List.append_nil, hunfed]
  exact hkeys

/-- **One step.** -/
theorem Follows.step {labels : List Event} {x y : Application τ} {e : Event}
    (hx : (system readEvent params term).Reachable x) (h : Follows params labels x)
    (hstep : Step readEvent x e y) : Follows params (labels ++ [e]) y := by
  cases hstep with
  | @input b act pc hstep hnext =>
    rcases unfed_input hstep (LoopPc.next_call hnext) with
      ⟨hinterp, hunfed⟩ | ⟨ev, rfl, hev, hnone, hfeed⟩
    · exact h.quiet rfl (congrArg Interpreter.still hinterp) hunfed
    · -- the key that was read is fed now
      obtain ⟨fed, it, hkeys, hfed, hit⟩ := h
      have hquit : it.quit = false := by
        by_contra hne
        have hsame := congrArg Interpreter.quit hit
        have hseen := (quit_seen params term x hx
          (hsame.symm.trans (Bool.eq_true_of_not_eq_false hne))).2
        exact absurd (hev.symm.trans hseen) (List.cons_ne_nil _ _)
      refine ⟨fed ++ [ev], (it.feed ev).1, ?_, Interpreter.feedUntilQuit_concat hfed hquit ev, ?_⟩
      · show keysRead (labels ++ [.input (.update (.postEvent ev))]) = _
        rw [keysRead_append, hkeys, hev, hnone, List.append_nil]
        exact List.append_nil _
      · show _ = b.sched.interp.still
        rw [hfeed, ← Interpreter.feed_still, hit, Interpreter.feed_still]
  | worker hstep =>
    obtain ⟨hstill, hinput⟩ := still_worker hstep
    exact h.quiet rfl hstill (congrArg unfed hinput)
  | event hloop hread hstep =>
    have hat := (placed params term x hx).input
    obtain ⟨fed, it, hkeys, hfed, hit⟩ := h
    rw [hloop] at hat
    have hready : x.app.input = .ready .looping := hat
    cases hstep with
    | call c hph hpc =>
      refine ⟨fed, it, ?_, hfed, hit⟩
      rw [keysRead_append, hkeys, hready]
      exact congrArg (· ++ _) (List.append_nil fed)
  | noEvent | quit | noQuit | poll | clear | signal => exact h.quiet rfl rfl rfl

theorem follows {x y : Application τ} {labels : List Event}
    (hx : (system readEvent params term).init x)
    (hrun : (system readEvent params term).Run x labels y) : Follows params labels y := by
  refine LTS.Run.preserves_labels (fun labels x e y hr h hstep => h.step hr hstep) [] hrun
    (.init hx) ?_
  obtain rfl : x = _ := hx
  exact ⟨[], { params := params }, rfl, rfl, rfl⟩

/-- A quit request is never taken back. -/
theorem quit_step {x y : Application τ} {e : Event} (hstep : Step readEvent x e y)
    (hquit : x.app.sched.interp.quit = true) : y.app.sched.interp.quit = true := by
  cases hstep with
  | @input b act pc hstep hnext =>
    rcases unfed_input hstep (LoopPc.next_call hnext) with ⟨hinterp, -⟩ | ⟨ev, -, -, -, hfeed⟩
    · exact (congrArg Interpreter.quit hinterp).trans hquit
    · exact (congrArg Interpreter.quit hfeed).trans
        (x.app.sched.interp.feed_outcome ev |>.quit_eq hquit)
  | worker hstep => exact (congrArg Interpreter.quit (still_worker hstep).1).trans hquit
  | event hloop hread hstep =>
    cases hstep
    exact hquit
  | noEvent | quit | noQuit | poll | clear | signal => exact hquit

/-- Once a quit was requested nothing is read any more. -/
theorem keysRead_after_quit {x y : Application τ} {labels : List Event}
    (hx : (system readEvent params term).Reachable x) (hquit : x.app.sched.interp.quit = true)
    (hrun : (system readEvent params term).Run x labels y) : keysRead labels = [] := by
  refine (LTS.Run.preserves_labels
    (I := fun as z => z.app.sched.interp.quit = true ∧ keysRead as = []) ?_ [] hrun hx
    ⟨hquit, rfl⟩).2
  rintro as x e y hr ⟨hquit, hnone⟩ hstep
  refine ⟨quit_step hstep hquit, ?_⟩
  rw [keysRead_append, hnone]
  cases hstep with
  | event hloop hread hstep =>
    have hseen := (quit_seen params term x hr hquit).1
    rw [hloop] at hseen
    exact absurd hseen.symm Bool.false_ne_true
  | input | worker | noEvent | quit | noQuit | poll | clear | signal => rfl

/-- **The session follows the keys.**  In every run the keys read are the fed ones and at
most one more, and the fed ones lead, by the loop that stops at the first quit, to the
session there is; once that has requested a quit no further key is read. -/
theorem session_follows_keys {x y : Application τ} {labels : List Event}
    (hx : (system readEvent params term).init x)
    (hrun : (system readEvent params term).Run x labels y) :
    (∃ fed it, keysRead labels = fed ++ unfed y.app.input ∧
      Interpreter.feedUntilQuit { params := params } fed = (it, []) ∧
      y.app.sched.interp.params = it.params ∧ y.app.sched.interp.line = it.line ∧
      y.app.sched.interp.message = it.message ∧ y.app.sched.interp.quit = it.quit ∧
      y.app.sched.proc.state = it.proc.state) ∧
    (y.app.sched.interp.quit = true → ∀ labels' z,
      (system readEvent params term).Run y labels' z → keysRead labels' = []) := by
  refine ⟨?_, fun hquit labels' z hrun' =>
    keysRead_after_quit (hrun.reachable (.init hx)) hquit hrun'⟩
  obtain ⟨fed, it, hkeys, hfed, hit⟩ := follows hx hrun
  have hparams := congrArg Interpreter.params hit
  have hline := congrArg Interpreter.line hit
  have hmessage := congrArg Interpreter.message hit
  have hquit := congrArg Interpreter.quit hit
  have hstate := congrArg (fun it : Interpreter => it.proc.state) hit
  exact ⟨fed, it, hkeys, hfed, hparams.symm, hline.symm, hmessage.symm, hquit.symm, hstate.symm⟩

/-! ## Runs that exist -/

/-- A terminal that delivers a list of outcomes, and then nothing. -/
def scripted : List (Option KeyEvent) → Option KeyEvent × List (Option KeyEvent)
  | [] => (none, [])
  | ev :: rest => (ev, rest)

variable (readEvent) in
/-- The application gets to its input loop. -/
theorem opening_run (params : Parameters) (term : τ) (sz : VisibleSize) :
    ∃ x, (system readEvent params term).Run
        { app := { sched := Scheduler.create params }, term := term }
        [.input (.draw sz), .input .paint, .input .painted, .input .start] x ∧
      x.loop = .reading ∧ x.app.input = .ready .looping ∧ x.app.mu = none ∧
      x.app.sched = Scheduler.create params ∧ x.flag = {} ∧ x.term = term ∧
      x.app.handle = some 0 ∧ x.app.workers 0 = .top := by
  have hne : Scheduler.frameOf (Scheduler.create params).interp sz.1 ≠ [] :=
    fun h => (Scheduler.frameOf_eq_nil_iff _ _).mp h sz.2
  exact ⟨_, .cons (.input (.draw sz rfl) rfl) <|
    .cons (.input (.paint hne rfl) rfl) <|
    .cons (.input (.painted rfl) rfl) <|
    .cons (.input (.start rfl rfl) rfl) (.nil _),
    rfl, rfl, rfl, rfl, rfl, rfl, rfl, rfl⟩

variable (params term) in
/-- A key is read and posted. -/
theorem posting_run {x : Application τ} {ev : KeyEvent} {t : τ} (hloop : x.loop = .reading)
    (hinput : x.app.input = .ready .looping) (hmu : x.app.mu = none)
    (hread : readEvent x.term = (some ev, t)) :
    ∃ y, (system readEvent params term).Run x
        [.read (some ev), .input .lock, .input (.update (.postEvent ev)), .input .unlock,
          .input (.notify (.postEvent ev))] y ∧
      y.loop = .testing ∧ y.app.input = .ready .looping ∧ y.app.mu = none ∧
      y.app.sched = x.app.sched.postEvent ev ∧ y.flag = x.flag ∧ y.term = t ∧
      y.app.handle = x.app.handle ∧ (∀ i, y.app.workers i = (x.app.workers i).notified) :=
  ⟨_, .cons (.event hloop hread (.call _ rfl hinput)) <|
    .cons (.input (.lock hmu rfl) rfl) <|
    .cons (.input (.update rfl) rfl) <|
    .cons (.input (.unlock rfl) rfl) <|
    .cons (.input (.notifyAll (by simp) rfl) rfl) (.nil _),
    rfl, rfl, rfl, rfl, rfl, rfl, rfl, fun _ => rfl⟩

variable (readEvent) in
/-- Ctrl+D is read and posted, and the loop tests for a quit. -/
theorem eof_run (term : τ) {ev : KeyEvent} {t : τ} (hev : ev.type = .eof)
    (hread : readEvent term = (some ev, t)) :
    ∃ labels y, (system readEvent {} term).Run
        { app := { sched := Scheduler.create {} }, term := term } labels y ∧
      y.loop = .testing ∧ y.app.input = .ready .looping ∧ y.app.mu = none ∧
      y.app.sched.interp.quit = true ∧ y.app.sched.stop = false ∧ y.flag = {} ∧ y.term = t ∧
      y.app.handle = some 0 ∧ y.app.workers 0 = .top ∧ .flag .deliver ∉ labels := by
  obtain ⟨x, hopen, hloop, hinput, hmu, hsched, hflag, hterm, hhandle, htop⟩ :=
    opening_run readEvent {} term ⟨{}, Size.default_visible⟩
  obtain ⟨y, hpost, hloop', hinput', hmu', hsched', hflag', hterm', hhandle', hworkers⟩ :=
    posting_run {} term hloop hinput hmu (hterm ▸ hread)
  refine ⟨_, y, hopen.append hpost, hloop', hinput', hmu', ?_, ?_, hflag'.trans hflag, hterm',
    hhandle'.trans hhandle, ?_, by simp⟩
  · rw [hsched', hsched]
    obtain ⟨type, ch⟩ := ev
    obtain rfl : type = .eof := hev
    rfl
  · rw [hsched', hsched]
    rfl
  · rw [hworkers, htop]
    rfl

/-- Ctrl+D ends the session, and a key behind it stays in the terminal. -/
theorem session_follows_keys_eof :
    ∃ labels y, (system scripted {} [some { type := .eof }, some .enter]).Run
        { app := { sched := Scheduler.create {} }, term := [some { type := .eof }, some .enter] }
        labels y ∧ y.term = [some .enter] ∧ y.app.sched.interp.quit = true ∧
      ∀ labels' z, (system scripted {} [some { type := .eof }, some .enter]).Run y labels' z →
        keysRead labels' = [] := by
  obtain ⟨labels, y, hrun, -, -, -, hquit, -, -, hterm, -⟩ :=
    eof_run scripted [some { type := .eof }, some .enter] rfl rfl
  exact ⟨labels, y, hrun, hterm, hquit, (session_follows_keys rfl hrun).2 hquit⟩

/-! ## What ends the loop -/

/-- Without a signal the flag stays clear, and the loop is left for a quit. -/
structure Unsignalled (x : Application τ) : Prop where
  flag : x.flag.g_shutdownRequested = false
  requested : x.flag.requested ≠ some true
  quit : x.loop.left = true → x.app.sched.interp.quit = true

theorem LoopPc.left_of_next {pc pc' : LoopPc} {act : InputAct} (h : pc.next act = some pc')
    (hpc' : pc'.left = true) : pc.left = true := by
  unfold LoopPc.next at h
  split at h
  all_goals first
    | (obtain rfl := Option.some.inj h
       first
         | rfl
         | exact absurd hpc' Bool.false_ne_true)
    | exact absurd h (by simp)

theorem Unsignalled.step {x y : Application τ} {e : Event} (h : Unsignalled x)
    (hstep : Step readEvent x e y) (he : e ≠ .flag .deliver) : Unsignalled y := by
  obtain ⟨hflag, hrequested, hquit⟩ := h
  have hkept := quit_step hstep
  cases hstep with
  | input hstep hnext =>
    exact ⟨hflag, hrequested, fun hleft => hkept (hquit (LoopPc.left_of_next hnext hleft))⟩
  | worker hstep => exact ⟨hflag, hrequested, fun hleft => hkept (hquit hleft)⟩
  | event hloop hread hstep => exact ⟨hflag, hrequested, fun h => absurd h Bool.false_ne_true⟩
  | noEvent | noQuit => exact ⟨hflag, hrequested, fun h => absurd h Bool.false_ne_true⟩
  | quit hloop hq => exact ⟨hflag, hrequested, fun _ => hq⟩
  | poll hloop hnext =>
    obtain ⟨hg, hr⟩ := ShutdownFlag.next_read hnext
    refine ⟨hg.trans hflag, ?_, fun h => absurd h Bool.false_ne_true⟩
    rw [hr, hflag]
    exact fun h => absurd (Option.some.inj h) Bool.false_ne_true
  | @clear flag requested hloop hreq hnext =>
    obtain ⟨hg, hr⟩ := ShutdownFlag.next_clear hnext
    refine ⟨hg, by rw [hr]; exact fun h => absurd h (by simp), fun hleft => ?_⟩
    cases requested with
    | true => exact absurd hreq hrequested
    | false => exact absurd hleft Bool.false_ne_true
  | signal hnext => exact absurd rfl he

/-- **What ends the loop.**  It is left for a quit request, or after a delivered signal. -/
theorem loop_left_cause {x y : Application τ} {labels : List Event}
    (hx : (system readEvent params term).init x)
    (hrun : (system readEvent params term).Run x labels y) (hleft : y.loop.left = true) :
    y.app.sched.interp.quit = true ∨ .flag .deliver ∈ labels := by
  by_contra hneither
  rw [not_or] at hneither
  have hunsignalled : Unsignalled y := by
    refine hrun.preserves (P := Unsignalled) (p := fun e => e ≠ .flag .deliver)
      (fun x e y _ he h hstep => h.step hstep he) (.init hx) ?_ ?_
    · rintro e he rfl
      exact hneither.2 he
    · obtain rfl : x = _ := hx
      exact ⟨rfl, fun h => absurd h (by simp), fun h => absurd h Bool.false_ne_true⟩
  exact hneither.1 (hunsignalled.quit hleft)

/-- The loop is left behind Ctrl+D, and no signal was delivered. -/
theorem loop_left_cause_eof :
    ∃ labels y, (system scripted {} [some { type := .eof }]).Run
        { app := { sched := Scheduler.create {} }, term := [some { type := .eof }] } labels y ∧
      y.loop.left = true ∧ y.app.sched.interp.quit = true := by
  obtain ⟨labels, x, hrun, hloop, -, -, hquit, -, -, -, -, -, hsignal⟩ :=
    eof_run scripted [some { type := .eof }] rfl rfl
  have hleft := hrun.append (.cons (.quit hloop hquit) (.nil _))
  refine ⟨_, _, hleft, rfl, (loop_left_cause rfl hleft rfl).resolve_right fun hmem => ?_⟩
  rcases List.mem_append.mp hmem with hmem | hmem
  · exact hsignal hmem
  · exact absurd (List.mem_singleton.mp hmem) Event.noConfusion

end Application
end Csopesy
