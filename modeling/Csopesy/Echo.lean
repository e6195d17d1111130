import Csopesy.ConsoleAppInvariants

/-! # No echo is lost

The parameters, the input line and the message are a document that the input
thread edits and that frames show; `dirty_` is its flag.  Under this reading the
application is a painter behind a dirty flag (`refines_painter`): the first frame
is owed from the start, a posted event is an edit, the locked part of a tick
builds a picture, and `Terminal::write` presents it after the unlock.  So while
`dirty_` is clear, the frame in flight, or with none in flight the last frame
written, shows what was typed (`echo_not_lost`).
-/
namespace Csopesy
open Transition Repaint

/-- What a frame shows besides the animation. -/
structure Document where
  params : Parameters
  line : Bytes
  message : Bytes
deriving DecidableEq, Repr

def Interpreter.document (it : Interpreter) : Document where
  params := it.params
  line := it.line
  message := it.message

/-- The frame was built by `buildFrame` from the document, at some state of the
animation and some size. -/
def Shows (frame : Bytes) (d : Document) : Prop :=
  ∃ (proc : MarqueeProcess) (sz : VisibleSize),
    frame = Renderer.buildFrame d.params proc Interpreter.prompt d.line d.message sz.1.rows sz.1.cols

theorem frameOf_shows (it : Interpreter) (sz : VisibleSize) :
    Shows (Scheduler.frameOf it sz.1) it.document := ⟨it.proc, sz, rfl⟩

/-- The last frame passed to `Terminal::write`. -/
def lastFrame (writes : List Write) : Option Bytes :=
  ((writes.filter fun w => w.bytes ≠ farewell).getLast?).map Write.bytes

theorem lastFrame_append_frame (writes : List Write) (th : Thread) {frame : Bytes}
    (h : frame ≠ farewell) : lastFrame (writes ++ [⟨th, frame⟩]) = some frame := by
  simp [lastFrame, h]

theorem lastFrame_append_farewell (writes : List Write) (th : Thread) :
    lastFrame (writes ++ [⟨th, farewell⟩]) = lastFrame writes := by
  simp [lastFrame]

namespace ConsoleApp
variable {a b : ConsoleApp}

/-- The frame that is built and not yet passed to `Terminal::write`. -/
def inFlight (a : ConsoleApp) : Option Bytes :=
  match a.input with
  | .drawing frame => if frame.isEmpty then none else some frame
  | _ => a.handle.bind fun i => (a.workers i).pending

/-- The application as a painter.  The first frame is owed from the start. -/
def painter (a : ConsoleApp) : Painter Document Bytes where
  doc := a.sched.interp.document
  dirty := a.sched.dirty || a.input == .start
  inFlight := a.inFlight
  shown := lastFrame a.writes

/-- Nothing is posted before the first frame is drawn. -/
theorem clean_until_drawn (params : Parameters) :
    (system params).Invariant (fun a => a.input.drawn = false → a.sched.dirty = false) := by
  refine LTS.Invariant.of_step ?_ ?_
  · rintro a rfl -
    rfl
  · intro a act b hr h hstep hb
    cases hstep with
    | input hstep =>
      cases hstep with
      | draw sz hinput => exact h (by rw [hinput]; rfl)
      | _ => exact Bool.noConfusion hb
    | worker hpc hstep =>
      -- no worker runs yet
      have hdrawn := (wellFormed params a hr).drawn_of_live (hpc ▸ hstep.live)
      exact absurd (hdrawn.symm.trans hb) (by decide)

/-! ## The application is a painter -/

theorem notified_pending (pc : WorkerPc) : pc.notified.pending = pc.pending := by cases pc <;> rfl

theorem inFlight_opened (ha : WellFormed a) (hphase : a.input.phase = .opened)
    (hdrawing : ∀ frame, a.input ≠ .drawing frame) : a.inFlight = none := by
  unfold inFlight
  split
  · rename_i frame h
    exact absurd h (hdrawing frame)
  · rw [ha.unstarted hphase]
    rfl

theorem inFlight_eq (hdrawing : ∀ frame, a.input ≠ .drawing frame) {i : Nat}
    (hhandle : a.handle = some i) : a.inFlight = (a.workers i).pending := by
  unfold inFlight
  split
  · rename_i frame h
    exact absurd h (hdrawing frame)
  · rw [hhandle]
    rfl

theorem inFlight_idle (hdrawing : ∀ frame, a.input ≠ .drawing frame)
    (hhandle : a.handle = none) : a.inFlight = none := by
  unfold inFlight
  split
  · rename_i frame h
    exact absurd h (hdrawing frame)
  · rw [hhandle]
    rfl

/-- A step that keeps the document, the flag, the frame in flight and the last
frame. -/
theorem painter_eq (hsched : b.sched = a.sched) (hstart : (b.input == .start) = (a.input == .start))
    (hflight : b.inFlight = a.inFlight) (hwrites : lastFrame b.writes = lastFrame a.writes) :
    b.painter = a.painter := by
  unfold painter
  rw [hsched, hstart, hflight, hwrites]

/-- The first frame is built for the document as it is. -/
theorem painter_draw (params : Parameters) (hr : (system params).Reachable a) (sz : VisibleSize)
    (h : a.input = .start) :
    Painter.Step Shows a.painter
      ({ a with input := .drawing (Scheduler.frameOf a.sched.interp sz.1) } :
        ConsoleApp).painter := by
  have hclean := clean_until_drawn params a hr (by rw [h]; rfl)
  have hnone : a.inFlight = none :=
    inFlight_opened (wellFormed params a hr) (by rw [h]; rfl) (by simp [h])
  have hne : (Scheduler.frameOf a.sched.interp sz.1).isEmpty = false := by
    simpa using IsFrame.ne_nil ⟨a.sched.interp, sz, rfl⟩
  have hb : ({ a with input := .drawing (Scheduler.frameOf a.sched.interp sz.1) } :
      ConsoleApp).painter = { a.painter with
        dirty := false, inFlight := some (Scheduler.frameOf a.sched.interp sz.1) } := by
    simp [painter, inFlight, hclean, hne]
  rw [hb]
  exact .build _ (frameOf_shows _ sz) hnone

/-- The input thread presents the first frame. -/
theorem painter_paint (params : Parameters) (hr : (system params).Reachable a) {frame : Bytes}
    (hne : frame ≠ []) (h : a.input = .drawing frame) :
    Painter.Step Shows a.painter
      ({ a with writes := a.writes ++ [⟨.input, frame⟩], input := .painting } :
        ConsoleApp).painter := by
  have hframe : IsFrame frame := (pending_isFrame params a hr).1 frame h
  have hflight : a.inFlight = some frame := by simp [inFlight, h, hne]
  have hnone : a.handle = none := (wellFormed params a hr).unstarted (by rw [h]; rfl)
  have hb : ({ a with writes := a.writes ++ [⟨.input, frame⟩], input := .painting } :
      ConsoleApp).painter = { a.painter with inFlight := none, shown := some frame } := by
    simp [painter, inFlight, h, hnone, lastFrame_append_frame _ _ hframe.ne_farewell]
    rfl
  rw [hb]
  exact .present frame hflight

/-- A key edits the document and raises the flag. -/
theorem painter_postEvent {ph : Phase} {ev : KeyEvent} (h : a.input = .locked ph (.postEvent ev)) :
    Painter.Step Shows a.painter
      ({ a with
        sched := (a.sched.exec (Call.postEvent ev).op).1, input := .updated ph (.postEvent ev) } :
        ConsoleApp).painter := by
  have hb : ({ a with
      sched := (a.sched.exec (Call.postEvent ev).op).1, input := .updated ph (.postEvent ev) } :
      ConsoleApp).painter =
        { a.painter with doc := (a.sched.interp.feed ev).1.document, dirty := true } := by
    simp [painter, inFlight, h, Call.op, Scheduler.exec, Scheduler.postEvent]
  rw [hb]
  exact .edit _

theorem painter_input (params : Parameters) (hr : (system params).Reachable a) {act : InputAct}
    (h : InputStep a act b) :
    b.painter = a.painter ∨ Painter.Step Shows a.painter b.painter := by
  have ha := wellFormed params a hr
  cases h with
  | draw sz h => exact .inr (painter_draw params hr sz h)
  | skip h =>
    refine .inl (painter_eq rfl (by rw [h]; rfl) ?_ rfl)
    rw [inFlight_opened (ha.input (.skip h)) rfl (by simp)]
    simp [inFlight, h]
  | paint hne h => exact .inr (painter_paint params hr hne h)
  | start hw h =>
    refine .inl (painter_eq rfl (by rw [h]; rfl) ?_ rfl)
    rw [inFlight_eq (by simp) rfl, inFlight_idle (by simp [h]) hw]
    show (Function.update a.workers a.spawned .top a.spawned).pending = none
    rw [Function.update_self]
    rfl
  | @update ph c h =>
    cases c with
    | postEvent ev => exact .inr (painter_postEvent h)
    | wake | requestStop =>
      refine .inl ?_
      simp [painter, inFlight, h, Call.op, Scheduler.exec, Scheduler.wake, Scheduler.requestStop]
      rfl
  | notifyAll hc h =>
    refine .inl (painter_eq rfl (by rw [h]; rfl) ?_ rfl)
    simp [inFlight, h, notified_pending]
  | @notifyOne ph j seen hj h =>
    refine .inl (painter_eq rfl (by rw [h]; rfl) ?_ rfl)
    have hpending : ∀ i, (Function.update a.workers j (.woken seen false) i).pending =
        (a.workers i).pending := by
      intro i
      by_cases hi : i = j
      · subst hi
        rw [Function.update_self, hj]
        rfl
      · rw [Function.update_of_ne hi]
    simp [inFlight, h, hpending]
  | @join ph i hph hw hi h =>
    refine .inl (painter_eq rfl (by rw [h]; rfl) ?_ rfl)
    rw [inFlight_idle (by simp) rfl, inFlight_eq (by simp [h]) hw, hi]
    rfl
  | farewell h =>
    refine .inl (painter_eq rfl (by rw [h]; rfl) ?_ (lastFrame_append_farewell _ _))
    simp [inFlight, h]
  | painted h | startAgain hw h | call c hph h | lock hmu h | unlock h | notifyNone hnone h
  | joinNothing hph hw h | finish h =>
    refine .inl (painter_eq rfl (by rw [h]; rfl) ?_ rfl)
    simp [inFlight, h]

/-- What the application shows while `worker_` holds a worker at `pc`. -/
def picture (sh : Shared) (pc : WorkerPc) : Painter Document Bytes where
  doc := sh.sched.interp.document
  dirty := sh.sched.dirty
  inFlight := pc.pending
  shown := lastFrame sh.writes

theorem painter_eq_picture (hdrawn : a.input.drawn = true) {i : Nat} (hhandle : a.handle = some i) :
    a.painter = picture a.toShared (a.workers i) := by
  have hstart : (a.input == .start) = false := beq_false_of_ne (InputPc.ne_start_of_drawn hdrawn)
  unfold painter picture
  rw [inFlight_eq (InputPc.ne_drawing_of_drawn hdrawn) hhandle, hstart, Bool.or_false]

/-- A tick clears the flag and keeps the document; it builds a picture unless
nothing is due and the flag is clear. -/
theorem picture_tick (sh : Shared) (sz : VisibleSize) (now : Int) :
    let sh' := { sh with sched := (sh.sched.tickLocked none sz.1 now).1 }
    let pc' := WorkerPc.built (sh.sched.tickLocked none sz.1 now).2.2
    picture sh' pc' = picture sh (.ticking sz) ∨
      Painter.Step Shows (picture sh (.ticking sz)) (picture sh' pc') := by
  intro sh' pc'
  have hdirty : sh'.sched.dirty = false := sh.sched.tick_dirty sz.1 now
  have hdoc : sh'.sched.interp.document = sh.sched.interp.document := by
    have hinterp : sh'.sched.interp = _ := sh.sched.tick_interp sz.1 now
    rw [hinterp]
    split <;> rfl
  unfold picture
  rw [hdirty, hdoc, pending_tick]
  by_cases hbuilds : (Scheduler.due sh.sched.interp now || sh.sched.dirty) = true
  · rw [if_pos hbuilds]
    exact .inr (.build _ (frameOf_shows _ sz) rfl)
  · -- nothing is owed, so the flag was clear already
    rw [if_neg hbuilds]
    obtain ⟨-, hclean⟩ : Scheduler.due sh.sched.interp now = false ∧ sh.sched.dirty = false := by
      simpa using hbuilds
    rw [hclean]
    exact .inl rfl

theorem picture_write {sh : Shared} {i : Nat} {frame : Bytes} (hne : frame ≠ [])
    (hframe : IsFrame frame) :
    Painter.Step Shows (picture sh (.unwritten frame))
      (picture { sh with writes := sh.writes ++ [⟨.worker i, frame⟩] } .writing) := by
  have hpending : (WorkerPc.unwritten frame).pending = some frame := by
    simp [WorkerPc.pending, hne]
  unfold picture
  rw [hpending, lastFrame_append_frame _ _ hframe.ne_farewell]
  exact .present frame rfl

theorem painter_worker (params : Parameters) (hr : (system params).Reachable a) {i : Nat}
    {pc pc' : WorkerPc} {act : WorkerAct} {sh : Shared} (hpc : a.workers i = pc)
    (h : WorkerStep i a.toShared pc act sh pc') :
    let b : ConsoleApp := { a with toShared := sh, workers := Function.update a.workers i pc' }
    b.painter = a.painter ∨ Painter.Step Shows a.painter b.painter := by
  intro b
  have ha := wellFormed params a hr
  have hlive : (a.workers i).live = true := hpc ▸ h.live
  have hdrawn := ha.drawn_of_live hlive
  have hhandle := ha.single i hlive
  have hbefore : a.painter = picture a.toShared pc := hpc ▸ painter_eq_picture hdrawn hhandle
  have hafter : b.painter = picture sh pc' := by
    rw [painter_eq_picture (a := b) hdrawn hhandle]
    exact congrArg (picture sh) (Function.update_self ..)
  rw [hbefore, hafter]
  cases h with
  | @tick sz now => exact picture_tick _ sz now
  | @write frame hne =>
    refine .inr (picture_write hne ?_)
    exact (pending_isFrame params a hr).2 i frame (by simp [hpc, WorkerPc.pending, hne])
  | lock | exit | enter | pass | refuse | block | wake | relock | repass | rerefuse | timeout | stop
  | leave | size | lockTick | unlock | skip | written => exact .inl rfl

/-- **The application paints behind a dirty flag.** -/
theorem refines_painter (params : Parameters) :
    LTS.Refines (system params)
      (Painter.system Shows (Scheduler.create params).interp.document) painter where
  init := by
    rintro a rfl
    exact ⟨rfl, rfl, rfl⟩
  step a act b hr h := by
    have hstep : b.painter = a.painter ∨ Painter.Step Shows a.painter b.painter := by
      cases h with
      | input h => exact painter_input params hr h
      | worker hpc h => exact painter_worker params hr hpc h
    rcases hstep with heq | hstep
    · exact .inl heq
    · exact .inr ⟨(), hstep⟩

/-- **No echo is lost.**  From the first frame on and while `dirty_` is clear: a
frame that is built and not yet written shows the current parameters, input line
and message; and if there is none, the last frame written shows them. -/
theorem echo_not_lost (params : Parameters) {a : ConsoleApp} (ha : (system params).Reachable a)
    (hdrawn : a.input.drawn = true) (hclean : a.sched.dirty = false) :
    (∀ i frame, (a.workers i).pending = some frame → Shows frame a.sched.interp.document) ∧
    ((∀ i, (a.workers i).pending = none) →
      ∃ frame, lastFrame a.writes = some frame ∧ Shows frame a.sched.interp.document) := by
  have hdrawing := InputPc.ne_drawing_of_drawn hdrawn
  have hcurrent : a.painter.Current Shows := by
    refine (refines_painter params).invariant (Painter.current Shows _) a ha ?_
    show (a.sched.dirty || a.input == .start) = false
    rw [hclean, Bool.false_or]
    exact beq_false_of_ne (InputPc.ne_start_of_drawn hdrawn)
  unfold Painter.Current at hcurrent
  constructor
  · intro i frame hpending
    have hlive : (a.workers i).live = true := by
      cases hpc : a.workers i with
      | unborn | exited =>
        rw [hpc] at hpending
        exact absurd hpending (by simp [WorkerPc.pending])
      | _ => rfl
    have hflight : a.painter.inFlight = some frame :=
      (inFlight_eq hdrawing ((wellFormed params a ha).single i hlive)).trans hpending
    rw [hflight] at hcurrent
    exact hcurrent
  · intro hnone
    have hflight : a.painter.inFlight = none := by
      cases hhandle : a.handle with
      | none => exact inFlight_idle hdrawing hhandle
      | some i => exact (inFlight_eq hdrawing hhandle).trans (hnone i)
    rw [hflight] at hcurrent
    exact hcurrent

/-- A typed key, in the frame that the worker has built and not yet written. -/
theorem echo_not_lost_typed :
    ∃ a, (system {}).Reachable a ∧ a.sched.interp.line = ascii "a" ∧ ∃ frame,
      (a.workers 0).pending = some frame ∧ Shows frame a.sched.interp.document := by
  obtain ⟨a, ha, hinput, hmu, hsched, htop⟩ := reachable_typed {} [KeyEvent.mk .char 0x61]
  obtain ⟨b, hb, hticking, hsched', hinput'⟩ := reachable_ticking ha htop hmu
    (by rw [hsched]; rfl) (by rw [hsched]; rfl) ⟨{}, Size.default_visible⟩
  rw [hsched] at hsched'
  have hc := hb.step (.worker hticking (.tick 0))
  have hpending : (Function.update b.workers 0
      (.built (b.sched.tickLocked none {} 0).2.2) 0).pending =
        some (Scheduler.frameOf b.sched.interp {}) := by
    have hframe := pending_tick b.sched ⟨{}, Size.default_visible⟩ 0
    rw [hsched'] at hframe ⊢
    rw [Function.update_self]
    exact hframe
  refine ⟨_, hc, ?_, _, hpending, (echo_not_lost {} hc ?_ ?_).1 0 _ hpending⟩
  · show (b.sched.tickLocked none {} 0).1.interp.line = _
    rw [hsched']
    rfl
  · show b.input.drawn = true
    rw [hinput', hinput]
    rfl
  · exact b.sched.tick_dirty {} 0

end ConsoleApp
end Csopesy
