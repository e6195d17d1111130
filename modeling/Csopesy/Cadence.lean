import Csopesy.LineEditor
import Csopesy.Scheduler
import Csopesy.Scrolling

/-! # Deadlines and the animation

Runs of key events and worker ticks, at clock readings that need not even
increase.  `renderTimes` lists the clock readings of the ticks that returned
`rendered = true`; the process counts them and keeps the last, and two of them
are a refresh interval apart unless the marquee was started in between
(`render_cadence`).

The frame of a rendering tick is built before the tick counts it, so it shows
the band of the count before.  The next redraw shows the band of the count
after: a key typed between two deadlines moves the band by the column that the
last rendered frame owed (`redraw_keeps_band_iff`).
-/
namespace Csopesy
namespace Scheduler

/-! ## What an operation of the two threads can do to the process -/

/-- Does the operation render a frame? -/
def renders (s : Scheduler) (op : Op) : Bool := (s.exec op).2.1.rendered

/-- Does the operation turn a stopped process into a running one? -/
def acceptsStart (s : Scheduler) (op : Op) : Bool :=
  decide (s.proc.state = .stopped) && decide ((s.exec op).1.proc.state = .running)

/-- Does some operation of the run satisfy `p`? -/
def occurs (p : Scheduler → Op → Bool) : Scheduler → List Op → Bool
  | _, [] => false
  | s, op :: ops => p s op || occurs p (s.exec op).1 ops

/-- The clock readings of the rendering ticks of a run. -/
def renderTimes : Scheduler → List Op → List Int
  | _, [] => []
  | s, op :: ops =>
    (match op with
      | .tick _ _ now => if s.renders op then [now] else []
      | _ => []) ++ renderTimes (s.exec op).1 ops

/-- A plain tick renders when the deadline is due, and changes the process only
then. -/
theorem tick_proc (s : Scheduler) (sz : Size) (now : Int) :
    (s.tick none sz now).1.proc =
      if s.renders (.tick none sz now) then
        { s.proc with lastRenderMs := now, hasRendered := true, cycles := s.proc.cycles + 1 }
      else s.proc := by
  have hr : s.renders (.tick none sz now) = due s.interp now := tick_rendered s sz now
  rw [hr]
  unfold proc
  rw [tick_interp]
  split <;> rfl

/-- **One operation of the two threads.**  It renders a frame, or it does not and
changes the process as a key can. -/
theorem exec_proc (s : Scheduler) {op : Op} (hop : op.Threaded) :
    (∃ sz now, op = .tick none sz now ∧ s.renders op = true ∧
      due s.interp now = true ∧ (s.exec op).1.proc =
        { s.proc with lastRenderMs := now, hasRendered := true, cycles := s.proc.cycles + 1 }) ∨
    (s.renders op = false ∧ Interpreter.ProcChange s.proc (s.exec op).1.proc) := by
  cases op with
  | postEvent ev => exact .inr ⟨rfl, Interpreter.feed_procChange _ _⟩
  | wake => exact .inr ⟨rfl, .same⟩
  | requestStop => exact .inr ⟨rfl, .same⟩
  | tick ev sz now =>
    cases ev with
    | some ev => exact hop.elim
    | none =>
      have hp : (s.exec (.tick none sz now)).1.proc = _ := tick_proc s sz now
      cases hr : s.renders (.tick none sz now) with
      | true =>
        rw [hr, if_pos rfl] at hp
        exact .inl ⟨sz, now, rfl, rfl, (tick_rendered s sz now).symm.trans hr, hp⟩
      | false =>
        rw [hr, if_neg Bool.false_ne_true] at hp
        exact .inr ⟨rfl, by rw [hp]; exact .same⟩

/-! ## The count and the deadline -/

theorem renderTimes_cons_of_renders {s : Scheduler} {sz : Size} {now : Int}
    (h : s.renders (.tick none sz now) = true) (ops : List Op) :
    s.renderTimes (.tick none sz now :: ops) =
      now :: (s.exec (.tick none sz now)).1.renderTimes ops := by
  rw [renderTimes]
  simp [h]

theorem renderTimes_cons_of_not_renders {s : Scheduler} {op : Op} (h : s.renders op = false)
    (ops : List Op) : s.renderTimes (op :: ops) = (s.exec op).1.renderTimes ops := by
  cases op with
  | tick ev sz now =>
    rw [renderTimes]
    simp [h]
  | postEvent | wake | requestStop => rfl

/-- A run adds its rendering ticks to the count and keeps the time of the last. -/
theorem run_renderTimes {ops : List Op} (hops : ∀ op ∈ ops, op.Threaded) (s : Scheduler) :
    (s.run ops).proc.cycles = s.proc.cycles + (s.renderTimes ops).length ∧
      (s.run ops).proc.lastRenderMs = (s.renderTimes ops).getLastD s.proc.lastRenderMs := by
  induction ops generalizing s with
  | nil => exact ⟨(Int.add_zero _).symm, rfl⟩
  | cons op ops ih =>
    obtain ⟨hcycles, hlast⟩ :=
      ih (fun o ho => hops o (List.mem_cons_of_mem _ ho)) (s.exec op).1
    rw [run_cons, hcycles, hlast]
    rcases s.exec_proc (hops op List.mem_cons_self) with ⟨sz, now, rfl, hr, -, hp⟩ | ⟨hr, hp⟩
    · -- a rendered frame is counted, and its time is the last unless a later one follows
      rw [renderTimes_cons_of_renders hr, hp]
      refine ⟨?_, (List.getLastD_cons ..).symm⟩
      dsimp only [List.length_cons]
      omega
    · rw [renderTimes_cons_of_not_renders hr]
      generalize (s.exec op).1.renderTimes ops = times
      generalize (s.exec op).1.proc = q at hp
      cases hp <;> exact ⟨rfl, rfl⟩

/-! ## The interval between two rendered frames -/

/-- The state after a frame rendered at `t`, until the next frame or start: the
deadline counts from `t`. -/
structure RenderedAt (t : Int) (s : Scheduler) : Prop where
  hasRendered : s.proc.hasRendered = true
  lastRenderMs : s.proc.lastRenderMs = t

theorem renderedAt_of_renders {s : Scheduler} {sz : Size} {t : Int}
    (h : s.renders (.tick none sz t) = true) : RenderedAt t (s.exec (.tick none sz t)).1 := by
  have hp : (s.exec (.tick none sz t)).1.proc = _ := tick_proc s sz t
  rw [if_pos h] at hp
  exact ⟨by rw [hp], by rw [hp]⟩

/-- The deadline stays through every operation that neither renders nor starts. -/
theorem RenderedAt.exec {t : Int} {s : Scheduler} (h : RenderedAt t s) {op : Op}
    (hop : op.Threaded) (hr : s.renders op = false) (hs : s.acceptsStart op = false) :
    RenderedAt t (s.exec op).1 := by
  rcases s.exec_proc hop with ⟨sz, now, rfl, hr', -⟩ | ⟨-, hp⟩
  · rw [hr] at hr'
    exact absurd hr' Bool.false_ne_true
  · generalize hq : (s.exec op).1.proc = q at hp
    cases hp with
    | same => exact ⟨by rw [hq]; exact h.hasRendered, by rw [hq]; exact h.lastRenderMs⟩
    | started hstopped =>
      -- only an accepted start resets `hasRendered`
      have hacc : s.acceptsStart op = true := by simp [acceptsStart, hstopped, hq]
      rw [hs] at hacc
      exact absurd hacc Bool.false_ne_true
    | stopped => exact ⟨by rw [hq]; exact h.hasRendered, by rw [hq]; exact h.lastRenderMs⟩

theorem RenderedAt.run {t : Int} {ops : List Op} (hops : ∀ op ∈ ops, op.Threaded) {s : Scheduler}
    (h : RenderedAt t s) (hr : occurs renders s ops = false)
    (hs : occurs acceptsStart s ops = false) : RenderedAt t (s.run ops) := by
  induction ops generalizing s with
  | nil => exact h
  | cons op ops ih =>
    simp only [occurs, Bool.or_eq_false_iff] at hr hs
    exact ih (fun o ho => hops o (List.mem_cons_of_mem _ ho))
      (h.exec (hops op List.mem_cons_self) hr.1 hs.1) hr.2 hs.2

/-- A tick that renders after a frame at `t` is a refresh interval later. -/
theorem RenderedAt.interval {t : Int} {s : Scheduler} (h : RenderedAt t s) {sz : Size} {now : Int}
    (hr : s.renders (.tick none sz now) = true) : s.params.refreshMs ≤ now - t := by
  have hdue : due s.interp now = true := (tick_rendered s sz now).symm.trans hr
  have h1 : s.interp.proc.hasRendered = true := h.hasRendered
  have h2 : s.interp.proc.lastRenderMs = t := h.lastRenderMs
  simp only [due, h1, h2, Bool.not_true, Bool.false_or, Bool.and_eq_true, decide_eq_true_eq] at hdue
  exact hdue.2

/-- **Render cadence.**  In a run of the two threads' operations from a default
process: `cycles` counts the rendering ticks; `lastRenderMs` is the clock reading
of the last one; a tick renders nothing while the process is stopped, and a tick
that does not render leaves the process alone; and two consecutive rendering
ticks without an accepted start between them are at least the refresh interval in
force at the second apart. -/
theorem render_cadence (s : Scheduler) (hs : s.proc = {}) (ops : List Op)
    (hops : ∀ op ∈ ops, op.Threaded) :
    (s.run ops).proc.cycles = (s.renderTimes ops).length ∧
    (s.run ops).proc.lastRenderMs = (s.renderTimes ops).getLastD 0 ∧
    (∀ sz now, (s.run ops).proc.state = .stopped →
      ((s.run ops).tick none sz now).2.1.rendered = false) ∧
    (∀ sz now, ((s.run ops).tick none sz now).2.1.rendered = false →
      ((s.run ops).tick none sz now).1.proc = (s.run ops).proc) ∧
    (∀ pre mid sz sz' t1 t2, ops = pre ++ .tick none sz t1 :: (mid ++ [.tick none sz' t2]) →
      let s1 := s.run pre
      let s2 := (s1.exec (.tick none sz t1)).1.run mid
      s1.renders (.tick none sz t1) = true → s2.renders (.tick none sz' t2) = true →
      occurs renders (s1.exec (.tick none sz t1)).1 mid = false →
      occurs acceptsStart (s1.exec (.tick none sz t1)).1 mid = false →
      s2.params.refreshMs ≤ t2 - t1) := by
  obtain ⟨hcycles, hlast⟩ := run_renderTimes hops s
  rw [hs] at hcycles hlast
  refine ⟨hcycles.trans (Int.zero_add _), hlast, ?_, ?_, ?_⟩
  · intro sz now hstopped
    rw [tick_rendered]
    cases hd : due (s.run ops).interp now with
    | false => rfl
    | true => exact absurd (hstopped.symm.trans (due_running hd)) (by decide)
  · intro sz now hr
    have hr' : (s.run ops).renders (.tick none sz now) = false := hr
    rw [tick_proc, hr', if_neg Bool.false_ne_true]
  · intro pre mid sz sz' t1 t2 heq s1 s2 hr1 hr2 hmid hstart
    have hthreaded : ∀ op ∈ mid, op.Threaded := fun op hop => hops op (by simp [heq, hop])
    exact ((renderedAt_of_renders hr1).run hthreaded hmid hstart).interval hr2

/-- The keys of `start_marquee` and Enter, posted one by one. -/
def startKeys : List Op := (Interpreter.typedLines [ascii "start_marquee"]).map .postEvent

/-- Two frames 120 ms apart, with a redraw of a typed key between them. -/
theorem render_cadence_started :
    let ops : List Op := startKeys ++ [.tick none {} 40, .postEvent (.mk .char 0x61),
      .tick none {} 90, .tick none {} 160]
    ((create {}).run ops).proc.cycles = ((create {}).renderTimes ops).length ∧
      ((create {}).renderTimes ops) = [40, 160] ∧ (100 : Int) ≤ 160 - 40 := by
  have hops : ∀ op ∈ startKeys ++ [.tick none {} 40, .postEvent (.mk .char 0x61),
      .tick none {} 90, .tick none {} 160], op.Threaded := by decide
  have h := render_cadence (create {}) rfl _ hops
  refine ⟨h.1, by decide, ?_⟩
  exact h.2.2.2.2 startKeys [.postEvent (.mk .char 0x61), .tick none {} 90] {} {} 40 160 rfl
    (by decide) (by decide) (by decide) (by decide)

/-! ## Redraws between two deadlines -/

/-- A tick that writes wrote the frame of the state it started from. -/
theorem written_eq_frameOf {s : Scheduler} {sz : Size} {now : Int} {f : Bytes}
    (h : (s.tick none sz now).2.2 = [f]) : f = frameOf s.interp sz ∧ sz.Visible := by
  rw [tick_written] at h
  split at h
  · rename_i hw
    exact ⟨(List.singleton_inj.mp h).symm, hw.2⟩
  · exact absurd h (by simp)

/-- The band row of a frame of the current state. -/
theorem frameOf_band (it : Interpreter) {sz : Size} (hsz : sz.Visible) :
    Renderer.bandRowBytes (frameOf it sz) sz.rows sz.cols =
      Renderer.paintedBand it.params.text it.proc.cycles sz.rows sz.cols :=
  Renderer.bandRowBytes_eq_paintedBand _ _ _ _ _ hsz.1 hsz.2

/-- While nothing is written, no frame is counted. -/
theorem run_quiet {ops : List Op} (hops : ∀ op ∈ ops, op.Threaded) (hvis : ∀ op ∈ ops, op.Visible)
    {s : Scheduler} (h : s.written ops = []) : (s.run ops).proc.cycles = s.proc.cycles := by
  induction ops generalizing s with
  | nil => rfl
  | cons op ops ih =>
    obtain ⟨hfst, hrest⟩ := List.append_eq_nil_iff.mp h
    rw [run_cons, ih (fun o ho => hops o (List.mem_cons_of_mem _ ho))
      (fun o ho => hvis o (List.mem_cons_of_mem _ ho)) hrest]
    rcases s.exec_proc (hops op List.mem_cons_self) with ⟨sz, now, rfl, -, hd, -⟩ | ⟨-, hp⟩
    · have hw : (s.tick none sz now).2.2 = [frameOf s.interp sz] := by
        rw [tick_written, if_pos ⟨by rw [hd]; rfl, hvis _ List.mem_cons_self⟩]
      exact absurd (hw.symm.trans hfst) (by simp)
    · generalize (s.exec op).1.proc = q at hp
      cases hp <;> rfl

/-- **When the next frame keeps the band.**  Two frames are written in a row, for
one text and one size; the second may be a redraw or not.  Their band rows agree
exactly when the first was a redraw, or the one column by which the band has
moved since does not show. -/
theorem redraw_keeps_band_iff (s : Scheduler) (sz : Size) (t1 t2 : Int) (mid : List Op)
    (hmid : ∀ op ∈ mid, op.Threaded) (hvis : ∀ op ∈ mid, op.Visible) (f1 f2 : Bytes)
    (h1 : (s.tick none sz t1).2.2 = [f1]) (hquiet : (s.tick none sz t1).1.written mid = [])
    (h2 : (((s.tick none sz t1).1.run mid).tick none sz t2).2.2 = [f2])
    (htext : ((s.tick none sz t1).1.run mid).params.text = s.params.text) :
    Renderer.bandRowBytes f2 sz.rows sz.cols = Renderer.bandRowBytes f1 sz.rows sz.cols ↔
      due s.interp t1 = false ∨ sz.rows = 1 ∨ sz.cols = 1 ∨
        Still s.params.text (Renderer.bandWidthFor sz.cols)
          (scrollOffset s.proc.cycles s.params.text.length (Renderer.bandWidthFor sz.cols)) := by
  have hcycles : ((s.tick none sz t1).1.run mid).proc.cycles = (s.tick none sz t1).1.proc.cycles :=
    run_quiet hmid hvis hquiet
  have htick : (s.tick none sz t1).1.proc = _ := tick_proc s sz t1
  have hr : s.renders (.tick none sz t1) = due s.interp t1 := tick_rendered s sz t1
  obtain ⟨rfl, hsz⟩ := written_eq_frameOf h1
  obtain ⟨rfl, -⟩ := written_eq_frameOf h2
  rw [frameOf_band _ hsz, frameOf_band _ hsz]
  change Renderer.paintedBand ((s.tick none sz t1).1.run mid).params.text
    ((s.tick none sz t1).1.run mid).proc.cycles sz.rows sz.cols =
      Renderer.paintedBand s.params.text s.proc.cycles sz.rows sz.cols ↔ _
  rw [htext, hcycles, htick, hr]
  cases hd : due s.interp t1 with
  | true =>
    -- the first frame was built before it was counted, the second shows the new count
    rw [if_pos rfl, Renderer.paintedBand_succ_eq_iff _ _ hsz.1 hsz.2]
    simp
  | false => simp

/-- The marquee is started and drawn once, then a key is typed: the redraw moves
the band, although no deadline has passed. -/
theorem redraw_moves_band :
    let s := (create {}).run startKeys
    let sz : Size := { rows := 2, cols := 4 }
    let s1 := (s.tick none sz 0).1
    let s2 := s1.postEvent (.mk .char 0x61)
    (s.tick none sz 0).2.2.length = 1 ∧ (s2.tick none sz 1).2.2.length = 1 ∧
      (s2.tick none sz 1).2.1.rendered = false ∧ s2.params.text = s.params.text ∧
      Renderer.bandRowBytes ((s.tick none sz 0).2.2.getD 0 []) sz.rows sz.cols = ascii "    " ∧
      Renderer.bandRowBytes ((s2.tick none sz 1).2.2.getD 0 []) sz.rows sz.cols = ascii "  C " := by
  decide

/-- The running marquee is drawn at 0 and owes its next frame at 100: the redraws at 5 and at
10 show the same band. -/
theorem redraw_keeps_band_typed :
    let sz : Size := { rows := 2, cols := 4 }
    let s := (create {}).run (startKeys ++ [.tick none sz 0, .postEvent (.mk .char 0x61)])
    let s2 := (s.tick none sz 5).1.run [.postEvent (.mk .char 0x62)]
    s.proc.state = .running ∧ (s.tick none sz 5).2.1.rendered = false ∧
      (s2.tick none sz 10).2.1.rendered = false ∧
      Renderer.bandRowBytes (frameOf s.interp sz) sz.rows sz.cols = ascii "  C " ∧
      Renderer.bandRowBytes (frameOf s2.interp sz) sz.rows sz.cols =
        Renderer.bandRowBytes (frameOf s.interp sz) sz.rows sz.cols := by
  intro sz s s2
  refine ⟨by decide, by decide, by decide, by decide, ?_⟩
  exact (redraw_keeps_band_iff s sz 5 10 [.postEvent (.mk .char 0x62)] (by decide) (by decide) _ _
    (by decide) (by decide) (by decide) (by decide)).mpr (.inl (by decide))

end Scheduler
end Csopesy
