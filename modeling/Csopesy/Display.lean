import Csopesy.Echo
import Csopesy.Layout
import Csopesy.PromptRow
import Csopesy.Screen
import Csopesy.Session
import Csopesy.Stopping

/-! # What the terminal shows

The frames of `buildFrame` on a character screen.  A frame for the size of the screen
replaces everything on it by the rows of the layout, whatever was there before, without
scrolling (`paint`); a frame for another size scrolls by the lines that it takes too many
(`paint_scrolls`).  The size is read before the lock and the frame is written behind it, so
a terminal that becomes narrower in between scrolls.

Over whole runs, a terminal of constant size shows exactly the last frame and has never
scrolled (`screen_shows_frame`), until the goodbye line: it starts in the last cell, where a
frame leaves the cursor, so its first byte stands alone behind the prompt row and the screen
scrolls (`goodbye_torn`).
-/
namespace Csopesy
open Transition

namespace Renderer

/-! ## Frames are pictures -/

theorem intercalate_concat_eq (sep : Bytes) (ls : List Bytes) (last : Bytes) :
    sep.intercalate (ls ++ [last]) = ls.flatMap (· ++ sep) ++ last := by
  induction ls with
  | nil => rw [List.nil_append, List.intercalate_singleton, List.flatMap_nil, List.nil_append]
  | cons l ls ih =>
    have hcons : sep.intercalate (l :: (ls ++ [last])) =
        l ++ sep ++ sep.intercalate (ls ++ [last]) := by
      cases ls with
      | nil => rw [List.nil_append, List.intercalate_cons_cons]
      | cons l' ls => rw [List.cons_append, List.intercalate_cons_cons]
    rw [List.cons_append, hcons, ih, List.flatMap_cons, List.append_assoc, List.append_assoc,
      List.append_assoc]

theorem printing_of_printable {s : Bytes} (h : Printable s) : ∀ b ∈ s, Vt.Printing b := by
  intro b hb
  have hrange := h b hb
  simp only [isPrintableAscii, Bool.and_eq_true, decide_eq_true_eq] at hrange
  exact hrange

theorem picture_eq (body : List Bytes) (last : Bytes) :
    kCursorHome ++ kRowSeparator.intercalate (body ++ [last ++ kEraseToEol]) =
      Vt.Screen.picture body last := by
  rw [intercalate_concat_eq]
  unfold Vt.Screen.picture
  rw [← List.append_assoc, ← List.append_assoc]
  rfl

/-- A frame scrolls a screen of any size by the lines it takes beyond the last row. -/
theorem feedAll_frame_scrolls {frame : Bytes} {rows cols : Int}
    (h : WellFormedFrame frame rows cols)
    {height width : Nat} {s : Vt.Screen height width} (hs : s.sequence = .ground) :
    (s.feedAll frame).sequence = .ground ∧
      (s.feedAll frame).top = s.top + ((rows.toNat - 1) * ((cols.toNat - 1) / width + 1) +
        (cols.toNat - 2) / width + 1 - height) := by
  obtain ⟨body, last, rfl, hrows, hcols, hwidth, hprintable⟩ := h
  have hbody : body.length = rows.toNat - 1 := by omega
  rw [picture_eq, ← hbody]
  refine Vt.Screen.feedAll_picture_scrolls hs
    (fun l hl => printing_of_printable (hprintable l hl)) (fun l hl => ?_) (by omega)
  have := hwidth l hl
  omega

end Renderer

/-! ## A frame on a screen of its size -/

/-- The screen shows the frame of a session, and the cursor is in its last cell. -/
structure Displays (it : Interpreter) (sz : Size)
    (t : Vt.Screen sz.rows.toNat sz.cols.toNat) : Prop where
  sequence : t.sequence = .ground
  row : t.row + 1 = sz.rows.toNat
  col : t.col + 1 = sz.cols.toNat
  shown : ∀ {row : Int} {line : Bytes}, 1 ≤ row → row ≤ sz.rows →
    Renderer.Shows it.params it.proc Interpreter.prompt it.line it.message sz.rows sz.cols row line →
    t.shown (row - 1).toNat = padOrClip line (Renderer.rowWidth sz.rows sz.cols row) ++
      if row = sz.rows then [space] else []

/-- The frame of a session is a picture of its size, a row of the layout in each line. -/
theorem frameOf_picture {it : Interpreter} (h : PrintableSession it) {sz : Size}
    (hvisible : sz.Visible) :
    ∃ body last, Scheduler.frameOf it sz = Vt.Screen.picture body last ∧
      body.length + 1 = sz.rows.toNat ∧ last.length + 1 = sz.cols.toNat ∧
      (∀ l ∈ body, l.length = sz.cols.toNat) ∧ (∀ l ∈ body ++ [last], ∀ b ∈ l, Vt.Printing b) ∧
      ∀ {row : Int} {line : Bytes}, 1 ≤ row → row ≤ sz.rows →
        Renderer.Shows it.params it.proc Interpreter.prompt it.line it.message sz.rows sz.cols
          row line →
        (body ++ [last ++ [Vt.blank]])[(row - 1).toNat]? =
          some (padOrClip line (Renderer.rowWidth sz.rows sz.cols row) ++
            if row = sz.rows then [space] else []) := by
  obtain ⟨hr, hc⟩ := hvisible
  have hpadded : ∀ l ∈ Renderer.paddedRows it.params it.proc Interpreter.prompt it.line it.message
      sz.rows sz.cols, Printable l ∧ l.length = sz.cols.toNat := by
    intro l hl
    refine ⟨?_, Renderer.paddedRows_length hl⟩
    obtain ⟨line, hline, rfl⟩ := List.mem_map.mp hl
    exact (Renderer.layout_printable h.params it.proc (by decide) h.line h.message _ _ line
      hline).padOrClip _
  have hlength : (Renderer.paddedRows it.params it.proc Interpreter.prompt it.line it.message
      sz.rows sz.cols).length = sz.rows.toNat := by
    unfold Renderer.paddedRows
    rw [List.length_map, Renderer.layout_length]
  have hline : ∀ {row : Int} {line : Bytes}, Renderer.Shows it.params it.proc Interpreter.prompt
      it.line it.message sz.rows sz.cols row line →
      (Renderer.paddedRows it.params it.proc Interpreter.prompt it.line it.message sz.rows
        sz.cols)[(row - 1).toNat]? = some (padOrClip line sz.cols) := by
    intro row line hshows
    unfold Renderer.paddedRows
    rw [List.getElem?_map, hshows.layout hr, Option.map_some]
  refine ⟨_, _, (Renderer.buildFrame_eq _ _ _ _ _ hr hc).trans (Renderer.picture_eq _ _), ?_⟩
  generalize Renderer.paddedRows it.params it.proc Interpreter.prompt it.line it.message
    sz.rows sz.cols = padded at hpadded hlength hline ⊢
  have hbody : padded.dropLast.length + 1 = sz.rows.toNat := by
    rw [List.length_dropLast]
    omega
  have hlast : Printable (padded.getD (sz.rows - 1).toNat []) := by
    rw [List.getD_eq_getElem?_getD, List.getElem?_eq_getElem (by omega), Option.getD_some]
    exact (hpadded _ (List.getElem_mem _)).1
  refine ⟨hbody, by rw [padOrClip_length]; omega,
    fun l hl => (hpadded l (List.dropLast_subset _ hl)).2, fun l hl => ?_, ?_⟩
  · rcases List.mem_append.mp hl with hl | hl
    · exact Renderer.printing_of_printable (hpadded l (List.dropLast_subset _ hl)).1
    · rw [List.mem_singleton.mp hl]
      exact Renderer.printing_of_printable (hlast.padOrClip _)
  · intro row line hlo hhi hshows
    unfold Renderer.rowWidth
    by_cases hend : row = sz.rows
    · subst hend
      rw [if_pos rfl, if_pos rfl, List.getElem?_append_right (by omega),
        show (sz.rows - 1).toNat - padded.dropLast.length = 0 by omega, List.getElem?_cons_zero,
        List.getD_eq_getElem?_getD, hline hshows, Option.getD_some,
        Renderer.padOrClip_padOrClip line hc]
      rfl
    · have hinside : (row - 1).toNat < padded.dropLast.length := by omega
      rw [if_neg hend, if_neg hend, List.append_nil, List.getElem?_append_left hinside,
        List.getElem?_eq_getElem hinside, List.getElem_dropLast, ← List.getElem?_eq_getElem,
        hline hshows]

/-- **Painting.**  Whatever was on the screen, the frame replaces it and nothing scrolls. -/
theorem paint {it : Interpreter} (h : PrintableSession it) {sz : Size} (hvisible : sz.Visible)
    {s : Vt.Screen sz.rows.toNat sz.cols.toNat} (hs : s.sequence = .ground) :
    Displays it sz (s.feedAll (Scheduler.frameOf it sz)) ∧
      (s.feedAll (Scheduler.frameOf it sz)).top = s.top := by
  obtain ⟨body, last, hframe, hbody, hlast, hfull, hprinting, hline⟩ := frameOf_picture h hvisible
  rw [hframe]
  obtain ⟨hseq, htop, hrow, hcol, hshown⟩ := Vt.Screen.feedAll_picture hs hprinting hfull
    hlast hbody
  refine ⟨⟨hseq, hrow, hcol, fun {row line} hlo hhi hshows => ?_⟩, htop⟩
  have hrowLine := hline hlo hhi hshows
  have hinside := (List.getElem?_eq_some_iff.mp hrowLine).1
  exact (hshown _ hinside).trans (List.getElem?_eq_some_iff.mp hrowLine).2

/-- What is left of the cursor in the last row. -/
theorem Displays.promptRow {it : Interpreter} {sz : Size}
    {t : Vt.Screen sz.rows.toNat sz.cols.toNat} (h : Displays it sz t) (hr : 1 ≤ sz.rows)
    (hc : 2 ≤ sz.cols) : (List.range t.col).map (t.line t.here) =
      buildPromptRow Interpreter.prompt it.line sz.cols := by
  have hshown := h.shown hr (Int.le_refl _) .prompt
  have hrow := h.row
  have hhere : t.top + (sz.rows - 1).toNat = t.here := by
    unfold Vt.Screen.here
    omega
  have hkept : padOrClip (buildPromptRow Interpreter.prompt it.line sz.cols) (sz.cols - 1) =
      buildPromptRow Interpreter.prompt it.line sz.cols := by
    unfold buildPromptRow
    dsimp only
    rw [if_pos (show sz.cols > 1 by omega), Renderer.padOrClip_idem]
  unfold Vt.Screen.shown Renderer.rowWidth at hshown
  rw [if_pos rfl, if_pos rfl, hkept, hhere, t.range_cols h.col, List.map_append] at hshown
  exact (List.append_inj' hshown rfl).1

/-- **The size on the screen decides.**  A frame scrolls the screen by the lines it takes
beyond the last row: by none when it fits, and by almost a whole screen when the terminal
has become narrower since its size was read. -/
theorem paint_scrolls {it : Interpreter} (h : PrintableSession it) {sz : Size}
    (hvisible : sz.Visible) {height width : Nat} {s : Vt.Screen height width}
    (hs : s.sequence = .ground) :
    let rows := sz.rows.toNat
    let cols := sz.cols.toNat
    let t := s.feedAll (Scheduler.frameOf it sz)
    t.top = s.top + ((rows - 1) * ((cols - 1) / width + 1) + (cols - 2) / width + 1 - height) ∧
      (rows ≤ height → cols ≤ width → t.top = s.top) ∧
      (height ≤ rows → width < cols → s.top + (rows - 1) ≤ t.top) := by
  intro rows cols t
  have htop := (Renderer.feedAll_frame_scrolls (Scheduler.frameOf_wellFormed h hvisible) hs).2
  have hrows : 1 ≤ rows := by
    have := hvisible.1
    omega
  refine ⟨htop, fun hheight hwidth => ?_, fun hheight hwidth => ?_⟩
  · have hline : (cols - 1) / width = 0 := Nat.div_eq_of_lt (by have := s.cols_pos; omega)
    have hlast : (cols - 2) / width = 0 := Nat.div_eq_of_lt (by have := s.cols_pos; omega)
    change t.top = _ at htop
    rw [htop, hline, hlast]
    omega
  · have hline : 1 ≤ (cols - 1) / width := (Nat.one_le_div_iff s.cols_pos).mpr (by omega)
    have htwice : (rows - 1) * 2 ≤ (rows - 1) * ((cols - 1) / width + 1) :=
      Nat.mul_le_mul_left _ (by omega)
    change t.top = _ at htop
    rw [htop]
    generalize (rows - 1) * ((cols - 1) / width + 1) = total at htwice ⊢
    generalize (cols - 2) / width = extra
    omega

/-- A frame for 80 columns on a terminal of half the width. -/
theorem paint_scrolls_narrow :
    23 ≤ ((Vt.Screen.clear 24 40 (by decide) (by decide)).feedAll
      (Scheduler.frameOf (Scheduler.create (Cli.parseCli [] [] none).params).interp {})).top := by
  have hclear : (Vt.Screen.clear 24 40 (by decide) (by decide)).sequence = .ground := rfl
  exact (paint_scrolls (Scheduler.create_printable [] [] none) Size.default_visible hclear).2.2
    (by decide) (by decide)

/-- A frame of some session for a terminal size. -/
def FrameFor (sz : VisibleSize) (frame : Bytes) : Prop :=
  ∃ it, PrintableSession it ∧ frame = Scheduler.frameOf it sz.1

/-- Frames for the size of the screen never scroll it. -/
theorem paint_all {sz : VisibleSize} {frames : List Bytes} (h : ∀ f ∈ frames, FrameFor sz f)
    {s : Vt.Screen sz.1.rows.toNat sz.1.cols.toNat} (hs : s.sequence = .ground) :
    (s.feedAll frames.flatten).sequence = .ground ∧ (s.feedAll frames.flatten).top = s.top := by
  induction frames generalizing s with
  | nil => exact ⟨hs, rfl⟩
  | cons frame frames ih =>
    obtain ⟨it, hit, hframe⟩ := h frame List.mem_cons_self
    obtain ⟨hshows, htop⟩ := paint hit sz.2 hs
    obtain ⟨hseq, htop'⟩ := ih (fun f hf => h f (List.mem_cons_of_mem _ hf)) hshows.sequence
    rw [List.flatten_cons, Vt.Screen.feedAll_append, hframe]
    exact ⟨hseq, htop'.trans htop⟩

/-- **The last frame stands.** -/
theorem paint_last {sz : VisibleSize} {frames : List Bytes} (hne : frames ≠ [])
    (h : ∀ f ∈ frames, FrameFor sz f) {s : Vt.Screen sz.1.rows.toNat sz.1.cols.toNat}
    (hs : s.sequence = .ground) :
    ∃ it, PrintableSession it ∧ frames.getLast? = some (Scheduler.frameOf it sz.1) ∧
      Displays it sz.1 (s.feedAll frames.flatten) ∧ (s.feedAll frames.flatten).top = s.top := by
  obtain ⟨before, last, rfl⟩ := List.eq_nil_or_concat frames |>.resolve_left hne
  rw [List.concat_eq_append] at h ⊢
  obtain ⟨it, hit, rfl⟩ := h last (List.mem_append_right _ (List.mem_singleton_self _))
  obtain ⟨hseq, htop⟩ := paint_all (fun f hf => h f (List.mem_append_left _ hf)) hs
  obtain ⟨hshows, htop'⟩ := paint hit sz.2 hseq
  rw [List.flatten_append, Vt.Screen.feedAll_append, List.flatten_singleton]
  exact ⟨it, hit, List.getLast?_concat, hshows, htop'.trans htop⟩

namespace ConsoleApp
variable {a b : ConsoleApp}

/-! ## Runs at one size -/

/-- The terminal size that a step reads. -/
def sizeRead : Act → Option VisibleSize
  | .input (.draw sz) | .worker _ (.size sz) => some sz
  | _ => none

/-- The size that a worker has read for its tick. -/
def sizeOf : WorkerPc → Option VisibleSize
  | .sized sz | .ticking sz => some sz
  | _ => none

/-- Every frame, drawn or still to be drawn, is for one size. -/
structure AtSize (sz : VisibleSize) (a : ConsoleApp) : Prop where
  session : PrintableSession a.sched.interp
  drawing : ∀ {frame}, a.input = .drawing frame → FrameFor sz frame
  size : ∀ {i sz'}, sizeOf (a.workers i) = some sz' → sz' = sz
  pending : ∀ {i frame}, (a.workers i).pending = some frame → FrameFor sz frame
  writes : ∀ {w}, w ∈ a.writes → w.bytes ≠ farewell → FrameFor sz w.bytes

theorem AtSize.input {sz : VisibleSize} (h : AtSize sz a) {act : InputAct}
    (hstep : InputStep a act b)
    (hsize : ∀ sz', sizeRead (.input act) = some sz' → sz' = sz)
    (hsession : PrintableSession b.sched.interp) : AtSize sz b := by
  have hworker : ∀ i, b.workers i = a.workers i ∨
      sizeOf (b.workers i) = none ∧ (b.workers i).pending = none := by
    intro i
    rcases hstep.worker_cases i with heq | ⟨seen, -, hwoken⟩ | ⟨-, -, -, -, htop⟩
    · exact .inl heq
    · rw [hwoken]
      exact .inr ⟨rfl, rfl⟩
    · rw [htop]
      exact .inr ⟨rfl, rfl⟩
  refine ⟨hsession, ?_, ?_, ?_, ?_⟩
  · cases hstep with
    | @draw sz' hstart =>
      intro frame hframe
      obtain rfl := hsize sz' rfl
      exact ⟨_, h.session, (InputPc.drawing.inj hframe).symm⟩
    | _ => exact fun hframe => absurd hframe (by simp)
  · intro i sz' hsz
    rcases hworker i with heq | ⟨hnone, -⟩
    · exact h.size (heq ▸ hsz)
    · exact absurd (hnone.symm.trans hsz) (by simp)
  · intro i frame hframe
    rcases hworker i with heq | ⟨-, hnone⟩
    · exact h.pending (heq ▸ hframe)
    · exact absurd (hnone.symm.trans hframe) (by simp)
  · cases hstep with
    | @paint frame hne hdrawing =>
      intro w hw _
      rcases List.mem_append.mp hw with hw | hw
      · exact h.writes hw ‹_›
      · rw [List.mem_singleton.mp hw]
        exact h.drawing hdrawing
    | farewell hjoined =>
      intro w hw hne
      rcases List.mem_append.mp hw with hw | hw
      · exact h.writes hw hne
      · rw [List.mem_singleton.mp hw] at hne
        exact absurd rfl hne
    | _ => exact h.writes

theorem AtSize.worker {sz : VisibleSize} (h : AtSize sz a) {i : Nat} {pc pc' : WorkerPc}
    {act : WorkerAct} {sh : Shared} (hpc : a.workers i = pc)
    (hstep : WorkerStep i a.toShared pc act sh pc')
    (hsize : ∀ sz', sizeRead (.worker i act) = some sz' → sz' = sz)
    (hsession : PrintableSession sh.sched.interp) :
    AtSize sz { a with toShared := sh, workers := Function.update a.workers i pc' } := by
  have hbefore : ∀ {sz'}, sizeOf pc = some sz' → sz' = sz := fun hsz => h.size (hpc ▸ hsz)
  have hbuilt : ∀ {frame}, pc.pending = some frame → FrameFor sz frame :=
    fun hframe => h.pending (hpc ▸ hframe)
  have hread : ∀ {sz'}, sizeOf pc' = some sz' → sz' = sz := by
    intro sz' hsz
    cases hstep with
    | size sz' => exact hsize _ hsz
    | lockTick hmu => exact hbefore hsz
    | _ => exact absurd hsz (by simp [sizeOf])
  have hpending : ∀ {frame}, pc'.pending = some frame → FrameFor sz frame := by
    intro frame hframe
    cases hstep with
    | @tick sz' now =>
      obtain rfl : sz' = sz := hbefore rfl
      rw [pending_tick] at hframe
      split at hframe
      · exact ⟨_, h.session, (Option.some.inj hframe).symm⟩
      · exact absurd hframe (by simp)
    | unlock => exact hbuilt hframe
    | _ => exact absurd hframe (by simp [WorkerPc.pending])
  have hwrites : ∀ {w}, w ∈ sh.writes → w.bytes ≠ farewell → FrameFor sz w.bytes := by
    intro w hw hbytes
    cases hstep with
    | @write frame hne =>
      rcases List.mem_append.mp hw with hw | hw
      · exact h.writes hw hbytes
      · rw [List.mem_singleton.mp hw]
        exact hbuilt (by simp [WorkerPc.pending, hne])
    | _ => exact h.writes hw hbytes
  have hworkers : ∀ j, (∀ {sz'}, sizeOf (Function.update a.workers i pc' j) = some sz' → sz' = sz) ∧
      ∀ {frame}, (Function.update a.workers i pc' j).pending = some frame → FrameFor sz frame := by
    intro j
    by_cases hj : j = i
    · subst hj
      rw [Function.update_self]
      exact ⟨hread, hpending⟩
    · rw [Function.update_of_ne hj]
      exact ⟨h.size, h.pending⟩
  exact ⟨hsession, h.drawing, fun hsz => (hworkers _).1 hsz, fun hframe => (hworkers _).2 hframe,
    hwrites⟩

/-- **Step lemma.** -/
theorem AtSize.step {sz : VisibleSize} (h : AtSize sz a) {act : Act} (hstep : Step a act b)
    (hsize : ∀ sz', sizeRead act = some sz' → sz' = sz) : AtSize sz b := by
  have hsession : PrintableSession b.sched.interp := by
    rw [hstep.sched_eq]
    exact Scheduler.run_printable h.session _
  cases hstep with
  | input hstep => exact h.input hstep hsize hsession
  | worker hpc hstep => exact h.worker hpc hstep hsize hsession

/-- The bytes that the terminal has received. -/
def output (a : ConsoleApp) : Bytes := (a.writes.map Write.bytes).flatten

theorem atSize (args : List Bytes) (configPath : Bytes) (content : Option Bytes) {sz : VisibleSize}
    {labels : List Act} (ha : (system (Cli.parseCli args configPath content).params).init a)
    (hrun : (system (Cli.parseCli args configPath content).params).Run a labels b)
    (hsizes : ∀ sz' ∈ labels.filterMap sizeRead, sz' = sz) : AtSize sz b := by
  refine hrun.preserves (P := AtSize sz) (fun a act b _ hsize h hstep => h.step hstep hsize)
    (.init ha) (fun act hact sz' hsz => hsizes sz' (List.mem_filterMap.mpr ⟨act, hact, hsz⟩)) ?_
  obtain rfl : a = _ := ha
  exact ⟨Scheduler.create_printable args configPath content, fun h => absurd h (by simp),
    fun h => absurd h (by simp [sizeOf]), fun h => absurd h (by simp [WorkerPc.pending]),
    fun h => absurd h List.not_mem_nil⟩

/-- Before the goodbye line only frames were written. -/
theorem Opening.frames {sz : VisibleSize} (ha : AtSize sz a) {writes : List Write}
    (h : Opening writes) (hsub : writes ⊆ a.writes) :
    writes.map Write.bytes ≠ [] ∧ ∀ f ∈ writes.map Write.bytes, FrameFor sz f := by
  obtain ⟨first, frames, rfl, hfirst, hframes⟩ := h
  refine ⟨List.cons_ne_nil _ _, fun f hf => ?_⟩
  obtain ⟨w, hw, rfl⟩ := List.mem_map.mp hf
  refine ha.writes (hsub hw) ?_
  rcases List.mem_cons.mp hw with rfl | hw'
  · exact hfirst.ne_farewell
  · exact (hframes w hw').2.ne_farewell

theorem Opening.lastFrame_eq {writes : List Write} (h : Opening writes) :
    lastFrame writes = (writes.map Write.bytes).getLast? := by
  obtain ⟨first, frames, rfl, hfirst, hframes⟩ := h
  have hall : ∀ w ∈ (⟨.input, first⟩ :: frames : List Write), w.bytes ≠ farewell := by
    intro w hw
    rcases List.mem_cons.mp hw with rfl | hw
    · exact hfirst.ne_farewell
    · exact (hframes w hw).2.ne_farewell
  unfold lastFrame
  rw [List.filter_eq_self.mpr fun w hw => decide_eq_true (hall w hw), List.getLast?_map]

/-- **The screen shows the last frame.**  While the terminal keeps one size, every frame is
for that size; from the first one to the goodbye line the screen shows the last of them,
row by row, whatever it showed before, and has not scrolled. -/
theorem screen_shows_frame (args : List Bytes) (configPath : Bytes) (content : Option Bytes)
    (sz : VisibleSize) {labels : List Act}
    (ha : (system (Cli.parseCli args configPath content).params).init a)
    (hrun : (system (Cli.parseCli args configPath content).params).Run a labels b)
    (hsizes : ∀ sz' ∈ labels.filterMap sizeRead, sz' = sz)
    (hdrawn : b.input.drawn = true) (hopen : b.input.ended = false)
    {s : Vt.Screen sz.1.rows.toNat sz.1.cols.toNat} (hs : s.sequence = .ground) :
    ∃ it, PrintableSession it ∧ lastFrame b.writes = some (Scheduler.frameOf it sz.1) ∧
      Displays it sz.1 (s.feedAll b.output) ∧ (s.feedAll b.output).top = s.top := by
  have hsize := atSize args configPath content ha hrun hsizes
  have hwrites := (writesInOrder _ b (hrun.reachable (.init ha))).during hdrawn hopen
  obtain ⟨hne, hframes⟩ := hwrites.frames hsize (List.Subset.refl _)
  obtain ⟨it, hit, hlast, hshows, htop⟩ := paint_last hne hframes hs
  exact ⟨it, hit, hwrites.lastFrame_eq.trans hlast, hshows, htop⟩

/-- The first frame on a clear screen. -/
theorem screen_shows_frame_first :
    ∃ labels b it, (system (Cli.parseCli [] [] none).params).Run
        { sched := Scheduler.create (Cli.parseCli [] [] none).params } labels b ∧
      lastFrame b.writes = some (Scheduler.frameOf it {}) ∧
      Displays it {} ((Vt.Screen.clear 24 80 (by decide) (by decide)).feedAll b.output) := by
  obtain ⟨b, hrun, hinput, -⟩ := opened_run (Cli.parseCli [] [] none).params
    ⟨{}, Size.default_visible⟩
  have hclear : (Vt.Screen.clear 24 80 (by decide) (by decide)).sequence = .ground := rfl
  obtain ⟨it, -, hlast, hshows, -⟩ := screen_shows_frame [] [] none ⟨{}, Size.default_visible⟩ rfl
    hrun (by decide) (by rw [hinput]; rfl) (by rw [hinput]; rfl) hclear
  exact ⟨_, b, it, hrun, hlast, hshows⟩

/-- The goodbye line on a screen that displays a frame. -/
theorem farewell_scrolls {it : Interpreter} {sz : VisibleSize}
    {t : Vt.Screen sz.1.rows.toNat sz.1.cols.toNat} (h : Displays it sz.1 t) :
    (t.feedAll farewell).top = t.top + 23 / sz.1.cols.toNat + 2 := by
  have hfarewell : farewell = ascii "Exiting CSOPESY. Goodbye!" ++ [Vt.cr, Vt.lf] := by decide
  have htext : ∀ c ∈ ascii "Exiting CSOPESY. Goodbye!", Vt.Printing c :=
    Renderer.printing_of_printable (by decide)
  have hcol := h.col
  have hlength : t.col + (ascii "Exiting CSOPESY. Goodbye!").length - 1 =
      23 + sz.1.cols.toNat := by
    change t.col + 25 - 1 = _
    omega
  rw [hfarewell, Vt.Screen.feedAll_line_scrolls h.sequence htext h.row, hlength,
    Nat.add_div_right _ t.cols_pos]
  rfl

/-- Its first letter stays in the last row of the frame. -/
theorem farewell_torn {it : Interpreter} {sz : VisibleSize}
    {t : Vt.Screen sz.1.rows.toNat sz.1.cols.toNat} (h : Displays it sz.1 t)
    (hwide : 24 ≤ sz.1.cols) :
    (List.range sz.1.cols.toNat).map ((t.feedAll farewell).line t.here) =
        buildPromptRow Interpreter.prompt it.line sz.1.cols ++ ascii "E" ∧
      (List.range sz.1.cols.toNat).map ((t.feedAll farewell).line (t.here + 1)) =
        padOrClip (ascii "xiting CSOPESY. Goodbye!") sz.1.cols := by
  have htext : ∀ c ∈ ascii "xiting CSOPESY. Goodbye!", Vt.Printing c :=
    Renderer.printing_of_printable (by decide)
  have hline : 0x45 :: (ascii "xiting CSOPESY. Goodbye!" ++ [Vt.cr, Vt.lf]) = farewell := by
    decide
  have hlength : (ascii "xiting CSOPESY. Goodbye!").length = 24 := by decide
  obtain ⟨hfirst, hsecond⟩ := Vt.Screen.feedAll_torn (b := 0x45) h.sequence (by decide) htext
    (by decide) (show 24 ≤ sz.1.cols.toNat by omega) h.row h.col
  rw [hline] at hfirst hsecond
  rw [h.promptRow sz.2.1 (by omega)] at hfirst
  refine ⟨hfirst, hsecond.trans ?_⟩
  by_cases hexact : sz.1.cols = 24
  · rw [padOrClip_of_le (by omega) (by omega), hexact]
    decide
  · rw [padOrClip_of_lt (by omega) (by omega)]
    rfl

/-- **The goodbye line is torn.**  Behind the last frame the cursor is in the last cell, so
the line begins there: the screen scrolls, and on a terminal of at least 24 columns the
first letter stands at the end of the prompt row and the rest in a row of its own. -/
theorem goodbye_torn (args : List Bytes) (configPath : Bytes) (content : Option Bytes)
    (sz : VisibleSize) {labels : List Act}
    (ha : (system (Cli.parseCli args configPath content).params).init a)
    (hrun : (system (Cli.parseCli args configPath content).params).Run a labels b)
    (hsizes : ∀ sz' ∈ labels.filterMap sizeRead, sz' = sz)
    (hended : b.input.ended = true) {s : Vt.Screen sz.1.rows.toNat sz.1.cols.toNat}
    (hs : s.sequence = .ground) :
    ∃ it, PrintableSession it ∧ lastFrame b.writes = some (Scheduler.frameOf it sz.1) ∧
      let t := s.feedAll b.output
      t.top = s.top + 23 / sz.1.cols.toNat + 2 ∧
      (24 ≤ sz.1.cols →
        (List.range sz.1.cols.toNat).map (t.line (s.top + sz.1.rows.toNat - 1)) =
          buildPromptRow Interpreter.prompt it.line sz.1.cols ++ ascii "E" ∧
        (List.range sz.1.cols.toNat).map (t.line (s.top + sz.1.rows.toNat)) =
          padOrClip (ascii "xiting CSOPESY. Goodbye!") sz.1.cols) := by
  have hsize := atSize args configPath content ha hrun hsizes
  obtain ⟨before, hbefore, hwrites⟩ :=
    (writesInOrder _ b (hrun.reachable (.init ha))).after hended
  have hsub : before ⊆ b.writes := hwrites ▸ List.subset_append_left _ _
  obtain ⟨hne, hframes⟩ := hbefore.frames hsize hsub
  obtain ⟨it, hit, hlast, hshows, htop⟩ := paint_last hne hframes hs
  have houtput : b.output = (before.map Write.bytes).flatten ++ farewell := by
    unfold output
    rw [hwrites, List.map_append, List.flatten_append]
    exact congrArg (_ ++ ·) (List.append_nil _)
  rw [houtput, Vt.Screen.feedAll_append]
  generalize s.feedAll (before.map Write.bytes).flatten = t at hshows htop ⊢
  refine ⟨it, hit, ?_, ?_, fun hwide => ?_⟩
  · rw [hwrites, lastFrame_append_farewell, hbefore.lastFrame_eq, hlast]
  · rw [farewell_scrolls hshows, htop]
  · have hrow := hshows.row
    have hhere : s.top + sz.1.rows.toNat - 1 = t.here := by
      unfold Vt.Screen.here
      omega
    have hnext : s.top + sz.1.rows.toNat = t.here + 1 := by omega
    rw [hhere, hnext]
    exact farewell_torn hshows hwide

/-- A session that is stopped before its worker has drawn. -/
theorem goodbye_torn_early :
    ∃ labels b, (system (Cli.parseCli [] [] none).params).Run
        { sched := Scheduler.create (Cli.parseCli [] [] none).params } labels b ∧
      ((Vt.Screen.clear 24 80 (by decide) (by decide)).feedAll b.output).top = 2 := by
  obtain ⟨a, hopened, hinput, hmu, -, hhandle, htop, -⟩ :=
    opened_run (Cli.parseCli [] [] none).params ⟨{}, Size.default_visible⟩
  have hclosed : ∃ b, (system (Cli.parseCli [] [] none).params).Run a
      [.input (.call .requestStop), .input .lock, .input (.update .requestStop), .input .unlock,
        .input (.notify .requestStop), .worker 0 .lock, .worker 0 .exit, .input .join,
        .input .farewell] b ∧ b.input = .farewell :=
    ⟨_, .cons (.input (.call .requestStop rfl hinput)) <|
      .cons (.input (.lock hmu rfl)) <|
      .cons (.input (.update rfl)) <|
      .cons (.input (.unlock rfl)) <|
      .cons (.input (.notifyAll (by simp) rfl)) <|
      .cons (.worker (congrArg WorkerPc.notified htop) (.lock rfl)) <|
      .cons (.worker rfl (.exit rfl)) <|
      .cons (.input (.join rfl hhandle rfl rfl)) <|
      .cons (.input (.farewell rfl)) (.nil _), rfl⟩
  obtain ⟨b, hclosing, hended⟩ := hclosed
  have hrun := hopened.append hclosing
  have hclear : (Vt.Screen.clear 24 80 (by decide) (by decide)).sequence = .ground := rfl
  obtain ⟨it, -, -, htop', -⟩ := goodbye_torn [] [] none ⟨{}, Size.default_visible⟩ rfl hrun
    (by decide) (by rw [hended]; rfl) hclear
  exact ⟨_, b, hrun, htop'⟩

end ConsoleApp
end Csopesy
