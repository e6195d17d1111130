import Csopesy.Session

/-! # Resizes

No part of the state remembers a terminal size: a tick lays a frame out for the size
it has just read, if it draws one at all.  The size of the frame on the screen is
therefore the one that the latest drawing tick read (`drawnSize`,
`screen_laidOut`), and a resize alone draws nothing: it shows with the next frame
that is due or owed (`resize_reaches_next_frame`).  A well-formed frame has only one
size, so this also says when the screen does not fit the terminal.
-/
namespace Csopesy
namespace Renderer

/-! ## A frame has one size -/

/-- A measure of rows that all have the measure `m`, their separators and the last. -/
theorem measure_intercalate {f : Bytes → Nat} (hf : ∀ s t, f (s ++ t) = f s + f t) (sep last : Bytes)
    {m : Nat} {body : List Bytes} (hbody : ∀ seg ∈ body, f seg = m) :
    f (sep.intercalate (body ++ [last])) = body.length * (m + f sep) + f last := by
  induction body with
  | nil => rw [List.nil_append, List.intercalate_singleton, List.length_nil, Nat.zero_mul, Nat.zero_add]
  | cons seg body ih =>
    have hrest := ih fun s hs => hbody s (List.mem_cons_of_mem _ hs)
    have hcons : sep.intercalate (seg :: (body ++ [last])) =
        seg ++ sep ++ sep.intercalate (body ++ [last]) := by
      cases body with
      | nil => rw [List.nil_append, List.intercalate_cons_cons]
      | cons s body => rw [List.cons_append, List.intercalate_cons_cons]
    rw [List.cons_append, hcons, hf, hf, hrest, hbody seg List.mem_cons_self, List.length_cons,
      Nat.add_mul, Nat.one_mul]
    omega

theorem count_cr_printable {s : Bytes} (h : Printable s) : s.count 0x0D = 0 :=
  List.count_eq_zero_of_not_mem fun hcr => absurd (h _ hcr) (by decide)

theorem wellFormedFrame_measures {frame : Bytes} {rows cols : Int}
    (h : WellFormedFrame frame rows cols) :
    1 ≤ rows ∧ 1 ≤ cols ∧ ((frame.count 0x0D : Nat) : Int) = rows - 1 ∧
      ((frame.length : Nat) : Int) = (rows - 1) * (cols + 2) + cols + 5 := by
  obtain ⟨body, last, rfl, hrows, hcols, hwidth, hprintable⟩ := h
  have hlast : Printable last := hprintable last (by simp)
  have hcount := measure_intercalate (f := List.count 0x0D) (fun _ _ => List.count_append)
    kRowSeparator (last ++ kEraseToEol) (m := 0) fun seg hseg =>
      count_cr_printable (hprintable seg (List.mem_append_left _ hseg))
  have hlength := measure_intercalate (f := List.length) (fun _ _ => List.length_append)
    kRowSeparator (last ++ kEraseToEol) (m := cols.toNat) fun seg hseg => by
      have := hwidth seg hseg
      omega
  refine ⟨by omega, by omega, ?_, ?_⟩
  · rw [List.count_append, hcount, List.count_append, count_cr_printable hlast]
    have hhome : kCursorHome.count 0x0D = 0 := by decide
    have herase : kEraseToEol.count 0x0D = 0 := by decide
    have hsep : kRowSeparator.count 0x0D = 1 := by decide
    rw [hhome, herase, hsep]
    omega
  · rw [List.length_append, hlength, List.length_append]
    have hsep : kRowSeparator.length = 2 := rfl
    have hhome : kCursorHome.length = 3 := rfl
    have herase : kEraseToEol.length = 3 := rfl
    rw [hsep, hhome, herase]
    push_cast
    rw [hrows, Int.toNat_of_nonneg (by omega), hcols]
    ring

/-- **A well-formed frame determines its size.** -/
theorem wellFormedFrame_unique {frame : Bytes} {rows cols rows' cols' : Int}
    (h : WellFormedFrame frame rows cols) (h' : WellFormedFrame frame rows' cols') :
    rows = rows' ∧ cols = cols' := by
  obtain ⟨hr, hc, hcount, hlength⟩ := wellFormedFrame_measures h
  obtain ⟨-, -, hcount', hlength'⟩ := wellFormedFrame_measures h'
  have hrows : rows = rows' := by omega
  subst hrows
  refine ⟨rfl, ?_⟩
  have hmul : rows * cols = rows * cols' := by linarith
  exact Int.eq_of_mul_eq_mul_left (by omega) hmul

end Renderer

namespace Scheduler
open Renderer

/-! ## The size on the screen -/

/-- The shape of a frame for a terminal size. -/
def LaidOutFor (frame : Bytes) (sz : Size) : Prop := WellFormedFrame frame sz.rows sz.cols

theorem LaidOutFor.unique {frame : Bytes} {sz sz' : Size} (h : LaidOutFor frame sz)
    (h' : LaidOutFor frame sz') : sz = sz' := by
  obtain ⟨hrows, hcols⟩ := wellFormedFrame_unique h h'
  cases sz
  cases sz'
  simp_all

/-- The frame on the screen after a run, from the one shown before it. -/
def screen : Bytes → Scheduler → List Op → Bytes
  | shown, _, [] => shown
  | shown, s, op :: ops => screen ((s.exec op).2.2.getLast?.getD shown) (s.exec op).1 ops

/-- A tick draws when the deadline is due or a frame is owed. -/
def draws (s : Scheduler) (now : Int) : Bool := due s.interp now || s.dirty

/-- The size that the latest drawing tick of a run read. -/
def drawnSize : Size → Scheduler → List Op → Size
  | sz, _, [] => sz
  | sz, s, op :: ops =>
    drawnSize
      (match op with
        | .tick none sz' now => if s.draws now then sz' else sz
        | _ => sz)
      (s.exec op).1 ops

theorem screen_append (shown : Bytes) (s : Scheduler) (ops ops' : List Op) :
    screen shown s (ops ++ ops') = screen (screen shown s ops) (s.run ops) ops' := by
  induction ops generalizing shown s with
  | nil => rfl
  | cons op ops ih => exact ih _ _

theorem screen_tick (shown : Bytes) (s : Scheduler) (ops : List Op) (sz : Size) (now : Int) :
    screen shown s (ops ++ [.tick none sz now]) =
      ((s.run ops).tick none sz now).2.2.getLast?.getD (screen shown s ops) := by
  rw [screen_append]
  rfl

theorem draws_iff (s : Scheduler) (now : Int) :
    s.draws now = true ↔ due s.interp now = true ∨ s.dirty = true := by
  unfold draws
  rw [Bool.or_eq_true]

/-- At a visible size a tick writes exactly when it draws. -/
theorem tick_written_iff (s : Scheduler) {sz : Size} (hvisible : sz.Visible) (now : Int) :
    (s.tick none sz now).2.2 ≠ [] ↔ s.draws now = true := by
  rw [tick_written]
  by_cases h : s.draws now = true
  · rw [if_pos ⟨h, hvisible⟩]
    exact iff_of_true (List.cons_ne_nil _ _) h
  · rw [if_neg (fun hdraw => h hdraw.1)]
    exact iff_of_false (fun hne => hne rfl) h

/-- **One tick.**  It replaces the frame on the screen by one for the size it read, or
leaves it. -/
theorem tick_laidOut {s : Scheduler} (h : PrintableSession s.interp) {shown : Bytes} {sz : Size}
    (hshown : LaidOutFor shown sz) {sz' : Size} (hvisible : sz'.Visible) (now : Int) :
    LaidOutFor ((s.tick none sz' now).2.2.getLast?.getD shown)
      (if s.draws now then sz' else sz) := by
  rw [tick_written]
  by_cases hdraws : s.draws now = true
  · rw [if_pos hdraws, if_pos ⟨hdraws, hvisible⟩]
    exact frameOf_wellFormed h hvisible
  · rw [if_neg hdraws, if_neg (fun hdraw => hdraws hdraw.1)]
    exact hshown

/-- **Every run** keeps the screen laid out for the size of the latest drawing tick. -/
theorem screen_laidOut {s : Scheduler} (h : PrintableSession s.interp) {shown : Bytes} {sz : Size}
    (hshown : LaidOutFor shown sz) {ops : List Op} (hops : ∀ op ∈ ops, op.Threaded ∧ op.Visible) :
    LaidOutFor (screen shown s ops) (drawnSize sz s ops) := by
  induction ops generalizing s shown sz with
  | nil => exact hshown
  | cons op ops ih =>
    obtain ⟨hthreaded, hvisible⟩ := hops op List.mem_cons_self
    refine ih (exec_printable s op h) ?_ fun o ho => hops o (List.mem_cons_of_mem _ ho)
    cases op with
    | postEvent | wake | requestStop => exact hshown
    | tick ev sz' now =>
      cases ev with
      | none => exact tick_laidOut h hshown hvisible now
      | some ev => exact absurd hthreaded id

/-- **A resize shows with the next frame.**  After any run a tick writes a frame exactly
when the deadline is due or a frame is owed; then the screen fits the size that the
tick read, and otherwise it fits exactly when the size has not changed since the
latest tick that drew. -/
theorem resize_reaches_next_frame (args : List Bytes) (configPath : Bytes) (content : Option Bytes)
    {shown : Bytes} {sz : Size} (hshown : LaidOutFor shown sz) {ops : List Op}
    (hops : ∀ op ∈ ops, op.Threaded ∧ op.Visible) {sz' : Size} (hvisible : sz'.Visible)
    (now : Int) :
    let s := create (Cli.parseCli args configPath content).params
    (((s.run ops).tick none sz' now).2.2 ≠ [] ↔
      due (s.run ops).interp now = true ∨ (s.run ops).dirty = true) ∧
    (LaidOutFor (screen shown s (ops ++ [.tick none sz' now])) sz' ↔
      (due (s.run ops).interp now = true ∨ (s.run ops).dirty = true) ∨
        sz' = drawnSize sz s ops) := by
  intro s
  have hprintable : PrintableSession s.interp := create_printable args configPath content
  rw [← draws_iff]
  refine ⟨tick_written_iff _ hvisible now, ?_⟩
  have hbefore := screen_laidOut hprintable hshown hops
  have hafter := tick_laidOut (run_printable hprintable ops) hbefore hvisible now
  rw [screen_tick]
  by_cases h : (s.run ops).draws now = true
  · rw [if_pos h] at hafter
    exact iff_of_true hafter (.inl h)
  · -- the screen still has the size of the latest drawing tick, and no other
    rw [if_neg h] at hafter
    constructor
    · exact fun hfits => .inr (hfits.unique hafter)
    · rintro (hdraw | rfl)
      · exact absurd hdraw h
      · exact hafter

/-- Stopped and with no key typed, a tick at a smaller size leaves the frame of the
larger one. -/
theorem resize_alone_not_followed :
    LaidOutFor (frameOf (create {}).interp { rows := 24, cols := 80 }) { rows := 24, cols := 80 } ∧
    ¬ LaidOutFor (screen (frameOf (create {}).interp { rows := 24, cols := 80 }) (create {})
      [.tick none { rows := 10, cols := 40 } 0]) { rows := 10, cols := 40 } := by
  have hfirst : LaidOutFor (frameOf (create {}).interp { rows := 24, cols := 80 })
      { rows := 24, cols := 80 } :=
    frameOf_wellFormed (create_printable [] [] none) (by decide)
  refine ⟨hfirst, fun hfits => ?_⟩
  have hkept := tick_laidOut (s := create {}) (create_printable [] [] none) hfirst
    (show ({ rows := 10, cols := 40 } : Size).Visible by decide) 0
  exact absurd (hfits.unique hkept) (by decide)

/-- A key typed after the resize brings the frame. -/
theorem resize_reaches_next_frame_typed :
    LaidOutFor (screen (frameOf (create {}).interp { rows := 24, cols := 80 }) (create {})
      [.postEvent (.mk .char 0x61), .tick none { rows := 10, cols := 40 } 0])
        { rows := 10, cols := 40 } := by
  have hfirst : LaidOutFor (frameOf (create {}).interp { rows := 24, cols := 80 })
      { rows := 24, cols := 80 } :=
    frameOf_wellFormed (create_printable [] [] none) (by decide)
  have hkey : ∀ op ∈ [Op.postEvent (.mk .char 0x61)], op.Threaded ∧ op.Visible := by decide
  exact ((resize_reaches_next_frame [] [] none hfirst hkey
    (show ({ rows := 10, cols := 40 } : Size).Visible by decide) 0).2).mpr (.inl (.inr rfl))

end Scheduler
end Csopesy
