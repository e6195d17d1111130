import Csopesy.Cadence

/-! # What the marquee spells

Over the rendered frames of a run the text enters the band byte by byte at its right end.
Each rendered frame is built before it is counted and counts one, whatever happens between
two of them: redraws for typed keys, stops and starts, a new refresh interval.  So the bytes
that enter are the text and one window of blanks, over and over, from where the count stood
(`spells_text`).
-/
namespace Csopesy
namespace Scheduler

/-- The byte in the last column of the band of a frame. -/
def entering (sz : Size) (frame : Bytes) : UInt8 :=
  (Renderer.bandRowBytes frame sz.rows sz.cols).getD (Renderer.bandWidthFor sz.cols).toNat space

/-- What enters with the frames of the rendering ticks of a run. -/
def entered : Scheduler → List Op → Bytes
  | _, [] => []
  | s, op :: ops =>
    (match op with
      | .tick _ sz _ => if s.renders op then (s.exec op).2.2.map (entering sz) else []
      | _ => []) ++ entered (s.exec op).1 ops

end Scheduler

namespace Renderer

/-- Behind its margin the band row shows the band. -/
theorem paintedBand_getElem? (text : Bytes) (cycles : Int) {rows cols : Int} (hr : 2 ≤ rows)
    (hc : 2 ≤ cols) {col : Nat} (hcol : col < (bandWidthFor cols).toNat) :
    (paintedBand text cycles rows cols)[col + 1]? = (bandAt text (bandWidthFor cols) cycles)[col]? := by
  have hband : bandRow rows > 0 := (bandRow_pos_iff (by omega)).mpr (by omega)
  have hwidth : (bandWidthFor cols).toNat + 1 ≤ cols.toNat ∧
      cols ≤ (bandWidthFor cols).toNat + 2 := by
    unfold bandWidthFor
    split <;> omega
  have hlength := bandAt_length text (bandWidthFor_pos cols) cycles
  have hrow : paintedBand text cycles rows cols =
      padOrClip (space :: (bandAt text (bandWidthFor cols) cycles ++ [space])) cols := if_pos hband
  have hfull : cols ≤ (space :: (bandAt text (bandWidthFor cols) cycles ++ [space])).length := by
    rw [List.length_cons, List.length_append, List.length_singleton, hlength]
    omega
  rw [hrow, padOrClip_of_le (by omega) hfull, List.getElem?_take_of_lt (by omega),
    List.getElem?_cons_succ, List.getElem?_append_left (by omega)]

end Renderer

namespace Scheduler

variable {s : Scheduler} {ops : List Op} {text : Bytes} {cols : Int}

/-- The text and one window of blanks, over and over; `count` is what `cycles` stands at. -/
def spelled (text : Bytes) (cols count : Int) : UInt8 :=
  (strip text (Renderer.bandWidthFor cols)).getD
    ((count - 1) % (text.length + Renderer.bandWidthFor cols)).toNat space

/-- What enters with a frame is the byte of the strip before its count. -/
theorem entering_frameOf (it : Interpreter) {sz : Size} (hrows : 2 ≤ sz.rows)
    (hcols : 2 ≤ sz.cols) :
    entering sz (frameOf it sz) = spelled it.params.text sz.cols it.proc.cycles := by
  have hpos := Renderer.bandWidthFor_pos sz.cols
  have hlast : (Renderer.bandWidthFor sz.cols).toNat =
      (Renderer.bandWidthFor sz.cols).toNat - 1 + 1 := by omega
  unfold entering spelled
  rw [List.getD_eq_getElem?_getD, List.getD_eq_getElem?_getD, strip_getElem? _ hpos,
    Int.sub_add_cancel, frameOf_band it ⟨by omega, by omega⟩, hlast,
    Renderer.paintedBand_getElem? _ _ hrows hcols (by omega), bandAt_last _ hpos]

/-- The terminal has this width and at least two rows at every tick. -/
def Op.Wide (cols : Int) : Op → Prop
  | .tick _ sz _ => 2 ≤ sz.rows ∧ sz.cols = cols
  | _ => True

instance (cols : Int) : DecidablePred (Op.Wide cols)
  | .tick _ sz _ => @instDecidableAnd _ _ (Int.decLe 2 sz.rows) (Int.decEq sz.cols cols)
  | .postEvent _ | .wake | .requestStop => .isTrue trivial

theorem entered_cons_of_not_renders {op : Op} (h : s.renders op = false) (ops : List Op) :
    s.entered (op :: ops) = (s.exec op).1.entered ops := by
  cases op with
  | tick ev sz now =>
    rw [entered, h, if_neg Bool.false_ne_true, List.nil_append]
  | postEvent | wake | requestStop => rfl

theorem entered_cons_of_renders {sz : Size} {now : Int} (h : s.renders (.tick none sz now) = true)
    (hsz : sz.Visible) (ops : List Op) : s.entered (.tick none sz now :: ops) =
      entering sz (frameOf s.interp sz) :: (s.exec (.tick none sz now)).1.entered ops := by
  have hdue : due s.interp now = true := (tick_rendered s sz now).symm.trans h
  have hwritten : (s.exec (.tick none sz now)).2.2 = [frameOf s.interp sz] := by
    refine (tick_written s sz now).trans (if_pos ⟨?_, hsz⟩)
    rw [hdue]
    rfl
  rw [entered, h, if_pos rfl, hwritten]
  rfl

/-- **The marquee spells its text.**  While the text and the width of the terminal stay as
they are, whatever is typed and however often the marquee is stopped, started and set to
another interval, the bytes that enter the band with the rendered frames are those of the
text and one window of blanks, in order, over and over, with none left out or shown twice. -/
theorem spells_text (hcols : 2 ≤ cols) (hops : ∀ op ∈ ops, op.Threaded)
    (hwide : ∀ op ∈ ops, op.Wide cols)
    (htext : ∀ done, done <+: ops → (s.run done).params.text = text) :
    s.entered ops = (List.range (s.renderTimes ops).length).map fun k : Nat =>
      spelled text cols (s.proc.cycles + k) := by
  induction ops generalizing s with
  | nil => rfl
  | cons op ops ih =>
    have hlater := ih (s := (s.exec op).1) (fun o ho => hops o (List.mem_cons_of_mem _ ho))
      (fun o ho => hwide o (List.mem_cons_of_mem _ ho)) fun done hdone =>
        htext (op :: done) (List.cons_prefix_cons.mpr ⟨rfl, hdone⟩)
    rcases s.exec_proc (hops op List.mem_cons_self) with ⟨sz, now, rfl, hr, -, hp⟩ | ⟨hr, hp⟩
    · obtain ⟨hrows, rfl⟩ := hwide _ List.mem_cons_self
      have hnow : s.interp.params.text = text := htext [] List.nil_prefix
      rw [entered_cons_of_renders hr ⟨by omega, by omega⟩, renderTimes_cons_of_renders hr, hlater,
        hp, entering_frameOf _ hrows hcols, hnow, List.length_cons, List.range_succ_eq_map,
        List.map_cons,
        List.map_map]
      have hfirst : s.proc.cycles + ((0 : Nat) : Int) = s.interp.proc.cycles := Int.add_zero _
      rw [hfirst]
      refine congrArg _ (List.map_congr_left fun k _ => ?_)
      change spelled text sz.cols (s.proc.cycles + 1 + k) =
        spelled text sz.cols (s.proc.cycles + (k + 1 : Nat))
      rw [Nat.cast_succ, add_right_comm, add_assoc]
    · rw [entered_cons_of_not_renders hr, renderTimes_cons_of_not_renders hr, hlater]
      have hcycles : (s.exec op).1.proc.cycles = s.proc.cycles := by
        generalize (s.exec op).1.proc = q at hp
        cases hp <;> rfl
      rw [hcycles]

/-- Two columns of a stopped and restarted marquee. -/
theorem spells_text_restarted :
    let s := (create {}).run startKeys
    let sz : Size := { rows := 2, cols := 4 }
    let typed := Interpreter.typedLines [ascii "stop_marquee", ascii "start_marquee"]
    let ops : List Op := [.tick none sz 0, .tick none sz 100] ++ typed.map .postEvent ++
      [.tick none sz 150, .tick none sz 250]
    s.entered ops = [space, 0x43, 0x53, 0x4F] := by
  intro s sz typed ops
  have hops : ∀ op ∈ ops, op.Threaded := by decide
  have hwide : ∀ op ∈ ops, op.Wide 4 := by decide
  have hall : ∀ done ∈ ops.inits, (s.run done).params.text = ascii "CSOPESY" := by decide
  have htext : ∀ done, done <+: ops → (s.run done).params.text = ascii "CSOPESY" :=
    fun done hdone => hall done ((List.mem_inits _ _).mpr hdone)
  refine (spells_text (by decide) hops hwide htext).trans ?_
  decide

end Scheduler
end Csopesy
