import Csopesy.PromptRow
import Csopesy.Machine

/-! # The frame builder meets no fault

The functions of `src/features/marquee/renderer.cpp` again, statement by statement,
with every `int` and `long long` value, every conversion, every subscript, `substr` and
`erase`, and the one division checked.  For arguments that fit (`Fits`) none of the
checks fails, so the frame is the one that `Renderer.buildFrame` describes
(`buildFrame_safe`).
-/
namespace Csopesy
namespace Checked
open Machine
open Renderer (kBandRow fixedText)

/-! ## The source, checked -/

def padOrClip (line : Bytes) (cols : Int) : Result Bytes :=
  if cols ≤ 0 then return []
  else do
    let length ← int line.length
    let width ← size cols
    if length ≥ cols then substr line 0 width
    else do
      let gap ← size ((width : Int) - line.length)
      return line ++ List.replicate gap space

/-- The loop leaves at the last line; its state is `start` and `lines`. -/
def splitLines (text : Bytes) : Result (List Bytes) :=
  if text.isEmpty then return []
  else
    iterate (fun (st : Nat × List Bytes) =>
      match find text newline st.1 with
      | none => do
        let line ← substrFrom text st.1
        return .inr (st.2 ++ [line])
      | some nl => do
        let length ← size ((nl : Int) - st.1)
        let line ← substr text st.1 length
        let start ← size ((nl : Int) + 1)
        return .inl (start, st.2 ++ [line])) (text.length + 1) (0, [])

/-- `cols > 1 ? cols - 1 : 0`, here and in the output loop. -/
def promptWidth (cols : Int) : Result Int := if cols > 1 then int (cols - 1) else return 0

def promptWindow (buffer : Bytes) (available : Int) : Result Bytes :=
  if available > 0 ∧ buffer ≠ [] then do
    let w ← size available
    if buffer.length ≤ w then return buffer
    else do
      let start ← size ((buffer.length : Int) - w)
      substrFrom buffer start
  else return []

def buildPromptRow (prompt buffer : Bytes) (cols : Int) : Result Bytes := do
  let width ← promptWidth cols
  let promptSize ← int prompt.length
  let rest ← int (width - promptSize)
  let available ← int (rest - 1)
  let window ← promptWindow buffer available
  padOrClip (prompt ++ [space] ++ window) width

def scrollOffset (cycles textWidth bandWidth : Int) : Result Int := do
  let period ← longLong (textWidth + bandWidth)
  if period ≤ 0 then return 0
  else do
    let wrapped ← rem cycles period
    if wrapped < 0 then do
      let shifted ← longLong (wrapped + period)
      int shifted
    else int wrapped

def sliceRow (text : Bytes) (bandWidth offset : Int) : Result Bytes :=
  if bandWidth ≤ 0 then return []
  else do
    let windowLeft ← int (offset - bandWidth)
    let textWidth ← int text.length
    let _ ← size bandWidth
    forInt bandWidth (fun col row => do
      let index ← int (windowLeft + col)
      if 0 ≤ index ∧ index < textWidth then do
        let position ← size index
        let c ← get text position
        return row ++ [c]
      else return row ++ [space]) []

def bandWidthFor (cols : Int) : Result Int := if cols > 2 then int (cols - 2) else return 1

def bandRow (rows : Int) : Result Int :=
  if rows ≥ kBandRow + 1 then return kBandRow
  else if rows ≥ 2 then int (rows - 1)
  else return 0

def messageBudget (rows bandRow : Int) : Result Int :=
  if bandRow > 0 then do
    let below ← int (rows - bandRow)
    int (below - 1)
  else return 0

/-- The lines that are kept, and `messageCount`. -/
def newestLines (lines : List Bytes) (messageBudget : Int) : Result (List Bytes × Int) := do
  let messageCount ← int lines.length
  if messageCount > messageBudget then do
    let surplus ← int (messageCount - messageBudget)
    let lines ← eraseFront lines surplus
    return (lines, messageBudget)
  else return (lines, messageCount)

/-- The frame with the band and the welcome line. -/
def bandRows (band : Bytes) (rows bandRow : Int) : Result (List Bytes) := do
  let height ← size rows
  if bandRow > 0 then do
    let index ← int (bandRow - 1)
    let position ← size index
    let frame ← store (List.replicate height []) position ([space] ++ band ++ [space])
    if bandRow ≥ 2 then store frame 0 (ascii "Welcome to CSOPESY!") else return frame
  else return List.replicate height []

def capacity (afterFirst blockTop separatorRow : Int) (hasSeparator : Bool) : Result Int := do
  let afterLast ← int ((if hasSeparator then separatorRow else blockTop) - 1)
  let span ← int (afterLast - afterFirst)
  let capacity ← int (span + 1)
  return if capacity < 0 then 0 else capacity

def dropChrome (chrome : List Bytes) (capacity : Int) : Result (List Bytes) :=
  whileDo (fun chrome => do
    let count ← int chrome.length
    return decide (count > capacity)) popBack (chrome.length + 1) chrome

/-- `for i < count: frame[top - 1 + i] = lines[i]` -/
def placeRows (frame : List Bytes) (top : Int) (lines : List Bytes) (count : Int) :
    Result (List Bytes) :=
  forInt count (fun i frame => do
    let above ← int (top - 1)
    let row ← int (above + i)
    let position ← size row
    let source ← size i
    let line ← get lines source
    store frame position line) frame

/-- The output loop. -/
def emitRows (frame : List Bytes) (rows cols : Int) : Result Bytes :=
  forInt rows (fun row out => do
    let last ← int (rows - 1)
    let position ← size row
    let line ← get frame position
    let out := if row > 0 then out ++ kRowSeparator else out
    if row = last then do
      let width ← promptWidth cols
      let line ← padOrClip line width
      return out ++ line ++ kEraseToEol
    else return out ++ line) kCursorHome

/-- `buildFrame` up to the row of the prompt. -/
def layout (params : Parameters) (proc : MarqueeProcess) (prompt buffer message : Bytes)
    (rows cols : Int) : Result (List Bytes) := do
  let bandWidth ← bandWidthFor cols
  let textWidth ← int params.text.length
  let offset ← scrollOffset proc.cycles textWidth bandWidth
  let band ← sliceRow params.text bandWidth offset
  let bandRow ← bandRow rows
  let lines ← splitLines message
  let messageBudget ← messageBudget rows bandRow
  let (messageLines, messageCount) ← newestLines lines messageBudget
  let blockTop ← int (rows - messageCount)
  let separatorRow ← int (blockTop - 1)
  let frame ← bandRows band rows bandRow
  let afterFirst ← int (bandRow + 1)
  let capacity ← capacity afterFirst blockTop separatorRow
    (decide (bandRow > 0) && decide (separatorRow > bandRow))
  let chrome ← dropChrome (fixedText params) capacity
  let chromeCount ← int chrome.length
  let frame ← placeRows frame afterFirst chrome chromeCount
  let frame ← placeRows frame blockTop messageLines messageCount
  let last ← int (rows - 1)
  let position ← size last
  let promptRow ← buildPromptRow prompt buffer cols
  store frame position promptRow

def buildFrame (params : Parameters) (proc : MarqueeProcess) (prompt buffer message : Bytes)
    (rows cols : Int) : Result Bytes :=
  if rows ≤ 0 ∨ cols ≤ 0 then return []
  else do
    let frame ← layout params proc prompt buffer message rows cols
    let frame ← frame.mapM fun line => padOrClip line cols
    emitRows frame rows cols

/-! ## Lines and windows -/

theorem padOrClip_ok {line : Bytes} {cols : Int} (hline : line.length ≤ 2147483647)
    (hcols : cols ≤ 2147483647) : padOrClip line cols = .ok (Csopesy.padOrClip line cols) := by
  unfold padOrClip Csopesy.padOrClip
  refine ite_ok (fun _ => rfl) fun hpos => ?_
  rw [int_ok (by omega) (by omega), ok_bind, size_ok (by omega) (by omega), ok_bind]
  refine ite_ok (fun hclip => ?_) fun hpad => ?_
  · rw [substr_ok (by omega), List.drop_zero]
  · rw [size_ok (by omega) (by omega), ok_bind,
      show ((cols.toNat : Int) - line.length).toNat = cols.toNat - line.length by omega]
    rfl

/-- The loop of `splitLines` cuts at the next newline. -/
theorem splitLines_go_find (line text : Bytes) :
    splitLines.go line text =
      match text.findIdx? (· == newline) with
      | none => [line ++ text]
      | some i => (line ++ text.take i) :: splitLines.go [] (text.drop (i + 1)) := by
  induction text generalizing line with
  | nil => simp [splitLines.go]
  | cons c text ih =>
    rw [splitLines.go, List.findIdx?_cons]
    by_cases hc : c = newline
    · rw [if_pos hc, if_pos (by simpa using hc)]
      simp
    · rw [if_neg hc, if_neg (by simpa using hc), ih]
      cases text.findIdx? (· == newline) with
      | none => simp
      | some i => simp

theorem splitLines_ok {text : Bytes} (htext : text.length ≤ 2147483647) :
    splitLines text = .ok (Csopesy.splitLines text) := by
  unfold splitLines Csopesy.splitLines
  refine ite_ok (fun _ => rfl) fun _ => ?_
  -- what is left of the text gives the lines that are still to come
  refine iterate_eq (fun st : Nat × List Bytes => st.1 ≤ text.length)
    (fun st => text.length - st.1) (fun st => st.2 ++ splitLines.go [] (text.drop st.1)) ?_
    (Nat.zero_le _) (by omega)
  rintro ⟨start, lines⟩ hstart
  have hcut := splitLines_go_find [] (text.drop start)
  dsimp only at hstart ⊢
  unfold find
  cases hfind : (text.drop start).findIdx? (· == newline) with
  | none =>
    left
    rw [hfind] at hcut
    rw [hcut, Option.map_none]
    dsimp only
    rw [substrFrom_ok hstart]
    rfl
  | some i =>
    right
    rw [hfind] at hcut
    obtain ⟨hi, -⟩ := List.findIdx?_eq_some_iff_getElem.mp hfind
    rw [List.length_drop] at hi
    refine ⟨(start + i + 1, lines ++ [(text.drop start).take i]), ?_, ?_, ?_, ?_⟩
    · rw [Option.map_some]
      dsimp only
      rw [size_ok (by omega) (by omega), ok_bind, substr_ok (by omega), ok_bind,
        size_ok (by omega) (by omega), show (((start + i : Nat) : Int) - start).toNat = i by omega,
        show (((start + i : Nat) : Int) + 1).toNat = start + i + 1 by omega]
      rfl
    · show start + i + 1 ≤ text.length
      omega
    · show text.length - (start + i + 1) < text.length - start
      omega
    · rw [hcut]
      dsimp only
      rw [List.drop_drop, List.append_assoc, Nat.add_assoc]
      rfl

theorem promptWidth_ok {cols : Int} (hcols : cols ≤ 2147483647) :
    promptWidth cols = .ok (Csopesy.promptWidth cols) := by
  unfold promptWidth Csopesy.promptWidth
  exact ite_ok (fun hc => int_ok (by omega) (by omega)) fun _ => rfl

theorem promptWindow_ok {available : Int} (h : available ≤ 2147483647) {buffer : Bytes}
    (hbuffer : buffer.length ≤ 2147483647) :
    promptWindow buffer available = .ok (Csopesy.promptWindow buffer available) := by
  unfold promptWindow Csopesy.promptWindow
  refine ite_ok (fun hroom => ?_) fun _ => rfl
  rw [size_ok (by omega) (by omega), ok_bind]
  refine ite_ok (fun _ => rfl) fun hlong => ?_
  rw [size_ok (by omega) (by omega), ok_bind, substrFrom_ok (by omega),
    show ((buffer.length : Int) - available.toNat).toNat = buffer.length - available.toNat by omega]

theorem buildPromptRow_ok {prompt buffer : Bytes} (hprompt : prompt.length < 2 ^ 30)
    (hbuffer : buffer.length < 2 ^ 30) {cols : Int} (hcols : cols ≤ 2147483647) :
    buildPromptRow prompt buffer cols = .ok (Csopesy.buildPromptRow prompt buffer cols) := by
  have hwidth : 0 ≤ Csopesy.promptWidth cols ∧ Csopesy.promptWidth cols ≤ 2147483646 := by
    unfold Csopesy.promptWidth
    split <;> omega
  have hwindow := (visibleSlice_suffix buffer
    (Csopesy.promptWidth cols - (prompt.length : Int) - 1)).length_le
  rw [← promptWindow_eq_visibleSlice] at hwindow
  unfold buildPromptRow
  rw [promptWidth_ok hcols, ok_bind, int_ok (by omega) (by omega), ok_bind,
    int_ok (by omega) (by omega), ok_bind, int_ok (by omega) (by omega), ok_bind,
    promptWindow_ok (by omega) (by omega), ok_bind, buildPromptRow_window]
  refine padOrClip_ok ?_ (by omega)
  rw [List.length_append, List.length_append, List.length_singleton]
  omega

/-! ## The band -/

theorem scrollOffset_ok {cycles textWidth bandWidth : Int} (hlo : -9223372036854775808 ≤ cycles)
    (hhi : cycles ≤ 9223372036854775807) (hnonneg : 0 ≤ textWidth + bandWidth)
    (hperiod : textWidth + bandWidth ≤ 2147483647) :
    scrollOffset cycles textWidth bandWidth =
      .ok (Csopesy.scrollOffset cycles textWidth bandWidth) := by
  unfold scrollOffset Csopesy.scrollOffset
  dsimp only
  rw [longLong_ok (by omega) (by omega), ok_bind]
  refine ite_ok (fun _ => rfl) fun hperiod' => ?_
  have hpos : 0 < textWidth + bandWidth := by omega
  have hbelow := Int.tmod_lt_of_pos cycles hpos
  have habove := Int.lt_tmod_of_pos cycles hpos
  rw [rem_ok hlo hhi hpos, ok_bind]
  refine ite_ok (fun hneg => ?_) fun hnonneg' => int_ok (by omega) (by omega)
  rw [longLong_ok (by omega) (by omega), ok_bind, int_ok (by omega) (by omega)]

theorem bandWidthFor_ok {cols : Int} (hcols : cols ≤ 2147483647) :
    bandWidthFor cols = .ok (Renderer.bandWidthFor cols) := by
  unfold bandWidthFor Renderer.bandWidthFor
  exact ite_ok (fun hc => int_ok (by omega) (by omega)) fun _ => rfl

theorem bandWidthFor_bounds {cols : Int} (hpos : 0 < cols) :
    1 ≤ Renderer.bandWidthFor cols ∧ Renderer.bandWidthFor cols ≤ cols := by
  unfold Renderer.bandWidthFor
  split <;> omega

/-- An offset within the period keeps every text index in range. -/
theorem sliceRow_ok {text : Bytes} {bandWidth offset : Int} (hoffset : 0 ≤ offset)
    (hin : offset < text.length + bandWidth)
    (hfits : (text.length : Int) + bandWidth ≤ 2147483647) :
    sliceRow text bandWidth offset = .ok (Csopesy.sliceRow text bandWidth offset) := by
  unfold sliceRow Csopesy.sliceRow
  refine ite_ok (fun _ => rfl) fun hpos => ?_
  rw [int_ok (by omega) (by omega), ok_bind, int_ok (by omega) (by omega), ok_bind,
    size_ok (by omega) (by omega), ok_bind]
  -- after `col` rounds the row holds its first `col` cells
  refine forInt_eq (fun n => (List.range n).map fun col : Nat =>
    if 0 ≤ offset - bandWidth + (col : Int) ∧
        offset - bandWidth + (col : Int) < (text.length : Int) then
      text.getD (offset - bandWidth + (col : Int)).toNat space else space) (by omega) ?_
  intro col hcol
  rw [int_ok (by omega) (by omega), ok_bind, List.range_succ, List.map_append, List.map_singleton]
  by_cases hindex : 0 ≤ offset - bandWidth + (col : Int) ∧
      offset - bandWidth + (col : Int) < (text.length : Int)
  · have hlt : (offset - bandWidth + (col : Int)).toNat < text.length := by omega
    rw [if_pos hindex, if_pos hindex, size_ok (by omega) (by omega), ok_bind,
      get_ok (List.getElem?_eq_getElem hlt), ok_bind, List.getD_eq_getElem?_getD,
      List.getElem?_eq_getElem hlt]
    rfl
  · rw [if_neg hindex, if_neg hindex]
    rfl

/-! ## The rows -/

section
variable {rows : Int}

theorem bandRow_ok (hrows : rows ≤ 2147483647) : bandRow rows = .ok (Renderer.bandRow rows) := by
  unfold bandRow Renderer.bandRow
  refine ite_ok (fun _ => rfl) fun _ => ?_
  exact ite_ok (fun htwo => int_ok (by omega) (by omega)) fun _ => rfl

theorem messageBudget_ok (hr : 1 ≤ rows) (hrows : rows ≤ 2147483647) :
    messageBudget rows (Renderer.bandRow rows) = .ok (Renderer.messageBudget rows) := by
  obtain ⟨hlo, hhi⟩ := Renderer.bandRow_lt hr
  unfold messageBudget Renderer.messageBudget
  refine ite_ok (fun hband => ?_) fun _ => rfl
  rw [int_ok (by omega) (by omega), ok_bind, int_ok (by omega) (by omega)]

theorem newestLines_ok (hr : 1 ≤ rows) {message : Bytes}
    (hmessage : (Csopesy.splitLines message).length ≤ 2147483647) :
    newestLines (Csopesy.splitLines message) (Renderer.messageBudget rows) =
      .ok (Renderer.messageLines message rows, (Renderer.messageLines message rows).length) := by
  obtain ⟨hlo, hhi⟩ := Renderer.bandRow_lt hr
  have hbudget : 0 ≤ Renderer.messageBudget rows := by
    unfold Renderer.messageBudget
    split <;> omega
  unfold newestLines Renderer.messageLines
  dsimp only
  rw [int_ok (by omega) (by omega), ok_bind]
  by_cases hdrop : ((Csopesy.splitLines message).length : Int) > Renderer.messageBudget rows
  · rw [if_pos hdrop, if_pos hdrop, int_ok (by omega) (by omega), ok_bind,
      eraseFront_ok (by omega) (by omega), ok_bind, List.length_drop,
      show (((Csopesy.splitLines message).length - ((Csopesy.splitLines message).length -
        Renderer.messageBudget rows).toNat : Nat) : Int) = Renderer.messageBudget rows by omega]
    rfl
  · rw [if_neg hdrop, if_neg hdrop]
    rfl

theorem bandRows_ok (hr : 1 ≤ rows) (hrows : rows ≤ 2147483647) (params : Parameters)
    (proc : MarqueeProcess) (cols : Int) :
    bandRows (Renderer.band params proc cols) rows (Renderer.bandRow rows) =
      .ok (Renderer.bandRows params proc rows cols) := by
  obtain ⟨hlo, hhi⟩ := Renderer.bandRow_lt hr
  unfold bandRows Renderer.bandRows
  dsimp only
  rw [size_ok (by omega) (by omega), ok_bind]
  refine ite_ok (fun hband => ?_) fun _ => rfl
  rw [int_ok (by omega) (by omega), ok_bind, size_ok (by omega) (by omega), ok_bind,
    store_ok (by rw [List.length_replicate]; omega), ok_bind]
  refine ite_ok (fun _ => ?_) fun _ => rfl
  rw [store_ok (by rw [List.length_set, List.length_replicate]; omega)]

theorem capacity_ok (hr : 1 ≤ rows) (hrows : rows ≤ 2147483647) (message : Bytes) :
    capacity (Renderer.afterFirst rows) (Renderer.blockTop message rows)
        (Renderer.separatorRow message rows) (Renderer.hasSeparator message rows) =
      .ok (Renderer.capacity message rows) := by
  obtain ⟨hlo, hhi⟩ := Renderer.bandRow_lt hr
  have htop := Renderer.bandRow_lt_blockTop message hr
  have hbottom : Renderer.blockTop message rows ≤ rows := by
    unfold Renderer.blockTop
    omega
  have hbounds : -1 ≤ Renderer.afterLast message rows ∧ Renderer.afterLast message rows ≤ rows := by
    unfold Renderer.afterLast Renderer.separatorRow
    split <;> omega
  have hlast : int ((if Renderer.hasSeparator message rows then Renderer.separatorRow message rows
      else Renderer.blockTop message rows) - 1) = .ok (Renderer.afterLast message rows) :=
    int_ok (x := Renderer.afterLast message rows) (by omega) (by omega)
  have hfirst : Renderer.afterFirst rows = Renderer.bandRow rows + 1 := rfl
  unfold capacity Renderer.capacity
  rw [hlast, ok_bind, int_ok (by omega) (by omega), ok_bind, int_ok (by omega) (by omega), ok_bind]
  rfl

end

theorem dropChrome_ok {chrome : List Bytes} {capacity : Int} (hcapacity : 0 ≤ capacity)
    (hchrome : chrome.length ≤ 2147483647) :
    dropChrome chrome capacity = .ok (chrome.take capacity.toNat) := by
  unfold dropChrome
  refine whileDo_eq (fun chrome => chrome.length ≤ 2147483647) List.length
    (fun chrome => chrome.take capacity.toNat) ?_ hchrome (Nat.lt_succ_self _)
  intro chrome hlength
  rw [int_ok (by omega) (by omega), ok_bind]
  by_cases hmore : (chrome.length : Int) > capacity
  · right
    have hne : chrome ≠ [] := by
      rintro rfl
      rw [List.length_nil] at hmore
      omega
    refine ⟨chrome.dropLast, by rw [decide_eq_true hmore]; rfl, popBack_ok hne, ?_, ?_, ?_⟩
    · rw [List.length_dropLast]
      omega
    · rw [List.length_dropLast]
      omega
    · rw [List.dropLast_eq_take, List.take_take, Nat.min_eq_left (by omega)]
  · left
    exact ⟨by rw [decide_eq_false hmore]; rfl, List.take_of_length_le (by omega)⟩

theorem placeRows_take_succ {frame : List Bytes} {top : Int} {lines : List Bytes} {i : Nat}
    {line : Bytes} (h : lines[i]? = some line) :
    Renderer.placeRows frame top (lines.take (i + 1)) =
      (Renderer.placeRows frame top (lines.take i)).set (top + i).toNat line := by
  induction lines generalizing frame top i with
  | nil => simp at h
  | cons l lines ih =>
    cases i with
    | zero =>
      rw [List.getElem?_cons_zero, Option.some.injEq] at h
      subst h
      rw [Int.natCast_zero, Int.add_zero]
      rfl
    | succ i =>
      rw [List.getElem?_cons_succ] at h
      rw [List.take_succ_cons, List.take_succ_cons, Renderer.placeRows, Renderer.placeRows, ih h,
        show top + 1 + (i : Int) = top + ((i + 1 : Nat) : Int) by omega]

/-- A block that fits the frame is placed row by row. -/
theorem placeRows_ok {frame lines : List Bytes} {top : Int} (htop : 1 ≤ top)
    (hfit : top - 1 + lines.length ≤ frame.length) (hframe : frame.length ≤ 2147483647) :
    placeRows frame top lines lines.length =
      .ok (Renderer.placeRows frame (top - 1) lines) := by
  have hall : lines = lines.take ((lines.length : Int)).toNat := by
    rw [Int.toNat_natCast, List.take_length]
  conv => rhs; rw [hall]
  unfold placeRows
  -- after `i` rounds the first `i` lines are placed
  refine forInt_eq (fun n => Renderer.placeRows frame (top - 1) (lines.take n)) (by omega) ?_
  intro i hi
  have hlt : i < lines.length := by omega
  rw [int_ok (by omega) (by omega), ok_bind, int_ok (by omega) (by omega), ok_bind,
    size_ok (by omega) (by omega), ok_bind, size_ok (by omega) (by omega), ok_bind,
    Int.toNat_natCast, get_ok (List.getElem?_eq_getElem hlt), ok_bind,
    store_ok (by rw [Renderer.placeRows_length]; omega),
    placeRows_take_succ (List.getElem?_eq_getElem hlt)]

theorem emitRows_ok {frame : List Bytes} {rows cols : Int} (hr : 1 ≤ rows)
    (hrows : rows ≤ 2147483647) (hcols : cols ≤ 2147483647) (hframe : frame.length = rows.toNat)
    (hlines : ∀ line ∈ frame, line.length ≤ 2147483647) :
    emitRows frame rows cols =
      .ok (kCursorHome ++ (List.range rows.toNat).flatMap (Renderer.emitRow frame rows cols)) := by
  unfold emitRows
  have hstart : kCursorHome =
      kCursorHome ++ (List.range 0).flatMap (Renderer.emitRow frame rows cols) := by
    rw [List.range_zero, List.flatMap_nil, List.append_nil]
  conv => lhs; rw [hstart]
  refine forInt_eq (fun n => kCursorHome ++
    (List.range n).flatMap (Renderer.emitRow frame rows cols)) hrows ?_
  intro row hrow
  have hlt : row < frame.length := by omega
  have hline := hlines _ (List.getElem_mem hlt)
  have hget : frame.getD row [] = frame[row] := by
    rw [List.getD_eq_getElem?_getD, List.getElem?_eq_getElem hlt]
    rfl
  have hseparator : ∀ out : Bytes, (if (row : Int) > 0 then out ++ kRowSeparator else out) =
      out ++ if row > 0 then kRowSeparator else [] := by
    intro out
    by_cases hfirst : row > 0
    · rw [if_pos (by omega), if_pos hfirst]
    · rw [if_neg (by omega), if_neg hfirst, List.append_nil]
  rw [int_ok (by omega) (by omega), ok_bind, size_ok (by omega) (by omega), ok_bind,
    Int.toNat_natCast, get_ok (List.getElem?_eq_getElem hlt), ok_bind, hseparator, List.range_succ,
    List.flatMap_append, List.flatMap_singleton]
  unfold Renderer.emitRow
  rw [hget]
  by_cases hlast : (row : Int) = rows - 1
  · have hwidth : Csopesy.promptWidth cols ≤ 2147483647 := by
      unfold Csopesy.promptWidth
      split <;> omega
    rw [if_pos hlast, if_pos hlast, promptWidth_ok hcols, ok_bind, padOrClip_ok hline hwidth, ok_bind]
    simp only [List.append_assoc]
    rfl
  · rw [if_neg hlast, if_neg hlast]
    simp only [List.append_assoc]
    rfl

/-! ## The whole frame -/

/-- What the types of the arguments promise, and sizes below 2^30. -/
structure Fits (params : Parameters) (proc : MarqueeProcess) (prompt buffer message : Bytes)
    (rows cols : Int) : Prop where
  rows_int : intMin ≤ rows ∧ rows ≤ intMax
  cols_int : intMin ≤ cols ∧ cols ≤ intMax
  cycles_longLong : longLongMin ≤ proc.cycles ∧ proc.cycles ≤ longLongMax
  text_lt : params.text.length < 2 ^ 30
  developers_lt : params.developers.length < 2 ^ 30
  developer_lt : ∀ d ∈ params.developers, d.length < 2 ^ 30
  versionDate_lt : params.versionDate.length < 2 ^ 30
  prompt_lt : prompt.length < 2 ^ 30
  buffer_lt : buffer.length < 2 ^ 30
  message_lt : message.length < 2 ^ 30
  period_int : (params.text.length : Int) + Renderer.bandWidthFor cols ≤ intMax

theorem splitLines_go_length (line text : Bytes) :
    (splitLines.go line text).length ≤ text.length + 1 ∧
      ∀ l ∈ splitLines.go line text, l.length ≤ line.length + text.length := by
  induction text generalizing line with
  | nil => simp [splitLines.go]
  | cons c text ih =>
    rw [splitLines.go]
    by_cases hc : c = newline
    · obtain ⟨hcount, hlength⟩ := ih []
      rw [if_pos hc, List.length_cons, List.length_cons]
      refine ⟨by omega, fun l hl => ?_⟩
      rcases List.mem_cons.mp hl with rfl | hl
      · omega
      · have hle := hlength l hl
        rw [List.length_nil] at hle
        omega
    · obtain ⟨hcount, hlength⟩ := ih (line ++ [c])
      rw [if_neg hc, List.length_cons]
      refine ⟨by omega, fun l hl => ?_⟩
      have hle := hlength l hl
      rw [List.length_append, List.length_singleton] at hle
      omega

theorem splitLines_length (text : Bytes) :
    (Csopesy.splitLines text).length ≤ text.length + 1 ∧
      ∀ l ∈ Csopesy.splitLines text, l.length ≤ text.length := by
  unfold Csopesy.splitLines
  split
  · exact ⟨Nat.zero_le _, fun l hl => absurd hl List.not_mem_nil⟩
  · obtain ⟨hcount, hlength⟩ := splitLines_go_length [] text
    refine ⟨hcount, fun l hl => ?_⟩
    have hle := hlength l hl
    rw [List.length_nil] at hle
    omega

section
variable {params : Parameters} {proc : MarqueeProcess} {prompt buffer message : Bytes}
  {rows cols : Int}

theorem Fits.fixedText_length (h : Fits params proc prompt buffer message rows cols) :
    (fixedText params).length ≤ 2147483647 ∧ ∀ l ∈ fixedText params, l.length ≤ 2147483647 := by
  have hdevelopers := h.developers_lt
  have hdate := h.versionDate_lt
  unfold fixedText
  constructor
  · simp only [List.length_append, List.length_cons, List.length_nil]
    omega
  · intro l hl
    simp only [List.mem_append, List.mem_cons, List.not_mem_nil, or_false] at hl
    rcases hl with ((rfl | rfl) | hname) | (rfl | rfl)
    · decide
    · decide
    · exact Nat.le_trans (Nat.le_of_lt (h.developer_lt l hname)) (by decide)
    · decide
    · split
      · decide
      · rw [List.length_append, show (ascii "Version date: ").length = 14 by decide]
        omega

/-- No row is longer than an `int` can say, so none is too long to be padded. -/
theorem Fits.layout_length (h : Fits params proc prompt buffer message rows cols) (hc : 0 < cols) :
    ∀ l ∈ Renderer.layout params proc prompt buffer message rows cols, l.length ≤ 2147483647 := by
  obtain ⟨-, hcols : cols ≤ 2147483647⟩ := h.cols_int
  obtain ⟨-, hfixed⟩ := h.fixedText_length
  refine Renderer.layout_forall (Nat.zero_le _) ?_ (by decide) hfixed ?_ ?_
  · rw [List.length_append, List.length_append, List.length_singleton, Renderer.band, sliceRow_length]
    unfold Renderer.bandWidthFor
    split <;> omega
  · intro l hl
    obtain ⟨-, hlength⟩ := splitLines_length message
    have hle := hlength l hl
    have hmessage := h.message_lt
    omega
  · rw [Csopesy.buildPromptRow, padOrClip_length]
    split <;> omega

/-- The fixed text ends above the prompt row. -/
theorem chrome_fits (params : Parameters) (message : Bytes) (hr : 1 ≤ rows) :
    Renderer.afterFirst rows - 1 + (Renderer.chrome params message rows).length ≤ rows := by
  obtain ⟨hlo, hhi⟩ := Renderer.bandRow_lt hr
  have htop := Renderer.bandRow_lt_blockTop message hr
  have hle : (Renderer.chrome params message rows).length ≤
      (Renderer.capacity message rows).toNat := by
    unfold Renderer.chrome
    exact List.length_take_le _ _
  have hbottom : Renderer.blockTop message rows ≤ rows := by
    unfold Renderer.blockTop
    omega
  have hcapacity : ((Renderer.capacity message rows).toNat : Int) ≤ rows - Renderer.bandRow rows := by
    unfold Renderer.capacity Renderer.afterLast Renderer.separatorRow Renderer.afterFirst
    dsimp only
    split <;> split <;> omega
  unfold Renderer.afterFirst
  omega

theorem Fits.layout_ok (h : Fits params proc prompt buffer message rows cols) (hr : 1 ≤ rows)
    (hc : 0 < cols) : layout params proc prompt buffer message rows cols =
      .ok (Renderer.layout params proc prompt buffer message rows cols) := by
  obtain ⟨-, hrows : rows ≤ 2147483647⟩ := h.rows_int
  obtain ⟨-, hcols : cols ≤ 2147483647⟩ := h.cols_int
  obtain ⟨hlo, hhi⟩ := h.cycles_longLong
  have hperiod : (params.text.length : Int) + Renderer.bandWidthFor cols ≤ 2147483647 :=
    h.period_int
  have hmessage := h.message_lt
  obtain ⟨hpos, -⟩ := bandWidthFor_bounds hc
  obtain ⟨hoffset, hin⟩ := scrollOffset_mem proc.cycles
    (show 0 < (params.text.length : Int) + Renderer.bandWidthFor cols by omega)
  have hband : sliceRow params.text (Renderer.bandWidthFor cols)
      (Csopesy.scrollOffset proc.cycles params.text.length (Renderer.bandWidthFor cols)) =
        .ok (Renderer.band params proc cols) := sliceRow_ok hoffset hin hperiod
  obtain ⟨hnone, habove⟩ := Renderer.bandRow_lt hr
  have htop := Renderer.bandRow_lt_blockTop message hr
  have hblock : Renderer.blockTop message rows =
    rows - ((Renderer.messageLines message rows).length : Int) := rfl
  have hseparator : Renderer.separatorRow message rows = Renderer.blockTop message rows - 1 := rfl
  have hfirst : Renderer.afterFirst rows = Renderer.bandRow rows + 1 := rfl
  have hcapacity : capacity (Renderer.afterFirst rows) (Renderer.blockTop message rows)
      (Renderer.separatorRow message rows) (decide (Renderer.bandRow rows > 0) &&
        decide (Renderer.separatorRow message rows > Renderer.bandRow rows)) =
          .ok (Renderer.capacity message rows) := capacity_ok hr hrows message
  have hnonneg : 0 ≤ Renderer.capacity message rows := by
    unfold Renderer.capacity
    dsimp only
    split <;> omega
  obtain ⟨hfixed, -⟩ := h.fixedText_length
  have hdrop : dropChrome (fixedText params) (Renderer.capacity message rows) =
      .ok (Renderer.chrome params message rows) := dropChrome_ok hnonneg hfixed
  have hchrome := chrome_fits params message hr
  obtain ⟨hlines, -⟩ := splitLines_length message
  have hlength := Renderer.bandRows_length params proc rows cols
  unfold layout Renderer.layout
  dsimp only
  -- the band, the budget of the message and the block it leaves
  rw [bandWidthFor_ok hcols, ok_bind, int_ok (by omega) (by omega), ok_bind,
    scrollOffset_ok hlo hhi (by omega) hperiod, ok_bind, hband, ok_bind, bandRow_ok hrows, ok_bind, splitLines_ok (by omega), ok_bind,
    messageBudget_ok hr hrows, ok_bind, newestLines_ok hr (by omega), ok_bind]
  dsimp only
  rw [← hblock, int_ok (by omega) (by omega), ok_bind, ← hseparator, int_ok (by omega) (by omega),
    ok_bind, bandRows_ok hr hrows, ok_bind, ← hfirst, int_ok (by omega) (by omega), ok_bind,
    hcapacity, ok_bind, hdrop, ok_bind, int_ok (by omega) (by omega), ok_bind]
  -- the three blocks are placed below one another
  rw [placeRows_ok (by omega) (by omega) (by omega), ok_bind,
    placeRows_ok (by omega) (by rw [Renderer.placeRows_length]; omega)
      (by rw [Renderer.placeRows_length]; omega), ok_bind,
    int_ok (by omega) (by omega), ok_bind, size_ok (by omega) (by omega), ok_bind,
    buildPromptRow_ok h.prompt_lt h.buffer_lt hcols, ok_bind,
    store_ok (by rw [Renderer.placeRows_length, Renderer.placeRows_length]; omega), hseparator]

/-- **The frame builder meets no fault.**  It returns at once at a size without rows or
columns; at every other size each subscript, `substr` and `erase` stays inside its
container, no integer overflows and the scroll period is not zero, so that what it
returns is the frame. -/
theorem buildFrame_safe (h : Fits params proc prompt buffer message rows cols) :
    (rows ≤ 0 ∨ cols ≤ 0 → buildFrame params proc prompt buffer message rows cols = .ok []) ∧
    buildFrame params proc prompt buffer message rows cols =
      .ok (Renderer.buildFrame params proc prompt buffer message rows cols) := by
  refine ⟨fun hdegenerate => if_pos hdegenerate, ?_⟩
  unfold buildFrame Renderer.buildFrame
  refine ite_ok (fun _ => rfl) fun hsize => ?_
  have hr : 1 ≤ rows := by omega
  have hc : 0 < cols := by omega
  obtain ⟨-, hrows : rows ≤ 2147483647⟩ := h.rows_int
  obtain ⟨-, hcols : cols ≤ 2147483647⟩ := h.cols_int
  have hpadded : (Renderer.layout params proc prompt buffer message rows cols).mapM
      (fun line => padOrClip line cols) =
        .ok ((Renderer.layout params proc prompt buffer message rows cols).map
          (Csopesy.padOrClip · cols)) :=
    mapM_ok fun line hline => padOrClip_ok (h.layout_length hc line hline) hcols
  rw [h.layout_ok hr hc, ok_bind, hpadded, ok_bind,
    emitRows_ok hr hrows hcols (by rw [List.length_map, Renderer.layout_length])]
  intro line hline
  obtain ⟨row, -, rfl⟩ := List.mem_map.mp hline
  rw [padOrClip_length]
  omega

/-- A message longer than its budget on a small terminal. -/
theorem buildFrame_safe_small :
    buildFrame {} { state := .running, cycles := -5 } (ascii "Command>") (ascii "help")
        (ascii "one\ntwo\nthree") 5 9 =
      .ok (Renderer.buildFrame {} { state := .running, cycles := -5 } (ascii "Command>")
        (ascii "help") (ascii "one\ntwo\nthree") 5 9) :=
  (buildFrame_safe
    { rows_int := by decide
      cols_int := by decide
      cycles_longLong := by decide
      text_lt := by decide
      developers_lt := by decide
      developer_lt := by decide
      versionDate_lt := by decide
      prompt_lt := by decide
      buffer_lt := by decide
      message_lt := by decide
      period_int := by decide }).2

end
end Checked
end Csopesy
