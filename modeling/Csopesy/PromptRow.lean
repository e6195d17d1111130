import Csopesy.Layout
import Csopesy.Interpreter
import Mathlib.Data.List.DropRight

/-! # The prompt row and the input window

The window on the input line is written twice: `visibleSlice` of
`src/features/commands/line_editor.cpp` and the `window` of `buildPromptRow` in
`src/features/marquee/renderer.cpp`.  Both show the newest bytes of the line, as many
as there is room for (`List.rtake`), so they agree at every width.  The last row of a
frame is the prompt, a space and this window (`prompt_row_shows_visibleSlice`).
-/
namespace Csopesy

def visibleSlice (buffer : Bytes) (availWidth : Int) : Bytes :=
  if availWidth ≤ 0 then []
  else if buffer.length ≤ availWidth.toNat then buffer
  else buffer.drop (buffer.length - availWidth.toNat)

/-- `window` of `buildPromptRow`. -/
def promptWindow (buffer : Bytes) (available : Int) : Bytes :=
  if available > 0 ∧ buffer ≠ [] then
    if buffer.length ≤ available.toNat then buffer
    else buffer.drop (buffer.length - available.toNat)
  else []

/-- `width` of `buildPromptRow`. -/
def promptWidth (cols : Int) : Int := if cols > 1 then cols - 1 else 0

theorem buildPromptRow_window (prompt buffer : Bytes) (cols : Int) :
    buildPromptRow prompt buffer cols =
      padOrClip (prompt ++ [space] ++
        promptWindow buffer (promptWidth cols - (prompt.length : Int) - 1)) (promptWidth cols) :=
  rfl

/-! ## The newest bytes -/

section
variable (buffer : Bytes)

theorem rtake_of_length_le {n : Nat} (h : buffer.length ≤ n) : buffer.rtake n = buffer := by
  rw [List.rtake, Nat.sub_eq_zero_of_le h, List.drop_zero]

theorem visibleSlice_eq (availWidth : Int) :
    visibleSlice buffer availWidth = buffer.rtake availWidth.toNat := by
  unfold visibleSlice
  by_cases hnone : availWidth ≤ 0
  · rw [if_pos hnone, Int.toNat_of_nonpos hnone, List.rtake_zero]
  · rw [if_neg hnone]
    by_cases hfits : buffer.length ≤ availWidth.toNat
    · rw [if_pos hfits, rtake_of_length_le buffer hfits]
    · rw [if_neg hfits, List.rtake]

theorem promptWindow_eq (available : Int) :
    promptWindow buffer available = buffer.rtake available.toNat := by
  unfold promptWindow
  by_cases hroom : available > 0 ∧ buffer ≠ []
  · rw [if_pos hroom]
    by_cases hfits : buffer.length ≤ available.toNat
    · rw [if_pos hfits, rtake_of_length_le buffer hfits]
    · rw [if_neg hfits, List.rtake]
  · rw [if_neg hroom]
    by_cases hempty : buffer = []
    · rw [hempty, List.rtake_nil]
    · have hnone : available ≤ 0 := by
        by_contra hpos
        exact hroom ⟨by omega, hempty⟩
      rw [Int.toNat_of_nonpos hnone, List.rtake_zero]

/-- The two windows agree at every width, whatever the input line. -/
theorem promptWindow_eq_visibleSlice (available : Int) :
    promptWindow buffer available = visibleSlice buffer available := by
  rw [promptWindow_eq, visibleSlice_eq]

theorem rtake_length_le (n : Nat) : (buffer.rtake n).length ≤ n := by
  rw [List.rtake, List.length_drop]
  omega

theorem visibleSlice_suffix (availWidth : Int) : visibleSlice buffer availWidth <:+ buffer := by
  rw [visibleSlice_eq]
  exact List.drop_suffix _ _

theorem visibleSlice_ne_nil {availWidth : Int} (hroom : 0 < availWidth) (hne : buffer ≠ []) :
    visibleSlice buffer availWidth ≠ [] := by
  have hpos : 0 < buffer.length := List.length_pos_of_ne_nil hne
  intro hnil
  have hlength := congrArg List.length hnil
  rw [visibleSlice_eq, List.rtake, List.length_drop, List.length_nil] at hlength
  omega

/-- A window that shows anything shows the newest byte. -/
theorem visibleSlice_getLast? {availWidth : Int} (hroom : 0 < availWidth) :
    (visibleSlice buffer availWidth).getLast? = buffer.getLast? := by
  by_cases hne : buffer = []
  · rw [hne, visibleSlice_eq, List.rtake_nil]
  · have hwindow := visibleSlice_ne_nil buffer hroom hne
    rw [List.getLast?_eq_some_getLast hwindow, List.getLast?_eq_some_getLast hne,
      (visibleSlice_suffix buffer availWidth).getLast hwindow]

theorem visibleSlice_length_le (availWidth : Int) :
    (visibleSlice buffer availWidth).length ≤ availWidth.toNat := by
  rw [visibleSlice_eq]
  exact rtake_length_le buffer _

end

namespace Renderer

/-! ## The last row of a frame -/

section
variable (params : Parameters) (proc : MarqueeProcess) (prompt buffer message : Bytes)
  {rows cols : Int}

theorem padOrClip_idem (line : Bytes) (cols : Int) :
    padOrClip (padOrClip line cols) cols = padOrClip line cols := by
  by_cases hnone : cols ≤ 0
  · unfold padOrClip
    rw [if_pos hnone, if_pos hnone]
  · rw [padOrClip_of_le (by omega) (by rw [padOrClip_length]; omega),
      List.take_of_length_le (by rw [padOrClip_length])]

theorem lastRow_eq (hr : 1 ≤ rows) (hc : 2 ≤ cols) :
    visibleRow (buildFrame params proc prompt buffer message rows cols) rows cols rows =
      padOrClip (prompt ++ [space] ++ visibleSlice buffer (cols - prompt.length - 2)) (cols - 1) := by
  have hshows : Shows params proc prompt buffer message rows cols rows
      (buildPromptRow prompt buffer cols) := .prompt
  have hwidth : promptWidth cols = cols - 1 := if_pos (by omega)
  have hlast : rowWidth rows cols rows = cols - 1 := if_pos rfl
  rw [visibleRow_buildFrame params proc prompt buffer message (by omega) hr (Int.le_refl rows)
    (hshows.layout hr), hlast, buildPromptRow_window, hwidth, padOrClip_idem,
    promptWindow_eq_visibleSlice, show cols - 1 - (prompt.length : Int) - 1 = cols - prompt.length - 2
      by omega]

/-- Every row above the last is full and ends in a line break; the last row is one column
short, and nothing but the erase sequence follows it. -/
theorem buildFrame_lastRow (hr : 1 ≤ rows) (hc : 1 ≤ cols) :
    ∃ body : List Bytes, (body.length : Int) = rows - 1 ∧ (∀ seg ∈ body, (seg.length : Int) = cols) ∧
      buildFrame params proc prompt buffer message rows cols =
        kCursorHome ++ kRowSeparator.intercalate (body ++
          [visibleRow (buildFrame params proc prompt buffer message rows cols) rows cols rows ++
            kEraseToEol]) := by
  have hlength : (paddedRows params proc prompt buffer message rows cols).length = rows.toNat := by
    rw [paddedRows, List.length_map, layout_length]
  have hshows : Shows params proc prompt buffer message rows cols rows
      (buildPromptRow prompt buffer cols) := .prompt
  have hline := hshows.layout hr
  have hlast : rowWidth rows cols rows = cols - 1 := if_pos rfl
  refine ⟨(paddedRows params proc prompt buffer message rows cols).dropLast, ?_, ?_, ?_⟩
  · rw [List.length_dropLast]
    omega
  · intro seg hseg
    have hwidth := paddedRows_length (List.dropLast_subset _ hseg)
    omega
  · rw [visibleRow_buildFrame params proc prompt buffer message hc hr (Int.le_refl rows) hline, hlast]
    conv => lhs; rw [buildFrame_eq params proc prompt buffer message hr hc]
    rw [List.getD_eq_getElem?_getD, paddedRows, List.getElem?_map, hline, Option.map_some,
      Option.getD_some, padOrClip_padOrClip _ hc]

/-- With a column to spare behind the prompt the window is not clipped. -/
theorem lastRow_unclipped (hr : 1 ≤ rows) (hc : (prompt.length : Int) + 3 ≤ cols) :
    ∃ k, visibleRow (buildFrame params proc prompt buffer message rows cols) rows cols rows =
      prompt ++ [space] ++ visibleSlice buffer (cols - prompt.length - 2) ++
        List.replicate k space := by
  have hfits := visibleSlice_length_le buffer (cols - prompt.length - 2)
  rw [lastRow_eq params proc prompt buffer message hr (by omega)]
  have hlength : ((prompt ++ [space] ++
      visibleSlice buffer (cols - prompt.length - 2)).length : Int) ≤ cols - 1 := by
    rw [List.length_append, List.length_append, List.length_singleton]
    omega
  by_cases hfull : ((prompt ++ [space] ++
      visibleSlice buffer (cols - prompt.length - 2)).length : Int) = cols - 1
  · refine ⟨0, ?_⟩
    rw [padOrClip_of_le (by omega) (by omega), List.take_of_length_le (by omega),
      List.replicate_zero, List.append_nil]
  · exact ⟨_, padOrClip_of_lt (by omega) (by omega)⟩

/-- **The prompt row.**  The renderer's window is `visibleSlice` at every width.  The
last row of every frame is the prompt, a space and that window, clipped or padded to
one column less than the terminal has; the rows above it are full and nothing is
written behind it.  With a column to spare behind the prompt a non-empty input line
shows an unclipped end of it, with its newest byte. -/
theorem prompt_row_shows_visibleSlice (hr : 1 ≤ rows) (hc : 2 ≤ cols) :
    (∀ available, promptWindow buffer available = visibleSlice buffer available) ∧
    visibleRow (buildFrame params proc prompt buffer message rows cols) rows cols rows =
      padOrClip (prompt ++ [space] ++ visibleSlice buffer (cols - prompt.length - 2)) (cols - 1) ∧
    ((visibleRow (buildFrame params proc prompt buffer message rows cols) rows cols rows).length
      : Int) = cols - 1 ∧
    (∃ body : List Bytes, (body.length : Int) = rows - 1 ∧
      (∀ seg ∈ body, (seg.length : Int) = cols) ∧
      buildFrame params proc prompt buffer message rows cols =
        kCursorHome ++ kRowSeparator.intercalate (body ++
          [visibleRow (buildFrame params proc prompt buffer message rows cols) rows cols rows ++
            kEraseToEol])) ∧
    ((prompt.length : Int) + 3 ≤ cols → buffer ≠ [] →
      visibleSlice buffer (cols - prompt.length - 2) <:+ buffer ∧
      visibleSlice buffer (cols - prompt.length - 2) ≠ [] ∧
      (visibleSlice buffer (cols - prompt.length - 2)).getLast? = buffer.getLast? ∧
      ∃ k, visibleRow (buildFrame params proc prompt buffer message rows cols) rows cols rows =
        prompt ++ [space] ++ visibleSlice buffer (cols - prompt.length - 2) ++
          List.replicate k space) := by
  have hlast := lastRow_eq params proc prompt buffer message hr hc
  refine ⟨promptWindow_eq_visibleSlice buffer, hlast, ?_,
    buildFrame_lastRow params proc prompt buffer message hr (by omega), ?_⟩
  · rw [hlast, padOrClip_length]
    omega
  · intro hroom hne
    exact ⟨visibleSlice_suffix buffer _, visibleSlice_ne_nil buffer (by omega) hne,
      visibleSlice_getLast? buffer (by omega),
      lastRow_unclipped params proc prompt buffer message hr hroom⟩

/-- A line longer than the row: the window has moved to its end. -/
theorem prompt_row_shows_tail :
    ∃ k, visibleRow (buildFrame {} {} (ascii "Command>") (ascii "0123456789ABCDEFGHIJ") [] 11 20)
      11 20 11 = ascii "Command> ABCDEFGHIJ" ++ List.replicate k space :=
  ((prompt_row_shows_visibleSlice {} {} (ascii "Command>") (ascii "0123456789ABCDEFGHIJ") []
    (show (1 : Int) ≤ 11 by decide) (show (2 : Int) ≤ 20 by decide)).2.2.2.2
    (by decide) (by decide)).2.2.2

end
end Renderer
end Csopesy
