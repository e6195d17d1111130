import Csopesy.Scrolling

/-! # What each row of a frame shows

`Shows` says what a frame is for, row by row: the prompt in the last row, the newest
message lines above it, the band in its row, the welcome line in the first row, the
fixed text below the band as far as a blank row remains before the message block,
and blanks elsewhere.  Every row shows exactly one line, so the parts never
overwrite one another, and the visible rows of `buildFrame` are these lines, each
clipped or padded to its width (`frame_layout`).

Message lines that do not fit are left out, oldest first.  The fixed text below the
band has given way by then, but the welcome line has not
(`fixedText_gives_way_iff`).
-/
namespace Csopesy

/-- The lines of a message; none for an empty one. -/
def textLines (message : Bytes) : List Bytes :=
  if message = [] then [] else message.splitOn newline

theorem splitLines_go_eq (line text : Bytes) :
    splitLines.go line text = (text.splitOn newline).modifyHead (line ++ ·) := by
  induction text generalizing line with
  | nil => rw [splitLines.go, List.splitOn_nil, List.modifyHead_cons, List.append_nil]
  | cons c text ih =>
    rw [splitLines.go, splitOn_newline_cons]
    by_cases hc : c = newline
    · rw [if_pos hc, if_pos hc, ih, List.modifyHead_cons, List.append_nil, modifyHead_nil_append]
    · rw [if_neg hc, if_neg hc, ih, List.modifyHead_modifyHead]
      simp [Function.comp_def]

theorem splitLines_eq (message : Bytes) : splitLines message = textLines message := by
  unfold splitLines textLines
  by_cases h : message = []
  · rw [if_pos h, if_pos (by simpa using h)]
  · rw [if_neg h, if_neg (by simpa using h), splitLines_go_eq, modifyHead_nil_append]

namespace Renderer

/-! ## The parts of a frame -/

/-- The row of the band, 0 for none. -/
def bandPlace (rows : Int) : Int := if 4 ≤ rows then 3 else if rows = 1 then 0 else rows - 1

/-- How many lines of the message are shown. -/
def shownLines (message : Bytes) (rows : Int) : Nat :=
  if bandPlace rows = 0 then 0
  else min (textLines message).length (rows - bandPlace rows - 1).toNat

/-- The last lines of the message, in order. -/
def messageBlock (message : Bytes) (rows : Int) : List Bytes :=
  (textLines message).drop ((textLines message).length - shownLines message rows)

/-- `n` rows below the band leave a blank row before the message block, or before the
prompt row when the block is empty. -/
def LeavesBlank (message : Bytes) (rows : Int) (n : Nat) : Prop :=
  bandPlace rows + n + 1 < rows - shownLines message rows

instance (message : Bytes) (rows : Int) : DecidablePred (LeavesBlank message rows) := fun _ =>
  inferInstanceAs (Decidable (_ < _))

/-- The longest prefix of the fixed text that leaves a blank row. -/
def fixedPrefix (params : Parameters) (message : Bytes) (rows : Int) : List Bytes :=
  (fixedText params).take (Nat.findGreatest (LeavesBlank message rows) (fixedText params).length)

section
variable (params : Parameters) (proc : MarqueeProcess) (prompt buffer message : Bytes)
  (rows cols : Int)

/-- What a row shows, before it is clipped or padded. -/
inductive Shows : Int → Bytes → Prop
  | prompt : Shows rows (buildPromptRow prompt buffer cols)
  | message (j : Nat) (line : Bytes) (h : (messageBlock message rows)[j]? = some line) :
      Shows (rows - shownLines message rows + j) line
  | band (h : 1 ≤ bandPlace rows) :
      Shows (bandPlace rows)
        ([space] ++ bandAt params.text (bandWidthFor cols) proc.cycles ++ [space])
  | welcome (h : 2 ≤ bandPlace rows) : Shows 1 (ascii "Welcome to CSOPESY!")
  | fixed (i : Nat) (line : Bytes) (h : (fixedPrefix params message rows)[i]? = some line) :
      Shows (bandPlace rows + 1 + i) line
  | blank (row : Int) (hlo : 1 ≤ row) (hblock : row < rows - shownLines message rows)
      (hband : row ≠ bandPlace rows) (hwelcome : ¬ (row = 1 ∧ 2 ≤ bandPlace rows))
      (hfixed : ¬ (bandPlace rows < row ∧
        row ≤ bandPlace rows + (fixedPrefix params message rows).length)) :
      Shows row []

end

/-! ## The local variables of `buildFrame` -/

section
variable (params : Parameters) (proc : MarqueeProcess) (prompt buffer message : Bytes)
  {rows : Int} (cols : Int)

theorem bandRow_eq (hr : 1 ≤ rows) : bandRow rows = bandPlace rows := by
  unfold bandRow bandPlace kBandRow
  by_cases hfour : 4 ≤ rows
  · rw [if_pos (by omega), if_pos hfour]
  · rw [if_neg (by omega), if_neg hfour]
    by_cases hone : rows = 1
    · rw [if_neg (by omega), if_pos hone]
    · rw [if_pos (by omega), if_neg hone]

theorem bandPlace_bounds (hr : 1 ≤ rows) :
    0 ≤ bandPlace rows ∧ bandPlace rows ≤ rows - 1 ∧ (bandPlace rows = 0 → rows = 1) := by
  unfold bandPlace
  split
  · omega
  · split <;> omega

theorem messageBudget_eq (hr : 1 ≤ rows) :
    messageBudget rows = if bandPlace rows = 0 then 0 else rows - bandPlace rows - 1 := by
  obtain ⟨hlo, -, -⟩ := bandPlace_bounds hr
  unfold messageBudget
  rw [bandRow_eq hr]
  by_cases hnone : bandPlace rows = 0
  · rw [if_neg (by omega), if_pos hnone]
  · rw [if_pos (by omega), if_neg hnone]

theorem shownLines_eq (hr : 1 ≤ rows) :
    shownLines message rows = min (textLines message).length (messageBudget rows).toNat := by
  rw [messageBudget_eq hr]
  unfold shownLines
  split
  · rw [Int.toNat_zero, Nat.min_zero]
  · rfl

theorem messageLines_eq (hr : 1 ≤ rows) :
    messageLines message rows = messageBlock message rows := by
  have hbudget := messageBudget_eq hr
  obtain ⟨-, hhi, -⟩ := bandPlace_bounds hr
  have hnonneg : 0 ≤ messageBudget rows := by
    rw [hbudget]
    split <;> omega
  unfold messageLines messageBlock
  dsimp only
  rw [splitLines_eq, shownLines_eq message hr]
  by_cases hdrop : ((textLines message).length : Int) > messageBudget rows
  · rw [if_pos hdrop]
    congr 1
    omega
  · rw [if_neg hdrop, Nat.min_eq_left (by omega), Nat.sub_self, List.drop_zero]

theorem messageBlock_length (rows : Int) :
    (messageBlock message rows).length = shownLines message rows := by
  have hle : shownLines message rows ≤ (textLines message).length := by
    unfold shownLines
    split
    · exact Nat.zero_le _
    · exact Nat.min_le_left _ _
  unfold messageBlock
  rw [List.length_drop]
  omega

theorem blockTop_eq (hr : 1 ≤ rows) :
    blockTop message rows = rows - shownLines message rows := by
  unfold blockTop
  rw [messageLines_eq message hr, messageBlock_length]

theorem shownLines_le (hr : 1 ≤ rows) :
    bandPlace rows + shownLines message rows + 1 ≤ rows := by
  obtain ⟨hlo, hhi, -⟩ := bandPlace_bounds hr
  rw [shownLines_eq message hr, messageBudget_eq hr]
  split <;> omega

theorem capacity_eq (hr : 1 ≤ rows) :
    (capacity message rows).toNat =
      (rows - shownLines message rows - bandPlace rows - 2).toNat := by
  obtain ⟨hlo, hhi, hnone⟩ := bandPlace_bounds hr
  have hshown := shownLines_le message hr
  unfold capacity afterLast hasSeparator separatorRow afterFirst
  rw [blockTop_eq message hr, bandRow_eq hr]
  simp only [Bool.and_eq_true, decide_eq_true_eq]
  by_cases hseparator : bandPlace rows > 0 ∧
      rows - (shownLines message rows : Int) - 1 > bandPlace rows
  · simp only [if_pos hseparator]
    split <;> omega
  · -- the message block or the prompt row follows the band directly
    simp only [if_neg hseparator]
    split <;> omega

theorem chrome_eq (hr : 1 ≤ rows) :
    chrome params message rows = fixedPrefix params message rows := by
  unfold chrome fixedPrefix
  rw [capacity_eq message hr, List.take_eq_take_min]
  congr 1
  symm
  rw [Nat.findGreatest_eq_iff]
  unfold LeavesBlank
  refine ⟨Nat.min_le_right _ _, ?_, ?_⟩
  · intro hne
    omega
  · intro n hn hle
    omega

/-! ## Every row shows one line -/

theorem fixedPrefix_le (rows : Int) : (fixedPrefix params message rows).length = 0 ∨
    bandPlace rows + (fixedPrefix params message rows).length + 1 <
      rows - shownLines message rows := by
  unfold fixedPrefix
  rw [List.length_take]
  by_cases hzero : Nat.findGreatest (LeavesBlank message rows) (fixedText params).length = 0
  · left
    rw [hzero, Nat.zero_min]
  · right
    have hblank : LeavesBlank message rows _ := (Nat.findGreatest_eq_iff.mp rfl).2.1 hzero
    rw [Nat.min_eq_left (Nat.findGreatest_le _)]
    exact hblank

theorem bandRows_getElem? (hr : 1 ≤ rows) {row : Int}
    (hlo : 1 ≤ row) (hhi : row ≤ rows) :
    (bandRows params proc rows cols)[(row - 1).toNat]? =
      some (if row = 1 ∧ 2 ≤ bandPlace rows then ascii "Welcome to CSOPESY!"
        else if row = bandPlace rows then [space] ++ band params proc cols ++ [space] else []) := by
  obtain ⟨-, hle, -⟩ := bandPlace_bounds hr
  have hblank : (List.replicate rows.toNat ([] : Bytes))[(row - 1).toNat]? = some [] := by
    rw [List.getElem?_replicate, if_pos (by omega)]
  unfold bandRows
  dsimp only
  rw [bandRow_eq hr]
  by_cases hb : bandPlace rows > 0
  · -- the frame with the band, before the welcome line
    have hband : ((List.replicate rows.toNat ([] : Bytes)).set (bandPlace rows - 1).toNat
        ([space] ++ band params proc cols ++ [space]))[(row - 1).toNat]? =
          some (if row = bandPlace rows then [space] ++ band params proc cols ++ [space]
            else []) := by
      by_cases hrow : row = bandPlace rows
      · rw [if_pos hrow, hrow, List.getElem?_set_self (by rw [List.length_replicate]; omega)]
      · rw [if_neg hrow, List.getElem?_set_ne (by omega), hblank]
    rw [if_pos hb]
    by_cases htwo : bandPlace rows ≥ 2
    · rw [if_pos htwo]
      by_cases hone : row = 1
      · rw [if_pos ⟨hone, htwo⟩, hone, Int.sub_self, Int.toNat_zero,
          List.getElem?_set_self (by rw [List.length_set, List.length_replicate]; omega)]
      · rw [if_neg (fun h => hone h.1), List.getElem?_set_ne (by omega), hband]
    · rw [if_neg htwo, if_neg (fun h => htwo h.2), hband]
  · rw [if_neg hb, if_neg (by omega), if_neg (by omega), hblank]

/-- **The layout holds what each row shows.** -/
theorem Shows.layout {params : Parameters} {proc : MarqueeProcess} {prompt buffer message : Bytes}
    {cols : Int} (hr : 1 ≤ rows) {row : Int} {line : Bytes}
    (h : Shows params proc prompt buffer message rows cols row line) :
    (Renderer.layout params proc prompt buffer message rows cols)[(row - 1).toNat]? = some line := by
  obtain ⟨hlo, hhi, hnone⟩ := bandPlace_bounds hr
  have hshown := shownLines_le message hr
  have hfixed := fixedPrefix_le params message rows
  unfold Renderer.layout
  dsimp only
  rw [chrome_eq params message hr, messageLines_eq message hr, blockTop_eq message hr]
  unfold afterFirst
  rw [bandRow_eq hr]
  have hrow : ∀ {row : Int}, 1 ≤ row → row ≤ rows → _ := fun hlo hhi =>
    bandRows_getElem? params proc cols hr hlo hhi
  have hlength := bandRows_length params proc rows cols
  cases h with
  | prompt =>
    rw [List.getElem?_set_self (by rw [placeRows_length, placeRows_length, hlength]; omega)]
  | message j line h =>
    have hj : j < (messageBlock message rows).length := (List.getElem?_eq_some_iff.mp h).1
    have hblock := messageBlock_length message rows
    rw [List.getElem?_set_ne (by omega), placeRows_getElem?_add (by omega)
      (by rw [placeRows_length, hlength]; omega) hj (by omega), h]
  | band h =>
    rw [List.getElem?_set_ne (by omega), placeRows_getElem?_of_lt (by omega),
      placeRows_getElem?_of_lt (by omega), hrow h (by omega), if_neg (by omega), if_pos rfl]
    rfl
  | welcome h =>
    rw [List.getElem?_set_ne (by omega), placeRows_getElem?_of_lt (by omega),
      placeRows_getElem?_of_lt (by omega), hrow (by omega) (by omega), if_pos ⟨rfl, h⟩]
  | fixed i line h =>
    have hi : i < (fixedPrefix params message rows).length := (List.getElem?_eq_some_iff.mp h).1
    rw [List.getElem?_set_ne (by omega), placeRows_getElem?_of_lt (by omega),
      placeRows_getElem?_add (by omega) (by rw [hlength]; omega) hi (by omega), h]
  | blank row hlo' hblock hband hwelcome hnot =>
    rw [List.getElem?_set_ne (by omega), placeRows_getElem?_of_lt (by omega)]
    have hkept : (placeRows (bandRows params proc rows cols) (bandPlace rows + 1 - 1)
        (fixedPrefix params message rows))[(row - 1).toNat]? =
          (bandRows params proc rows cols)[(row - 1).toNat]? := by
      by_cases habove : row ≤ bandPlace rows
      · exact placeRows_getElem?_of_lt (by omega)
      · exact placeRows_getElem?_of_le (by omega) (by omega)
    rw [hkept, hrow hlo' (by omega), if_neg hwelcome, if_neg hband]

/-- Every row of the terminal shows something. -/
theorem shows_exists (hr : 1 ≤ rows) {row : Int} (hlo : 1 ≤ row) (hhi : row ≤ rows) :
    ∃ line, Shows params proc prompt buffer message rows cols row line := by
  by_cases hprompt : row = rows
  · subst hprompt
    exact ⟨_, .prompt⟩
  by_cases hblock : rows - shownLines message rows ≤ row
  · obtain ⟨j, hj⟩ := Int.eq_ofNat_of_zero_le (Int.sub_nonneg.mpr hblock)
    have hlt : j < (messageBlock message rows).length := by
      rw [messageBlock_length]
      omega
    rw [show row = rows - shownLines message rows + j by omega]
    exact ⟨_, .message j _ (List.getElem?_eq_getElem hlt)⟩
  by_cases hband : row = bandPlace rows
  · rw [hband]
    exact ⟨_, .band (by omega)⟩
  by_cases hwelcome : row = 1 ∧ 2 ≤ bandPlace rows
  · rw [hwelcome.1]
    exact ⟨_, .welcome hwelcome.2⟩
  by_cases hfixed : bandPlace rows < row ∧
      row ≤ bandPlace rows + (fixedPrefix params message rows).length
  · obtain ⟨i, hi⟩ := Int.eq_ofNat_of_zero_le (show 0 ≤ row - bandPlace rows - 1 by omega)
    have hlt : i < (fixedPrefix params message rows).length := by omega
    rw [show row = bandPlace rows + 1 + i by omega]
    exact ⟨_, .fixed i _ (List.getElem?_eq_getElem hlt)⟩
  exact ⟨_, .blank row hlo (by omega) hband hwelcome hfixed⟩

/-! ## The visible rows -/

/-- The written bytes are the visible rows, between the home and the erase sequence. -/
theorem buildFrame_rows (hr : 1 ≤ rows) (hc : 1 ≤ cols) :
    buildFrame params proc prompt buffer message rows cols =
      kCursorHome ++ kRowSeparator.intercalate ((List.range rows.toNat).map fun i : Nat =>
        visibleRow (buildFrame params proc prompt buffer message rows cols) rows cols (i + 1) ++
          if (i : Int) + 1 = rows then kEraseToEol else []) := by
  obtain ⟨n, rfl⟩ : ∃ n : Nat, rows = n + 1 := ⟨(rows - 1).toNat, by omega⟩
  have hlength := layout_length params proc prompt buffer message (n + 1) cols
  -- row `i` is read back as the padded row of the layout
  have hread : ∀ (i : Nat) (hi : i < (layout params proc prompt buffer message (n + 1) cols).length),
      visibleRow (buildFrame params proc prompt buffer message (n + 1) cols) (n + 1) cols (i + 1) =
        padOrClip (layout params proc prompt buffer message (n + 1) cols)[i]
          (rowWidth (n + 1) cols (i + 1)) := by
    intro i hi
    have hline : (layout params proc prompt buffer message (n + 1) cols)[((i : Int) + 1 - 1).toNat]? =
        some (layout params proc prompt buffer message (n + 1) cols)[i] := by
      rw [Int.add_sub_cancel, Int.toNat_natCast, List.getElem?_eq_getElem hi]
    exact visibleRow_buildFrame params proc prompt buffer message hc (by omega) (by omega) hline
  conv => lhs; rw [buildFrame_eq params proc prompt buffer message hr hc]
  rw [show ((n : Int) + 1).toNat = n + 1 by omega, List.range_succ, List.map_append,
    List.map_singleton, if_pos rfl]
  congr 3
  · apply List.ext_getElem
    · rw [List.length_dropLast, paddedRows, List.length_map, hlength, List.length_map,
        List.length_range]
      omega
    · intro i hi hi'
      rw [List.length_map, List.length_range] at hi'
      have hwidth : rowWidth (n + 1) cols (i + 1) = cols := if_neg (by omega)
      rw [List.getElem_dropLast, List.getElem_map, List.getElem_range, if_neg (by omega),
        List.append_nil, hread i (by omega), hwidth]
      simp only [paddedRows, List.getElem_map]
  · have hn : n < (layout params proc prompt buffer message (n + 1) cols).length := by omega
    have hwidth : rowWidth (n + 1) cols (n + 1) = cols - 1 := if_pos rfl
    rw [hread n hn, hwidth, show ((n : Int) + 1 - 1).toNat = n by omega, paddedRows,
      List.getD_eq_getElem?_getD, List.getElem?_map, List.getElem?_eq_getElem hn, Option.map_some,
      Option.getD_some, padOrClip_padOrClip _ hc]

/-- **Frame layout.**  At every size, every row shows exactly one line; it is visible
clipped or padded to the width of the row; and the frame holds these rows and
nothing else. -/
theorem frame_layout (hr : 1 ≤ rows) (hc : 1 ≤ cols) :
    (∀ row, 1 ≤ row → row ≤ rows →
      ∃! line, Shows params proc prompt buffer message rows cols row line) ∧
    (∀ row line, 1 ≤ row → row ≤ rows →
      Shows params proc prompt buffer message rows cols row line →
      visibleRow (buildFrame params proc prompt buffer message rows cols) rows cols row =
        padOrClip line (rowWidth rows cols row)) ∧
    buildFrame params proc prompt buffer message rows cols =
      kCursorHome ++ kRowSeparator.intercalate ((List.range rows.toNat).map fun i : Nat =>
        visibleRow (buildFrame params proc prompt buffer message rows cols) rows cols (i + 1) ++
          if (i : Int) + 1 = rows then kEraseToEol else []) := by
  refine ⟨?_, ?_, buildFrame_rows params proc prompt buffer message cols hr hc⟩
  · intro row hlo hhi
    obtain ⟨line, hline⟩ := shows_exists params proc prompt buffer message cols hr hlo hhi
    refine ⟨line, hline, fun line' hline' => ?_⟩
    exact Option.some.inj ((hline'.layout hr).symm.trans (hline.layout hr))
  · intro row line hlo hhi hline
    exact visibleRow_buildFrame params proc prompt buffer message hc hlo hhi (hline.layout hr)

/-- A response of one line on a terminal with a single row for it. -/
theorem frame_layout_short :
    visibleRow (buildFrame {} {} (ascii "Command>") [] (ascii "Marquee started.") 5 20) 5 20 4 =
      padOrClip (ascii "Marquee started.") 20 :=
  (frame_layout {} {} (ascii "Command>") [] (ascii "Marquee started.") 20
    (show (1 : Int) ≤ 5 by decide) (by decide)).2.1 4 _ (by decide) (by decide)
    (.message 0 _ (by decide))

/-! ## The drop order -/

/-- Fixed text gives way before a response: when a message line is left out, every row
above the message block and the prompt but the band row is blank. -/
def FixedTextGivesWay (rows cols : Int) : Prop :=
  messageLines message rows ≠ splitLines message →
    ∀ row, 1 ≤ row → row < blockTop message rows → row ≠ bandRow rows →
      visibleRow (buildFrame params proc prompt buffer message rows cols) rows cols row =
        List.replicate cols.toNat space

/-- There are at most `rows - 4` rows for a message. -/
theorem messageLines_ne_iff (hr : 3 ≤ rows) :
    messageLines message rows ≠ splitLines message ↔
      (rows - 4).toNat < (splitLines message).length := by
  have hbudget : messageBudget rows = if rows = 3 then 0 else rows - 4 := by
    unfold messageBudget bandRow kBandRow
    by_cases hthree : rows = 3
    · subst hthree
      rfl
    · rw [if_neg hthree, if_pos (by omega), if_pos (by omega)]
      omega
  have hnat : (messageBudget rows).toNat = (rows - 4).toNat := by
    rw [hbudget]
    split <;> omega
  have hnonneg : 0 ≤ messageBudget rows := by
    rw [hbudget]
    split <;> omega
  unfold messageLines
  dsimp only
  by_cases hdrop : ((splitLines message).length : Int) > messageBudget rows
  · rw [if_pos hdrop]
    refine iff_of_true ?_ (by omega)
    intro hsame
    have hlength := congrArg List.length hsame
    rw [List.length_drop] at hlength
    omega
  · rw [if_neg hdrop]
    exact iff_of_false (fun hne => hne rfl) (by omega)

/-- The welcome line stays in the first row, whatever is left out. -/
theorem visibleRow_welcome (hr : 3 ≤ rows) (hc : 1 ≤ cols) :
    visibleRow (buildFrame params proc prompt buffer message rows cols) rows cols 1 =
      padOrClip (ascii "Welcome to CSOPESY!") cols := by
  have hband : 2 ≤ bandPlace rows := by
    unfold bandPlace
    split
    · omega
    · split <;> omega
  have hshows : Shows params proc prompt buffer message rows cols 1 _ := .welcome hband
  have hwidth : rowWidth rows cols 1 = cols := if_neg (by omega)
  rw [visibleRow_buildFrame params proc prompt buffer message hc (by omega) (by omega)
    (hshows.layout (by omega)), hwidth]

theorem padOrClip_welcome_ne (hc : 1 ≤ cols) :
    padOrClip (ascii "Welcome to CSOPESY!") cols ≠ List.replicate cols.toNat space := by
  intro hblank
  have hbyte := congrArg List.head? hblank
  rw [List.head?_replicate, if_neg (by omega)] at hbyte
  unfold padOrClip at hbyte
  rw [if_neg (by omega)] at hbyte
  split at hbyte
  · rw [List.head?_take, if_neg (by omega)] at hbyte
    exact absurd hbyte (by decide)
  · exact absurd (show some (0x57 : UInt8) = some space from hbyte) (by decide)

/-- **Fixed text gives way exactly when nothing has to.**  Whenever a message line is
left out, the welcome line is still displayed. -/
theorem fixedText_gives_way_iff (hr : 3 ≤ rows) (hc : 1 ≤ cols) :
    FixedTextGivesWay params proc prompt buffer message rows cols ↔
      (splitLines message).length ≤ (rows - 4).toNat := by
  constructor
  · intro hway
    by_contra hlong
    have hdropped := (messageLines_ne_iff message hr).mpr (by omega)
    have hband : 2 ≤ bandRow rows := by
      rw [bandRow_eq (by omega)]
      unfold bandPlace
      split
      · omega
      · split <;> omega
    have htop := bandRow_lt_blockTop message (show 1 ≤ rows by omega)
    have hblank := hway hdropped 1 (by omega) (by omega) (by omega)
    rw [visibleRow_welcome params proc prompt buffer message cols hr hc] at hblank
    exact padOrClip_welcome_ne cols hc hblank
  · intro hfits hdropped
    exact absurd ((messageLines_ne_iff message hr).mp hdropped) (by omega)

/-- On four rows the response to `start_marquee` is hidden and the welcome line shown. -/
theorem fixedText_keeps_place :
    ¬ FixedTextGivesWay {} { state := .running } (ascii "Command>") [] (ascii "Marquee started.")
      4 40 := by
  intro hway
  have hblank := hway (by decide) 1 (by decide) (by decide) (by decide)
  rw [visibleRow_welcome _ _ _ _ _ _ (by decide) (by decide)] at hblank
  exact padOrClip_welcome_ne 40 (by decide) hblank

theorem fixedText_gives_way_five :
    FixedTextGivesWay {} {} (ascii "Command>") [] (ascii "Marquee started.") 5 40 :=
  (fixedText_gives_way_iff {} {} (ascii "Command>") [] (ascii "Marquee started.") 40
    (show (3 : Int) ≤ 5 by decide) (by decide)).mpr (by decide)

end
end Renderer
end Csopesy
