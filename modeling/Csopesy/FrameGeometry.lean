import Csopesy.Renderer

/-! # The geometry of a frame

At every size with at least one row and one column, `buildFrame` writes the home
sequence and then one segment a row, separated by CRLF: each exactly `cols`
bytes, the last one byte short and followed by an erase sequence
(`buildFrame_eq`).  When its inputs are printable, so is every segment
(`buildFrame_wellFormed`).  Because the segments have a fixed width, the band can
be read back from the written bytes by position alone (`bandRowBytes_buildFrame`).
-/
namespace Csopesy

/-! ## Rows of a given width -/

theorem padOrClip_length {line : Bytes} {cols : Int} : (padOrClip line cols).length = cols.toNat := by
  unfold padOrClip
  split
  · simp; omega
  · split <;> simp <;> omega

theorem padOrClip_of_le {line : Bytes} {cols : Int} (hpos : 0 < cols) (h : cols ≤ line.length) :
    padOrClip line cols = line.take cols.toNat := by
  unfold padOrClip
  rw [if_neg (by omega), if_pos (by omega)]

theorem padOrClip_of_lt {line : Bytes} {cols : Int} (hpos : 0 < cols) (h : line.length < cols) :
    padOrClip line cols = line ++ List.replicate (cols.toNat - line.length) space := by
  unfold padOrClip
  rw [if_neg (by omega), if_neg (by omega)]

theorem Printable.padOrClip {line : Bytes} (h : Printable line) (cols : Int) :
    Printable (padOrClip line cols) := by
  unfold Csopesy.padOrClip
  split
  · exact .nil
  · split
    · exact h.take _
    · exact h.append (.spaces _)

/-- Printable text with line feeds between its lines. -/
def Displayable (text : Bytes) : Prop := ∀ c ∈ text, isPrintableAscii c = true ∨ c = newline

instance (s : Bytes) : Decidable (Displayable s) :=
  decidable_of_iff (s.all (fun c => isPrintableAscii c || c == newline) = true)
    (by simp [Displayable, List.all_eq_true])

theorem Printable.displayable {s : Bytes} (h : Printable s) : Displayable s := fun c hc => .inl (h c hc)

theorem splitLines_go_printable : ∀ {text line : Bytes}, Printable line → Displayable text →
    ∀ l ∈ splitLines.go line text, Printable l
  | [], line, hline, _ => by simpa [splitLines.go] using hline
  | c :: rest, line, hline, htext => by
    have hrest : Displayable rest := fun d hd => htext d (List.mem_cons_of_mem _ hd)
    rw [splitLines.go]
    split
    · intro l hl
      rcases List.mem_cons.mp hl with rfl | hl
      · exact hline
      · exact splitLines_go_printable .nil hrest l hl
    · rename_i hc
      have hp : isPrintableAscii c = true := (htext c List.mem_cons_self).resolve_right hc
      exact splitLines_go_printable (hline.append (.singleton hp)) hrest

theorem splitLines_printable {text : Bytes} (h : Displayable text) :
    ∀ l ∈ splitLines text, Printable l := by
  unfold splitLines
  split
  · exact fun l hl => absurd hl List.not_mem_nil
  · exact splitLines_go_printable .nil h

theorem sliceRow_length (text : Bytes) (bandWidth offset : Int) :
    (sliceRow text bandWidth offset).length = bandWidth.toNat := by
  unfold sliceRow
  split
  · simp; omega
  · simp

theorem Printable.sliceRow {text : Bytes} (h : Printable text) (bandWidth offset : Int) :
    Printable (sliceRow text bandWidth offset) := by
  unfold Csopesy.sliceRow
  split
  · exact .nil
  · intro c hc
    obtain ⟨col, -, rfl⟩ := List.mem_map.mp hc
    dsimp only
    split
    · rename_i hidx
      have hlt : (offset - bandWidth + (col : Int)).toNat < text.length := by omega
      rw [List.getD_eq_getElem?_getD, List.getElem?_eq_getElem hlt, Option.getD_some]
      exact h _ (List.getElem_mem hlt)
    · decide

theorem Printable.buildPromptRow {prompt buffer : Bytes} (hp : Printable prompt)
    (hb : Printable buffer) (cols : Int) : Printable (buildPromptRow prompt buffer cols) := by
  have hwindow : ∀ available : Int, Printable
      (if available > 0 ∧ buffer ≠ [] then
        if buffer.length ≤ available.toNat then buffer
        else buffer.drop (buffer.length - available.toNat)
      else []) := by
    intro available
    split
    · split
      · exact hb
      · exact hb.drop _
    · exact .nil
  exact ((hp.append (.singleton (by decide))).append (hwindow _)).padOrClip _

namespace Renderer

/-! ## Placing rows -/

@[simp] theorem placeRows_length (frame : List Bytes) (top : Int) (lines : List Bytes) :
    (placeRows frame top lines).length = frame.length := by
  induction lines generalizing frame top with
  | nil => rfl
  | cons line lines ih => rw [placeRows, ih, List.length_set]

/-- Rows above `top` keep their content. -/
theorem placeRows_getElem?_of_lt {frame : List Bytes} {top : Int} {lines : List Bytes} {i : Nat}
    (h : (i : Int) < top) : (placeRows frame top lines)[i]? = frame[i]? := by
  induction lines generalizing frame top with
  | nil => rfl
  | cons line lines ih =>
    rw [placeRows, ih (by omega), List.getElem?_set_ne (by omega)]

/-- Placed rows are found in order from `top` on. -/
theorem placeRows_getElem?_add {frame : List Bytes} {top : Int} {lines : List Bytes} {i j : Nat}
    (htop : 0 ≤ top) (hfit : top.toNat + lines.length ≤ frame.length) (hj : j < lines.length)
    (hi : (i : Int) = top + j) : (placeRows frame top lines)[i]? = lines[j]? := by
  induction lines generalizing frame top j with
  | nil => exact absurd hj (Nat.not_lt_zero j)
  | cons line lines ih =>
    rw [List.length_cons] at hfit hj
    rw [placeRows]
    cases j with
    | zero =>
      rw [placeRows_getElem?_of_lt (by omega), show i = top.toNat by omega,
        List.getElem?_set_self (by omega)]
      rfl
    | succ j =>
      rw [ih (j := j) (by omega) (by rw [List.length_set]; omega) (by omega) (by omega)]
      rfl

/-- Rows below the placed ones keep their content. -/
theorem placeRows_getElem?_of_le {frame : List Bytes} {top : Int} {lines : List Bytes} {i : Nat}
    (htop : 0 ≤ top) (h : top + lines.length ≤ i) : (placeRows frame top lines)[i]? = frame[i]? := by
  induction lines generalizing frame top with
  | nil => rfl
  | cons line lines ih =>
    rw [List.length_cons] at h
    rw [placeRows, ih (by omega) (by omega), List.getElem?_set_ne (by omega)]

theorem mem_placeRows {frame : List Bytes} {top : Int} {lines : List Bytes} {l : Bytes}
    (h : l ∈ placeRows frame top lines) : l ∈ frame ∨ l ∈ lines := by
  induction lines generalizing frame top with
  | nil => exact .inl h
  | cons line lines ih =>
    rcases ih h with h | h
    · rcases List.mem_or_eq_of_mem_set h with h | rfl
      · exact .inl h
      · exact .inr List.mem_cons_self
    · exact .inr (List.mem_cons_of_mem _ h)

theorem bandRows_length (params : Parameters) (proc : MarqueeProcess) (rows cols : Int) :
    (bandRows params proc rows cols).length = rows.toNat := by
  unfold bandRows
  dsimp only
  split
  · split <;> simp
  · simp

theorem layout_length (params : Parameters) (proc : MarqueeProcess)
    (prompt buffer message : Bytes) (rows cols : Int) :
    (layout params proc prompt buffer message rows cols).length = rows.toNat := by
  simp [layout, bandRows_length]

theorem messageLines_subset (message : Bytes) (rows : Int) :
    messageLines message rows ⊆ splitLines message := by
  unfold messageLines
  dsimp only
  split
  · exact List.drop_subset _ _
  · exact List.Subset.refl _

theorem bandRows_forall {P : Bytes → Prop} {params : Parameters} {proc : MarqueeProcess}
    {rows cols : Int} (hblank : P []) (hband : P ([space] ++ band params proc cols ++ [space]))
    (hwelcome : P (ascii "Welcome to CSOPESY!")) : ∀ l ∈ bandRows params proc rows cols, P l := by
  have hblanks : ∀ l ∈ List.replicate rows.toNat ([] : Bytes), P l := fun l hl => by
    rw [List.eq_of_mem_replicate hl]; exact hblank
  intro l hl
  unfold bandRows at hl
  dsimp only at hl
  split at hl
  · split at hl
    · rcases List.mem_or_eq_of_mem_set hl with hl | rfl
      · rcases List.mem_or_eq_of_mem_set hl with hl | rfl
        · exact hblanks l hl
        · exact hband
      · exact hwelcome
    · rcases List.mem_or_eq_of_mem_set hl with hl | rfl
      · exact hblanks l hl
      · exact hband
  · exact hblanks l hl

/-- What holds of every part of a frame holds of its rows. -/
theorem layout_forall {P : Bytes → Prop} {params : Parameters} {proc : MarqueeProcess}
    {prompt buffer message : Bytes} {rows cols : Int} (hblank : P [])
    (hband : P ([space] ++ band params proc cols ++ [space]))
    (hwelcome : P (ascii "Welcome to CSOPESY!")) (hfixed : ∀ l ∈ fixedText params, P l)
    (hmessage : ∀ l ∈ splitLines message, P l) (hprompt : P (buildPromptRow prompt buffer cols)) :
    ∀ l ∈ layout params proc prompt buffer message rows cols, P l := by
  intro l hl
  unfold layout at hl
  dsimp only at hl
  rcases List.mem_or_eq_of_mem_set hl with hl | rfl
  · rcases mem_placeRows hl with hl | hl
    · rcases mem_placeRows hl with hl | hl
      · exact bandRows_forall hblank hband hwelcome l hl
      · exact hfixed l (List.mem_of_mem_take hl)
    · exact hmessage l (messageLines_subset message rows hl)
  · exact hprompt

/-! ## Printable inputs give printable rows -/

/-- What the builder needs of the parameters to show nothing but printable text. -/
structure PrintableParams (params : Parameters) : Prop where
  text : Printable params.text
  developers : ∀ d ∈ params.developers, Printable d
  versionDate : Printable params.versionDate

theorem fixedText_printable {params : Parameters} (h : PrintableParams params) :
    ∀ l ∈ fixedText params, Printable l := by
  unfold fixedText
  intro l hl
  simp only [List.mem_append, List.mem_cons, List.not_mem_nil, or_false] at hl
  rcases hl with ((rfl | rfl) | hd) | (rfl | rfl)
  · exact .nil
  · decide
  · exact h.developers l hd
  · exact .nil
  · split
    · decide
    · exact Printable.append (by decide) h.versionDate

theorem layout_printable {params : Parameters} (h : PrintableParams params)
    (proc : MarqueeProcess) {prompt buffer message : Bytes} (hp : Printable prompt)
    (hb : Printable buffer) (hm : Displayable message) (rows cols : Int) :
    ∀ l ∈ layout params proc prompt buffer message rows cols, Printable l := by
  have hband : Printable ([space] ++ band params proc cols ++ [space]) :=
    ((Printable.singleton (by decide)).append (h.text.sliceRow _ _)).append
      (.singleton (by decide))
  exact layout_forall .nil hband (by decide) (fixedText_printable h) (splitLines_printable hm)
    (hp.buildPromptRow hb cols)

/-! ## The output loop -/

theorem intercalate_concat (sep l : Bytes) : ∀ ls : List Bytes, ls ≠ [] →
    sep.intercalate (ls ++ [l]) = sep.intercalate ls ++ sep ++ l
  | [], h => absurd rfl h
  | [x], _ => by simp
  | x :: y :: ls, _ => by
    have ih := intercalate_concat sep l (y :: ls) (by simp)
    simp only [List.cons_append] at ih ⊢
    rw [List.intercalate_cons_cons, List.intercalate_cons_cons, ih]
    simp

/-- A loop that writes the separator before every row but the first joins the
rows. -/
theorem flatMap_separated (sep : Bytes) (f : Nat → Bytes) (n : Nat) :
    (List.range (n + 1)).flatMap (fun i => (if i > 0 then sep else []) ++ f i) =
      sep.intercalate ((List.range (n + 1)).map f) := by
  induction n with
  | zero => simp
  | succ n ih =>
    rw [List.range_succ, List.flatMap_append, ih, List.map_append, List.map_singleton,
      intercalate_concat _ _ _ (by simp)]
    simp

/-- The `frame` vector of `buildFrame` once every row is padded. -/
def paddedRows (params : Parameters) (proc : MarqueeProcess) (prompt buffer message : Bytes)
    (rows cols : Int) : List Bytes :=
  (layout params proc prompt buffer message rows cols).map (padOrClip · cols)

/-- Padding the last row again does not touch the rows before it. -/
theorem map_range_dropLast {frame : List Bytes} {n : Nat} (hlen : frame.length = n + 1)
    (last : Nat → Bytes) :
    (List.range n).map (fun row : Nat =>
        if (row : Int) = (n : Int) + 1 - 1 then last row else frame.getD row []) =
      frame.dropLast := by
  apply List.ext_getElem
  · simp [hlen]
  · intro i hi _
    have hi' : i < n := by simpa using hi
    have hne : i ≠ n := by omega
    simp [hne, hlen, show i < n + 1 by omega]

/-- **The written form of a frame**: the home sequence, all rows but the last at
full width, and the last row one column short before the erase sequence. -/
theorem buildFrame_eq (params : Parameters) (proc : MarqueeProcess)
    (prompt buffer message : Bytes) {rows cols : Int} (hr : 1 ≤ rows) (hc : 1 ≤ cols) :
    buildFrame params proc prompt buffer message rows cols =
      kCursorHome ++ kRowSeparator.intercalate
        ((paddedRows params proc prompt buffer message rows cols).dropLast ++
          [padOrClip ((paddedRows params proc prompt buffer message rows cols).getD
            (rows - 1).toNat []) (cols - 1) ++ kEraseToEol]) := by
  obtain ⟨n, hn⟩ : ∃ n : Nat, rows = n + 1 := ⟨(rows - 1).toNat, by omega⟩
  subst hn
  have hlen : (paddedRows params proc prompt buffer message (n + 1) cols).length = n + 1 := by
    simp [paddedRows, layout_length]
  have hwidth : (if cols > 1 then cols - 1 else 0) = cols - 1 := by split <;> omega
  unfold buildFrame
  rw [if_neg (by omega)]
  change kCursorHome ++ (List.range (n + 1)).flatMap
    (emitRow (paddedRows params proc prompt buffer message (n + 1) cols) (n + 1) cols) = _
  generalize paddedRows params proc prompt buffer message (n + 1) cols = frame at hlen ⊢
  unfold emitRow
  rw [hwidth, flatMap_separated kRowSeparator
    (fun row : Nat => if (row : Int) = (n : Int) + 1 - 1 then
      padOrClip (frame.getD row []) (cols - 1) ++ kEraseToEol else frame.getD row [])]
  congr 2
  rw [List.range_succ, List.map_append, List.map_singleton]
  rw [map_range_dropLast hlen]
  congr 2
  simp

/-- The shape the terminal relies on. -/
def WellFormedFrame (frame : Bytes) (rows cols : Int) : Prop :=
  ∃ (body : List Bytes) (last : Bytes),
    frame = kCursorHome ++ kRowSeparator.intercalate (body ++ [last ++ kEraseToEol]) ∧
    (body.length : Int) = rows - 1 ∧ (last.length : Int) = cols - 1 ∧
    (∀ seg ∈ body, (seg.length : Int) = cols) ∧ ∀ seg ∈ body ++ [last], Printable seg

theorem paddedRows_length {params : Parameters} {proc : MarqueeProcess}
    {prompt buffer message : Bytes} {rows cols : Int} {seg : Bytes}
    (h : seg ∈ paddedRows params proc prompt buffer message rows cols) :
    seg.length = cols.toNat := by
  obtain ⟨l, -, rfl⟩ := List.mem_map.mp h
  exact padOrClip_length

/-- **A frame of printable inputs is well formed.** -/
theorem buildFrame_wellFormed {params : Parameters} (h : PrintableParams params)
    (proc : MarqueeProcess) {prompt buffer message : Bytes} (hp : Printable prompt)
    (hb : Printable buffer) (hm : Displayable message) {rows cols : Int} (hr : 1 ≤ rows)
    (hc : 1 ≤ cols) :
    WellFormedFrame (buildFrame params proc prompt buffer message rows cols) rows cols := by
  have hrows : ∀ seg ∈ paddedRows params proc prompt buffer message rows cols, Printable seg := by
    intro seg hseg
    obtain ⟨l, hl, rfl⟩ := List.mem_map.mp hseg
    exact (layout_printable h proc hp hb hm rows cols l hl).padOrClip cols
  have hlast : ∀ i, Printable
      ((paddedRows params proc prompt buffer message rows cols).getD i []) := by
    intro i
    rw [List.getD_eq_getElem?_getD]
    cases hi : (paddedRows params proc prompt buffer message rows cols)[i]? with
    | none => exact .nil
    | some seg => exact hrows seg (List.mem_of_getElem? hi)
  refine ⟨_, _, buildFrame_eq params proc prompt buffer message hr hc, ?_, ?_, ?_, ?_⟩
  · simp [paddedRows, layout_length]; omega
  · rw [padOrClip_length]; omega
  · intro seg hseg
    rw [paddedRows_length (List.dropLast_subset _ hseg)]; omega
  · intro seg hseg
    rcases List.mem_append.mp hseg with hseg | hseg
    · exact hrows seg (List.dropLast_subset _ hseg)
    · rw [List.mem_singleton.mp hseg]; exact (hlast _).padOrClip _

theorem buildFrame_ne_nil (params : Parameters) (proc : MarqueeProcess)
    (prompt buffer message : Bytes) {rows cols : Int} (hr : 1 ≤ rows) (hc : 1 ≤ cols) :
    buildFrame params proc prompt buffer message rows cols ≠ [] := by
  rw [buildFrame_eq _ _ _ _ _ hr hc]
  simp [kCursorHome]

/-! ## Reading rows by position -/

/-- Skipping `k` rows of equal width, with their separators. -/
theorem drop_intercalate (sep : Bytes) (c : Nat) : ∀ (k : Nat) (ls : List Bytes), k < ls.length →
    (∀ l ∈ ls.take k, l.length = c) →
    (sep.intercalate ls).drop (k * (c + sep.length)) = sep.intercalate (ls.drop k)
  | 0, _, _, _ => by simp
  | k + 1, [], h, _ => absurd h (by simp)
  | k + 1, [x], h, _ => absurd h (by simp)
  | k + 1, x :: y :: ls, h, hw => by
    have hx : x.length = c := hw x (by simp)
    have ih := drop_intercalate sep c k (y :: ls) (by simpa using h)
      (fun l hl => hw l (by simp [hl]))
    rw [List.intercalate_cons_cons, List.drop_succ_cons, ← ih,
      show (k + 1) * (c + sep.length) = (x ++ sep).length + k * (c + sep.length) by
        rw [List.length_append, hx]; ring,
      List.drop_length_add_append]

theorem take_intercalate (sep l : Bytes) (ls : List Bytes) :
    (sep.intercalate (l :: ls)).take l.length = l := by
  cases ls with
  | nil => simp
  | cons y ls => rw [List.intercalate_cons_cons, List.append_assoc, List.take_left]

/-- Row `k` is read by position when the rows up to it have one width. -/
theorem take_drop_intercalate (sep : Bytes) {c k : Nat} {ls : List Bytes} (hk : k < ls.length)
    (hw : ∀ l ∈ ls.take (k + 1), l.length = c) :
    ((sep.intercalate ls).drop (k * (c + sep.length))).take c = ls[k] := by
  have hbefore : ∀ l ∈ ls.take k, l.length = c := fun l hl =>
    hw l (List.take_subset_take_left ls (Nat.le_succ k) hl)
  have hrow : ls[k].length = c := hw _ (List.mem_take_iff_getElem.mpr ⟨k, by omega, rfl⟩)
  have htake := take_intercalate sep ls[k] (ls.drop (k + 1))
  rw [hrow] at htake
  rw [drop_intercalate sep c k ls hk hbefore, List.drop_eq_getElem_cons hk]
  exact htake

/-- The last row leaves its last column unused. -/
def rowWidth (rows cols row : Int) : Int := if row = rows then cols - 1 else cols

/-- A row of a written frame, read by position; rows count from 1. -/
def visibleRow (frame : Bytes) (rows cols row : Int) : Bytes :=
  (frame.drop (kCursorHome.length + (row - 1).toNat * (cols.toNat + kRowSeparator.length))).take
    (rowWidth rows cols row).toNat

theorem padOrClip_padOrClip (line : Bytes) {cols : Int} (hc : 1 ≤ cols) :
    padOrClip (padOrClip line cols) (cols - 1) = padOrClip line (cols - 1) := by
  by_cases hone : cols = 1
  · subst hone
    rfl
  · have hclip : padOrClip (padOrClip line cols) (cols - 1) =
        (padOrClip line cols).take (cols - 1).toNat :=
      padOrClip_of_le (by omega) (by rw [padOrClip_length]; omega)
    rw [hclip]
    by_cases hlong : cols ≤ line.length
    · rw [padOrClip_of_le (by omega) hlong, padOrClip_of_le (by omega) (by omega), List.take_take,
        Nat.min_eq_left (by omega)]
    · rw [padOrClip_of_lt (by omega) (by omega), List.take_append]
      by_cases hfull : cols - 1 ≤ line.length
      · rw [padOrClip_of_le (by omega) hfull, show (cols - 1).toNat - line.length = 0 by omega,
          List.take_zero, List.append_nil]
      · rw [padOrClip_of_lt (by omega) (by omega), List.take_of_length_le (by omega),
          List.take_replicate, Nat.min_eq_left (by omega)]

/-- **A row of the layout is read back**, clipped or padded to its width. -/
theorem visibleRow_buildFrame (params : Parameters) (proc : MarqueeProcess)
    (prompt buffer message : Bytes) {rows cols row : Int} (hc : 1 ≤ cols) (hlo : 1 ≤ row)
    (hhi : row ≤ rows) {line : Bytes}
    (hline : (layout params proc prompt buffer message rows cols)[(row - 1).toNat]? = some line) :
    visibleRow (buildFrame params proc prompt buffer message rows cols) rows cols row =
      padOrClip line (rowWidth rows cols row) := by
  have hwidth : ∀ seg ∈ paddedRows params proc prompt buffer message rows cols,
      seg.length = cols.toNat := fun _ => paddedRows_length
  have hlen : (paddedRows params proc prompt buffer message rows cols).length = rows.toNat := by
    simp [paddedRows, layout_length]
  have hpad : (paddedRows params proc prompt buffer message rows cols)[(row - 1).toNat]? =
      some (padOrClip line cols) := by
    rw [paddedRows, List.getElem?_map, hline, Option.map_some]
  unfold visibleRow rowWidth
  rw [buildFrame_eq _ _ _ _ _ (by omega) hc, List.drop_length_add_append]
  generalize paddedRows params proc prompt buffer message rows cols = frame at hwidth hlen hpad ⊢
  have hbody : ∀ seg ∈ frame.dropLast, seg.length = cols.toNat := fun seg hseg =>
    hwidth seg (List.dropLast_subset _ hseg)
  by_cases hrow : row = rows
  · -- the last row stands behind full rows and before the erase sequence
    subst hrow
    rw [if_pos rfl, drop_intercalate kRowSeparator _ _ _ (by simp; omega) ?_,
      List.drop_append_of_le_length (by simp; omega), List.drop_eq_nil_of_le (by simp; omega),
      List.nil_append, List.intercalate_singleton, List.getD_eq_getElem?_getD, hpad,
      Option.getD_some, padOrClip_padOrClip line hc, List.take_append_of_le_length (by
        rw [padOrClip_length]), List.take_of_length_le (by rw [padOrClip_length])]
    intro l hl
    rw [List.take_append_of_le_length (by simp; omega)] at hl
    exact hbody l (List.mem_of_mem_take hl)
  · obtain ⟨hi, hseg⟩ := List.getElem?_eq_some_iff.mp hpad
    have hk : (row - 1).toNat < frame.dropLast.length := by
      rw [List.length_dropLast]
      omega
    rw [if_neg hrow, take_drop_intercalate kRowSeparator (by rw [List.length_append]; omega) ?_,
      List.getElem_append_left hk, List.getElem_dropLast, hseg]
    intro l hl
    rw [List.take_append_of_le_length (by omega)] at hl
    exact hbody l (List.mem_of_mem_take hl)

/-! ## The band of a written frame -/

/-- The band row of a written frame, read by position; empty when the frame has no
band. -/
def bandRowBytes (frame : Bytes) (rows cols : Int) : Bytes :=
  if bandRow rows > 0 then
    (frame.drop (kCursorHome.length +
      (bandRow rows - 1).toNat * (cols.toNat + kRowSeparator.length))).take cols.toNat
  else []

theorem bandRow_lt {rows : Int} (hr : 1 ≤ rows) : 0 ≤ bandRow rows ∧ bandRow rows ≤ rows - 1 := by
  unfold bandRow kBandRow
  split
  · omega
  · split <;> omega

theorem messageLines_length_le (message : Bytes) {rows : Int} (hr : 1 ≤ rows) :
    ((messageLines message rows).length : Int) ≤ messageBudget rows := by
  have hbudget : 0 ≤ messageBudget rows := by
    have := bandRow_lt hr
    unfold messageBudget
    split <;> omega
  unfold messageLines
  dsimp only
  split
  · rw [List.length_drop]; omega
  · omega

/-- The message block starts below the band. -/
theorem bandRow_lt_blockTop (message : Bytes) {rows : Int} (hr : 1 ≤ rows) :
    bandRow rows < blockTop message rows := by
  have hlen := messageLines_length_le message hr
  have hband := bandRow_lt hr
  unfold blockTop
  unfold messageBudget at hlen
  split at hlen <;> omega

/-- Neither the welcome line, the fixed text, the message block nor the prompt row
overwrites the band. -/
theorem layout_band (params : Parameters) (proc : MarqueeProcess)
    (prompt buffer message : Bytes) {rows : Int} (cols : Int) (hr : 1 ≤ rows)
    (hb : bandRow rows > 0) :
    (layout params proc prompt buffer message rows cols)[(bandRow rows - 1).toNat]? =
      some ([space] ++ band params proc cols ++ [space]) := by
  have hband := bandRow_lt hr
  have htop := bandRow_lt_blockTop message hr
  have hidx : ((bandRow rows - 1).toNat : Int) = bandRow rows - 1 := by omega
  unfold layout
  dsimp only
  -- the prompt row, the message block and the fixed text are below the band
  rw [List.getElem?_set_ne (by omega), placeRows_getElem?_of_lt (by omega),
    placeRows_getElem?_of_lt (by unfold afterFirst; omega)]
  unfold bandRows
  dsimp only
  rw [if_pos hb]
  split
  · -- the welcome line is above it
    rw [List.getElem?_set_ne (by omega), List.getElem?_set_self (by simp; omega)]
  · rw [List.getElem?_set_self (by simp; omega)]

/-- **The band can be read back from the written bytes.** -/
theorem bandRowBytes_buildFrame (params : Parameters) (proc : MarqueeProcess)
    (prompt buffer message : Bytes) {rows cols : Int} (hr : 1 ≤ rows) (hc : 1 ≤ cols) :
    bandRowBytes (buildFrame params proc prompt buffer message rows cols) rows cols =
      if bandRow rows > 0 then padOrClip ([space] ++ band params proc cols ++ [space]) cols
      else [] := by
  unfold bandRowBytes
  split
  · rename_i hb
    have hlt := bandRow_lt hr
    have hget := layout_band params proc prompt buffer message cols hr hb
    -- the band row is not the last one, so it is written at full width
    have hwidth : rowWidth rows cols (bandRow rows) = cols := if_neg (by omega)
    have hrow := visibleRow_buildFrame params proc prompt buffer message hc (by omega) (by omega) hget
    unfold visibleRow at hrow
    rw [hwidth] at hrow
    exact hrow
  · rfl

end Renderer
end Csopesy
