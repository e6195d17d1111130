import Mathlib.Tactic

/-! # A character screen

A screen of `rows` by `cols` cells with a cursor, fed byte by byte.  A printable byte is
written at the cursor; behind the last column the cursor waits, and the next printable
byte goes to the next line.  LF moves down and scrolls in the last row, CR moves to the
first column, `CSI H` moves home and `CSI K` erases to the end of the line; other control
bytes and sequences have no effect.

Lines are counted from the first one ever shown.  Scrolling leaves them where they are and
moves the window (`top`), so what a screen shows can be compared before and after.
Scrolling is bounded by the line the cursor has come to (`Since.top_eq`): text that needs
no line below the last row does not scroll.
-/
namespace Vt

def esc : UInt8 := 0x1B

def bracket : UInt8 := 0x5B

def cr : UInt8 := 0x0D

def lf : UInt8 := 0x0A

def blank : UInt8 := 0x20

/-- A byte that takes one cell. -/
def Printing (b : UInt8) : Prop := 0x20 ≤ b ∧ b ≤ 0x7E

instance : DecidablePred Printing := fun _ => inferInstanceAs (Decidable (_ ∧ _))

/-- How far a control sequence has come. -/
inductive Sequence
  | ground
  | escape
  /-- Behind `CSI`, with the parameter bytes so far. -/
  | control (params : List UInt8)
deriving DecidableEq, Repr

structure Screen (rows cols : Nat) where
  /-- The cells of all lines, from the first one on. -/
  line : Nat → Nat → UInt8
  /-- The line in the first row. -/
  top : Nat
  row : Nat
  /-- The column of the cursor; `cols` when it waits behind the last one. -/
  col : Nat
  sequence : Sequence := .ground
  row_lt : row < rows
  col_le : col ≤ cols
  cols_pos : 0 < cols

namespace Screen
variable {rows cols : Nat} {s t : Screen rows cols} {text : List UInt8}

/-- A screen with nothing on it. -/
def clear (rows cols : Nat) (hrows : 0 < rows) (hcols : 0 < cols) : Screen rows cols where
  line _ _ := blank
  top := 0
  row := 0
  col := 0
  row_lt := hrows
  col_le := Nat.zero_le _
  cols_pos := hcols

/-- The line of the cursor. -/
def here (s : Screen rows cols) : Nat := s.top + s.row

/-- What a row shows. -/
def shown (s : Screen rows cols) (row : Nat) : List UInt8 :=
  (List.range cols).map (s.line (s.top + row))

/-- One line down, with a blank line at the bottom behind the last row. -/
def down (s : Screen rows cols) : Screen rows cols :=
  if h : s.row + 1 < rows then { s with row := s.row + 1, row_lt := h }
  else { s with top := s.top + 1, line := Function.update s.line (s.top + rows) fun _ => blank }

/-- Move to a column. -/
def toCol (s : Screen rows cols) (col : Nat) (h : col ≤ cols) : Screen rows cols :=
  { s with col := col, col_le := h }

/-- Write at the cursor. -/
def put (s : Screen rows cols) (b : UInt8) (h : s.col < cols) : Screen rows cols :=
  { s with
    line := Function.update s.line s.here (Function.update (s.line s.here) s.col b)
    col := s.col + 1
    col_le := h }

def print (s : Screen rows cols) (b : UInt8) : Screen rows cols :=
  if h : s.col < cols then s.put b h else (s.down.toCol 0 (Nat.zero_le _)).put b s.cols_pos

def lineFeed (s : Screen rows cols) : Screen rows cols :=
  s.down.toCol (min s.col (cols - 1)) ((Nat.min_le_right _ _).trans (Nat.sub_le _ _))

def home (s : Screen rows cols) : Screen rows cols :=
  { s with
    row := 0
    col := 0
    row_lt := Nat.zero_lt_of_lt s.row_lt
    col_le := Nat.zero_le _ }

def eraseRight (s : Screen rows cols) : Screen rows cols :=
  { s with
    line := Function.update s.line s.here fun col =>
      if min s.col (cols - 1) ≤ col then blank else s.line s.here col }

/-- The effect of `CSI` with its parameters and its final byte. -/
def execute (s : Screen rows cols) (params : List UInt8) (final : UInt8) : Screen rows cols :=
  if params = [] ∧ final = 0x48 then s.home
  else if params = [] ∧ final = 0x4B then s.eraseRight
  else s

/-- ESC begins a sequence also where another one has not ended. -/
def feed (s : Screen rows cols) (b : UInt8) : Screen rows cols :=
  if b = esc then { s with sequence := .escape }
  else
    match s.sequence with
    | .ground =>
      if b = cr then s.toCol 0 (Nat.zero_le _)
      else if b = lf then s.lineFeed
      else if Printing b then s.print b
      else s
    | .escape => { s with sequence := if b = bracket then .control [] else .ground }
    | .control params =>
      if 0x20 ≤ b ∧ b ≤ 0x3F then { s with sequence := .control (params ++ [b]) }
      else { s.execute params b with sequence := .ground }

def feedAll (s : Screen rows cols) (bytes : List UInt8) : Screen rows cols := bytes.foldl feed s

/-! ## One byte -/

@[simp] theorem feedAll_nil (s : Screen rows cols) : s.feedAll [] = s := rfl

@[simp] theorem feedAll_cons (s : Screen rows cols) (b : UInt8) (bytes : List UInt8) :
    s.feedAll (b :: bytes) = (s.feed b).feedAll bytes := rfl

theorem feedAll_append (s : Screen rows cols) (bytes bytes' : List UInt8) :
    s.feedAll (bytes ++ bytes') = (s.feedAll bytes).feedAll bytes' := List.foldl_append

theorem feed_printing (hs : s.sequence = .ground) {b : UInt8} (hb : Printing b) :
    s.feed b = s.print b := by
  have hne : ∀ c : UInt8, c < 0x20 → b ≠ c := by
    rintro c hc rfl
    exact absurd hb.1 (UInt8.not_le.mpr hc)
  unfold feed
  rw [hs, if_neg (hne esc (by decide))]
  dsimp only
  rw [if_neg (hne cr (by decide)), if_neg (hne lf (by decide)), if_pos hb]

theorem feedAll_newline (hs : s.sequence = .ground) :
    s.feedAll [cr, lf] = s.down.toCol 0 (Nat.zero_le _) := by
  have hcr : s.feed cr = s.toCol 0 (Nat.zero_le _) := by
    unfold feed
    rw [hs]
    rfl
  have hlf : (s.toCol 0 (Nat.zero_le _)).feed lf = (s.toCol 0 (Nat.zero_le _)).lineFeed := by
    unfold feed
    rw [show (s.toCol 0 (Nat.zero_le _)).sequence = .ground from hs]
    rfl
  rw [feedAll_cons, feedAll_cons, feedAll_nil, hcr, hlf]
  unfold lineFeed toCol down
  by_cases h : s.row + 1 < rows
  · simp only [dif_pos h, Nat.zero_min]
  · simp only [dif_neg h, Nat.zero_min]

theorem feedAll_home (hs : s.sequence = .ground) : s.feedAll [esc, bracket, 0x48] = s.home := by
  obtain ⟨line, top, row, col, sequence, hrow, hcol, hcols⟩ := s
  obtain rfl : sequence = .ground := hs
  rfl

theorem feedAll_eraseRight (hs : s.sequence = .ground) :
    s.feedAll [esc, bracket, 0x4B] = s.eraseRight := by
  obtain ⟨line, top, row, col, sequence, hrow, hcol, hcols⟩ := s
  obtain rfl : sequence = .ground := hs
  rfl

/-! ## How far down the cursor comes -/

/-- In the last row the screen scrolls. -/
theorem down_of_last (hrow : s.row + 1 = rows) : s.down = { s with
    top := s.top + 1
    line := Function.update s.line (s.top + rows) fun _ => blank } :=
  dif_neg (by omega)

@[simp] theorem down_here (s : Screen rows cols) : s.down.here = s.here + 1 := by
  unfold down here
  split
  · exact (Nat.add_assoc _ _ _).symm
  · exact Nat.add_right_comm _ _ _

@[simp] theorem down_sequence (s : Screen rows cols) : s.down.sequence = s.sequence := by
  unfold down
  split <;> rfl

@[simp] theorem toCol_here (s : Screen rows cols) {col : Nat} (h : col ≤ cols) :
    (s.toCol col h).here = s.here := rfl

/-- Only lines that did not fit have scrolled off since the window was at `first`. -/
def Since (first : Nat) (s : Screen rows cols) : Prop :=
  s.top = first ∨ first ≤ s.top ∧ s.row + 1 = rows

theorem Since.down {first : Nat} (h : Since first s) : Since first s.down := by
  have hrow := s.row_lt
  unfold Screen.down
  split
  · rename_i hlt
    rcases h with htop | ⟨hle, hlast⟩
    · exact .inl htop
    · omega
  · refine .inr ⟨?_, by dsimp only; omega⟩
    rcases h with htop | ⟨hle, -⟩
    · exact htop ▸ Nat.le_succ _
    · exact hle.trans (Nat.le_succ _)

/-- **The window follows the cursor.** -/
theorem Since.top_eq {first : Nat} (h : Since first s) :
    s.top = first + (s.here + 1 - (first + rows)) := by
  have hrow := s.row_lt
  unfold here
  rcases h with htop | ⟨hle, hlast⟩ <;> omega

/-- **Printing text.**  It takes as many lines as its cells need. -/
theorem feedAll_text_moves (hs : s.sequence = .ground) (htext : ∀ b ∈ text, Printing b)
    {first : Nat} (hfirst : Since first s) :
    (s.feedAll text).sequence = .ground ∧ Since first (s.feedAll text) ∧
      (s.feedAll text).here = s.here + (s.col + text.length - 1) / cols := by
  induction text generalizing s with
  | nil =>
    refine ⟨hs, hfirst, ?_⟩
    have hcol := s.col_le
    have hpos := s.cols_pos
    have hzero : (s.col + 0 - 1) / cols = 0 := Nat.div_eq_of_lt (by omega)
    exact (congrArg (s.here + ·) hzero).symm
  | cons b text ih =>
    have hb := htext b List.mem_cons_self
    have hrest : ∀ c ∈ text, Printing c := fun c hc => htext c (List.mem_cons_of_mem _ hc)
    rw [feedAll_cons, feed_printing hs hb]
    unfold print
    by_cases hcol : s.col < cols
    · rw [dif_pos hcol]
      obtain ⟨hseq, hsince, hhere⟩ := ih (s := s.put b hcol) hs hrest hfirst
      refine ⟨hseq, hsince, hhere.trans ?_⟩
      change s.here + (s.col + 1 + text.length - 1) / cols = _
      rw [List.length_cons]
      congr 2
      omega
    · -- the cursor waits behind the last column
      rw [dif_neg hcol]
      have hlast : s.col = cols := Nat.le_antisymm s.col_le (Nat.le_of_not_lt hcol)
      obtain ⟨hseq, hsince, hhere⟩ := ih
        (s := (s.down.toCol 0 (Nat.zero_le _)).put b s.cols_pos) (s.down_sequence.trans hs) hrest
        hfirst.down
      refine ⟨hseq, hsince, hhere.trans ?_⟩
      change s.down.here + (0 + 1 + text.length - 1) / cols = _
      have hsucc : (s.col + (b :: text).length - 1) / cols = text.length / cols + 1 := by
        rw [← Nat.add_div_right _ s.cols_pos, hlast, List.length_cons]
        congr 1
        omega
      rw [down_here, hsucc, Nat.add_assoc]
      congr 1
      rw [Nat.add_comm]
      congr 2
      omega

theorem down_top_le (s : Screen rows cols) : s.top ≤ s.down.top := by
  unfold down
  split
  · exact Nat.le_refl _
  · exact Nat.le_succ _

/-- No byte scrolls back. -/
theorem feed_top_le (s : Screen rows cols) (b : UInt8) : s.top ≤ (s.feed b).top := by
  unfold feed
  split
  · exact Nat.le_refl _
  · split
    · split
      · exact Nat.le_refl _
      · split
        · exact s.down_top_le
        · split
          · unfold print
            split
            · exact Nat.le_refl _
            · exact s.down_top_le
          · exact Nat.le_refl _
    · exact Nat.le_refl _
    · split
      · exact Nat.le_refl _
      · unfold execute
        split
        · exact Nat.le_refl _
        · split <;> exact Nat.le_refl _

theorem feedAll_top_le (s : Screen rows cols) (bytes : List UInt8) :
    s.top ≤ (s.feedAll bytes).top := by
  induction bytes generalizing s with
  | nil => exact Nat.le_refl _
  | cons b bytes ih => exact (s.feed_top_le b).trans (ih (s.feed b))

/-- What does not scroll as a whole does not scroll up to any byte. -/
theorem feedAll_top_of_start {cut bytes : List UInt8} (hcut : cut <+: bytes)
    (htop : (s.feedAll bytes).top = s.top) : (s.feedAll cut).top = s.top := by
  obtain ⟨rest, rfl⟩ := hcut
  rw [feedAll_append] at htop
  exact Nat.le_antisymm (htop ▸ (s.feedAll cut).feedAll_top_le rest) (s.feedAll_top_le cut)

/-- A line and its line end. -/
theorem feedAll_line (hs : (s.feedAll text).sequence = .ground) :
    s.feedAll (text ++ [cr, lf]) = (s.feedAll text).down.toCol 0 (Nat.zero_le _) := by
  rw [feedAll_append, feedAll_newline hs]

/-- **Printing lines.**  Each takes as many lines as its cells need, and at least one. -/
theorem feedAll_lines_moves {ls : List (List UInt8)} {lines : Nat} (hs : s.sequence = .ground)
    (hcol : s.col = 0) (hls : ∀ l ∈ ls, ∀ b ∈ l, Printing b)
    (hlines : ∀ l ∈ ls, (l.length - 1) / cols + 1 = lines) {first : Nat} (hfirst : Since first s) :
    let t := s.feedAll (ls.flatMap (· ++ [cr, lf]))
    t.sequence = .ground ∧ t.col = 0 ∧ Since first t ∧ t.here = s.here + ls.length * lines := by
  induction ls generalizing s with
  | nil => exact ⟨hs, hcol, hfirst, by simp⟩
  | cons l ls ih =>
    obtain ⟨hseq, hsince, hhere⟩ := feedAll_text_moves hs (hls l List.mem_cons_self) hfirst
    obtain ⟨hseq', hcol', hsince', hhere'⟩ := ih (s := (s.feedAll l).down.toCol 0 (Nat.zero_le _))
      ((s.feedAll l).down_sequence.trans hseq) rfl
      (fun l' hl' => hls l' (List.mem_cons_of_mem _ hl'))
      (fun l' hl' => hlines l' (List.mem_cons_of_mem _ hl')) hsince.down
    rw [List.flatMap_cons, feedAll_append, feedAll_line hseq]
    refine ⟨hseq', hcol', hsince', hhere'.trans ?_⟩
    have hline := hlines l List.mem_cons_self
    rw [toCol_here, down_here, hhere, hcol, Nat.zero_add, List.length_cons, Nat.succ_mul]
    omega

/-! ## What is shown -/

/-- The cells of a line with a text written from a column on. -/
def written (cells : Nat → UInt8) (col : Nat) (text : List UInt8) : Nat → UInt8 := fun c =>
  if col ≤ c then text.getD (c - col) (cells c) else cells c

theorem written_cons (cells : Nat → UInt8) (col : Nat) (b : UInt8) (text : List UInt8) :
    written (Function.update cells col b) (col + 1) text = written cells col (b :: text) := by
  funext c
  unfold written
  rcases Nat.lt_trichotomy c col with hlt | rfl | hlt
  · rw [if_neg (by omega), if_neg (by omega), Function.update_of_ne (by omega)]
  · rw [if_neg (by omega), if_pos (Nat.le_refl _), Function.update_self, Nat.sub_self]
    rfl
  · rw [if_pos (by omega), if_pos (by omega), Function.update_of_ne (by omega),
      show c - col = c - (col + 1) + 1 by omega]
    rfl

theorem written_full (cells : Nat → UInt8) {width : Nat} (hwidth : text.length = width) :
    (List.range width).map (written cells 0 text) = text := by
  subst hwidth
  refine List.ext_getElem (by simp) fun i hi hi' => ?_
  rw [List.getElem_map, List.getElem_range]
  unfold written
  rw [if_pos (Nat.zero_le _), Nat.sub_zero, List.getD_eq_getElem?_getD,
    List.getElem?_eq_getElem hi', Option.getD_some]

/-- A row that ends one cell short, and is erased from there on. -/
theorem written_erased (cells : Nat → UInt8) {width : Nat} (hwidth : text.length + 1 = width) :
    (List.range width).map (fun c =>
      if text.length ≤ c then blank else written cells 0 text c) = text ++ [blank] := by
  subst hwidth
  rw [List.range_succ, List.map_append, List.map_singleton, if_pos (Nat.le_refl _)]
  congr 1
  refine (List.map_congr_left fun c hc => if_neg ?_).trans (written_full cells rfl)
  exact Nat.not_le.mpr (List.mem_range.mp hc)

/-- The screen with a text written at the cursor. -/
def write (s : Screen rows cols) (text : List UInt8) (h : s.col + text.length ≤ cols) :
    Screen rows cols :=
  { s with
    line := Function.update s.line s.here (written (s.line s.here) s.col text)
    col := s.col + text.length
    col_le := h }

/-- **Text that fits** is written where the cursor is. -/
theorem feedAll_text (hs : s.sequence = .ground) (htext : ∀ b ∈ text, Printing b)
    (hfit : s.col + text.length ≤ cols) : s.feedAll text = s.write text hfit := by
  induction text generalizing s with
  | nil =>
    have hline : written (s.line s.here) s.col [] = s.line s.here := by
      funext c
      unfold written
      split_ifs <;> rfl
    unfold write
    rw [hline, Function.update_eq_self]
    rfl
  | cons b text ih =>
    rw [List.length_cons] at hfit
    have hcol : s.col < cols := by omega
    have hrest := ih (s := s.put b hcol) hs (fun c hc => htext c (List.mem_cons_of_mem _ hc))
      (show s.col + 1 + text.length ≤ cols by omega)
    rw [feedAll_cons, feed_printing hs (htext b List.mem_cons_self)]
    unfold print
    rw [dif_pos hcol, hrest]
    have hline : Function.update (s.put b hcol).line s.here
        (written ((s.put b hcol).line s.here) (s.col + 1) text) =
        Function.update s.line s.here (written (s.line s.here) s.col (b :: text)) := by
      unfold put
      dsimp only
      rw [Function.update_self, Function.update_idem, written_cons]
    have hlast : s.col + 1 + text.length = s.col + (b :: text).length := by
      rw [List.length_cons]
      omega
    unfold write
    congr 1

/-- A full line above the last row, with its line end. -/
theorem feedAll_row (hs : s.sequence = .ground) (hcol : s.col = 0)
    (htext : ∀ b ∈ text, Printing b) (hwidth : text.length = cols) (hrow : s.row + 1 < rows) :
    ∃ t, s.feedAll (text ++ [cr, lf]) = t ∧ t.sequence = .ground ∧ t.top = s.top ∧
      t.row = s.row + 1 ∧ t.col = 0 ∧ (List.range cols).map (t.line s.here) = text ∧
      ∀ l, l ≠ s.here → t.line l = s.line l := by
  have hfit : s.col + text.length ≤ cols := by omega
  have hwrite := feedAll_text hs htext hfit
  have hdown : s.feedAll (text ++ [cr, lf]) = _ := feedAll_line (by rw [hwrite]; exact hs)
  rw [hwrite] at hdown
  unfold down at hdown
  rw [dif_pos (show (s.write text hfit).row + 1 < rows from hrow)] at hdown
  refine ⟨_, hdown, hs, rfl, rfl, rfl, ?_, fun l hl => Function.update_of_ne hl _ _⟩
  have hcells : (s.write text hfit).line s.here = written (s.line s.here) 0 text := by
    unfold write
    dsimp only
    rw [Function.update_self, hcol]
  change (List.range cols).map ((s.write text hfit).line s.here) = text
  rw [hcells, written_full _ hwidth]

/-- **Full rows** above the last row are shown as they are, and nothing scrolls. -/
theorem feedAll_rows {ls : List (List UInt8)} (hs : s.sequence = .ground) (hcol : s.col = 0)
    (hls : ∀ l ∈ ls, ∀ b ∈ l, Printing b) (hwidth : ∀ l ∈ ls, l.length = cols)
    (hfit : s.row + ls.length < rows) :
    let t := s.feedAll (ls.flatMap (· ++ [cr, lf]))
    t.sequence = .ground ∧ t.top = s.top ∧ t.row = s.row + ls.length ∧ t.col = 0 ∧
      (∀ i, (h : i < ls.length) → (List.range cols).map (t.line (s.here + i)) = ls[i]) ∧
      ∀ l, l < s.here → t.line l = s.line l := by
  induction ls generalizing s with
  | nil => exact ⟨hs, rfl, rfl, hcol, fun i h => absurd h (Nat.not_lt_zero _), fun l _ => rfl⟩
  | cons l ls ih =>
    rw [List.length_cons] at hfit
    obtain ⟨u, hu, hseq, htop, hrow, hzero, hshown, hother⟩ :=
      feedAll_row hs hcol (hls l List.mem_cons_self) (hwidth l List.mem_cons_self) (by omega)
    obtain ⟨hseq', htop', hrow', hzero', hshown', hother'⟩ := ih hseq hzero
      (fun l' hl' => hls l' (List.mem_cons_of_mem _ hl'))
      (fun l' hl' => hwidth l' (List.mem_cons_of_mem _ hl')) (by omega)
    have hhere : u.here = s.here + 1 := by
      unfold here
      omega
    rw [List.flatMap_cons, feedAll_append, hu]
    refine ⟨hseq', htop'.trans htop, by rw [hrow', hrow, List.length_cons]; omega, hzero', ?_, ?_⟩
    · intro i hi
      cases i with
      | zero => rw [Nat.add_zero, hother' s.here (by omega), hshown]; rfl
      | succ i =>
        have hnext := hshown' i (Nat.lt_of_succ_lt_succ hi)
        rw [hhere, Nat.add_assoc, Nat.add_comm 1 i] at hnext
        exact hnext
    · intro l' hl'
      rw [hother' l' (by omega), hother l' (by omega)]

/-! ## Painting the whole screen -/

/-- Move home, print full rows, and a last row that leaves its last cell to be erased. -/
def picture (body : List (List UInt8)) (last : List UInt8) : List UInt8 :=
  [esc, bracket, 0x48] ++ body.flatMap (· ++ [cr, lf]) ++ last ++ [esc, bracket, 0x4B]

theorem feedAll_picture_eq (hs : s.sequence = .ground) (body : List (List UInt8))
    (last : List UInt8) : s.feedAll (picture body last) =
      ((s.home.feedAll (body.flatMap (· ++ [cr, lf]))).feedAll last).feedAll
        [esc, bracket, 0x4B] := by
  unfold picture
  rw [feedAll_append, feedAll_append, feedAll_append, feedAll_home hs]

/-- **Painting.**  Whatever was on the screen, a picture of its size replaces all of it,
does not scroll, and leaves the cursor in the last cell. -/
theorem feedAll_picture {body : List (List UInt8)} {last : List UInt8} (hs : s.sequence = .ground)
    (hprinting : ∀ l ∈ body ++ [last], ∀ b ∈ l, Printing b) (hwidth : ∀ l ∈ body, l.length = cols)
    (hlast : last.length + 1 = cols) (hheight : body.length + 1 = rows) :
    let t := s.feedAll (picture body last)
    t.sequence = .ground ∧ t.top = s.top ∧ t.row + 1 = rows ∧ t.col + 1 = cols ∧
      ∀ i, (h : i < (body ++ [last ++ [blank]]).length) →
        t.shown i = (body ++ [last ++ [blank]])[i] := by
  have hbody := fun l hl => hprinting l (List.mem_append_left [last] hl)
  have hend := hprinting last (List.mem_append_right _ (List.mem_singleton_self _))
  obtain ⟨hseq, htop, hrow, hcol, hshown, -⟩ := feedAll_rows (s := s.home) hs rfl hbody hwidth
    (show 0 + body.length < rows by omega)
  rw [feedAll_picture_eq hs]
  generalize s.home.feedAll (body.flatMap (· ++ [cr, lf])) = u at hseq htop hrow hcol hshown ⊢
  change u.top = s.top at htop
  change u.row = 0 + body.length at hrow
  have hfit : u.col + last.length ≤ cols := by omega
  rw [feedAll_text hseq hend hfit, feedAll_eraseRight (s := u.write last hfit) hseq]
  refine ⟨hseq, htop, ?_, ?_, ?_⟩
  · change u.row + 1 = rows
    omega
  · change u.col + last.length + 1 = cols
    omega
  · intro i hi
    have hother : ∀ l, l ≠ u.here → (u.write last hfit).eraseRight.line l = u.line l := by
      intro l hl
      exact (Function.update_of_ne hl _ _).trans (Function.update_of_ne hl _ _)
    have hlastRow : (u.write last hfit).eraseRight.line u.here = fun c =>
        if last.length ≤ c then blank else written (u.line u.here) 0 last c := by
      have hcells : (u.write last hfit).line u.here = written (u.line u.here) 0 last := by
        unfold write
        dsimp only
        rw [Function.update_self, hcol]
      have hfrom : min (u.col + last.length) (cols - 1) = last.length := by omega
      refine (Function.update_self _ _ _).trans ?_
      change (fun c => if min (u.col + last.length) (cols - 1) ≤ c then blank
        else (u.write last hfit).line u.here c) = _
      rw [hfrom, hcells]
    change (List.range cols).map ((u.write last hfit).eraseRight.line (u.top + i)) = _
    rw [List.length_append, List.length_singleton] at hi
    by_cases hrow' : i < body.length
    · have hne : u.top + i ≠ u.here := by
        unfold here
        omega
      rw [hother _ hne, htop, List.getElem_append_left hrow']
      exact hshown i hrow'
    · have hhere : u.top + i = u.here := by
        unfold here
        omega
      rw [hhere, hlastRow, written_erased _ hlast,
        List.getElem_append_right (Nat.le_of_not_lt hrow')]
      simp

/-- **Scrolling.**  A picture scrolls a screen of any size by the lines it takes beyond
the last row. -/
theorem feedAll_picture_scrolls {body : List (List UInt8)} {last : List UInt8} {width : Nat}
    (hs : s.sequence = .ground) (hprinting : ∀ l ∈ body ++ [last], ∀ b ∈ l, Printing b)
    (hwidth : ∀ l ∈ body, l.length = width) (hlast : last.length + 1 = width) :
    let t := s.feedAll (picture body last)
    t.sequence = .ground ∧
      t.top = s.top + (body.length * ((width - 1) / cols + 1) + (width - 2) / cols + 1 - rows) := by
  have hbody := fun l hl => hprinting l (List.mem_append_left [last] hl)
  have hend := hprinting last (List.mem_append_right _ (List.mem_singleton_self _))
  have hlines : ∀ l ∈ body, (l.length - 1) / cols + 1 = (width - 1) / cols + 1 := by
    intro l hl
    rw [hwidth l hl]
  obtain ⟨hseq, hcol, hsince, hhere⟩ := feedAll_lines_moves (s := s.home) hs rfl hbody hlines
    (show Since s.top s.home from .inl rfl)
  rw [feedAll_picture_eq hs]
  generalize s.home.feedAll (body.flatMap (· ++ [cr, lf])) = u at hseq hcol hsince hhere ⊢
  obtain ⟨hseq', hsince', hhere'⟩ := feedAll_text_moves hseq hend hsince
  rw [feedAll_eraseRight hseq']
  refine ⟨hseq', ?_⟩
  change (u.feedAll last).top = _
  have hhome : s.home.here = s.top := rfl
  have hwide : (0 + last.length - 1) / cols = (width - 2) / cols := by
    congr 1
    omega
  rw [hsince'.top_eq, hhere', hhere, hhome, hcol, hwide]
  omega

/-- A line printed in the last row scrolls by the lines it takes. -/
theorem feedAll_line_scrolls (hs : s.sequence = .ground) (htext : ∀ b ∈ text, Printing b)
    (hrow : s.row + 1 = rows) :
    (s.feedAll (text ++ [cr, lf])).top = s.top + (s.col + text.length - 1) / cols + 1 := by
  obtain ⟨hseq, hsince, hhere⟩ := feedAll_text_moves hs htext (show Since s.top s from .inl rfl)
  rw [feedAll_line hseq]
  have hdown := hsince.down
  change (s.feedAll text).down.top = _
  rw [hdown.top_eq, down_here, hhere]
  have hstart : s.here = s.top + s.row := rfl
  generalize (s.col + text.length - 1) / cols = k
  omega

/-- Behind the last column the next text goes to the next line. -/
theorem feedAll_wraps (hs : s.sequence = .ground) (htext : ∀ b ∈ text, Printing b) (hne : text ≠ [])
    (hcol : s.col = cols) : s.feedAll text = (s.down.toCol 0 (Nat.zero_le _)).feedAll text := by
  cases text with
  | nil => exact absurd rfl hne
  | cons b text =>
    have hb := htext b List.mem_cons_self
    have hnext : (s.down.toCol 0 (Nat.zero_le _)).sequence = .ground := s.down_sequence.trans hs
    rw [feedAll_cons, feedAll_cons, feed_printing hs hb, feed_printing hnext hb]
    unfold print
    rw [dif_neg (by omega),
      dif_pos (show (s.down.toCol 0 (Nat.zero_le _)).col < cols from s.cols_pos)]

/-- A text at the beginning of a blank line. -/
theorem written_blank {width : Nat} (hfit : text.length ≤ width) :
    (List.range width).map (written (fun _ => blank) 0 text) =
      text ++ List.replicate (width - text.length) blank := by
  refine List.ext_getElem (by simp; omega) fun i hi hi' => ?_
  rw [List.getElem_map, List.getElem_range, List.getElem_append]
  unfold written
  rw [if_pos (Nat.zero_le _), Nat.sub_zero, List.getD_eq_getElem?_getD]
  split
  · rename_i hlt
    rw [List.getElem?_eq_getElem hlt, Option.getD_some]
  · rename_i hge
    rw [List.getElem?_eq_none (Nat.le_of_not_lt hge), List.getElem_replicate]
    rfl

/-- In the last column all others are left of the cursor. -/
theorem range_cols (s : Screen rows cols) (hcol : s.col + 1 = cols) :
    List.range cols = List.range s.col ++ [s.col] := by
  rw [← List.range_succ]
  exact congrArg List.range hcol.symm

/-- **A line that starts in the last cell is torn**: its first byte stays there, and the
rest goes to a line of its own. -/
theorem feedAll_torn (hs : s.sequence = .ground) {b : UInt8} (hb : Printing b)
    (htext : ∀ c ∈ text, Printing c) (hne : text ≠ []) (hfit : text.length ≤ cols)
    (hrow : s.row + 1 = rows) (hcol : s.col + 1 = cols) :
    let t := s.feedAll (b :: (text ++ [cr, lf]))
    (List.range cols).map (t.line s.here) = (List.range s.col).map (s.line s.here) ++ [b] ∧
      (List.range cols).map (t.line (s.here + 1)) =
        text ++ List.replicate (cols - text.length) blank := by
  have hhere : s.here + 1 = s.top + rows := by
    unfold here
    omega
  have hlt : s.col < cols := by omega
  have hput : s.feed b = s.put b hlt := by
    rw [feed_printing hs hb]
    exact dif_pos hlt
  obtain ⟨u, hu⟩ : ∃ u, u = (s.put b hlt).down.toCol 0 (Nat.zero_le _) := ⟨_, rfl⟩
  have hwraps := feedAll_wraps (s := s.put b hlt) hs htext hne hcol
  rw [← hu] at hwraps
  rw [down_of_last (s := s.put b hlt) hrow] at hu
  have hseq : u.sequence = .ground := hu ▸ hs
  have hcol' : u.col = 0 := hu ▸ rfl
  have hnext : u.here = s.here + 1 := by
    rw [hu]
    exact Nat.add_right_comm _ _ _
  have htop : u.top + rows = s.here + 2 := by
    rw [hu]
    change s.top + 1 + rows = _
    omega
  have hrow' : u.row + 1 = rows := hu ▸ hrow
  have hfit' : u.col + text.length ≤ cols := by omega
  have htext' := feedAll_text hseq htext hfit'
  have hfirst : u.line s.here = Function.update (s.line s.here) s.col b := by
    rw [hu]
    have hne : s.here ≠ s.top + rows := by omega
    exact (Function.update_of_ne hne _ _).trans (Function.update_self _ _ _)
  have hsecond : u.line u.here = fun _ => blank := by
    rw [hnext, hhere, hu]
    exact Function.update_self _ _ _
  have hlines : (s.feedAll (b :: (text ++ [cr, lf]))).line =
      Function.update (Function.update u.line u.here (written (u.line u.here) 0 text))
        (u.top + rows) fun _ => blank := by
    rw [feedAll_cons, hput, feedAll_append, hwraps, htext',
      feedAll_newline (s := u.write text hfit') hseq, down_of_last (s := u.write text hfit') hrow']
    unfold write toCol
    dsimp only
    rw [hcol']
  dsimp only
  rw [hlines]
  constructor
  · rw [Function.update_of_ne (by omega), Function.update_of_ne (by omega), hfirst,
      s.range_cols hcol, List.map_append, List.map_singleton, Function.update_self]
    congr 1
    refine List.map_congr_left fun c hc => Function.update_of_ne ?_ _ _
    exact Nat.ne_of_lt (List.mem_range.mp hc)
  · rw [Function.update_of_ne (by omega), ← hnext, Function.update_self, hsecond,
      written_blank hfit]

end Screen
end Vt
