import Csopesy.FrameGeometry

/-! # The scrolling band

The band is a window onto an endless blank strip that carries the text
(`stripAt`, `sliceRow_eq`).  A rendered frame moves the window one column along
the strip, and after the last position of the period it returns to the first;
the wrap is not visible, because both windows are blank there
(`sliceRow_succ`).  Over a period every byte of the text enters once and crosses
every column (`scrolling_lossless`).  A move shows unless the window and the column that enters
hold one and the same byte (`Still`), and unless the terminal has no band row or
no band column (`paintedBand_succ_eq_iff`).
-/
namespace Csopesy

/-! ## The window onto the strip -/

/-- The byte at a position of the strip: the text from 0 on, spaces elsewhere. -/
def stripAt (text : Bytes) (index : Int) : UInt8 :=
  if 0 ≤ index ∧ index < (text.length : Int) then text.getD index.toNat space else space

theorem stripAt_of_neg {text : Bytes} {index : Int} (h : index < 0) : stripAt text index = space :=
  if_neg (by omega)

theorem stripAt_of_length_le {text : Bytes} {index : Int} (h : (text.length : Int) ≤ index) :
    stripAt text index = space :=
  if_neg (by omega)

theorem sliceRow_eq (text : Bytes) {bandWidth : Int} (hw : 1 ≤ bandWidth) (offset : Int) :
    sliceRow text bandWidth offset =
      (List.range bandWidth.toNat).map fun col : Nat => stripAt text (offset - bandWidth + (col : Int)) := by
  unfold sliceRow
  rw [if_neg (by omega)]
  rfl

/-! ## Moving the window -/

theorem scrollOffset_eq_emod (cycles : Int) {textWidth bandWidth : Int}
    (h : 0 < textWidth + bandWidth) :
    scrollOffset cycles textWidth bandWidth = cycles % (textWidth + bandWidth) := by
  unfold scrollOffset
  dsimp only
  rw [if_neg (by omega)]
  have hlo := Int.emod_nonneg cycles (show textWidth + bandWidth ≠ 0 by omega)
  have hhi := Int.emod_lt_of_pos cycles h
  rw [Int.tmod_eq_emod]
  split <;> split <;> omega

theorem scrollOffset_mem (cycles : Int) {textWidth bandWidth : Int}
    (h : 0 < textWidth + bandWidth) :
    0 ≤ scrollOffset cycles textWidth bandWidth ∧
      scrollOffset cycles textWidth bandWidth < textWidth + bandWidth := by
  rw [scrollOffset_eq_emod cycles h]
  exact ⟨Int.emod_nonneg cycles (by omega), Int.emod_lt_of_pos cycles h⟩

/-- One cycle moves the offset by one, or from the end of the period to 0. -/
theorem scrollOffset_succ (cycles : Int) {textWidth bandWidth : Int}
    (h : 0 < textWidth + bandWidth) :
    scrollOffset (cycles + 1) textWidth bandWidth =
      if scrollOffset cycles textWidth bandWidth + 1 = textWidth + bandWidth then 0
      else scrollOffset cycles textWidth bandWidth + 1 := by
  obtain ⟨hlo, hhi⟩ := scrollOffset_mem cycles h
  have hsucc : scrollOffset (cycles + 1) textWidth bandWidth =
      (scrollOffset cycles textWidth bandWidth + 1) % (textWidth + bandWidth) := by
    rw [scrollOffset_eq_emod _ h, scrollOffset_eq_emod _ h, Int.emod_add_emod]
  rw [hsucc]
  split
  · rename_i hwrap
    rw [hwrap, Int.emod_self]
  · exact Int.emod_eq_of_lt (by omega) (by omega)

/-- **One cycle moves the window one column along the strip**, also at the wrap. -/
theorem sliceRow_succ (text : Bytes) {bandWidth : Int} (hw : 1 ≤ bandWidth) (cycles : Int) :
    sliceRow text bandWidth (scrollOffset (cycles + 1) text.length bandWidth) =
      (List.range bandWidth.toNat).map fun col : Nat =>
        stripAt text (scrollOffset cycles text.length bandWidth - bandWidth + (col : Int) + 1) := by
  rw [sliceRow_eq text hw, scrollOffset_succ cycles (by omega)]
  apply List.map_congr_left
  intro col hcol
  have hlt : (col : Int) < bandWidth := by
    have := List.mem_range.mp hcol
    omega
  split
  · -- at the wrap the window shows blanks only, before the strip and after it
    rename_i hwrap
    rw [stripAt_of_neg (by omega), stripAt_of_length_le (by omega)]
  · congr 1
    omega

/-- The window at `offset` and the column that enters next hold one byte. -/
def Still (text : Bytes) (bandWidth offset : Int) : Prop :=
  ∀ col : Nat, col < bandWidth.toNat → stripAt text (offset - bandWidth + (col : Int) + 1) =
    stripAt text (offset - bandWidth + (col : Int))

instance (text : Bytes) (bandWidth offset : Int) : Decidable (Still text bandWidth offset) :=
  inferInstanceAs (Decidable (∀ col : Nat, col < bandWidth.toNat → _ = _))

theorem sliceRow_succ_eq_iff (text : Bytes) {bandWidth : Int} (hw : 1 ≤ bandWidth) (cycles : Int) :
    sliceRow text bandWidth (scrollOffset (cycles + 1) text.length bandWidth) =
        sliceRow text bandWidth (scrollOffset cycles text.length bandWidth) ↔
      Still text bandWidth (scrollOffset cycles text.length bandWidth) := by
  rw [sliceRow_succ text hw, sliceRow_eq text hw, List.map_inj_left]
  simp only [List.mem_range]
  rfl

/-! ## One period -/

section
variable (text : Bytes) {w : Int} (hw : 1 ≤ w)

/-- The band after `cycles` cycles. -/
def bandAt (w cycles : Int) : Bytes := sliceRow text w (scrollOffset cycles text.length w)

/-- The strip over one period: the text, then one window of blanks. -/
def strip (w : Int) : Bytes := text ++ List.replicate w.toNat space

theorem stripAt_of_lt {index : Nat} (h : index < text.length) :
    stripAt text index = text[index] := by
  unfold stripAt
  rw [if_pos (by omega), Int.toNat_natCast, List.getD_eq_getElem?_getD,
    List.getElem?_eq_getElem h, Option.getD_some]

include hw

theorem bandAt_length (cycles : Int) : (bandAt text w cycles).length = w.toNat := by
  unfold bandAt
  rw [sliceRow_eq text hw, List.length_map, List.length_range]

theorem bandAt_getElem? (cycles : Int) {col : Nat} (hcol : col < w.toNat) :
    (bandAt text w cycles)[col]? =
      some (stripAt text (scrollOffset cycles text.length w - w + (col : Int))) := by
  unfold bandAt
  rw [sliceRow_eq text hw, List.getElem?_map, List.getElem?_range hcol, Option.map_some]

/-- **Continuity**, also across the wrap. -/
theorem bandAt_succ (cycles : Int) {col : Nat} (hcol : (col : Int) < w - 1) :
    (bandAt text w (cycles + 1))[col]? = (bandAt text w cycles)[col + 1]? := by
  rw [bandAt_getElem? text hw cycles (by omega)]
  unfold bandAt
  rw [sliceRow_succ text hw, List.getElem?_map, List.getElem?_range (by omega), Option.map_some,
    Nat.cast_add, Nat.cast_one, add_assoc]

/-- The column that enters is the one before the offset. -/
theorem bandAt_last (cycles : Int) :
    (bandAt text w cycles)[w.toNat - 1]? =
      some (stripAt text (scrollOffset cycles text.length w - 1)) := by
  rw [bandAt_getElem? text hw cycles (by omega)]
  congr 2
  omega

/-- **What enters crosses every column**, one each cycle. -/
theorem bandAt_cross (cycles : Int) {k : Nat} (hk : k < w.toNat) :
    (bandAt text w (cycles + k))[w.toNat - 1 - k]? = (bandAt text w cycles)[w.toNat - 1]? := by
  induction k with
  | zero => rw [Nat.cast_zero, Int.add_zero, Nat.sub_zero]
  | succ k ih =>
    have hstep := bandAt_succ text hw (cycles + k) (show ((w.toNat - 1 - (k + 1) : Nat) : Int) < w - 1 by omega)
    rw [show w.toNat - 1 - (k + 1) + 1 = w.toNat - 1 - k by omega, ih (by omega)] at hstep
    rw [Nat.cast_add, Nat.cast_one, ← add_assoc, hstep]

/-- The strip of a period repeats the blanks before the text. -/
theorem strip_getElem? (cycles : Int) :
    (strip text w)[(cycles % (text.length + w)).toNat]? =
      some (stripAt text (scrollOffset (cycles + 1) text.length w - 1)) := by
  have hperiod : 0 < (text.length : Int) + w := by omega
  obtain ⟨hlo, hhi⟩ := scrollOffset_mem cycles hperiod
  rw [← scrollOffset_eq_emod cycles hperiod, scrollOffset_succ cycles hperiod]
  unfold strip
  split
  · -- the last position of the period is a blank of the strip, and the offset is 0
    rename_i hwrap
    rw [stripAt_of_neg (by omega), List.getElem?_append_right (by omega), List.getElem?_replicate,
      if_pos (by omega)]
  · rw [Int.add_sub_cancel]
    by_cases htext : scrollOffset cycles text.length w < text.length
    · obtain ⟨index, hindex⟩ := Int.eq_ofNat_of_zero_le hlo
      rw [hindex] at htext ⊢
      have hlt : index < text.length := by omega
      rw [Int.toNat_natCast, List.getElem?_append_left hlt, stripAt_of_lt text hlt,
        List.getElem?_eq_getElem hlt]
    · rw [stripAt_of_length_le (by omega), List.getElem?_append_right (by omega),
        List.getElem?_replicate, if_pos (by omega)]

/-- **A period is lossless.**  Over one period the entering bytes are the strip, from
where the period began. -/
theorem entering_period (cycles : Int) :
    ((List.range (text.length + w.toNat)).map fun j : Nat =>
        stripAt text (scrollOffset (cycles + j + 1) text.length w - 1)) =
      (strip text w).rotate (cycles % (text.length + w)).toNat := by
  have hlength : (strip text w).length = text.length + w.toNat := by
    unfold strip
    rw [List.length_append, List.length_replicate]
  apply List.ext_getElem
  · rw [List.length_map, List.length_range, List.length_rotate, hlength]
  · intro j hj hj'
    rw [List.getElem_map, List.getElem_range, List.getElem_rotate]
    refine Option.some.inj ?_
    rw [← strip_getElem? text hw, ← List.getElem?_eq_getElem]
    congr 1
    rw [hlength]
    have hnonneg := Int.emod_nonneg cycles (show (text.length : Int) + w ≠ 0 by omega)
    have hnonneg' := Int.emod_nonneg (cycles + j) (show (text.length : Int) + w ≠ 0 by omega)
    apply Int.natCast_inj.mp
    rw [Int.toNat_of_nonneg hnonneg', Int.natCast_emod, Int.natCast_add, Int.natCast_add,
      Int.toNat_of_nonneg hnonneg, Int.toNat_of_nonneg (by omega), Int.add_emod_emod, add_comm]

/-- An offset of the period shows a blank band exactly when it is 0. -/
theorem sliceRow_blank_iff (hne : text ≠ []) (hspace : space ∉ text) {offset : Int}
    (hlo : 0 ≤ offset) (hhi : offset < text.length + w) :
    sliceRow text w offset = List.replicate w.toNat space ↔ offset = 0 := by
  rw [sliceRow_eq text hw]
  constructor
  · intro hblank
    by_contra hoffset
    -- some column shows a byte of the text
    obtain ⟨col, index, hcol, hindex, hshown⟩ : ∃ col index : Nat, col < w.toNat ∧
        index < text.length ∧ offset - w + (col : Int) = index := by
      by_cases hleft : offset ≤ w
      · have hlength := List.length_pos_iff.mpr hne
        exact ⟨(w - offset).toNat, 0, by omega, hlength, by omega⟩
      · exact ⟨0, (offset - w).toNat, by omega, by omega, by omega⟩
    have hbyte := congrArg (fun row : Bytes => row[col]?) hblank
    rw [List.getElem?_map, List.getElem?_range hcol, Option.map_some, hshown,
      stripAt_of_lt text hindex, List.getElem?_replicate, if_pos hcol] at hbyte
    exact hspace (Option.some.inj hbyte ▸ List.getElem_mem hindex)
  · rintro rfl
    apply List.ext_getElem
    · rw [List.length_map, List.length_range, List.length_replicate]
    · intro col hcol _
      rw [List.length_map, List.length_range] at hcol
      rw [List.getElem_map, List.getElem_range, List.getElem_replicate, stripAt_of_neg (by omega)]

/-- Each index of the text enters exactly once in a period. -/
theorem enters_once (cycles : Int) {index : Nat} (hindex : index < text.length) :
    ∃! j : Nat, j < text.length + w.toNat ∧
      scrollOffset (cycles + j + 1) text.length w = index + 1 := by
  have hperiod : 0 < (text.length : Int) + w := by omega
  have hlo := Int.emod_nonneg (index - cycles) (show (text.length : Int) + w ≠ 0 by omega)
  have hhi := Int.emod_lt_of_pos (index - cycles) hperiod
  simp only [scrollOffset_eq_emod _ hperiod]
  refine ⟨((index - cycles) % (text.length + w)).toNat, ⟨by omega, ?_⟩, ?_⟩
  · rw [Int.toNat_of_nonneg hlo, add_right_comm, Int.add_emod_emod,
      show cycles + 1 + (index - cycles) = (index : Int) + 1 by omega]
    exact Int.emod_eq_of_lt (by omega) (by omega)
  · rintro j ⟨hj, hoffset⟩
    have hdiv := Int.mul_ediv_add_emod (cycles + j + 1) (text.length + w)
    rw [hoffset] at hdiv
    have hsame : (index : Int) - cycles =
        j + (text.length + w) * (-((cycles + j + 1) / (text.length + w))) := by
      rw [Int.mul_neg]
      omega
    rw [hsame, Int.add_mul_emod_self_left, Int.emod_eq_of_lt (by omega) (by omega),
      Int.toNat_natCast]

/-- **Scrolling is continuous and lossless.**  The band has its width; a cycle shifts
it by one column, also across the wrap, and lets in the byte before the new offset;
what enters crosses every column; over a period, wherever it begins, the entering
bytes are the text and one window of blanks, each index once and in order; and the
blank band of a text without spaces is seen at offset 0 only. -/
theorem scrolling_lossless :
    (∀ cycles, (bandAt text w cycles).length = w.toNat) ∧
    (∀ cycles (col : Nat), (col : Int) < w - 1 →
      (bandAt text w (cycles + 1))[col]? = (bandAt text w cycles)[col + 1]?) ∧
    (∀ cycles offset, offset = scrollOffset (cycles + 1) text.length w →
      (bandAt text w (cycles + 1))[w.toNat - 1]? =
        some (if 1 ≤ offset ∧ offset ≤ text.length then text.getD (offset - 1).toNat space
          else space)) ∧
    (∀ cycles (k : Nat), k < w.toNat →
      (bandAt text w (cycles + k))[w.toNat - 1 - k]? = (bandAt text w cycles)[w.toNat - 1]?) ∧
    (∀ cycles, ((List.range (text.length + w.toNat)).map fun j : Nat =>
        (bandAt text w (cycles + j + 1))[w.toNat - 1]?) =
      ((strip text w).rotate (cycles % (text.length + w)).toNat).map some) ∧
    (∀ cycles (index : Nat), index < text.length →
      ∃! j : Nat, j < text.length + w.toNat ∧
        scrollOffset (cycles + j + 1) text.length w = index + 1) ∧
    (text ≠ [] → space ∉ text → ∀ offset, 0 ≤ offset → offset < text.length + w →
      (sliceRow text w offset = List.replicate w.toNat space ↔ offset = 0)) := by
  refine ⟨bandAt_length text hw, fun cycles col => bandAt_succ text hw cycles, ?_,
    fun cycles k => bandAt_cross text hw cycles, ?_, fun cycles index => enters_once text hw cycles,
    fun hne hspace offset => sliceRow_blank_iff text hw hne hspace⟩
  · rintro cycles offset rfl
    rw [bandAt_last text hw]
    exact congrArg some (if_congr (by omega) rfl rfl)
  · intro cycles
    simp only [bandAt_last text hw]
    rw [← entering_period text hw, List.map_map]
    rfl

omit hw in
/-- A text as long as its band, across the wrap from the last offset to 0. -/
theorem scrolling_lossless_wrap :
    (bandAt (ascii "AB") 2 4)[0]? = (bandAt (ascii "AB") 2 3)[1]? :=
  (scrolling_lossless (ascii "AB") (show (1 : Int) ≤ 2 by decide)).2.1 3 0 (by decide)

end

namespace Renderer

/-! ## The band row of a frame -/

theorem bandWidthFor_pos (cols : Int) : 1 ≤ bandWidthFor cols := by
  unfold bandWidthFor
  split <;> omega

/-- From two columns on, the padded band row shows the whole band. -/
theorem paddedBand_inj {cols : Int} (hc : 2 ≤ cols) {b b' : Bytes}
    (hb : b.length = (bandWidthFor cols).toNat) (hb' : b'.length = (bandWidthFor cols).toNat) :
    padOrClip ([space] ++ b ++ [space]) cols = padOrClip ([space] ++ b' ++ [space]) cols ↔
      b = b' := by
  have hwidth : (bandWidthFor cols).toNat + 1 ≤ cols.toNat ∧
      cols.toNat ≤ (bandWidthFor cols).toNat + 2 := by
    unfold bandWidthFor
    split <;> omega
  have hclip : ∀ d : Bytes, d.length = (bandWidthFor cols).toNat →
      ((padOrClip ([space] ++ d ++ [space]) cols).drop 1).take (bandWidthFor cols).toNat = d := by
    intro d hd
    unfold padOrClip
    rw [if_neg (by omega), if_pos (by simp; omega), List.drop_take, List.take_take,
      List.append_assoc, List.singleton_append, List.drop_one, List.tail_cons,
      Nat.min_eq_left (by omega), ← hd, List.take_left]
  constructor
  · intro h
    rw [← hclip b hb, h, hclip b' hb']
  · rintro rfl
    rfl

/-- In a single column the band row shows the margin only. -/
theorem paddedBand_one (b : Bytes) : padOrClip ([space] ++ b ++ [space]) 1 = [space] := by
  unfold padOrClip
  rw [if_neg (by omega), if_pos (by simp; omega)]
  rfl

/-- The band row of a frame, from the text, the count and the size it is built
for. -/
def paintedBand (text : Bytes) (cycles rows cols : Int) : Bytes :=
  if bandRow rows > 0 then
    padOrClip ([space] ++ sliceRow text (bandWidthFor cols)
      (scrollOffset cycles text.length (bandWidthFor cols)) ++ [space]) cols
  else []

/-- Nothing else about a frame reaches its band row. -/
theorem bandRowBytes_eq_paintedBand (params : Parameters) (proc : MarqueeProcess)
    (prompt buffer message : Bytes) {rows cols : Int} (hr : 1 ≤ rows) (hc : 1 ≤ cols) :
    bandRowBytes (buildFrame params proc prompt buffer message rows cols) rows cols =
      paintedBand params.text proc.cycles rows cols :=
  bandRowBytes_buildFrame params proc prompt buffer message hr hc

theorem bandRow_pos_iff {rows : Int} (hr : 1 ≤ rows) : bandRow rows > 0 ↔ rows ≠ 1 := by
  unfold bandRow kBandRow
  split
  · omega
  · split <;> omega

/-- **When a cycle is visible.**  The band rows before and after one cycle agree
exactly when there is no band row, no band column, or the window stands on a
stretch of one byte. -/
theorem paintedBand_succ_eq_iff (text : Bytes) (cycles : Int) {rows cols : Int} (hr : 1 ≤ rows)
    (hc : 1 ≤ cols) :
    paintedBand text (cycles + 1) rows cols = paintedBand text cycles rows cols ↔
      rows = 1 ∨ cols = 1 ∨
        Still text (bandWidthFor cols) (scrollOffset cycles text.length (bandWidthFor cols)) := by
  unfold paintedBand
  by_cases hrows : rows = 1
  · subst hrows
    simp [bandRow, kBandRow]
  · have hb : bandRow rows > 0 := (bandRow_pos_iff hr).mpr hrows
    rw [if_pos hb, if_pos hb]
    by_cases hcols : cols = 1
    · subst hcols
      rw [paddedBand_one, paddedBand_one]
      simp
    · rw [paddedBand_inj (by omega) (sliceRow_length _ _ _) (sliceRow_length _ _ _),
        sliceRow_succ_eq_iff _ (bandWidthFor_pos cols)]
      simp [hrows, hcols]

end Renderer
end Csopesy
