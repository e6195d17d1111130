import Csopesy.Startup

/-! # The layout of config.txt

Line ends and blanks do not matter to `loadConfigFile`.  A layout edit replaces every
line feed by a carriage return and a line feed, or adds blanks at the start or end of
lines; a spacing edit may also add blanks next to the first equals sign of lines.  No
sequence of layout edits changes what is loaded, and no sequence of spacing edits
changes the parameters or how many warnings there are (`config_layout`).

Each is a fact about one line and its `Entry`: layout edits leave what `trim` returns
as it is (`trim_margins`), and spacing edits change an entry at most in the text
of a malformed line (`configEntry_spaced`).
-/
namespace Csopesy

/-- Spaces and tabs. -/
def Blanks (s : Bytes) : Prop := ∀ c ∈ s, Cli.isBlank c = true

/-- Replace every LF by CRLF. -/
def toCrlf (content : Bytes) : Bytes :=
  content.flatMap fun c => if c = newline then [0x0D, newline] else [c]

/-- `line'` is `line` with blanks at its start and its end. -/
def Margins (line line' : Bytes) : Prop :=
  ∃ pre post, Blanks pre ∧ Blanks post ∧ line' = pre ++ line ++ post

/-- `line'` is `line` with blanks next to its first equals sign, if it has one. -/
def Spaced (line line' : Bytes) : Prop :=
  line' = line ∨ ∃ left before after right, 0x3D ∉ left ∧ Blanks before ∧ Blanks after ∧
    line = left ++ 0x3D :: right ∧ line' = (left ++ before) ++ 0x3D :: (after ++ right)

/-- An edit of the layout of a file. -/
inductive LayoutEdit : Bytes → Bytes → Prop
  | lineEnds (content : Bytes) : LayoutEdit content (toCrlf content)
  | margins {content content' : Bytes}
    (h : List.Forall₂ Margins (content.splitOn newline) (content'.splitOn newline)) :
    LayoutEdit content content'

/-- An edit of the layout, or of the spacing around equals signs. -/
inductive SpacingEdit : Bytes → Bytes → Prop
  | layout {content content' : Bytes} (h : LayoutEdit content content') :
    SpacingEdit content content'
  | spacing {content content' : Bytes}
    (h : List.Forall₂ Spaced (content.splitOn newline) (content'.splitOn newline)) :
    SpacingEdit content content'

/-! ## The lines of a file -/

theorem splitOn_toCrlf (content : Bytes) :
    List.Forall₂ (fun line line' => ∃ post, (∀ c ∈ post, c = 0x0D) ∧ line' = line ++ post)
      (content.splitOn newline) ((toCrlf content).splitOn newline) := by
  unfold toCrlf
  induction content with
  | nil => exact .cons ⟨[], by simp, rfl⟩ .nil
  | cons c content ih =>
    rw [List.flatMap_cons, splitOn_newline_cons]
    by_cases hc : c = newline
    · rw [if_pos hc, if_pos hc, List.cons_append, List.singleton_append, splitOn_newline_cons,
        if_neg (by decide), splitOn_newline_cons, if_pos rfl]
      exact .cons ⟨[0x0D], by simp, rfl⟩ ih
    · rw [if_neg hc, if_neg hc, List.singleton_append, splitOn_newline_cons, if_neg hc]
      -- the byte goes to the first line of both
      generalize content.splitOn newline = lines at ih ⊢
      generalize (content.flatMap fun c => if c = newline then [0x0D, newline] else [c]).splitOn
        newline = lines' at ih ⊢
      cases ih with
      | nil => exact .nil
      | cons hline hlines =>
        obtain ⟨post, hpost, rfl⟩ := hline
        exact .cons ⟨post, hpost, rfl⟩ hlines

theorem getLines_go_foldl {σ : Type*} {f : σ → Bytes → σ} (hf : ∀ s, f s [] = s)
    (line text : Bytes) (s : σ) :
    (getLines.go line text).foldl f s = ((text.splitOn newline).modifyHead (line ++ ·)).foldl f s := by
  induction text generalizing line s with
  | nil =>
    rw [getLines.go, List.splitOn_nil, List.modifyHead_cons, List.append_nil]
    by_cases hline : line = []
    · subst hline
      exact (hf s).symm
    · rw [if_neg (by simpa using hline)]
  | cons c text ih =>
    rw [getLines.go, splitOn_newline_cons]
    by_cases hc : c = newline
    · rw [if_pos hc, if_pos hc, List.foldl_cons, ih, List.modifyHead_cons, List.append_nil,
        modifyHead_nil_append, List.foldl_cons]
    · rw [if_neg hc, if_neg hc, ih, List.modifyHead_modifyHead]
      simp [Function.comp_def]

/-- A loop that skips empty lines may as well read a last empty one. -/
theorem getLines_foldl {σ : Type*} {f : σ → Bytes → σ} (hf : ∀ s, f s [] = s) (text : Bytes)
    (s : σ) : (getLines text).foldl f s = (text.splitOn newline).foldl f s := by
  unfold getLines
  rw [getLines_go_foldl hf, modifyHead_nil_append]

namespace Cli

/-! ## Trimming -/

/-- What `trim` removes at the end. -/
def isTail (c : UInt8) : Bool := isBlank c || c == 0x0D

theorem isTail_of_isBlank {c : UInt8} (h : isBlank c = true) : isTail c = true := by
  unfold isTail
  rw [h, Bool.true_or]

theorem trim_eq (s : Bytes) : trim s = trimWith isBlank isTail s := rfl

/-- Bytes that `trim` removes make no difference to it. -/
theorem trim_margins (pre line post : Bytes) (hpre : Blanks pre)
    (hpost : ∀ c ∈ post, isTail c = true) : trim (pre ++ line ++ post) = trim line := by
  obtain ⟨pre', post', hline, hpre', hpost', htrimmed⟩ := trims_trimWith isBlank isTail line
  rw [trim_eq, trim_eq]
  refine Trims.trimWith_eq ⟨pre ++ pre', post' ++ post, ?_, ?_, ?_, htrimmed⟩
  · conv => lhs; rw [hline]
    simp only [List.append_assoc]
  · intro c hc
    rcases List.mem_append.mp hc with hc | hc
    · exact hpre c hc
    · exact hpre' c hc
  · intro c hc
    rcases List.mem_append.mp hc with hc | hc
    · exact hpost' c hc
    · exact hpost c hc

theorem trim_dropWhile (s : Bytes) : trim (s.dropWhile isBlank) = trim s := by
  have hmargins := trim_margins (s.takeWhile isBlank) (s.dropWhile isBlank) []
    (fun c hc => List.mem_takeWhile_imp hc) (by simp)
  rw [List.append_nil, List.takeWhile_append_dropWhile] at hmargins
  exact hmargins.symm

theorem trim_rdropWhile (s : Bytes) : trim (s.rdropWhile isTail) = trim s := by
  have hmargins := trim_margins [] (s.rdropWhile isTail) (s.rtakeWhile isTail)
    (by simp [Blanks]) (fun c hc => List.mem_rtakeWhile_imp hc)
  rw [List.nil_append, List.rdropWhile_append_rtakeWhile] at hmargins
  exact hmargins.symm

/-- A line with an equals sign is trimmed on either side of it. -/
theorem trim_setting (left right : Bytes) :
    trim (left ++ 0x3D :: right) = left.dropWhile isBlank ++ 0x3D :: right.rdropWhile isTail := by
  rw [trim_eq]
  refine Trims.trimWith_eq ⟨left.takeWhile isBlank, right.rtakeWhile isTail, ?_,
    fun c hc => List.mem_takeWhile_imp hc, fun c hc => List.mem_rtakeWhile_imp hc, ?_, ?_⟩
  · rw [← List.append_assoc, List.takeWhile_append_dropWhile, List.append_assoc, List.cons_append,
      List.rdropWhile_append_rtakeWhile]
  · intro c hc
    rw [List.head?_append, Option.mem_def, Option.or_eq_some_iff] at hc
    rcases hc with hc | ⟨-, hc⟩
    · exact head?_dropWhile_kept isBlank left c hc
    · rw [← Option.some.inj hc]
      decide
  · intro c hc
    rw [List.getLast?_append, Option.mem_def, List.getLast?_cons] at hc
    cases hend : (right.rdropWhile isTail).getLast? with
    | none =>
      rw [hend] at hc
      rw [← Option.some.inj hc]
      decide
    | some d =>
      rw [hend] at hc
      rw [← Option.some.inj hc]
      exact getLast?_rdropWhile_kept isTail right d hend

/-! ## One line -/

theorem configEntry_congr {line line' : Bytes} (h : trim line' = trim line) (pre : Bytes) :
    configEntry pre line' = configEntry pre line := by
  unfold configEntry
  rw [h]

/-- The entry of a line that is cut at an equals sign. -/
theorem configEntry_cut (pre : Bytes) {left : Bytes} (hleft : 0x3D ∉ left) (right : Bytes) :
    configEntry pre (left ++ 0x3D :: right) =
      if (left.dropWhile isBlank).head? = some 0x23 then .blank
      else if trim left = [] then .malformed pre (trim (left ++ 0x3D :: right))
      else if trim left = ascii "refresh_ms" then .setting .refresh (pre ++ trim left) (trim right)
      else if trim left = ascii "polling_ms" then .setting .polling (pre ++ trim left) (trim right)
      else .unknownKey pre (trim left) := by
  have hcut : ∀ c ∈ left.dropWhile isBlank, (c != 0x3D) = true := by
    intro c hc
    have hmem : c ∈ left := (List.dropWhile_suffix isBlank).subset hc
    simpa using fun he : c = 0x3D => hleft (he ▸ hmem)
  have hdrop : (left.dropWhile isBlank ++ 0x3D :: right.rdropWhile isTail).dropWhile (· != 0x3D) =
      0x3D :: right.rdropWhile isTail := by
    rw [List.dropWhile_append_of_pos hcut, List.dropWhile_cons_of_neg (by decide)]
  have htake : (left.dropWhile isBlank ++ 0x3D :: right.rdropWhile isTail).takeWhile (· != 0x3D) =
      left.dropWhile isBlank := by
    rw [List.takeWhile_append_of_pos hcut, List.takeWhile_cons_of_neg (by decide), List.append_nil]
  have hhead : (left.dropWhile isBlank ++ 0x3D :: right.rdropWhile isTail).head? = some 0x23 ↔
      (left.dropWhile isBlank).head? = some 0x23 := by
    cases left.dropWhile isBlank with
    | nil => exact iff_of_false (fun h => absurd (Option.some.inj h) (by decide)) (by decide)
    | cons c rest => rfl
  unfold configEntry
  rw [trim_setting]
  dsimp only
  rw [hdrop, htake]
  dsimp only
  rw [trim_dropWhile, trim_rdropWhile]
  by_cases hcomment : (left.dropWhile isBlank).head? = some 0x23
  · rw [if_pos (.inr (hhead.mpr hcomment)), if_pos hcomment]
  · have hskip : ¬ (left.dropWhile isBlank ++ 0x3D :: right.rdropWhile isTail = [] ∨
        (left.dropWhile isBlank ++ 0x3D :: right.rdropWhile isTail).head? = some 0x23) := by
      rintro (hnil | hhash)
      · exact absurd hnil (by simp)
      · exact hcomment (hhead.mp hhash)
    rw [if_neg hskip, if_neg hcomment]

/-- The entries set the same and both warn or neither does. -/
def SameEffect (e e' : Entry) : Prop :=
  (∀ p, e.params p = e'.params p) ∧ e.warning.isSome = e'.warning.isSome

theorem SameEffect.refl (e : Entry) : SameEffect e e := ⟨fun _ => rfl, rfl⟩

theorem head?_dropWhile_blanks {left before : Bytes} (h : Blanks before) :
    ((left ++ before).dropWhile isBlank).head? = (left.dropWhile isBlank).head? := by
  rw [List.dropWhile_append]
  by_cases hempty : left.dropWhile isBlank = []
  · have hbefore : before.dropWhile isBlank = [] := List.dropWhile_eq_nil_iff.mpr h
    rw [hempty, List.isEmpty_nil, if_pos rfl, hbefore]
  · rw [if_neg (by simpa using hempty), List.head?_append_of_ne_nil _ hempty]

/-- **Blanks next to the first equals sign** can only show in the text of a malformed
line. -/
theorem configEntry_spaced {line line' : Bytes} (h : Spaced line line') (pre : Bytes) :
    SameEffect (configEntry pre line') (configEntry pre line) := by
  rcases h with rfl | ⟨left, before, after, right, hleft, hbefore, hafter, rfl, rfl⟩
  · exact .refl _
  · have hleft' : 0x3D ∉ left ++ before := by
      intro hmem
      rcases List.mem_append.mp hmem with hmem | hmem
      · exact hleft hmem
      · exact absurd (hbefore _ hmem) (by decide)
    have hkey : trim (left ++ before) = trim left :=
      trim_margins [] left before (by simp [Blanks]) fun c hc => isTail_of_isBlank (hbefore c hc)
    have hvalue : trim (after ++ right) = trim right := by
      have hmargins := trim_margins after right [] hafter (by simp)
      rwa [List.append_nil] at hmargins
    rw [configEntry_cut pre hleft, configEntry_cut pre hleft', head?_dropWhile_blanks hbefore, hkey,
      hvalue]
    by_cases hcomment : (left.dropWhile isBlank).head? = some 0x23
    · rw [if_pos hcomment, if_pos hcomment]
      exact .refl _
    · rw [if_neg hcomment, if_neg hcomment]
      by_cases hempty : trim left = []
      · rw [if_pos hempty, if_pos hempty]
        exact ⟨fun _ => rfl, rfl⟩
      · rw [if_neg hempty, if_neg hempty]
        exact .refl _

/-! ## The whole file -/

/-- What is loaded, up to the texts of the warnings. -/
def SameReport (result result' : CliResult) : Prop :=
  result.params = result'.params ∧ result.warnings.length = result'.warnings.length

theorem SameReport.trans {a b c : CliResult} (h : SameReport a b) (h' : SameReport b c) :
    SameReport a c := ⟨h.1.trans h'.1, h.2.trans h'.2⟩

/-- **One entry.** -/
theorem add_sameReport {result result' : CliResult} {e e' : Entry} (h : SameReport result result')
    (he : SameEffect e e') : SameReport (result.add e) (result'.add e') := by
  obtain ⟨hparams, hlength⟩ := h
  obtain ⟨heffect, hwarning⟩ := he
  constructor
  · show e.params result.params = e'.params result'.params
    rw [hparams, heffect]
  · show (result.warnings ++ e.warning.toList).length = (result'.warnings ++ e'.warning.toList).length
    rw [List.length_append, List.length_append, hlength, Option.length_toList, Option.length_toList,
      hwarning]

/-- An empty line is skipped, so a final line feed does not matter. -/
theorem loadConfigFile_splitOn (path content : Bytes) :
    loadConfigFile path (some content) =
      (content.splitOn newline).foldl
        (fun result line => result.add (configEntry (path ++ ascii ": ") line)) {} := by
  have hempty : ∀ result : CliResult, result.add (configEntry (path ++ ascii ": ") []) = result :=
    fun _ => add_silent rfl rfl
  rw [loadConfigFile_entries, Option.map_some, Option.getD_some, List.foldl_map,
    getLines_foldl hempty]

/-- Lines with equal entries. -/
theorem loadConfigFile_congr (path : Bytes) {content content' : Bytes}
    (h : List.Forall₂ (fun line line' => trim line' = trim line) (content.splitOn newline)
      (content'.splitOn newline)) :
    loadConfigFile path (some content') = loadConfigFile path (some content) := by
  rw [loadConfigFile_splitOn, loadConfigFile_splitOn]
  refine (List.rel_foldl (R := fun line line' => trim line' = trim line) (P := fun a b => b = a)
    ?_ rfl h)
  intro result result' hresult line line' hline
  show result'.add _ = result.add _
  rw [hresult, configEntry_congr hline]

/-- **One layout edit** changes nothing. -/
theorem loadConfigFile_layoutEdit (path : Bytes) {content content' : Bytes}
    (h : LayoutEdit content content') :
    loadConfigFile path (some content') = loadConfigFile path (some content) := by
  cases h with
  | lineEnds =>
    refine loadConfigFile_congr path ((splitOn_toCrlf content).imp ?_)
    rintro line _ ⟨post, hpost, rfl⟩
    exact trim_margins [] line post (by simp [Blanks]) fun c hc => by rw [hpost c hc]; decide
  | margins h =>
    refine loadConfigFile_congr path (h.imp ?_)
    rintro line _ ⟨pre, post, hpre, hpost, rfl⟩
    exact trim_margins pre line post hpre fun c hc => isTail_of_isBlank (hpost c hc)

/-- **One spacing edit** changes no parameter and no number of warnings. -/
theorem loadConfigFile_spacingEdit (path : Bytes) {content content' : Bytes}
    (h : SpacingEdit content content') :
    SameReport (loadConfigFile path (some content')) (loadConfigFile path (some content)) := by
  cases h with
  | layout h =>
    rw [loadConfigFile_layoutEdit path h]
    exact ⟨rfl, rfl⟩
  | spacing h =>
    rw [loadConfigFile_splitOn, loadConfigFile_splitOn]
    refine (List.rel_foldl (R := Spaced) (P := fun a b => SameReport b a) ?_ ⟨rfl, rfl⟩ h)
    intro result result' hresult line line' hline
    exact add_sameReport hresult (configEntry_spaced hline _)

/-- **The layout of config.txt does not matter.**  Line ends and blanks around lines
change neither the parameters nor the warnings; blanks around equals signs as well
change neither the parameters nor how many warnings there are. -/
theorem config_layout (path : Bytes) {content content' : Bytes} :
    (Relation.ReflTransGen LayoutEdit content content' →
      loadConfigFile path (some content') = loadConfigFile path (some content)) ∧
    (Relation.ReflTransGen SpacingEdit content content' →
      (loadConfigFile path (some content')).params = (loadConfigFile path (some content)).params ∧
      (loadConfigFile path (some content')).warnings.length =
        (loadConfigFile path (some content)).warnings.length) := by
  constructor
  · intro hedits
    induction hedits with
    | refl => rfl
    | tail _ hedit ih => exact (loadConfigFile_layoutEdit path hedit).trans ih
  · intro hedits
    induction hedits with
    | refl => exact ⟨rfl, rfl⟩
    | tail _ hedit ih => exact (loadConfigFile_spacingEdit path hedit).trans ih

/-- Two lines, one of them malformed, are indented and given other line ends, and the
first is spaced out. -/
theorem config_layout_two :
    loadConfigFile (ascii "config.txt") (some (toCrlf (ascii " polling_ms=7\n=\t"))) =
      loadConfigFile (ascii "config.txt") (some (ascii "polling_ms=7\n=")) ∧
    (loadConfigFile (ascii "config.txt") (some (ascii "polling_ms = 7\n="))).params =
      (loadConfigFile (ascii "config.txt") (some (ascii "polling_ms=7\n="))).params := by
  have hlines : (ascii "polling_ms=7\n=").splitOn newline = [ascii "polling_ms=7", ascii "="] := by
    decide
  have hindented : (ascii " polling_ms=7\n=\t").splitOn newline =
      [ascii " polling_ms=7", ascii "=\t"] := by decide
  have hspaced : (ascii "polling_ms = 7\n=").splitOn newline = [ascii "polling_ms = 7", ascii "="] := by
    decide
  have hnone : Blanks [] := by simp [Blanks]
  have hspace : Blanks [0x20] := by unfold Blanks; decide
  have htab : Blanks [0x09] := by unfold Blanks; decide
  have hmargins : LayoutEdit (ascii "polling_ms=7\n=") (ascii " polling_ms=7\n=\t") := by
    refine .margins ?_
    rw [hlines, hindented]
    exact .cons ⟨[0x20], [], hspace, hnone, by decide⟩
      (.cons ⟨[], [0x09], hnone, htab, by decide⟩ .nil)
  have hspacing : SpacingEdit (ascii "polling_ms=7\n=") (ascii "polling_ms = 7\n=") := by
    refine .spacing ?_
    rw [hlines, hspaced]
    exact .cons (.inr ⟨ascii "polling_ms", [0x20], [0x20], ascii "7", by decide, hspace, hspace,
      by decide, by decide⟩) (.cons (.inl rfl) .nil)
  exact ⟨(config_layout (ascii "config.txt")).1 ((Relation.ReflTransGen.single hmargins).tail
      (.lineEnds _)), ((config_layout (ascii "config.txt")).2 (.single hspacing)).1⟩

end Cli
end Csopesy
