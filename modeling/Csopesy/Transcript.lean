import Csopesy.Grammar
import Csopesy.LineEditor
import Csopesy.Main
import Csopesy.Session

/-! # What is echoed

The frames of an interactive session are printable whatever is typed, and every response
there echoes printable bytes only.  Two outputs of the program hold pieces of its input as they
are.  `runPlainLineMode` of `src/app/console_app.cpp` echoes the command of a line that is not
recognized: what it prints has a control byte exactly when the command of a line it executed
has one (`plain_output_displayable_iff`).  `main` of `src/main.cpp` prints the warnings: a line
each, whatever `config.txt` holds.  Nothing else goes to standard error but, on Windows, the
line of `fatalStartup` behind them; so it reads back as the list of the warnings and that line
(`stderr_reads_back`).
-/
namespace Csopesy

/-! ## Plain line mode -/

namespace Displayable
variable {s t : Bytes}

theorem append_iff : Displayable (s ++ t) ↔ Displayable s ∧ Displayable t := List.forall_mem_append

end Displayable

namespace Interpreter
variable (it : Interpreter)

/-- A response shows the command of its line, or nothing but printable bytes. -/
theorem executeLine_displayable_iff {raw cmd arg : Bytes} (h : Words raw cmd arg) :
    Displayable (it.executeLine raw).2 ↔ Printable cmd := by
  rw [it.executeLine_eq h]
  constructor
  · intro hresponse
    rcases lookup_cases cmd with rfl | rfl | rfl | rfl | rfl | rfl | hunknown
    case inr.inr.inr.inr.inr.inr =>
      by_cases hnil : cmd = []
      · rw [hnil]
        exact .nil
      · have hnone : ¬ (takesNoArgument (lookup cmd) = true ∧ arg ≠ []) := by
          rw [hunknown]
          exact fun h => Bool.false_ne_true h.1
        rw [if_neg hnil, if_neg hnone] at hresponse
        unfold runCommand at hresponse
        rw [hunknown] at hresponse
        obtain ⟨rest, -, hword, -, -⟩ := h
        intro c hc
        have hmem : c ∈ ascii "Command not recognized: \"" ++ cmd := List.mem_append_right _ hc
        refine (hresponse c (List.mem_append_left _ hmem)).resolve_right ?_
        -- a newline would have ended the word
        rintro rfl
        exact absurd (hword newline hc) (by decide)
    all_goals decide
  · intro hcmd
    split
    · exact Printable.nil.displayable
    · split
      · exact (Printable.append (by decide) hcmd).displayable
      · rw [← runCommand_message]
        exact runCommand_displayable hcmd arg

theorem plainLoop_displayable_iff (lines : List Bytes) :
    ∃ done, lines = done ++ (plainLoop prompt it lines).2.1 ∧
      (Displayable (plainLoop prompt it lines).2.2 ↔ ∀ l ∈ done, Printable (cmdOf (trim l))) := by
  induction lines generalizing it with
  | nil => exact ⟨[], rfl, iff_of_true Printable.nil.displayable fun l hl => absurd hl (by simp)⟩
  | cons line lines ih =>
    obtain ⟨cmd, arg, hwords⟩ := words_exists line
    have hresponse := it.executeLine_displayable_iff hwords
    rw [← (words_iff.mp hwords).1] at hresponse
    rw [plainLoop]
    generalize it.executeLine line = executed at hresponse
    obtain ⟨it', response⟩ := executed
    dsimp only at hresponse ⊢
    have hprinted : Displayable (if response.isEmpty then [] else response ++ [newline]) ↔
        Printable (cmdOf (trim line)) := by
      rw [← hresponse]
      cases response with
      | nil => exact Iff.rfl
      | cons c response =>
        have hend : Displayable [newline] := by decide
        exact Displayable.append_iff.trans (and_iff_left hend)
    by_cases hquit : it'.quit = true
    · rw [if_pos hquit]
      refine ⟨[line], rfl, hprinted.trans ?_⟩
      rw [List.forall_mem_singleton]
    · rw [if_neg hquit]
      obtain ⟨done, hlines, hrest⟩ := ih it'
      refine ⟨line :: done, congrArg (line :: ·) hlines, ?_⟩
      have hprompt : Displayable (prompt ++ [space]) := by decide
      rw [List.forall_mem_cons, ← hprinted, ← hrest]
      dsimp only
      rw [List.append_assoc, List.append_assoc, Displayable.append_iff, ← List.append_assoc,
        Displayable.append_iff, and_iff_right hprompt]

/-- **What plain line mode echoes.**  On any standard input its output is printable text
exactly when the commands of the lines it executed are printable. -/
theorem plain_output_displayable_iff (params : Parameters) (stdin : Bytes) :
    ∃ done, getLines stdin = done ++ (runPlainLineMode params stdin).2.1 ∧
      (Displayable (runPlainLineMode params stdin).2.2 ↔
        ∀ l ∈ done, Printable (cmdOf (trim l))) := by
  obtain ⟨done, hlines, hiff⟩ := plainLoop_displayable_iff { params := params } (getLines stdin)
  refine ⟨done, hlines, ?_⟩
  have hprompt : Displayable (prompt ++ [space]) := by decide
  exact (Displayable.append_iff.trans (and_iff_right hprompt)).trans hiff

end Interpreter

/-! ## The warnings -/

theorem newline_notMem_append {s t : Bytes} (hs : newline ∉ s) (ht : newline ∉ t) :
    newline ∉ s ++ t := fun h => (List.mem_append.mp h).elim hs ht

theorem getLines_go_newline {content : Bytes} : ∀ {line : Bytes}, newline ∉ line →
    ∀ l ∈ getLines.go line content, newline ∉ l := by
  induction content with
  | nil =>
    intro line hline l hl
    unfold getLines.go at hl
    split at hl
    · exact absurd hl List.not_mem_nil
    · rw [List.mem_singleton.mp hl]
      exact hline
  | cons c rest ih =>
    intro line hline l hl
    unfold getLines.go at hl
    split at hl
    · rcases List.mem_cons.mp hl with rfl | hl
      · exact hline
      · exact ih List.not_mem_nil l hl
    · rename_i hc
      refine ih (newline_notMem_append hline ?_) l hl
      exact fun h => hc (List.mem_singleton.mp h).symm

namespace Entry

/-- What an entry repeats of its line or option. -/
def pieces : Entry → List Bytes
  | blank | noTty => []
  | setting _ label raw => [label, raw]
  | malformed pre line => [pre, line]
  | unknownKey pre key => [pre, key]
  | unknownOption token | missingValue token => [token]

/-- Every byte is printable, or one of the pieces has it. -/
def Repeats (e : Entry) (w : Bytes) : Prop :=
  ∀ c ∈ w, isPrintableAscii c = true ∨ ∃ s ∈ e.pieces, c ∈ s

namespace Repeats
variable {e : Entry} {s t : Bytes}

theorem text (h : Printable s) : e.Repeats s := fun c hc => .inl (h c hc)

theorem piece (h : s ∈ e.pieces) : e.Repeats s := fun _ hc => .inr ⟨s, h, hc⟩

theorem append (hs : e.Repeats s) (ht : e.Repeats t) : e.Repeats (s ++ t) :=
  List.forall_mem_append.mpr ⟨hs, ht⟩

end Repeats

/-- A byte of a warning is printable, or repeated. -/
theorem warning_repeats {e : Entry} {w : Bytes} (hw : e.warning = some w) : e.Repeats w := by
  cases e with
  | blank | noTty => exact absurd hw (Option.some_ne_none w).symm
  | setting which label raw =>
    have hlabel : (setting which label raw).Repeats label := .piece List.mem_cons_self
    have hraw : (setting which label raw).Repeats raw :=
      .piece (List.mem_cons_of_mem _ List.mem_cons_self)
    have hequals : (setting which label raw).Repeats (ascii "=") := .text (by decide)
    have hbegin := (hlabel.append hequals).append hraw
    rw [warning_setting] at hw
    cases hvalue : decimal raw with
    | none =>
      rw [hvalue] at hw
      rw [← Option.some.inj hw]
      exact hbegin.append (.text (by decide))
    | some ms =>
      rw [hvalue] at hw
      dsimp only at hw
      split at hw
      · exact absurd hw (Option.some_ne_none w).symm
      · rw [← Option.some.inj hw]
        exact ((hbegin.append (.text (by decide))).append
          (.text (printable_intToString _))).append (.text (by decide))
  | malformed pre line | unknownKey pre line =>
    rw [← Option.some.inj hw]
    exact .append (.append (.append (.piece List.mem_cons_self) (.text (by decide)))
      (.piece (List.mem_cons_of_mem _ List.mem_cons_self))) (.text (by decide))
  | unknownOption token =>
    rw [← Option.some.inj hw]
    exact .append (.append (.text (by decide)) (.piece List.mem_cons_self)) (.text (by decide))
  | missingValue token =>
    rw [← Option.some.inj hw]
    exact .append (.piece List.mem_cons_self) (.text (by decide))

end Entry

namespace Cli

/-- A config line repeats the path and parts of itself. -/
theorem configEntry_pieces (pre raw : Bytes) :
    ∀ s ∈ (configEntry pre raw).pieces, s ⊆ pre ++ raw := by
  have hpre : pre ⊆ pre ++ raw := List.subset_append_left pre raw
  have hline : trim raw ⊆ pre ++ raw := fun c hc =>
    List.mem_append_right pre (trimWith_subset _ _ raw hc)
  have hkey : trim ((trim raw).takeWhile (· != 0x3D)) ⊆ pre ++ raw := fun c hc =>
    hline ((List.takeWhile_prefix _).subset (trimWith_subset _ _ _ hc))
  have hlabel := List.append_subset.mpr ⟨hpre, hkey⟩
  unfold configEntry
  dsimp only
  split
  · exact fun s hs => absurd hs List.not_mem_nil
  · split
    · exact List.forall_mem_cons.mpr ⟨hpre, List.forall_mem_singleton.mpr hline⟩
    · rename_i right hright
      have hvalue : trim right ⊆ pre ++ raw := fun c hc =>
        hline ((List.dropWhile_suffix _).subset
          (hright ▸ List.mem_cons_of_mem _ (trimWith_subset _ _ right hc)))
      split
      · exact List.forall_mem_cons.mpr ⟨hpre, List.forall_mem_singleton.mpr hline⟩
      · split
        · exact List.forall_mem_cons.mpr ⟨hlabel, List.forall_mem_singleton.mpr hvalue⟩
        · split
          · exact List.forall_mem_cons.mpr ⟨hlabel, List.forall_mem_singleton.mpr hvalue⟩
          · exact List.forall_mem_cons.mpr ⟨hpre, List.forall_mem_singleton.mpr hkey⟩

/-- An option repeats parts of itself, behind the name of its setting. -/
theorem argumentEntry_pieces (token : Bytes) :
    ∀ s ∈ (argumentEntry token).pieces, ∀ c ∈ s, isPrintableAscii c = true ∨ c ∈ token := by
  have hname {name : Bytes} (h : Printable name) :
      ∀ c ∈ name, isPrintableAscii c = true ∨ c ∈ token := fun c hc => .inl (h c hc)
  have htoken : ∀ c ∈ token, isPrintableAscii c = true ∨ c ∈ token := fun c hc => .inr hc
  have hvalue (n : Nat) : ∀ c ∈ token.drop n, isPrintableAscii c = true ∨ c ∈ token :=
    fun c hc => .inr (List.drop_subset n token hc)
  unfold argumentEntry
  split
  · exact fun s hs => absurd hs List.not_mem_nil
  · split
    · exact List.forall_mem_cons.mpr ⟨hname (by decide), List.forall_mem_singleton.mpr (hvalue _)⟩
    · split
      · exact List.forall_mem_cons.mpr ⟨hname (by decide), List.forall_mem_singleton.mpr (hvalue _)⟩
      · split
        · exact List.forall_mem_singleton.mpr htoken
        · exact List.forall_mem_singleton.mpr htoken

/-- **A warning is one line.** -/
theorem warnings_newline {args : List Bytes} {configPath : Bytes}
    (hargs : ∀ token ∈ args, newline ∉ token) (hpath : newline ∉ configPath)
    (content : Option Bytes) :
    ∀ w ∈ (parseCli args configPath content).warnings, newline ∉ w := by
  intro w hw hnewline
  rw [warnings_parseCli] at hw
  obtain ⟨e, he, hwarning⟩ := List.mem_filterMap.mp hw
  obtain hprintable | ⟨s, hs, hc⟩ := Entry.warning_repeats hwarning newline hnewline
  · exact absurd hprintable (by decide)
  · rcases List.mem_append.mp he with hconfig | hargument
    · obtain ⟨raw, hraw, rfl⟩ := List.mem_map.mp hconfig
      have hline : newline ∉ raw := by
        cases content with
        | none => exact absurd hraw List.not_mem_nil
        | some text => exact getLines_go_newline List.not_mem_nil raw hraw
      have hpre : newline ∉ configPath ++ ascii ": " := newline_notMem_append hpath (by decide)
      exact (List.mem_append.mp (configEntry_pieces _ raw s hs hc)).elim hpre hline
    · obtain ⟨token, htoken, rfl⟩ := List.mem_map.mp hargument
      rcases argumentEntry_pieces token s hs newline hc with hprintable | hmem
      · exact absurd hprintable (by decide)
      · exact hargs token htoken hmem

end Cli

namespace Win32Terminal

/-- What `fatalStartup` prints is one line. -/
theorem fatal_line {t : Win32Terminal} {answers : EnterAnswers} {line : Bytes}
    (h : (backend.enterRawMode t answers).2 = some line) :
    ascii "csopesy: fatal: " <+: line ∧ newline ∉ line := by
  have hprints : ∀ what ∈ (t.enterRawMode answers).2, Printable what := by
    intro what hwhat
    cases hraw : t.raw with
    | true =>
      have hstays : t.enterRawMode answers = (t, none) := if_pos hraw
      rw [hstays] at hwhat
      exact absurd hwhat (Option.not_mem_none what)
    | false =>
      rcases enterRawMode_cases hraw answers with ⟨-, -, heq⟩ | ⟨-, ⟨what', hprintable, heq⟩, -⟩
      · rw [heq] at hwhat
        exact absurd hwhat (Option.not_mem_none what)
      · obtain rfl := Option.some.inj (heq.symm.trans hwhat)
        exact hprintable
  obtain ⟨what, hsome, rfl⟩ := Option.map_eq_some_iff.mp h
  have hprintable : Printable (fatalStartup what answers.lastError) :=
    (((Printable.append (by decide) (hprints what hsome)).append (by decide)).append
      (printable_natRepr _)).append (by decide)
  refine ⟨?_, hprintable.newline_notMem⟩
  unfold fatalStartup
  rw [List.append_assoc, List.append_assoc, List.append_assoc]
  exact List.prefix_append _ _

end Win32Terminal

/-- A terminal whose texts are lines. -/
theorem Backend.stderr_lines {T E R : Type} {b : Backend T E R} {args : List Bytes}
    {configPath : Bytes} (hargs : ∀ token ∈ args, newline ∉ token) (hpath : newline ∉ configPath)
    (content : Option Bytes) (isTty : Bool) (t : T) (enter : E) (guard destroy exit : R)
    (hline : ∀ {line}, (b.enterRawMode t enter).2 = some line → newline ∉ line) :
    let ended := b.main args configPath content isTty t enter guard destroy exit
    getLines ended.stderr =
      ((Cli.startupEntries args configPath content).filterMap Entry.warning).map
        (·.takeWhile (· ≠ 0)) ++ ended.fatal.toList := by
  intro ended
  have hlines : ∀ l ∈ (Cli.parseCli args configPath content).warnings.map (·.takeWhile (· ≠ 0)) ++
      ended.fatal.toList, newline ∉ l := by
    refine List.forall_mem_append.mpr ⟨fun l hl hmem => ?_, fun l hl => ?_⟩
    · obtain ⟨w, hw, rfl⟩ := List.mem_map.mp hl
      exact Cli.warnings_newline hargs hpath content w hw ((List.takeWhile_prefix _).subset hmem)
    · exact hline (main_fatal (Option.mem_toList.mp hl))
  have hread := getLines_terminated hlines
  rw [List.flatMap_append, List.flatMap_map] at hread
  rw [← Cli.warnings_parseCli]
  exact hread

/-- **Standard error reads back.**  Whatever `config.txt` holds and the system answers, its
lines are the warnings, each up to its first zero byte, one for every entry that is reported,
and on Windows behind them the line of `fatalStartup` when the process ends there: no content
of the file adds, splits or hides a line. -/
theorem stderr_reads_back {args : List Bytes} {configPath : Bytes}
    (hargs : ∀ token ∈ args, newline ∉ token) (hpath : newline ∉ configPath)
    (content : Option Bytes) (isTty : Bool) :
    let warnings := ((Cli.startupEntries args configPath content).filterMap Entry.warning).map
      (·.takeWhile (· ≠ 0))
    (∀ header t enter guard destroy exit,
      getLines ((PosixTerminal.backend header).main args configPath content isTty t enter guard
        destroy exit).stderr = warnings) ∧
    ∀ t enter guard destroy exit,
      let ended := Win32Terminal.backend.main args configPath content isTty t enter guard destroy
        exit
      getLines ended.stderr = warnings ++ ended.fatal.toList ∧
        ∀ line ∈ ended.fatal, ascii "csopesy: fatal: " <+: line := by
  intro warnings
  constructor
  · intro header t enter guard destroy exit
    have hnever {line : Bytes} : ((PosixTerminal.backend header).enterRawMode t enter).2 ≠
        some line := (Option.some_ne_none line).symm
    rw [Backend.stderr_lines hargs hpath content isTty t enter guard destroy exit
      fun hline => absurd hline hnever]
    have hnone : ((PosixTerminal.backend header).main args configPath content isTty t enter guard
        destroy exit).fatal = none :=
      Option.eq_none_iff_forall_ne_some.mpr fun line hline => hnever (Backend.main_fatal hline)
    rw [hnone]
    exact List.append_nil _
  · intro t enter guard destroy exit ended
    refine ⟨Backend.stderr_lines hargs hpath content isTty t enter guard destroy exit
      fun hline => (Win32Terminal.fatal_line hline).2, fun line hline => ?_⟩
    exact (Win32Terminal.fatal_line (Backend.main_fatal hline)).1

/-- A line of the file and an option, both with an escape character, on a console that cannot
show escape sequences. -/
theorem stderr_reads_back_escape :
    (getLines (Win32Terminal.backend.main [ascii "--\x1b[2J"] (ascii "config.txt")
      (some (ascii "colour\x1b[31m\nrefresh_ms=7\n")) true { modeIn := 0x1F7, modeOut := 0x3 }
      ⟨true, true, false, true, true, 87⟩ ⟨true, true⟩ ⟨true, true⟩ ⟨true, true⟩).stderr).length =
        3 := by
  rw [((stderr_reads_back (by decide) (by decide) _ true).2 _ _ _ _ _).1]
  decide

end Csopesy
