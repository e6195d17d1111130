import Csopesy.Numbers
import Csopesy.Trimming

/-! # The grammar of a command line

A raw line without its outer whitespace is a command, the longest prefix without
whitespace, and a rest whose trimmed form is the argument (`Words`).
`Interpreter.effect` states what a command with an argument does to everything but
the message, and that every other input does nothing.  `executeLine` has exactly
this effect on every byte string (`executeLine_grammar`): the six whitespace bytes
of the interpreter's `trim` and the spaces that `setText` trims do not interfere,
and a rejected line leaves nothing but its response.
-/
namespace Csopesy
open Numeral

/-! ## Words -/

/-- `raw` holds the command `cmd` and the argument `arg`. -/
def Words (raw cmd arg : Bytes) : Prop :=
  ∃ rest, Trims isSpace isSpace raw (cmd ++ rest) ∧ (∀ c ∈ cmd, isSpace c = false) ∧
    (∀ c ∈ rest.head?, isSpace c = true) ∧ Trims isSpace isSpace rest arg

theorem cmdOf_eq_takeWhile (line : Bytes) : cmdOf line = line.takeWhile fun c => !isSpace c := by
  unfold cmdOf
  rcases findIdx?_cases isSpace line with ⟨hnone, hdrop⟩ | ⟨sep, c, hsome, htake, -, -⟩
  · rw [hnone]
    have hall := List.takeWhile_append_dropWhile (p := fun c => !isSpace c) (l := line)
    rw [hdrop, List.append_nil] at hall
    exact hall.symm
  · rw [hsome]
    exact htake

theorem argOf_eq_dropWhile (line : Bytes) :
    argOf line = trim (line.dropWhile fun c => !isSpace c) := by
  unfold argOf
  rcases findIdx?_cases isSpace line with ⟨hnone, hdrop⟩ | ⟨sep, c, hsome, -, hdrop, -⟩
  · rw [hnone, hdrop]
    rfl
  · rw [hsome, ← hdrop]

/-- **The interpreter cuts a line into its words.** -/
theorem words_iff {raw cmd arg : Bytes} :
    Words raw cmd arg ↔ cmdOf (trim raw) = cmd ∧ argOf (trim raw) = arg := by
  constructor
  · rintro ⟨rest, hline, hcmd, hrest, harg⟩
    have hnot : ∀ c ∈ cmd, (!isSpace c) = true := by
      intro c hc
      rw [hcmd c hc]
      rfl
    have hstop : ∀ c ∈ rest.head?, (!isSpace c) = false := by
      intro c hc
      rw [hrest c hc]
      rfl
    rw [cmdOf_eq_takeWhile, argOf_eq_dropWhile, trim, hline.trimWith_eq,
      List.takeWhile_append_of_pos hnot, List.dropWhile_append_of_pos hnot,
      dropWhile_of_head hstop]
    refine ⟨?_, harg.trimWith_eq⟩
    cases rest with
    | nil => exact List.append_nil cmd
    | cons c rest =>
      rw [List.takeWhile_cons_of_neg (by rw [hstop c rfl]; exact Bool.false_ne_true)]
      exact List.append_nil cmd
  · rintro ⟨rfl, rfl⟩
    rw [cmdOf_eq_takeWhile, argOf_eq_dropWhile]
    refine ⟨(trim raw).dropWhile fun c => !isSpace c, ?_, ?_, ?_, trims_trimWith _ _ _⟩
    · rw [List.takeWhile_append_dropWhile]
      exact trims_trimWith _ _ _
    · intro c hc
      simpa using List.mem_takeWhile_imp hc
    · intro c hc
      have hnot := List.head?_dropWhile_not (fun c => !isSpace c) (trim raw)
      rw [hc] at hnot
      simpa using hnot

/-- Every line has exactly one command and one argument. -/
theorem words_unique {raw cmd arg cmd' arg' : Bytes} (h : Words raw cmd arg)
    (h' : Words raw cmd' arg') : cmd = cmd' ∧ arg = arg' := by
  obtain ⟨rfl, rfl⟩ := words_iff.mp h
  exact words_iff.mp h'

theorem words_exists (raw : Bytes) : ∃ cmd arg, Words raw cmd arg :=
  ⟨_, _, words_iff.mpr ⟨rfl, rfl⟩⟩

theorem Words.trimmed {raw cmd arg : Bytes} (h : Words raw cmd arg) :
    Trimmed isSpace isSpace arg := by
  obtain ⟨rest, -, -, -, harg⟩ := h
  exact harg.trimmed

/-- Only an empty line has an empty command, and it has no argument. -/
theorem Words.cmd_nil_iff {raw cmd arg : Bytes} (h : Words raw cmd arg) :
    cmd = [] ↔ trim raw = [] := by
  obtain ⟨rfl, rfl⟩ := words_iff.mp h
  rw [cmdOf_eq_takeWhile]
  constructor
  · intro hcmd
    have hhead := (trims_trimWith isSpace isSpace raw).trimmed.head
    cases hline : trim raw with
    | nil => rfl
    | cons c line =>
      have hc : isSpace c = false := hhead c (by rw [← trim, hline]; rfl)
      rw [hline, List.takeWhile_cons_of_pos (by rw [hc]; rfl)] at hcmd
      exact absurd hcmd (List.cons_ne_nil _ _)
  · intro hline
    rw [hline]
    rfl

/-- Commands match exactly. -/
theorem lookup_cases (cmd : Bytes) :
    cmd = ascii "help" ∨ cmd = ascii "start_marquee" ∨ cmd = ascii "stop_marquee" ∨
      cmd = ascii "set_text" ∨ cmd = ascii "set_speed" ∨ cmd = ascii "exit" ∨
      lookup cmd = .unknown := by
  by_contra hnone
  simp only [not_or] at hnone
  obtain ⟨hhelp, hstart, hstop, htext, hspeed, hexit, hunknown⟩ := hnone
  have hbeq : ∀ name, cmd ≠ name → (cmd == name) = false := fun _ h => by simpa using h
  refine hunknown ?_
  simp only [lookup, commandTable, List.lookup_cons, List.lookup_nil, hbeq _ hhelp,
    hbeq _ hstart, hbeq _ hstop, hbeq _ htext, hbeq _ hspeed, hbeq _ hexit, Option.getD_none]

theorem lookup_help {cmd : Bytes} (h : lookup cmd = .help) : cmd = ascii "help" := by
  rcases lookup_cases cmd with rfl | rfl | rfl | rfl | rfl | rfl | hunknown
  · rfl
  · exact absurd h (by decide)
  · exact absurd h (by decide)
  · exact absurd h (by decide)
  · exact absurd h (by decide)
  · exact absurd h (by decide)
  · exact absurd (hunknown.symm.trans h) (by decide)

/-! ## The text setter -/

theorem isSpace_space (c : UInt8) (h : (c == space) = true) : isSpace c = true := by
  rw [eq_of_beq h]
  decide

/-- A trimmed text is stored as it is. -/
theorem Parameters.setText_trimmed (p : Parameters) {t : Bytes}
    (h : Trimmed (· == space) (· == space) t) (hne : t ≠ []) :
    p.setText t = if Printable t then ({ p with text := t }, .ok) else (p, .nonAscii) := by
  unfold setText
  dsimp only
  rw [h.trims.trimWith_eq, if_neg (by simpa using hne)]
  exact if_congr List.all_eq_true rfl rfl

/-! ## The effect of a command -/

namespace Interpreter

/-- What a command with an argument does to everything but the message. -/
def effect (it : Interpreter) (cmd arg : Bytes) : Interpreter :=
  if cmd = ascii "start_marquee" ∧ arg = [] ∧ it.proc.state = .stopped then
    { it with proc := { it.proc with state := .running, hasRendered := false } }
  else if cmd = ascii "stop_marquee" ∧ arg = [] ∧ it.proc.state = .running then
    { it with proc := { it.proc with state := .stopped } }
  else if cmd = ascii "set_text" ∧ arg ≠ [] ∧ Printable arg then
    { it with params := { it.params with text := arg } }
  else if cmd = ascii "set_speed" then
    match decimal arg with
    | some ms => { it with params := { it.params with refreshMs := clamp 1 10000 ms } }
    | none => it
  else if cmd = ascii "exit" ∧ arg = [] then { it with quit := true }
  else it

variable (it : Interpreter)

/-- The commands that take no argument. -/
def plainCommands : List Bytes :=
  [ascii "help", ascii "start_marquee", ascii "stop_marquee", ascii "exit"]

theorem effect_nil (arg : Bytes) : it.effect [] arg = it := by
  simp +decide [effect]

theorem effect_help (arg : Bytes) : it.effect (ascii "help") arg = it := by
  simp +decide [effect]

theorem effect_start (arg : Bytes) :
    it.effect (ascii "start_marquee") arg =
      if arg = [] ∧ it.proc.state = .stopped then
        { it with proc := { it.proc with state := .running, hasRendered := false } }
      else it := by
  simp +decide [effect]

theorem effect_stop (arg : Bytes) :
    it.effect (ascii "stop_marquee") arg =
      if arg = [] ∧ it.proc.state = .running then
        { it with proc := { it.proc with state := .stopped } }
      else it := by
  simp +decide [effect]

theorem effect_setText (arg : Bytes) :
    it.effect (ascii "set_text") arg =
      if arg ≠ [] ∧ Printable arg then { it with params := { it.params with text := arg } }
      else it := by
  simp +decide [effect]

theorem effect_setSpeed (arg : Bytes) :
    it.effect (ascii "set_speed") arg =
      match decimal arg with
      | some ms => { it with params := { it.params with refreshMs := clamp 1 10000 ms } }
      | none => it := by
  simp +decide [effect]

theorem effect_exit (arg : Bytes) :
    it.effect (ascii "exit") arg = if arg = [] then { it with quit := true } else it := by
  simp +decide [effect]

theorem effect_unknown {cmd : Bytes} (h : lookup cmd = .unknown) (arg : Bytes) :
    it.effect cmd arg = it := by
  have hne : ∀ name, lookup name ≠ .unknown → cmd ≠ name := by
    rintro name hname rfl
    exact hname h
  simp [effect, hne (ascii "start_marquee") (by decide), hne (ascii "stop_marquee") (by decide),
    hne (ascii "set_text") (by decide), hne (ascii "set_speed") (by decide),
    hne (ascii "exit") (by decide)]

/-- Extra text keeps a command without an argument from any effect. -/
theorem effect_extra {cmd arg : Bytes} (hnone : takesNoArgument (lookup cmd) = true)
    (harg : arg ≠ []) : it.effect cmd arg = it := by
  rcases lookup_cases cmd with rfl | rfl | rfl | rfl | rfl | rfl | hunknown
  · exact it.effect_help arg
  · rw [effect_start, if_neg (fun hn => harg hn.1)]
  · rw [effect_stop, if_neg (fun hn => harg hn.1)]
  · exact absurd hnone (by decide)
  · exact absurd hnone (by decide)
  · rw [effect_exit, if_neg harg]
  · exact it.effect_unknown hunknown arg

theorem runCommand_setText {arg : Bytes} (htrim : Trimmed isSpace isSpace arg) :
    { (it.runCommand (ascii "set_text") arg).1 with message := it.message } =
      it.effect (ascii "set_text") arg := by
  unfold runCommand
  rw [show lookup (ascii "set_text") = .setText by decide, effect_setText]
  dsimp only
  by_cases harg : arg = []
  · subst harg
    rfl
  · have hempty : arg.isEmpty = false := by simpa using harg
    rw [hempty, Parameters.setText_trimmed _ (htrim.mono isSpace_space isSpace_space) harg]
    by_cases hp : Printable arg
    · simp [hp, harg]
    · simp [hp]

/-- The clamp to `int` does not show below the clamp of the setter. -/
theorem runCommand_setSpeed (arg : Bytes) :
    { (it.runCommand (ascii "set_speed") arg).1 with message := it.message } =
      it.effect (ascii "set_speed") arg := by
  unfold runCommand
  rw [show lookup (ascii "set_speed") = .setSpeed by decide, effect_setSpeed]
  dsimp only
  rw [parseFullInteger_eq]
  by_cases harg : arg = []
  · subst harg
    rfl
  · have hempty : arg.isEmpty = false := by simpa using harg
    rw [hempty]
    cases decimal arg with
    | none => rfl
    | some ms =>
      obtain ⟨happlied, -⟩ := Parameters.clampReport_int (ascii "refreshMs")
        (show Parameters.kRefreshMin ≤ Parameters.kRefreshMax by decide) (by decide) (by decide) ms
      have hms : (it.params.setRefresh (clamp kIntMin kIntMax ms)).1 =
          { it.params with refreshMs := clamp 1 10000 ms } :=
        congrArg (fun v => { it.params with refreshMs := v }) happlied
      simp [hms]

/-- The `switch`, for an argument that the command takes. -/
theorem runCommand_effect {cmd arg : Bytes} (htrim : Trimmed isSpace isSpace arg)
    (htakes : takesNoArgument (lookup cmd) = true → arg = []) :
    { (it.runCommand cmd arg).1 with message := it.message } = it.effect cmd arg := by
  rcases lookup_cases cmd with rfl | rfl | rfl | rfl | rfl | rfl | hunknown
  · rw [effect_help]
    rfl
  · obtain rfl := htakes (by decide)
    rw [effect_start]
    unfold runCommand
    rw [show lookup (ascii "start_marquee") = .start by decide]
    cases hs : it.proc.state with
    | stopped => simp [MarqueeProcess.start, hs]
    | running => simp [MarqueeProcess.start, hs]
  · obtain rfl := htakes (by decide)
    rw [effect_stop]
    unfold runCommand
    rw [show lookup (ascii "stop_marquee") = .stop by decide]
    cases hs : it.proc.state with
    | stopped => simp [MarqueeProcess.stop, hs]
    | running => simp [MarqueeProcess.stop, hs]
  · exact it.runCommand_setText htrim
  · exact it.runCommand_setSpeed arg
  · obtain rfl := htakes (by decide)
    rw [effect_exit]
    rfl
  · rw [effect_unknown it hunknown]
    unfold runCommand
    rw [hunknown]
    rfl

/-- The path of a line, by its words. -/
theorem executeLine_eq {raw cmd arg : Bytes} (h : Words raw cmd arg) :
    it.executeLine raw =
      if cmd = [] then it.respond []
      else if takesNoArgument (lookup cmd) = true ∧ arg ≠ [] then
        it.respond (ascii "Usage: " ++ cmd)
      else it.runCommand cmd arg := by
  obtain ⟨hcmd, harg⟩ := words_iff.mp h
  unfold executeLine
  dsimp only
  rw [hcmd, harg]
  refine if_congr (by rw [h.cmd_nil_iff, List.isEmpty_iff]) rfl (if_congr ?_ rfl rfl)
  simp [and_comm]

/-- **The effect of a line.** -/
theorem executeLine_effect {raw cmd arg : Bytes} (h : Words raw cmd arg) :
    { (it.executeLine raw).1 with message := it.message } = it.effect cmd arg := by
  rw [it.executeLine_eq h]
  by_cases hcmd : cmd = []
  · rw [if_pos hcmd, hcmd, effect_nil]
    rfl
  · rw [if_neg hcmd]
    by_cases hextra : takesNoArgument (lookup cmd) = true ∧ arg ≠ []
    · obtain ⟨hnone, harg⟩ := hextra
      rw [if_pos ⟨hnone, harg⟩, it.effect_extra hnone harg]
      rfl
    · rw [if_neg hextra]
      refine it.runCommand_effect h.trimmed fun hnone => ?_
      by_contra harg
      exact hextra ⟨hnone, harg⟩

/-! ## Responses -/

/-- The bytes with which the responses of a command begin. -/
def responseHeads : Cmd → List (Option UInt8)
  | .help => [some 0x41]
  | .start | .stop => [some 0x4D]
  | .setText => [some 0x55, some 0x4D, some 0x73]
  | .setSpeed => [some 0x55, some 0x53, some 0x4D]
  | .exit => [some 0x45]
  | .unknown => [some 0x43]

theorem runCommand_head (cmd arg : Bytes) :
    (it.runCommand cmd arg).2.head? ∈ responseHeads (lookup cmd) := by
  unfold runCommand
  cases lookup cmd with
  | help => exact .head _
  | start =>
    dsimp only [respond]
    split <;> exact .head _
  | stop =>
    dsimp only [respond]
    split <;> exact .head _
  | setText =>
    dsimp only [respond]
    split
    · exact .head _
    · split
      · exact .tail _ (.head _)
      · exact .tail _ (.tail _ (.head _))
      · exact .head _
  | setSpeed =>
    dsimp only [respond]
    split
    · exact .head _
    · split
      · exact .head _
      · dsimp only
        split
        · exact .tail _ (.head _)
        · exact .tail _ (.tail _ (.head _))
  | exit => exact .head _
  | unknown => exact .head _

theorem responseHeads_help {c : Cmd} (h : kHelp.head? ∈ responseHeads c) : c = .help := by
  cases c with
  | help => rfl
  | start | stop | setText | setSpeed | exit | unknown => exact absurd h (by decide)

theorem responseHeads_plain {c : Cmd} (h : takesNoArgument c = true) :
    some 0x55 ∉ responseHeads c := by
  cases c with
  | help | start | stop | exit => decide
  | setText | setSpeed | unknown => exact absurd h Bool.false_ne_true

/-- `help` displays the commands exactly when it stands alone. -/
theorem executeLine_help_iff {raw cmd arg : Bytes} (h : Words raw cmd arg) :
    (it.executeLine raw).2 = kHelp ↔ cmd = ascii "help" ∧ arg = [] := by
  rw [it.executeLine_eq h]
  constructor
  · intro hresponse
    by_cases hcmd : cmd = []
    · rw [if_pos hcmd] at hresponse
      exact absurd (show ([] : Bytes) = kHelp from hresponse) (by decide)
    · rw [if_neg hcmd] at hresponse
      by_cases hextra : takesNoArgument (lookup cmd) = true ∧ arg ≠ []
      · rw [if_pos hextra] at hresponse
        have hhead := congrArg List.head? hresponse
        exact absurd (show some (0x55 : UInt8) = kHelp.head? from hhead) (by decide)
      · rw [if_neg hextra] at hresponse
        have hlookup : lookup cmd = .help := by
          have hhead := it.runCommand_head cmd arg
          rw [hresponse] at hhead
          exact responseHeads_help hhead
        rw [hlookup] at hextra
        exact ⟨lookup_help hlookup, by simpa [takesNoArgument] using hextra⟩
  · rintro ⟨rfl, rfl⟩
    rfl

/-- The commands that take no argument answer only extra text with their usage. -/
theorem executeLine_usage_iff {raw cmd arg : Bytes} (h : Words raw cmd arg)
    (hcmd : takesNoArgument (lookup cmd) = true) :
    (it.executeLine raw).2 = ascii "Usage: " ++ cmd ↔ arg ≠ [] := by
  have hne : cmd ≠ [] := by
    rintro rfl
    exact absurd hcmd (by decide)
  rw [it.executeLine_eq h, if_neg hne]
  constructor
  · rintro hresponse rfl
    rw [if_neg (fun hextra => hextra.2 rfl)] at hresponse
    have hhead := it.runCommand_head cmd []
    rw [hresponse] at hhead
    exact responseHeads_plain hcmd hhead
  · intro harg
    rw [if_pos ⟨hcmd, harg⟩]
    rfl

/-! ## The grammar -/

theorem mem_plainCommands {cmd : Bytes} (h : cmd ∈ plainCommands) :
    takesNoArgument (lookup cmd) = true := by
  simp only [plainCommands, List.mem_cons, List.not_mem_nil, or_false] at h
  rcases h with rfl | rfl | rfl | rfl <;> decide

/-- **The grammar of `executeLine`, and atomic rejection.**  A line with the command
`cmd` and the argument `arg` has the effect of the command on everything but the
message, and no other effect; the response is the stored message; `help` displays
the commands exactly when it stands alone; and the commands without an argument
answer extra text, and only extra text, with their usage. -/
theorem executeLine_grammar {raw cmd arg : Bytes} (h : Words raw cmd arg) :
    { (it.executeLine raw).1 with message := it.message } = it.effect cmd arg ∧
    (it.executeLine raw).1.message = (it.executeLine raw).2 ∧
    ((it.executeLine raw).2 = kHelp ↔ cmd = ascii "help" ∧ arg = []) ∧
    (cmd ∈ plainCommands → ((it.executeLine raw).2 = ascii "Usage: " ++ cmd ↔ arg ≠ [])) :=
  ⟨it.executeLine_effect h, it.executeLine_message raw, it.executeLine_help_iff h,
    fun hcmd => it.executeLine_usage_iff h (mem_plainCommands hcmd)⟩

/-- A text with outer whitespace and inner spaces. -/
theorem executeLine_grammar_text :
    { (({} : Interpreter).executeLine (ascii "\t set_text  a  b \r\n")).1 with message := [] } =
      effect {} (ascii "set_text") (ascii "a  b") :=
  (executeLine_grammar {} (words_iff.mpr (by decide))).1

end Interpreter

end Csopesy
