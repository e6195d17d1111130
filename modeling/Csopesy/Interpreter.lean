import Csopesy.Parameters

/-! # The command interpreter

`include/csopesy/interpreter.hpp`, `src/features/commands/interpreter.cpp` and
`include/csopesy/keys.hpp`.  The C++ `Interpreter` holds references to the
parameters and to the process that the scheduler and the renderer also see, so
both are part of its state here.  `executeLine` is split at the dispatch: `cmd`
and `arg` are cut from the trimmed line, and `runCommand` is the `switch`.

What a line can do is said once, in `executeLine_outcome`: it leaves everything
but the message alone, or it changes exactly the target of its command.  What a
key can do is said in `feed_outcome`.
-/
namespace Csopesy

/-! ## Keys -/

inductive KeyType
  | none
  | char
  | enter
  | backspace
  | tab
  | escape
  | arrowUp
  | arrowDown
  | arrowLeft
  | arrowRight
  | eof
deriving DecidableEq, Repr

structure KeyEvent where
  type : KeyType := .none
  ch : UInt8 := 0
deriving DecidableEq, Repr

/-! ## Cutting a line into a command and its argument -/

def isSpace (c : UInt8) : Bool :=
  c == 0x20 || c == 0x09 || c == 0x0A || c == 0x0D || c == 0x0C || c == 0x0B

def trim (s : Bytes) : Bytes := trimWith isSpace isSpace s

inductive Cmd
  | help
  | start
  | stop
  | setText
  | setSpeed
  | exit
  | unknown
deriving DecidableEq, Repr

def commandTable : List (Bytes × Cmd) :=
  [(ascii "help", .help), (ascii "start_marquee", .start), (ascii "stop_marquee", .stop),
    (ascii "set_text", .setText), (ascii "set_speed", .setSpeed), (ascii "exit", .exit)]

/-- Command names match exactly and are case-sensitive. -/
def lookup (name : Bytes) : Cmd := (commandTable.lookup name).getD .unknown

/-- The line up to its first whitespace byte. -/
def cmdOf (line : Bytes) : Bytes :=
  match line.findIdx? isSpace with
  | none => line
  | some sep => line.take sep

/-- What follows the command, trimmed. -/
def argOf (line : Bytes) : Bytes :=
  match line.findIdx? isSpace with
  | none => []
  | some sep => trim (line.drop sep)

def takesNoArgument : Cmd → Bool
  | .help | .start | .stop | .exit => true
  | _ => false

def kHelp : Bytes :=
  ascii "Available commands:\n" ++
  ascii "  help           - displays the commands and its description\n" ++
  ascii "  start_marquee  - starts the marquee animation\n" ++
  ascii "  stop_marquee   - stops the marquee animation\n" ++
  ascii "  set_text       - accepts a text input and displays it as a marquee\n" ++
  ascii "  set_speed      - sets the marquee animation refresh in milliseconds\n" ++
  ascii "  exit           - terminates the console"

/-- The digit loop of `parseFullInteger`: `mag` saturates at 10^18 instead of
wrapping. -/
def parseFullInteger.digits (mag : UInt64) : Bytes → Option UInt64
  | [] => some mag
  | c :: rest =>
    if c < 0x30 || c > 0x39 then none
    else
      let digit : UInt64 := (c - 0x30).toUInt64
      if mag > (1000000000000000000 - digit) / 10 then
        parseFullInteger.digits 1000000000000000000 rest
      else parseFullInteger.digits (mag * 10 + digit) rest

/-- A complete signed decimal integer, saturated to the `int` range. -/
def parseFullInteger (s : Bytes) : Option Int :=
  let negative := s.head? == some 0x2D
  let signed := s.head? == some 0x2B || negative
  let body := if signed then s.drop 1 else s
  if body.isEmpty then none
  else (parseFullInteger.digits 0 body).map fun mag =>
    if negative then if mag ≥ 2147483648 then -2147483647 - 1 else -(mag.toNat : Int)
    else if mag > 2147483647 then 2147483647 else (mag.toNat : Int)

/-! ## The interpreter -/

structure Interpreter where
  params : Parameters := {}
  proc : MarqueeProcess := {}
  line : Bytes := []
  message : Bytes := []
  quit : Bool := false
deriving DecidableEq, Repr

namespace Interpreter

def prompt : Bytes := ascii "Command>"

/-- Store a response as the latest message and return it. -/
def respond (it : Interpreter) (text : Bytes) : Interpreter × Bytes :=
  ({ it with message := text }, text)

/-- The `switch` of `executeLine`. -/
def runCommand (it : Interpreter) (cmd arg : Bytes) : Interpreter × Bytes :=
  match lookup cmd with
  | .help => it.respond kHelp
  | .start =>
    let (proc, started) := it.proc.start
    { it with proc := proc }.respond
      (if started then ascii "Marquee started." else ascii "Marquee is already running.")
  | .stop =>
    let (proc, stopped) := it.proc.stop
    { it with proc := proc }.respond
      (if stopped then ascii "Marquee stopped." else ascii "Marquee is not running.")
  | .setText =>
    if arg.isEmpty then it.respond (ascii "Usage: set_text <text>")
    else
      match it.params.setText arg with
      | (params, .ok) =>
        { it with params := params }.respond
          (ascii "Marquee text set to \"" ++ params.text ++ ascii "\".")
      | (params, .nonAscii) =>
        { it with params := params }.respond
          (ascii "set_text: only printable ASCII characters are supported.")
      | (params, .empty) =>
        { it with params := params }.respond (ascii "Usage: set_text <text>")
  | .setSpeed =>
    if arg.isEmpty then it.respond (ascii "Usage: set_speed <milliseconds>")
    else
      match parseFullInteger arg with
      | none => it.respond (ascii "Usage: set_speed <milliseconds>")
      | some requested =>
        let (params, report) := it.params.setRefresh requested
        { it with params := params }.respond
          (if report.clamped then
            ascii "Speed " ++ intToString report.requested ++
              ascii " ms is out of range [1, 10000]; clamped to " ++
              intToString report.applied ++ ascii " ms."
          else ascii "Marquee speed set to " ++ intToString report.applied ++ ascii " ms.")
  | .exit => { it with quit := true }.respond (ascii "Exiting CSOPESY. Goodbye!")
  | .unknown =>
    it.respond (ascii "Command not recognized: \"" ++ cmd ++
      ascii "\". Type \"help\" for the list of commands.")

/-- Execute a complete input line and return the response, which is also stored
as the latest message. -/
def executeLine (it : Interpreter) (raw : Bytes) : Interpreter × Bytes :=
  let line := trim raw
  if line.isEmpty then it.respond []
  else
    let cmd := cmdOf line
    let arg := argOf line
    if !arg.isEmpty && takesNoArgument (lookup cmd) then it.respond (ascii "Usage: " ++ cmd)
    else it.runCommand cmd arg

/-- Submit the collected line: clear it, then execute it. -/
def submit (it : Interpreter) : Interpreter :=
  let submitted := it.line
  let (it', response) := { it with line := [] }.executeLine submitted
  { it' with message := response }

/-- Process one key event; `true` when it submits a complete line. -/
def feed (it : Interpreter) (ev : KeyEvent) : Interpreter × Bool :=
  match ev.type with
  | .char => (if isPrintableAscii ev.ch then { it with line := it.line ++ [ev.ch] } else it, false)
  | .backspace => ({ it with line := it.line.dropLast }, false)
  | .enter => (it.submit, true)
  | .eof => ({ it.submit with quit := true }, true)
  | _ => (it, false)

/-! ## What a line can do -/

@[simp] theorem respond_fst (it : Interpreter) (text : Bytes) :
    (it.respond text).1 = { it with message := text } := rfl

/-- The effects of a line, next to the message it leaves: none, an effective
start or stop, a new text, a new refresh interval, or a quit request. -/
inductive Outcome (it : Interpreter) : Interpreter → Prop
  | message (m : Bytes) : Outcome it { it with message := m }
  | start (m : Bytes) (h : it.proc.state = .stopped) :
      Outcome it { it with
        proc := { it.proc with state := .running, hasRendered := false }, message := m }
  | stop (m : Bytes) (h : it.proc.state = .running) :
      Outcome it { it with proc := { it.proc with state := .stopped }, message := m }
  | text (m t : Bytes) (hne : t ≠ []) (hp : Printable t) :
      Outcome it { it with params := { it.params with text := t }, message := m }
  | refresh (m : Bytes) (ms : Int) (hlo : Parameters.kRefreshMin ≤ ms)
      (hhi : ms ≤ Parameters.kRefreshMax) :
      Outcome it { it with params := { it.params with refreshMs := ms }, message := m }
  | quit (m : Bytes) : Outcome it { it with quit := true, message := m }

theorem runCommand_outcome (it : Interpreter) (cmd arg : Bytes) :
    Outcome it (it.runCommand cmd arg).1 := by
  unfold runCommand
  cases lookup cmd with
  | help => exact .message _
  | start =>
    cases hs : it.proc.state with
    | running => rw [MarqueeProcess.start_running hs]; exact .message _
    | stopped => rw [MarqueeProcess.start_stopped hs]; exact .start _ hs
  | stop =>
    cases hs : it.proc.state with
    | running => simp only [MarqueeProcess.stop, hs]; exact .stop _ hs
    | stopped => simp only [MarqueeProcess.stop, hs]; exact .message _
  | setText =>
    dsimp only
    split
    · exact .message _
    · rcases it.params.setText_cases arg with ⟨hp, hne⟩ | ⟨t, -, hne, hpr, h⟩
      · -- a rejected text leaves the parameters alone
        rcases hr : it.params.setText arg with ⟨p, r⟩
        rw [hr] at hp hne
        subst hp
        cases r with
        | ok => exact absurd rfl hne
        | empty => exact .message _
        | nonAscii => exact .message _
      · rw [h]; exact .text _ t hne hpr
  | setSpeed =>
    dsimp only
    split
    · exact .message _
    · split
      · exact .message _
      · rename_i requested _
        obtain ⟨hlo, hhi⟩ := Parameters.clampReport_applied_mem (ascii "refreshMs")
          (show Parameters.kRefreshMin ≤ Parameters.kRefreshMax by decide) requested
        exact .refresh _ _ hlo hhi
  | exit => exact .quit _
  | unknown => exact .message _

/-- **Everything a line can do.** -/
theorem executeLine_outcome (it : Interpreter) (raw : Bytes) :
    Outcome it (it.executeLine raw).1 := by
  unfold executeLine
  dsimp only
  split
  · exact .message _
  · split
    · exact .message _
    · exact it.runCommand_outcome _ _

theorem Outcome.line_eq {it it' : Interpreter} (h : Outcome it it') : it'.line = it.line := by
  cases h <;> rfl

theorem runCommand_message (it : Interpreter) (cmd arg : Bytes) :
    (it.runCommand cmd arg).1.message = (it.runCommand cmd arg).2 := by
  unfold runCommand
  split <;> try rfl
  · split
    · rfl
    · split <;> rfl
  · split
    · rfl
    · split <;> rfl

/-- The returned response is the stored message. -/
theorem executeLine_message (it : Interpreter) (raw : Bytes) :
    (it.executeLine raw).1.message = (it.executeLine raw).2 := by
  unfold executeLine
  dsimp only
  split
  · rfl
  · split
    · rfl
    · exact it.runCommand_message _ _

/-- A submission is `executeLine` on the collected line, with the line cleared. -/
theorem submit_eq (it : Interpreter) :
    it.submit = ({ it with line := [] }.executeLine it.line).1 := by
  have h := executeLine_message { it with line := [] } it.line
  unfold submit
  dsimp only
  rw [← h]

theorem submit_outcome (it : Interpreter) : Outcome { it with line := [] } it.submit := by
  rw [submit_eq]
  exact executeLine_outcome _ _

theorem submit_line (it : Interpreter) : it.submit.line = [] := it.submit_outcome.line_eq

/-! ## What a key can do -/

/-- A key leaves the process alone, starts a stopped one or stops a running one. -/
inductive ProcChange (proc : MarqueeProcess) : MarqueeProcess → Prop
  | same : ProcChange proc proc
  | started (h : proc.state = .stopped) :
      ProcChange proc { proc with state := .running, hasRendered := false }
  | stopped (h : proc.state = .running) : ProcChange proc { proc with state := .stopped }

theorem Outcome.procChange {it it' : Interpreter} (h : Outcome it it') :
    ProcChange it.proc it'.proc := by
  cases h with
  | start m hs => exact .started hs
  | stop m hs => exact .stopped hs
  | message | text | refresh | quit => exact .same

/-- What one key can leave: the interpreter as it was, with a byte appended to the line
or taken from it, or with the line submitted. -/
inductive KeyOutcome (it : Interpreter) : Interpreter → Prop
  | ignored : KeyOutcome it it
  | typed (c : UInt8) (h : isPrintableAscii c = true) :
      KeyOutcome it { it with line := it.line ++ [c] }
  | erased : KeyOutcome it { it with line := it.line.dropLast }
  | submitted : KeyOutcome it it.submit
  | ended : KeyOutcome it { it.submit with quit := true }

/-- **Everything a key can do.** -/
theorem feed_outcome (it : Interpreter) (ev : KeyEvent) : KeyOutcome it (it.feed ev).1 := by
  unfold feed
  cases ev.type with
  | char =>
    dsimp only
    split
    · rename_i hch
      exact .typed ev.ch hch
    · exact .ignored
  | backspace => exact .erased
  | enter => exact .submitted
  | eof => exact .ended
  | none | tab | escape | arrowUp | arrowDown | arrowLeft | arrowRight => exact .ignored

theorem KeyOutcome.procChange {it it' : Interpreter} (h : KeyOutcome it it') :
    ProcChange it.proc it'.proc := by
  cases h with
  | ignored | typed | erased => exact .same
  | submitted | ended => exact it.submit_outcome.procChange

theorem feed_procChange (it : Interpreter) (ev : KeyEvent) :
    ProcChange it.proc (it.feed ev).1.proc := (it.feed_outcome ev).procChange

end Interpreter
end Csopesy
