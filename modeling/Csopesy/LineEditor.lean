import Csopesy.Interpreter
import Csopesy.LineDiscipline

/-! # Typing refines line execution

`Interpreter::feed` of `src/features/commands/line_editor.cpp` edits the input
line key by key, while `runPlainLineMode` of `src/app/console_app.cpp` hands
whole lines to `executeLine`.  This module states what the editor is for as a
line discipline (`referenceEditor`), shows that `feed` is that discipline run
on line (`feed_step`), and obtains from the general theory that any mix of keys
ends where the off-line reading of the keys ends (`typing_refines_lines`), and
that typing printable lines ends where plain line mode ends, at the same line.
-/
namespace Csopesy
open LineDiscipline

namespace KeyEvent

/-- The key that types a byte. -/
def typing (c : UInt8) : KeyEvent := { type := .char, ch := c }

def enter : KeyEvent := { type := .enter }

/-- The keys that submit the input line. -/
def submits (ev : KeyEvent) : Bool := ev.type == .enter || ev.type == .eof

end KeyEvent

/-- The reference editor: keep printable bytes, delete the last kept byte on
Backspace, ignore every other key, and at Enter or Eof execute the collected
line; Eof also quits. -/
def referenceEditor : Discipline KeyEvent UInt8 Interpreter where
  submits := KeyEvent.submits
  edit kept ev :=
    if ev.type = .char then if 0x20 ≤ ev.ch ∧ ev.ch ≤ 0x7E then kept ++ [ev.ch] else kept
    else if ev.type = .backspace then kept.dropLast
    else kept
  execute it ev line :=
    let it' := ({ it with line := [] }.executeLine line).1
    if ev.type = .eof then { it' with quit := true } else it'

namespace Interpreter

/-- The session and the collected line of the reference editor as one state. -/
def join (x : Interpreter × Bytes) : Interpreter := { x.1 with line := x.2 }

/-- Read the keys off line: cut them at Enter and Eof, collect each line, execute
it, and leave the line collected after the last submission. -/
def referenceRun (it : Interpreter) (keys : List KeyEvent) : Interpreter :=
  join (referenceEditor.reference (it, it.line) keys)

/-- Feed the keys one by one. -/
def feedAll (it : Interpreter) (keys : List KeyEvent) : Interpreter :=
  keys.foldl (fun it ev => (it.feed ev).1) it

/-- `ConsoleApp::run`'s input loop on a key sequence: feed a key, then leave when
a quit was requested.  The second component is the keys not read. -/
def feedUntilQuit : Interpreter → List KeyEvent → Interpreter × List KeyEvent
  | it, [] => (it, [])
  | it, ev :: evs =>
    if (it.feed ev).1.quit then ((it.feed ev).1, evs) else feedUntilQuit (it.feed ev).1 evs

/-- The loop of `runPlainLineMode` after the first prompt, on the lines
`std::getline` delivers.  It returns the interpreter, the lines not read and what
is printed. -/
def plainLoop (prompt : Bytes) : Interpreter → List Bytes → Interpreter × List Bytes × Bytes
  | it, [] => (it, [], [])
  | it, line :: lines =>
    let (it', response) := it.executeLine line
    let printed := if response.isEmpty then [] else response ++ [newline]
    if it'.quit then (it', lines, printed)
    else
      let (it'', unread, out) := plainLoop prompt it' lines
      (it'', unread, printed ++ prompt ++ [space] ++ out)

/-- `runPlainLineMode` on the content of standard input. -/
def runPlainLineMode (params : Parameters) (stdin : Bytes) : Interpreter × List Bytes × Bytes :=
  let (it, unread, out) := plainLoop prompt { params := params } (getLines stdin)
  (it, unread, prompt ++ [space] ++ out)

/-! ## `feed` is the reference editor -/

theorem join_of_line {it : Interpreter} {kept : Bytes} (h : it.line = kept) :
    join (it, kept) = it := by
  cases it; subst h; rfl

theorem edit_isPrintable (kept : Bytes) (c : UInt8) :
    (if 0x20 ≤ c ∧ c ≤ 0x7E then kept ++ [c] else kept) =
      if isPrintableAscii c then kept ++ [c] else kept := by
  simp [isPrintableAscii]

/-- **One key.**  `feed` takes the joined state where the reference editor's step
takes the pair. -/
theorem feed_step (x : Interpreter × Bytes) (ev : KeyEvent) :
    ((join x).feed ev).1 = join (referenceEditor.step x ev) := by
  obtain ⟨it, kept⟩ := x
  have hsub : (join (it, kept)).submit = ({ it with line := [] }.executeLine kept).1 :=
    submit_eq _
  have hline := (join (it, kept)).submit_line
  rw [hsub] at hline
  unfold feed Discipline.step
  obtain ⟨type, ch⟩ := ev
  cases type with
  | char =>
    show (if isPrintableAscii ch then _ else _) = _
    simp only [referenceEditor, KeyEvent.submits, if_true, edit_isPrintable]
    split <;> rfl
  | enter =>
    show (join (it, kept)).submit = _
    rw [hsub]
    exact (join_of_line hline).symm
  | eof =>
    show { (join (it, kept)).submit with quit := true } = _
    rw [hsub]
    have hquit : { ({ it with line := [] }.executeLine kept).1 with quit := true }.line = [] :=
      hline
    exact (join_of_line hquit).symm
  | backspace | none | tab | escape | arrowUp | arrowDown | arrowLeft | arrowRight => rfl

theorem feedAll_join (x : Interpreter × Bytes) (keys : List KeyEvent) :
    (join x).feedAll keys = join (referenceEditor.run x keys) := by
  induction keys generalizing x with
  | nil => rfl
  | cons ev keys ih =>
    have hrest := ih (referenceEditor.step x ev)
    rw [← feed_step] at hrest
    exact hrest

theorem feedUntilQuit_join (x : Interpreter × Bytes) (keys : List KeyEvent) :
    (join x).feedUntilQuit keys =
      (join (referenceEditor.runUntil Interpreter.quit x keys).1,
        (referenceEditor.runUntil Interpreter.quit x keys).2) := by
  induction keys generalizing x with
  | nil => rfl
  | cons ev keys ih =>
    rw [feedUntilQuit, feed_step, Discipline.runUntil]
    show (if (referenceEditor.step x ev).1.quit then _ else _) = _
    split
    · rfl
    · exact ih _

/-- The keys that submit are exactly those for which `feed` reports a line. -/
theorem feed_submits (it : Interpreter) (ev : KeyEvent) :
    (it.feed ev).2 = true ↔ ev.type = .enter ∨ ev.type = .eof := by
  obtain ⟨type, ch⟩ := ev
  cases type <;> simp [feed]

/-! ## Typed lines -/

theorem types_printable {line : Bytes} (h : Printable line) :
    referenceEditor.Types KeyEvent.typing line := by
  intro c hc
  refine ⟨rfl, fun kept => ?_⟩
  have hp := h c hc
  simp only [isPrintableAscii, Bool.and_eq_true, decide_eq_true_eq] at hp
  simp [referenceEditor, KeyEvent.typing, hp]

/-- The keys of printable lines, each submitted with Enter. -/
def typedLines (lines : List Bytes) : List KeyEvent :=
  lines.flatMap (Discipline.typed KeyEvent.typing KeyEvent.enter)

/-- Give the lines to `executeLine` one by one. -/
def executeAll (it : Interpreter) (lines : List Bytes) : Interpreter :=
  lines.foldl (fun it line => (it.executeLine line).1) it

theorem executeLine_line_nil {it : Interpreter} (h : it.line = []) (line : Bytes) :
    (it.executeLine line).1.line = [] := by
  rw [(it.executeLine_outcome line).line_eq, h]

/-- With an empty input line, the reference editor's submission is `executeLine`. -/
theorem reference_execute {it : Interpreter} (h : it.line = []) (line : Bytes) :
    referenceEditor.execute it .enter line = (it.executeLine line).1 := by
  have hit : { it with line := [] } = it := by cases it; subst h; rfl
  show ({ it with line := [] }.executeLine line).1 = _
  rw [hit]

theorem foldl_reference_execute {it : Interpreter} (h : it.line = []) (lines : List Bytes) :
    lines.foldl (fun it line => referenceEditor.execute it .enter line) it =
      it.executeAll lines := by
  induction lines generalizing it with
  | nil => rfl
  | cons line lines ih =>
    rw [List.foldl_cons, reference_execute h, ih (executeLine_line_nil h line)]
    rfl

theorem executeAll_line_nil {it : Interpreter} (h : it.line = []) (lines : List Bytes) :
    (it.executeAll lines).line = [] := by
  induction lines generalizing it with
  | nil => exact h
  | cons line lines ih => exact ih (executeLine_line_nil h line)

/-- Typing printable lines is executing them. -/
theorem feedAll_typedLines {it : Interpreter} (h : it.line = []) {lines : List Bytes}
    (hp : ∀ l ∈ lines, Printable l) : it.feedAll (typedLines lines) = it.executeAll lines := by
  have hrun : referenceEditor.run (it, []) (typedLines lines) = _ :=
    Discipline.run_typed rfl (fun l hl => types_printable (hp l hl)) it
  calc it.feedAll (typedLines lines)
      = (join (it, [])).feedAll (typedLines lines) := by rw [join_of_line h]
    _ = join (referenceEditor.run (it, []) (typedLines lines)) := feedAll_join _ _
    _ = join (it.executeAll lines, []) := by
        rw [hrun]
        exact congrArg (fun it' => join (it', [])) (foldl_reference_execute h lines)
    _ = it.executeAll lines := join_of_line (executeAll_line_nil h lines)

theorem plainLoop_eq_executeUntil (prompt : Bytes) {it : Interpreter} (h : it.line = [])
    (lines : List Bytes) :
    ((plainLoop prompt it lines).1, (plainLoop prompt it lines).2.1) =
      referenceEditor.executeUntil Interpreter.quit KeyEvent.enter it lines := by
  induction lines generalizing it with
  | nil => rfl
  | cons line lines ih =>
    -- both test the quit flag after the line, before they read another
    rw [plainLoop, Discipline.executeUntil, reference_execute h]
    dsimp only
    split
    · rfl
    · exact ih (executeLine_line_nil h line)

theorem plainLoop_line_nil (prompt : Bytes) {it : Interpreter} (h : it.line = [])
    (lines : List Bytes) : (plainLoop prompt it lines).1.line = [] := by
  induction lines generalizing it with
  | nil => exact h
  | cons line lines ih =>
    rw [plainLoop]
    dsimp only
    split
    · exact executeLine_line_nil h line
    · exact ih (executeLine_line_nil h line)

/-- The input loop on typed lines stops where plain line mode stops. -/
theorem feedUntilQuit_typedLines (prompt : Bytes) {it : Interpreter} (h : it.line = [])
    (hq : it.quit = false) {lines : List Bytes} (hp : ∀ l ∈ lines, Printable l) :
    it.feedUntilQuit (typedLines lines) =
      ((plainLoop prompt it lines).1, typedLines (plainLoop prompt it lines).2.1) := by
  have hrun : referenceEditor.runUntil Interpreter.quit (it, []) (typedLines lines) = _ :=
    Discipline.runUntil_typed rfl (fun l hl => types_printable (hp l hl)) hq
  have hplain := plainLoop_eq_executeUntil prompt h lines
  calc it.feedUntilQuit (typedLines lines)
      = (join (it, [])).feedUntilQuit (typedLines lines) := by rw [join_of_line h]
    _ = (join ((plainLoop prompt it lines).1, []), typedLines (plainLoop prompt it lines).2.1) := by
        rw [feedUntilQuit_join, hrun, ← hplain]
        rfl
    _ = _ := by rw [join_of_line (plainLoop_line_nil prompt h lines)]

/-- Any sequence of keys ends where its off-line reading ends. -/
theorem feedAll_eq_referenceRun (it : Interpreter) (keys : List KeyEvent) :
    it.feedAll keys = it.referenceRun keys := by
  calc it.feedAll keys
      = (join (it, it.line)).feedAll keys := rfl
    _ = join (referenceEditor.run (it, it.line) keys) := feedAll_join _ _
    _ = it.referenceRun keys := by rw [Discipline.run_eq_reference]; rfl

/-- The content of standard input that delivers `lines`. -/
def stdinOf (lines : List Bytes) : Bytes := lines.flatMap (· ++ [newline])

/-- **Raw-mode typing refines line execution.**  The keys fed one by one end in
the state of the reference editor; `feed` reports a line exactly at Enter and
Eof; printable lines typed with Enter end where `executeLine` on each of them
ends; and the input loop, leaving at the first quit, ends in the state plain line
mode ends in and leaves the same lines unread. -/
theorem typing_refines_lines :
    (∀ (it : Interpreter) (keys : List KeyEvent), it.feedAll keys = it.referenceRun keys) ∧
    (∀ (it : Interpreter) (ev : KeyEvent),
      (it.feed ev).2 = true ↔ ev.type = .enter ∨ ev.type = .eof) ∧
    (∀ (it : Interpreter) (lines : List Bytes), it.line = [] → (∀ l ∈ lines, Printable l) →
      it.feedAll (typedLines lines) = it.executeAll lines) ∧
    (∀ (params : Parameters) (lines : List Bytes), (∀ l ∈ lines, Printable l) →
      feedUntilQuit { params := params } (typedLines lines) =
        ((runPlainLineMode params (stdinOf lines)).1,
          typedLines (runPlainLineMode params (stdinOf lines)).2.1)) := by
  refine ⟨feedAll_eq_referenceRun, feed_submits, fun it lines h hp => feedAll_typedLines h hp, ?_⟩
  intro params lines hp
  have hget : getLines (stdinOf lines) = lines :=
    getLines_terminated fun l hl => (hp l hl).newline_notMem
  have hloop : feedUntilQuit { params := params } (typedLines lines) = _ :=
    feedUntilQuit_typedLines prompt rfl rfl hp
  simpa only [runPlainLineMode, hget] using hloop

/-- Three typed lines, the second of which quits: the third stays unread. -/
theorem typing_refines_lines_exit :
    (({} : Interpreter).feedAll (typedLines [ascii "set_text HI", ascii "exit"])).params.text =
        ascii "HI" ∧
    (feedUntilQuit {} (typedLines [ascii "set_text HI", ascii "exit", ascii "help"])).2 =
        typedLines [ascii "help"] := by
  obtain ⟨-, -, hall, hquit⟩ := typing_refines_lines
  constructor
  · rw [hall {} [ascii "set_text HI", ascii "exit"] rfl (by decide)]
    decide
  · rw [hquit {} [ascii "set_text HI", ascii "exit", ascii "help"] (by decide)]
    decide

end Interpreter
end Csopesy
