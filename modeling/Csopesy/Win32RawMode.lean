import Csopesy.Bytes

/-! # Entering and leaving raw mode on Windows

`enterRawMode`, `rawInputMode` and `restore` of `src/platform/terminal_win32.cpp`.  Whether
each `GetConsoleMode` and `SetConsoleMode` succeeds is a parameter; a failing call changes
no mode, and nobody else changes them.

The two modes are set one after the other, and a failure of any call ends the process
(`fatalStartup`), so the source takes the first change back when the second fails.  `raw_`
is set behind both: while it is clear nothing is left to restore, except an output mode that
could not be taken back (`enterRawMode_cases`).
-/
namespace Csopesy

/-- The members of `Win32Terminal`, and the modes in force. -/
structure Win32Terminal where
  -- the handles are not `INVALID_HANDLE_VALUE`
  inValid : Bool := true
  outValid : Bool := true
  savedIn : UInt32 := 0
  savedOut : UInt32 := 0
  raw : Bool := false
  modeIn : UInt32
  modeOut : UInt32
deriving DecidableEq, Repr

namespace Win32Terminal

/-! ## The source -/

def enableProcessedInput : UInt32 := 0x0001
def enableLineInput : UInt32 := 0x0002
def enableEchoInput : UInt32 := 0x0004
def enableWindowInput : UInt32 := 0x0008
def enableMouseInput : UInt32 := 0x0010
def enableQuickEditMode : UInt32 := 0x0040
def enableExtendedFlags : UInt32 := 0x0080
def enableVirtualTerminalInput : UInt32 := 0x0200
def enableVirtualTerminalProcessing : UInt32 := 0x0004
def disableNewlineAutoReturn : UInt32 := 0x0008

def rawInputMode (saved : UInt32) : UInt32 :=
  let kUnwanted := enableQuickEditMode ||| enableMouseInput ||| enableWindowInput
  let kCooked := enableLineInput ||| enableEchoInput ||| enableProcessedInput
  let mode := saved ||| enableExtendedFlags
  let mode := mode &&& ~~~kUnwanted
  let mode := mode &&& ~~~kCooked
  mode &&& ~~~enableVirtualTerminalInput

/-- `outMode` of `enterRawMode`. -/
def rawOutputMode (saved : UInt32) : UInt32 :=
  saved ||| (enableVirtualTerminalProcessing ||| disableNewlineAutoReturn)

/-- Whether each call of `enterRawMode` succeeds. -/
structure EnterAnswers where
  getIn : Bool
  getOut : Bool
  setOut : Bool
  setIn : Bool
  -- the second `SetConsoleMode` on the output, behind a failed one on the input
  rollback : Bool
  -- what `GetLastError` returns in `fatalStartup`
  lastError : UInt32
deriving DecidableEq, Repr

def noConsole : Bytes :=
  ascii "no console on standard input/output; run with --no-tty for plain line mode"

def noVirtualTerminal : Bytes :=
  ascii "could not enable virtual terminal (ANSI) output; " ++
    ascii "use Windows Terminal or another VT-capable console"

def noRawInput : Bytes := ascii "could not enter raw input mode on this console"

/-- The line that `fatalStartup` prints to standard error. -/
def fatalStartup (what : Bytes) (lastError : UInt32) : Bytes :=
  ascii "csopesy: fatal: " ++ what ++ ascii " (GetLastError=" ++ ascii lastError.toNat.repr ++
    ascii ")"

/-- With the argument of `fatalStartup` when the process ends there. -/
def enterRawMode (t : Win32Terminal) (answers : EnterAnswers) : Win32Terminal × Option Bytes :=
  if t.raw then (t, none)
  else if !t.inValid || !t.outValid then (t, some noConsole)
  else if !answers.getIn then (t, some noConsole)
  else
    let t := { t with savedIn := t.modeIn }
    if !answers.getOut then (t, some noConsole)
    else
      let t := { t with savedOut := t.modeOut }
      if !answers.setOut then (t, some noVirtualTerminal)
      else
        let t := { t with modeOut := rawOutputMode t.savedOut }
        if !answers.setIn then
          let t := if answers.rollback then { t with modeOut := t.savedOut } else t
          (t, some noRawInput)
        else ({ t with modeIn := rawInputMode t.savedIn, raw := true }, none)

/-- Whether each `SetConsoleMode` of a `restore` succeeds. -/
structure RestoreAnswers where
  setIn : Bool
  setOut : Bool
deriving DecidableEq, Repr

def restore (t : Win32Terminal) (answers : RestoreAnswers) : Win32Terminal :=
  if !t.raw then t
  else
    let t := if answers.setIn then { t with modeIn := t.savedIn } else t
    let t := if answers.setOut then { t with modeOut := t.savedOut } else t
    -- the results of `SetConsoleMode` are not looked at
    { t with raw := false }

/-! ## The raw modes -/

/-- The bits that `rawInputMode` clears. -/
def cookedBits : List (Fin 32) := [0, 1, 2, 3, 4, 6, 9]

/-- **The raw input mode, bit by bit.**  The extended flags are set, so that clearing the
quick-edit bit takes effect, and every bit that is not named is kept. -/
theorem rawInputMode_bits (saved : UInt32) (i : Fin 32) :
    (rawInputMode saved).toBitVec.getLsbD i =
      if i ∈ cookedBits then false else if i = 7 then true else saved.toBitVec.getLsbD i := by
  have hmask : (rawInputMode saved).toBitVec =
      (saved.toBitVec ||| 0x80#32) &&& ~~~0x58#32 &&& ~~~0x7#32 &&& ~~~0x200#32 := rfl
  rw [hmask]
  simp only [BitVec.getLsbD_and, BitVec.getLsbD_or, BitVec.getLsbD_not]
  generalize saved.toBitVec.getLsbD i = b
  revert i b
  decide

/-! ## What the two members do -/

/-- Every call that `enterRawMode` makes on the way to raw mode succeeds. -/
def EnterAnswers.AllSucceed (answers : EnterAnswers) : Prop :=
  answers.getIn = true ∧ answers.getOut = true ∧ answers.setOut = true ∧ answers.setIn = true

/-- Only the input mode fails, and then the output mode cannot be taken back. -/
def EnterAnswers.Strands (answers : EnterAnswers) : Prop :=
  answers.getIn = true ∧ answers.getOut = true ∧ answers.setOut = true ∧
    answers.setIn = false ∧ answers.rollback = false

instance (answers : EnterAnswers) : Decidable answers.AllSucceed :=
  inferInstanceAs (Decidable (_ ∧ _))

instance (answers : EnterAnswers) : Decidable answers.Strands := inferInstanceAs (Decidable (_ ∧ _))

/-- Both handles are valid. -/
def Valid (t : Win32Terminal) : Prop := t.inValid = true ∧ t.outValid = true

instance (t : Win32Terminal) : Decidable t.Valid := inferInstanceAs (Decidable (_ ∧ _))

variable {t : Win32Terminal}

/-- **Everything `enterRawMode` can do** outside raw mode.  It enters raw mode with the modes
in force saved, or ends the process with a text: then `raw_` is clear and the modes are as before,
but for an output mode that was not taken back. -/
theorem enterRawMode_cases (hraw : t.raw = false) (answers : EnterAnswers) :
    (t.Valid ∧ answers.AllSucceed ∧ t.enterRawMode answers =
      ({ t with
        savedIn := t.modeIn, savedOut := t.modeOut, raw := true
        modeIn := rawInputMode t.modeIn, modeOut := rawOutputMode t.modeOut }, none)) ∨
    (¬ (t.Valid ∧ answers.AllSucceed) ∧
      (∃ what, Printable what ∧ (t.enterRawMode answers).2 = some what) ∧
      (t.enterRawMode answers).1.raw = false ∧ (t.enterRawMode answers).1.modeIn = t.modeIn ∧
      (t.enterRawMode answers).1.modeOut =
        if t.Valid ∧ answers.Strands then rawOutputMode t.modeOut else t.modeOut) := by
  obtain ⟨inValid, outValid, savedIn, savedOut, raw, modeIn, modeOut⟩ := t
  obtain ⟨getIn, getOut, setOut, setIn, rollback, lastError⟩ := answers
  obtain rfl : raw = false := hraw
  have hnoConsole : Printable noConsole := by decide
  have hnoTerminal : Printable noVirtualTerminal := by decide
  have hnoInput : Printable noRawInput := by decide
  -- one case for each call that may fail, in the order of the source
  cases inValid with
  | false =>
    exact .inr ⟨fun h => Bool.false_ne_true h.1.1, ⟨_, hnoConsole, rfl⟩, rfl, rfl,
      (if_neg fun h => Bool.false_ne_true h.1.1).symm⟩
  | true =>
  cases outValid with
  | false =>
    exact .inr ⟨fun h => Bool.false_ne_true h.1.2, ⟨_, hnoConsole, rfl⟩, rfl, rfl,
      (if_neg fun h => Bool.false_ne_true h.1.2).symm⟩
  | true =>
  cases getIn with
  | false =>
    exact .inr ⟨fun h => Bool.false_ne_true h.2.1, ⟨_, hnoConsole, rfl⟩, rfl, rfl,
      (if_neg fun h => Bool.false_ne_true h.2.1).symm⟩
  | true =>
  cases getOut with
  | false =>
    exact .inr ⟨fun h => Bool.false_ne_true h.2.2.1, ⟨_, hnoConsole, rfl⟩, rfl, rfl,
      (if_neg fun h => Bool.false_ne_true h.2.2.1).symm⟩
  | true =>
  cases setOut with
  | false =>
    exact .inr ⟨fun h => Bool.false_ne_true h.2.2.2.1, ⟨_, hnoTerminal, rfl⟩, rfl, rfl,
      (if_neg fun h => Bool.false_ne_true h.2.2.2.1).symm⟩
  | true =>
  cases setIn with
  | true => exact .inl ⟨⟨rfl, rfl⟩, ⟨rfl, rfl, rfl, rfl⟩, rfl⟩
  | false =>
  cases rollback with
  | true =>
    exact .inr ⟨fun h => Bool.false_ne_true h.2.2.2.2, ⟨_, hnoInput, rfl⟩, rfl, rfl,
      (if_neg fun h => Bool.false_ne_true h.2.2.2.2.2.symm).symm⟩
  | false =>
    exact .inr ⟨fun h => Bool.false_ne_true h.2.2.2.2, ⟨_, hnoInput, rfl⟩, rfl, rfl,
      (if_pos ⟨⟨rfl, rfl⟩, rfl, rfl, rfl, rfl, rfl⟩).symm⟩

/-- A `restore` outside raw mode does nothing. -/
theorem restore_cooked (hraw : t.raw = false) (answers : RestoreAnswers) :
    t.restore answers = t := by
  unfold restore
  rw [hraw]
  rfl

/-- In raw mode each mode is set back on its own, and `raw_` is clear. -/
theorem restore_raw (hraw : t.raw = true) (answers : RestoreAnswers) : t.restore answers =
    { t with
      raw := false
      modeIn := if answers.setIn then t.savedIn else t.modeIn
      modeOut := if answers.setOut then t.savedOut else t.modeOut } := by
  obtain ⟨setIn, setOut⟩ := answers
  unfold restore
  rw [hraw]
  cases setIn <;> cases setOut <;> rfl

end Win32Terminal
end Csopesy
