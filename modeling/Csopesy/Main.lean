import Csopesy.RawMode
import Csopesy.Startup
import Csopesy.Win32RawMode

/-! # The entry point

`main` of `src/main.cpp` with its `TerminalGuard`, and the paths on which the process ends:
by `return`, behind the destructors of the guard and of the terminal, or by `std::exit`
inside `enterRawMode` on Windows, behind the exit handler alone.  Both backends are the same
`Backend`; `ConsoleApp::run` changes no mode, writes nothing to standard error and is left out.

Up to three calls restore the terminal.  The first clears `raw_`, so the others find nothing
to do (`modes_eq`), and the answers of the system to the first decide alone what is left:
`main` leaves every mode as it found it exactly when its own call succeeded, or was not
needed (`PosixTerminal.main_keeps_iff`, `Win32Terminal.main_keeps_modes_iff`).
-/
namespace Csopesy

/-- What `main` needs of a terminal.  The answers of the system to each call are arguments. -/
structure Backend (T E R : Type) where
  -- with the line of `fatalStartup` when the process ends there
  enterRawMode : T → E → T × Option Bytes
  restore : T → R → T
  -- `create` registers `restoreActiveTerminal` with `atexit`
  atExit : Bool

/-- How a process ends. -/
structure Ended (T : Type) where
  term : T
  -- the warnings, and the line of `fatalStartup`
  stderr : Bytes
  -- that line, `none` behind `return 0`
  fatal : Option Bytes

/-- `std::fprintf(stderr, "%s\n", warning.c_str())` for each warning. -/
def warningLines (warnings : List Bytes) : Bytes :=
  warnings.flatMap fun warning => warning.takeWhile (· ≠ 0) ++ [newline]

namespace Backend
variable {T E R : Type} (b : Backend T E R)

/-- From the guard's constructor to the exit handler. -/
def modes (plainLineMode : Bool) (t : T) (enter : E) (guard destroy exit : R) :
    T × Option Bytes :=
  match if plainLineMode then (t, none) else b.enterRawMode t enter with
  -- `std::exit` destroys nothing, and `g_active` is still set
  | (t, some what) => (if b.atExit then b.restore t exit else t, some what)
  | (t, none) =>
    let t := if plainLineMode then t else b.restore t guard
    -- the destructor of the terminal clears `g_active`
    (b.restore t destroy, none)

def main (args : List Bytes) (configPath : Bytes) (content : Option Bytes) (isTty : Bool) (t : T)
    (enter : E) (guard destroy exit : R) : Ended T :=
  let cli := Cli.parseCli args configPath content
  let plainLineMode := cli.params.noTty || !isTty
  let (t, fatal) := b.modes plainLineMode t enter guard destroy exit
  { term := t
    stderr := warningLines cli.warnings ++ fatal.toList.flatMap (· ++ [newline])
    fatal := fatal }

/-- In a state of `cooked` there is nothing to restore, and every restored terminal and
every failed start is in one. -/
structure Lawful (cooked : T → Prop) : Prop where
  restore_eq : ∀ {t} r, cooked t → b.restore t r = t
  restored : ∀ t r, cooked (b.restore t r)
  failed : ∀ {t} e, cooked t → (b.enterRawMode t e).2 ≠ none → cooked (b.enterRawMode t e).1

variable {b}

/-- Only the guard's `enterRawMode` ends the process. -/
theorem main_fatal {args : List Bytes} {configPath : Bytes} {content : Option Bytes} {isTty : Bool}
    {t : T} {enter : E} {guard destroy exit : R} {line : Bytes}
    (h : (b.main args configPath content isTty t enter guard destroy exit).fatal = some line) :
    (b.enterRawMode t enter).2 = some line := by
  change (b.modes _ t enter guard destroy exit).2 = some line at h
  unfold modes at h
  generalize b.enterRawMode t enter = entered at h ⊢
  obtain ⟨t', fatal⟩ := entered
  generalize ((Cli.parseCli args configPath content).params.noTty || !isTty) = plainLineMode at h
  cases plainLineMode with
  | true => exact absurd h (Option.some_ne_none line).symm
  | false =>
    cases fatal with
    | none => exact absurd h (Option.some_ne_none line).symm
    | some what => exact h

/-- **One call restores the terminal**: the guard's. -/
theorem modes_eq {cooked : T → Prop} (h : b.Lawful cooked) {t : T} (ht : cooked t)
    (plainLineMode : Bool) (enter : E) (guard destroy exit : R) :
    b.modes plainLineMode t enter guard destroy exit =
      if plainLineMode then (t, none)
      else if (b.enterRawMode t enter).2 = none then
        (b.restore (b.enterRawMode t enter).1 guard, none)
      else b.enterRawMode t enter := by
  unfold modes
  cases plainLineMode with
  | true =>
    show (b.restore t destroy, none) = (t, none)
    rw [h.restore_eq destroy ht]
  | false =>
    have hfailed := h.failed enter ht
    rw [if_neg Bool.false_ne_true, if_neg Bool.false_ne_true]
    generalize b.enterRawMode t enter = entered at hfailed ⊢
    obtain ⟨t', fatal⟩ := entered
    cases fatal with
    | none =>
      show (b.restore (b.restore t' guard) destroy, none) = _
      rw [h.restore_eq destroy (h.restored t' guard), if_pos rfl]
    | some what =>
      have hcooked : cooked t' := hfailed (Option.some_ne_none what)
      rw [if_neg (Option.some_ne_none what)]
      show (if b.atExit then b.restore t' exit else t', some what) = (t', some what)
      rw [h.restore_eq exit hcooked, ite_self]

/-- `main` changes no mode with `--no-tty`, or when the terminal is none. -/
theorem main_eq {cooked : T → Prop} (h : b.Lawful cooked) {t : T} (ht : cooked t)
    (args : List Bytes) (configPath : Bytes) (content : Option Bytes) (isTty : Bool) (enter : E)
    (guard destroy exit : R) :
    b.main args configPath content isTty t enter guard destroy exit =
      let outcome :=
        if ascii "--no-tty" ∈ args ∨ isTty = false then (t, none)
        else if (b.enterRawMode t enter).2 = none then
          (b.restore (b.enterRawMode t enter).1 guard, none)
        else b.enterRawMode t enter
      { term := outcome.1
        stderr := warningLines (Cli.parseCli args configPath content).warnings ++
          outcome.2.toList.flatMap (· ++ [newline])
        fatal := outcome.2 } := by
  have hplain : ((Cli.parseCli args configPath content).params.noTty || !isTty) = true ↔
      ascii "--no-tty" ∈ args ∨ isTty = false := by
    rw [Bool.or_eq_true, Bool.not_eq_true', Cli.noTty_parseCli]
  unfold main
  simp only [modes_eq h ht, hplain]

end Backend

/-! ## POSIX -/

namespace PosixTerminal

/-- Whether `tcgetattr` and `tcsetattr` succeed on entering, and `tcsetattr` on leaving. -/
def backend (header : TermiosHeader) : Backend PosixTerminal (Bool × Bool) Bool where
  enterRawMode t answers := (t.enterRawMode header answers.1 answers.2, none)
  restore t set := t.restore set
  atExit := false

theorem backend_lawful (header : TermiosHeader) :
    (backend header).Lawful fun t => t.raw = false where
  restore_eq := by
    intro t set hraw
    obtain ⟨-, heq⟩ | ⟨hraw', -, -⟩ | ⟨hraw', -, -⟩ := restore_cases t set
    · exact heq
    · exact absurd (hraw.symm.trans hraw') Bool.false_ne_true
    · exact absurd (hraw.symm.trans hraw') Bool.false_ne_true
  restored := by
    intro t set
    change (t.restore set).raw = false
    obtain ⟨hraw, heq⟩ | ⟨-, -, heq⟩ | ⟨-, -, heq⟩ := restore_cases t set
    · rw [heq]
      exact hraw
    · rw [heq]
    · rw [heq]
  failed _ _ hfails := absurd rfl hfails

/-- **What `main` leaves behind on POSIX.**  The attributes are as it found them exactly when
raw mode was never entered, the guard's `tcsetattr` succeeded, or the attributes are the raw
ones already. -/
theorem main_keeps_iff (header : TermiosHeader) (args : List Bytes) (configPath : Bytes)
    (content : Option Bytes) (tty : Termios) (isTty get set guard destroy exit : Bool) :
    ((backend header).main args configPath content isTty { tty := tty } (get, set) guard destroy
        exit).term.tty = tty ↔
      ascii "--no-tty" ∈ args ∨ isTty = false ∨ get = false ∨ set = false ∨ guard = true ∨
        rawFrom header tty = tty := by
  rw [Backend.main_eq (backend_lawful header) rfl]
  by_cases hplain : ascii "--no-tty" ∈ args ∨ isTty = false
  · rw [if_pos hplain]
    exact iff_of_true rfl (hplain.imp_right .inl)
  · rw [if_neg hplain]
    obtain ⟨hno, htty⟩ := not_or.mp hplain
    rw [or_iff_right hno, or_iff_right htty]
    cases get with
    | false => exact iff_of_true rfl (.inl rfl)
    | true =>
      cases set with
      | false => exact iff_of_true rfl (.inr (.inl rfl))
      | true =>
        cases guard with
        | true => exact iff_of_true rfl (.inr (.inr (.inl rfl)))
        | false =>
          -- raw mode is left behind
          change rawFrom header tty = tty ↔ _
          simp only [Bool.true_eq_false, Bool.false_eq_true, false_or]

end PosixTerminal

/-! ## Windows -/

namespace Win32Terminal

/-- `gotIn` and `gotOut` tell whether each `GetConsoleMode` succeeds. -/
def isTty (t : Win32Terminal) (gotIn gotOut : Bool) : Bool :=
  t.inValid && t.outValid && gotIn && gotOut

theorem valid_of_isTty {t : Win32Terminal} {gotIn gotOut : Bool}
    (h : t.isTty gotIn gotOut = true) : t.Valid := by
  unfold isTty at h
  rw [Bool.and_eq_true, Bool.and_eq_true, Bool.and_eq_true] at h
  exact h.1.1

/-- `create` registers the exit handler. -/
def backend : Backend Win32Terminal EnterAnswers RestoreAnswers where
  enterRawMode t answers :=
    let (t, what) := t.enterRawMode answers
    (t, what.map (fatalStartup · answers.lastError))
  restore := restore
  atExit := true

theorem backend_lawful : backend.Lawful fun t => t.raw = false where
  restore_eq r hraw := restore_cooked hraw r
  restored := by
    intro t r
    change (t.restore r).raw = false
    cases hraw : t.raw with
    | false =>
      rw [restore_cooked hraw]
      exact hraw
    | true => rw [restore_raw hraw]
  failed := by
    intro t answers hraw hfails
    obtain ⟨-, -, heq⟩ | ⟨-, -, hcooked, -⟩ := enterRawMode_cases hraw answers
    · refine absurd ?_ hfails
      change (t.enterRawMode answers).2.map _ = none
      rw [heq]
      rfl
    · exact hcooked

/-- **What `main` leaves behind on Windows.**  The process ends in `fatalStartup` exactly when
a call on the way to raw mode fails.  It leaves the input mode as it found it exactly when raw
mode was not entered, the guard's call succeeded, or the mode is the raw one already; and the
output mode likewise, but for a failed start that could not take it back. -/
theorem main_keeps_modes_iff (args : List Bytes) (configPath : Bytes) (content : Option Bytes)
    (inValid outValid : Bool) (modeIn modeOut : UInt32) (gotIn gotOut : Bool)
    (enter : EnterAnswers) (guard destroy exit : RestoreAnswers) :
    let t : Win32Terminal := { inValid, outValid, modeIn, modeOut }
    let ended := backend.main args configPath content (t.isTty gotIn gotOut) t enter guard destroy
      exit
    let plain := ascii "--no-tty" ∈ args ∨ t.isTty gotIn gotOut = false
    (ended.fatal = none ↔ plain ∨ enter.AllSucceed) ∧
    (ended.term.modeIn = modeIn ↔
      plain ∨ ¬ enter.AllSucceed ∨ guard.setIn = true ∨ rawInputMode modeIn = modeIn) ∧
    (ended.term.modeOut = modeOut ↔
      plain ∨ (¬ enter.AllSucceed ∧ ¬ enter.Strands) ∨
        (enter.AllSucceed ∧ guard.setOut = true) ∨ rawOutputMode modeOut = modeOut) := by
  intro t ended plain
  have hraw : t.raw = false := rfl
  have hended : ended = _ := Backend.main_eq backend_lawful hraw ..
  by_cases hplain : plain
  · rw [hended, if_pos hplain]
    exact ⟨iff_of_true rfl (.inl hplain), iff_of_true rfl (.inl hplain),
      iff_of_true rfl (.inl hplain)⟩
  · have hvalid : t.Valid := valid_of_isTty (Bool.eq_true_of_not_eq_false (not_or.mp hplain).2)
    rw [hended, if_neg hplain, or_iff_right hplain, or_iff_right hplain, or_iff_right hplain]
    obtain ⟨-, hall, heq⟩ | ⟨hsome, hfatal, -, hin, hout⟩ := enterRawMode_cases hraw enter
    · -- raw mode: the guard's answers decide
      have henter : backend.enterRawMode t enter = ((t.enterRawMode enter).1,
          (t.enterRawMode enter).2.map (fatalStartup · enter.lastError)) := rfl
      rw [heq] at henter
      have hguard (r : Win32Terminal) (hr : r.raw = true) : backend.restore r guard = _ :=
        restore_raw hr guard
      have hentered : ¬ (¬ enter.AllSucceed ∧ ¬ enter.Strands) := fun h => h.1 hall
      rw [henter, Option.map_none, if_pos rfl, hguard _ rfl, or_iff_right (not_not_intro hall),
        or_iff_right hentered, and_iff_right hall]
      refine ⟨iff_of_true rfl hall, ?_, ?_⟩
      · change (if guard.setIn = true then modeIn else rawInputMode modeIn) = modeIn ↔ _
        rw [ite_eq_left_iff, or_iff_not_imp_left]
      · change (if guard.setOut = true then modeOut else rawOutputMode modeOut) = modeOut ↔ _
        rw [ite_eq_left_iff, or_iff_not_imp_left]
    · -- the process ended in `fatalStartup`
      obtain ⟨what, -, hwhat⟩ := hfatal
      have hnever : ¬ enter.AllSucceed := fun hall => hsome ⟨hvalid, hall⟩
      have henter : (backend.enterRawMode t enter).2 ≠ none := by
        change (t.enterRawMode enter).2.map _ ≠ none
        rw [hwhat]
        exact Option.some_ne_none _
      rw [if_neg henter]
      refine ⟨iff_of_false henter hnever, iff_of_true hin (.inl hnever), ?_⟩
      change (t.enterRawMode enter).1.modeOut = modeOut ↔ _
      by_cases hstrands : enter.Strands
      · rw [hout, if_pos ⟨hvalid, hstrands⟩, or_iff_right (fun h => h.2 hstrands),
          or_iff_right (fun h => hnever h.1)]
      · rw [hout, if_neg fun h => hstrands h.2]
        exact iff_of_true rfl (.inl ⟨hnever, hstrands⟩)

end Win32Terminal
end Csopesy
