import Csopesy.Grammar
import Csopesy.Startup

/-! # The parameters of any session

Text and numbers enter through the config file, the options, command lines and
keys.  `ValidParameters start p` says what every reader of the parameters may rely
on: both intervals in range, the polling interval and the texts that no command
sets as they were at startup, and a text that is not empty, printable and without
outer spaces.  Startup establishes it, every command keeps it on arbitrary bytes,
and so it holds throughout every session (`session_valid`).
-/
namespace Csopesy
open Numeral

/-- A text the marquee can show. -/
structure MarqueeText (t : Bytes) : Prop where
  nonempty : t ≠ []
  printable : Printable t
  trimmed : Trimmed (· == space) (· == space) t

/-- Parameters in a session that began with `start`. -/
structure ValidParameters (start p : Parameters) : Prop where
  refresh : 1 ≤ p.refreshMs ∧ p.refreshMs ≤ 10000
  polling : 1 ≤ p.pollingMs ∧ p.pollingMs ≤ 1000
  text : MarqueeText p.text
  kept : p.pollingMs = start.pollingMs ∧ p.developers = start.developers ∧
    p.versionDate = start.versionDate ∧ p.noTty = start.noTty

/-! ## Startup -/

theorem Cli.intervalOf_mem (which : Interval) (entries : List Entry) :
    which.lo ≤ intervalOf which entries ∧ intervalOf which entries ≤ which.hi := by
  unfold intervalOf
  cases LastWins.last (Entry.value which) entries with
  | none => cases which <;> decide
  | some ms => exact clamp_mem which.lo_le_hi ms

theorem parseCli_valid (args : List Bytes) (configPath : Bytes) (content : Option Bytes) :
    ValidParameters (Cli.parseCli args configPath content).params
      (Cli.parseCli args configPath content).params := by
  have hrefresh := Cli.get_parseCli .refresh args configPath content
  have hpolling := Cli.get_parseCli .polling args configPath content
  obtain ⟨htext, -, -⟩ := Cli.parseCli_texts args configPath content
  constructor
  · show 1 ≤ Interval.get _ .refresh ∧ Interval.get _ .refresh ≤ 10000
    rw [hrefresh]
    exact Cli.intervalOf_mem .refresh _
  · show 1 ≤ Interval.get _ .polling ∧ Interval.get _ .polling ≤ 1000
    rw [hpolling]
    exact Cli.intervalOf_mem .polling _
  · rw [htext]
    exact ⟨by decide, by decide, by decide, by decide⟩
  · exact ⟨rfl, rfl, rfl, rfl⟩

/-! ## Commands -/

namespace Interpreter

/-- **One command.**  Only `set_text` and `set_speed` change a parameter, and the
argument has been trimmed of more than spaces. -/
theorem effect_valid {start : Parameters} {it : Interpreter} {cmd arg : Bytes}
    (h : ValidParameters start it.params) (harg : Trimmed isSpace isSpace arg) :
    ValidParameters start (it.effect cmd arg).params := by
  unfold effect
  split
  · exact h
  · split
    · exact h
    · split
      · rename_i htext
        obtain ⟨-, hne, hprintable⟩ := htext
        exact ⟨h.refresh, h.polling, ⟨hne, hprintable, harg.mono isSpace_space isSpace_space⟩,
          h.kept⟩
      · split
        · split
          · rename_i ms _
            exact ⟨clamp_mem (by decide) ms, h.polling, h.text, h.kept⟩
          · exact h
        · split <;> exact h

theorem executeLine_valid {start : Parameters} {it : Interpreter}
    (h : ValidParameters start it.params) (raw : Bytes) :
    ValidParameters start (it.executeLine raw).1.params := by
  obtain ⟨cmd, arg, hwords⟩ := words_exists raw
  have hparams := congrArg Interpreter.params (it.executeLine_effect hwords)
  dsimp only at hparams
  rw [hparams]
  exact effect_valid h hwords.trimmed

/-! ## Sessions -/

/-- What a session receives: whole lines in line mode, keys in raw mode. -/
inductive Input
  | line (raw : Bytes)
  | key (ev : KeyEvent)
deriving DecidableEq, Repr

def receive (it : Interpreter) : Input → Interpreter
  | .line raw => (it.executeLine raw).1
  | .key ev => (it.feed ev).1

def session (it : Interpreter) (inputs : List Input) : Interpreter := inputs.foldl receive it

/-- The state of a session that began with `start`. -/
structure ValidSession (start : Parameters) (it : Interpreter) : Prop where
  params : ValidParameters start it.params
  line : Printable it.line

theorem submit_valid {start : Parameters} {it : Interpreter} (h : ValidSession start it) :
    ValidSession start it.submit := by
  have hparams : ValidParameters start ({ it with line := [] } : Interpreter).params := h.params
  constructor
  · rw [submit_eq]
    exact executeLine_valid hparams _
  · rw [submit_line]
    exact .nil

theorem KeyOutcome.valid {start : Parameters} {it it' : Interpreter} (hkey : KeyOutcome it it')
    (h : ValidSession start it) : ValidSession start it' := by
  have hsubmit := submit_valid h
  cases hkey with
  | ignored => exact h
  | typed c hc => exact ⟨h.params, h.line.append (.singleton hc)⟩
  | erased => exact ⟨h.params, h.line.dropLast⟩
  | submitted => exact hsubmit
  | ended => exact ⟨hsubmit.params, hsubmit.line⟩

/-- **One input**, of arbitrary bytes. -/
theorem receive_valid {start : Parameters} {it : Interpreter} (h : ValidSession start it)
    (input : Input) : ValidSession start (it.receive input) := by
  cases input with
  | line raw =>
    refine ⟨executeLine_valid h.params raw, ?_⟩
    show Printable (it.executeLine raw).1.line
    rw [(it.executeLine_outcome raw).line_eq]
    exact h.line
  | key ev => exact (it.feed_outcome ev).valid h

theorem ValidSession.session {start : Parameters} {it : Interpreter} (h : ValidSession start it)
    (inputs : List Input) : ValidSession start (it.session inputs) := by
  induction inputs generalizing it with
  | nil => exact h
  | cons input inputs ih => exact ih (receive_valid h input)

/-- **The parameters stay valid, and the input line printable, in every session**:
for every config file, every list of options and every mix of lines and keys. -/
theorem session_valid (args : List Bytes) (configPath : Bytes) (content : Option Bytes)
    (inputs : List Input) :
    ValidSession (Cli.parseCli args configPath content).params
      (session { params := (Cli.parseCli args configPath content).params } inputs) :=
  ValidSession.session ⟨parseCli_valid args configPath content, .nil⟩ inputs

end Interpreter
end Csopesy
