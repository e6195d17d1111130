import Csopesy.Grammar
import Csopesy.Startup

/-! # Three ways to set the refresh interval

The option `--refresh-ms=s`, the config line `refresh_ms=s` and the command line
`set_speed s` cut and trim their argument in three different ways, and two parsers
read it.  For a string without whitespace all three hand over exactly `s`, accept
it exactly when it is a signed decimal integer, and then store its exact value
clamped to [1, 10000] (`refresh_settings_agree`).
-/
namespace Csopesy
open Numeral

/-- The interval after a request: the exact value clamped, or the old one. -/
def refreshAfter (s : Bytes) (current : Int) : Int :=
  ((decimal s).map (clamp 1 10000)).getD current

section
variable {s : Bytes}

theorem isBlank_false {c : UInt8} (h : isSpace c = false) :
    Cli.isBlank c = false ∧ (Cli.isBlank c || c == 0x0D) = false := by
  simp only [isSpace, Bool.or_eq_false_iff] at h
  obtain ⟨⟨⟨⟨⟨hspace, htab⟩, -⟩, hcr⟩, -⟩, -⟩ := h
  simp [Cli.isBlank, hspace, htab, hcr]

/-! ## What reaches the parsers -/

theorem argumentEntry_refresh (s : Bytes) :
    Cli.argumentEntry (ascii "--refresh-ms=" ++ s) =
      .setting .refresh (ascii "--refresh-ms") s := by
  have htty : ascii "--refresh-ms=" ++ s ≠ ascii "--no-tty" := by
    intro h
    -- the third bytes differ
    have hbyte := congrArg (fun t : Bytes => t[2]?) h
    exact absurd (show some (0x72 : UInt8) = some 0x6E from hbyte) (by decide)
  unfold Cli.argumentEntry
  rw [if_neg htty, if_pos (List.prefix_append _ s), List.drop_left]

theorem configEntry_refresh (hs : ∀ c ∈ s, isSpace c = false) (pre : Bytes) :
    Cli.configEntry pre (ascii "refresh_ms=" ++ s) =
      .setting .refresh (pre ++ ascii "refresh_ms") s := by
  have hs' : Trimmed Cli.isBlank (fun c => Cli.isBlank c || c == 0x0D) s :=
    trimmed_of_forall (fun c hc => (isBlank_false (hs c hc)).1)
      fun c hc => (isBlank_false (hs c hc)).2
  have hvalue : Cli.trim s = s := hs'.trims.trimWith_eq
  have hkey : Cli.trim (ascii "refresh_ms") = ascii "refresh_ms" := by decide
  have hline : Cli.trim (ascii "refresh_ms=" ++ s) = ascii "refresh_ms=" ++ s :=
    (Trimmed.append ⟨by decide, by decide⟩ hs').trims.trimWith_eq
  have hcut : ascii "refresh_ms=" ++ s = ascii "refresh_ms" ++ 0x3D :: s := rfl
  have hname : ∀ c ∈ ascii "refresh_ms", (c != 0x3D) = true := by decide
  have htake : (ascii "refresh_ms" ++ 0x3D :: s).takeWhile (· != 0x3D) = ascii "refresh_ms" := by
    rw [List.takeWhile_append_of_pos hname, List.takeWhile_cons_of_neg (by decide), List.append_nil]
  have hdrop : (ascii "refresh_ms" ++ 0x3D :: s).dropWhile (· != 0x3D) = 0x3D :: s := by
    rw [List.dropWhile_append_of_pos hname, List.dropWhile_cons_of_neg (by decide)]
  unfold Cli.configEntry
  dsimp only
  rw [hline, hcut, htake, hdrop, hkey, if_neg (by simp +decide)]
  dsimp only
  rw [if_neg (by decide), if_pos rfl, hvalue]

/-- The argument of the command is the string, empty or not. -/
theorem words_setSpeed (hs : ∀ c ∈ s, isSpace c = false) :
    Words (ascii "set_speed " ++ s) (ascii "set_speed") s := by
  have hname : ∀ c ∈ ascii "set_speed", isSpace c = false := by decide
  have harg : Trimmed isSpace isSpace s := trimmed_of_forall hs hs
  by_cases hne : s = []
  · subst hne
    exact words_iff.mpr (by decide)
  · have hline : Trimmed isSpace isSpace (ascii "set_speed" ++ ([space] ++ s)) :=
      (trimmed_of_forall hname hname).around (by decide) harg hne [space]
    refine ⟨[space] ++ s, hline.trims, hname, ?_, [space], [], by simp, by decide, by simp, harg⟩
    rintro c ⟨⟩
    decide

/-! ## What the setters make of it -/

theorem params_add_refresh (result : CliResult) (label s : Bytes) :
    (result.add (.setting .refresh label s)).params =
      { result.params with refreshMs := refreshAfter s result.params.refreshMs } := by
  unfold CliResult.add refreshAfter
  rw [Entry.params_setting]
  cases decimal s <;> rfl

/-- The warning tells whether the value was accepted. -/
theorem warnings_add_iff (result : CliResult) (which : Interval) (label s : Bytes) :
    (result.add (.setting which label s)).warnings = result.warnings ++
        [label ++ ascii "=" ++ s ++ ascii ": not a number; keeping the current value."] ↔
      decimal s = none := by
  unfold CliResult.add
  rw [List.append_cancel_left_eq, Entry.warning_setting]
  cases decimal s with
  | none => exact iff_of_true rfl rfl
  | some ms =>
    refine iff_of_false ?_ (by simp)
    dsimp only
    split
    · simp
    · intro h
      have hrest := (List.cons.inj h).1
      rw [List.append_assoc, List.append_assoc, List.append_cancel_left_eq] at hrest
      exact absurd (congrArg List.head? hrest)
        (show ¬ (some (0x20 : UInt8) = some 0x3A) by decide)

theorem params_setSpeed (hs : ∀ c ∈ s, isSpace c = false) (it : Interpreter) :
    (it.executeLine (ascii "set_speed " ++ s)).1.params =
      { it.params with refreshMs := refreshAfter s it.params.refreshMs } := by
  have heffect := it.executeLine_effect (words_setSpeed hs)
  rw [Interpreter.effect_setSpeed] at heffect
  have hparams := congrArg Interpreter.params heffect
  dsimp only at hparams
  rw [hparams]
  unfold refreshAfter
  cases decimal s <;> rfl

/-- The response tells whether the value was accepted. -/
theorem response_setSpeed_iff (hs : ∀ c ∈ s, isSpace c = false) (it : Interpreter) :
    (it.executeLine (ascii "set_speed " ++ s)).2 = ascii "Usage: set_speed <milliseconds>" ↔
      decimal s = none := by
  have hlookup : lookup (ascii "set_speed") = .setSpeed := by decide
  rw [it.executeLine_eq (words_setSpeed hs), if_neg (by decide),
    if_neg (fun h => absurd h.1 (by decide))]
  unfold Interpreter.runCommand
  rw [hlookup, parseFullInteger_eq]
  dsimp only [Interpreter.respond]
  cases hvalue : decimal s with
  | none =>
    refine iff_of_true ?_ rfl
    split <;> rfl
  | some ms =>
    refine iff_of_false ?_ (by simp)
    have hne : s ≠ [] := by
      rintro rfl
      exact Option.some_ne_none ms hvalue.symm
    rw [if_neg (by simpa using hne), Option.map_some]
    dsimp only
    intro h
    have hhead := congrArg List.head? h
    split at hhead
    · exact absurd (show some (0x53 : UInt8) = some 0x55 from hhead) (by decide)
    · exact absurd (show some (0x4D : UInt8) = some 0x55 from hhead) (by decide)

/-! ## The three ways agree -/

/-- **The three ways to set the refresh interval agree and are exact.**  Both parsers
accept the signed decimal integers and return the exact value clamped to `int`; the
option, the config line and the command store the exact value clamped to
[1, 10000], and they reject, each with its own message and without a change, exactly
the strings that are no signed decimal integer. -/
theorem refresh_settings_agree (hs : ∀ c ∈ s, isSpace c = false) :
    ((∀ v, decimal s = some v ↔ IsDecimal s v) ∧
      parseFullInteger s = (decimal s).map (clamp kIntMin kIntMax) ∧
      ((Cli.wellFormedInteger s).map fun x => Cli.saturateToInt x.2 x.1) =
        (decimal s).map (clamp kIntMin kIntMax)) ∧
    (∀ result : CliResult,
      (Cli.applyArgument result (ascii "--refresh-ms=" ++ s)).params =
          { result.params with refreshMs := refreshAfter s result.params.refreshMs } ∧
      ((Cli.applyArgument result (ascii "--refresh-ms=" ++ s)).warnings = result.warnings ++
          [ascii "--refresh-ms=" ++ s ++ ascii ": not a number; keeping the current value."] ↔
        decimal s = none)) ∧
    (∀ (pre : Bytes) (result : CliResult),
      (Cli.configLine pre result (ascii "refresh_ms=" ++ s)).params =
          { result.params with refreshMs := refreshAfter s result.params.refreshMs } ∧
      ((Cli.configLine pre result (ascii "refresh_ms=" ++ s)).warnings = result.warnings ++
          [pre ++ ascii "refresh_ms=" ++ s ++
            ascii ": not a number; keeping the current value."] ↔ decimal s = none)) ∧
    ∀ it : Interpreter,
      (it.executeLine (ascii "set_speed " ++ s)).1.params =
          { it.params with refreshMs := refreshAfter s it.params.refreshMs } ∧
      ((it.executeLine (ascii "set_speed " ++ s)).2 = ascii "Usage: set_speed <milliseconds>" ↔
        decimal s = none) := by
  refine ⟨⟨fun v => decimal_eq_some_iff, parseFullInteger_eq s, wellFormedInteger_eq s⟩, ?_, ?_, ?_⟩
  · intro result
    rw [Cli.applyArgument_eq, argumentEntry_refresh]
    exact ⟨params_add_refresh result _ s, warnings_add_iff result _ (ascii "--refresh-ms") s⟩
  · intro pre result
    have hlabel : pre ++ ascii "refresh_ms=" = pre ++ ascii "refresh_ms" ++ ascii "=" := by
      rw [List.append_assoc]
      rfl
    rw [Cli.configLine_eq, configEntry_refresh hs, hlabel]
    exact ⟨params_add_refresh result _ s, warnings_add_iff result _ _ s⟩
  · exact fun it => ⟨params_setSpeed hs it, response_setSpeed_iff hs it⟩

/-- A number beyond 64 bits, whose low bits would be in range. -/
theorem refresh_settings_agree_large :
    (Cli.applyArgument {} (ascii "--refresh-ms=" ++ ascii "18446744073709551621")).params.refreshMs =
      10000 := by
  have h := (refresh_settings_agree (s := ascii "18446744073709551621") (by decide)).2.1 {}
  rw [h.1]
  decide

end
end Csopesy
