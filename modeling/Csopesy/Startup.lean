import Csopesy.Numbers
import Csopesy.Reading
import Csopesy.Trimming

/-! # Startup precedence and reporting

Every config line and every option is one `Entry`: something that is skipped, the
`--no-tty` flag, a setting of one of the two intervals, or something that is only
reported.  An entry has one effect on the parameters and at most one warning
(`CliResult.add`), and both loops add the entries of their inputs
(`parseCli_entries`).  Precedence and reporting are then facts about a sequence of
entries: the last well-formed value of an interval wins, and the warnings are those
of the entries, in input order (`parseCli_spec`).
-/
namespace Csopesy
open Numeral LastWins

/-! ## The intervals -/

/-- The two numbers that can be configured. -/
inductive Interval
  | refresh
  | polling
deriving DecidableEq, Repr

namespace Interval

def lo : Interval → Int
  | refresh => Parameters.kRefreshMin
  | polling => Parameters.kPollMin

def hi : Interval → Int
  | refresh => Parameters.kRefreshMax
  | polling => Parameters.kPollMax

def setter : Interval → Setter
  | refresh => Parameters.setRefresh
  | polling => Parameters.setPolling

def get (p : Parameters) : Interval → Int
  | refresh => p.refreshMs
  | polling => p.pollingMs

def store (p : Parameters) (ms : Int) : Interval → Parameters
  | refresh => { p with refreshMs := ms }
  | polling => { p with pollingMs := ms }

theorem lo_le_hi (which : Interval) : which.lo ≤ which.hi := by
  cases which <;> decide

/-- What a setter makes of a number that a parser read. -/
theorem setter_int (which : Interval) (p : Parameters) (ms : Int) :
    (which.setter p (clamp kIntMin kIntMax ms)).1 = which.store p (clamp which.lo which.hi ms) ∧
    (which.setter p (clamp kIntMin kIntMax ms)).2.applied = clamp which.lo which.hi ms ∧
    ((which.setter p (clamp kIntMin kIntMax ms)).2.clamped = true ↔
      ¬ (which.lo ≤ ms ∧ ms ≤ which.hi)) := by
  cases which with
  | refresh =>
    obtain ⟨happlied, hclamped⟩ := Parameters.clampReport_int (ascii "refreshMs")
      (lo_le_hi refresh) (by decide) (by decide) ms
    exact ⟨congrArg (fun v => { p with refreshMs := v }) happlied, happlied, hclamped⟩
  | polling =>
    obtain ⟨happlied, hclamped⟩ := Parameters.clampReport_int (ascii "pollingMs")
      (lo_le_hi polling) (by decide) (by decide) ms
    exact ⟨congrArg (fun v => { p with pollingMs := v }) happlied, happlied, hclamped⟩

end Interval

/-! ## Entries -/

/-- What one config line or one option is.  The label of a setting is what its
warnings begin with: the key or the option, after the path of the file. -/
inductive Entry
  | blank
  | noTty
  | setting (which : Interval) (label raw : Bytes)
  | malformed (pre line : Bytes)
  | unknownKey (pre key : Bytes)
  | unknownOption (token : Bytes)
  | missingValue (token : Bytes)
deriving DecidableEq, Repr

namespace Entry

/-- The well-formed value that an entry gives to an interval. -/
def value (which : Interval) : Entry → Option Int
  | setting which' _ raw => if which' = which then decimal raw else none
  | _ => none

/-- The entry takes effect. -/
def accepted : Entry → Bool
  | noTty => true
  | setting _ _ raw => (decimal raw).isSome
  | _ => false

def params (p : Parameters) : Entry → Parameters
  | noTty => { p with noTty := true }
  | setting which _ raw =>
    match decimal raw with
    | some ms => which.store p (clamp which.lo which.hi ms)
    | none => p
  | _ => p

/-- A value that is no number or out of range is reported, and so is every line and
option that is neither skipped nor understood. -/
def warning : Entry → Option Bytes
  | blank | noTty => none
  | setting which label raw =>
    match decimal raw with
    | none => some (label ++ ascii "=" ++ raw ++ ascii ": not a number; keeping the current value.")
    | some ms =>
      if which.lo ≤ ms ∧ ms ≤ which.hi then none
      else some (label ++ ascii "=" ++ raw ++ ascii " clamped to " ++
        intToString (clamp which.lo which.hi ms) ++ ascii " ms.")
  | malformed pre line => some (pre ++ ascii "ignoring malformed line: \"" ++ line ++ ascii "\".")
  | unknownKey pre key => some (pre ++ ascii "unknown key \"" ++ key ++ ascii "\" ignored.")
  | unknownOption token => some (ascii "Unknown option ignored: \"" ++ token ++ ascii "\".")
  | missingValue token => some (token ++ ascii ": missing value; keeping the default.")

theorem params_setting (p : Parameters) (which : Interval) (label raw : Bytes) :
    (setting which label raw).params p =
      match decimal raw with
      | some ms => which.store p (clamp which.lo which.hi ms)
      | none => p := rfl

theorem warning_setting (which : Interval) (label raw : Bytes) :
    (setting which label raw).warning =
      match decimal raw with
      | none =>
        some (label ++ ascii "=" ++ raw ++ ascii ": not a number; keeping the current value.")
      | some ms =>
        if which.lo ≤ ms ∧ ms ≤ which.hi then none
        else some (label ++ ascii "=" ++ raw ++ ascii " clamped to " ++
          intToString (clamp which.lo which.hi ms) ++ ascii " ms.") := rfl

theorem value_setting (which which' : Interval) (label raw : Bytes) :
    (setting which' label raw).value which = if which' = which then decimal raw else none := rfl

theorem params_of_not_accepted {e : Entry} (h : e.accepted = false) (p : Parameters) :
    e.params p = p := by
  cases e with
  | noTty => exact absurd h (by decide)
  | setting which label raw =>
    have hnone : decimal raw = none := by simpa [accepted] using h
    rw [params_setting, hnone]
  | blank | malformed | unknownKey | unknownOption | missingValue => rfl

end Entry

/-- Add an entry to what was read before. -/
def CliResult.add (result : CliResult) (e : Entry) : CliResult :=
  { params := e.params result.params, warnings := result.warnings ++ e.warning.toList }

namespace Cli

/-- A trimmed config line is cut at its first equals sign. -/
def configEntry (pre raw : Bytes) : Entry :=
  let line := trim raw
  if line = [] ∨ line.head? = some 0x23 then .blank
  else
    match line.dropWhile (· != 0x3D) with
    | [] => .malformed pre line
    | _ :: right =>
      let key := trim (line.takeWhile (· != 0x3D))
      if key = [] then .malformed pre line
      else if key = ascii "refresh_ms" then .setting .refresh (pre ++ key) (trim right)
      else if key = ascii "polling_ms" then .setting .polling (pre ++ key) (trim right)
      else .unknownKey pre key

def argumentEntry (token : Bytes) : Entry :=
  if token = ascii "--no-tty" then .noTty
  else if ascii "--refresh-ms=" <+: token then
    .setting .refresh (ascii "--refresh-ms") (token.drop (ascii "--refresh-ms=").length)
  else if ascii "--poll-ms=" <+: token then
    .setting .polling (ascii "--poll-ms") (token.drop (ascii "--poll-ms=").length)
  else if token = ascii "--refresh-ms" ∨ token = ascii "--poll-ms" then .missingValue token
  else .unknownOption token

/-- The config lines, then the options. -/
def startupEntries (args : List Bytes) (configPath : Bytes) (content : Option Bytes) : List Entry :=
  ((content.map getLines).getD []).map (configEntry (configPath ++ ascii ": ")) ++
    args.map argumentEntry

/-! ## The loops add entries -/

theorem add_silent {result : CliResult} {e : Entry}
    (hparams : e.params result.params = result.params) (hwarning : e.warning = none) :
    result.add e = result := by
  unfold CliResult.add
  rw [hparams, hwarning, Option.toList_none, List.append_nil]

theorem warn_eq_add {result : CliResult} {e : Entry} {warning : Bytes}
    (hparams : e.params result.params = result.params) (hwarning : e.warning = some warning) :
    result.warn warning = result.add e := by
  unfold CliResult.warn CliResult.add
  rw [hparams, hwarning]
  rfl

/-- **One setting.** -/
theorem applyValueFlag_eq (result : CliResult) (which : Interval) (name raw pre : Bytes) :
    result.applyValueFlag name raw which.setter pre =
      result.add (.setting which (pre ++ name) raw) := by
  have hvalue := wellFormedInteger_eq raw
  unfold CliResult.applyValueFlag CliResult.add
  rw [Entry.params_setting, Entry.warning_setting]
  cases hparsed : wellFormedInteger raw with
  | none =>
    rw [hparsed, Option.map_none] at hvalue
    rw [Option.map_eq_none_iff.mp hvalue.symm]
    rfl
  | some x =>
    obtain ⟨negative, mag⟩ := x
    rw [hparsed, Option.map_some] at hvalue
    obtain ⟨ms, hms, hint⟩ := Option.map_eq_some_iff.mp hvalue.symm
    obtain ⟨hstore, happlied, hclamped⟩ := which.setter_int result.params ms
    rw [hms]
    dsimp only at hint ⊢
    rw [← hint]
    by_cases hrange : which.lo ≤ ms ∧ ms ≤ which.hi
    · rw [if_neg (fun h => hclamped.mp h hrange), if_pos hrange, hstore]
      simp
    · rw [if_pos (hclamped.mpr hrange), if_neg hrange, hstore, happlied]
      rfl

theorem configLine_eq (pre : Bytes) (result : CliResult) (raw : Bytes) :
    configLine pre result raw = result.add (configEntry pre raw) := by
  have hcut : (fun c : UInt8 => c != 0x3D) = fun c => !(c == 0x3D) := rfl
  unfold configLine configEntry
  dsimp only
  rw [hcut]
  generalize trim raw = line
  by_cases hskip : line = [] ∨ line.head? = some 0x23
  · rw [if_pos hskip, if_pos (by simpa using hskip)]
    exact (add_silent rfl rfl).symm
  · rw [if_neg hskip, if_neg (by simpa using hskip)]
    rcases findIdx?_cases (· == 0x3D) line with ⟨hnone, hdrop⟩ | ⟨eq, c, hsome, htake, -, hdrop⟩
    · -- no equals sign
      rw [hnone, hdrop]
      exact warn_eq_add rfl rfl
    · rw [hsome, hdrop, ← htake]
      dsimp only
      generalize trim (line.take eq) = key
      by_cases hkey : key = []
      · rw [if_pos hkey, if_pos (by simpa using hkey)]
        exact warn_eq_add rfl rfl
      · rw [if_neg hkey, if_neg (by simpa using hkey)]
        by_cases hrefresh : key = ascii "refresh_ms"
        · rw [if_pos hrefresh, if_pos hrefresh]
          exact applyValueFlag_eq result .refresh _ _ _
        · rw [if_neg hrefresh, if_neg hrefresh]
          by_cases hpolling : key = ascii "polling_ms"
          · rw [if_pos hpolling, if_pos hpolling]
            exact applyValueFlag_eq result .polling _ _ _
          · rw [if_neg hpolling, if_neg hpolling]
            exact warn_eq_add rfl rfl

theorem applyArgument_eq (result : CliResult) (token : Bytes) :
    applyArgument result token = result.add (argumentEntry token) := by
  unfold applyArgument argumentEntry
  by_cases htty : token = ascii "--no-tty"
  · rw [if_pos htty, if_pos htty]
    exact congrArg _ (List.append_nil _).symm
  · rw [if_neg htty, if_neg htty]
    by_cases hrefresh : ascii "--refresh-ms=" <+: token
    · rw [if_pos hrefresh, if_pos (List.isPrefixOf_iff_prefix.mpr hrefresh)]
      exact applyValueFlag_eq result .refresh _ _ []
    · rw [if_neg hrefresh, if_neg (fun h => hrefresh (List.isPrefixOf_iff_prefix.mp h))]
      by_cases hpoll : ascii "--poll-ms=" <+: token
      · rw [if_pos hpoll, if_pos (List.isPrefixOf_iff_prefix.mpr hpoll)]
        exact applyValueFlag_eq result .polling _ _ []
      · rw [if_neg hpoll, if_neg (fun h => hpoll (List.isPrefixOf_iff_prefix.mp h))]
        by_cases hmissing : token = ascii "--refresh-ms" ∨ token = ascii "--poll-ms"
        · rw [if_pos hmissing, if_pos hmissing]
          exact warn_eq_add rfl rfl
        · rw [if_neg hmissing, if_neg hmissing]
          exact warn_eq_add rfl rfl

/-- The config file adds the entries of its lines. -/
theorem loadConfigFile_entries (path : Bytes) (content : Option Bytes) :
    loadConfigFile path content =
      (((content.map getLines).getD []).map (configEntry (path ++ ascii ": "))).foldl
        CliResult.add {} := by
  unfold loadConfigFile
  cases content with
  | none => rfl
  | some text =>
    have hline : configLine (path ++ ascii ": ") = fun result raw =>
        result.add (configEntry (path ++ ascii ": ") raw) := by
      funext result raw
      exact configLine_eq _ result raw
    rw [Option.map_some, Option.getD_some, List.foldl_map, ← hline]

/-- **Startup adds the entries of its inputs.** -/
theorem parseCli_entries (args : List Bytes) (configPath : Bytes) (content : Option Bytes) :
    parseCli args configPath content =
      (startupEntries args configPath content).foldl CliResult.add {} := by
  unfold parseCli startupEntries
  rw [List.foldl_append, ← loadConfigFile_entries, List.foldl_map]
  congr 1
  funext result token
  exact applyArgument_eq result token

/-! ## Precedence -/

/-- The effect of one entry on an interval. -/
theorem get_add (which : Interval) (result : CliResult) (e : Entry) :
    which.get (result.add e).params =
      ((e.value which).map (clamp which.lo which.hi)).getD (which.get result.params) := by
  cases e with
  | setting which' label raw =>
    unfold CliResult.add
    rw [Entry.params_setting, Entry.value_setting]
    by_cases hw : which' = which
    · subst hw
      rw [if_pos rfl]
      cases decimal raw with
      | none => rfl
      | some ms => cases which' <;> rfl
    · rw [if_neg hw]
      cases decimal raw with
      | none => rfl
      | some ms => cases which <;> cases which' <;> first | rfl | exact absurd rfl hw
  | noTty => cases which <;> rfl
  | blank | malformed | unknownKey | unknownOption | missingValue => rfl

theorem noTty_add (result : CliResult) (e : Entry) :
    (result.add e).params.noTty = (result.params.noTty || decide (e = .noTty)) := by
  cases e with
  | noTty => exact (Bool.or_true _).symm
  | setting which label raw =>
    have hkept : ((Entry.setting which label raw).params result.params).noTty =
        result.params.noTty := by
      rw [Entry.params_setting]
      cases decimal raw with
      | none => rfl
      | some ms => cases which <;> rfl
    simp [CliResult.add, hkept]
  | blank | malformed | unknownKey | unknownOption | missingValue =>
    simp [CliResult.add, Entry.params]

theorem configEntry_ne_noTty (pre raw : Bytes) : configEntry pre raw ≠ .noTty := by
  unfold configEntry
  dsimp only
  split
  · simp
  · split
    · simp
    · split
      · simp
      · split
        · simp
        · split <;> simp

theorem argumentEntry_eq_noTty_iff (token : Bytes) :
    argumentEntry token = .noTty ↔ token = ascii "--no-tty" := by
  unfold argumentEntry
  constructor
  · intro h
    by_contra htty
    rw [if_neg htty] at h
    split at h
    · cases h
    · split at h
      · cases h
      · split at h <;> cases h
  · intro h
    rw [if_pos h]

/-- The last well-formed value of an interval, clamped, or its default. -/
def intervalOf (which : Interval) (entries : List Entry) : Int :=
  ((last (Entry.value which) entries).map (clamp which.lo which.hi)).getD
    (which.get Parameters.defaults)

theorem get_parseCli (which : Interval) (args : List Bytes) (configPath : Bytes)
    (content : Option Bytes) :
    which.get (parseCli args configPath content).params =
      intervalOf which (startupEntries args configPath content) := by
  rw [parseCli_entries, foldl_last (fun r : CliResult => which.get r.params) _ (get_add which),
    last_map]
  rfl

theorem noTty_parseCli (args : List Bytes) (configPath : Bytes) (content : Option Bytes) :
    (parseCli args configPath content).params.noTty = true ↔ ascii "--no-tty" ∈ args := by
  have hstart : ({} : CliResult).params.noTty = false := rfl
  rw [parseCli_entries, foldl_flag (fun r : CliResult => r.params.noTty) _ noTty_add, hstart,
    Bool.false_or, List.any_eq_true]
  unfold startupEntries
  constructor
  · rintro ⟨e, he, htty⟩
    rcases List.mem_append.mp he with hconfig | hargument
    · obtain ⟨raw, -, rfl⟩ := List.mem_map.mp hconfig
      exact absurd (of_decide_eq_true htty) (configEntry_ne_noTty _ raw)
    · obtain ⟨token, htoken, rfl⟩ := List.mem_map.mp hargument
      rwa [← (argumentEntry_eq_noTty_iff token).mp (of_decide_eq_true htty)]
  · intro hmem
    exact ⟨_, List.mem_append_right _ (List.mem_map_of_mem hmem), by decide⟩

theorem warnings_parseCli (args : List Bytes) (configPath : Bytes) (content : Option Bytes) :
    (parseCli args configPath content).warnings =
      (startupEntries args configPath content).filterMap Entry.warning := by
  rw [parseCli_entries, foldl_log CliResult.warnings Entry.warning fun _ _ => rfl]
  rfl

/-- **Startup precedence and reporting.**  Each interval is the last well-formed value
that a config line or an option after it gives, clamped, or its default; `--no-tty`
counts wherever it stands; the texts are the built-in ones; there is one warning, in
input order, for each entry that is reported and none for any other; and an entry
that is not accepted never changes a parameter, whatever was read before. -/
theorem parseCli_spec (args : List Bytes) (configPath : Bytes) (content : Option Bytes) :
    ((parseCli args configPath content).params.refreshMs =
      ((last (Entry.value .refresh) (startupEntries args configPath content)).map
        (clamp 1 10000)).getD 100 ∧
    (parseCli args configPath content).params.pollingMs =
      ((last (Entry.value .polling) (startupEntries args configPath content)).map
        (clamp 1 1000)).getD 10 ∧
    ((parseCli args configPath content).params.noTty = true ↔ ascii "--no-tty" ∈ args) ∧
    SameTexts (parseCli args configPath content).params Parameters.defaults) ∧
    (parseCli args configPath content).warnings =
      (startupEntries args configPath content).filterMap Entry.warning ∧
    (∀ pre result raw, (configEntry pre raw).accepted = false →
      (configLine pre result raw).params = result.params) ∧
    (∀ result token, (argumentEntry token).accepted = false →
      (applyArgument result token).params = result.params) := by
  refine ⟨⟨get_parseCli .refresh args configPath content, get_parseCli .polling args configPath content,
    noTty_parseCli args configPath content, parseCli_texts args configPath content⟩,
    warnings_parseCli args configPath content, ?_, ?_⟩
  · intro pre result raw h
    rw [configLine_eq]
    exact Entry.params_of_not_accepted h _
  · intro result token h
    rw [applyArgument_eq]
    exact Entry.params_of_not_accepted h _

end Cli
end Csopesy
