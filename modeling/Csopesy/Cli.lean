import Csopesy.Parameters

/-! # Command-line options and config.txt

`include/csopesy/cli.hpp` and `src/entities/cli.cpp`.  The file system is a
parameter: `loadConfigFile` takes the content of the file at its path, or `none`
when it cannot be opened.  Config lines and options go through one parsing path,
`applyValueFlag`, whose member-function pointer is a `Setter`.
-/
namespace Csopesy

structure CliResult where
  params : Parameters := {}
  warnings : List Bytes := []
deriving DecidableEq, Repr

/-- `ClampReport (Parameters::*set)(int)`. -/
abbrev Setter := Parameters → Int → Parameters × ClampReport

namespace Cli

/-! ## Numbers -/

/-- The digit loop of `wellFormedInteger`: `mag` saturates at 10^18. -/
def wellFormedInteger.digits (mag : UInt64) : Bytes → Option UInt64
  | [] => some mag
  | c :: rest =>
    if c < 0x30 || c > 0x39 then none
    else
      let digit : UInt64 := (c - 0x30).toUInt64
      if mag > (1000000000000000000 - digit) / 10 then
        wellFormedInteger.digits 1000000000000000000 rest
      else wellFormedInteger.digits (mag * 10 + digit) rest

/-- The sign and the magnitude of a complete signed integer. -/
def wellFormedInteger (s : Bytes) : Option (Bool × UInt64) :=
  let negative := s.head? == some 0x2D
  let signed := s.head? == some 0x2B || negative
  let body := if signed then s.drop 1 else s
  if body.isEmpty then none
  else (wellFormedInteger.digits 0 body).map fun mag => (negative, mag)

def saturateToInt (mag : UInt64) (negative : Bool) : Int :=
  if negative then if mag ≥ 2147483648 then -2147483647 - 1 else -(mag.toNat : Int)
  else if mag > 2147483647 then 2147483647 else (mag.toNat : Int)

end Cli

namespace CliResult
open Cli

def warn (result : CliResult) (warning : Bytes) : CliResult :=
  { result with warnings := result.warnings ++ [warning] }

def applyValueFlag (result : CliResult) (name raw : Bytes) (set : Setter) (pre : Bytes := []) :
    CliResult :=
  match wellFormedInteger raw with
  | none =>
    result.warn (pre ++ name ++ ascii "=" ++ raw ++ ascii ": not a number; keeping the current value.")
  | some (negative, mag) =>
    let (params, report) := set result.params (saturateToInt mag negative)
    if report.clamped then
      { result with params := params }.warn
        (pre ++ name ++ ascii "=" ++ raw ++ ascii " clamped to " ++ intToString report.applied ++
          ascii " ms.")
    else { result with params := params }

end CliResult

namespace Cli
open CliResult

def isBlank (c : UInt8) : Bool := c == 0x20 || c == 0x09

/-- Remove spaces and tabs, and a carriage return at the end only. -/
def trim (s : Bytes) : Bytes := trimWith isBlank (fun c => isBlank c || c == 0x0D) s

/-- One pass of the loop of `loadConfigFile`; `pre` is the path and `": "`. -/
def configLine (pre : Bytes) (result : CliResult) (raw : Bytes) : CliResult :=
  let line := trim raw
  if line.isEmpty || line.head? == some 0x23 then result
  else
    match line.findIdx? (· == 0x3D) with
    | none => result.warn (pre ++ ascii "ignoring malformed line: \"" ++ line ++ ascii "\".")
    | some eq =>
      let key := trim (line.take eq)
      let value := trim (line.drop (eq + 1))
      if key.isEmpty then
        result.warn (pre ++ ascii "ignoring malformed line: \"" ++ line ++ ascii "\".")
      else if key = ascii "refresh_ms" then
        result.applyValueFlag key value Parameters.setRefresh pre
      else if key = ascii "polling_ms" then
        result.applyValueFlag key value Parameters.setPolling pre
      else result.warn (pre ++ ascii "unknown key \"" ++ key ++ ascii "\" ignored.")

def loadConfigFile (path : Bytes) (content : Option Bytes) : CliResult :=
  match content with
  | none => {}
  | some text => (getLines text).foldl (configLine (path ++ ascii ": ")) {}

/-- One pass of the loop of `parseCli`. -/
def applyArgument (result : CliResult) (token : Bytes) : CliResult :=
  if token = ascii "--no-tty" then { result with params := { result.params with noTty := true } }
  else if (ascii "--refresh-ms=").isPrefixOf token then
    result.applyValueFlag (ascii "--refresh-ms") (token.drop 13) Parameters.setRefresh
  else if (ascii "--poll-ms=").isPrefixOf token then
    result.applyValueFlag (ascii "--poll-ms") (token.drop 10) Parameters.setPolling
  else if token = ascii "--refresh-ms" ∨ token = ascii "--poll-ms" then
    result.warn (token ++ ascii ": missing value; keeping the default.")
  else result.warn (ascii "Unknown option ignored: \"" ++ token ++ ascii "\".")

def parseCli (args : List Bytes) (configPath : Bytes) (content : Option Bytes) : CliResult :=
  args.foldl applyArgument (loadConfigFile configPath content)

/-! ## What startup leaves alone -/

/-- The parameters that no config line and no option can set. -/
def SameTexts (p q : Parameters) : Prop :=
  p.text = q.text ∧ p.developers = q.developers ∧ p.versionDate = q.versionDate

theorem SameTexts.refl (p : Parameters) : SameTexts p p := ⟨rfl, rfl, rfl⟩

theorem SameTexts.trans {p q r : Parameters} (h : SameTexts p q) (h' : SameTexts q r) :
    SameTexts p r := by
  obtain ⟨htext, hdevelopers, hdate⟩ := h
  obtain ⟨htext', hdevelopers', hdate'⟩ := h'
  exact ⟨htext.trans htext', hdevelopers.trans hdevelopers', hdate.trans hdate'⟩

theorem applyValueFlag_texts (result : CliResult) (name raw pre : Bytes) {set : Setter}
    (hset : ∀ p ms, SameTexts (set p ms).1 p) :
    SameTexts (result.applyValueFlag name raw set pre).params result.params := by
  unfold CliResult.applyValueFlag
  split
  · exact .refl _
  · dsimp only
    split <;> exact hset _ _

theorem setRefresh_texts (p : Parameters) (ms : Int) : SameTexts (p.setRefresh ms).1 p :=
  ⟨rfl, rfl, rfl⟩

theorem setPolling_texts (p : Parameters) (ms : Int) : SameTexts (p.setPolling ms).1 p :=
  ⟨rfl, rfl, rfl⟩

theorem configLine_texts (pre : Bytes) (result : CliResult) (raw : Bytes) :
    SameTexts (configLine pre result raw).params result.params := by
  unfold configLine
  dsimp only
  split
  · exact .refl _
  · split
    · exact .refl _
    · split
      · exact .refl _
      · split
        · exact applyValueFlag_texts _ _ _ _ setRefresh_texts
        · split
          · exact applyValueFlag_texts _ _ _ _ setPolling_texts
          · exact .refl _

theorem applyArgument_texts (result : CliResult) (token : Bytes) :
    SameTexts (applyArgument result token).params result.params := by
  unfold applyArgument
  split
  · exact .refl _
  · split
    · exact applyValueFlag_texts _ _ _ _ setRefresh_texts
    · split
      · exact applyValueFlag_texts _ _ _ _ setPolling_texts
      · split <;> exact .refl _

theorem foldl_texts {α : Type} {f : CliResult → α → CliResult}
    (hf : ∀ r a, SameTexts (f r a).params r.params) (xs : List α) (r : CliResult) :
    SameTexts (xs.foldl f r).params r.params := by
  induction xs generalizing r with
  | nil => exact .refl _
  | cons x xs ih => exact (ih (f r x)).trans (hf r x)

/-- Startup keeps the built-in text, developers and version date. -/
theorem parseCli_texts (args : List Bytes) (configPath : Bytes) (content : Option Bytes) :
    SameTexts (parseCli args configPath content).params Parameters.defaults := by
  have hargs := foldl_texts applyArgument_texts args (loadConfigFile configPath content)
  have hload : SameTexts (loadConfigFile configPath content).params Parameters.defaults := by
    unfold loadConfigFile
    split
    · exact .refl _
    · exact foldl_texts (configLine_texts _) _ _
  exact hargs.trans hload

end Cli
end Csopesy
