import Csopesy.Parameters

/-! # The frame builder

`include/csopesy/renderer.hpp` and `src/features/marquee/renderer.cpp`.  A frame
is one string for a given terminal size.  The local variables of `buildFrame`
that later text refers to are functions of their own, under their names; the
`std::vector<std::string>` the function fills row by row is `layout`.

Positions are `int` in the source and `Int` here; sizes are unbounded.
-/
namespace Csopesy

def kCursorHome : Bytes := [0x1B, 0x5B, 0x48]
def kRowSeparator : Bytes := [0x0D, 0x0A]
def kEraseToEol : Bytes := [0x1B, 0x5B, 0x4B]

def padOrClip (line : Bytes) (cols : Int) : Bytes :=
  if cols ≤ 0 then []
  else if (line.length : Int) ≥ cols then line.take cols.toNat
  else line ++ List.replicate (cols.toNat - line.length) space

/-- The loop of `splitLines`; `line` is what follows the last newline so far. -/
def splitLines.go (line : Bytes) : Bytes → List Bytes
  | [] => [line]
  | c :: rest => if c = newline then line :: splitLines.go [] rest else splitLines.go (line ++ [c]) rest

def splitLines (text : Bytes) : List Bytes := if text.isEmpty then [] else splitLines.go [] text

/-- Show the end of the input buffer, and leave the last column unused. -/
def buildPromptRow (prompt buffer : Bytes) (cols : Int) : Bytes :=
  let width := if cols > 1 then cols - 1 else 0
  let available := width - (prompt.length : Int) - 1
  let window :=
    if available > 0 ∧ buffer ≠ [] then
      if buffer.length ≤ available.toNat then buffer
      else buffer.drop (buffer.length - available.toNat)
    else []
  padOrClip (prompt ++ [space] ++ window) width

/-! ## Scrolling -/

/-- `%` of C++ truncates, hence `tmod` and the sign correction. -/
def scrollOffset (cycles textWidth bandWidth : Int) : Int :=
  let period := textWidth + bandWidth
  if period ≤ 0 then 0
  else
    let wrapped := cycles.tmod period
    if wrapped < 0 then wrapped + period else wrapped

def sliceRow (text : Bytes) (bandWidth offset : Int) : Bytes :=
  if bandWidth ≤ 0 then []
  else
    let windowLeft := offset - bandWidth
    (List.range bandWidth.toNat).map fun col : Nat =>
      let index := windowLeft + (col : Int)
      if 0 ≤ index ∧ index < (text.length : Int) then text.getD index.toNat space else space

namespace Renderer

/-- Row used for the marquee on a normal terminal. -/
def kBandRow : Int := 3

def bandWidthFor (cols : Int) : Int := if cols > 2 then cols - 2 else 1

/-! ## Local variables of `buildFrame` -/

/-- 1-based row of the band; 0 when there is none. -/
def bandRow (rows : Int) : Int :=
  if rows ≥ kBandRow + 1 then kBandRow else if rows ≥ 2 then rows - 1 else 0

def band (params : Parameters) (proc : MarqueeProcess) (cols : Int) : Bytes :=
  let bandWidth := bandWidthFor cols
  let offset := scrollOffset proc.cycles params.text.length bandWidth
  sliceRow params.text bandWidth offset

def messageBudget (rows : Int) : Int := if bandRow rows > 0 then rows - bandRow rows - 1 else 0

/-- The newest message lines, as many as the budget allows. -/
def messageLines (message : Bytes) (rows : Int) : List Bytes :=
  let lines := splitLines message
  if (lines.length : Int) > messageBudget rows then
    lines.drop ((lines.length : Int) - messageBudget rows).toNat
  else lines

/-- 1-based row of the first message line. -/
def blockTop (message : Bytes) (rows : Int) : Int := rows - ((messageLines message rows).length : Int)

/-- Blank row above the message block. -/
def separatorRow (message : Bytes) (rows : Int) : Int := blockTop message rows - 1

def hasSeparator (message : Bytes) (rows : Int) : Bool :=
  decide (bandRow rows > 0) && decide (separatorRow message rows > bandRow rows)

/-- 1-based row below the band. -/
def afterFirst (rows : Int) : Int := bandRow rows + 1

/-- 1-based last row for fixed text. -/
def afterLast (message : Bytes) (rows : Int) : Int :=
  (if hasSeparator message rows then separatorRow message rows else blockTop message rows) - 1

def capacity (message : Bytes) (rows : Int) : Int :=
  let capacity := afterLast message rows - afterFirst rows + 1
  if capacity < 0 then 0 else capacity

/-- The fixed text below the band, before rows are dropped. -/
def fixedText (params : Parameters) : List Bytes :=
  [[], ascii "Group developer:"] ++ params.developers ++
    [[], if params.versionDate.isEmpty then ascii "Version date:"
      else ascii "Version date: " ++ params.versionDate]

/-- Lower-priority rows are dropped first. -/
def chrome (params : Parameters) (message : Bytes) (rows : Int) : List Bytes :=
  (fixedText params).take (capacity message rows).toNat

/-! ## The frame -/

/-- `for i: frame[top + i] = lines[i]`, with `top` 0-based. -/
def placeRows (frame : List Bytes) (top : Int) : List Bytes → List Bytes
  | [] => frame
  | line :: lines => placeRows (frame.set top.toNat line) (top + 1) lines

/-- The rows before the fixed text is placed: the band and the welcome line. -/
def bandRows (params : Parameters) (proc : MarqueeProcess) (rows cols : Int) : List Bytes :=
  let frame : List Bytes := List.replicate rows.toNat []
  if bandRow rows > 0 then
    let frame := frame.set (bandRow rows - 1).toNat ([space] ++ band params proc cols ++ [space])
    if bandRow rows ≥ 2 then frame.set 0 (ascii "Welcome to CSOPESY!") else frame
  else frame

/-- The rows of the frame before they are padded. -/
def layout (params : Parameters) (proc : MarqueeProcess) (prompt buffer message : Bytes)
    (rows cols : Int) : List Bytes :=
  let frame := bandRows params proc rows cols
  let frame := placeRows frame (afterFirst rows - 1) (chrome params message rows)
  let frame := placeRows frame (blockTop message rows - 1) (messageLines message rows)
  frame.set (rows - 1).toNat (buildPromptRow prompt buffer cols)

/-- One pass of the output loop. -/
def emitRow (frame : List Bytes) (rows cols : Int) (row : Nat) : Bytes :=
  (if row > 0 then kRowSeparator else []) ++
    if (row : Int) = rows - 1 then
      padOrClip (frame.getD row []) (if cols > 1 then cols - 1 else 0) ++ kEraseToEol
    else frame.getD row []

/-- Build one complete frame for `rows` x `cols`. -/
def buildFrame (params : Parameters) (proc : MarqueeProcess) (prompt buffer message : Bytes)
    (rows cols : Int) : Bytes :=
  if rows ≤ 0 ∨ cols ≤ 0 then []
  else
    let frame := (layout params proc prompt buffer message rows cols).map (padOrClip · cols)
    kCursorHome ++ (List.range rows.toNat).flatMap (emitRow frame rows cols)

end Renderer
end Csopesy
