import Csopesy.Bytes

/-! # Runtime parameters and the marquee process

`include/csopesy/parameters.hpp`, `src/entities/parameters.cpp`,
`include/csopesy/process.hpp` and `src/entities/process.cpp`.  The setters
mutate the record and return a report, so each is a function to the new record
and the report.  `pid` and `name` of the process are read by no function and
are left out.
-/
namespace Csopesy

/-! ## Parameters -/

structure ClampReport where
  clamped : Bool := false
  requested : Int := 0
  applied : Int := 0
  field : Bytes := []
deriving DecidableEq, Repr

inductive TextResult
  | ok
  | empty
  | nonAscii
deriving DecidableEq, Repr

structure Parameters where
  text : Bytes := ascii "CSOPESY"
  refreshMs : Int := 100
  pollingMs : Int := 10
  developers : List Bytes := [ascii "Ang, Byron Scott", ascii "Laborada, Nathan",
    ascii "Sotingco, Kimbery Wynelle", ascii "Tee, John Lorens"]
  versionDate : Bytes := ascii "2026-09-27"
  noTty : Bool := false
deriving DecidableEq, Repr

namespace Parameters

def kRefreshMin : Int := 1
def kRefreshMax : Int := 10000
def kPollMin : Int := 1
def kPollMax : Int := 1000

/-- The body the two interval setters share: clamp `ms` to `[lo, hi]` and report
what was requested and what was applied. -/
def clampReport (field : Bytes) (lo hi ms : Int) : ClampReport :=
  let applied := if ms < lo then lo else if ms > hi then hi else ms
  { field := field, requested := ms, applied := applied, clamped := decide (applied ≠ ms) }

def setRefresh (p : Parameters) (ms : Int) : Parameters × ClampReport :=
  let r := clampReport (ascii "refreshMs") kRefreshMin kRefreshMax ms
  ({ p with refreshMs := r.applied }, r)

def setPolling (p : Parameters) (ms : Int) : Parameters × ClampReport :=
  let r := clampReport (ascii "pollingMs") kPollMin kPollMax ms
  ({ p with pollingMs := r.applied }, r)

/-- Trim outer spaces; reject an empty or non-printable rest without a change. -/
def setText (p : Parameters) (t : Bytes) : Parameters × TextResult :=
  let trimmed := trimWith (· == space) (· == space) t
  if trimmed.isEmpty then (p, .empty)
  else if trimmed.all isPrintableAscii then ({ p with text := trimmed }, .ok)
  else (p, .nonAscii)

def defaults : Parameters := {}

/-! ### What the setters can do -/

theorem clampReport_applied_mem (field : Bytes) {lo hi : Int} (h : lo ≤ hi) (ms : Int) :
    lo ≤ (clampReport field lo hi ms).applied ∧ (clampReport field lo hi ms).applied ≤ hi := by
  unfold clampReport
  dsimp only
  split
  · exact ⟨Int.le_refl lo, h⟩
  · split <;> omega

/-- `setText` either leaves the parameters alone or sets a non-empty printable
text without outer spaces. -/
theorem setText_cases (p : Parameters) (t : Bytes) :
    (p.setText t).1 = p ∧ (p.setText t).2 ≠ .ok ∨
      (∃ trimmed, trimmed = trimWith (· == space) (· == space) t ∧ trimmed ≠ [] ∧
        Printable trimmed ∧ p.setText t = ({ p with text := trimmed }, .ok)) := by
  unfold setText
  dsimp only
  split
  · exact .inl ⟨rfl, by simp⟩
  · rename_i hne
    split
    · rename_i hall
      exact .inr ⟨_, rfl, by simpa using hne, by simpa [Printable] using hall, rfl⟩
    · exact .inl ⟨rfl, by simp⟩

end Parameters

/-! ## The marquee process -/

inductive ProcessState
  | stopped
  | running
deriving DecidableEq, Repr

structure MarqueeProcess where
  state : ProcessState := .stopped
  cycles : Int := 0
  lastRenderMs : Int := 0
  hasRendered : Bool := false
deriving DecidableEq, Repr

namespace MarqueeProcess

/-- `false` when it is already running. -/
def start (p : MarqueeProcess) : MarqueeProcess × Bool :=
  if p.state = .running then (p, false)
  else ({ p with state := .running, hasRendered := false }, true)

/-- `false` when it is already stopped. -/
def stop (p : MarqueeProcess) : MarqueeProcess × Bool :=
  if p.state = .stopped then (p, false) else ({ p with state := .stopped }, true)

theorem start_running {p : MarqueeProcess} (h : p.state = .running) : p.start = (p, false) := by
  simp [start, h]

theorem start_stopped {p : MarqueeProcess} (h : p.state = .stopped) :
    p.start = ({ p with state := .running, hasRendered := false }, true) := by
  simp [start, h]

end MarqueeProcess
end Csopesy
