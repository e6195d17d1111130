import Csopesy.Bytes

/-! # Terminal sizes

`Terminal::size` of `include/csopesy/terminal.hpp` and its two backends in
`src/platform/`.  The platform calls are parameters: what `ioctl` stored, or the
window `GetConsoleScreenBufferInfo` reported.  Both backends fall back to the
default size when the platform reports nothing usable, so every size the
application sees has at least one row and one column (`PosixTerminal.size_visible`,
`Win32Terminal.size_visible`).
-/
namespace Csopesy

structure Size where
  rows : Int := 24
  cols : Int := 80
deriving DecidableEq, Repr

/-- At least one row and one column. -/
def Size.Visible (sz : Size) : Prop := 1 ≤ sz.rows ∧ 1 ≤ sz.cols

instance (sz : Size) : Decidable sz.Visible := by unfold Size.Visible; infer_instance

/-- `struct winsize`: two `unsigned short` fields. -/
structure WinSize where
  ws_row : UInt16
  ws_col : UInt16

/-- `PosixTerminal::size`: what `ioctl(TIOCGWINSZ)` stored for standard output,
else for standard input; `none` is a failing call. -/
def PosixTerminal.size (out inp : Option WinSize) : Size :=
  match out.orElse fun _ => inp with
  | none => {}
  | some ws =>
    if ws.ws_row = 0 ∨ ws.ws_col = 0 then {}
    else { rows := (ws.ws_row.toNat : Int), cols := (ws.ws_col.toNat : Int) }

/-- `srWindow` of `CONSOLE_SCREEN_BUFFER_INFO`. -/
structure SmallRect where
  left : Int
  top : Int
  right : Int
  bottom : Int

/-- `Win32Terminal::size`; `none` is an invalid handle or a failing call. -/
def Win32Terminal.size (srWindow : Option SmallRect) : Size :=
  match srWindow with
  | none => {}
  | some w =>
    let cols := w.right - w.left + 1
    let rows := w.bottom - w.top + 1
    if cols ≤ 0 ∨ rows ≤ 0 then {} else { rows := rows, cols := cols }

theorem Size.default_visible : ({} : Size).Visible := by decide

/-- What `Terminal::size` returns in either backend. -/
abbrev VisibleSize := { sz : Size // sz.Visible }

theorem PosixTerminal.size_visible (out inp : Option WinSize) :
    (PosixTerminal.size out inp).Visible := by
  unfold PosixTerminal.size
  split
  · exact Size.default_visible
  · rename_i ws _
    split
    · exact Size.default_visible
    · rename_i hne
      have pos : ∀ x : UInt16, x ≠ 0 → 1 ≤ (x.toNat : Int) := fun x hx => by
        have : x.toNat ≠ 0 := fun h0 => hx (UInt16.toNat_inj.mp h0)
        omega
      exact ⟨pos _ fun h => hne (.inl h), pos _ fun h => hne (.inr h)⟩

theorem Win32Terminal.size_visible (srWindow : Option SmallRect) :
    (Win32Terminal.size srWindow).Visible := by
  unfold Win32Terminal.size
  split
  · exact Size.default_visible
  · dsimp only
    split
    · exact Size.default_visible
    · rename_i w hne
      constructor <;> dsimp only <;> omega

end Csopesy
