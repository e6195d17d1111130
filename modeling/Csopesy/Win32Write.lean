import Csopesy.PosixWrite

/-! # Writing a frame on Windows

`Win32Terminal::write` of `src/platform/terminal_win32.cpp`.  The loop is the one of
`Csopesy.PosixWrite`, and `WriteLoop` is its state; the console is a sequence of answers to
`WriteFile`.  A call asks for `kMaxChunk` bytes at most, and the loop gives up when it takes
none, so unlike the one on POSIX it ends whatever the console answers.

A pass is a pass of the POSIX loop with an answer that is never an interruption
(`pass_eq`), and what holds of that loop holds here.
-/
namespace Csopesy
namespace Win32Terminal
open PosixTerminal (WriteLoop WriteResult)

/-- What one `WriteFile` returns, with the value of `written`. -/
inductive WriteFileResult
  | wrote (n : Nat)
  | failed
deriving DecidableEq, Repr

/-- `1u << 30` -/
def kMaxChunk : Nat := 1073741824

/-- The bytes one call asks for. -/
def chunk (left : Nat) : Nat := if left < kMaxChunk then left else kMaxChunk

def pass (bytes : Bytes) (w : WriteLoop) (result : WriteFileResult) : WriteLoop :=
  if w.Ended then w
  else
    match result with
    | .failed => { w with returned := true }
    | .wrote n =>
      if n = 0 then { w with returned := true }
      else
        { w with p := w.p + n, left := w.left - n, received := w.received ++ (bytes.drop w.p).take n }

/-- A call takes at most what was asked for, and possibly nothing. -/
def Fits (w : WriteLoop) : WriteFileResult → Prop
  | .wrote n => n ≤ chunk w.left
  | .failed => True

/-- The loop before each call; `outValid` tells whether `out_` is a handle. -/
def writing (outValid : Bool) (bytes : Bytes) (results : Nat → WriteFileResult) : Nat → WriteLoop
  | 0 => { left := bytes.length, returned := !outValid }
  | i + 1 => pass bytes (writing outValid bytes results i) (results i)

/-! ## The same loop as on POSIX -/

/-- A call that takes nothing ends the loop like a failure. -/
def WriteFileResult.result : WriteFileResult → WriteResult
  | .wrote 0 | .failed => .failed
  | .wrote (n + 1) => .count (n + 1)

theorem pass_eq (bytes : Bytes) (w : WriteLoop) (r : WriteFileResult) :
    pass bytes w r = w.pass bytes r.result := by
  cases r with
  | failed => rfl
  | wrote n => cases n <;> rfl

theorem chunk_le (left : Nat) : chunk left ≤ left := by
  unfold chunk
  split
  · exact Nat.le_refl _
  · rename_i hge
    exact Nat.le_of_not_lt hge

theorem Fits.result {w : WriteLoop} {r : WriteFileResult} (h : Fits w r) : w.Fits r.result := by
  cases r with
  | failed => trivial
  | wrote n =>
    cases n with
    | zero => trivial
    | succ n => exact ⟨Nat.succ_pos n, Nat.le_trans h (chunk_le _)⟩

theorem writing_eq (bytes : Bytes) (results : Nat → WriteFileResult) (i : Nat) :
    writing true bytes results i = PosixTerminal.writing bytes (fun i => (results i).result) i := by
  induction i with
  | zero => rfl
  | succ i ih => rw [writing, pass_eq, ih, PosixTerminal.writing]

/-- Without a handle nothing is written. -/
theorem writing_invalid (bytes : Bytes) (results : Nat → WriteFileResult) (i : Nat) :
    writing false bytes results i = { left := bytes.length, returned := true } := by
  induction i with
  | zero => rfl
  | succ i ih => rw [writing, ih, pass_eq, WriteLoop.pass_of_ended (.inl rfl)]

/-! ## The whole loop -/

section
variable {outValid : Bool} {bytes : Bytes} {results : Nat → WriteFileResult}
  (hfits : ∀ i, ¬ (writing outValid bytes results i).Ended →
    Fits (writing outValid bytes results i) (results i))
include hfits

theorem fits_posix (hvalid : outValid = true) (i : Nat)
    (hended : ¬ (PosixTerminal.writing bytes (fun i => (results i).result) i).Ended) :
    (PosixTerminal.writing bytes (fun i => (results i).result) i).Fits (results i).result := by
  subst hvalid
  rw [← writing_eq] at hended ⊢
  exact (hfits i hended).result

/-- The console has received a prefix of the string, and after each call more of it. -/
theorem writing_start (i : Nat) :
    (writing outValid bytes results i).received <+: bytes ∧
      (writing outValid bytes results i).received <+:
        (writing outValid bytes results (i + 1)).received := by
  cases hvalid : outValid with
  | false =>
    rw [writing_invalid, writing_invalid]
    exact ⟨List.nil_prefix, List.prefix_refl _⟩
  | true =>
    have hposix := fits_posix hfits hvalid
    have hconsistent := PosixTerminal.writing_consistent hposix i
    rw [writing_eq, writing_eq]
    refine ⟨?_, (hconsistent.pass (hposix i)).2⟩
    rw [hconsistent.received]
    exact List.take_prefix _ _

/-- Each call that does not end the loop takes a byte. -/
theorem writing_left (i : Nat) : (writing outValid bytes results i).Ended ∨
    (writing outValid bytes results i).left + i ≤ bytes.length := by
  induction i with
  | zero => exact .inr (Nat.le_refl _)
  | succ i ih =>
    rw [writing, pass_eq]
    by_cases hended : (writing outValid bytes results i).Ended
    · rw [WriteLoop.pass_of_ended hended]
      exact .inl hended
    · have hleft := ih.resolve_left hended
      obtain ⟨n, -, hpos, hle, heq⟩ | ⟨hnever, -⟩ | ⟨-, heq⟩ :=
        WriteLoop.pass_cases bytes hended (hfits i hended).result
      · rw [heq]
        refine .inr ?_
        dsimp only
        omega
      · cases hr : results i with
        | failed => exact WriteResult.noConfusion (hr ▸ hnever)
        | wrote n => cases n <;> exact WriteResult.noConfusion (hr ▸ hnever)
      · rw [heq]
        exact .inl (.inl rfl)

theorem writing_ended {i : Nat} (hi : bytes.length ≤ i) :
    (writing outValid bytes results i).Ended := by
  obtain hended | hleft := writing_left hfits i
  · exact hended
  · exact .inr (by omega)

/-- **A frame reaches the console in order, in boundedly many calls.**  The console has
received a prefix of the string at every moment, which only grows; the loop ends after at
most as many calls as there are bytes, whatever the console answers; and when every call
takes a byte, the whole string is received. -/
theorem writeFile_delivers :
    (∀ i, (writing outValid bytes results i).received <+: bytes ∧
      (writing outValid bytes results i).received <+:
        (writing outValid bytes results (i + 1)).received) ∧
    (∀ i, bytes.length ≤ i → (writing outValid bytes results i).Ended) ∧
    (outValid = true →
      (∀ i, ¬ (writing outValid bytes results i).Ended → ∃ n, results i = .wrote (n + 1)) →
      ∀ i, bytes.length ≤ i → (writing outValid bytes results i).received = bytes) := by
  refine ⟨writing_start hfits, fun _ hi => writing_ended hfits hi, ?_⟩
  intro hvalid htakes i hi
  have hended := writing_ended hfits hi
  have hposix := fits_posix hfits hvalid
  subst hvalid
  have hfailed : ∀ i, ¬ (PosixTerminal.writing bytes (fun i => (results i).result) i).Ended →
      (results i).result ≠ .failed := by
    intro i hrunning
    rw [← writing_eq] at hrunning
    obtain ⟨n, hn⟩ := htakes i hrunning
    rw [hn]
    exact WriteResult.noConfusion
  rw [writing_eq] at hended ⊢
  refine (PosixTerminal.writing_consistent hposix i).complete (hended.resolve_left ?_)
  rw [PosixTerminal.writing_returned hposix hfailed]
  exact Bool.false_ne_true

end

/-- One byte at every call. -/
theorem writeFile_delivers_bytewise :
    (writing true (ascii "ABC") (fun _ => .wrote 1) 3).received = ascii "ABC" := by
  have hfits : ∀ i, ¬ (writing true (ascii "ABC") (fun _ => .wrote 1) i).Ended →
      Fits (writing true (ascii "ABC") (fun _ => .wrote 1) i) (.wrote 1) := by
    intro i hrunning
    change 1 ≤ chunk _
    have hleft := (not_or.mp hrunning).2
    unfold chunk
    split
    · exact Nat.one_le_iff_ne_zero.mpr hleft
    · decide
  exact (writeFile_delivers hfits).2.2 rfl (fun _ _ => ⟨0, rfl⟩) 3 (by decide)

end Win32Terminal
end Csopesy
