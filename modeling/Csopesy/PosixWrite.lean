import Csopesy.Bytes
import Csopesy.Transition

/-! # Writing a frame on POSIX

`PosixTerminal::write` of `src/platform/terminal_posix.cpp`.  The kernel is a
sequence of answers: each `::write` takes a number of bytes from the pointer on, is
interrupted, or fails.  `WriteLoop` holds the two variables of the loop and what the
descriptor has received; `writing` is its state before each call.

Nothing is lost, repeated or reordered because the received bytes are always the
ones before the pointer (`Consistent`), and the loop ends because each accepted call
shortens what is left (`write_delivers`).
-/
namespace Csopesy
namespace PosixTerminal

/-- What one `::write` returns. -/
inductive WriteResult
  | count (n : Nat)
  -- -1 with `errno` EINTR
  | interrupted
  -- -1 with any other `errno`
  | failed
deriving DecidableEq, Repr

structure WriteLoop where
  -- the offset of the pointer in the string
  p : Nat := 0
  left : Nat
  received : Bytes := []
  returned : Bool := false
deriving DecidableEq, Repr

namespace WriteLoop

/-- `while (left > 0)` is over, or the loop was left by `return`. -/
def Ended (w : WriteLoop) : Prop := w.returned = true ∨ w.left = 0

instance (w : WriteLoop) : Decidable w.Ended := inferInstanceAs (Decidable (_ ∨ _))

/-- One pass of the loop.  A call that returns a count has taken so many bytes from
the pointer on. -/
def pass (bytes : Bytes) (w : WriteLoop) (result : WriteResult) : WriteLoop :=
  if w.Ended then w
  else
    match result with
    | .count n =>
      { w with p := w.p + n, left := w.left - n, received := w.received ++ (bytes.drop w.p).take n }
    | .interrupted => w
    | .failed => { w with returned := true }

/-- A count is positive and at most what was asked for. -/
def Fits (w : WriteLoop) : WriteResult → Prop
  | .count n => 1 ≤ n ∧ n ≤ w.left
  | .interrupted | .failed => True

/-- The descriptor has the bytes before the pointer, and the rest is left. -/
structure Consistent (bytes : Bytes) (w : WriteLoop) : Prop where
  received : w.received = bytes.take w.p
  left : w.p + w.left = bytes.length

variable {bytes : Bytes} {w : WriteLoop} {result : WriteResult}

theorem pass_of_ended (h : w.Ended) (result : WriteResult) : w.pass bytes result = w := if_pos h

/-- Everything one pass of a running loop can do. -/
theorem pass_cases (bytes : Bytes) (h : ¬ w.Ended) (hfits : w.Fits result) :
    (∃ n, result = .count n ∧ 1 ≤ n ∧ n ≤ w.left ∧ w.pass bytes result =
      { w with
        p := w.p + n, left := w.left - n, received := w.received ++ (bytes.drop w.p).take n }) ∨
    (result = .interrupted ∧ w.pass bytes result = w) ∨
    (result = .failed ∧ w.pass bytes result = { w with returned := true }) := by
  cases result with
  | count n => exact .inl ⟨n, rfl, hfits.1, hfits.2, if_neg h⟩
  | interrupted => exact .inr (.inl ⟨rfl, if_neg h⟩)
  | failed => exact .inr (.inr ⟨rfl, if_neg h⟩)

/-- **One pass** appends the next bytes of the string, or none. -/
theorem Consistent.pass (hw : w.Consistent bytes) (hfits : ¬ w.Ended → w.Fits result) :
    (w.pass bytes result).Consistent bytes ∧
      w.received <+: (w.pass bytes result).received := by
  by_cases hended : w.Ended
  · rw [pass_of_ended hended]
    exact ⟨hw, List.prefix_refl _⟩
  · obtain ⟨n, -, -, hle, heq⟩ | ⟨-, heq⟩ | ⟨-, heq⟩ := pass_cases bytes hended (hfits hended)
    · rw [heq]
      refine ⟨⟨?_, ?_⟩, List.prefix_append _ _⟩
      · show w.received ++ (bytes.drop w.p).take n = bytes.take (w.p + n)
        rw [hw.received, List.take_add]
      · show w.p + n + (w.left - n) = bytes.length
        have hleft := hw.left
        omega
    · rw [heq]
      exact ⟨hw, List.prefix_refl _⟩
    · rw [heq]
      exact ⟨⟨hw.received, hw.left⟩, List.prefix_refl _⟩

/-- A loop that is over without `return` has delivered everything. -/
theorem Consistent.complete (hw : w.Consistent bytes) (hleft : w.left = 0) : w.received = bytes := by
  have hp : w.p = bytes.length := by
    have := hw.left
    omega
  rw [hw.received, hp, List.take_length]

end WriteLoop

/-! ## The whole loop -/

/-- The loop before each call, from the start of `write`. -/
def writing (bytes : Bytes) (results : Nat → WriteResult) : Nat → WriteLoop
  | 0 => { left := bytes.length }
  | i + 1 => (writing bytes results i).pass bytes (results i)

section
variable {bytes : Bytes} {results : Nat → WriteResult}

/-- Nothing is written after the end. -/
theorem writing_of_ended {i j : Nat} (hended : (writing bytes results i).Ended) (hij : i ≤ j) :
    writing bytes results j = writing bytes results i := by
  refine Progress.kept_of_le (writing bytes results) (· = writing bytes results i) ?_ hij rfl
  intro k hk
  rw [writing, hk, WriteLoop.pass_of_ended hended]

variable
  (hfits : ∀ i, ¬ (writing bytes results i).Ended → (writing bytes results i).Fits (results i))
include hfits

theorem writing_consistent (i : Nat) : (writing bytes results i).Consistent bytes := by
  induction i with
  | zero => exact ⟨rfl, Nat.zero_add _⟩
  | succ i ih => exact (ih.pass (hfits i)).1

theorem writing_returned (hfailed : ∀ i, ¬ (writing bytes results i).Ended → results i ≠ .failed)
    (i : Nat) : (writing bytes results i).returned = false := by
  induction i with
  | zero => rfl
  | succ i ih =>
    rw [writing]
    by_cases hended : (writing bytes results i).Ended
    · rw [WriteLoop.pass_of_ended hended]
      exact ih
    · obtain ⟨n, -, -, -, heq⟩ | ⟨-, heq⟩ | ⟨hresult, -⟩ :=
        WriteLoop.pass_cases bytes hended (hfits i hended)
      · rw [heq]
        exact ih
      · rw [heq]
        exact ih
      · exact absurd hresult (hfailed i hended)

/-- With finitely many interruptions the loop ends. -/
theorem writing_ends (hfailed : ∀ i, ¬ (writing bytes results i).Ended → results i ≠ .failed)
    {n : Nat} (hinterrupted : ∀ i, n ≤ i → ¬ (writing bytes results i).Ended →
      results i ≠ .interrupted) :
    ∃ i, ∀ j, i ≤ j → (writing bytes results j).Ended := by
  have hprogress : Progress.Progresses (writing bytes results) WriteLoop.Ended WriteLoop.left n := by
    intro i hi
    by_cases hended : (writing bytes results i).Ended
    · exact .inl hended
    · refine .inr ?_
      obtain ⟨k, -, hpos, hle, heq⟩ | ⟨hresult, -⟩ | ⟨hresult, -⟩ :=
        WriteLoop.pass_cases bytes hended (hfits i hended)
      · rw [writing, heq]
        show (writing bytes results i).left - k < (writing bytes results i).left
        omega
      · exact absurd hresult (hinterrupted i hi hended)
      · exact absurd hresult (hfailed i hended)
  refine Progress.eventually_always hprogress fun i hended => ?_
  rw [writing, WriteLoop.pass_of_ended hended]
  exact hended

/-- **A frame is delivered without loss or duplication.**  What the descriptor has
received is at every moment a prefix of the string and only grows; without a failure
other than EINTR, and with finitely many of these, the loop ends with the whole
string received; and another failure ends it with what was received so far. -/
theorem write_delivers :
    (∀ i, (writing bytes results i).received <+: bytes ∧
      (writing bytes results i).received <+: (writing bytes results (i + 1)).received) ∧
    ((∀ i, ¬ (writing bytes results i).Ended → results i ≠ .failed) →
      (∃ n, ∀ i, n ≤ i → ¬ (writing bytes results i).Ended → results i ≠ .interrupted) →
      ∃ i, ∀ j, i ≤ j →
        (writing bytes results j).Ended ∧ (writing bytes results j).received = bytes) ∧
    (∀ i, ¬ (writing bytes results i).Ended → results i = .failed → ∀ j, i < j →
      (writing bytes results j).Ended ∧
        (writing bytes results j).received = (writing bytes results i).received) := by
  refine ⟨fun i => ⟨?_, ((writing_consistent hfits i).pass (hfits i)).2⟩, ?_, ?_⟩
  · rw [(writing_consistent hfits i).received]
    exact List.take_prefix _ _
  · rintro hfailed ⟨n, hinterrupted⟩
    obtain ⟨i, hends⟩ := writing_ends hfits hfailed hinterrupted
    refine ⟨i, fun j hij => ⟨hends j hij, ?_⟩⟩
    have hleft : (writing bytes results j).left = 0 := by
      refine (hends j hij).resolve_left ?_
      rw [writing_returned hfits hfailed j]
      exact Bool.false_ne_true
    exact (writing_consistent hfits j).complete hleft
  · intro i hended hresult j hij
    have hafter : writing bytes results (i + 1) = { writing bytes results i with returned := true } := by
      rw [writing, hresult]
      exact if_neg hended
    have hnext : (writing bytes results (i + 1)).Ended := by
      rw [hafter]
      exact .inl rfl
    rw [writing_of_ended hnext hij, hafter]
    exact ⟨.inl rfl, rfl⟩

end

/-- Two bytes, an interruption, and one byte at every later call. -/
def interruptedOnce : Nat → WriteResult
  | 0 => .count 2
  | 1 => .interrupted
  | _ => .count 1

theorem write_delivers_interrupted :
    ∃ i, (writing (ascii "ABC") interruptedOnce i).received = ascii "ABC" := by
  have hended : ∀ i, (writing (ascii "ABC") interruptedOnce (i + 3)).Ended := by
    intro i
    have hthree : (writing (ascii "ABC") interruptedOnce 3).Ended := by decide
    rw [writing_of_ended hthree (Nat.le_add_left 3 i)]
    exact hthree
  have hfits : ∀ i, ¬ (writing (ascii "ABC") interruptedOnce i).Ended →
      (writing (ascii "ABC") interruptedOnce i).Fits (interruptedOnce i) := by
    intro i hrunning
    match i with
    | 0 => exact ⟨by decide, by decide⟩
    | 1 => trivial
    | 2 => exact ⟨by decide, by decide⟩
    | i + 3 => exact absurd (hended i) hrunning
  have hfailed : ∀ i, interruptedOnce i ≠ .failed
    | 0 | 1 => by decide
    | i + 2 => WriteResult.noConfusion
  have hinterrupted : ∀ i, 2 ≤ i → interruptedOnce i ≠ .interrupted
    | i + 2, _ => WriteResult.noConfusion
  obtain ⟨i, hi⟩ := (write_delivers hfits).2.1 (fun i _ => hfailed i)
    ⟨2, fun i hi _ => hinterrupted i hi⟩
  exact ⟨i, (hi i (Nat.le_refl i)).2⟩

end PosixTerminal
end Csopesy
