import Mathlib.Tactic

/-! # Entering and leaving raw mode on POSIX

`enterRawMode`, `restore` and the destructor of `PosixTerminal` in
`src/platform/terminal_posix.cpp`.  The constants of `<termios.h>` are a parameter,
and so is whether each `tcgetattr` and `tcsetattr` succeeds; a failing call changes no
attribute, and nobody else changes them.

`Faithful` is what the two members are for: `raw_` tells whether the terminal was
changed, and `saved_` holds what to change it back to.  While they mean this a failed
`restore` can be made up for by a later one, if it leaves `raw_` set
(`NeverAbandoned`).  It clears `raw_` whatever `tcsetattr` returned, so a run is as it
should be exactly when no `restore` that has something to restore fails
(`never_abandoned_iff`).
-/
namespace Csopesy

/-- The constants of `<termios.h>` that the terminal uses. -/
structure TermiosHeader where
  icrnl : UInt32
  inlcr : UInt32
  ixon : UInt32
  opost : UInt32
  icanon : UInt32
  echo : UInt32
  isig : UInt32
  vmin : Nat
  vtime : Nat

/-- `struct termios`. -/
structure Termios where
  c_iflag : UInt32 := 0
  c_oflag : UInt32 := 0
  c_cflag : UInt32 := 0
  c_lflag : UInt32 := 0
  c_cc : List UInt8 := List.replicate 32 0
deriving DecidableEq, Repr

/-- The members of `PosixTerminal`, and the attributes in force. -/
structure PosixTerminal where
  saved : Termios := {}
  raw : Bool := false
  tty : Termios
deriving DecidableEq, Repr

namespace PosixTerminal
variable (header : TermiosHeader)

/-- The attributes that `enterRawMode` builds from the saved ones. -/
def rawFrom (saved : Termios) : Termios :=
  { saved with
    c_iflag := saved.c_iflag &&& ~~~(header.icrnl ||| header.inlcr ||| header.ixon)
    c_oflag := saved.c_oflag &&& ~~~header.opost
    c_lflag := saved.c_lflag &&& ~~~(header.icanon ||| header.echo ||| header.isig)
    c_cc := (saved.c_cc.set header.vmin 0).set header.vtime 0 }

/-- `get` and `set` tell whether `tcgetattr` and `tcsetattr` succeed. -/
def enterRawMode (t : PosixTerminal) (get set : Bool) : PosixTerminal :=
  if t.raw then t
  else if !get then t
  else
    let t := { t with saved := t.tty }
    if set then { t with tty := rawFrom header t.saved, raw := true } else t

def restore (t : PosixTerminal) (set : Bool) : PosixTerminal :=
  if !t.raw then t
  else
    let t := if set then { t with tty := t.saved } else t
    -- the result of `tcsetattr` is not looked at
    { t with raw := false }

inductive Call
  | enterRawMode (get set : Bool)
  | restore (set : Bool)
  | destroy (set : Bool)
deriving DecidableEq, Repr

def call (t : PosixTerminal) : Call → PosixTerminal
  | .enterRawMode get set => t.enterRawMode header get set
  | .restore set => t.restore set
  | .destroy set => t.restore set

def calls (t : PosixTerminal) (cs : List Call) : PosixTerminal := cs.foldl (call header) t

theorem calls_append (t : PosixTerminal) (cs : List Call) (c : Call) :
    t.calls header (cs ++ [c]) = (t.calls header cs).call header c := List.foldl_append

/-! ## What the members mean -/

/-- Nothing to restore, or the original attributes saved. -/
structure Faithful (original : Termios) (t : PosixTerminal) : Prop where
  cooked : t.raw = false → t.tty = original
  saved : t.raw = true → t.saved = original

/-- A `restore` that has something to restore and fails. -/
def Abandons (t : PosixTerminal) (c : Call) : Prop :=
  t.raw = true ∧ (c = .restore false ∨ c = .destroy false)

variable {header} {original : Termios} {t : PosixTerminal}

/-- Everything `enterRawMode` can do. -/
theorem enterRawMode_cases (header : TermiosHeader) (t : PosixTerminal) (get set : Bool) :
    t.enterRawMode header get set = t ∨
    (t.raw = false ∧ t.enterRawMode header get set = { t with saved := t.tty }) ∨
    (t.raw = false ∧ t.enterRawMode header get set =
      { saved := t.tty, tty := rawFrom header t.tty, raw := true }) := by
  unfold enterRawMode
  cases hraw : t.raw with
  | true => exact .inl rfl
  | false =>
    cases get with
    | false => exact .inl rfl
    | true =>
      cases set with
      | false => exact .inr (.inl ⟨rfl, rfl⟩)
      | true => exact .inr (.inr ⟨rfl, rfl⟩)

/-- Everything `restore` can do. -/
theorem restore_cases (t : PosixTerminal) (set : Bool) :
    (t.raw = false ∧ t.restore set = t) ∨
    (t.raw = true ∧ set = true ∧ t.restore set = { t with tty := t.saved, raw := false }) ∨
    (t.raw = true ∧ set = false ∧ t.restore set = { t with raw := false }) := by
  unfold restore
  cases hraw : t.raw with
  | false => exact .inl ⟨rfl, rfl⟩
  | true =>
    cases set with
    | true => exact .inr (.inl ⟨rfl, rfl, rfl⟩)
    | false => exact .inr (.inr ⟨rfl, rfl, rfl⟩)

theorem Faithful.enterRawMode (h : Faithful original t) (get set : Bool) :
    Faithful original (t.enterRawMode header get set) := by
  obtain heq | ⟨hraw, heq⟩ | ⟨hraw, heq⟩ := enterRawMode_cases header t get set
  · rw [heq]
    exact h
  · rw [heq]
    exact ⟨h.cooked, fun _ => h.cooked hraw⟩
  · rw [heq]
    exact ⟨fun hcooked => absurd hcooked.symm Bool.false_ne_true, fun _ => h.cooked hraw⟩

theorem Faithful.restore (h : Faithful original t) {set : Bool} (hset : t.raw = true → set = true) :
    Faithful original (t.restore set) := by
  obtain ⟨-, heq⟩ | ⟨hraw, -, heq⟩ | ⟨hraw, hfails, -⟩ := restore_cases t set
  · rw [heq]
    exact h
  · rw [heq]
    exact ⟨fun _ => h.saved hraw, fun hraw' => absurd hraw' Bool.false_ne_true⟩
  · exact absurd (hfails.symm.trans (hset hraw)) Bool.false_ne_true

/-- **One call** that abandons nothing. -/
theorem Faithful.call (h : Faithful original t) {c : Call} (hc : ¬ Abandons t c) :
    Faithful original (t.call header c) := by
  cases c with
  | enterRawMode get set => exact h.enterRawMode get set
  | restore set =>
    refine h.restore fun hraw => ?_
    by_contra hset
    exact hc ⟨hraw, .inl (by rw [Bool.eq_false_of_not_eq_true hset])⟩
  | destroy set =>
    refine h.restore fun hraw => ?_
    by_contra hset
    exact hc ⟨hraw, .inr (by rw [Bool.eq_false_of_not_eq_true hset])⟩

theorem restore_fails (hraw : t.raw = true) : t.restore false = { t with raw := false } := by
  obtain ⟨hcooked, -⟩ | ⟨-, hset, -⟩ | ⟨-, -, heq⟩ := restore_cases t false
  · exact absurd (hcooked.symm.trans hraw) Bool.false_ne_true
  · exact absurd hset Bool.false_ne_true
  · exact heq

theorem call_abandons (header : TermiosHeader) {c : Call} (h : Abandons t c) :
    (t.call header c).raw = false := by
  obtain ⟨hraw, rfl | rfl⟩ := h
  · rw [PosixTerminal.call, restore_fails hraw]
  · rw [PosixTerminal.call, restore_fails hraw]

/-- What a faithful terminal restores. -/
theorem Faithful.restore_tty (h : Faithful original t) : (t.restore true).tty = original := by
  obtain ⟨hraw, heq⟩ | ⟨hraw, -, heq⟩ | ⟨-, hfails, -⟩ := restore_cases t true
  · rw [heq]
    exact h.cooked hraw
  · rw [heq]
    exact h.saved hraw
  · exact absurd hfails.symm Bool.false_ne_true

/-- What a faithful terminal saves. -/
theorem Faithful.enterRawMode_saved (h : Faithful original t) (set : Bool) :
    (t.enterRawMode header true set).saved = original := by
  unfold PosixTerminal.enterRawMode
  cases hraw : t.raw with
  | true => exact h.saved hraw
  | false =>
    have htty := h.cooked hraw
    cases set with
    | false => exact htty
    | true => exact htty

/-! ## Whole runs -/

theorem faithful_of_never {tty : Termios} {cs : List Call}
    (hnever : ∀ done c, done ++ [c] <+: cs → ¬ Abandons (calls header { tty := tty } done) c)
    {done : List Call} (hdone : done <+: cs) :
    Faithful tty (calls header { tty := tty } done) := by
  induction done using List.reverseRecOn with
  | nil => exact ⟨fun _ => rfl, fun hraw => absurd hraw Bool.false_ne_true⟩
  | append_singleton done c ih =>
    rw [calls_append]
    exact (ih ((List.prefix_append done [c]).trans hdone)).call (hnever done c hdone)

/-- A run that never abandons the terminal in raw mode. -/
structure NeverAbandoned (header : TermiosHeader) (tty : Termios) (cs : List Call) : Prop where
  faithful : ∀ done, done <+: cs → Faithful tty (calls header { tty := tty } done)
  /-- A `restore` that fails leaves `raw_` set. -/
  kept : ∀ done c, done ++ [c] <+: cs → (c = .restore false ∨ c = .destroy false) →
    (calls header { tty := tty } done).raw = true →
    (calls header { tty := tty } (done ++ [c])).raw = true
  /-- A later one repairs the terminal. -/
  repaired : ∀ done c, done ++ [c] <+: cs → (c = .restore true ∨ c = .destroy true) →
    (calls header { tty := tty } (done ++ [c])).tty = tty
  /-- What `enterRawMode` saves are the original attributes. -/
  resaved : ∀ done set, done ++ [.enterRawMode true set] <+: cs →
    (calls header { tty := tty } (done ++ [.enterRawMode true set])).saved = tty

/-- **When the terminal is never abandoned in raw mode**: in the runs in which no `restore`
that finds `raw_` set fails. -/
theorem never_abandoned_iff (header : TermiosHeader) (tty : Termios) (cs : List Call) :
    NeverAbandoned header tty cs ↔
      ∀ done c, done ++ [c] <+: cs → ¬ Abandons (calls header { tty := tty } done) c := by
  constructor
  · intro h done c hdone habandons
    have hkept := h.kept done c hdone habandons.2 habandons.1
    rw [calls_append, call_abandons header habandons] at hkept
    exact Bool.false_ne_true hkept
  · intro hnever
    have hbefore {done : List Call} {c : Call} (hdone : done ++ [c] <+: cs) :
        Faithful tty (calls header { tty := tty } done) :=
      faithful_of_never hnever ((List.prefix_append done [c]).trans hdone)
    refine ⟨fun done hdone => faithful_of_never hnever hdone, ?_, ?_, ?_⟩
    · intro done c hdone hfails hraw
      exact absurd ⟨hraw, hfails⟩ (hnever done c hdone)
    · intro done c hdone hworks
      rw [calls_append]
      rcases hworks with rfl | rfl
      · exact (hbefore hdone).restore_tty
      · exact (hbefore hdone).restore_tty
    · intro done set hdone
      rw [calls_append]
      exact (hbefore hdone).enterRawMode_saved set

/-- The values on Linux. -/
def linuxHeader : TermiosHeader where
  icrnl := 0x100
  inlcr := 0x40
  ixon := 0x400
  opost := 0x1
  icanon := 0x2
  echo := 0x8
  isig := 0x1
  vmin := 6
  vtime := 5

/-- A `tcsetattr` in `restore` is interrupted: `raw_` is clear and the terminal raw. -/
theorem restore_forgets :
    ¬ NeverAbandoned linuxHeader { c_lflag := 0x2 } [.enterRawMode true true, .restore false] := by
  intro h
  have hleft := (h.faithful _ (List.prefix_refl _)).cooked (by decide)
  exact absurd hleft (by decide)

end PosixTerminal
end Csopesy
