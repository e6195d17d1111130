import Csopesy.Interpreter
import Csopesy.Transition
import Mathlib.Data.List.DropRight

/-! # The input path on Windows

`readEvent`, `drainFilteredRecords` and `decode` of `src/platform/terminal_win32.cpp`.
The console and the C runtime are a parameter, `Console`: its functions, and what
their documentation says about the queue of input records.  `_getch` hands out an
extended key in two calls; the second half waits in the C runtime, not in the queue.

A call that finds records takes one of them unless `_getch` would deliver none and the
head of the queue is a key-down record all the same, such as a bare Shift
(`readEvent_moves_iff`).  `drainFilteredRecords` leaves this record where it is, for a
`_getch` that never comes.  Without new input the queue is emptied exactly when no
key-down record stands behind the last one that `_getch` delivers (`input_settles_iff`).
-/
namespace Csopesy
namespace Win32Terminal

/-! ## The console -/

/-- What `_getch` makes of a key-down record. -/
inductive Key
  | char (c : UInt8)
  | extended (lead scan : UInt8)
  -- Shift, Ctrl or Alt alone
  | modifier
deriving DecidableEq, Repr

/-- `INPUT_RECORD`. -/
inductive InputRecord
  | key (bKeyDown : Bool) (key : Key)
  | mouse
  | bufferSize
  | menu
  | focus
deriving DecidableEq, Repr

/-- The test of `drainFilteredRecords`. -/
def InputRecord.keyDown : InputRecord → Bool
  | .key bKeyDown _ => bKeyDown
  | .mouse | .bufferSize | .menu | .focus => false

/-- The test of `_kbhit`. -/
def InputRecord.delivered : InputRecord → Bool
  | .key bKeyDown (.char _) | .key bKeyDown (.extended _ _) => bKeyDown
  | .key _ .modifier | .mouse | .bufferSize | .menu | .focus => false

/-- What stands behind the first record that `_getch` delivers. -/
def behindKey (queue : List InputRecord) : List InputRecord :=
  (queue.dropWhile fun r => !r.delivered).tail

/-- What stands behind the last record that `_getch` delivers. -/
def residue (queue : List InputRecord) : List InputRecord := queue.rtakeWhile fun r => !r.delivered

/-- The console functions, and what they do to the queue and to a half-read extended
key. -/
structure Console (σ : Type) where
  queue : σ → List InputRecord
  half : σ → Bool
  -- `WaitForSingleObject` returns `WAIT_OBJECT_0`
  signalled : σ → Bool
  kbhit : σ → Bool
  getch : σ → Int × σ
  -- `PeekConsoleInputA` and `ReadConsoleInputA` for one record; `none` when there is none
  peek : σ → Option InputRecord
  read : σ → Option σ
  signalled_iff : ∀ s, signalled s = true ↔ queue s ≠ []
  kbhit_iff : ∀ s, kbhit s = true ↔ half s = true ∨ ∃ r ∈ queue s, r.delivered = true
  getch_half : ∀ s, half s = true → queue (getch s).2 = queue s ∧ half (getch s).2 = false
  getch_key : ∀ s, half s = false → (∃ r ∈ queue s, r.delivered = true) →
    queue (getch s).2 = behindKey (queue s)
  peek_eq : ∀ s, peek s = (queue s).head?
  read_none : ∀ s, read s = none → queue s = []
  read_some : ∀ s t, read s = some t → (∃ r, queue s = r :: queue t) ∧ half t = half s

section
variable {σ : Type} (c : Console σ)

/-! ## The source -/

/-- The `switch` over the second half of an extended key. -/
def extendedKey (code : Int) : Option KeyEvent :=
  if code = 72 then some { type := .arrowUp }
  else if code = 80 then some { type := .arrowDown }
  else if code = 75 then some { type := .arrowLeft }
  else if code = 77 then some { type := .arrowRight }
  else none

def decodeExtended (s : σ) : Option KeyEvent × σ :=
  if c.kbhit s = false then (none, s)
  else
    let (code, s) := c.getch s
    (extendedKey code, s)

/-- The rest of `decode`, for a value that leads no extended key. -/
def plainKey (ch : Int) : Option KeyEvent :=
  if ch = 0x0D ∨ ch = 0x0A then some { type := .enter }
  else if ch = 0x08 ∨ ch = 0x7F then some { type := .backspace }
  else if ch = 0x09 then some { type := .tab }
  else if ch = 0x1B then some { type := .escape }
  else if ch = 0x03 ∨ ch = 0x04 ∨ ch = 0x1A then some { type := .eof }
  else if 0x20 ≤ ch ∧ ch ≤ 0x7E then some { type := .char, ch := UInt8.ofNat ch.toNat }
  else none

/-- `EOF` is -1. -/
def decode (ch : Int) (s : σ) : Option KeyEvent × σ :=
  if ch = -1 then (some { type := .eof }, s)
  else if ch = 0 ∨ ch = 224 then decodeExtended c s
  else (plainKey ch, s)

/-- Remove records up to the first key-down record. -/
def drainFilteredRecords (s : σ) : σ :=
  match c.peek s with
  | none => s
  | some record =>
    if record.keyDown then s
    else
      match _h : c.read s with
      | none => s
      | some t => drainFilteredRecords t
termination_by (c.queue s).length
decreasing_by
  obtain ⟨⟨r, hqueue⟩, -⟩ := c.read_some s t _h
  rw [hqueue, List.length_cons]
  exact Nat.lt_succ_self _

/-- One call on a valid handle; `none` when it returns false. -/
def readEvent (s : σ) : Option KeyEvent × σ :=
  if c.signalled s = false then (none, s)
  else if c.kbhit s = false then (none, drainFilteredRecords c s)
  else
    let (ch, s) := c.getch s
    decode c ch s

/-! ## What each function does to the queue -/

variable {c} {s : σ}

theorem drainFilteredRecords_spec (s : σ) :
    c.queue (drainFilteredRecords c s) = (c.queue s).dropWhile (fun r => !r.keyDown) ∧
      c.half (drainFilteredRecords c s) = c.half s := by
  induction hn : (c.queue s).length using Nat.strong_induction_on generalizing s with
  | _ n ih =>
    rw [drainFilteredRecords, c.peek_eq]
    cases hqueue : c.queue s with
    | nil => exact ⟨hqueue, rfl⟩
    | cons r rest =>
      dsimp only [List.head?_cons]
      by_cases hdown : r.keyDown = true
      · rw [if_pos hdown, List.dropWhile_cons_of_neg (by simp [hdown])]
        exact ⟨hqueue, rfl⟩
      · rw [if_neg hdown, List.dropWhile_cons_of_pos (by simp [hdown])]
        split
        · rename_i hread
          rw [c.read_none s hread] at hqueue
          exact absurd hqueue.symm (List.cons_ne_nil _ _)
        · rename_i t hread
          obtain ⟨⟨r', hcons⟩, hhalf⟩ := c.read_some s t hread
          have hrest : rest = c.queue t := (List.cons.inj (hqueue.symm.trans hcons)).2
          have hlength : (c.queue t).length < n := by
            rw [← hn, hcons, List.length_cons]
            exact Nat.lt_succ_self _
          obtain ⟨hdrained, hhalf'⟩ := ih _ hlength t rfl
          rw [hrest]
          exact ⟨hdrained, hhalf'.trans hhalf⟩

/-- A half-read key and the records that are left. -/
def load (c : Console σ) (s : σ) : Nat := 2 * (c.queue s).length + (c.half s).toNat

/-- No key-down record stands behind the last one that `_getch` delivers. -/
def Settles (queue : List InputRecord) : Prop := ∀ r ∈ residue queue, r.keyDown = false

instance (queue : List InputRecord) : Decidable (Settles queue) :=
  inferInstanceAs (Decidable (∀ r ∈ residue queue, r.keyDown = false))

theorem residue_append {r : InputRecord} (hr : r.delivered = true) (pre rest : List InputRecord) :
    residue (pre ++ r :: rest) = residue rest := by
  unfold residue
  induction rest using List.reverseRecOn with
  | nil => rw [List.rtakeWhile_concat_neg _ _ _ (by simp [hr]), List.rtakeWhile_nil]
  | append_singleton rest x ih =>
    rw [show pre ++ r :: (rest ++ [x]) = pre ++ r :: rest ++ [x] by simp, List.rtakeWhile_concat,
      List.rtakeWhile_concat, ih]

/-- The first record that `_getch` delivers. -/
theorem exists_key {queue : List InputRecord} (h : ∃ r ∈ queue, r.delivered = true) :
    ∃ r rest, (queue.dropWhile fun r => !r.delivered) = r :: rest ∧ r.delivered = true := by
  have hhead := List.head?_dropWhile_not (fun r : InputRecord => !r.delivered) queue
  cases hrest : queue.dropWhile fun r => !r.delivered with
  | nil =>
    obtain ⟨r, hr, hdelivered⟩ := h
    have hnot := List.dropWhile_eq_nil_iff.mp hrest r hr
    rw [hdelivered] at hnot
    exact absurd hnot Bool.false_ne_true
  | cons r rest =>
    rw [hrest] at hhead
    exact ⟨r, rest, rfl, by simpa using hhead⟩

theorem behindKey_spec {queue : List InputRecord} (h : ∃ r ∈ queue, r.delivered = true) :
    (behindKey queue).length < queue.length ∧ residue (behindKey queue) = residue queue := by
  obtain ⟨r, rest, hrest, hr⟩ := exists_key h
  have hqueue : (queue.takeWhile fun r => !r.delivered) ++ r :: rest = queue := by
    rw [← hrest]
    exact List.takeWhile_append_dropWhile
  have hbehind : behindKey queue = rest := by
    unfold behindKey
    rw [hrest, List.tail_cons]
  rw [hbehind]
  constructor
  · rw [← hqueue, List.length_append, List.length_cons]
    omega
  · rw [← hqueue, residue_append hr]

/-- From `s` to `t` records were removed, but the bare modifiers at the end stand where
they stood. -/
structure Consumes (c : Console σ) (s t : σ) : Prop where
  load : load c t ≤ load c s
  length : (c.queue t).length ≤ (c.queue s).length
  settles : Settles (c.queue t) ↔ Settles (c.queue s)

theorem Consumes.refl (s : σ) : Consumes c s s := ⟨Nat.le_refl _, Nat.le_refl _, Iff.rfl⟩

theorem Consumes.trans {t u : σ} (h : Consumes c s t) (h' : Consumes c t u) : Consumes c s u :=
  ⟨h'.load.trans h.load, h'.length.trans h.length, h'.settles.trans h.settles⟩

/-- **`_getch`**, called for a key, takes a record or the other half of one. -/
theorem getch_consumes (hkbhit : c.kbhit s = true) :
    Consumes c s (c.getch s).2 ∧ load c (c.getch s).2 < load c s ∧
      (c.half s = false → (c.queue (c.getch s).2).length < (c.queue s).length) := by
  cases hhalf : c.half s with
  | true =>
    obtain ⟨hqueue, hread⟩ := c.getch_half s hhalf
    have hload : load c (c.getch s).2 < load c s := by
      unfold load
      rw [hqueue, hread, hhalf, Bool.toNat_true, Bool.toNat_false]
      omega
    refine ⟨⟨hload.le, ?_, ?_⟩, hload, fun h => absurd h.symm Bool.false_ne_true⟩
    · rw [hqueue]
    · rw [hqueue]
  | false =>
    have hkey : ∃ r ∈ c.queue s, r.delivered = true := by
      rcases (c.kbhit_iff s).mp hkbhit with h | h
      · exact absurd (hhalf.symm.trans h) Bool.false_ne_true
      · exact h
    obtain ⟨hlength, hresidue⟩ := behindKey_spec hkey
    have hqueue := c.getch_key s hhalf hkey
    rw [← hqueue] at hlength hresidue
    have hload : load c (c.getch s).2 < load c s := by
      have hbit := (c.half (c.getch s).2).toNat_le
      unfold load
      omega
    refine ⟨⟨hload.le, hlength.le, ?_⟩, hload, fun _ => hlength⟩
    unfold Settles
    rw [hresidue]

/-- Decoding reads at most one more key. -/
theorem decode_consumes (ch : Int) (s : σ) : Consumes c s (decode c ch s).2 := by
  unfold decode
  split
  · exact .refl s
  · split
    · unfold decodeExtended
      by_cases hkbhit : c.kbhit s = false
      · rw [if_pos hkbhit]
        exact .refl s
      · rw [if_neg hkbhit]
        exact (getch_consumes (Bool.eq_true_of_not_eq_false hkbhit)).1
    · exact .refl s

/-- Everything a call with records in the queue can do. -/
theorem readEvent_cases (hqueue : c.queue s ≠ []) :
    (c.kbhit s = true ∧ Consumes c s (readEvent c s).2 ∧ load c (readEvent c s).2 < load c s ∧
      (c.half s = false → (c.queue (readEvent c s).2).length < (c.queue s).length)) ∨
    (c.kbhit s = false ∧ readEvent c s = (none, drainFilteredRecords c s)) := by
  have hsignalled : ¬ c.signalled s = false := by simpa using (c.signalled_iff s).mpr hqueue
  unfold readEvent
  rw [if_neg hsignalled]
  cases hkbhit : c.kbhit s with
  | true =>
    obtain ⟨hgetch, hload, hlength⟩ := getch_consumes hkbhit
    have hdecode := decode_consumes (c := c) (c.getch s).1 (c.getch s).2
    refine .inl ⟨rfl, hgetch.trans hdecode, hdecode.load.trans_lt hload, fun hhalf => ?_⟩
    exact hdecode.length.trans_lt (hlength hhalf)
  | false => exact .inr ⟨rfl, rfl⟩

/-- Without a key for `_getch`, no half of one is waiting and no record carries one. -/
theorem kbhit_eq_false_iff (s : σ) :
    c.kbhit s = false ↔ c.half s = false ∧ ∀ r ∈ c.queue s, r.delivered = false := by
  rw [← Bool.not_eq_true, c.kbhit_iff]
  simp

/-- Draining leaves nothing, or the queue from its first key-down record on. -/
theorem drain_settles (hkeys : ∀ r ∈ c.queue s, r.delivered = false) :
    (Settles (c.queue s) ↔ c.queue (drainFilteredRecords c s) = []) ∧
      (Settles (c.queue (drainFilteredRecords c s)) ↔ Settles (c.queue s)) := by
  have hresidue : ∀ queue : List InputRecord, (∀ r ∈ queue, r.delivered = false) →
      residue queue = queue := fun queue h => List.rtakeWhile_eq_self_iff.mpr (by simpa using h)
  have hempty : Settles (c.queue s) ↔ c.queue (drainFilteredRecords c s) = [] := by
    unfold Settles
    rw [(drainFilteredRecords_spec s).1, hresidue _ hkeys, List.dropWhile_eq_nil_iff]
    simp
  refine ⟨hempty, ?_⟩
  rw [hempty]
  constructor
  · intro hsettles
    by_contra hne
    obtain ⟨r, rest, hcons⟩ := List.exists_cons_of_ne_nil hne
    have hkeys' : ∀ r ∈ c.queue (drainFilteredRecords c s), r.delivered = false := by
      rw [(drainFilteredRecords_spec s).1]
      exact fun r hr => hkeys r ((List.dropWhile_suffix _).subset hr)
    unfold Settles at hsettles
    rw [hresidue _ hkeys', hcons] at hsettles
    -- the head of the drained queue is a key-down record
    have hhead := List.head?_dropWhile_not (fun r : InputRecord => !r.keyDown) (c.queue s)
    rw [← (drainFilteredRecords_spec s).1, hcons] at hhead
    simp [hsettles r List.mem_cons_self] at hhead
  · intro hnil
    rw [hnil]
    exact fun r hr => absurd hr List.not_mem_nil

/-! ## Progress -/

/-- The call delivers an event or removes a record. -/
def Moves (c : Console σ) (s : σ) : Prop :=
  (readEvent c s).1 ≠ none ∨ (c.queue (readEvent c s).2).length < (c.queue s).length

/-- **One call.** -/
theorem readEvent_moves_iff (hhalf : c.half s = false) (hqueue : c.queue s ≠ []) :
    Moves c s ↔
      (∃ r ∈ c.queue s, r.delivered = true) ∨ ∀ r ∈ (c.queue s).head?, r.keyDown = false := by
  unfold Moves
  obtain ⟨hkbhit, -, -, hlength⟩ | ⟨hkbhit, heq⟩ := readEvent_cases hqueue
  · have hkey := ((c.kbhit_iff s).mp hkbhit).resolve_left (by rw [hhalf]; exact Bool.false_ne_true)
    exact iff_of_true (.inr (hlength hhalf)) (.inl hkey)
  · have hkeys := ((kbhit_eq_false_iff s).mp hkbhit).2
    have hnone : ¬ ∃ r ∈ c.queue s, r.delivered = true := by
      rintro ⟨r, hr, hdelivered⟩
      exact Bool.false_ne_true ((hkeys r hr).symm.trans hdelivered)
    rw [heq, (drainFilteredRecords_spec s).1]
    obtain ⟨r, rest, hcons⟩ := List.exists_cons_of_ne_nil hqueue
    rw [hcons] at hnone ⊢
    by_cases hdown : r.keyDown = true
    · -- the drain stops at once
      rw [List.dropWhile_cons_of_neg (by simp [hdown])]
      refine iff_of_false ?_ ?_
      · rintro (hevent | hless)
        · exact hevent rfl
        · exact Nat.lt_irrefl _ hless
      · rintro (hkey | hhead)
        · exact hnone hkey
        · exact Bool.false_ne_true ((hhead r rfl).symm.trans hdown)
    · rw [List.dropWhile_cons_of_pos (by simp [hdown])]
      refine iff_of_true (.inr ?_) (.inr ?_)
      · have hle := (List.dropWhile_suffix (fun r : InputRecord => !r.keyDown) (l := rest)).length_le
        rw [List.length_cons]
        omega
      · rintro r' ⟨⟩
        exact Bool.eq_false_of_not_eq_true hdown

/-- Calls without new input. -/
def calls (c : Console σ) (n : Nat) (s : σ) : σ := (fun s => (readEvent c s).2)^[n] s

theorem readEvent_settles (hqueue : c.queue s ≠ []) :
    Settles (c.queue (readEvent c s).2) ↔ Settles (c.queue s) := by
  obtain ⟨-, hconsumes, -, -⟩ | ⟨hkbhit, heq⟩ := readEvent_cases hqueue
  · exact hconsumes.settles
  · rw [heq]
    exact (drain_settles ((kbhit_eq_false_iff s).mp hkbhit).2).2

theorem readEvent_blocks (hqueue : c.queue s = []) : readEvent c s = (none, s) := by
  have hwait : c.signalled s = false := by
    rw [← Bool.not_eq_true, c.signalled_iff]
    exact fun hne => hne hqueue
  exact if_pos hwait

theorem calls_settles (n : Nat) (s : σ) : Settles (c.queue (calls c n s)) ↔ Settles (c.queue s) := by
  induction n with
  | zero => exact Iff.rfl
  | succ n ih =>
    rw [calls, Function.iterate_succ_apply', ← ih, ← calls]
    by_cases hqueue : c.queue (calls c n s) = []
    · rw [readEvent_blocks hqueue]
    · exact readEvent_settles hqueue

/-- Draining removes every record of a queue without key-down records. -/
theorem calls_empty (hsettles : Settles (c.queue s)) : ∃ n, c.queue (calls c n s) = [] := by
  refine Progress.iterate_eventually (fun s => c.queue s = []) (load c)
    (fun s => Settles (c.queue s)) ?_ ?_ hsettles
  · intro s hs
    by_cases hqueue : c.queue s = []
    · rw [readEvent_blocks hqueue]
      exact hs
    · exact (readEvent_settles hqueue).mpr hs
  · intro s hs
    by_cases hqueue : c.queue s = []
    · exact .inl hqueue
    · refine .inr ?_
      obtain ⟨-, -, hload, -⟩ | ⟨hkbhit, heq⟩ := readEvent_cases hqueue
      · exact hload
      · obtain ⟨hhalf, hkeys⟩ := (kbhit_eq_false_iff s).mp hkbhit
        have hlength := List.length_pos_iff.mpr hqueue
        rw [heq]
        unfold load
        rw [(drain_settles hkeys).1.mp hs, (drainFilteredRecords_spec s).2, hhalf, List.length_nil]
        omega

/-- **When the input path cannot spin.**  A call that finds records, and no half of an
extended key, delivers an event or removes a record exactly when `_getch` delivers one
of the records or the first of them is no key-down record.  And without new input
finitely many calls reach a wait that blocks exactly when no key-down record stands
behind the last one that `_getch` delivers. -/
theorem input_settles_iff (c : Console σ) (s : σ) :
    (c.half s = false → c.queue s ≠ [] → (Moves c s ↔
      (∃ r ∈ c.queue s, r.delivered = true) ∨ ∀ r ∈ (c.queue s).head?, r.keyDown = false)) ∧
    ((∃ n, c.signalled (calls c n s) = false) ↔ Settles (c.queue s)) := by
  refine ⟨readEvent_moves_iff, ?_⟩
  have hblocks : ∀ s, c.signalled s = false ↔ c.queue s = [] := by
    intro s
    rw [← Bool.not_eq_true, c.signalled_iff, not_not]
  constructor
  · rintro ⟨n, hn⟩
    rw [← calls_settles (c := c) n, (hblocks _).mp hn]
    exact fun r hr => absurd hr List.not_mem_nil
  · intro hsettles
    obtain ⟨n, hn⟩ := calls_empty hsettles
    exact ⟨n, (hblocks _).mpr hn⟩

end

/-! ## A console -/

/-- The queue, and the second half of an extended key. -/
structure Runtime where
  queue : List InputRecord
  half : Option UInt8 := none
deriving DecidableEq, Repr

def Runtime.getch (s : Runtime) : Int × Runtime :=
  match s.half with
  | some scan => (scan.toNat, { s with half := none })
  | none =>
    match s.queue.dropWhile fun r => !r.delivered with
    | .key _ (.char ch) :: rest => (ch.toNat, { queue := rest })
    | .key _ (.extended lead scan) :: rest => (lead.toNat, { queue := rest, half := some scan })
    -- `_getch` would block
    | _ => (-1, s)

theorem Runtime.getch_key {s : Runtime} (hhalf : s.half = none)
    (hkey : ∃ r ∈ s.queue, r.delivered = true) : s.getch.2.queue = behindKey s.queue := by
  obtain ⟨r, rest, hrest, hr⟩ := exists_key hkey
  unfold Runtime.getch behindKey
  rw [hhalf, hrest]
  cases r with
  | key bKeyDown key =>
    cases key with
    | char | extended => rfl
    | modifier => exact absurd hr Bool.false_ne_true
  | mouse | bufferSize | menu | focus => exact absurd hr Bool.false_ne_true

/-- The console of the documentation. -/
def runtime : Console Runtime where
  queue s := s.queue
  half s := s.half.isSome
  signalled s := !s.queue.isEmpty
  kbhit s := s.half.isSome || s.queue.any InputRecord.delivered
  getch := Runtime.getch
  peek s := s.queue.head?
  read s :=
    match s.queue with
    | [] => none
    | _ :: rest => some { s with queue := rest }
  signalled_iff s := by simp
  kbhit_iff s := by simp
  getch_half s h := by
    obtain ⟨scan, hscan⟩ := Option.isSome_iff_exists.mp h
    unfold Runtime.getch
    rw [hscan]
    exact ⟨rfl, rfl⟩
  getch_key s h := Runtime.getch_key (by simpa using h)
  peek_eq _ := rfl
  read_none s h := by
    cases hqueue : s.queue with
    | nil => rfl
    | cons r rest => simp [hqueue] at h
  read_some s t h := by
    cases hqueue : s.queue with
    | nil => simp [hqueue] at h
    | cons r rest =>
      simp only [hqueue, Option.some.injEq] at h
      subst h
      exact ⟨⟨r, rfl⟩, rfl⟩

/-- A key between records that `_getch` does not deliver. -/
theorem input_settles_iff_typed :
    Moves runtime { queue := [.focus, .key true (.char 0x61), .key false (.char 0x61)] } ∧
      ∃ n, runtime.signalled
        (calls runtime n { queue := [.focus, .key true (.char 0x61), .key false (.char 0x61)] }) =
          false := by
  obtain ⟨hmoves, hsettles⟩ := input_settles_iff runtime
    { queue := [.focus, .key true (.char 0x61), .key false (.char 0x61)] }
  exact ⟨(hmoves rfl (List.cons_ne_nil _ _)).mpr (.inl (by decide)), hsettles.mpr (by decide)⟩

/-- Shift is pressed and held: every wait returns at once, and nothing is read. -/
theorem shift_spins : ¬ Moves runtime { queue := [.key true .modifier] } ∧
    ∀ n, runtime.signalled (calls runtime n { queue := [.key true .modifier] }) = true := by
  constructor
  · rw [readEvent_moves_iff rfl (List.cons_ne_nil _ _)]
    decide
  · intro n
    rw [runtime.signalled_iff]
    intro hempty
    have hsettles := (calls_settles (c := runtime) n { queue := [.key true .modifier] }).mp
      (by rw [hempty]; decide)
    exact absurd hsettles (by decide)

end Win32Terminal
end Csopesy
