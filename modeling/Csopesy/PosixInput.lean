import Csopesy.LineEditor

/-! # The input path on POSIX

`readByte`, `readEvent` and `decodeEscape` of `src/platform/terminal_posix.cpp`.  What
`poll` and `read` answer to each `readByte` is a parameter; `noGaps` is a stream whose
bytes are all there when they are asked for.

The decoder looks two bytes behind an escape byte and no further.  It therefore
swallows every SS3 sequence and every CSI sequence of three bytes, and types what a
longer one has left: everything from its second parameter byte on
(`readEvents_stream`).  So no escape sequence types into the input line exactly when
none has a parameter or intermediate byte (`never_types_iff`).
-/
namespace Csopesy
namespace PosixTerminal

/-! ## The source -/

/-- What `poll` and `read` answer to one `readByte`. -/
structure Attempt where
  ready : Int
  n : Int
  byte : UInt8
deriving DecidableEq, Repr

/-- `ReadResult`, with the byte that `readByte` stores. -/
inductive ReadResult
  | byte (b : UInt8)
  | timeout
  | eof
deriving DecidableEq, Repr

/-- Once the attempts are used up nothing arrives any more. -/
def readByte : List Attempt → ReadResult × List Attempt
  | [] => (.timeout, [])
  | a :: rest =>
    if a.ready ≤ 0 then (.timeout, rest)
    else if a.n < 0 then (.timeout, rest)
    else if a.n = 0 then (.eof, rest)
    else (.byte a.byte, rest)

/-- The `switch` over the final byte; every other sequence is an Escape. -/
def arrowKey (final : UInt8) : KeyType :=
  if final = 0x41 then .arrowUp
  else if final = 0x42 then .arrowDown
  else if final = 0x43 then .arrowRight
  else if final = 0x44 then .arrowLeft
  else .escape

def decodeEscape (input : List Attempt) : KeyEvent × List Attempt :=
  match readByte input with
  | (.byte seq, input) =>
    if seq = 0x5B ∨ seq = 0x4F then
      match readByte input with
      | (.byte final, input) => ({ type := arrowKey final }, input)
      | (_, input) => ({ type := .escape }, input)
    else ({ type := .escape }, input)
  | (_, input) => ({ type := .escape }, input)

/-- One call; `none` when it returns false. -/
def readEvent (input : List Attempt) : Option KeyEvent × List Attempt :=
  match readByte input with
  | (.timeout, input) => (none, input)
  | (.eof, input) => (some { type := .eof }, input)
  | (.byte b, input) =>
    if b = 0x0D ∨ b = 0x0A then (some { type := .enter }, input)
    else if b = 0x7F ∨ b = 0x08 then (some { type := .backspace }, input)
    else if b = 0x09 then (some { type := .tab }, input)
    else if b = 0x04 ∨ b = 0x03 then (some { type := .eof }, input)
    else if b = 0x1B then
      let (ev, input) := decodeEscape input
      (some ev, input)
    else if 0x20 ≤ b ∧ b ≤ 0x7E then (some { type := .char, ch := b }, input)
    else (none, input)

/-- The events that `n` consecutive calls deliver. -/
def readEvents : Nat → List Attempt → List KeyEvent
  | 0, _ => []
  | n + 1, input => (readEvent input).1.toList ++ readEvents n (readEvent input).2

/-- Every byte is there when it is asked for. -/
def noGaps (bytes : Bytes) : List Attempt := bytes.map fun b => { ready := 1, n := 1, byte := b }

/-! ## What is sent -/

/-- A printable byte, or a sequence that a terminal sends for a key: CSI with its
parameter and intermediate bytes and its final byte, or SS3 and one byte. -/
inductive Keystroke
  | printable (c : UInt8) (h : isPrintableAscii c = true)
  | csi (params : Bytes) (final : UInt8) (hparams : ∀ p ∈ params, 0x20 ≤ p ∧ p ≤ 0x3F)
    (hfinal : 0x40 ≤ final ∧ final ≤ 0x7E)
  | ss3 (b : UInt8)

namespace Keystroke

def bytes : Keystroke → Bytes
  | printable c _ => [c]
  | csi params final _ _ => [0x1B, 0x5B] ++ params ++ [final]
  | ss3 b => [0x1B, 0x4F, b]

/-- What the key types: itself, or nothing. -/
def types : Keystroke → Bytes
  | printable c _ => [c]
  | csi _ _ _ _ | ss3 _ => []

/-- The sequence has no parameter or intermediate byte. -/
def Short : Keystroke → Prop
  | csi params _ _ _ => params = []
  | printable _ _ | ss3 _ => True

/-- What the decoder makes of it. -/
def events : Keystroke → List KeyEvent
  | printable c _ => [.typing c]
  | csi [] final _ _ => [{ type := arrowKey final }]
  | csi (_ :: params) final _ _ => { type := .escape } :: (params ++ [final]).map .typing
  | ss3 b => [{ type := arrowKey b }]

end Keystroke

/-- The bytes that reach the command line as characters. -/
def charsOf (events : List KeyEvent) : Bytes :=
  events.filterMap fun ev => if ev.type = .char then some ev.ch else none

/-! ## Decoding -/

theorem readByte_noGaps (b : UInt8) (bytes : Bytes) :
    readByte (noGaps (b :: bytes)) = (.byte b, noGaps bytes) := rfl

theorem readEvents_nil (n : Nat) : readEvents n [] = [] := by
  induction n with
  | zero => rfl
  | succ n ih => exact ih

theorem readEvent_printable {c : UInt8} (h : isPrintableAscii c = true) (bytes : Bytes) :
    readEvent (noGaps (c :: bytes)) = (some (.typing c), noGaps bytes) := by
  have hrange : 0x20 ≤ c ∧ c ≤ 0x7E := by
    simpa [isPrintableAscii] using h
  have hne : ∀ b : UInt8, isPrintableAscii b = false → c ≠ b := by
    rintro b hb rfl
    exact Bool.false_ne_true (hb.symm.trans h)
  unfold readEvent
  rw [readByte_noGaps]
  dsimp only
  rw [if_neg (by simp [hne 0x0D (by decide), hne 0x0A (by decide)]),
    if_neg (by simp [hne 0x7F (by decide), hne 0x08 (by decide)]), if_neg (hne 0x09 (by decide)),
    if_neg (by simp [hne 0x04 (by decide), hne 0x03 (by decide)]), if_neg (hne 0x1B (by decide)),
    if_pos hrange]
  rfl

/-- Two bytes behind an escape byte are read, and no more. -/
theorem readEvent_escape {seq : UInt8} (hseq : seq = 0x5B ∨ seq = 0x4F) (b : UInt8) (bytes : Bytes) :
    readEvent (noGaps (0x1B :: seq :: b :: bytes)) = (some { type := arrowKey b }, noGaps bytes) := by
  unfold readEvent decodeEscape
  rw [readByte_noGaps]
  dsimp only
  rw [readByte_noGaps]
  dsimp only
  rw [if_pos hseq, readByte_noGaps]
  rfl

theorem readEvents_printable {typed : Bytes} (h : Printable typed) (bytes : Bytes) {n : Nat}
    (hn : typed.length ≤ n) :
    readEvents n (noGaps (typed ++ bytes)) =
      typed.map .typing ++ readEvents (n - typed.length) (noGaps bytes) := by
  induction typed generalizing n with
  | nil => rfl
  | cons c typed ih =>
    obtain ⟨m, rfl⟩ : ∃ m, n = m + 1 := ⟨n - 1, by rw [List.length_cons] at hn; omega⟩
    rw [List.length_cons, Nat.add_le_add_iff_right] at hn
    rw [List.cons_append, readEvents, readEvent_printable (h c List.mem_cons_self),
      ih (fun d hd => h d (List.mem_cons_of_mem _ hd)) hn, List.length_cons, Nat.add_sub_add_right]
    rfl

theorem arrowKey_cases (b : UInt8) : arrowKey b = .arrowUp ∨ arrowKey b = .arrowDown ∨
    arrowKey b = .arrowRight ∨ arrowKey b = .arrowLeft ∨ arrowKey b = .escape := by
  unfold arrowKey
  split
  · exact .inl rfl
  · split
    · exact .inr (.inl rfl)
    · split
      · exact .inr (.inr (.inl rfl))
      · split
        · exact .inr (.inr (.inr (.inl rfl)))
        · exact .inr (.inr (.inr (.inr rfl)))

theorem arrowKey_param {p : UInt8} (h : p ≤ 0x3F) : arrowKey p = .escape := by
  have hne : ∀ b : UInt8, 0x3F < b → p ≠ b := by
    rintro b hb rfl
    exact absurd h (UInt8.not_le.mpr hb)
  unfold arrowKey
  rw [if_neg (hne _ (by decide)), if_neg (hne _ (by decide)), if_neg (hne _ (by decide)),
    if_neg (hne _ (by decide))]

/-- The first call takes three bytes of a sequence. -/
theorem readEvents_escape {seq : UInt8} (hseq : seq = 0x5B ∨ seq = 0x4F) (b : UInt8) (bytes : Bytes)
    {n : Nat} (hn : 1 ≤ n) :
    readEvents n (noGaps (0x1B :: seq :: b :: bytes)) =
      { type := arrowKey b } :: readEvents (n - 1) (noGaps bytes) := by
  obtain ⟨m, rfl⟩ : ∃ m, n = m + 1 := ⟨n - 1, by omega⟩
  rw [readEvents, readEvent_escape hseq]
  rfl

/-- What is left of a sequence when its first parameter byte is gone. -/
theorem remainder_printable {p final : UInt8} {params : Bytes}
    (hparams : ∀ q ∈ p :: params, 0x20 ≤ q ∧ q ≤ 0x3F) (hfinal : 0x40 ≤ final ∧ final ≤ 0x7E) :
    Printable (params ++ [final]) := by
  intro c hc
  rcases List.mem_append.mp hc with hc | hc
  · obtain ⟨hlo, hhi⟩ := hparams c (List.mem_cons_of_mem _ hc)
    simp [isPrintableAscii, hlo, UInt8.le_trans hhi (show (0x3F : UInt8) ≤ 0x7E by decide)]
  · rw [List.mem_singleton.mp hc]
    simp [isPrintableAscii, hfinal.2,
      UInt8.le_trans (show (0x20 : UInt8) ≤ 0x40 by decide) hfinal.1]

/-- **One keystroke**, before any others. -/
theorem readEvents_keystroke (k : Keystroke) (bytes : Bytes) {n : Nat} (hn : k.bytes.length ≤ n) :
    ∃ m, n ≤ m + k.bytes.length ∧
      readEvents n (noGaps (k.bytes ++ bytes)) = k.events ++ readEvents m (noGaps bytes) := by
  cases k with
  | printable c h =>
    exact ⟨n - 1, Nat.le_add_of_sub_le (Nat.le_refl _), readEvents_printable (.singleton h) bytes hn⟩
  | ss3 b =>
    have hthree : 3 ≤ n := hn
    refine ⟨n - 1, ?_, readEvents_escape (.inr rfl) b bytes (by omega)⟩
    show n ≤ n - 1 + 3
    omega
  | csi params final hparams hfinal =>
    have hlength : params.length + 3 ≤ n := by
      have := hn
      simp only [Keystroke.bytes, List.length_append, List.length_cons, List.length_nil] at this
      omega
    cases params with
    | nil =>
      refine ⟨n - 1, ?_, readEvents_escape (.inl rfl) final bytes (by omega)⟩
      show n ≤ n - 1 + 3
      omega
    | cons p params =>
      rw [List.length_cons] at hlength
      have hprintable := remainder_printable hparams hfinal
      refine ⟨n - 1 - (params ++ [final]).length, ?_, ?_⟩
      · simp only [Keystroke.bytes, List.length_append, List.length_cons, List.length_nil]
        omega
      · have hbytes : (Keystroke.csi (p :: params) final hparams hfinal).bytes ++ bytes =
            0x1B :: 0x5B :: p :: (params ++ [final] ++ bytes) := by simp [Keystroke.bytes]
        -- the remainder of the sequence is read as ordinary bytes
        rw [hbytes, readEvents_escape (.inl rfl) p _ (by omega),
          arrowKey_param (hparams p List.mem_cons_self).2,
          readEvents_printable hprintable bytes (by rw [List.length_append, List.length_singleton]; omega)]
        rfl

/-- **A whole stream**, once there were calls enough. -/
theorem readEvents_stream (stream : List Keystroke) {n : Nat}
    (hn : (stream.flatMap Keystroke.bytes).length ≤ n) :
    readEvents n (noGaps (stream.flatMap Keystroke.bytes)) = stream.flatMap Keystroke.events := by
  induction stream generalizing n with
  | nil => exact readEvents_nil n
  | cons k stream ih =>
    rw [List.flatMap_cons, List.length_append] at hn
    obtain ⟨m, hm, heq⟩ := readEvents_keystroke k (stream.flatMap Keystroke.bytes) (n := n) (by omega)
    rw [List.flatMap_cons, heq, ih (by omega), List.flatMap_cons]

/-! ## What is typed -/

theorem charsOf_append (events events' : List KeyEvent) :
    charsOf (events ++ events') = charsOf events ++ charsOf events' := List.filterMap_append

theorem charsOf_typing (bytes : Bytes) : charsOf (bytes.map .typing) = bytes := by
  unfold charsOf
  rw [List.filterMap_map]
  exact List.filterMap_some

theorem charsOf_arrowKey (b : UInt8) : charsOf [{ type := arrowKey b }] = [] := by
  obtain h | h | h | h | h := arrowKey_cases b
  all_goals rw [h]; rfl

/-- A keystroke types what it is meant to, unless it has bytes after the third. -/
theorem charsOf_events (k : Keystroke) :
    (k.Short → charsOf k.events = k.types) ∧
      (¬ k.Short → k.types.length < (charsOf k.events).length) := by
  cases k with
  | printable c h => exact ⟨fun _ => rfl, fun hlong => absurd trivial hlong⟩
  | ss3 b => exact ⟨fun _ => charsOf_arrowKey b, fun hlong => absurd trivial hlong⟩
  | csi params final hparams hfinal =>
    cases params with
    | nil => exact ⟨fun _ => charsOf_arrowKey final, fun hlong => absurd rfl hlong⟩
    | cons p params =>
      refine ⟨fun hshort => absurd hshort (List.cons_ne_nil _ _), fun _ => ?_⟩
      show 0 < (charsOf ([{ type := .escape }] ++ (params ++ [final]).map .typing)).length
      rw [charsOf_append, charsOf_typing, List.length_append, List.length_append, List.length_singleton]
      omega

/-! ## The input line -/

/-- The key at most types a byte that the line keeps. -/
def OnlyTypes (ev : KeyEvent) : Prop :=
  match ev.type with
  | .char => isPrintableAscii ev.ch = true
  | .enter | .backspace | .eof => False
  | _ => True

theorem onlyTypes_typing {c : UInt8} (h : isPrintableAscii c = true) : OnlyTypes (.typing c) := h

theorem onlyTypes_arrowKey (b : UInt8) : OnlyTypes { type := arrowKey b } := by
  obtain h | h | h | h | h := arrowKey_cases b
  all_goals rw [h]; trivial

theorem onlyTypes_events (k : Keystroke) : ∀ ev ∈ k.events, OnlyTypes ev := by
  intro ev hev
  cases k with
  | printable c h =>
    rw [List.mem_singleton.mp hev]
    exact onlyTypes_typing h
  | ss3 b =>
    rw [List.mem_singleton.mp hev]
    exact onlyTypes_arrowKey b
  | csi params final hparams hfinal =>
    cases params with
    | nil =>
      rw [List.mem_singleton.mp hev]
      exact onlyTypes_arrowKey final
    | cons p params =>
      rcases List.mem_cons.mp hev with rfl | hev
      · trivial
      · obtain ⟨c, hc, rfl⟩ := List.mem_map.mp hev
        exact onlyTypes_typing (remainder_printable hparams hfinal c hc)

theorem feed_line {ev : KeyEvent} (h : OnlyTypes ev) (it : Interpreter) :
    (it.feed ev).1.line = it.line ++ charsOf [ev] := by
  obtain ⟨type, ch⟩ := ev
  cases type with
  | char =>
    have hprintable : isPrintableAscii ch = true := h
    unfold Interpreter.feed
    simp [hprintable, charsOf]
  | enter | backspace | eof => exact h.elim
  | none | tab | escape | arrowUp | arrowDown | arrowLeft | arrowRight =>
    exact (List.append_nil it.line).symm

/-- Such keys append to the line what they type. -/
theorem feedAll_line {events : List KeyEvent} (h : ∀ ev ∈ events, OnlyTypes ev)
    (it : Interpreter) : (it.feedAll events).line = it.line ++ charsOf events := by
  induction events generalizing it with
  | nil => exact (List.append_nil it.line).symm
  | cons ev events ih =>
    calc (it.feedAll (ev :: events)).line
        = (it.feed ev).1.line ++ charsOf events :=
          ih (fun e he => h e (List.mem_cons_of_mem _ he)) (it.feed ev).1
      _ = it.line ++ charsOf (ev :: events) := by
          rw [feed_line (h ev List.mem_cons_self), List.append_assoc, ← charsOf_append,
            List.singleton_append]

/-- Reading the stream delivers its printable keystrokes and no other byte as
characters, and appends just these to the input line of any interpreter. -/
def NeverTypes (stream : List Keystroke) : Prop :=
  ∀ n, (stream.flatMap Keystroke.bytes).length ≤ n →
    charsOf (readEvents n (noGaps (stream.flatMap Keystroke.bytes))) =
        stream.flatMap Keystroke.types ∧
      ∀ it : Interpreter,
        (it.feedAll (readEvents n (noGaps (stream.flatMap Keystroke.bytes)))).line =
          it.line ++ stream.flatMap Keystroke.types

theorem charsOf_flatMap (stream : List Keystroke) :
    charsOf (stream.flatMap Keystroke.events) = stream.flatMap fun k => charsOf k.events := by
  induction stream with
  | nil => rfl
  | cons k stream ih =>
    rw [List.flatMap_cons, charsOf_append, ih, List.flatMap_cons]

theorem types_length_le (k : Keystroke) : k.types.length ≤ (charsOf k.events).length := by
  by_cases hshort : k.Short
  · exact Nat.le_of_eq (congrArg List.length ((charsOf_events k).1 hshort).symm)
  · exact Nat.le_of_lt ((charsOf_events k).2 hshort)

theorem flatMap_types_length_le (stream : List Keystroke) :
    (stream.flatMap Keystroke.types).length ≤
      (charsOf (stream.flatMap Keystroke.events)).length := by
  induction stream with
  | nil => exact Nat.le_refl _
  | cons k stream ih =>
    rw [List.flatMap_cons, List.flatMap_cons, charsOf_append, List.length_append, List.length_append]
    exact Nat.add_le_add (types_length_le k) ih

/-- One long sequence is enough to have too many characters. -/
theorem short_of_charsOf {stream : List Keystroke}
    (h : (charsOf (stream.flatMap Keystroke.events)).length ≤
      (stream.flatMap Keystroke.types).length) : ∀ k ∈ stream, k.Short := by
  induction stream with
  | nil => intro k hk; exact absurd hk List.not_mem_nil
  | cons k stream ih =>
    rw [List.flatMap_cons, List.flatMap_cons, charsOf_append, List.length_append, List.length_append] at h
    have htail := flatMap_types_length_le stream
    have hhead := types_length_le k
    intro k' hk'
    rcases List.mem_cons.mp hk' with rfl | hk'
    · by_contra hlong
      have hmore := (charsOf_events k').2 hlong
      omega
    · exact ih (by omega) k' hk'

/-- **What an escape sequence types.**  A stream of printable keys and escape
sequences types its printable keys and nothing else if and only if no CSI sequence in
it has a parameter or intermediate byte. -/
theorem never_types_iff (stream : List Keystroke) :
    NeverTypes stream ↔ ∀ k ∈ stream, k.Short := by
  constructor
  · intro h
    obtain ⟨hchars, -⟩ := h _ (Nat.le_refl _)
    rw [readEvents_stream stream (Nat.le_refl _)] at hchars
    exact short_of_charsOf (Nat.le_of_eq (congrArg List.length hchars))
  · intro hshort n hn
    have hchars : charsOf (stream.flatMap Keystroke.events) = stream.flatMap Keystroke.types := by
      rw [charsOf_flatMap]
      exact List.flatMap_congr fun k hk => (charsOf_events k).1 (hshort k hk)
    rw [readEvents_stream stream hn]
    refine ⟨hchars, fun it => ?_⟩
    rw [feedAll_line _ it, hchars]
    intro ev hev
    obtain ⟨k, _, hk⟩ := List.mem_flatMap.mp hev
    exact onlyTypes_events k ev hk

/-- The Delete key, `ESC [ 3 ~`, types a tilde. -/
theorem delete_types_tilde :
    ¬ NeverTypes [.csi [0x33] 0x7E (fun p hp => by rw [List.mem_singleton.mp hp]; decide)
      (by decide)] := by
  intro h
  exact absurd (h 4 (by decide)).1 (by decide)

end PosixTerminal
end Csopesy
