import Csopesy.InputLoop
import Csopesy.PosixInput
import Csopesy.Win32Input

/-! # Typing is piping

`main` runs the same commands in two ways: `ConsoleApp::run` decodes what a terminal sends
key by key while the marquee runs, and `runPlainLineMode` of `src/app/console_app.cpp` hands
the lines of a pipe to `executeLine`.  A terminal **delivers** a list of keys when each
`readEvent` takes the head of the list or nothing (`Delivers`); both backends do, whatever
the gaps between their bytes and records.  Of a terminal that delivers the keys of printable
lines the application makes the session that plain line mode makes of the lines, whatever
its workers do meanwhile, and a quit leaves the same lines unread (`typing_is_piping`).
-/
namespace Csopesy
open Transition

namespace KeyEvent

/-- Enter arrives as CR from a terminal and stands for the newline of a pipe. -/
def toNewline (b : UInt8) : UInt8 := if b = 0x0D then newline else b

/-- The key that a byte of a printable line, or the line end behind it, makes. -/
def ofByte (b : UInt8) : KeyEvent := if toNewline b = newline then enter else typing b

/-- The byte behind such a key. -/
def byte (ev : KeyEvent) : UInt8 := if ev.type = .enter then newline else ev.ch

theorem byte_ofByte (b : UInt8) : (ofByte b).byte = toNewline b := by
  unfold ofByte
  by_cases hb : toNewline b = newline
  · rw [if_pos hb, hb]
    rfl
  · rw [if_neg hb]
    unfold toNewline at hb ⊢
    by_cases hcr : b = 0x0D
    · exact absurd (if_pos hcr) hb
    · rw [if_neg hcr]
      rfl

theorem ofByte_toNewline (b : UInt8) : ofByte (toNewline b) = ofByte b := by
  by_cases hb : b = 0x0D
  · rw [hb]
    rfl
  · have hsame : toNewline b = b := if_neg hb
    rw [hsame]

theorem lineEnd_of_toNewline {b : UInt8} (h : toNewline b = newline) : b = 0x0D ∨ b = newline := by
  unfold toNewline at h
  by_cases hcr : b = 0x0D
  · exact .inl hcr
  · exact .inr ((if_neg hcr).symm.trans h)

end KeyEvent

namespace Interpreter

theorem typedLines_eq {lines : List Bytes} (hp : ∀ l ∈ lines, Printable l) :
    typedLines lines = (stdinOf lines).map KeyEvent.ofByte := by
  induction lines with
  | nil => rfl
  | cons line lines ih =>
    have hline : line.map KeyEvent.typing = line.map KeyEvent.ofByte := by
      refine List.map_congr_left fun c hc => (if_neg fun hnewline => ?_).symm
      have hprintable := hp line List.mem_cons_self c hc
      unfold KeyEvent.toNewline at hnewline
      by_cases hcr : c = 0x0D
      · rw [hcr] at hprintable
        exact absurd hprintable (by decide)
      · rw [if_neg hcr] at hnewline
        rw [hnewline] at hprintable
        exact absurd hprintable (by decide)
    have hrest := ih fun l hl => hp l (List.mem_cons_of_mem _ hl)
    change line.map KeyEvent.typing ++ [KeyEvent.enter] ++ typedLines lines =
      ((line ++ [newline]) ++ stdinOf lines).map KeyEvent.ofByte
    rw [hrest, hline, List.map_append, List.map_append]
    rfl

theorem bytes_typedLines (lines : List Bytes) :
    (typedLines lines).map KeyEvent.byte = stdinOf lines := by
  induction lines with
  | nil => rfl
  | cons line lines ih =>
    have hline : (line.map KeyEvent.typing).map KeyEvent.byte = line := by
      rw [List.map_map]
      exact List.map_id _
    change (line.map KeyEvent.typing ++ [KeyEvent.enter] ++ typedLines lines).map KeyEvent.byte =
      (line ++ [newline]) ++ stdinOf lines
    rw [List.map_append, List.map_append, hline, ih]
    rfl

/-- Keys behind the one that quits are not read. -/
theorem feedUntilQuit_append {it it' : Interpreter} {keys : List KeyEvent}
    (hstart : it.quit = false) (h : it.feedUntilQuit keys = (it', []))
    (hquit : it'.quit = true) (rest : List KeyEvent) :
    it.feedUntilQuit (keys ++ rest) = (it', rest) := by
  induction keys generalizing it with
  | nil =>
    obtain rfl : it = it' := (Prod.mk.inj h).1
    exact absurd (hstart.symm.trans hquit) Bool.false_ne_true
  | cons key keys ih =>
    rw [feedUntilQuit] at h
    rw [List.cons_append, feedUntilQuit]
    by_cases hkey : (it.feed key).1.quit = true
    · rw [if_pos hkey] at h ⊢
      obtain ⟨rfl, rfl⟩ := Prod.mk.inj h
      rfl
    · rw [if_neg hkey] at h ⊢
      exact ih (Bool.eq_false_of_not_eq_true hkey) h

/-- A byte of printable lines, or of their line ends. -/
theorem typed_of_mem {lines : List Bytes} (hp : ∀ l ∈ lines, Printable l) {bytes : Bytes}
    (hbytes : bytes.map KeyEvent.toNewline = stdinOf lines) {b : UInt8} (hb : b ∈ bytes) :
    isPrintableAscii b = true ∨ KeyEvent.toNewline b = newline := by
  have hmem : KeyEvent.toNewline b ∈ stdinOf lines := by
    rw [← hbytes]
    exact List.mem_map_of_mem hb
  obtain ⟨line, hline, hmem⟩ := List.mem_flatMap.mp hmem
  rcases List.mem_append.mp hmem with hmem | hmem
  · have hprintable := hp line hline _ hmem
    unfold KeyEvent.toNewline at hprintable
    by_cases hcr : b = 0x0D
    · rw [if_pos hcr] at hprintable
      exact absurd hprintable (by decide)
    · rw [if_neg hcr] at hprintable
      exact .inl hprintable
  · exact .inr (List.mem_singleton.mp hmem)

theorem typedLines_of_bytes {lines : List Bytes} (hp : ∀ l ∈ lines, Printable l) {bytes : Bytes}
    (hbytes : bytes.map KeyEvent.toNewline = stdinOf lines) :
    bytes.map KeyEvent.ofByte = typedLines lines := by
  rw [typedLines_eq hp, ← hbytes, List.map_map]
  exact List.map_congr_left fun b _ => (KeyEvent.ofByte_toNewline b).symm

theorem bytes_of_typedLines {lines : List Bytes} {bytes : Bytes}
    (hkeys : bytes.map KeyEvent.ofByte = typedLines lines) :
    bytes.map KeyEvent.toNewline = stdinOf lines := by
  rw [← bytes_typedLines, ← hkeys, List.map_map]
  exact List.map_congr_left fun b _ => (KeyEvent.byte_ofByte b).symm

end Interpreter

namespace Application
variable {τ : Type} {readEvent : τ → Option KeyEvent × τ} {params : Parameters} {term : τ}

/-! ## A terminal that delivers keys -/

/-- From the states of `P` on, each call takes the next of the keys that are left, or
none. -/
structure Delivers (readEvent : τ → Option KeyEvent × τ) (P : τ → Prop)
    (keys : τ → List KeyEvent) : Prop where
  kept : ∀ {t ev t'}, P t → readEvent t = (ev, t') → P t'
  reads : ∀ {t ev t'}, P t → readEvent t = (ev, t') → keys t = ev.toList ++ keys t'

/-- **What was read** stands before what is left. -/
theorem Delivers.keysRead {P : τ → Prop} {keys : τ → List KeyEvent} (h : Delivers readEvent P keys)
    (hterm : P term) {x y : Application τ} {labels : List Event}
    (hx : (system readEvent params term).init x)
    (hrun : (system readEvent params term).Run x labels y) :
    P y.term ∧ keysRead labels ++ keys y.term = keys term := by
  refine LTS.Run.preserves_labels
    (I := fun labels y => P y.term ∧ Application.keysRead labels ++ keys y.term = keys term) ?_ []
    hrun (.init hx) ?_
  · rintro labels x e y - ⟨hP, hkeys⟩ hstep
    have hread : ∀ {ev t}, readEvent x.term = (ev, t) →
        P t ∧ Application.keysRead (labels ++ [.read ev]) ++ keys t = keys term := by
      intro ev t hread
      refine ⟨h.kept hP hread, ?_⟩
      rw [keysRead_append, ← hkeys, h.reads hP hread, ← List.append_assoc]
      cases ev <;> rfl
    cases hstep with
    | event hloop h hcall => exact hread h
    | noEvent hloop h => exact hread h
    | input | worker | quit | noQuit | poll | clear | signal =>
      refine ⟨hP, ?_⟩
      rw [keysRead_append]
      exact (congrArg (· ++ keys x.term) (List.append_nil _)).trans hkeys
  · obtain rfl : x = _ := hx
    exact ⟨hterm, rfl⟩

/-- **Typing is piping.**  Once a quit was requested, or all keys are read and fed, the
session is the one of plain line mode, and the keys that are left are those of the lines it
left unread. -/
theorem typing_is_piping {P : τ → Prop} {keys : τ → List KeyEvent} (h : Delivers readEvent P keys)
    (hterm : P term) {lines : List Bytes} (hp : ∀ l ∈ lines, Printable l)
    (hkeys : keys term = Interpreter.typedLines lines) {x y : Application τ} {labels : List Event}
    (hx : (system readEvent params term).init x)
    (hrun : (system readEvent params term).Run x labels y)
    (hdone : y.app.sched.interp.quit = true ∨ keys y.term = [] ∧ unfed y.app.input = []) :
    let plain := Interpreter.runPlainLineMode params (Interpreter.stdinOf lines)
    y.app.sched.interp.params = plain.1.params ∧ y.app.sched.interp.line = [] ∧
      y.app.sched.interp.message = plain.1.message ∧ y.app.sched.interp.quit = plain.1.quit ∧
      y.app.sched.proc.state = plain.1.proc.state ∧
      keys y.term = Interpreter.typedLines plain.2.1 := by
  obtain ⟨-, hleft⟩ := h.keysRead hterm hx hrun
  obtain ⟨fed, it, hfed, hloop, hit⟩ := follows hx hrun
  have hparams := congrArg Interpreter.params hit
  have hprompt := congrArg Interpreter.line hit
  have hmessage := congrArg Interpreter.message hit
  have hquit := congrArg Interpreter.quit hit
  have hproc := congrArg (fun it : Interpreter => it.proc.state) hit
  have hsession : Interpreter.feedUntilQuit { params := params } (Interpreter.typedLines lines) =
      (it, keys y.term) := by
    rw [← hkeys, ← hleft, hfed]
    rcases hdone with hleft | ⟨hnone, hunfed⟩
    · rw [(quit_seen params term y (hrun.reachable (.init hx)) hleft).2, List.append_nil]
      exact Interpreter.feedUntilQuit_append rfl hloop (hquit.trans hleft) _
    · rw [hnone, hunfed, List.append_nil, List.append_nil]
      exact hloop
  have hlines : getLines (Interpreter.stdinOf lines) = lines :=
    getLines_terminated fun l hl => (hp l hl).newline_notMem
  have hplain := Interpreter.feedUntilQuit_typedLines Interpreter.prompt
    (show ({ params := params } : Interpreter).line = [] from rfl) rfl hp
  obtain ⟨hstate, hunread⟩ := Prod.mk.inj (hsession.symm.trans hplain)
  have hline : it.line = [] := by
    rw [hstate]
    exact Interpreter.plainLoop_line_nil _ rfl lines
  unfold Interpreter.runPlainLineMode
  dsimp only
  rw [hlines, ← hstate]
  exact ⟨hparams.symm, hprompt.symm.trans hline, hmessage.symm, hquit.symm, hproc.symm, hunread⟩

/-! ## A run that reads on -/

/-- Without a quit and a signal the loop goes round. -/
theorem round_run {x : Application τ} (hloop : x.loop = .testing)
    (hquit : x.app.sched.interp.quit = false) (hflag : x.flag = {}) :
    (system readEvent params term).Run x [.test false, .flag .read, .flag .clear]
      { x with loop := .reading } := by
  obtain ⟨app, loop, flag, term⟩ := x
  obtain rfl : loop = .testing := hloop
  obtain rfl : flag = {} := hflag
  exact .cons (.noQuit rfl hquit) <| .cons (.poll rfl rfl) <| .cons (.clear rfl rfl rfl) (.nil _)

variable (params term) in
/-- From the head of the loop any number of calls can be made, up to a quit. -/
theorem reading_run (n : Nat) {x : Application τ} (hloop : x.loop = .reading)
    (hinput : x.app.input = .ready .looping) (hmu : x.app.mu = none) (hflag : x.flag = {}) :
    ∃ labels y, (system readEvent params term).Run x labels y ∧
      (y.app.sched.interp.quit = true ∨
        y.term = (fun t => (readEvent t).2)^[n] x.term ∧ unfed y.app.input = []) := by
  induction n generalizing x with
  | zero => exact ⟨[], x, .nil _, .inr ⟨rfl, by rw [hinput]; rfl⟩⟩
  | succ n ih =>
    have htested : ∃ labels y, (system readEvent params term).Run x labels y ∧
        y.loop = .testing ∧ y.app.input = .ready .looping ∧ y.app.mu = none ∧ y.flag = {} ∧
        y.term = (readEvent x.term).2 := by
      cases hread : readEvent x.term with
      | mk ev t =>
        cases ev with
        | none => exact ⟨_, _, .cons (.noEvent hloop hread) (.nil _), rfl, hinput, hmu, hflag, rfl⟩
        | some ev =>
          obtain ⟨y, hpost, hloop', hinput', hmu', -, hflag', hterm', -, -⟩ :=
            posting_run params term hloop hinput hmu hread
          exact ⟨_, y, hpost, hloop', hinput', hmu', hflag'.trans hflag, hterm'⟩
    obtain ⟨labels, y, hrun, hloop', hinput', hmu', hflag', hterm'⟩ := htested
    cases hquit : y.app.sched.interp.quit with
    | true => exact ⟨labels, y, hrun, .inl hquit⟩
    | false =>
      obtain ⟨labels', z, hrun', hz⟩ :=
        ih (x := { y with loop := .reading }) rfl hinput' hmu' hflag'
      refine ⟨_, z, (hrun.append (round_run hloop' hquit hflag')).append hrun', ?_⟩
      rw [Function.iterate_succ_apply, ← hterm']
      exact hz

end Application

namespace PosixTerminal

/-- What `readByte` returns for the attempt. -/
def Attempt.result (a : Attempt) : ReadResult := (readByte [a]).1

/-- The key of the attempt on its own. -/
def Attempt.key (a : Attempt) : Option KeyEvent := (readEvent [a]).1

def ReadResult.byte? : ReadResult → Option UInt8
  | byte b => some b
  | timeout | eof => none

/-- The bytes that arrive, with the gaps between them left out. -/
def received (input : List Attempt) : Bytes := input.filterMap fun a => a.result.byte?

theorem readByte_cons (a : Attempt) (rest : List Attempt) :
    readByte (a :: rest) = (a.result, rest) := by
  unfold Attempt.result readByte
  dsimp only
  split_ifs <;> rfl

/-- **A byte other than Escape is decoded alone**, whatever follows it and when. -/
theorem readEvent_alone {a : Attempt} (h : a.result ≠ .byte 0x1B) (rest : List Attempt) :
    readEvent (a :: rest) = (a.key, rest) := by
  unfold Attempt.key readEvent
  rw [readByte_cons, readByte_cons]
  cases hresult : a.result with
  | timeout | eof => rfl
  | byte b =>
    have hb : b ≠ 0x1B := fun hb => h (hresult.trans (congrArg ReadResult.byte hb))
    dsimp only
    rw [if_neg hb]
    split_ifs <;> rfl

theorem key_timeout {a : Attempt} (h : a.result = .timeout) : a.key = none := by
  unfold Attempt.key readEvent
  rw [readByte_cons, h]

theorem key_byte {a : Attempt} {b : UInt8} (h : a.result = .byte b)
    (hb : isPrintableAscii b = true ∨ KeyEvent.toNewline b = newline) :
    a.key = some (.ofByte b) := by
  have hsame : a.key = (readEvent (noGaps [b])).1 := by
    unfold Attempt.key readEvent
    rw [readByte_cons, h]
    rfl
  by_cases hnewline : KeyEvent.toNewline b = newline
  · rcases KeyEvent.lineEnd_of_toNewline hnewline with rfl | rfl
    · exact hsame
    · exact hsame
  · have hprintable := hb.resolve_right hnewline
    rw [hsame, readEvent_printable hprintable]
    exact congrArg some (if_neg hnewline).symm

/-- Nothing but timeouts, bytes of printable lines and their line ends. -/
def Typed (input : List Attempt) : Prop :=
  ∀ a ∈ input, a.result = .timeout ∨
    ∃ b, a.result = .byte b ∧ (isPrintableAscii b = true ∨ KeyEvent.toNewline b = newline)

theorem typed_of_received {input : List Attempt}
    (hbytes : ∀ b ∈ received input, isPrintableAscii b = true ∨ KeyEvent.toNewline b = newline)
    (heof : ∀ a ∈ input, a.result ≠ .eof) : Typed input := by
  intro a ha
  cases hresult : a.result with
  | timeout => exact .inl rfl
  | eof => exact absurd hresult (heof a ha)
  | byte b =>
    refine .inr ⟨b, rfl, hbytes b (List.mem_filterMap.mpr ⟨a, ha, ?_⟩)⟩
    rw [hresult]
    rfl

theorem received_cons (a : Attempt) (rest : List Attempt) :
    received (a :: rest) = a.result.byte?.toList ++ received rest := by
  unfold received
  rw [List.filterMap_cons]
  cases a.result <;> rfl

/-- **The keys of printable lines**, with any gaps between their bytes. -/
theorem delivers : Application.Delivers readEvent Typed
    (fun input => (received input).map KeyEvent.ofByte) := by
  have hread : ∀ {a : Attempt} {rest : List Attempt}, Typed (a :: rest) →
      readEvent (a :: rest) = (a.key, rest) ∧ a.key = a.result.byte?.map KeyEvent.ofByte := by
    intro a rest htyped
    rcases htyped a List.mem_cons_self with hresult | ⟨b, hresult, hb⟩
    · refine ⟨readEvent_alone (by rw [hresult]; exact ReadResult.noConfusion) rest, ?_⟩
      rw [key_timeout hresult, hresult]
      rfl
    · refine ⟨readEvent_alone ?_ rest, ?_⟩
      · rw [hresult]
        intro hesc
        rw [ReadResult.byte.inj hesc] at hb
        exact absurd hb (by decide)
      · rw [key_byte hresult hb, hresult]
        rfl
  constructor
  · intro t ev t' htyped heq
    cases t with
    | nil =>
      obtain ⟨-, rfl⟩ := Prod.mk.inj heq
      exact htyped
    | cons a rest =>
      rw [(hread htyped).1] at heq
      obtain ⟨-, rfl⟩ := Prod.mk.inj heq
      exact fun c hc => htyped c (List.mem_cons_of_mem _ hc)
  · intro t ev t' htyped heq
    cases t with
    | nil =>
      obtain ⟨rfl, rfl⟩ := Prod.mk.inj heq
      rfl
    | cons a rest =>
      rw [(hread htyped).1, (hread htyped).2] at heq
      obtain ⟨rfl, rfl⟩ := Prod.mk.inj heq
      rw [received_cons, List.map_append]
      cases a.result.byte? <;> rfl

end PosixTerminal

namespace Application
open PosixTerminal
variable {params : Parameters} {input : List Attempt}

/-- **On POSIX.**  Printable lines arrive in any pieces, each ended by CR or LF. -/
theorem posix_typing_is_piping {lines : List Bytes} (hp : ∀ l ∈ lines, Printable l)
    (hbytes : (received input).map KeyEvent.toNewline = Interpreter.stdinOf lines)
    (heof : ∀ a ∈ input, a.result ≠ .eof) {x y : Application (List Attempt)} {labels : List Event}
    (hx : (system readEvent params input).init x)
    (hrun : (system readEvent params input).Run x labels y)
    (hdone : y.app.sched.interp.quit = true ∨ received y.term = [] ∧ unfed y.app.input = []) :
    let plain := Interpreter.runPlainLineMode params (Interpreter.stdinOf lines)
    y.app.sched.interp.params = plain.1.params ∧ y.app.sched.interp.line = [] ∧
      y.app.sched.interp.message = plain.1.message ∧ y.app.sched.interp.quit = plain.1.quit ∧
      y.app.sched.proc.state = plain.1.proc.state ∧
      (received y.term).map KeyEvent.toNewline = Interpreter.stdinOf plain.2.1 := by
  have htyped : Typed input :=
    typed_of_received (fun b hb => Interpreter.typed_of_mem hp hbytes hb) heof
  have hdone' : y.app.sched.interp.quit = true ∨
      (received y.term).map KeyEvent.ofByte = [] ∧ unfed y.app.input = [] :=
    hdone.imp_right fun ⟨hnone, hunfed⟩ => ⟨by rw [hnone]; rfl, hunfed⟩
  obtain ⟨hparams, hline, hmessage, hquit, hproc, hunread⟩ := typing_is_piping delivers htyped hp
    (Interpreter.typedLines_of_bytes hp hbytes) hx hrun hdone'
  exact ⟨hparams, hline, hmessage, hquit, hproc, Interpreter.bytes_of_typedLines hunread⟩

/-- Two lines are typed, and the second quits. -/
theorem posix_typing_is_piping_exit :
    ∃ labels y, (system readEvent {} (noGaps (ascii "set_text HI\rexit\rhelp\r"))).Run
        { app := { sched := Scheduler.create {} },
          term := noGaps (ascii "set_text HI\rexit\rhelp\r") } labels y ∧
      y.app.sched.interp.params.text = ascii "HI" ∧ y.app.sched.interp.quit = true ∧
      (received y.term).map KeyEvent.toNewline = ascii "help\n" := by
  obtain ⟨x, hopen, hloop, hinput, hmu, -, hflag, hterm, -, -⟩ :=
    opening_run readEvent {} (noGaps (ascii "set_text HI\rexit\rhelp\r"))
      ⟨{}, Size.default_visible⟩
  obtain ⟨labels, y, hread, hdone⟩ := reading_run _ _ 22 hloop hinput hmu hflag
  have hrun := hopen.append hread
  rw [hterm] at hdone
  obtain ⟨hparams, -, -, hquit, -, hterm⟩ := posix_typing_is_piping
    (show ∀ l ∈ [ascii "set_text HI", ascii "exit", ascii "help"], Printable l by decide)
    (by decide) (by decide) rfl hrun
    (hdone.imp_right fun ⟨hread, hunfed⟩ => ⟨by rw [hread]; decide, hunfed⟩)
  exact ⟨_, y, hrun, hparams ▸ (by decide), hquit.trans (by decide), hterm.trans (by decide)⟩

end Application

namespace Win32Terminal

/-- The byte of a character key that is pressed. -/
def InputRecord.char? : InputRecord → Option UInt8
  | .key true (.char b) => some b
  | .key _ _ | .mouse | .bufferSize | .menu | .focus => none

theorem InputRecord.eq_of_char? {r : InputRecord} {b : UInt8} (h : r.char? = some b) :
    r = .key true (.char b) := by
  rcases r with ⟨_ | _, ch | ⟨lead, scan⟩ | _⟩ | _ | _ | _ | _ <;>
    first
      | exact congrArg (fun ch => InputRecord.key true (.char ch)) (Option.some.inj h)
      | exact absurd h (by simp [char?])

/-- The bytes of the keys pressed. -/
def typedBytes (queue : List InputRecord) : Bytes := queue.filterMap InputRecord.char?

/-- What the documentation says about new records, and about the value of `_getch`. -/
structure Keyboard {σ : Type} (c : Console σ) where
  push : σ → List InputRecord → σ
  queue_push : ∀ s records, c.queue (push s records) = c.queue s ++ records
  half_push : ∀ s records, c.half (push s records) = c.half s
  getch_char : ∀ s b rest, c.half s = false →
    (c.queue s).dropWhile (fun r => !r.delivered) = .key true (.char b) :: rest →
    (c.getch s).1 = b.toNat ∧ c.half (c.getch s).2 = false

variable {σ : Type} {c : Console σ}

/-- `readEvent` on a console to which records come before each call. -/
def Keyboard.readEvent (k : Keyboard c) (t : σ × List (List InputRecord)) :
    Option KeyEvent × (σ × List (List InputRecord)) :=
  match t.2 with
  | [] =>
    let (ev, s) := Win32Terminal.readEvent c t.1
    (ev, (s, []))
  | records :: later =>
    let (ev, s) := Win32Terminal.readEvent c (k.push t.1 records)
    (ev, (s, later))

/-- Every key pressed is a byte of a printable line or its line end. -/
def TypedKeys (queue : List InputRecord) : Prop := ∀ r ∈ queue, r.delivered = true →
  ∃ b, r = .key true (.char b) ∧ (isPrintableAscii b = true ∨ KeyEvent.toNewline b = newline)

theorem typedBytes_append (queue queue' : List InputRecord) :
    typedBytes (queue ++ queue') = typedBytes queue ++ typedBytes queue' := List.filterMap_append

theorem typedBytes_undelivered {queue : List InputRecord} (h : ∀ r ∈ queue, r.delivered = false) :
    typedBytes queue = [] := by
  refine List.filterMap_eq_nil_iff.mpr fun r hr => ?_
  have hnot := h r hr
  rcases r with ⟨_ | _, b | ⟨lead, scan⟩ | _⟩ | _ | _ | _ | _ <;>
    first
      | rfl
      | exact absurd hnot (by simp [InputRecord.delivered])

theorem plainKey_byte {b : UInt8}
    (hb : isPrintableAscii b = true ∨ KeyEvent.toNewline b = newline) :
    plainKey b.toNat = some (.ofByte b) := by
  by_cases hnewline : KeyEvent.toNewline b = newline
  · rcases KeyEvent.lineEnd_of_toNewline hnewline with rfl | rfl <;> rfl
  · have hrange := hb.resolve_right hnewline
    simp only [isPrintableAscii, Bool.and_eq_true, decide_eq_true_eq,
      UInt8.le_iff_toNat_le] at hrange
    have hlo : 32 ≤ b.toNat := hrange.1
    have hhi : b.toNat ≤ 126 := hrange.2
    have hback : UInt8.ofNat (b.toNat : Int).toNat = b := by
      rw [Int.toNat_natCast]
      exact UInt8.ofNat_toNat
    unfold plainKey
    rw [if_neg (by omega), if_neg (by omega), if_neg (by omega), if_neg (by omega),
      if_neg (by omega), if_pos (by omega), hback]
    exact congrArg some (if_neg hnewline).symm

theorem decode_byte {b : UInt8}
    (hb : isPrintableAscii b = true ∨ KeyEvent.toNewline b = newline) (s : σ) :
    decode c b.toNat s = (some (.ofByte b), s) := by
  have hlead : ¬ ((b.toNat : Int) = 0 ∨ (b.toNat : Int) = 224) := by
    intro hlead
    have hvalue : b = 0 ∨ b = 224 := hlead.imp (fun h => UInt8.toNat_inj.mp (by
      change b.toNat = 0
      omega)) (fun h => UInt8.toNat_inj.mp (by
      change b.toNat = 224
      omega))
    rcases hvalue with rfl | rfl <;> exact absurd hb (by decide)
  unfold decode
  rw [if_neg (by omega), if_neg hlead, plainKey_byte hb]

/-- **One call** takes the first key pressed, or none. -/
theorem readEvent_typed (k : Keyboard c) {s s' : σ} {ev : Option KeyEvent}
    (hhalf : c.half s = false) (htyped : TypedKeys (c.queue s)) (heq : readEvent c s = (ev, s')) :
    c.half s' = false ∧ TypedKeys (c.queue s') ∧
      (typedBytes (c.queue s)).map KeyEvent.ofByte =
        ev.toList ++ (typedBytes (c.queue s')).map KeyEvent.ofByte := by
  unfold readEvent at heq
  by_cases hsignalled : c.signalled s = false
  · rw [if_pos hsignalled] at heq
    obtain ⟨rfl, rfl⟩ := Prod.mk.inj heq
    exact ⟨hhalf, htyped, rfl⟩
  rw [if_neg hsignalled] at heq
  by_cases hkbhit : c.kbhit s = false
  · rw [if_pos hkbhit] at heq
    obtain ⟨rfl, rfl⟩ := Prod.mk.inj heq
    obtain ⟨hqueue, hkept⟩ := drainFilteredRecords_spec (c := c) s
    have hnone := ((kbhit_eq_false_iff s).mp hkbhit).2
    have hsub : c.queue (drainFilteredRecords c s) ⊆ c.queue s := by
      rw [hqueue]
      exact (List.dropWhile_suffix _).subset
    refine ⟨hkept.trans hhalf, fun r hr => htyped r (hsub hr), ?_⟩
    rw [typedBytes_undelivered hnone, typedBytes_undelivered fun r hr => hnone r (hsub hr)]
    rfl
  · rw [if_neg hkbhit] at heq
    have hkey := ((c.kbhit_iff s).mp (Bool.eq_true_of_not_eq_false hkbhit)).resolve_left
      (by rw [hhalf]; exact Bool.false_ne_true)
    obtain ⟨r, rest, hrest, hr⟩ := exists_key hkey
    have hsplit : (c.queue s).takeWhile (fun r => !r.delivered) ++ r :: rest = c.queue s := by
      rw [← hrest]
      exact List.takeWhile_append_dropWhile
    have hmem : r ∈ c.queue s := by
      rw [← hsplit]
      exact List.mem_append_right _ List.mem_cons_self
    obtain ⟨b, rfl, hb⟩ := htyped r hmem hr
    obtain ⟨hvalue, hkept⟩ := k.getch_char s b rest hhalf hrest
    have hqueue : c.queue (c.getch s).2 = rest := by
      rw [c.getch_key s hhalf hkey]
      unfold behindKey
      rw [hrest, List.tail_cons]
    have hbefore : typedBytes ((c.queue s).takeWhile fun r => !r.delivered) = [] := by
      refine typedBytes_undelivered fun r hr => ?_
      have := List.mem_takeWhile_imp hr
      simpa using this
    change decode c (c.getch s).1 (c.getch s).2 = (ev, s') at heq
    rw [hvalue, decode_byte hb] at heq
    obtain ⟨rfl, rfl⟩ := Prod.mk.inj heq
    refine ⟨hkept, fun r hr => htyped r ?_, ?_⟩
    · rw [hqueue] at hr
      rw [← hsplit]
      exact List.mem_append_right _ (List.mem_cons_of_mem _ hr)
    · rw [← hsplit, typedBytes_append, hbefore, hqueue]
      rfl

/-- The same before records that are still to come. -/
theorem readEvent_typed_append (k : Keyboard c) {s s' : σ} {ev : Option KeyEvent}
    {rest : List InputRecord} (hhalf : c.half s = false) (htyped : TypedKeys (c.queue s ++ rest))
    (heq : readEvent c s = (ev, s')) :
    (c.half s' = false ∧ TypedKeys (c.queue s' ++ rest)) ∧
      (typedBytes (c.queue s ++ rest)).map KeyEvent.ofByte =
        ev.toList ++ (typedBytes (c.queue s' ++ rest)).map KeyEvent.ofByte := by
  obtain ⟨hhalf', htyped', hbytes⟩ := readEvent_typed k hhalf
    (fun r hr => htyped r (List.mem_append_left _ hr)) heq
  refine ⟨⟨hhalf', fun r hr => ?_⟩, ?_⟩
  · rcases List.mem_append.mp hr with hr | hr
    · exact htyped' r hr
    · exact htyped r (List.mem_append_right _ hr)
  · rw [typedBytes_append, typedBytes_append, List.map_append, List.map_append, hbytes,
      List.append_assoc]

/-- **The keys of printable lines**, whatever other records come between them. -/
theorem delivers (k : Keyboard c) : Application.Delivers k.readEvent
    (fun t => c.half t.1 = false ∧ TypedKeys (c.queue t.1 ++ t.2.flatten))
    (fun t => (typedBytes (c.queue t.1 ++ t.2.flatten)).map KeyEvent.ofByte) := by
  have hcall : ∀ {t t' : σ × List (List InputRecord)} {ev : Option KeyEvent},
      c.half t.1 = false ∧ TypedKeys (c.queue t.1 ++ t.2.flatten) → k.readEvent t = (ev, t') →
      (c.half t'.1 = false ∧ TypedKeys (c.queue t'.1 ++ t'.2.flatten)) ∧
        (typedBytes (c.queue t.1 ++ t.2.flatten)).map KeyEvent.ofByte =
          ev.toList ++ (typedBytes (c.queue t'.1 ++ t'.2.flatten)).map KeyEvent.ofByte := by
    rintro ⟨s, batches⟩ t' ev ⟨hhalf, htyped⟩ heq
    cases batches with
    | nil =>
      obtain ⟨rfl, rfl⟩ := Prod.mk.inj heq
      exact readEvent_typed_append k hhalf htyped rfl
    | cons records later =>
      obtain ⟨rfl, rfl⟩ := Prod.mk.inj heq
      have hpushed : c.queue s ++ (records :: later).flatten =
          c.queue (k.push s records) ++ later.flatten := by
        rw [k.queue_push, List.flatten_cons, List.append_assoc]
      rw [hpushed] at htyped ⊢
      exact readEvent_typed_append k ((k.half_push s records).trans hhalf) htyped rfl
  exact ⟨fun ht heq => (hcall ht heq).1, fun ht heq => (hcall ht heq).2⟩

/-- The keyboard of the documented console. -/
def Runtime.keyboard : Keyboard runtime where
  push s records := { s with queue := s.queue ++ records }
  queue_push _ _ := rfl
  half_push _ _ := rfl
  getch_char s b rest hhalf hrest := by
    have hnone : s.half = none := by
      cases h : s.half with
      | none => rfl
      | some scan =>
        change s.half.isSome = false at hhalf
        rw [h] at hhalf
        exact absurd hhalf Bool.false_ne_true.symm
    change s.queue.dropWhile (fun r => !r.delivered) = _ at hrest
    change (Runtime.getch s).1 = b.toNat ∧ (Runtime.getch s).2.half.isSome = false
    unfold Runtime.getch
    rw [hnone, hrest]
    exact ⟨rfl, rfl⟩

end Win32Terminal

namespace Application
open Win32Terminal
variable {params : Parameters} {σ : Type} {c : Console σ}

/-- **On Windows.**  The keys of printable lines are pressed and released, among any other
records, each line ended by CR or LF. -/
theorem win32_typing_is_piping (k : Keyboard c) {s : σ} {batches : List (List InputRecord)}
    (hhalf : c.half s = false)
    (hkeys : ∀ r ∈ c.queue s ++ batches.flatten, r.delivered = true → r.char? ≠ none)
    {lines : List Bytes} (hp : ∀ l ∈ lines, Printable l)
    (hbytes : (typedBytes (c.queue s ++ batches.flatten)).map KeyEvent.toNewline =
      Interpreter.stdinOf lines)
    {x y : Application (σ × List (List InputRecord))} {labels : List Event}
    (hx : (system k.readEvent params (s, batches)).init x)
    (hrun : (system k.readEvent params (s, batches)).Run x labels y)
    (hdone : y.app.sched.interp.quit = true ∨
      typedBytes (c.queue y.term.1 ++ y.term.2.flatten) = [] ∧ unfed y.app.input = []) :
    let plain := Interpreter.runPlainLineMode params (Interpreter.stdinOf lines)
    y.app.sched.interp.params = plain.1.params ∧ y.app.sched.interp.line = [] ∧
      y.app.sched.interp.message = plain.1.message ∧ y.app.sched.interp.quit = plain.1.quit ∧
      y.app.sched.proc.state = plain.1.proc.state ∧
      (typedBytes (c.queue y.term.1 ++ y.term.2.flatten)).map KeyEvent.toNewline =
        Interpreter.stdinOf plain.2.1 := by
  have htyped : TypedKeys (c.queue s ++ batches.flatten) := by
    intro r hr hdelivered
    obtain ⟨b, hchar⟩ := Option.ne_none_iff_exists'.mp (hkeys r hr hdelivered)
    have hmem : b ∈ typedBytes (c.queue s ++ batches.flatten) :=
      List.mem_filterMap.mpr ⟨r, hr, hchar⟩
    exact ⟨b, InputRecord.eq_of_char? hchar, Interpreter.typed_of_mem hp hbytes hmem⟩
  have hdone' : y.app.sched.interp.quit = true ∨
      (typedBytes (c.queue y.term.1 ++ y.term.2.flatten)).map KeyEvent.ofByte = [] ∧
        unfed y.app.input = [] :=
    hdone.imp_right fun ⟨hnone, hunfed⟩ => ⟨by rw [hnone]; rfl, hunfed⟩
  obtain ⟨hparams, hline, hmessage, hquit, hproc, hunread⟩ :=
    typing_is_piping (Win32Terminal.delivers k) ⟨hhalf, htyped⟩ hp
      (Interpreter.typedLines_of_bytes hp hbytes) hx hrun hdone'
  exact ⟨hparams, hline, hmessage, hquit, hproc, Interpreter.bytes_of_typedLines hunread⟩

/-- A line is typed while the session runs, and quits it. -/
theorem win32_typing_is_piping_exit :
    ∃ labels y, (system Runtime.keyboard.readEvent {} ({ queue := [] },
        [[.focus, .key true (.char 0x65), .key false (.char 0x65), .key true (.char 0x78)], [],
          [.key true (.char 0x69), .key true (.char 0x74), .key true (.char 0x0D)]])).Run
        { app := { sched := Scheduler.create {} },
          term := ({ queue := [] }, [[.focus, .key true (.char 0x65), .key false (.char 0x65),
            .key true (.char 0x78)], [],
            [.key true (.char 0x69), .key true (.char 0x74), .key true (.char 0x0D)]]) } labels y ∧
      y.app.sched.interp.quit = true := by
  obtain ⟨x, hopen, hloop, hinput, hmu, -, hflag, hterm, -, -⟩ :=
    opening_run Runtime.keyboard.readEvent {} ({ queue := [] },
      [[.focus, .key true (.char 0x65), .key false (.char 0x65), .key true (.char 0x78)], [],
        [.key true (.char 0x69), .key true (.char 0x74), .key true (.char 0x0D)]])
      ⟨{}, Size.default_visible⟩
  obtain ⟨labels, y, hread, hdone⟩ := reading_run _ _ 5 hloop hinput hmu hflag
  have hrun := hopen.append hread
  rw [hterm] at hdone
  obtain ⟨-, -, -, hquit, -, -⟩ := win32_typing_is_piping Runtime.keyboard rfl (by decide)
    (show ∀ l ∈ [ascii "exit"], Printable l by decide) (by decide) rfl hrun
    (hdone.imp_right fun ⟨hread, hunfed⟩ => ⟨by rw [hread]; decide, hunfed⟩)
  exact ⟨_, y, hrun, hquit.trans (by decide)⟩

end Application
end Csopesy
