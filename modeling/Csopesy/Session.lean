import Csopesy.Cli
import Csopesy.FrameGeometry
import Csopesy.Scheduler

/-! # Every frame of every session

A session starts with the parameters `parseCli` returns, a stopped process and an
empty interpreter.  Key events carry arbitrary bytes, yet the input line and the
text stay printable and the message stays printable text with line feeds between
its lines (`PrintableSession`): `feed` keeps printable bytes only, `setText`
checks its argument, and every response echoes at most the command, the text or
a number.  Every operation keeps this, and with the geometry of the frame builder
every string a tick writes is a well-formed frame (`every_frame_wellFormed`).
-/
namespace Csopesy
open Renderer

/-! ## Displayable text -/

namespace Displayable
variable {s t : Bytes}

theorem append (hs : Displayable s) (ht : Displayable t) : Displayable (s ++ t) := fun c hc =>
  (List.mem_append.mp hc).elim (hs c) (ht c)

/-- Text between two fixed parts of a response. -/
theorem between {pre post : Bytes} (hpre : Printable pre) (hs : Printable s)
    (hpost : Printable post) : Displayable (pre ++ s ++ post) :=
  ((hpre.append hs).append hpost).displayable

end Displayable

theorem cmdOf_printable {line : Bytes} (h : Printable line) : Printable (cmdOf line) := by
  unfold cmdOf
  split
  · exact h
  · exact h.take _

/-! ## The session invariant -/

/-- What the frame builder needs of the interpreter. -/
structure PrintableSession (it : Interpreter) : Prop where
  params : PrintableParams it.params
  line : Printable it.line
  message : Displayable it.message

namespace Interpreter

/-- The response to a printable command is displayable. -/
theorem runCommand_displayable {it : Interpreter} {cmd : Bytes} (hcmd : Printable cmd)
    (arg : Bytes) : Displayable (it.runCommand cmd arg).1.message := by
  unfold runCommand
  cases lookup cmd with
  | help => exact (by decide +kernel : Displayable kHelp)
  | start =>
    dsimp only [respond_fst]
    split <;> decide
  | stop =>
    dsimp only [respond_fst]
    split <;> decide
  | setText =>
    dsimp only
    split
    · exact (by decide : Displayable (ascii "Usage: set_text <text>"))
    · split
      · rename_i params hset
        have htext : Printable params.text := by
          rcases it.params.setText_cases arg with ⟨-, hne⟩ | ⟨t, -, -, ht, h⟩
          · exact absurd (by rw [hset]) hne
          · rw [hset] at h
            obtain ⟨rfl, -⟩ := Prod.mk.inj h
            exact ht
        exact .between (by decide) htext (by decide)
      · exact (by decide :
          Displayable (ascii "set_text: only printable ASCII characters are supported."))
      · exact (by decide : Displayable (ascii "Usage: set_text <text>"))
  | setSpeed =>
    dsimp only
    split
    · exact (by decide : Displayable (ascii "Usage: set_speed <milliseconds>"))
    · split
      · exact (by decide : Displayable (ascii "Usage: set_speed <milliseconds>"))
      · dsimp only [respond_fst]
        split
        · exact (Displayable.between (by decide) (printable_intToString _) (by decide)).append
            (printable_intToString _).displayable |>.append (by decide)
        · exact .between (by decide) (printable_intToString _) (by decide)
  | exit => exact (by decide : Displayable (ascii "Exiting CSOPESY. Goodbye!"))
  | unknown => exact .between (by decide) hcmd (by decide)

/-- The response to a printable line is displayable. -/
theorem executeLine_displayable {it : Interpreter} {raw : Bytes} (h : Printable raw) :
    Displayable (it.executeLine raw).1.message := by
  have hcmd : Printable (cmdOf (trim raw)) := cmdOf_printable (h.trimWith _ _)
  unfold executeLine
  dsimp only
  split
  · exact Printable.nil.displayable
  · split
    · exact (Printable.append (by decide) hcmd).displayable
    · exact runCommand_displayable hcmd _

theorem Outcome.params_printable {it it' : Interpreter} (h : Outcome it it')
    (hp : PrintableParams it.params) : PrintableParams it'.params := by
  cases h with
  | text m t hne ht => exact ⟨ht, hp.developers, hp.versionDate⟩
  | refresh m ms hlo hhi => exact ⟨hp.text, hp.developers, hp.versionDate⟩
  | message | start | stop | quit => exact hp

theorem submit_printable {it : Interpreter} (h : PrintableSession it) :
    PrintableSession it.submit := by
  refine ⟨it.submit_outcome.params_printable h.params, ?_, ?_⟩
  · rw [submit_line]
    exact .nil
  · rw [submit_eq]
    exact executeLine_displayable h.line

theorem KeyOutcome.printable {it it' : Interpreter} (hkey : KeyOutcome it it')
    (h : PrintableSession it) : PrintableSession it' := by
  have hsubmit := submit_printable h
  cases hkey with
  | ignored => exact h
  | typed c hc => exact ⟨h.params, h.line.append (.singleton hc), h.message⟩
  | erased => exact ⟨h.params, h.line.dropLast, h.message⟩
  | submitted => exact hsubmit
  | ended => exact ⟨hsubmit.params, hsubmit.line, hsubmit.message⟩

/-- **One key.**  Whatever byte it carries, the session stays printable. -/
theorem feed_printable {it : Interpreter} (h : PrintableSession it) (ev : KeyEvent) :
    PrintableSession (it.feed ev).1 := (it.feed_outcome ev).printable h

end Interpreter

namespace Scheduler

theorem markRendered_printable {it : Interpreter} (h : PrintableSession it) (now : Int) :
    PrintableSession (markRendered it now) := ⟨h.params, h.line, h.message⟩

/-- **Step lemma.**  Every operation keeps the session printable. -/
theorem exec_printable (s : Scheduler) (op : Op) (h : PrintableSession s.interp) :
    PrintableSession (s.exec op).1.interp :=
  exec_preserves (I := PrintableSession) (fun _ ev h => Interpreter.feed_printable h ev)
    (fun _ now h => markRendered_printable h now) h op

theorem run_printable {s : Scheduler} (h : PrintableSession s.interp) (ops : List Op) :
    PrintableSession (s.run ops).interp :=
  run_preserves (I := fun s => PrintableSession s.interp) (p := fun _ => True)
    (fun s op _ hs => exec_printable s op hs) (fun _ _ => trivial) h

/-- The frame of a printable session is well formed at every visible size. -/
theorem frameOf_wellFormed {it : Interpreter} (h : PrintableSession it) {sz : Size}
    (hsz : sz.Visible) : WellFormedFrame (frameOf it sz) sz.rows sz.cols :=
  buildFrame_wellFormed h.params it.proc (by decide) h.line h.message hsz.1 hsz.2

theorem tick_wellFormed {s : Scheduler} (h : PrintableSession s.interp) {sz : Size}
    (hsz : sz.Visible) (now : Int) :
    ∀ f ∈ (s.tick none sz now).2.2, WellFormedFrame f sz.rows sz.cols := by
  intro f hf
  rw [tick_written] at hf
  split at hf
  · rw [List.mem_singleton.mp hf]
    exact frameOf_wellFormed h hsz
  · exact absurd hf List.not_mem_nil

/-- The session `main` starts is printable, whatever the options and the
configuration file say. -/
theorem create_printable (args : List Bytes) (configPath : Bytes) (content : Option Bytes) :
    PrintableSession (create (Cli.parseCli args configPath content).params).interp := by
  obtain ⟨htext, hdev, hdate⟩ := Cli.parseCli_texts args configPath content
  refine ⟨⟨?_, ?_, ?_⟩, .nil, Printable.nil.displayable⟩
  · rw [create, htext]
    decide
  · rw [create, hdev]
    decide
  · rw [create, hdate]
    decide

/-- **Every frame of every session is well formed.**  After any operations with
any key events, clock readings and sizes, a tick at a visible size writes frames
of that size whose segments are printable. -/
theorem every_frame_wellFormed (args : List Bytes) (configPath : Bytes) (content : Option Bytes)
    (ops : List Op) (ev : Option KeyEvent) {sz : Size} (hsz : sz.Visible) (now : Int) :
    ∀ f ∈ (((create (Cli.parseCli args configPath content).params).run ops).tick ev sz now).2.2,
      WellFormedFrame f sz.rows sz.cols := by
  have h := run_printable (create_printable args configPath content) ops
  cases ev with
  | none => exact tick_wellFormed h hsz now
  | some ev =>
    rw [tick_event]
    exact tick_wellFormed (s := Scheduler.postEvent _ ev) (Interpreter.feed_printable h ev) hsz now

/-- A typed escape byte is dropped; the echo of the next key is one well-formed
frame. -/
theorem every_frame_wellFormed_escape :
    let s := (create (Cli.parseCli [ascii "--poll-ms=5"] (ascii "config.txt") none).params).run
      [.postEvent (.mk .char 0x1B), .postEvent (.mk .char 0x41)]
    (s.tick none { rows := 3, cols := 12 } 7).2.2.length = 1 ∧
      ∀ f ∈ (s.tick none { rows := 3, cols := 12 } 7).2.2, WellFormedFrame f 3 12 :=
  ⟨by decide, every_frame_wellFormed [ascii "--poll-ms=5"] (ascii "config.txt") none
    [.postEvent (.mk .char 0x1B), .postEvent (.mk .char 0x41)] none (by decide) 7⟩

end Scheduler
end Csopesy
