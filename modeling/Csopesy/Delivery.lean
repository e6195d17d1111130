import Csopesy.Display
import Csopesy.Win32Write

/-! # Frames that arrive in part

A write that fails is dropped: `Terminal::write` returns, and the terminal has received the
beginning of a frame, possibly cut inside a row or an escape sequence.  Every frame begins
with ESC and replaces the whole screen, so the first frame that arrives whole shows as if all
had (`paint_anywhere`); and no part of a frame scrolls a screen of its size (`torn_top`).
-/
namespace Csopesy

/-! ## A call of `Terminal::write` -/

/-- A call with the answers it has got so far, on either system. -/
inductive Sent (bytes : Bytes)
  | posix (results : Nat → PosixTerminal.WriteResult) (calls : Nat)
    (fits : ∀ i, ¬ (PosixTerminal.writing bytes results i).Ended →
      (PosixTerminal.writing bytes results i).Fits (results i))
  | win32 (outValid : Bool) (results : Nat → Win32Terminal.WriteFileResult) (calls : Nat)
    (fits : ∀ i, ¬ (Win32Terminal.writing outValid bytes results i).Ended →
      Win32Terminal.Fits (Win32Terminal.writing outValid bytes results i) (results i))

namespace Sent
variable {bytes : Bytes}

def loop : Sent bytes → PosixTerminal.WriteLoop
  | posix results calls _ => PosixTerminal.writing bytes results calls
  | win32 outValid results calls _ => Win32Terminal.writing outValid bytes results calls

def received (x : Sent bytes) : Bytes := x.loop.received

/-- Nothing is left. -/
def Whole (x : Sent bytes) : Prop := x.loop.left = 0

theorem received_start (x : Sent bytes) : x.received <+: bytes := by
  cases x with
  | posix results calls fits =>
    change (PosixTerminal.writing bytes results calls).received <+: bytes
    rw [(PosixTerminal.writing_consistent fits calls).received]
    exact List.take_prefix _ _
  | win32 outValid results calls fits => exact (Win32Terminal.writing_start fits calls).1

theorem Whole.received_eq {x : Sent bytes} (h : x.Whole) : x.received = bytes := by
  cases x with
  | posix results calls fits => exact (PosixTerminal.writing_consistent fits calls).complete h
  | win32 outValid results calls fits =>
    cases outValid with
    | false =>
      change (Win32Terminal.writing false bytes results calls).left = 0 at h
      change (Win32Terminal.writing false bytes results calls).received = bytes
      rw [Win32Terminal.writing_invalid] at h ⊢
      exact (List.length_eq_zero_iff.mp h).symm
    | true =>
      have hposix := Win32Terminal.fits_posix fits rfl
      change (Win32Terminal.writing true bytes results calls).left = 0 at h
      change (Win32Terminal.writing true bytes results calls).received = bytes
      rw [Win32Terminal.writing_eq] at h ⊢
      exact (PosixTerminal.writing_consistent hposix calls).complete h

/-- One call that takes everything. -/
def atOnce (bytes : Bytes) : Sent bytes :=
  .posix (fun _ => .count bytes.length) 1 fun i hrunning => by
    cases i with
    | zero => exact ⟨Nat.one_le_iff_ne_zero.mpr (not_or.mp hrunning).2, Nat.le_refl _⟩
    | succ i =>
      have hfirst : (PosixTerminal.writing bytes (fun _ => .count bytes.length) 1).Ended := by
        rw [PosixTerminal.writing]
        by_cases hended : (PosixTerminal.writing bytes (fun _ => .count bytes.length) 0).Ended
        · rw [PosixTerminal.WriteLoop.pass_of_ended hended]
          exact hended
        · refine .inr ?_
          unfold PosixTerminal.WriteLoop.pass
          rw [if_neg hended]
          exact Nat.sub_self _
      refine absurd ?_ hrunning
      rw [PosixTerminal.writing_of_ended hfirst (Nat.succ_le_succ (Nat.zero_le i))]
      exact hfirst

theorem atOnce_whole (bytes : Bytes) : (atOnce bytes).Whole := by
  change (PosixTerminal.writing bytes (fun _ => .count bytes.length) 1).left = 0
  rw [PosixTerminal.writing]
  by_cases hended : (PosixTerminal.writing bytes (fun _ => .count bytes.length) 0).Ended
  · rw [PosixTerminal.WriteLoop.pass_of_ended hended]
    exact hended.resolve_left Bool.false_ne_true
  · unfold PosixTerminal.WriteLoop.pass
    rw [if_neg hended]
    exact Nat.sub_self _

/-- One byte is taken, then `write` fails. -/
def torn (bytes : Bytes) : Sent bytes :=
  .posix (fun i => if i = 0 then .count 1 else .failed) 2 fun i hrunning => by
    cases i with
    | zero => exact ⟨Nat.le_refl 1, Nat.one_le_iff_ne_zero.mpr (not_or.mp hrunning).2⟩
    | succ i => trivial

theorem torn_loop (b c : UInt8) (rest : Bytes) : (torn (b :: c :: rest)).loop =
    { p := 1, left := rest.length + 1, received := [b], returned := true } := rfl

end Sent

/-! ## Parts of frames on the screen -/

section
variable {sz : VisibleSize} {frame cut : Bytes} {s : Vt.Screen sz.1.rows.toNat sz.1.cols.toNat}

/-- Every frame begins with a control sequence. -/
theorem FrameFor.esc (h : FrameFor sz frame) : ∃ rest, frame = Vt.esc :: 0x5b :: rest := by
  obtain ⟨it, -, rfl⟩ := h
  unfold Scheduler.frameOf
  rw [Renderer.buildFrame_eq _ _ _ _ _ sz.2.1 sz.2.2, Renderer.picture_eq]
  exact ⟨_, rfl⟩

/-- **Painting anywhere**, also in the middle of an escape sequence. -/
theorem paint_anywhere {it : Interpreter} (h : PrintableSession it)
    (s : Vt.Screen sz.1.rows.toNat sz.1.cols.toNat) :
    Displays it sz.1 (s.feedAll (Scheduler.frameOf it sz.1)) ∧
      (s.feedAll (Scheduler.frameOf it sz.1)).top = s.top := by
  have hframe : FrameFor sz (Scheduler.frameOf it sz.1) := ⟨it, h, rfl⟩
  obtain ⟨rest, hrest⟩ := hframe.esc
  have hpaint := paint h sz.2 (s := { s with sequence := .ground }) rfl
  rw [hrest] at hpaint ⊢
  exact hpaint

theorem torn_top (h : FrameFor sz frame) (hcut : cut <+: frame) : (s.feedAll cut).top = s.top := by
  obtain ⟨it, hit, rfl⟩ := h
  exact Vt.Screen.feedAll_top_of_start hcut (paint_anywhere hit s).2

/-- Parts of frames for the size of the screen never scroll it. -/
theorem torn_all {frames cuts : List Bytes} (hcuts : List.Forall₂ (· <+: ·) cuts frames)
    (h : ∀ f ∈ frames, FrameFor sz f) : (s.feedAll cuts.flatten).top = s.top := by
  induction hcuts generalizing s with
  | nil => rfl
  | @cons cut frame cuts frames hcut hcuts ih =>
    rw [List.flatten_cons, Vt.Screen.feedAll_append]
    exact (ih fun f hf => h f (List.mem_cons_of_mem _ hf)).trans
      (torn_top (h frame List.mem_cons_self) hcut)

/-- **The last frame stands** when it arrives whole, whatever arrived of the others. -/
theorem whole_last {cuts : List Bytes} {last : Bytes} (h : FrameFor sz last)
    (s : Vt.Screen sz.1.rows.toNat sz.1.cols.toNat) :
    ∃ it, PrintableSession it ∧ last = Scheduler.frameOf it sz.1 ∧
      Displays it sz.1 (s.feedAll (cuts ++ [last]).flatten) := by
  obtain ⟨it, hit, rfl⟩ := h
  rw [List.flatten_append, Vt.Screen.feedAll_append, List.flatten_singleton]
  exact ⟨it, hit, rfl, (paint_anywhere hit _).1⟩

end

namespace ConsoleApp
variable {a b : ConsoleApp}

/-- What the terminal has received of the writes. -/
def received (sent : List ((w : Write) × Sent w.bytes)) : Bytes :=
  (sent.map fun x => x.2.received).flatten

theorem received_pairwise (sent : List ((w : Write) × Sent w.bytes)) :
    List.Forall₂ (· <+: ·) (sent.map fun x => x.2.received)
      ((sent.map Sigma.fst).map Write.bytes) := by
  induction sent with
  | nil => exact .nil
  | cons x sent ih => exact .cons x.2.received_start ih

/-- **The screen recovers.**  At constant size, whatever the system answered to the writes
and wherever it cut them, nothing has scrolled before the goodbye line; and once the last
frame has arrived whole, the screen shows it. -/
theorem screen_recovers (args : List Bytes) (configPath : Bytes) (content : Option Bytes)
    (sz : VisibleSize) {labels : List Act}
    (ha : (system (Cli.parseCli args configPath content).params).init a)
    (hrun : (system (Cli.parseCli args configPath content).params).Run a labels b)
    (hsizes : ∀ sz' ∈ labels.filterMap sizeRead, sz' = sz)
    (hdrawn : b.input.drawn = true) (hopen : b.input.ended = false)
    (sent : List ((w : Write) × Sent w.bytes)) (hsent : sent.map Sigma.fst = b.writes)
    (s : Vt.Screen sz.1.rows.toNat sz.1.cols.toNat) :
    (s.feedAll (received sent)).top = s.top ∧
    ∀ x, sent.getLast? = some x → x.2.Whole → ∃ it, PrintableSession it ∧
      lastFrame b.writes = some (Scheduler.frameOf it sz.1) ∧
      Displays it sz.1 (s.feedAll (received sent)) := by
  have hsize := atSize args configPath content ha hrun hsizes
  have hwrites := (writesInOrder _ b (hrun.reachable (.init ha))).during hdrawn hopen
  obtain ⟨-, hframes⟩ := hwrites.frames hsize (List.Subset.refl _)
  have hprefixes := received_pairwise sent
  rw [hsent] at hprefixes
  refine ⟨torn_all hprefixes hframes, ?_⟩
  intro x hx hwhole
  obtain ⟨before, rfl⟩ := List.getLast?_eq_some_iff.mp hx
  have hlast : lastFrame b.writes = some x.1.bytes := by
    rw [hwrites.lastFrame_eq, ← hsent, List.getLast?_map, List.getLast?_map, List.getLast?_concat]
    rfl
  have hmem : x.1.bytes ∈ b.writes.map Write.bytes := by
    rw [← hsent]
    exact List.mem_map_of_mem (List.mem_map_of_mem (List.mem_append_right _ List.mem_cons_self))
  obtain ⟨it, hit, heq, hshows⟩ := whole_last (hframes _ hmem) s
  refine ⟨it, hit, hlast.trans (congrArg some heq), ?_⟩
  unfold received
  rw [List.map_append, List.map_singleton, hwhole.received_eq]
  exact hshows

/-- A key is posted behind the first frame, and the worker draws it. -/
theorem redrawn_run (params : Parameters) (ev : KeyEvent) :
    ∃ b, (system params).Run { sched := Scheduler.create params }
        [.input (.draw ⟨{}, Size.default_visible⟩), .input .paint, .input .painted, .input .start,
          .input (.call (.postEvent ev)), .input .lock, .input (.update (.postEvent ev)),
          .input .unlock, .input (.notify (.postEvent ev)),
          .worker 0 .lock, .worker 0 .enter, .worker 0 .test, .worker 0 .leave,
          .worker 0 (.size ⟨{}, Size.default_visible⟩), .worker 0 .lock,
          .worker 0 (.tick ⟨{}, Size.default_visible⟩ 0), .worker 0 .unlock, .worker 0 .write] b ∧
      b.input = .ready .looping ∧
      b.writes = [⟨.input, Scheduler.frameOf (Scheduler.create params).interp {}⟩,
        ⟨.worker 0, Scheduler.frameOf ((Scheduler.create params).postEvent ev).interp {}⟩] := by
  obtain ⟨a, hopened, hinput, hmu, hsched, -, htop, hfirst⟩ :=
    opened_run params ⟨{}, Size.default_visible⟩
  obtain ⟨b, hposted, hready, hfree, hsched', hnotified, hsame⟩ := posted_run hinput hmu ev
  have htop' : b.workers 0 = .top := (hnotified 0).trans (congrArg WorkerPc.notified htop)
  rw [hsched] at hsched'
  obtain ⟨c, hround, hticking, hkept, hinput', hsame'⟩ := ticking_run htop' hfree
    (by rw [hsched']; rfl) (by rw [hsched']; rfl) ⟨{}, Size.default_visible⟩
  rw [hsched'] at hkept
  obtain ⟨d, hwritten, -, -, hinput'', -, hsecond⟩ := written_run hticking (by rw [hkept]; rfl) 0
  refine ⟨d, ((hopened.append hposted).append hround).append hwritten,
    hinput''.trans (hinput'.trans hready), ?_⟩
  rw [hsecond, hsame', hsame, hfirst, hkept]
  rfl

/-- Of the first frame only ESC arrives, the second one arrives whole. -/
theorem screen_recovers_torn :
    ∃ (labels : List Act) (b : ConsoleApp) (first second : Write) (it : Interpreter),
      (system (Cli.parseCli [] [] none).params).Run
        { sched := Scheduler.create (Cli.parseCli [] [] none).params } labels b ∧
      b.writes = [first, second] ∧ (Sent.torn first.bytes).received = [Vt.esc] ∧
      ¬ (Sent.torn first.bytes).Whole ∧ lastFrame b.writes = some (Scheduler.frameOf it {}) ∧
      Displays it {} ((Vt.Screen.clear 24 80 (by decide) (by decide)).feedAll
        (received [⟨first, .torn first.bytes⟩, ⟨second, .atOnce second.bytes⟩])) := by
  obtain ⟨b, hrun, hinput, hwrites⟩ :=
    redrawn_run (Cli.parseCli [] [] none).params (.mk .char 0x61)
  generalize hfirst : Scheduler.frameOf (Scheduler.create (Cli.parseCli [] [] none).params).interp
    {} = first at hwrites
  generalize Scheduler.frameOf (Scheduler.postEvent _ _).interp {} = second at hwrites
  have hframe : FrameFor ⟨{}, Size.default_visible⟩ first :=
    ⟨_, Scheduler.create_printable [] [] none, hfirst.symm⟩
  obtain ⟨rest, rfl⟩ := hframe.esc
  obtain ⟨-, hlast⟩ := screen_recovers [] [] none ⟨{}, Size.default_visible⟩ rfl hrun (by decide)
    (by rw [hinput]; rfl) (by rw [hinput]; rfl)
    [⟨⟨.input, _⟩, .torn _⟩, ⟨⟨.worker 0, second⟩, .atOnce second⟩] hwrites.symm
    (Vt.Screen.clear 24 80 (by decide) (by decide))
  obtain ⟨it, -, hit, hshows⟩ := hlast _ rfl (Sent.atOnce_whole _)
  refine ⟨_, b, _, _, it, hrun, hwrites, ?_, ?_, hit, hshows⟩
  · unfold Sent.received
    rw [Sent.torn_loop]
  · unfold Sent.Whole
    rw [Sent.torn_loop]
    exact Nat.succ_ne_zero _

end ConsoleApp
end Csopesy
