import Csopesy.Cadence

/-! # The frame rate

How many frames a run renders, counted against the clock.  Between two rendered frames lies
a refresh interval unless the marquee was started in between, so a run cannot render more
than its time, and its starts, allow (`frames_bounded`).  While the marquee runs, a tick that
finds the interval over renders, so a worker that ticks every `slack` milliseconds misses a
deadline by no more than that (`frames_keep_up`).

Both need a clock that never goes back; on POSIX `nowMs` is one (`clock_of_nowMs`).
-/
namespace Csopesy

/-! ## The clock -/

namespace PosixTerminal

/-- `struct timespec`. -/
structure Timespec where
  tv_sec : Int
  tv_nsec : Int
deriving DecidableEq, Repr

/-- The reading of `CLOCK_MONOTONIC`, `none` when `clock_gettime` fails. -/
def nowMs : Option Timespec → Int
  | none => 0
  | some ts => ts.tv_sec * 1000 + ts.tv_nsec.tdiv 1000000

namespace Timespec

/-- The nanoseconds of a reading are less than a second. -/
def Normal (ts : Timespec) : Prop := 0 ≤ ts.tv_nsec ∧ ts.tv_nsec < 1000000000

instance : DecidablePred Normal := fun _ => inferInstanceAs (Decidable (_ ∧ _))

/-- The order of the readings of a monotonic clock. -/
def NotAfter (ts ts' : Timespec) : Prop :=
  ts.tv_sec < ts'.tv_sec ∨ ts.tv_sec = ts'.tv_sec ∧ ts.tv_nsec ≤ ts'.tv_nsec

instance : DecidableRel NotAfter := fun _ _ => inferInstanceAs (Decidable (_ ∨ _))

end Timespec

/-- Readings in the order of the clock are in order as milliseconds. -/
theorem nowMs_mono {ts ts' : Timespec} (h : ts.Normal) (h' : ts'.Normal) (hle : ts.NotAfter ts') :
    nowMs (some ts) ≤ nowMs (some ts') := by
  obtain ⟨hnonneg, hlt⟩ := h
  have hnonneg' := h'.1
  unfold Timespec.NotAfter at hle
  unfold nowMs
  dsimp only
  rw [Int.tdiv_eq_ediv_of_nonneg hnonneg, Int.tdiv_eq_ediv_of_nonneg hnonneg']
  omega

end PosixTerminal

namespace Scheduler
variable {s : Scheduler} {ops : List Op}

/-- The clock readings of the ticks of a run. -/
def clockReadings (ops : List Op) : List Int :=
  ops.filterMap fun
    | .tick _ _ now => some now
    | _ => none

open PosixTerminal in
/-- **The clock never goes back** in a run whose ticks read `CLOCK_MONOTONIC` between the first
and the last of these readings. -/
theorem clock_of_nowMs (first final : Timespec) (readings : List Timespec)
    (hnormal : ∀ ts ∈ first :: (readings ++ [final]), ts.Normal)
    (horder : (first :: (readings ++ [final])).Pairwise Timespec.NotAfter)
    (hread : clockReadings ops = readings.map fun ts => nowMs (some ts)) :
    (nowMs (some first) :: (clockReadings ops ++ [nowMs (some final)])).Pairwise (· ≤ ·) := by
  have hmap : nowMs (some first) :: (clockReadings ops ++ [nowMs (some final)]) =
      (first :: (readings ++ [final])).map fun ts => nowMs (some ts) := by
    rw [hread, List.map_cons, List.map_append, List.map_singleton]
  rw [hmap, List.pairwise_map]
  exact horder.imp_of_mem fun hts hts' hle => nowMs_mono (hnormal _ hts) (hnormal _ hts') hle

/-- How often a run starts the marquee. -/
def starts : Scheduler → List Op → Nat
  | _, [] => 0
  | s, op :: ops => (if s.acceptsStart op then 1 else 0) + starts (s.exec op).1 ops

/-- A tick starts nothing. -/
theorem tick_not_acceptsStart (s : Scheduler) (sz : Size) (now : Int) :
    s.acceptsStart (.tick none sz now) = false := by
  have hstate : (s.exec (.tick none sz now)).1.proc.state = s.proc.state := by
    change (s.tick none sz now).1.proc.state = _
    rw [tick_proc]
    split <;> rfl
  unfold acceptsStart
  rw [hstate]
  cases s.proc.state <;> rfl

/-! ## Not too fast -/

/-- Every state of a run has at least this refresh interval. -/
def SlowerThan (m : Int) (s : Scheduler) (ops : List Op) : Prop :=
  ∀ done, done <+: ops → m ≤ (s.run done).params.refreshMs

theorem SlowerThan.head {m : Int} (h : SlowerThan m s ops) : m ≤ s.params.refreshMs :=
  h [] List.nil_prefix

theorem SlowerThan.tail {m : Int} {op : Op} (h : SlowerThan m s (op :: ops)) :
    SlowerThan m (s.exec op).1 ops := fun done hdone =>
  h (op :: done) (List.cons_prefix_cons.mpr ⟨rfl, hdone⟩)

/-- One operation and the rest of a run. -/
theorem starts_cons (s : Scheduler) (op : Op) (ops : List Op) :
    s.starts (op :: ops) = (if s.acceptsStart op then 1 else 0) + (s.exec op).1.starts ops := rfl

/-- What follows an operation is read later. -/
theorem clock_tail {t last : Int} {op : Op} {ops : List Op}
    (h : (t :: (clockReadings (op :: ops) ++ [last])).Pairwise (· ≤ ·)) :
    (t :: (clockReadings ops ++ [last])).Pairwise (· ≤ ·) := by
  refine h.sublist ?_
  cases op with
  | tick ev sz now => exact (List.sublist_cons_self _ _).cons_cons t
  | _ => exact List.Sublist.refl _

/-- **The bound**, from a state with a frame rendered at `t` and from any state: there the
first frame is free, and every start makes one more so. -/
theorem frames_bounded {m t last : Int} (hm : 0 ≤ m) (hops : ∀ op ∈ ops, op.Threaded)
    (hrefresh : SlowerThan m s ops)
    (hclock : (t :: (clockReadings ops ++ [last])).Pairwise (· ≤ ·)) :
    m * ((s.renderTimes ops).length - 1 - s.starts ops) ≤ last - t ∧
      (RenderedAt t s → m * ((s.renderTimes ops).length - s.starts ops) ≤ last - t) := by
  induction ops generalizing s t with
  | nil =>
    have hle : t ≤ last := List.rel_of_pairwise_cons hclock (List.mem_singleton_self _)
    constructor
    · change m * (0 - 1 - 0) ≤ last - t
      omega
    · intro _
      change m * (0 - 0) ≤ last - t
      omega
  | cons op ops ih =>
    have hrest : ∀ o ∈ ops, o.Threaded := fun o ho => hops o (List.mem_cons_of_mem _ ho)
    rcases s.exec_proc (hops op List.mem_cons_self) with ⟨sz, now, rfl, hr, -, -⟩ | ⟨hr, -⟩
    · -- a rendered frame: the clock of the rest starts at its reading
      have hnow : (now :: (clockReadings ops ++ [last])).Pairwise (· ≤ ·) := hclock.tail
      have hle : t ≤ now := List.rel_of_pairwise_cons hclock List.mem_cons_self
      obtain ⟨-, hbound⟩ := ih hrest hrefresh.tail hnow
      have hbound := hbound (renderedAt_of_renders hr)
      rw [renderTimes_cons_of_renders hr, starts_cons, tick_not_acceptsStart, List.length_cons,
        if_neg Bool.false_ne_true, Nat.zero_add]
      generalize ((s.exec (.tick none sz now)).1.renderTimes ops).length = frames at hbound ⊢
      generalize (s.exec (.tick none sz now)).1.starts ops = started at hbound ⊢
      constructor
      · rw [Nat.cast_succ, Int.add_sub_cancel]
        omega
      · intro hrendered
        have hinterval : m ≤ now - t := hrefresh.head.trans (hrendered.interval hr)
        have hone : m * ((frames + 1 : Nat) - started) = m * (frames - started) + m := by
          push_cast
          ring
        rw [hone]
        omega
    · obtain ⟨hfree, hbound⟩ := ih hrest hrefresh.tail (clock_tail hclock)
      rw [renderTimes_cons_of_not_renders hr, starts_cons]
      cases hs : s.acceptsStart op with
      | false =>
        rw [if_neg Bool.false_ne_true, Nat.zero_add]
        exact ⟨hfree, fun hrendered => hbound (hrendered.exec (hops op List.mem_cons_self) hr hs)⟩
      | true =>
        rw [if_pos rfl]
        generalize ((s.exec op).1.renderTimes ops).length = frames at hfree ⊢
        generalize (s.exec op).1.starts ops = started at hfree ⊢
        have hone : m * (frames - (1 + started : Nat)) = m * (frames - 1 - started) := by
          push_cast
          ring
        have hless : m * (frames - 1 - (1 + started : Nat)) = m * (frames - 1 - started) - m := by
          push_cast
          ring
        constructor
        · rw [hless]
          omega
        · intro _
          rw [hone]
          exact hfree

/-- The marquee started by keys, drawn at 1040 and again at 1160 of the monotonic clock. -/
theorem frames_bounded_started :
    let s := (create {}).run startKeys
    let ops : List Op := [.tick none {} 1040, .tick none {} 1090, .tick none {} 1160]
    s.renderTimes ops = [1040, 1160] ∧
      100 * (((s.renderTimes ops).length : Int) - 1 - s.starts ops) ≤ 1200 - 1000 := by
  intro s ops
  refine ⟨by decide, ?_⟩
  have hops : ∀ op ∈ ops, op.Threaded := by decide
  have hall : ∀ done ∈ ops.inits, 100 ≤ (s.run done).params.refreshMs := by decide
  have hrefresh : SlowerThan 100 s ops := fun done hdone =>
    hall done ((List.mem_inits _ _).mpr hdone)
  have hread : clockReadings ops = [⟨1, 40700000⟩, ⟨1, 90000000⟩, ⟨1, 160999999⟩].map
      fun ts => PosixTerminal.nowMs (some ts) := by decide
  have hclock := clock_of_nowMs ⟨1, 0⟩ ⟨1, 200000000⟩ _ (by decide) (by decide) hread
  exact (frames_bounded (by decide) hops hrefresh hclock).1

/-! ## Not too slow -/

/-- The marquee runs in every state of a run, with at most this refresh interval. -/
structure RunsWithin (most : Int) (s : Scheduler) (ops : List Op) : Prop where
  running : ∀ done, done <+: ops → (s.run done).proc.state = .running
  refreshMs : ∀ done, done <+: ops → (s.run done).params.refreshMs ≤ most

theorem RunsWithin.tail {most : Int} {op : Op} (h : RunsWithin most s (op :: ops)) :
    RunsWithin most (s.exec op).1 ops where
  running done hdone := h.running (op :: done) (List.cons_prefix_cons.mpr ⟨rfl, hdone⟩)
  refreshMs done hdone := h.refreshMs (op :: done) (List.cons_prefix_cons.mpr ⟨rfl, hdone⟩)

theorem RunsWithin.not_acceptsStart {most : Int} (h : RunsWithin most s ops) (op : Op) :
    s.acceptsStart op = false := by
  have hrunning : s.proc.state = .running := h.running [] List.nil_prefix
  unfold acceptsStart
  rw [hrunning]
  rfl

/-- A tick that does not render comes before the deadline. -/
theorem RunsWithin.early {most t now : Int} {sz : Size} (h : RunsWithin most s ops)
    (hrendered : RenderedAt t s) (hr : s.renders (.tick none sz now) = false) : now - t ≤ most := by
  have hdue : due s.interp now = false := (tick_rendered s sz now).symm.trans hr
  have hrunning : s.interp.proc.state = .running := h.running [] List.nil_prefix
  have hrefresh : s.interp.params.refreshMs ≤ most := h.refreshMs [] List.nil_prefix
  have hdrawn : s.interp.proc.hasRendered = true := hrendered.hasRendered
  have htime : s.interp.proc.lastRenderMs = t := hrendered.lastRenderMs
  unfold due at hdue
  rw [hrunning, hdrawn, htime] at hdue
  have hbefore : ¬ now - t ≥ s.interp.params.refreshMs := by simpa using hdue
  omega

/-- **No deadline is missed for long.**  While the marquee runs and a tick follows the last
within `slack`, each rendered frame takes at most the refresh interval and `slack`. -/
theorem frames_keep_up {most slack t now : Int} (hmost : 0 ≤ most)
    (hops : ∀ op ∈ ops, op.Threaded) (h : RunsWithin most s ops) (hrendered : RenderedAt t s)
    (hnow : now - t ≤ most)
    (hticks : (now :: clockReadings ops).IsChain fun u v => v ≤ u + slack) :
    (clockReadings ops).getLastD now - t ≤ (most + slack) * (s.renderTimes ops).length + most := by
  induction ops generalizing s t now with
  | nil =>
    change now - t ≤ (most + slack) * 0 + most
    omega
  | cons op ops ih =>
    have hrest : ∀ o ∈ ops, o.Threaded := fun o ho => hops o (List.mem_cons_of_mem _ ho)
    have hop := hops op List.mem_cons_self
    rcases s.exec_proc hop with ⟨sz, next, rfl, hr, -, -⟩ | ⟨hr, -⟩
    · have hchain : (now :: next :: clockReadings ops).IsChain fun u v => v ≤ u + slack := hticks
      obtain ⟨hnext, hchain⟩ := List.isChain_cons_cons.mp hchain
      have hlater := ih hrest h.tail (renderedAt_of_renders hr) (by omega) hchain
      have hlast : (clockReadings (.tick none sz next :: ops)).getLastD now =
          (clockReadings ops).getLastD next := List.getLastD_cons ..
      rw [renderTimes_cons_of_renders hr, hlast, List.length_cons]
      generalize ((s.exec (.tick none sz next)).1.renderTimes ops).length = frames at hlater ⊢
      generalize (clockReadings ops).getLastD next = last at hlater ⊢
      have hone : (most + slack) * (frames + 1 : Nat) =
          (most + slack) * frames + (most + slack) := by
        push_cast
        ring
      rw [hone]
      omega
    · have hkept := hrendered.exec hop hr (h.not_acceptsStart op)
      rw [renderTimes_cons_of_not_renders hr]
      cases op with
      | tick ev sz next =>
        cases ev with
        | some ev => exact hop.elim
        | none =>
          -- the tick came before the deadline
          have hchain : (now :: next :: clockReadings ops).IsChain fun u v => v ≤ u + slack :=
            hticks
          have hlast : (clockReadings (.tick none sz next :: ops)).getLastD now =
              (clockReadings ops).getLastD next := List.getLastD_cons ..
          rw [hlast]
          exact ih hrest h.tail hkept (h.early hrendered hr) (List.isChain_cons_cons.mp hchain).2
      | postEvent | wake | requestStop => exact ih hrest h.tail hkept hnow hticks

/-- Ticks every 50 milliseconds at an interval of 100. -/
theorem frames_keep_up_started :
    let s := ((create {}).run startKeys).run [.tick none {} 40]
    let ops : List Op := [.tick none {} 90, .tick none {} 140, .tick none {} 190]
    190 - 40 ≤ (100 + 50) * ((s.renderTimes ops).length : Int) + 100 := by
  intro s ops
  have hops : ∀ op ∈ ops, op.Threaded := by decide
  have hrunning : ∀ done ∈ ops.inits, (s.run done).proc.state = .running := by decide
  have hall : ∀ done ∈ ops.inits, (s.run done).params.refreshMs ≤ 100 := by decide
  have hruns : RunsWithin 100 s ops :=
    ⟨fun done hdone => hrunning done ((List.mem_inits _ _).mpr hdone),
      fun done hdone => hall done ((List.mem_inits _ _).mpr hdone)⟩
  have hrendered : RenderedAt 40 s := ⟨by decide, by decide⟩
  have hticks : ((40 : Int) :: clockReadings ops).IsChain fun u v => v ≤ u + 50 := by decide
  exact frames_keep_up (by decide) hops hruns hrendered (by decide) hticks

end Scheduler
end Csopesy
