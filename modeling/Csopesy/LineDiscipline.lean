import Mathlib.Tactic

/-! # Line disciplines

A line discipline turns a stream of keys into lines: an editing key changes the
line collected so far, and a submitting key hands that line to a session and
starts an empty one.  It can be run **on line**, key by key (`run`), or **off
line**: cut the keys after each submitting key, collect the line of each segment,
then execute the lines (`reference`).  The two agree on every key sequence
(`run_eq_reference`).

When every byte has a key that appends it, typing lines is executing them
(`run_typed`), also when the run stops at the first line after which the session
is done (`runUntil_typed`).
-/
namespace LineDiscipline

structure Discipline (κ β σ : Type*) where
  /-- The key hands the collected line to the session. -/
  submits : κ → Bool
  /-- What a key that does not submit makes of the collected line. -/
  edit : List β → κ → List β
  /-- The session after a submitting key and its line. -/
  execute : σ → κ → List β → σ

namespace Discipline
variable {κ β σ : Type*} (D : Discipline κ β σ)

/-- One key: the session and the line collected so far. -/
def step (x : σ × List β) (k : κ) : σ × List β :=
  if D.submits k then (D.execute x.1 k x.2, []) else (x.1, D.edit x.2 k)

def run (x : σ × List β) (ks : List κ) : σ × List β := ks.foldl D.step x

/-! ## The off-line reading -/

/-- Cut the keys after each submitting key.  The second component is the
unsubmitted rest. -/
def segments : List κ → List (List κ × κ) × List κ
  | [] => ([], [])
  | k :: ks =>
    if D.submits k then (([], k) :: (segments ks).1, (segments ks).2)
    else
      match segments ks with
      | ([], rest) => ([], k :: rest)
      | ((seg, k') :: segs, rest) => ((k :: seg, k') :: segs, rest)

/-- The line a segment collects, starting from `kept`. -/
def collect (kept : List β) (seg : List κ) : List β := seg.foldl D.edit kept

/-- Execute the line of each segment in turn. -/
def replay (x : σ × List β) : List (List κ × κ) → σ × List β
  | [] => x
  | (seg, k) :: segs => replay (D.execute x.1 k (D.collect x.2 seg), []) segs

def reference (x : σ × List β) (ks : List κ) : σ × List β :=
  let y := D.replay x (D.segments ks).1
  (y.1, D.collect y.2 (D.segments ks).2)

theorem reference_cons (x : σ × List β) (k : κ) (ks : List κ) :
    D.reference x (k :: ks) = D.reference (D.step x k) ks := by
  unfold reference step
  rw [segments]
  split
  · rfl
  · rcases D.segments ks with ⟨_ | ⟨⟨seg, k'⟩, segs⟩, rest⟩ <;> rfl

/-- **The on-line and the off-line readings agree.** -/
theorem run_eq_reference (x : σ × List β) (ks : List κ) : D.run x ks = D.reference x ks := by
  induction ks generalizing x with
  | nil => rfl
  | cons k ks ih => rw [reference_cons, ← ih]; rfl

/-! ## Typing lines -/

section Typing
variable (key : β → κ) (enter : κ)

/-- The keys that type a line and submit it. -/
def typed (line : List β) : List κ := line.map key ++ [enter]

/-- `key` types the bytes of `line`: each appends itself and submits nothing. -/
def Types (line : List β) : Prop :=
  ∀ b ∈ line, D.submits (key b) = false ∧ ∀ kept, D.edit kept (key b) = kept ++ [b]

variable {key enter} {D}

theorem Types.tail {b : β} {line : List β} (h : D.Types key (b :: line)) : D.Types key line :=
  fun c hc => h c (List.mem_cons_of_mem _ hc)

theorem Types.step {b : β} {line : List β} (h : D.Types key (b :: line)) (s : σ) (kept : List β) :
    D.step (s, kept) (key b) = (s, kept ++ [b]) := by
  obtain ⟨hs, he⟩ := h b List.mem_cons_self
  simp [Discipline.step, hs, he]

theorem run_line (henter : D.submits enter = true) {line : List β} (h : D.Types key line)
    (s : σ) (kept : List β) :
    D.run (s, kept) (typed key enter line) = (D.execute s enter (kept ++ line), []) := by
  unfold typed
  induction line generalizing kept with
  | nil => simp [run, Discipline.step, henter]
  | cons b line ih =>
    have hrest := ih h.tail (kept ++ [b])
    rw [List.append_assoc, List.singleton_append] at hrest
    rw [← hrest, ← h.step s kept]
    rfl

/-- **Typing the lines is executing them.** -/
theorem run_typed (henter : D.submits enter = true) {lines : List (List β)}
    (h : ∀ l ∈ lines, D.Types key l) (s : σ) :
    D.run (s, []) (lines.flatMap (typed key enter)) =
      (lines.foldl (fun s l => D.execute s enter l) s, []) := by
  induction lines generalizing s with
  | nil => rfl
  | cons l lines ih =>
    have hl := run_line henter (h l List.mem_cons_self) s []
    rw [List.flatMap_cons, run, List.foldl_append, ← run, ← run, hl, List.nil_append,
      ih fun m hm => h m (List.mem_cons_of_mem _ hm), List.foldl_cons]

end Typing

/-! ## Stopping when the session is done -/

section Until
variable (done : σ → Bool)

/-- Run until the session is done, and return the keys not read. -/
def runUntil : σ × List β → List κ → (σ × List β) × List κ
  | x, [] => (x, [])
  | x, k :: ks =>
    if done (D.step x k).1 then (D.step x k, ks) else runUntil (D.step x k) ks

/-- Execute lines until the session is done, and return the lines not read. -/
def executeUntil (enter : κ) : σ → List (List β) → σ × List (List β)
  | s, [] => (s, [])
  | s, l :: ls =>
    if done (D.execute s enter l) then (D.execute s enter l, ls)
    else executeUntil enter (D.execute s enter l) ls

variable {key : β → κ} {enter : κ} {D} {done}

theorem runUntil_line (henter : D.submits enter = true) {line : List β} (h : D.Types key line)
    {s : σ} (hs : done s = false) (kept : List β) (rest : List κ) :
    D.runUntil done (s, kept) (typed key enter line ++ rest) =
      if done (D.execute s enter (kept ++ line)) then ((D.execute s enter (kept ++ line), []), rest)
      else D.runUntil done (D.execute s enter (kept ++ line), []) rest := by
  unfold typed
  induction line generalizing kept with
  | nil => simp [runUntil, Discipline.step, henter]
  | cons b line ih =>
    have hrest := ih h.tail (kept ++ [b])
    rw [List.append_assoc kept, List.singleton_append] at hrest
    rw [← hrest, List.map_cons, List.cons_append, List.cons_append, runUntil, h.step s kept]
    simp [hs]

/-- **Both readings stop at the same line**, in the same session. -/
theorem runUntil_typed (henter : D.submits enter = true) {lines : List (List β)}
    (h : ∀ l ∈ lines, D.Types key l) {s : σ} (hs : done s = false) :
    D.runUntil done (s, []) (lines.flatMap (typed key enter)) =
      (((D.executeUntil done enter s lines).1, []),
        (D.executeUntil done enter s lines).2.flatMap (typed key enter)) := by
  induction lines generalizing s with
  | nil => rfl
  | cons l lines ih =>
    rw [List.flatMap_cons, runUntil_line henter (h l List.mem_cons_self) hs, List.nil_append,
      executeUntil]
    split
    · rfl
    · rename_i hdone
      exact ih (fun m hm => h m (List.mem_cons_of_mem _ hm)) (by simpa using hdone)

end Until
end Discipline
end LineDiscipline
