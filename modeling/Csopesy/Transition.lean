import Mathlib.Tactic

/-! # Transition systems, progress and observers

A transition system is a set of initial states and a labelled step relation.
Its **reachable** states satisfy every predicate that holds initially and is
kept by each step (`Invariant.of_step`), and its **runs** are the label
sequences of consecutive steps.  Three rules are used for runs: a predicate kept
by the permitted labels holds at the end (`Run.preserves`), the number of
labels of one kind is bounded by a potential that each of them lowers
(`Run.countP_le`), and enough of them lead to what ends a ranked phase
(`Run.leads_to`).

A **refinement mapping** sends the states of one system to those of another so
that every step of the first is a step of the second or leaves the image alone;
it carries reachability forward (`Refines.reachable`) and invariants back
(`Refines.invariant`).

A sequence of states **progresses** towards a goal when a measure drops at every step
that has not reached it.  Such a sequence reaches its goal (`Progresses.eventually`),
also when it stands still at finitely many steps first, and stays there when the goal
is kept (`eventually_always`).  For a function that is called again and again the
sequence is the one of its iterates (`iterate_eventually`).

An **observer** of a machine sees of each action a list of events, possibly none, and
follows them on a machine of its own whose state is a projection of the real one
(`Observation`).  Two runs that show the observer the same events then end in the
same projection (`project_run_eq`) and give the same answers to everything that the
projection determines along the way (`views_eq`), however they differ otherwise.
-/
namespace Transition

structure LTS (σ α : Type*) where
  init : σ → Prop
  step : σ → α → σ → Prop

namespace LTS
variable {σ τ α β : Type*} (S : LTS σ α) (A : LTS τ β)

/-- The states a system reaches from its initial states. -/
inductive Reachable : σ → Prop
  | init {s : σ} : S.init s → Reachable s
  | step {s t : σ} {a : α} : Reachable s → S.step s a t → Reachable t

/-- `Run s as t`: performing the labels `as` in order leads from `s` to `t`. -/
inductive Run : σ → List α → σ → Prop
  | nil (s : σ) : Run s [] s
  | cons {s t u : σ} {a : α} {as : List α} : S.step s a t → Run t as u → Run s (a :: as) u

/-- `P` holds in every reachable state. -/
def Invariant (P : σ → Prop) : Prop := ∀ s, S.Reachable s → P s

variable {S A} {P Q : σ → Prop}

/-- The invariant rule; a step may use that its source is reachable. -/
theorem Invariant.of_step (hinit : ∀ s, S.init s → P s)
    (hstep : ∀ s a t, S.Reachable s → P s → S.step s a t → P t) : S.Invariant P := by
  intro s hs
  induction hs with
  | init h => exact hinit _ h
  | step hr h ih => exact hstep _ _ _ hr ih h

/-! ## Runs -/

theorem Run.reachable {s t : σ} {as : List α} (h : S.Run s as t) (hs : S.Reachable s) :
    S.Reachable t := by
  induction h with
  | nil => exact hs
  | cons hst _ ih => exact ih (hs.step hst)

theorem Run.append {s t u : σ} {as bs : List α} (h : S.Run s as t) (h' : S.Run t bs u) :
    S.Run s (as ++ bs) u := by
  induction h with
  | nil => exact h'
  | cons hst _ ih => exact .cons hst (ih h')

theorem Run.of_append {s u : σ} {as bs : List α} (h : S.Run s (as ++ bs) u) :
    ∃ t, S.Run s as t ∧ S.Run t bs u := by
  induction as generalizing s with
  | nil => exact ⟨s, .nil s, h⟩
  | cons a as ih =>
    cases h with
    | cons hst h =>
      obtain ⟨t, h1, h2⟩ := ih h
      exact ⟨t, .cons hst h1, h2⟩

/-- A predicate kept by every step whose label satisfies `p` survives a run of
such labels. -/
theorem Run.preserves {p : α → Prop}
    (hstep : ∀ s a t, S.Reachable s → p a → P s → S.step s a t → P t)
    {s t : σ} {as : List α} (h : S.Run s as t) (hr : S.Reachable s) (has : ∀ a ∈ as, p a)
    (hs : P s) : P t := by
  induction h with
  | nil => exact hs
  | cons hst _ ih =>
    refine ih (hr.step hst) (fun b hb => has b (List.mem_cons_of_mem _ hb)) ?_
    exact hstep _ _ _ hr (has _ List.mem_cons_self) hs hst

/-- A predicate of the labels performed so far and of the state, kept by every step. -/
theorem Run.preserves_labels {I : List α → σ → Prop}
    (hstep : ∀ as s a t, S.Reachable s → I as s → S.step s a t → I (as ++ [a]) t)
    {s t : σ} (as : List α) {bs : List α} (h : S.Run s bs t) (hr : S.Reachable s)
    (hs : I as s) : I (as ++ bs) t := by
  induction h generalizing as with
  | nil =>
    rw [List.append_nil]
    exact hs
  | cons hst _ ih =>
    have hrest := ih _ (hr.step hst) (hstep as _ _ _ hr hs hst)
    rw [List.append_assoc] at hrest
    exact hrest

/-- **The potential rule.**  If `f` never rises while `P` holds and drops at
each label satisfying `p`, a run holds at most `f s` such labels. -/
theorem Run.countP_le {p : α → Bool} {f : σ → Nat}
    (hstep : ∀ s a t, S.Reachable s → P s → S.step s a t →
      P t ∧ f t + (if p a then 1 else 0) ≤ f s)
    {s t : σ} {as : List α} (h : S.Run s as t) (hr : S.Reachable s) (hs : P s) :
    as.countP p ≤ f s := by
  induction h with
  | nil => exact Nat.zero_le _
  | cons hst _ ih =>
    obtain ⟨hP, hle⟩ := hstep _ _ _ hr hs hst
    have hrest := ih (hr.step hst) hP
    rw [List.countP_cons]
    omega

/-- **The response rule.**  While `P` holds, each label is permitted by `q`, a positive rank
never rises and drops at each label satisfying `p`, and only `Q` ends `P`; then a run with
enough such labels meets `Q`, not later than the rank says and by permitted labels. -/
theorem Run.leads_to {p : α → Bool} {q : α → Prop} {f : σ → Nat} {s t : σ} {as : List α}
    (h : S.Run s as t)
    (hstep : ∀ s a u bs, S.Reachable s → P s → S.step s a u → S.Run u bs t →
      (P u ∨ Q u) ∧ f u + (if p a then 1 else 0) ≤ f s ∧ q a)
    (hpos : ∀ s, P s → 0 < f s) (hr : S.Reachable s) (hs : P s) (hcount : f s ≤ as.countP p) :
    ∃ pre u post, as = pre ++ post ∧ S.Run s pre u ∧ S.Run u post t ∧ Q u ∧
      pre.countP p ≤ f s ∧ ∀ a ∈ pre, q a := by
  induction h with
  | nil s =>
    have hzero : 0 < f s := hpos s hs
    rw [List.countP_nil] at hcount
    omega
  | @cons s u t a as hst hrun ih =>
    obtain ⟨hPQ, hle, hq⟩ := hstep s a u as hr hs hst hrun
    rcases hPQ with hP | hQ
    · rw [List.countP_cons] at hcount
      obtain ⟨pre, v, post, rfl, hpre, hpost, hv, hbound, hall⟩ :=
        ih hstep (hr.step hst) hP (by omega)
      refine ⟨a :: pre, v, post, rfl, .cons hst hpre, hpost, hv, ?_, ?_⟩
      · rw [List.countP_cons]
        omega
      · exact List.forall_mem_cons.mpr ⟨hq, hall⟩
    · refine ⟨[a], u, as, rfl, .cons hst (.nil u), hrun, hQ, ?_, List.forall_mem_singleton.mpr hq⟩
      rw [List.countP_cons, List.countP_nil]
      omega

/-- A run as a sequence of states that rests at its end. -/
theorem Run.exists_sequence {s t : σ} {as : List α} (h : S.Run s as t) :
    ∃ x : Nat → σ, x 0 = s ∧ (∀ i, i < as.length → ∃ a ∈ as, S.step (x i) a (x (i + 1))) ∧
      ∀ i, as.length ≤ i → x i = t := by
  induction h with
  | nil s => exact ⟨fun _ => s, rfl, fun i hi => absurd hi (Nat.not_lt_zero i), fun _ _ => rfl⟩
  | @cons s u t a as hst _ ih =>
    obtain ⟨x, hzero, hsteps, hrest⟩ := ih
    refine ⟨fun i => if i = 0 then s else x (i - 1), rfl, fun i hi => ?_, fun i hi => ?_⟩
    · cases i with
      | zero =>
        refine ⟨a, List.mem_cons_self, ?_⟩
        show S.step s a (x 0)
        rw [hzero]
        exact hst
      | succ i =>
        obtain ⟨b, hb, hstep⟩ := hsteps i (Nat.lt_of_succ_lt_succ hi)
        exact ⟨b, List.mem_cons_of_mem _ hb, hstep⟩
    · have hpos : 0 < i := Nat.lt_of_lt_of_le (Nat.zero_lt_succ _) hi
      show (if i = 0 then s else x (i - 1)) = t
      rw [if_neg (Nat.ne_of_gt hpos)]
      exact hrest _ (Nat.le_sub_one_of_lt hi)

/-! ## Refinement mappings -/

variable (S A) in
/-- Under `f`, every step of `S` is a step of `A` or leaves the image alone. -/
structure Refines (f : σ → τ) : Prop where
  init : ∀ s, S.init s → A.init (f s)
  step : ∀ s a t, S.Reachable s → S.step s a t → f t = f s ∨ ∃ b, A.step (f s) b (f t)

/-- The image of a reachable state is reachable. -/
theorem Refines.reachable {f : σ → τ} (h : Refines S A f) {s : σ} (hs : S.Reachable s) :
    A.Reachable (f s) := by
  induction hs with
  | init h0 => exact .init (h.init _ h0)
  | step hr hst ih =>
    rcases h.step _ _ _ hr hst with heq | ⟨b, hb⟩
    · rw [heq]
      exact ih
    · exact ih.step hb

/-- An invariant of the refined system holds of the image. -/
theorem Refines.invariant {f : σ → τ} (h : Refines S A f) {I : τ → Prop} (hI : A.Invariant I) :
    S.Invariant (fun s => I (f s)) :=
  fun _ hs => hI _ (h.reachable hs)

end LTS
end Transition

/-! ## Progress by a measure -/

namespace Progress
variable {σ : Type*} {s : Nat → σ} {goal : σ → Prop} {μ : σ → Nat} {n : Nat}

/-- From step `n` on the measure drops until the goal. -/
def Progresses (s : Nat → σ) (goal : σ → Prop) (μ : σ → Nat) (n : Nat) : Prop :=
  ∀ i, n ≤ i → goal (s i) ∨ μ (s (i + 1)) < μ (s i)

theorem Progresses.eventually (h : Progresses s goal μ n) : ∃ i, n ≤ i ∧ goal (s i) := by
  induction hm : μ (s n) using Nat.strong_induction_on generalizing n with
  | _ m ih =>
    rcases h n (Nat.le_refl n) with hgoal | hdrop
    · exact ⟨n, Nat.le_refl n, hgoal⟩
    · have hlater : Progresses s goal μ (n + 1) := fun i hi => h i (by omega)
      obtain ⟨i, hi, hgoal⟩ := ih _ (hm ▸ hdrop) hlater rfl
      exact ⟨i, by omega, hgoal⟩

/-- A goal that every step keeps is never left. -/
theorem kept_of_le (s : Nat → σ) (goal : σ → Prop) (hkept : ∀ i, goal (s i) → goal (s (i + 1)))
    {i j : Nat} (hij : i ≤ j) (hgoal : goal (s i)) : goal (s j) := by
  induction hij with
  | refl => exact hgoal
  | step _ ih => exact hkept _ ih

theorem eventually_always (h : Progresses s goal μ n) (hkept : ∀ i, goal (s i) → goal (s (i + 1))) :
    ∃ i, ∀ j, i ≤ j → goal (s j) := by
  obtain ⟨i, -, hgoal⟩ := h.eventually
  exact ⟨i, fun j hij => kept_of_le s goal hkept hij hgoal⟩

/-- Calls of `f` reach the goal when each call before it keeps the invariant `I` and
lowers the measure. -/
theorem iterate_eventually (goal : σ → Prop) (μ : σ → Nat) (I : σ → Prop) {f : σ → σ}
    (hkept : ∀ x, I x → I (f x))
    (hdrop : ∀ x, I x → goal x ∨ μ (f x) < μ x) {x : σ} (hx : I x) : ∃ i, goal (f^[i] x) := by
  have hI : ∀ i, I (f^[i] x) := by
    intro i
    induction i with
    | zero => exact hx
    | succ i ih =>
      rw [Function.iterate_succ_apply']
      exact hkept _ ih
  have hprogress : Progresses (fun i => f^[i] x) goal μ 0 := by
    intro i _
    dsimp only
    rw [Function.iterate_succ_apply']
    exact hdrop _ (hI i)
  obtain ⟨i, -, hgoal⟩ := hprogress.eventually
  exact ⟨i, hgoal⟩

end Progress

/-! ## Runs that an observer cannot tell apart -/

namespace NonInterference
variable {σ α τ ε ω : Type*}

/-- What an observer follows of the machine `exec`. -/
structure Observation (σ α τ ε : Type*) where
  exec : σ → α → σ
  observe : σ → α → List ε
  project : σ → τ
  step : τ → ε → τ
  commutes : ∀ s a, project (exec s a) = (observe s a).foldl step (project s)

/-- The answers of the observer's machine to a list of events. -/
def answers (step : τ → ε → τ) (answer : τ → ε → List ω) : τ → List ε → List ω
  | _, [] => []
  | t, e :: es => answer t e ++ answers step answer (step t e) es

theorem answers_append (step : τ → ε → τ) (answer : τ → ε → List ω) (t : τ) (es es' : List ε) :
    answers step answer t (es ++ es') =
      answers step answer t es ++ answers step answer (es.foldl step t) es' := by
  induction es generalizing t with
  | nil => rfl
  | cons e es ih => rw [List.cons_append, answers, answers, ih, List.append_assoc, List.foldl_cons]

namespace Observation
variable (o : Observation σ α τ ε)

def run (s : σ) (as : List α) : σ := as.foldl o.exec s

/-- The events of a run. -/
def trace : σ → List α → List ε
  | _, [] => []
  | s, a :: as => o.observe s a ++ trace (o.exec s a) as

/-- The answers of the real machine along a run. -/
def views (view : σ → α → List ω) : σ → List α → List ω
  | _, [] => []
  | s, a :: as => view s a ++ views view (o.exec s a) as

/-- The projection of a run is the observer's run. -/
theorem project_run (s : σ) (as : List α) :
    o.project (o.run s as) = (o.trace s as).foldl o.step (o.project s) := by
  induction as generalizing s with
  | nil => rfl
  | cons a as ih =>
    rw [trace, List.foldl_append, ← o.commutes]
    exact ih (o.exec s a)

/-- **Equal events, equal projections.** -/
theorem project_run_eq {s s' : σ} {as as' : List α} (hstart : o.project s = o.project s')
    (htrace : o.trace s as = o.trace s' as') :
    o.project (o.run s as) = o.project (o.run s' as') := by
  rw [project_run, project_run, hstart, htrace]

theorem views_eq_answers {view : σ → α → List ω} {answer : τ → ε → List ω}
    (h : ∀ s a, view s a = answers o.step answer (o.project s) (o.observe s a)) (s : σ)
    (as : List α) : o.views view s as = answers o.step answer (o.project s) (o.trace s as) := by
  induction as generalizing s with
  | nil => rfl
  | cons a as ih => rw [views, trace, answers_append, ← o.commutes, ← h, ih]

/-- **Equal events, equal answers.** -/
theorem views_eq {view : σ → α → List ω} {answer : τ → ε → List ω}
    (h : ∀ s a, view s a = answers o.step answer (o.project s) (o.observe s a)) {s s' : σ}
    {as as' : List α} (hstart : o.project s = o.project s')
    (htrace : o.trace s as = o.trace s' as') : o.views view s as = o.views view s' as' := by
  rw [o.views_eq_answers h, o.views_eq_answers h, hstart, htrace]

end Observation
end NonInterference
