import Csopesy.Transition

/-! # Mutexes, condition variables and dirty flags

Three parts of a monitor, over arbitrary threads and guarded values.

A mutex is **owned** by exactly the thread whose program point is inside it; a
step that locks, unlocks or leaves the mutex keeps that (`Owned.step`), so no two
threads are inside at once (`Owned.unique`).

A condition variable: a waiter goes to sleep only while its predicate is false,
and whoever makes a sleeper's predicate true owes a notification afterwards.  A
notification reaches the threads asleep at that moment and no other; `notifyOne`
is enough where only one waiter can be asleep.  No wake-up is lost: a sleeper
whose predicate is true has a notification coming (`not_lost`).

A document is edited by one party and painted by another.  An edit sets a dirty flag;
a painter clears it when it builds a picture of the document, and presents the
picture later, possibly after further edits.  Several edits may share one
picture, and a picture may be built although the flag is clear.  The flag is sound
(`current`): while it is clear, the picture in flight, or with none in flight the last
one presented, shows the document as it is now.
-/
namespace Monitor
open Transition

/-! ## The mutex -/

section Mutex
variable {θ : Type*} {owner owner' : Option θ} {inside inside' : θ → Bool}

/-- The owner is the thread inside; nobody is inside a free mutex. -/
def Owned (owner : Option θ) (inside : θ → Bool) : Prop :=
  ∀ th, owner = some th ↔ inside th = true

/-- What a step of `th` does to the owner and to whether `th` is inside. -/
inductive Handover (th : θ) : Option θ → Bool → Option θ → Bool → Prop
  | keep {owner : Option θ} {b : Bool} : Handover th owner b owner b
  | lock {b : Bool} : Handover th none b (some th) true
  | unlock {owner : Option θ} : Handover th owner true none false

theorem Owned.step (h : Owned owner inside) (th : θ)
    (hth : Handover th owner (inside th) owner' (inside' th))
    (hother : ∀ x, x ≠ th → inside' x = inside x) : Owned owner' inside' := by
  have hself := h th
  intro x
  by_cases hx : x = th
  · subst hx
    generalize inside x = b at hth hself
    generalize inside' x = b' at hth
    cases hth with
    | keep => exact hself
    | lock => simp
    | unlock => simp
  · rw [hother x hx]
    have hxi := h x
    generalize inside th = b at hth hself
    generalize inside' th = b' at hth
    cases hth with
    | keep => exact hxi
    | lock =>
      -- nobody was inside the free mutex
      refine ⟨fun he => absurd (Option.some.inj he).symm hx, fun hin => ?_⟩
      exact absurd (hxi.mpr hin) (by simp)
    | unlock =>
      -- the thread that left was the only one inside
      refine ⟨fun he => absurd he (by simp), fun hin => ?_⟩
      have howner := hself.mpr rfl
      rw [howner] at hxi
      exact absurd (Option.some.inj (hxi.mpr hin)).symm hx

theorem Owned.unique (h : Owned owner inside) {x y : θ} (hx : inside x = true)
    (hy : inside y = true) : x = y :=
  Option.some.inj (((h x).mpr hx).symm.trans ((h y).mpr hy))

end Mutex

/-! ## The condition variable -/

/-- The guarded value, what each sleeping thread waits for, and whether a
notification is still to come. -/
structure CondVar (ι ω γ : Type*) where
  value : γ
  asleep : ι → Option ω
  pending : Bool

namespace CondVar
variable {ι ω γ : Type*} [DecidableEq ι] (pred : ω → γ → Bool)

inductive Step : CondVar ι ω γ → CondVar ι ω γ → Prop
  /-- A change that owes a notification. -/
  | update {c : CondVar ι ω γ} (v : γ) : Step c { c with value := v, pending := true }
  /-- A change that makes no sleeper's predicate true. -/
  | settle {c : CondVar ι ω γ} (v : γ)
      (h : ∀ i w, c.asleep i = some w → pred w v = true → pred w c.value = true) :
      Step c { c with value := v }
  | sleep {c : CondVar ι ω γ} (i : ι) (w : ω) (h : pred w c.value = false) :
      Step c { c with asleep := Function.update c.asleep i (some w) }
  /-- A time-out or a spurious wake-up. -/
  | wake {c : CondVar ι ω γ} (i : ι) :
      Step c { c with asleep := Function.update c.asleep i none }
  | notifyAll {c : CondVar ι ω γ} : Step c { c with asleep := fun _ => none, pending := false }
  | notifyOne {c : CondVar ι ω γ} (i : ι) (h : ∀ j, c.asleep j ≠ none → j = i) :
      Step c { c with asleep := Function.update c.asleep i none, pending := false }

/-- The condition variable as a transition system, with nobody asleep at first. -/
def system (v : γ) : LTS (CondVar ι ω γ) Unit where
  init c := c.value = v ∧ ∀ i, c.asleep i = none
  step c _ d := Step pred c d

/-- **No lost wake-up.**  A sleeper whose predicate is true has a notification
coming. -/
theorem not_lost (v : γ) : (system (ι := ι) pred v).Invariant
    (fun c => ∀ i w, c.asleep i = some w → pred w c.value = true → c.pending = true) := by
  refine LTS.Invariant.of_step ?_ ?_
  · rintro c ⟨-, hnone⟩ i w hi
    exact absurd ((hnone i).symm.trans hi) (by simp)
  · rintro c _ d - ih hstep i w hi hp
    have hupdate : ∀ j (o : Option ω), Function.update c.asleep j o i = some w →
        (j = i ∧ o = some w) ∨ c.asleep i = some w := by
      intro j o h
      by_cases hj : i = j
      · subst hj
        rw [Function.update_self] at h
        exact .inl ⟨rfl, h⟩
      · rw [Function.update_of_ne hj] at h
        exact .inr h
    cases hstep with
    | update v => rfl
    | settle v h => exact ih i w hi (h i w hi hp)
    | sleep j w' hfalse =>
      rcases hupdate j _ hi with ⟨rfl, he⟩ | hi
      · obtain rfl := Option.some.inj he
        exact absurd (hfalse.symm.trans hp) Bool.false_ne_true
      · exact ih i w hi hp
    | wake j =>
      rcases hupdate j _ hi with ⟨-, he⟩ | hi
      · exact absurd he (by simp)
      · exact ih i w hi hp
    | notifyAll => exact absurd hi (by simp)
    | notifyOne j hone =>
      rcases hupdate j _ hi with ⟨-, he⟩ | hi'
      · exact absurd he (by simp)
      · -- the only sleeper was woken
        obtain rfl := hone i (by simp [hi'])
        have hnone : Function.update c.asleep i none i = none := Function.update_self ..
        exact absurd (hnone.symm.trans hi) (by simp)

end CondVar
end Monitor

/-! ## Repainting behind a dirty flag -/

namespace Repaint
open Transition

/-- The document, its flag, the picture built but not yet presented, and the last
one presented. -/
structure Painter (δ φ : Type*) where
  doc : δ
  dirty : Bool
  inFlight : Option φ
  shown : Option φ

namespace Painter
variable {δ φ : Type*} (shows : φ → δ → Prop)

inductive Step : Painter δ φ → Painter δ φ → Prop
  | edit {p : Painter δ φ} (d : δ) : Step p { p with doc := d, dirty := true }
  | build {p : Painter δ φ} (f : φ) (h : shows f p.doc) (hidle : p.inFlight = none) :
      Step p { p with dirty := false, inFlight := some f }
  | present {p : Painter δ φ} (f : φ) (h : p.inFlight = some f) :
      Step p { p with inFlight := none, shown := some f }

/-- A document that owes its first picture. -/
def system (d : δ) : LTS (Painter δ φ) Unit where
  init p := p.doc = d ∧ p.dirty = true ∧ p.inFlight = none
  step p _ q := Step shows p q

/-- The newest picture shows the document. -/
def Current (p : Painter δ φ) : Prop :=
  match p.inFlight with
  | some f => shows f p.doc
  | none => ∃ f, p.shown = some f ∧ shows f p.doc

/-- **A clear flag means that the newest picture is current.** -/
theorem current (d : δ) : (system shows d).Invariant (fun p => p.dirty = false → p.Current shows) := by
  refine LTS.Invariant.of_step ?_ ?_
  · rintro p ⟨-, hdirty, -⟩ hclean
    exact absurd (hdirty.symm.trans hclean) (by decide)
  · rintro p _ q - ih hstep hclean
    cases hstep with
    | edit d => exact absurd hclean (by simp)
    | build f h hidle => exact h
    | present f h =>
      have hcur := ih hclean
      unfold Current at hcur
      rw [h] at hcur
      exact ⟨f, rfl, hcur⟩

end Painter
end Repaint
