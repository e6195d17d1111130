import Csopesy.Transition

/-! # The shutdown flag

`shutdownRequested` of `include/csopesy/shutdown.hpp`, which both backends write the
same way: read `g_shutdownRequested`, store 0, return what was read.  The handler
stores 1 at any moment.  The read, the clearing store and each delivery are
separate steps; `owed` is bookkeeping: a delivery has happened since a call last
returned true.

A request is lost when a delivery lands between a read of 0 and the store that
follows it.  That is the only way (`shutdown_kept_iff`).
-/
namespace Csopesy
open Transition

structure ShutdownFlag where
  g_shutdownRequested : Bool := false
  /-- `requested` of a call in progress. -/
  requested : Option Bool := none
  owed : Bool := false
deriving DecidableEq, Repr

namespace ShutdownFlag

inductive Event
  /-- A run of the signal or console-control handler. -/
  | deliver
  /-- `const bool requested = g_shutdownRequested != 0;` -/
  | read
  /-- `g_shutdownRequested = 0; return requested;` -/
  | clear
deriving DecidableEq, Repr

def next (s : ShutdownFlag) : Event → Option ShutdownFlag
  | .deliver => some { s with g_shutdownRequested := true, owed := true }
  | .read =>
    match s.requested with
    | none => some { s with requested := some s.g_shutdownRequested }
    | some _ => none
  | .clear =>
    match s.requested with
    | none => none
    | some requested =>
      some { s with
        g_shutdownRequested := false, requested := none, owed := s.owed && !requested }

/-- The handler and the input thread, from a clear flag. -/
def system : LTS ShutdownFlag Event where
  init s := s = {}
  step s e t := s.next e = some t

/-- Outside a call, a delivery since the last true result has left no trace. -/
def Lost (s : ShutdownFlag) : Prop :=
  s.requested = none ∧ s.owed = true ∧ s.g_shutdownRequested = false

/-- What holds while no delivery lands inside a call that has read 0. -/
def Kept (s : ShutdownFlag) : Prop :=
  match s.requested with
  | none => s.owed = true → s.g_shutdownRequested = true
  | some true => True
  | some false => s.owed = false

theorem Kept.not_lost {s : ShutdownFlag} (h : Kept s) : ¬ Lost s := by
  rintro ⟨hout, howed, hflag⟩
  unfold Kept at h
  rw [hout] at h
  exact absurd (hflag.symm.trans (h howed)) (by decide)

theorem Kept.step {s t : ShutdownFlag} {e : Event} (h : Kept s) (hst : s.next e = some t)
    (hsafe : e = .deliver → s.requested ≠ some false) : Kept t := by
  obtain ⟨flag, requested, owed⟩ := s
  cases e with
  | deliver =>
    obtain rfl := Option.some.inj hst
    cases requested with
    | none => exact fun _ => rfl
    | some r =>
      cases r with
      | true => trivial -- the call in progress answers this delivery as well
      | false => exact absurd rfl (hsafe rfl)
  | read =>
    cases requested with
    | none =>
      obtain rfl := Option.some.inj hst
      cases flag with
      | true => trivial
      | false =>
        show owed = false
        cases owed with
        | false => rfl
        | true => exact absurd (h rfl) (by decide)
    | some r => exact absurd hst (by simp [next])
  | clear =>
    cases requested with
    | none => exact absurd hst (by simp [next])
    | some r =>
      obtain rfl := Option.some.inj hst
      cases r with
      | true =>
        intro howed
        exact absurd howed (by simp)
      | false =>
        have howed : owed = false := h
        subst howed
        intro hf
        have hf' : false = true := hf
        exact Bool.noConfusion hf'

theorem run_unique {s t t' : ShutdownFlag} {es : List Event} (h : system.Run s es t)
    (h' : system.Run s es t') : t = t' := by
  induction h with
  | nil =>
    cases h'
    rfl
  | cons hst _ ih =>
    cases h' with
    | cons hst' h' =>
      obtain rfl := Option.some.inj (hst.symm.trans hst')
      exact ih h'

/-- Along a run without such a delivery, no request is lost. -/
theorem kept_of_safe {s t : ShutdownFlag} {es : List Event} (h : system.Run s es t) (hs : Kept s)
    (hsafe : ∀ pre post u, es = pre ++ .deliver :: post → system.Run s pre u →
      u.requested ≠ some false) : Kept t := by
  induction h with
  | nil => exact hs
  | @cons s u t e es hst _ ih =>
    refine ih (hs.step hst ?_) ?_
    · rintro rfl
      exact hsafe [] es s rfl (.nil s)
    · rintro pre post v rfl hrun
      exact hsafe (e :: pre) post v rfl (.cons hst hrun)

/-- A call that read 0 and overlaps a delivery ends with the request lost. -/
theorem lost_of_overlap {s t : ShutdownFlag} {es : List Event} (h : system.Run s es t)
    (hreq : s.requested = some false) (howed : s.owed = true) (hout : t.requested = none) :
    ∃ pre post u, es = pre ++ post ∧ system.Run s pre u ∧ Lost u := by
  induction h with
  | nil => exact absurd (hreq.symm.trans hout) (by simp)
  | @cons s u t e es hst hrun ih =>
    obtain ⟨flag, requested, owed⟩ := s
    obtain rfl : requested = some false := hreq
    obtain rfl : owed = true := howed
    cases e with
    | deliver =>
      obtain rfl := Option.some.inj hst
      obtain ⟨pre, post, v, rfl, hpre, hlost⟩ := ih rfl rfl hout
      exact ⟨.deliver :: pre, post, v, rfl, .cons hst hpre, hlost⟩
    | read =>
      have hstuck : (none : Option ShutdownFlag) = some u := hst
      exact absurd hstuck (by simp)
    | clear =>
      obtain rfl := Option.some.inj hst
      exact ⟨[.clear], es, _, rfl, .cons hst (.nil _), rfl, rfl, rfl⟩

/-- **When a shutdown request is kept.**  In a run that ends outside a call, no
state reached has lost a request exactly when no delivery lands inside a call that
has read 0. -/
theorem shutdown_kept_iff {s : ShutdownFlag} {es : List Event} (h : system.Run {} es s)
    (hout : s.requested = none) :
    (∀ pre post t, es = pre ++ post → system.Run {} pre t → ¬ Lost t) ↔
      ∀ pre post t, es = pre ++ .deliver :: post → system.Run {} pre t →
        t.requested ≠ some false := by
  constructor
  · rintro hkept pre post t rfl hpre hreq
    obtain ⟨t', hpre', hpost⟩ := h.of_append
    obtain rfl := run_unique hpre hpre'
    cases hpost with
    | @cons _ u _ _ _ hst hpost =>
      obtain rfl := Option.some.inj hst
      obtain ⟨mid, rest, v, rfl, hmid, hlost⟩ := lost_of_overlap hpost hreq rfl hout
      exact hkept (pre ++ .deliver :: mid) rest v (by simp) (hpre.append (.cons hst hmid)) hlost
  · rintro hsafe pre post t rfl hpre
    refine (kept_of_safe hpre (fun howed => absurd howed (by decide)) ?_).not_lost
    rintro pre' post' u rfl hrun
    exact hsafe pre' (post' ++ post) u (by simp) hrun

/-- The input thread reads 0, the signal is delivered, the input thread clears the
flag: the delivery is lost. -/
theorem shutdown_lost :
    system.Run {} [.read, .deliver, .clear]
      { g_shutdownRequested := false, requested := none, owed := true } ∧
    Lost { g_shutdownRequested := false, requested := none, owed := true } :=
  ⟨.cons rfl (.cons rfl (.cons rfl (.nil _))), rfl, rfl, rfl⟩

/-- A signal outside a call, and another between a read of 1 and its store: both
are answered by the true result. -/
theorem shutdown_kept_iff_answered :
    system.Run {} [.deliver, .read, .deliver, .clear] {} ∧
      ∀ pre post t, [Event.deliver, .read, .deliver, .clear] = pre ++ post →
        system.Run {} pre t → ¬ Lost t := by
  have hrun : system.Run {} [.deliver, .read, .deliver, .clear] {} :=
    .cons rfl (.cons rfl (.cons rfl (.cons rfl (.nil _))))
  refine ⟨hrun, (shutdown_kept_iff hrun rfl).mpr ?_⟩
  intro pre post t heq hpre
  rcases pre with _ | ⟨_, _ | ⟨_, _ | ⟨_, _ | ⟨_, pre⟩⟩⟩⟩ <;> simp at heq
  · cases hpre
    decide
  · obtain ⟨rfl, rfl, -⟩ := heq
    have hread : system.Run {} [.deliver, .read] _ := .cons rfl (.cons rfl (.nil _))
    rw [run_unique hpre hread]
    decide

end ShutdownFlag
end Csopesy
